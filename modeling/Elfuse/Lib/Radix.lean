/-
Radix trees laid out in a store.

A store `S : A → I → D` holds tables: `S a i` is the word at index `i` of the
table at address `a`. Some words point to a further table (`child`), so from a
root the store unfolds into a tree, and a path of indices, innermost first,
leads to the address `node S root p` of a table. Nothing in the store keeps two
paths from meeting in one table; `Separated` says that none do, down to a
depth `n`, and this is what makes a write to one table invisible to all others:

* `node_set_same` — a write that leaves the pointer alone moves no table;
* `node_set_deepest` — nor does a write to a table at the last level;
* `node_set_fresh` — hanging a fresh table into an empty slot adds one path;
* `entry_set` — what a write changes, read through the paths.
-/
import Mathlib.Data.List.Basic

namespace Radix

open List

variable {A I D : Type*} [DecidableEq A] [DecidableEq I] (child : D → Option A)

/-- The table a path of indices leads to, last index first. -/
def node (S : A → I → D) (root : A) : List I → Option A
  | [] => some root
  | i :: p => (node S root p).bind fun a => child (S a i)

/-- No two paths of length at most `n` lead to one table. -/
def Separated (S : A → I → D) (root : A) (n : ℕ) : Prop :=
  ∀ p q a, p.length ≤ n → q.length ≤ n → node child S root p = some a →
    node child S root q = some a → p = q

def set (S : A → I → D) (a : A) (i : I) (d : D) : A → I → D :=
  fun b j => if b = a ∧ j = i then d else S b j

def setPage (S : A → I → D) (a : A) (f : I → D) : A → I → D :=
  fun b j => if b = a then f j else S b j

variable {child} {S : A → I → D} {root : A} {n : ℕ}

lemma set_self (S : A → I → D) (a : A) (i : I) (d : D) : set S a i d a i = d :=
  if_pos ⟨rfl, rfl⟩

lemma set_of_ne (h : ¬ (b = a ∧ j = i)) : set S a i d b j = S b j :=
  if_neg h

/-- A write that does not change the pointer at its slot moves no table. -/
lemma node_set_same (h : child d = child (S a i)) (q : List I) :
    node child (set S a i d) root q = node child S root q := by
  have hchild : ∀ b j, child (set S a i d b j) = child (S b j) := by
    intro b j
    by_cases hb : b = a ∧ j = i
    · obtain ⟨rfl, rfl⟩ := hb
      rw [set_self]
      exact h
    · rw [set_of_ne hb]
  induction q with
  | nil => rfl
  | cons j q ih =>
    show (node child (set S a i d) root q).bind _ = _
    rw [ih]
    simp only [hchild]
    rfl

omit [DecidableEq A] [DecidableEq I] in
/-- A path reads only tables strictly above its own. -/
lemma node_congr
    (hsame : ∀ r b j, r.length < n → node child S root r = some b → child (S' b j) =
        child (S b j)) :
    ∀ q, q.length ≤ n → node child S' root q = node child S root q := by
  intro q
  induction q with
  | nil => exact fun _ => rfl
  | cons j q ih =>
    intro hq
    rw [length_cons] at hq
    show (node child S' root q).bind _ = (node child S root q).bind _
    rw [ih (by omega)]
    cases hn : node child S root q with
    | none => rfl
    | some b => exact hsame q b j (by omega) hn

/-- A write to a table at depth `n` is below everything a path of length at most
`n` reads. -/
lemma node_set_deepest (hsep : Separated child S root n) (hp : node child S root p = some a)
    (hlen : p.length = n) (q : List I) (hq : q.length ≤ n) :
    node child (set S a i d) root q = node child S root q := by
  refine node_congr (fun r b j hr hb => ?_) q hq
  rw [set_of_ne]
  rintro ⟨rfl, -⟩
  have := hsep r p b (by omega) (by omega) hb hp
  rw [this] at hr
  omega

omit [DecidableEq I] in
/-- Rewriting a table no path reaches moves nothing. -/
lemma node_setPage_unreached (hf : ∀ r, r.length ≤ n → node child S root r ≠ some f)
    (t : I → D) (q : List I) (hq : q.length ≤ n) :
    node child (setPage S f t) root q = node child S root q := by
  refine node_congr (fun r b j hr hb => ?_) q hq
  have hne : b ≠ f := by
    rintro rfl
    exact hf r (by omega) hb
  rw [setPage, if_neg hne]

section
variable (hsep : Separated child S root n)
include hsep

omit [DecidableEq A] [DecidableEq I] in
/-- Two words of the tree share a place only when they are the same word. -/
lemma slot_eq_iff (hp : node child S root p = some a) (hplen : p.length ≤ n)
    (hq : node child S root q = some b) (hqlen : q.length ≤ n) :
    (b = a ∧ j = i) ↔ (q = p ∧ j = i) := by
  constructor
  · rintro ⟨rfl, rfl⟩
    exact ⟨hsep q p b hqlen hplen hq hp, rfl⟩
  · rintro ⟨rfl, rfl⟩
    exact ⟨Option.some_inj.mp (hq.symm.trans hp), rfl⟩

/-- What a write changes, read through the paths. -/
lemma entry_set (hp : node child S root p = some a) (hplen : p.length ≤ n)
    (hq : node child S root q = some b) (hqlen : q.length ≤ n) (j : I) :
    set S a i d b j = if q = p ∧ j = i then d else S b j := by
  by_cases h : q = p ∧ j = i
  · rw [if_pos h, set, if_pos ((slot_eq_iff hsep hp hplen hq hqlen).mpr h)]
  · rw [if_neg h, set_of_ne fun hc => h ((slot_eq_iff hsep hp hplen hq hqlen).mp hc)]

/-- Hanging a fresh table `f` into an empty slot: the path to the slot now leads
to `f`, and every other path leads where it did. -/
lemma node_set_fresh (hp : node child S root p = some a) (hplen : p.length < n)
    (hempty : child (S a i) = none) (hd : child d = some f)
    (hfresh : ∀ r, r.length ≤ n → node child S root r ≠ some f)
    (hleaf : p.length + 1 < n → ∀ j, child (S f j) = none) :
    ∀ q, q.length ≤ n → node child (set S a i d) root q
      = if q = i :: p then some f else node child S root q := by
  intro q
  induction q with
  | nil =>
    intro _
    rw [if_neg (by simp)]
    rfl
  | cons j q ih =>
    intro hq
    rw [length_cons] at hq
    show (node child (set S a i d) root q).bind _ = _
    rw [ih (by omega)]
    by_cases hqp : q = i :: p
    · -- below the new table there is nothing, before and after
      have hfa : f ≠ a := by
        rintro rfl
        exact hfresh p (by omega) hp
      have hne : ¬ (j :: q = i :: p) := by
        rintro h
        have := congrArg length h
        rw [hqp] at this
        simp at this
      have hbelow : node child S root q = none := by
        rw [hqp]
        show (node child S root p).bind _ = none
        rw [hp]
        exact hempty
      rw [if_pos hqp, if_neg hne]
      show child (set S a i d f j) = (node child S root q).bind _
      rw [hbelow, set_of_ne fun h => hfa h.1, hleaf (by rw [hqp, length_cons] at hq; omega)]
      rfl
    rw [if_neg hqp]
    cases hn : node child S root q with
    | none =>
      have hne : ¬ (j :: q = i :: p) := by
        rintro h
        obtain ⟨rfl, rfl⟩ := cons_eq_cons.mp h
        rw [hp] at hn
        cases hn
      rw [if_neg hne]
      show none = (node child S root q).bind _
      rw [hn]
      rfl
    | some b =>
      show child (set S a i d b j) = _
      rw [entry_set hsep hp (by omega) hn (by omega)]
      by_cases h : q = p ∧ j = i
      · rw [if_pos h, if_pos (by rw [h.1, h.2]), hd]
      rw [if_neg h, if_neg fun hc => h (by
        obtain ⟨rfl, rfl⟩ := cons_eq_cons.mp hc
        exact ⟨rfl, rfl⟩)]
      show _ = (node child S root q).bind _
      rw [hn]
      rfl

lemma separated_set_fresh (hp : node child S root p = some a) (hplen : p.length < n)
    (hempty : child (S a i) = none) (hd : child d = some f)
    (hfresh : ∀ r, r.length ≤ n → node child S root r ≠ some f)
    (hleaf : p.length + 1 < n → ∀ j, child (S f j) = none) :
    Separated child (set S a i d) root n := by
  have hnode := node_set_fresh hsep hp hplen hempty hd hfresh hleaf
  intro q r b hq hr hqb hrb
  rw [hnode q hq] at hqb
  rw [hnode r hr] at hrb
  by_cases h1 : q = i :: p
  · by_cases h2 : r = i :: p
    · rw [h1, h2]
    rw [if_pos h1] at hqb
    rw [if_neg h2] at hrb
    exact absurd (hrb.trans hqb.symm) (hfresh r hr)
  by_cases h2 : r = i :: p
  · rw [if_neg h1] at hqb
    rw [if_pos h2] at hrb
    exact absurd (hqb.trans hrb.symm) (hfresh q hq)
  rw [if_neg h1] at hqb
  rw [if_neg h2] at hrb
  exact hsep q r b hq hr hqb hrb

omit [DecidableEq A] [DecidableEq I] in
/-- Where the paths lead where they did, the tree stays separated. -/
lemma Separated.congr (h : ∀ q, q.length ≤ n → node child S' root q = node child S root q) :
    Separated child S' root n := by
  intro p q b hp hq hpb hqb
  rw [h p hp] at hpb
  rw [h q hq] at hqb
  exact hsep p q b hp hq hpb hqb

end

end Radix
