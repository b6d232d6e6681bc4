/-
Tables of half-open intervals, kept in address order.

A table is a list of records `r` with bounds `[lo r, hi r)`. It is `Ordered`
when every record is non-empty and each one ends before the next begins; then
an address is covered by at most one record. The functions here say what the
list surgery of such a table keeps:

* `Ordered.replace` — put any ordered list that stays inside a record's bounds
  in the record's place (trimming, splitting, dropping, rewriting);
* `Ordered.merge` / `Ordered.insert` — fuse two neighbours, add a new record;
* `view_append` — the value an address sees is read off the pieces of the
  list, so replacing a piece by one with the same `view` changes nothing.
-/
import Mathlib.Data.List.Basic
import Mathlib.Data.List.Pairwise

namespace Intervals

open List

variable {ρ V : Type*} (lo hi : ρ → ℕ)

/-- Non-empty records, each ending no later than the next begins. -/
def Ordered (l : List ρ) : Prop :=
  (∀ r ∈ l, lo r < hi r) ∧ l.Pairwise fun a b => hi a ≤ lo b

instance (l : List ρ) : Decidable (Ordered lo hi l) :=
  inferInstanceAs (Decidable ((∀ r ∈ l, lo r < hi r) ∧ l.Pairwise fun a b => hi a ≤ lo b))

def covers (a : ℕ) (r : ρ) : Bool :=
  decide (lo r ≤ a) && decide (a < hi r)

/-- What an address sees through the table: the value `val r a` of the record
covering it. -/
def view (val : ρ → ℕ → V) (l : List ρ) (a : ℕ) : Option V :=
  (l.find? (covers lo hi a)).map fun r => val r a

section Order

variable {lo hi} {l : List ρ} {a b : ρ} {i j : ℕ}

lemma ordered_nil : Ordered lo hi [] :=
  ⟨by simp, List.Pairwise.nil⟩

lemma Ordered.append_iff : Ordered lo hi (l1 ++ l2) ↔
      Ordered lo hi l1 ∧ Ordered lo hi l2 ∧ ∀ a ∈ l1, ∀ b ∈ l2, hi a ≤ lo b := by
  unfold Ordered
  rw [pairwise_append]
  constructor
  · rintro ⟨hne, hp1, hp2, hx⟩
    exact ⟨⟨fun r hr => hne r (mem_append_left _ hr), hp1⟩,
      ⟨fun r hr => hne r (mem_append_right _ hr), hp2⟩, hx⟩
  rintro ⟨⟨hn1, hp1⟩, ⟨hn2, hp2⟩, hx⟩
  exact ⟨forall_mem_append.mpr ⟨hn1, hn2⟩, hp1, hp2, hx⟩

lemma Ordered.cons_iff :
    Ordered lo hi (r :: l) ↔ lo r < hi r ∧ Ordered lo hi l ∧ ∀ b ∈ l, hi r ≤ lo b := by
  unfold Ordered
  rw [pairwise_cons, forall_mem_cons]
  constructor
  · rintro ⟨⟨h1, h2⟩, h3, h4⟩
    exact ⟨h1, ⟨h2, h4⟩, h3⟩
  · rintro ⟨h1, ⟨h2, h4⟩, h3⟩
    exact ⟨⟨h1, h2⟩, h3, h4⟩

lemma ordered_singleton (h : lo r < hi r) : Ordered lo hi [r] :=
  Ordered.cons_iff.mpr ⟨h, ordered_nil, by simp⟩

lemma ordered_pair (ha : lo a < hi a) (hb : lo b < hi b) (hab : hi a ≤ lo b) :
    Ordered lo hi [a, b] :=
  Ordered.cons_iff.mpr ⟨ha, ordered_singleton hb, by simpa using hab⟩

lemma Ordered.drop (h : Ordered lo hi l) (i : ℕ) : Ordered lo hi (l.drop i) :=
  ⟨fun r hr => h.1 r (mem_of_mem_drop hr), h.2.sublist (drop_sublist i l)⟩

/-- Any ordered list inside the bounds of `r` may take its place. -/
lemma Ordered.replace (h : Ordered lo hi (l1 ++ r :: l2)) (hm : Ordered lo hi m)
    (hin : ∀ s ∈ m, lo r ≤ lo s ∧ hi s ≤ hi r) : Ordered lo hi (l1 ++ (m ++ l2)) := by
  obtain ⟨h1, h2, hx⟩ := Ordered.append_iff.mp h
  obtain ⟨hr, h2, hrx⟩ := Ordered.cons_iff.mp h2
  refine Ordered.append_iff.mpr ⟨h1, Ordered.append_iff.mpr ⟨hm, h2, fun s hs b hb => ?_⟩,
    fun a ha => ?_⟩
  · exact Nat.le_trans (hin s hs).2 (hrx b hb)
  obtain ⟨hle, hlater⟩ := forall_mem_cons.mp (hx a ha)
  exact forall_mem_append.mpr ⟨fun b hb => Nat.le_trans hle (hin b hb).1, hlater⟩

/-- Two neighbours become one record that spans both. -/
lemma Ordered.merge (h : Ordered lo hi (l1 ++ a :: b :: l2)) (hlo : lo c = lo a)
    (hhi : hi c = hi b) : Ordered lo hi (l1 ++ c :: l2) := by
  obtain ⟨h1, h2, hx⟩ := Ordered.append_iff.mp h
  obtain ⟨ha, h2, hax⟩ := Ordered.cons_iff.mp h2
  obtain ⟨hb, h2, hbx⟩ := Ordered.cons_iff.mp h2
  have hab : hi a ≤ lo b := hax b mem_cons_self
  refine Ordered.append_iff.mpr ⟨h1, Ordered.cons_iff.mpr ⟨by omega, h2, fun s hs => ?_⟩,
    fun s hs t ht => ?_⟩
  · rw [hhi]
    exact hbx s hs
  rcases mem_cons.mp ht with rfl | ht
  · rw [hlo]
    exact hx s hs a mem_cons_self
  · exact hx s hs t (mem_cons_of_mem _ (mem_cons_of_mem _ ht))

lemma Ordered.insert (h : Ordered lo hi (l1 ++ l2)) (hr : lo r < hi r)
    (h1 : ∀ s ∈ l1, hi s ≤ lo r) (h2 : ∀ s ∈ l2, hi r ≤ lo s) : Ordered lo hi (l1 ++ r :: l2) := by
  obtain ⟨hl, hr', hx⟩ := Ordered.append_iff.mp h
  exact Ordered.append_iff.mpr ⟨hl, Ordered.cons_iff.mpr ⟨hr, hr', h2⟩,
    fun s hs => forall_mem_cons.mpr ⟨h1 s hs, hx s hs⟩⟩

/-- An earlier record ends before a later one begins. -/
lemma Ordered.getElem?_le (h : Ordered lo hi l) (hij : i < j) (ha : l[i]? = some a)
    (hb : l[j]? = some b) : hi a ≤ lo b := by
  obtain ⟨hi', rfl⟩ := List.getElem?_eq_some_iff.mp ha
  obtain ⟨hj', rfl⟩ := List.getElem?_eq_some_iff.mp hb
  exact List.pairwise_iff_getElem.mp h.2 i j hi' hj' hij

lemma Ordered.nonempty (h : Ordered lo hi l) (ha : l[i]? = some a) : lo a < hi a :=
  h.1 a (mem_of_getElem? ha)

/-- Two records that share an address are the same record. -/
lemma Ordered.covers_unique (h : Ordered lo hi l) (ha : l[i]? = some a)
    (hb : l[j]? = some b) (hxa : covers lo hi x a) (hxb : covers lo hi x b) : i = j := by
  simp only [covers, Bool.and_eq_true, decide_eq_true_eq] at hxa hxb
  rcases Nat.lt_trichotomy i j with hij | hij | hij
  · have := h.getElem?_le hij ha hb
    omega
  · exact hij
  · have := h.getElem?_le hij hb ha
    omega

end Order

section View

variable {lo hi} {l : List ρ} {x : ℕ}

lemma covers_iff : covers lo hi x r ↔ lo r ≤ x ∧ x < hi r := by
  simp [covers]

lemma view_cons : view lo hi val (r :: l) x
    = if lo r ≤ x ∧ x < hi r then some (val r x) else view lo hi val l x := by
  by_cases h : covers lo hi x r
  · rw [if_pos (covers_iff.mp h), view, find?_cons_of_pos h]
    rfl
  · rw [if_neg (fun hc => h (covers_iff.mpr hc)), view, find?_cons_of_neg h]
    rfl

lemma view_append : view lo hi val (l1 ++ l2) x
    = (view lo hi val l1 x).or (view lo hi val l2 x) := by
  unfold view
  rw [find?_append]
  cases l1.find? (covers lo hi x) <;> rfl

/-- Nothing is seen where no record reaches. -/
lemma view_eq_none (h : ∀ r ∈ l, x < lo r ∨ hi r ≤ x) : view lo hi val l x = none := by
  induction l with
  | nil => rfl
  | cons r l ih =>
    rw [view_cons, if_neg, ih fun s hs => h s (mem_cons_of_mem _ hs)]
    have := h r mem_cons_self
    omega

/-- In an ordered table a record is seen at all its addresses, wherever it stands. -/
lemma Ordered.view_of_mem (h : Ordered lo hi l) (hr : r ∈ l) (hx : lo r ≤ x ∧ x < hi r) :
    view lo hi val l x = some (val r x) := by
  obtain ⟨l1, l2, rfl⟩ := append_of_mem hr
  have hbefore : ∀ s ∈ l1, hi s ≤ lo r := fun s hs =>
    (Ordered.append_iff.mp h).2.2 s hs r mem_cons_self
  rw [view_append, view_eq_none fun s hs => Or.inr (Nat.le_trans (hbefore s hs) hx.1), view_cons,
    if_pos hx, Option.none_or]

end View

end Intervals
