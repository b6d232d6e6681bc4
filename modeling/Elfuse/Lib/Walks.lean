/-
Walks along a list that act on the first members meeting a test.

`pluck p n l` takes the first `n` members of `l` that meet `p` out of it;
`hitsWithin p q n l` asks whether one of those members meets `q`. A walk that
takes its members one at a time stays within what was asked about
(`hitsWithin_skip`, `hitsWithin_take`).
-/
import Mathlib.Data.List.Nodup
import Mathlib.Data.List.Perm.Subperm

namespace Walks

open List

variable {α : Type*} (p q : α → Bool)

/-- The first `n` members that meet `p`, and the rest in their order. -/
def pluck : ℕ → List α → List α × List α
  | 0, l => ([], l)
  | _ + 1, [] => ([], [])
  | n + 1, a :: l =>
    if p a then (a :: (pluck n l).1, (pluck n l).2)
    else ((pluck (n + 1) l).1, a :: (pluck (n + 1) l).2)

/-- Among the first `n` members that meet `p`, some member meets `q`. -/
def hitsWithin : ℕ → List α → Bool
  | 0, _ => false
  | _ + 1, [] => false
  | n + 1, a :: l => if p a then q a || hitsWithin n l else hitsWithin (n + 1) l

variable {p q}

lemma pluck_perm (n : ℕ) (l : List α) : ((pluck p n l).1 ++ (pluck p n l).2).Perm l := by
  induction l generalizing n with
  | nil => cases n <;> exact .refl _
  | cons a l ih =>
    cases n with
    | zero => exact .refl _
    | succ n =>
      rw [pluck]
      split
      · exact (ih n).cons a
      · exact perm_middle.trans ((ih (n + 1)).cons a)

lemma mem_pluck : a ∈ l ↔ a ∈ (pluck p n l).1 ∨ a ∈ (pluck p n l).2 := by
  rw [← (pluck_perm n l).mem_iff, mem_append]

lemma pluck_meets (h : a ∈ (pluck p n l).1) : p a := by
  induction l generalizing n with
  | nil =>
    cases n with
    | zero => cases h
    | succ n => cases h
  | cons b l ih =>
    cases n with
    | zero => cases h
    | succ n =>
      rw [pluck] at h
      split at h
      · rename_i hb
        obtain rfl | h := mem_cons.mp h
        · exact hb
        · exact ih h
      · exact ih h

lemma pluck_sublist (n : ℕ) (l : List α) : (pluck p n l).2.Sublist l := by
  induction l generalizing n with
  | nil => cases n <;> exact .refl _
  | cons a l ih =>
    cases n with
    | zero => exact .refl _
    | succ n =>
      rw [pluck]
      split
      · exact (ih n).cons a
      · exact (ih (n + 1)).cons_cons a

lemma pluck_nodup (h : l.Nodup) : (pluck p n l).1.Nodup ∧ (pluck p n l).2.Nodup ∧
      ∀ a ∈ (pluck p n l).1, a ∉ (pluck p n l).2 := by
  have happ := (pluck_perm (p := p) n l).nodup_iff.mpr h
  exact ⟨happ.of_append_left, happ.of_append_right, fun a h1 h2 =>
    (disjoint_of_nodup_append happ) h1 h2⟩

lemma hitsWithin_congr (h : ∀ a ∈ l, p' a = p a ∧ q' a = q a) (n : ℕ) :
    hitsWithin p' q' n l = hitsWithin p q n l := by
  induction l generalizing n with
  | nil => cases n <;> rfl
  | cons a l ih =>
    have ih' := ih fun x hx => h x (mem_cons_of_mem a hx)
    obtain ⟨hp, hq⟩ := h a mem_cons_self
    cases n with
    | zero => rfl
    | succ n => rw [hitsWithin, hitsWithin, hp, hq, ih' n, ih' (n + 1)]

/-- A member that does not meet `p` may be passed. -/
lemma hitsWithin_skip (ha : p a = false) : hitsWithin p q n (a :: l) = hitsWithin p q n l := by
  cases n with
  | zero =>
    cases l <;> rfl
  | succ n => rw [hitsWithin, ha, if_neg Bool.false_ne_true]

/-- The next member that meets `p` is one that was asked about. -/
lemma hitsWithin_take (ha : p a) (h : hitsWithin p q (n + 1) (a :: l) = false) :
    q a = false ∧ hitsWithin p q n l = false := by
  rw [hitsWithin, if_pos ha] at h
  exact Bool.or_eq_false_iff.mp h

end Walks
