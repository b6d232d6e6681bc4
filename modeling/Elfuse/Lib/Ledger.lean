/-
Who has what.

Parties have lists of assets, and of each asset there is a certain number. The
books balance (`Holds`) when the shares of all parties in each asset add up to
that number. A step that hands assets from one party to another, makes new ones
or gives some up is checked at the parties it touches (`Holds.change`,
`Holds.change_one`, `Holds.change_two`). From the balance one reads that what
somebody has is there (`Holds.pos`), that what is there somebody has
(`Holds.of_pos`), and that a thing of which there is one has one owner
(`Holds.unique`).
-/
import Mathlib.Algebra.Order.BigOperators.Group.Finset

namespace Ledger

open Finset Nat

variable {α κ : Type} [DecidableEq α]

/-- The shares of the parties in each asset add up to the number there is of it. -/
def Holds (size : α → ℕ) (has : κ → List α) : Prop :=
  ∀ a, ∃ s : Finset κ, (∀ k, a ∈ has k → k ∈ s) ∧ ∑ k ∈ s, (has k).count a = size a

variable {size : α → ℕ} {has : κ → List α}

lemma Holds.pos (h : Holds size has) (hk : a ∈ has k) : 0 < size a := by
  obtain ⟨s, hs, hsum⟩ := h a
  rw [← hsum]
  exact lt_of_lt_of_le (List.count_pos_iff.mpr hk)
    (single_le_sum (f := fun k => (has k).count a) (fun _ _ => zero_le _) (hs k hk))

lemma Holds.of_pos (h : Holds size has) (ha : 0 < size a) : ∃ k, a ∈ has k := by
  obtain ⟨s, -, hsum⟩ := h a
  rw [← hsum] at ha
  obtain ⟨k, -, hk⟩ := exists_ne_zero_of_sum_ne_zero (ne_of_gt ha)
  exact ⟨k, List.count_pos_iff.mp (pos_of_ne_zero hk)⟩

variable [DecidableEq κ]

section
variable (h : Holds size has)
include h

/-- The sum may be taken over any larger set of parties. -/
lemma Holds.sum_eq (a : α) (ks : Finset κ) :
    ∃ s : Finset κ, ks ⊆ s ∧ (∀ k, a ∈ has k → k ∈ s) ∧ ∑ k ∈ s, (has k).count a = size a := by
  obtain ⟨s, hs, hsum⟩ := h a
  refine ⟨s ∪ ks, subset_union_right, fun k hk => mem_union_left _ (hs k hk), ?_⟩
  rw [← hsum]
  refine (sum_subset subset_union_left ?_).symm
  intro k _ hk
  exact List.count_eq_zero_of_not_mem fun ha => hk (hs k ha)

/-- Two parties together have no more than there is. -/
lemma Holds.add_le (hne : k ≠ k') (a : α) : (has k).count a + (has k').count a ≤ size a := by
  obtain ⟨s, hks, -, hsum⟩ := h.sum_eq a {k, k'}
  rw [← hsum, ← sum_pair (f := fun k => (has k).count a) hne]
  exact sum_le_sum_of_subset hks

lemma Holds.count_le (k : κ) (a : α) : (has k).count a ≤ size a := by
  obtain ⟨s, hks, -, hsum⟩ := h.sum_eq a {k}
  rw [← hsum, ← sum_singleton (fun k => (has k).count a) k]
  exact sum_le_sum_of_subset hks

/-- A thing of which there is one has one owner. -/
lemma Holds.unique (hone : size a ≤ 1) (hk : a ∈ has k) (hk' : a ∈ has k') : k = k' := by
  by_contra hne
  have hle := h.add_le hne a
  have h1 := List.count_pos_iff.mpr hk
  have h2 := List.count_pos_iff.mpr hk'
  omega

/-- The books still balance when they do at the parties that a step touches. -/
lemma Holds.change (ks : Finset κ) (hsame : ∀ k, k ∉ ks → has' k = has k)
    (hsize : ∀ a, size' a + ∑ k ∈ ks, (has k).count a = size a + ∑ k ∈ ks, (has' k).count a) :
    Holds size' has' := by
  intro a
  obtain ⟨s, hks, hs, hsum⟩ := h.sum_eq a ks
  refine ⟨s, ?_, ?_⟩
  · intro k hk
    by_cases hmem : k ∈ ks
    · exact hks hmem
    · rw [hsame k hmem] at hk
      exact hs k hk
  have hsplit := sum_sdiff (f := fun k => (has k).count a) hks
  have hsplit' := sum_sdiff (f := fun k => (has' k).count a) hks
  have hrest : ∑ k ∈ s \ ks, (has' k).count a = ∑ k ∈ s \ ks, (has k).count a := by
    refine sum_congr rfl ?_
    intro k hk
    rw [hsame k (mem_sdiff.mp hk).2]
  have hbal := hsize a
  omega

lemma Holds.change_one (k : κ) (hsame : ∀ j, j ≠ k → has' j = has j)
    (hsize : ∀ a, size' a + (has k).count a = size a + (has' k).count a) : Holds size' has' := by
  refine h.change {k} (fun j hj => hsame j fun heq => hj (mem_singleton.mpr heq)) ?_
  intro a
  rw [sum_singleton, sum_singleton]
  exact hsize a

lemma Holds.change_two (hne : k ≠ k') (hsame : ∀ j, j ≠ k → j ≠ k' → has' j = has j)
    (hsize : ∀ a, size' a + ((has k).count a + (has k').count a) =
      size a + ((has' k).count a + (has' k').count a)) : Holds size' has' := by
  refine h.change {k, k'} ?_ ?_
  · intro j hj
    refine hsame j (fun heq => hj ?_) fun heq => hj ?_
    · rw [heq]
      exact mem_insert_self k {k'}
    · rw [heq]
      exact mem_insert_of_mem (mem_singleton_self k')
  · intro a
    rw [sum_pair hne, sum_pair hne]
    exact hsize a

/-- One party hands some of its assets to another. -/
lemma Holds.transfer (hne : k ≠ k') (hsame : ∀ j, j ≠ k → j ≠ k' → has' j = has j)
    (hperm : (has k ++ has k').Perm (has' k ++ has' k')) : Holds size has' := by
  refine h.change_two hne hsame ?_
  intro a
  rw [← List.count_append, ← List.count_append, hperm.count_eq a]

end

end Ledger
