/-
Halving searches over an index range.

Two loop shapes recur wherever a sorted array is searched:

* `partitionPoint below n lo hi` — the first index of `[lo, hi)` at which the
  monotone test `below` fails (`partitionPoint_spec`);
* `bisect probe n lo hi` — a three-way search that stops at the first index
  whose probe answers `Ordering.eq` (`bisect_eq_some`, `bisect_eq_none`).

Both take the number of halvings they may make as fuel; `hi - lo` of it is
always enough, so the callers pass the length of the array.
-/
import Mathlib.Data.Nat.Basic
import Mathlib.Tactic.Common

namespace Search

/-- Lower-bound search: keep the half of `[lo, hi)` in which `below` flips. -/
def partitionPoint (below : ℕ → Bool) : ℕ → ℕ → ℕ → ℕ
  | 0, lo, _ => lo
  | n + 1, lo, hi =>
    if lo < hi then
      if below (lo + (hi - lo) / 2) then
        partitionPoint below n (lo + (hi - lo) / 2 + 1) hi
      else
        partitionPoint below n lo (lo + (hi - lo) / 2)
    else lo

/-- Everything of `[lo, hi)` before the result passes `below`, and nothing from
the result on does. -/
lemma partitionPoint_spec (hmono : ∀ i j, i ≤ j → j < N → below j → below i) :
    ∀ (n lo hi : ℕ), lo ≤ hi → hi ≤ N → hi - lo ≤ n →
      lo ≤ partitionPoint below n lo hi ∧ partitionPoint below n lo hi ≤ hi ∧
      (∀ i, lo ≤ i → i < partitionPoint below n lo hi → below i) ∧
      (∀ i, partitionPoint below n lo hi ≤ i → i < hi → below i = false) := by
  intro n
  induction n with
  | zero =>
    intro lo hi hle _ hfuel
    have : hi = lo := by omega
    subst this
    exact ⟨le_rfl, le_rfl, fun i h1 h2 => absurd h2 (by simp only [partitionPoint]; omega),
      fun i h1 h2 => absurd h1 (by simp only [partitionPoint]; omega)⟩
  | succ n ih =>
    intro lo hi hle hN hfuel
    by_cases hlt : lo < hi
    · set mid := lo + (hi - lo) / 2 with hmid
      by_cases hb : below mid
      · have hstep : partitionPoint below (n + 1) lo hi = partitionPoint below n (mid + 1) hi := by
          rw [partitionPoint, if_pos hlt, ← hmid, if_pos hb]
        obtain ⟨h1, h2, h3, h4⟩ := ih (mid + 1) hi (by omega) hN (by omega)
        rw [hstep]
        refine ⟨by omega, h2, fun i hi1 hi2 => ?_, h4⟩
        by_cases hi3 : mid + 1 ≤ i
        · exact h3 i hi3 hi2
        · exact hmono i mid (by omega) (by omega) hb
      have hstep : partitionPoint below (n + 1) lo hi = partitionPoint below n lo mid := by
        rw [partitionPoint, if_pos hlt, ← hmid, if_neg hb]
      obtain ⟨h1, h2, h3, h4⟩ := ih lo mid (by omega) (by omega) (by omega)
      rw [hstep]
      refine ⟨h1, by omega, h3, fun i hi1 hi2 => ?_⟩
      by_cases hi3 : i < mid
      · exact h4 i hi1 hi3
      · by_contra hc
        exact hb (hmono mid i (by omega) (by omega) (by simpa using hc))
    · have : hi = lo := by omega
      subst this
      rw [partitionPoint, if_neg hlt]
      exact ⟨le_rfl, le_rfl, fun i h1 h2 => absurd h2 (by omega),
        fun i h1 h2 => absurd h1 (by omega)⟩

/-- Three-way search: `probe i` says whether the wanted index lies before,
at or after `i`. -/
def bisect (probe : ℕ → Ordering) : ℕ → ℕ → ℕ → Option ℕ
  | 0, _, _ => none
  | n + 1, lo, hi =>
    if lo < hi then
      match probe ((lo + (hi - 1)) / 2) with
      | .lt => bisect probe n lo ((lo + (hi - 1)) / 2)
      | .gt => bisect probe n ((lo + (hi - 1)) / 2 + 1) hi
      | .eq => some ((lo + (hi - 1)) / 2)
    else none

lemma bisect_eq_some : ∀ {n lo hi i : ℕ},
    bisect probe n lo hi = some i → lo ≤ i ∧ i < hi ∧ probe i = .eq := by
  intro n
  induction n with
  | zero =>
    intro lo hi i h
    simp [bisect] at h
  | succ n ih =>
    intro lo hi i h
    by_cases hlt : lo < hi
    · rw [bisect, if_pos hlt] at h
      cases hp : probe ((lo + (hi - 1)) / 2) with
      | lt =>
        rw [hp] at h
        obtain ⟨h1, h2, h3⟩ := ih h
        exact ⟨h1, by omega, h3⟩
      | gt =>
        rw [hp] at h
        obtain ⟨h1, h2, h3⟩ := ih h
        exact ⟨by omega, h2, h3⟩
      | eq =>
        rw [hp] at h
        obtain rfl := Option.some_inj.mp h
        exact ⟨by omega, by omega, hp⟩
    · rw [bisect, if_neg hlt] at h
      exact absurd h (by simp)

/-- If the probes are monotone (`gt` before the wanted index, `lt` after it),
the search misses nothing. -/
lemma bisect_eq_none (hlt : ∀ i j, i ≤ j → j < N → probe i = .lt → probe j = .lt)
    (hgt : ∀ i j, i ≤ j → j < N → probe j = .gt → probe i = .gt) :
    ∀ {n lo hi : ℕ}, hi ≤ N → hi - lo ≤ n → bisect probe n lo hi = none →
      ∀ i, lo ≤ i → i < hi → probe i ≠ .eq := by
  intro n
  induction n with
  | zero =>
    intro lo hi _ hfuel _ i h1 h2
    omega
  | succ n ih =>
    intro lo hi hN hfuel h i h1 h2
    rw [bisect, if_pos (by omega : lo < hi)] at h
    cases hp : probe ((lo + (hi - 1)) / 2) with
    | lt =>
      rw [hp] at h
      by_cases hi3 : i < (lo + (hi - 1)) / 2
      · exact ih (by omega) (by omega) h i h1 hi3
      · rw [hlt _ i (by omega) (by omega) hp]
        simp
    | gt =>
      rw [hp] at h
      by_cases hi3 : (lo + (hi - 1)) / 2 + 1 ≤ i
      · exact ih hN (by omega) h i hi3 h2
      · rw [hgt i _ (by omega) (by omega) hp]
        simp
    | eq =>
      rw [hp] at h
      exact absurd h (by simp)

end Search
