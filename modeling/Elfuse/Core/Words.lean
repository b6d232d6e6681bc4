/-
Scanning the bits of a 64-bit word.

`bit_ctz64` gives the lowest set bit, and a loop that clears it each round
(`bits &= bits - 1`) visits the set bits from the lowest on; `setBits` is the
list it visits.

* `bitCtz64_spec` — the bit found is set and no lower one is;
* `firstBit_eq_find` — testing for zero and scanning is a search from bit 0 up.
-/
import Mathlib.Data.List.Basic

namespace Elfuse

open List

/-- Model of `bit_ctz64` on a word that is not zero. -/
def bitCtz64 (w : BitVec 64) : ℕ := ((List.range 64).find? fun i => w.getLsbD i).getD 64

/-- The bits a loop over `bits &= bits - 1` visits, in its order. -/
def setBits (w : BitVec 64) : List ℕ := (List.range 64).filter fun i => w.getLsbD i

lemma find_bit_eq_none {w : BitVec 64} :
    ((range 64).find? fun i => w.getLsbD i) = none ↔ w = 0 := by
  constructor
  · intro hf
    apply BitVec.eq_of_getLsbD_eq
    intro i hi
    have := find?_eq_none.mp hf i (mem_range.mpr hi)
    simpa using this
  · rintro rfl
    exact find?_eq_none.mpr fun i _ => by simp

/-- The lowest set bit of a word that is not zero. -/
lemma bitCtz64_spec (h : w ≠ 0) :
    bitCtz64 w < 64 ∧ w.getLsbD (bitCtz64 w) = true ∧ ∀ i < bitCtz64 w, w.getLsbD i = false := by
  unfold bitCtz64
  cases hf : (range 64).find? fun i => w.getLsbD i with
  | none => exact absurd (find_bit_eq_none.mp hf) h
  | some k =>
    have hk := find?_some hf
    have hmem := mem_range.mp (mem_of_find?_eq_some hf)
    refine ⟨hmem, hk, ?_⟩
    intro i hi
    obtain ⟨-, as, bs, heq, hbefore⟩ := find?_eq_some_iff_append.mp hf
    have hsorted : (range 64).Pairwise (· < ·) := pairwise_lt_range
    have himem : i ∈ as := by
      have hin : i ∈ range 64 := mem_range.mpr (by simp at hi; omega)
      rw [heq] at hin hsorted
      rcases mem_append.mp hin with hin | hin
      · exact hin
      rcases mem_cons.mp hin with rfl | hin
      · simp at hi
      have := (pairwise_append.mp hsorted).2.1
      have := (pairwise_cons.mp this).1 i hin
      simp at hi
      omega
    simpa using hbefore i himem

lemma firstBit_eq_find (w : BitVec 64) :
    (if w = 0 then none else some (bitCtz64 w)) = (range 64).find? fun i => w.getLsbD i := by
  by_cases h : w = 0
  · rw [if_pos h, find_bit_eq_none.mpr h]
  rw [if_neg h]
  cases hf : (range 64).find? fun i => w.getLsbD i with
  | none => exact absurd (find_bit_eq_none.mp hf) h
  | some k => rw [bitCtz64, hf, Option.getD_some]

end Elfuse
