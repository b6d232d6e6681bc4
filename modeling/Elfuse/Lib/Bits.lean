/-
Bit fields of natural numbers, as quotients and remainders.

Masking with a run of ones is a quotient and a remainder in disguise
(`and_field`); a mask distributes over a disjunction, so the fields of a word
assembled with `|||` are read back one by one (`and_or_and`).
-/
import Mathlib.Data.Nat.Bitwise

namespace Bits

open Nat

/-- The field of `n` bits from bit `k` on, left in its place. -/
lemma and_field (x k n : ℕ) : x &&& ((2 ^ n - 1) <<< k) = x / 2 ^ k % 2 ^ n * 2 ^ k := by
  apply eq_of_testBit_eq
  intro i
  rw [testBit_and, testBit_shiftLeft, testBit_two_pow_sub_one,
    ← shiftLeft_eq, testBit_shiftLeft, testBit_mod_two_pow, ← shiftRight_eq_div_pow,
    testBit_shiftRight]
  by_cases hk : k ≤ i
  · rw [show k + (i - k) = i by omega]
    cases hx : x.testBit i <;> simp [hk]
  · simp [hk]

/-- A mask over a word assembled from a masked value and constant bits. -/
lemma and_or_and (x a c m : ℕ) : ((x &&& a) ||| c) &&& m = (x &&& (a &&& m)) ||| (c &&& m) := by
  rw [Nat.and_or_distrib_right, Nat.and_assoc]

/-- The masked value is read back when the constant bits lie outside the mask. -/
lemma and_or_self (x : ℕ) (hc : c &&& m = 0) : ((x &&& m) ||| c) &&& m = x &&& m := by
  rw [and_or_and, Nat.and_self, hc, Nat.or_zero]

end Bits
