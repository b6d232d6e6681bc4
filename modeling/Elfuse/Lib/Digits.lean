/-
Numbers spelled most significant digit first.

`ofBE b l` is the number the list `l` spells in base `b`, and `streamValue b f t`
the one the first `t` digits of a stream `f` spell. Regrouping the digits of a
stream changes the base and not the number, which is what a packer that cuts
one stream of bits in two ways rests on:

* `ofBE_inj` — as many digits and one value leave one spelling;
* `streamValue_add`, `streamValue_group` — a stream read in two parts, or in
  groups of `k` digits;
* `streamValue_shifts` — the digits of a number spell it.
-/
import Mathlib.Data.Nat.Digits.Lemmas

namespace Digits

open List Nat

def ofBE (b : ℕ) (l : List ℕ) : ℕ := Nat.ofDigits b l.reverse

@[simp] lemma ofBE_concat (b : ℕ) (l : List ℕ) (d : ℕ) : ofBE b (l ++ [d]) = ofBE b l * b + d := by
  rw [ofBE, reverse_append, reverse_singleton, singleton_append, ofDigits_cons, ofBE]
  ring

variable {b : ℕ}

/-- Two spellings of one length and one value are the same spelling. -/
lemma ofBE_inj (hb : 1 < b) (hlen : l.length = m.length) (hl : ∀ d ∈ l, d < b)
    (hm : ∀ d ∈ m, d < b) (h : ofBE b l = ofBE b m) : l = m := by
  apply reverse_injective
  apply ofDigits_inj_of_len_eq hb _ _ _ h
  · rw [length_reverse, length_reverse, hlen]
  · intro d hd
    exact hl d (mem_reverse.mp hd)
  · intro d hd
    exact hm d (mem_reverse.mp hd)

/-! ### Streams of digits -/

def streamValue (b : ℕ) (f : ℕ → ℕ) : ℕ → ℕ
  | 0 => 0
  | t + 1 => streamValue b f t * b + f t

lemma ofBE_map_range (b : ℕ) (f : ℕ → ℕ) (t : ℕ) :
    ofBE b ((range t).map f) = streamValue b f t := by
  induction t with
  | zero => rfl
  | succ t ih =>
    rw [range_succ, map_append, map_singleton, ofBE_concat, ih, streamValue]

lemma streamValue_congr (h : ∀ i < t, f i = g i) : streamValue b f t = streamValue b g t := by
  induction t with
  | zero => rfl
  | succ t ih =>
    rw [streamValue, streamValue, ih fun i hi => h i (by omega), h t (by omega)]

/-- Reading `s + t` digits is reading `s` of them and then `t`. -/
lemma streamValue_add (b : ℕ) (f : ℕ → ℕ) (s t : ℕ) : streamValue b f (s + t) =
      streamValue b f s * b ^ t + streamValue b (fun i => f (s + i)) t := by
  induction t with
  | zero => simp [streamValue]
  | succ t ih =>
    rw [← add_assoc, streamValue, ih, streamValue, pow_succ]
    ring

/-- The digits read in groups of `k` spell the same number in base `b ^ k`. -/
lemma streamValue_group (b : ℕ) (f : ℕ → ℕ) (k t : ℕ) : streamValue b f (k * t) =
      streamValue (b ^ k) (fun i => streamValue b (fun j => f (k * i + j)) k) t := by
  induction t with
  | zero => rfl
  | succ t ih => rw [mul_succ, streamValue_add, ih, streamValue]

lemma streamValue_lt (hf : ∀ i, f i < b) (t : ℕ) : streamValue b f t < b ^ t := by
  induction t with
  | zero => exact Nat.one_pos
  | succ t ih =>
    calc streamValue b f t * b + f t < streamValue b f t * b + b := Nat.add_lt_add_left (hf t) _
      _ = (streamValue b f t + 1) * b := by ring
      _ ≤ b ^ t * b := Nat.mul_le_mul_right b ih
      _ = b ^ (t + 1) := (pow_succ b t).symm

lemma streamValue_zeros (h : ∀ i < t, f i = 0) : streamValue b f t = 0 := by
  induction t with
  | zero => rfl
  | succ t ih => rw [streamValue, ih fun i hi => h i (by omega), h t (by omega), zero_mul]

/-- The digits of a number of `w` digits, read from the top, spell its top part. -/
lemma streamValue_shifts (hx : x < b ^ w) (ht : t ≤ w) :
    streamValue b (fun i => x / b ^ (w - 1 - i) % b) t = x / b ^ (w - t) := by
  induction t with
  | zero => rw [streamValue, Nat.sub_zero, Nat.div_eq_of_lt hx]
  | succ t ih =>
    have hw : w - t = (w - 1 - t) + 1 := by omega
    rw [streamValue, ih (by omega), hw, pow_succ, ← Nat.div_div_eq_div_mul,
      show w - (t + 1) = w - 1 - t by omega, Nat.div_add_mod']

end Digits
