/-
Bounded queues kept in a ring of slots.

A ring of `n` slots holds `count` elements from slot `head` on, wrapping at the
end; what the other slots hold is of no account. Pushing writes behind the last
element and does nothing when the ring is full, popping moves the head, and an
emptied ring starts over at slot 0. Elements are removed from the middle by
compacting in place: the kept ones are moved towards the head one by one.

* `contents_push`, `contents_pop` — the ring is a queue;
* `contents_compact` — compacting is filtering, order included;
* `contents_modify` — editing in place is a map.
-/
import Mathlib.Data.Nat.ModEq
import Mathlib.Data.List.Basic

structure RingBuf (α : Type*) where
  slot : ℕ → α
  head : ℕ
  count : ℕ

namespace RingBuf

open List Function Nat

variable {α : Type*} (n : ℕ)

def window (slot : ℕ → α) (head i c : ℕ) : List α :=
  (List.range' i c).map fun j => slot ((head + j) % n)

def contents (r : RingBuf α) : List α := window n r.slot r.head 0 r.count

def push (r : RingBuf α) (x : α) : RingBuf α :=
  if n ≤ r.count then r
  else { r with
    slot := Function.update r.slot ((r.head + r.count) % n) x
    count := r.count + 1 }

def front (r : RingBuf α) : α := r.slot r.head

def pop (r : RingBuf α) : RingBuf α :=
  if r.count - 1 = 0 then { r with head := 0, count := 0 }
  else { r with head := (r.head + 1) % n, count := r.count - 1 }

/-- The loop that compacts: it reads place `i` and moves what it keeps to place `kept`. -/
def compactLoop (drop : α → Bool) (head : ℕ) : ℕ → ℕ → ℕ → (ℕ → α) → ℕ × (ℕ → α)
  | 0, _, kept, slot => (kept, slot)
  | c + 1, i, kept, slot =>
    let x := slot ((head + i) % n)
    if drop x then compactLoop drop head c (i + 1) kept slot
    else compactLoop drop head c (i + 1) (kept + 1)
      (Function.update slot ((head + kept) % n) x)

def compact (drop : α → Bool) (r : RingBuf α) : RingBuf α :=
  let p := compactLoop n drop r.head r.count 0 0 r.slot
  { slot := p.2
    head := if p.1 = r.count then r.head else if p.1 = 0 then 0 else r.head
    count := p.1 }

def modifyLoop (f : α → α) (head : ℕ) : ℕ → ℕ → (ℕ → α) → (ℕ → α)
  | 0, _, slot => slot
  | c + 1, i, slot =>
    modifyLoop f head c (i + 1)
      (Function.update slot ((head + i) % n) (f (slot ((head + i) % n))))

def modify (f : α → α) (r : RingBuf α) : RingBuf α :=
  { r with slot := modifyLoop n f r.head r.count 0 r.slot }

structure Valid (r : RingBuf α) : Prop where
  head_lt : r.head < n
  count_le : r.count ≤ n

variable {n} {head i : ℕ}

/-! ### Places -/

lemma place_inj (hi : i < n) (hj : j < n) (h : (head + i) % n = (head + j) % n) : i = j :=
  Nat.ModEq.eq_of_lt_of_lt (Nat.ModEq.add_left_cancel' head h) hi hj

lemma window_zero (slot : ℕ → α) (head i : ℕ) : window n slot head i 0 = [] := rfl

lemma window_succ (slot : ℕ → α) (head i c : ℕ) :
    window n slot head i (c + 1) = slot ((head + i) % n) :: window n slot head (i + 1) c := rfl

lemma window_concat (slot : ℕ → α) (head i c : ℕ) :
    window n slot head i (c + 1) = window n slot head i c ++ [slot ((head + (i + c)) % n)] := by
  unfold window
  rw [range'_concat, map_append, one_mul]
  rfl

/-- Writing to a place outside a window does not change it. -/
lemma window_update {slot : ℕ → α} {c k : ℕ} {x : α} (hk : k < n) (hc : i + c ≤ n)
    (hout : k < i ∨ i + c ≤ k) :
    window n (update slot ((head + k) % n) x) head i c = window n slot head i c := by
  apply map_congr_left
  intro j hj
  obtain ⟨hij, hjc⟩ := mem_range'_1.mp hj
  refine update_of_ne ?_ _ _
  intro heq
  have := place_inj (by omega) hk heq
  omega

lemma window_next_head (slot : ℕ → α) (head i c : ℕ) :
    window n slot ((head + 1) % n) i c = window n slot head (i + 1) c := by
  induction c generalizing i with
  | zero => rfl
  | succ c ih =>
    have hplace : ((head + 1) % n + i) % n = (head + (i + 1)) % n := by
      rw [mod_add_mod, add_assoc, add_comm 1 i]
    rw [window_succ, window_succ, ih, hplace]

lemma length_contents (r : RingBuf α) : (contents n r).length = r.count := by
  simp only [contents, window, length_map, length_range']

/-! ### The queue operations -/

lemma contents_push (r : RingBuf α) (x : α) : contents n (push n r x) =
      if n ≤ (contents n r).length then contents n r else contents n r ++ [x] := by
  rw [length_contents]
  unfold push
  by_cases h : n ≤ r.count
  · rw [if_pos h, if_pos h]
  rw [if_neg h, if_neg h]
  show window n (update r.slot _ x) r.head 0 (r.count + 1) = _
  rw [window_concat, zero_add, update_self, window_update (by omega) (by omega) (.inr (by omega))]
  rfl

lemma contents_eq_cons (hv : r.Valid n) (h : 0 < r.count) :
    contents n r = r.front :: contents n (pop n r) := by
  obtain ⟨c, hc⟩ := Nat.exists_eq_succ_of_ne_zero (by omega : r.count ≠ 0)
  have hfront : r.slot ((r.head + 0) % n) = r.front := by
    rw [Nat.add_zero, Nat.mod_eq_of_lt hv.head_lt, front]
  unfold contents pop
  rw [hc, Nat.succ_eq_add_one, window_succ, hfront, Nat.add_sub_cancel]
  by_cases h0 : c = 0
  · rw [if_pos h0, h0, window_zero]
    rfl
  rw [if_neg h0]
  rw [window_next_head]

lemma contents_pop (hv : r.Valid n) : contents n (pop n r) = (contents n r).tail := by
  by_cases h : 0 < r.count
  · rw [contents_eq_cons hv h, tail_cons]
  have h0 : r.count = 0 := by omega
  unfold contents pop
  rw [h0]
  rfl

/-! ### Editing in place -/

/-- What the compacting loop has moved, and what it still has to read. -/
lemma compactLoop_spec (drop : α → Bool) (head c i kept : ℕ) (slot : ℕ → α) (hk : kept ≤ i)
    (hn : i + c ≤ n) : window n (compactLoop n drop head c i kept slot).2 head 0
        (compactLoop n drop head c i kept slot).1 =
      window n slot head 0 kept ++ (window n slot head i c).filter fun x => !drop x := by
  induction c generalizing i kept slot with
  | zero => rw [compactLoop, window_zero, filter_nil, append_nil]
  | succ c ih =>
    rw [compactLoop, window_succ]
    by_cases hd : drop (slot ((head + i) % n)) = true
    · rw [if_pos hd, ih (i + 1) kept slot (by omega) (by omega), filter_cons_of_neg (by simp [hd])]
    rw [if_neg hd, ih (i + 1) (kept + 1) _ (by omega) (by omega),
      filter_cons_of_pos (by simp [hd]), window_concat, zero_add,
      update_self, window_update (by omega) (by omega) (.inr (by omega)),
      window_update (by omega) (by omega) (.inl (by omega)), append_assoc]
    rfl

lemma compactLoop_kept_le (drop : α → Bool) (head c i kept : ℕ) (slot : ℕ → α) :
    (compactLoop n drop head c i kept slot).1 ≤ kept + c := by
  induction c generalizing i kept slot with
  | zero => exact le_refl _
  | succ c ih =>
    rw [compactLoop]
    split
    · exact (ih _ _ _).trans (by omega)
    · exact (ih _ _ _).trans (by omega)

lemma contents_compact (drop : α → Bool) (hr : r.count ≤ n) :
    contents n (compact n drop r) = (contents n r).filter fun x => !drop x := by
  have hspec := @compactLoop_spec _ n drop r.head r.count 0 0 r.slot (le_refl 0) (by omega)
  rw [window_zero, nil_append] at hspec
  unfold contents compact
  rw [← hspec]
  dsimp only
  by_cases h0 : (compactLoop n drop r.head r.count 0 0 r.slot).1 = 0
  · rw [h0]
    rfl
  · rw [if_neg h0, ite_self]

lemma modifyLoop_spec (f : α → α) (head c i : ℕ) (slot : ℕ → α) (hn : i + c ≤ n) :
    window n (modifyLoop n f head c i slot) head 0 (i + c) =
      window n slot head 0 i ++ (window n slot head i c).map f := by
  induction c generalizing i slot with
  | zero => rw [modifyLoop, window_zero, map_nil, append_nil, add_zero]
  | succ c ih =>
    have hshape := ih (i + 1) (update slot ((head + i) % n) (f (slot ((head + i) % n)))) (by omega)
    rw [show i + 1 + c = i + (c + 1) by omega] at hshape
    rw [modifyLoop, hshape, window_concat, zero_add, update_self,
      window_update (by omega) (by omega) (.inr (by omega)),
      window_update (by omega) (by omega) (.inl (by omega)), window_succ, map_cons,
      append_assoc]
    rfl

lemma contents_modify (f : α → α) (hr : r.count ≤ n) :
    contents n (modify n f r) = (contents n r).map f := by
  have hspec := @modifyLoop_spec _ n f r.head r.count 0 r.slot (by omega)
  rw [window_zero, nil_append, zero_add] at hspec
  exact hspec

/-! ### The indices stay in range -/

lemma Valid.push (hv : r.Valid n) (x : α) : (push n r x).Valid n := by
  unfold RingBuf.push
  by_cases h : n ≤ r.count
  · rw [if_pos h]
    exact hv
  · rw [if_neg h]
    exact ⟨hv.head_lt, by simp only; omega⟩

lemma Valid.pop (hv : r.Valid n) : (pop n r).Valid n := by
  have hpos : 0 < n := zero_lt_of_lt hv.head_lt
  have hle := hv.count_le
  unfold RingBuf.pop
  split
  · exact ⟨hpos, zero_le n⟩
  · exact ⟨mod_lt _ hpos, by simp only; omega⟩

lemma Valid.compact (drop : α → Bool) (hv : r.Valid n) : (compact n drop r).Valid n := by
  have hpos : 0 < n := zero_lt_of_lt hv.head_lt
  have hle := @compactLoop_kept_le _ n drop r.head r.count 0 0 r.slot
  refine ⟨?_, hle.trans (by have := hv.count_le; omega)⟩
  unfold RingBuf.compact
  dsimp only
  split
  · exact hv.head_lt
  split
  · exact hpos
  · exact hv.head_lt

lemma Valid.modify (f : α → α) (hv : r.Valid n) : (modify n f r).Valid n :=
  ⟨hv.head_lt, hv.count_le⟩

end RingBuf
