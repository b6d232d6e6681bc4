/-
`process_vm_readv` and `process_vm_writev` as copies of flattened vectors (`syscall/io.c`).

Two cursors walk two independently split lists of buffers, and each chunk ends
where one entry, one mapping or one contiguous run of pages does.  One number ties
the cursors together: the pairs of addresses ahead of them are those of the two
flattened lists without the first `copied` (`copyLoop_ahead`).  Memory is the
memory of the call with these first pairs written in order.
-/
import Mathlib.Algebra.Group.Nat.Defs
import Mathlib.Data.List.Nodup

open List Function

namespace Elfuse.ProcessVm

/-- `linux_iovec_t`. -/
structure LinuxIovec where
  base : ℕ
  len : ℕ

/-- What the memory layer answers once `n` bytes have been copied: how many bytes
`guest_ptr_bound` finds from an address on, to read or to write (0 also for a null
pointer, which leaves `avail` alone), and how many of a chunk `guest_host_copy_partial`
moves before it meets a page that is gone. -/
structure Answers where
  avail (n gva : ℕ) (write : Bool) (limit : ℕ) : ℕ
  moved (n chunk : ℕ) : ℕ
  moved_le : ∀ n chunk, moved n chunk ≤ chunk

/-- The entries from the current one on, and the offset into the current one. -/
abbrev Cursor := List LinuxIovec × ℕ

def advanceIov : List LinuxIovec → ℕ → Cursor
  | [], off => ([], off)
  | v :: iov, off => if off ≥ v.len then advanceIov iov 0 else (v :: iov, off)

/-- Guest memory `m` after writing, in order, the byte `m₀` has at each pair's source
to its destination. -/
def put (m₀ m : ℕ → UInt8) (ps : List (ℕ × ℕ)) : ℕ → UInt8 :=
  ps.foldl (fun m p => update m p.2 (m₀ p.1)) m

/-- `copied > 0 ? copied : -LINUX_EFAULT`. -/
def stopped (copied : ℕ) : Int := if copied > 0 then copied else -14

/-- The loop of `process_vm_copy`, at most `fuel` times around, from the side that is
read to the side that is written. -/
def copyLoop (g : Answers) : ℕ → Cursor → Cursor → ℕ → (ℕ → UInt8) →
    Option (Int × (ℕ → UInt8))
  | 0, _, _, _, _ => none
  | fuel + 1, s, d, copied, m =>
    match advanceIov s.1 s.2, advanceIov d.1 d.2 with
    | (v :: vs, so), (w :: ws, d₀) =>
      let len := min (v.len - so) (w.len - d₀)
      if len = 0 then copyLoop g fuel (v :: vs, so) (w :: ws, d₀) copied m
      else if v.base > 2 ^ 64 - 1 - so ∨ w.base > 2 ^ 64 - 1 - d₀ then some (stopped copied, m)
      else
        let src := v.base + so
        let dst := w.base + d₀
        let chunk := min (min len (g.avail copied src false len)) (g.avail copied dst true len)
        if chunk = 0 then some (stopped copied, m) else
        let k := g.moved copied chunk
        let m := put m m ((range' src k).zip (range' dst k))
        if k < chunk then some (stopped (copied + k), m)
        else copyLoop g fuel (v :: vs, so + k) (w :: ws, d₀ + k) (copied + k) m
    | _, _ => some (copied, m)

/-- `process_vm_copy`. -/
def processVmCopy (g : Answers) (fuel : ℕ) (loc rem : List LinuxIovec) (writeRemote : Bool)
    (m : ℕ → UInt8) : Option (Int × (ℕ → UInt8)) :=
  copyLoop g fuel (if writeRemote then loc else rem, 0) (if writeRemote then rem else loc, 0) 0 m

/-- The addresses of a list of buffers, one after the other. -/
def flat (iov : List LinuxIovec) : List ℕ := iov.flatMap fun v => range' v.base v.len

/-- The addresses ahead of a cursor. -/
def ahead : Cursor → List ℕ
  | ([], _) => []
  | (v :: iov, off) => range' (v.base + off) (v.len - off) ++ flat iov

/-- The copy cannot go past byte `p`, from `src` to `dst`: an address does not
exist, no byte is accessible there, or a copy under way ended there. -/
def Answers.Refuses (g : Answers) (p src dst : ℕ) : Prop :=
  2 ^ 64 ≤ src ∨ 2 ^ 64 ≤ dst ∨ (∃ limit, g.avail p src false limit = 0) ∨
    (∃ limit, g.avail p dst true limit = 0) ∨
    ∃ n chunk, n + g.moved n chunk = p ∧ g.moved n chunk < chunk

lemma ahead_advance (c : Cursor) : ahead (advanceIov c.1 c.2) = ahead c := by
  obtain ⟨iov, off⟩ := c
  induction iov generalizing off with
  | nil => rfl
  | cons v iov ih =>
    rw [advanceIov]
    split_ifs with h
    · rw [ih, ahead, Nat.sub_eq_zero_of_le h]
      cases iov <;> simp [ahead, flat]
    · rfl

lemma advance_lt (h : advanceIov iov off = (v :: vs, o)) : o < v.len := by
  induction iov generalizing off with
  | nil => simp [advanceIov] at h
  | cons w iov ih =>
    rw [advanceIov] at h
    split_ifs at h with hw
    · exact ih h
    · obtain ⟨⟨rfl, -⟩, rfl⟩ := by simpa using h
      omega

lemma ahead_move (v : LinuxIovec) (vs : List LinuxIovec) (h : k ≤ v.len - off) :
    ahead (v :: vs, off) = range' (v.base + off) k ++ ahead (v :: vs, off + k) := by
  have hk : v.len - off = k + (v.len - (off + k)) := by omega
  rw [ahead, hk, ← range'_append_1, append_assoc, ahead, Nat.add_assoc]

lemma put_of_notMem (h : ∀ p ∈ ps, c ≠ p.2) : put m0 m ps c = m c := by
  induction ps generalizing m with
  | nil => rfl
  | cons p ps ih =>
    rw [put, foldl_cons, ← put, ih fun q hq => h q (mem_cons_of_mem p hq),
      update_of_ne (h p mem_cons_self)]

lemma put_mem (h : (ps.map Prod.snd).Nodup) (hp : p ∈ ps) : put m0 m ps p.2 = m0 p.1 := by
  induction ps generalizing m with
  | nil => cases hp
  | cons q ps ih =>
    obtain ⟨hq, hnd⟩ := nodup_cons.mp h
    rw [put, foldl_cons, ← put]
    rcases mem_cons.mp hp with rfl | hp
    · rw [put_of_notMem, update_self]
      exact fun r hr he => hq (mem_map.mpr ⟨r, hr, he.symm⟩)
    · exact ih hnd hp

section
variable (g : Answers) {m : ℕ → UInt8} {ps : List (ℕ × ℕ)}
  (hsep : ∀ q ∈ ps, ∀ p ∈ ps, q.1 ≠ p.2)
include hsep

/-- Writing the next pairs brings memory to that of the longer run: no source has
been written over, so the bytes read are those of the first memory. -/
lemma put_next (h : ps.drop n = qs ++ rest) : put (put m m (ps.take n)) (put m m (ps.take n)) qs =
      put m m (ps.take (n + qs.length)) := by
  rw [take_add, h, take_left', put.eq_1 m m (_ ++ _), foldl_append]
  · refine foldl_ext _ _ _ fun m' q hq => ?_
    rw [put_of_notMem fun p hp =>
      hsep q (mem_of_mem_drop (h ▸ mem_append_left rest hq)) p (mem_of_mem_take hp)]
  · rfl

/-- The run lemma.  The call ends with the first `p` pairs of `ps` written: all of
them, or those before a pair that was refused. -/
lemma copyLoop_ahead (hle : copied ≤ ps.length)
    (hahead : ps.drop copied = (ahead s).zip (ahead d)) (hfuel : ps.length - copied < fuel) :
    ∃ p r, copyLoop g fuel s d copied (put m m (ps.take copied)) = some (r, put m m (ps.take p)) ∧
      (p = ps.length ∧ r = p ∨ r = stopped p ∧ ∃ q, ps[p]? = some q ∧ g.Refuses p q.1 q.2) := by
  induction fuel generalizing copied s d with
  | zero => omega
  | succ fuel ih =>
    rw [copyLoop]
    rw [← ahead_advance s, ← ahead_advance d] at hahead
    split
    case h_2 hnil =>
      -- one list is used up, so no pair is ahead
      refine ⟨copied, copied, rfl, .inl ⟨Nat.le_antisymm hle (drop_eq_nil_iff.mp ?_), rfl⟩⟩
      rcases hs : advanceIov s.1 s.2 with ⟨_ | ⟨v, vs⟩, so⟩
      · rw [hahead, hs, ahead, zip_nil_left]
      rcases hd : advanceIov d.1 d.2 with ⟨_ | ⟨w, ws⟩, d0⟩
      · rw [hahead, hd, ahead, zip_nil_right]
      exact (hnil v vs so w ws d0 hs hd).elim
    case h_1 v vs so w ws d0 hs hd =>
      have hso := advance_lt hs
      have hdo := advance_lt hd
      rw [hs, hd] at hahead
      generalize hlen : min (v.len - so) (w.len - d0) = len
      have hnext : ∀ k ≤ len, ps.drop copied =
          (range' (v.base + so) k).zip (range' (w.base + d0) k) ++
            (ahead (v :: vs, so + k)).zip (ahead (w :: ws, d0 + k)) := by
        intro k hk
        rw [hahead, ahead_move v vs (k := k) (by omega), ahead_move w ws (k := k) (by omega),
          zip_append (by simp)]
      rw [if_neg (by omega)]
      dsimp only
      generalize hchunk : min (min len _) _ = chunk
      have hk := g.moved_le copied chunk
      have hwrite := put_next (m := m) hsep (hnext (g.moved copied chunk) (by omega))
      have hroom := congrArg length (hnext chunk (by omega))
      simp only [length_drop, length_append, length_zip, length_range', Nat.min_self]
        at hwrite hroom
      rw [hwrite]
      have hhead : ps[copied]? = some (v.base + so, w.base + d0) := by
        rw [← head?_drop, hnext 1 (by omega)]
        rfl
      split_ifs with hbase hz hshort
      · exact ⟨copied, _, rfl, .inr ⟨rfl, _, hhead,
          hbase.imp (by omega) fun h => .inl (by dsimp only; omega)⟩⟩
      · refine ⟨copied, _, rfl, .inr ⟨rfl, _, hhead, .inr (.inr ?_)⟩⟩
        by_cases hsa : g.avail copied (v.base + so) false len = 0
        · exact .inl ⟨len, hsa⟩
        · exact .inr (.inl ⟨len, by dsimp only; omega⟩)
      · exact ⟨_, _, rfl, .inr ⟨rfl, _, getElem?_eq_getElem (by omega),
          .inr (.inr (.inr (.inr ⟨copied, chunk, rfl, hshort⟩)))⟩⟩
      · have hall : g.moved copied chunk = chunk := by omega
        rw [hall]
        refine ih (by omega) ?_ (by omega)
        rw [← drop_drop, hnext chunk (by omega), drop_left' (by simp)]

end

/-- Every page there. -/
def Answers.all : Answers :=
    ⟨fun _ _ _ limit => limit, fun _ chunk => chunk, fun _ _ => Nat.le_refl _⟩

end Elfuse.ProcessVm
