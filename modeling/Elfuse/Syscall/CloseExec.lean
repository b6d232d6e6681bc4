/-
Closing many descriptors: `exec_close_cloexec_fds` (`syscall/exec.c`) and
`sys_close_range` (`syscall/fs.c`).

The exec collects the close-on-exec slots in a list of the size it has counted,
and where there is no memory for one in batches of 32, each from slot 0 on.

* `execCloseCloexecFds_eq` — both ways close the same slots in the same order;
* `closeRange_then_exec` — marking a range close-on-exec before an exec does what
  closing it does.
-/
import Elfuse.Syscall.FdTable

namespace Elfuse

open Function List

def FdEntry.cloexec (e : FdEntry) : Bool :=
  e.type ≠ .closed ∧ e.linuxFlags &&& FdFlag.linuxOCloexec ≠ 0

/-- The count of the first pass, over `n` slots from `fd` on. -/
def cloexecCount (s : FdTable) : ℕ → ℕ → ℕ
  | 0, _ => 0
  | n + 1, fd => (if (s.entry fd).cloexec then 1 else 0) + cloexecCount s n (fd + 1)

/-- A scan that closes the slots with `p`, over `n` slots from `fd` on; `room` is what is left of
the batch, where there is one. -/
def closeScan (p : FdEntry → Bool) (s : FdTable) :
    ℕ → ℕ → Option ℕ → List (ℕ × FdEntry) × FdTable
  | 0, _, _ => ([], s)
  | n + 1, fd, room =>
    if room = some 0 then ([], s)
    else if p (s.entry fd) then
      let r := closeScan p (fdMarkClosedUnlocked s fd).2 n (fd + 1) (room.map (· - 1))
      ((fd, s.entry fd) :: r.1, r.2)
    else closeScan p s n (fd + 1) room

def cloexecScan (s : FdTable) (room : Option ℕ) : List (ℕ × FdEntry) × FdTable :=
  closeScan FdEntry.cloexec s fdTableSize 0 room

/-- The `for (;;)` of the fallback. -/
def cloexecBatches : ℕ → FdTable → Option (List (ℕ × FdEntry) × FdTable)
  | 0, _ => none
  | fuel + 1, s =>
    let r := cloexecScan s (some 32)
    if r.1 = [] then some r else (cloexecBatches fuel r.2).map fun r' => (r.1 ++ r'.1, r'.2)

/-- Model of `exec_close_cloexec_fds`: the entries given to `fd_cleanup_entry`, and the table. -/
def execCloseCloexecFds (s : FdTable) (malloc : Bool) : Option (List (ℕ × FdEntry) × FdTable) :=
  if cloexecCount s fdTableSize 0 = 0 then some ([], s)
  else if malloc then some (cloexecScan s none)
  else cloexecBatches (fdTableSize + 1) s

def linuxCloseRangeCloexec : BitVec 32 := 4

def FdEntry.markCloexec (e : FdEntry) : FdEntry :=
  if e.type ≠ .closed then { e with linuxFlags := e.linuxFlags ||| FdFlag.linuxOCloexec } else e

/-- The loops of `sys_close_range`, over `n` slots from `i` on. -/
def closeRangeMark (s : FdTable) : ℕ → ℕ → FdTable
  | 0, _ => s
  | n + 1, i =>
    closeRangeMark { s with entry := update s.entry i (s.entry i).markCloexec } n (i + 1)

@[inherit_doc closeRangeMark]
def closeRangeClose (s : FdTable) : ℕ → ℕ → List (ℕ × FdEntry) × FdTable
  | 0, _ => ([], s)
  | n + 1, i =>
    let c := fdSnapshotAndClose s i
    let r := closeRangeClose c.2 n (i + 1)
    ((c.1.map (i, ·)).toList ++ r.1, r.2)

/-- Model of `sys_close_range`: the entries cleaned up and the table, or `EINVAL`. -/
def sysCloseRange (s : FdTable) (first last : ℕ) (flags : BitVec 32) :
    Option (List (ℕ × FdEntry) × FdTable) :=
  if last < first ∨ flags &&& ~~~linuxCloseRangeCloexec ≠ 0 then none
  else
    let last := if fdTableSize ≤ last then fdTableSize - 1 else last
    if flags &&& linuxCloseRangeCloexec ≠ 0 then
      some ([], closeRangeMark s (last + 1 - first) first)
    else some (closeRangeClose s (last + 1 - first) first)

/-- The table after a `close_range` and an exec. -/
def closeRangeExec (s : FdTable) (first last : ℕ) (flags : BitVec 32) (malloc : Bool) :
    Option FdTable := do
  let r ← sysCloseRange s first last flags
  let r ← execCloseCloexecFds r.2 malloc
  return r.2

/-! ### What the scans close -/

variable {s : FdTable} {p : FdEntry → Bool}

/-- The table with the slots of `fds` closed. -/
def closeAll (s : FdTable) (fds : List ℕ) : FdTable :=
  { s with
    entry := fun i => if i ∈ fds then fdClosedEntry (s.entry i) else s.entry i
    freeBitmap := fds.foldl fdBitmapSetFree s.freeBitmap }

/-- The slots with `p` among `n` from `fd` on. -/
def slotsWith (p : FdEntry → Bool) (s : FdTable) (n fd : ℕ) : List ℕ :=
  (range' fd n).filter fun i => p (s.entry i)

@[simp] lemma closeAll_nil (s : FdTable) : closeAll s [] = s := by simp [closeAll]

lemma closeAll_append (s : FdTable) (l l' : List ℕ) :
    closeAll (closeAll s l) l' = closeAll s (l ++ l') := by
  simp only [closeAll, foldl_append, mem_append]
  congr 1
  funext i
  by_cases hl : i ∈ l <;> by_cases hl' : i ∈ l' <;> simp [hl, hl', fdClosedEntry]

lemma markClosed_eq (s : FdTable) (fd : ℕ) : (fdMarkClosedUnlocked s fd).2 = closeAll s [fd] := by
  simp only [fdMarkClosedUnlocked, closeAll, mem_singleton]
  congr 1
  funext i
  by_cases hi : i = fd <;> simp [hi]

lemma freeBit_closeAll (s : FdTable) (l : List ℕ) (i : ℕ) :
    freeBit (closeAll s l).freeBitmap i = (decide (i ∈ l) || freeBit s.freeBitmap i) := by
  induction l generalizing s with
  | nil => simp
  | cons fd l ih =>
    rw [← singleton_append, ← closeAll_append, ih, ← markClosed_eq, fdMarkClosedUnlocked,
      freeBit_setFree]
    simp [Bool.or_left_comm, ← Bool.or_assoc]

lemma slotsWith_succ (p : FdEntry → Bool) (s : FdTable) (n fd : ℕ) :
    slotsWith p s (n + 1) fd =
      if p (s.entry fd) then fd :: slotsWith p s n (fd + 1) else slotsWith p s n (fd + 1) := by
  rw [slotsWith, range'_succ, filter_cons, ← slotsWith]

lemma slotsWith_closeAll (hp : ∀ e, p (fdClosedEntry e) = false) (l : List ℕ) (n fd : ℕ) :
    slotsWith p (closeAll s l) n fd = (slotsWith p s n fd).filter (· ∉ l) := by
  rw [slotsWith, slotsWith, filter_filter]
  refine filter_congr fun i _ => ?_
  by_cases hi : i ∈ l <;> simp [closeAll, hi, hp]

/-- A scan takes the first slots there is room for. -/
lemma closeScan_eq (s : FdTable) (n fd : ℕ) (room : Option ℕ) :
    closeScan p s n fd room =
      let l := room.elim (slotsWith p s n fd) (slotsWith p s n fd).take
      (l.map fun i => (i, s.entry i), closeAll s l) := by
  induction n generalizing s fd room with
  | zero => cases room <;> simp [closeScan, slotsWith]
  | succ n ih =>
    -- closing the slot at hand changes none of those ahead
    have hahead : ∀ i ∈ range' (fd + 1) n, (closeAll s [fd]).entry i = s.entry i := by
      intro i hi
      exact if_neg (by grind)
    have hslots : slotsWith p (closeAll s [fd]) n (fd + 1) = slotsWith p s n (fd + 1) :=
      filter_congr fun i hi => by rw [hahead i hi]
    have hmap : ∀ l ⊆ slotsWith p s n (fd + 1),
        l.map (fun i => (i, (closeAll s [fd]).entry i)) = l.map fun i => (i, s.entry i) :=
      fun l hl => map_congr_left fun i hi => by rw [hahead i (mem_of_mem_filter (hl hi))]
    rw [closeScan, markClosed_eq, ih, ih, hslots, slotsWith_succ]
    rcases room with - | - | k
    · by_cases hfd : p (s.entry fd) <;> simp [hfd, hmap _ (Subset.refl _), closeAll_append]
    · simp
    · by_cases hfd : p (s.entry fd) <;> simp [hfd, hmap _ (take_subset _ _), closeAll_append]

/-! ### The exec -/

def cloexecFds (s : FdTable) : List ℕ := slotsWith FdEntry.cloexec s fdTableSize 0

lemma mem_cloexecFds : fd ∈ cloexecFds s ↔ fd < fdTableSize ∧ (s.entry fd).cloexec := by
  simp [cloexecFds, slotsWith]

lemma cloexecCount_eq (s : FdTable) (n fd : ℕ) :
    cloexecCount s n fd = (slotsWith FdEntry.cloexec s n fd).length := by
  induction n generalizing fd with
  | zero => rfl
  | succ n ih =>
    rw [cloexecCount, ih, slotsWith_succ]
    split <;> simp [Nat.add_comm]

/-- What a batch had no room for. -/
lemma filter_notMem_take {l : List ℕ} (hl : l.Nodup) (k : ℕ) :
    l.filter (· ∉ l.take k) = l.drop k := by
  have hdisj := disjoint_take_drop hl (Nat.le_refl k)
  conv_lhs => arg 2; rw [← take_append_drop k l]
  rw [filter_append, filter_eq_nil_iff.mpr (by simp), filter_eq_self.mpr, nil_append]
  intro i hi
  simpa using fun h => hdisj h hi

lemma cloexecBatches_eq (s : FdTable) (fuel : ℕ) (hfuel : (cloexecFds s).length < fuel) :
    cloexecBatches fuel s =
      some ((cloexecFds s).map fun i => (i, s.entry i), closeAll s (cloexecFds s)) := by
  induction fuel generalizing s with
  | zero => omega
  | succ fuel ih =>
    have hnodup : (cloexecFds s).Nodup := Nodup.sublist filter_sublist nodup_range'
    have hrest : cloexecFds (closeAll s ((cloexecFds s).take 32)) = (cloexecFds s).drop 32 := by
      rw [cloexecFds, slotsWith_closeAll (fun _ => rfl), ← cloexecFds, filter_notMem_take hnodup]
    have hkept : ∀ i ∈ (cloexecFds s).drop 32,
        (closeAll s ((cloexecFds s).take 32)).entry i = s.entry i := by
      intro i hi
      exact if_neg fun h => disjoint_take_drop hnodup (Nat.le_refl 32) h hi
    have hmap := map_congr_left fun i hi => congrArg (Prod.mk i) (hkept i hi)
    rw [cloexecBatches, cloexecScan, closeScan_eq, ← cloexecFds]
    simp only [Option.elim, map_eq_nil_iff, take_eq_nil_iff]
    split
    case isTrue h => simp [h.resolve_left (by omega)]
    case isFalse h =>
      have hpos : 0 < (cloexecFds s).length := length_pos_iff.mpr (not_or.mp h).2
      rw [ih _ (by rw [hrest, length_drop]; omega), hrest, hmap, Option.map_some, ← map_append,
        closeAll_append, take_append_drop]

lemma execCloseCloexecFds_some (s : FdTable) (malloc : Bool) :
    execCloseCloexecFds s malloc =
      some ((cloexecFds s).map fun fd => (fd, s.entry fd), closeAll s (cloexecFds s)) := by
  have hlen : (cloexecFds s).length ≤ fdTableSize :=
    (length_filter_le _ _).trans_eq (length_range' ..)
  rw [execCloseCloexecFds, cloexecCount_eq, ← cloexecFds]
  split
  case isTrue h => simp [length_eq_zero_iff.mp h]
  case isFalse =>
    rw [cloexecBatches_eq s _ (by omega), cloexecScan, closeScan_eq, ← cloexecFds]
    exact ite_self _

/-- With the list or in batches, the exec ends, has closed the close-on-exec descriptors once each
and in order, and no other slot; the list holds as many as were counted. -/
theorem execCloseCloexecFds_eq (s : FdTable) (malloc : Bool) :
    ∃ t, execCloseCloexecFds s malloc = some ((cloexecFds s).map fun fd => (fd, s.entry fd), t) ∧
      (cloexecScan s none).1.length = cloexecCount s fdTableSize 0 ∧
      ∀ fd < fdTableSize, t.entry fd =
          (if (s.entry fd).cloexec then fdClosedEntry (s.entry fd) else s.entry fd) ∧
        freeBit t.freeBitmap fd = ((s.entry fd).cloexec || freeBit s.freeBitmap fd) := by
  refine ⟨_, execCloseCloexecFds_some s malloc, ?_, ?_⟩
  · rw [cloexecScan, closeScan_eq, cloexecCount_eq, Option.elim, length_map]
  · intro fd hfd
    rw [freeBit_closeAll]
    simp [closeAll, mem_cloexecFds, hfd]

/-! ### The range -/

lemma closeRangeMark_eq (s : FdTable) (n i : ℕ) :
    closeRangeMark s n i =
      { s with
        entry := fun j => if j ∈ range' i n then (s.entry j).markCloexec else s.entry j } := by
  induction n generalizing s i with
  | zero => rfl
  | succ n ih =>
    rw [closeRangeMark, ih]
    congr 1
    funext j
    by_cases hj : j = i <;> grind [update_apply]

lemma closeRangeClose_eq (s : FdTable) (n i : ℕ) (hi : 0 < n → i + n ≤ fdTableSize) :
    closeRangeClose s n i = closeScan (fun e => e.type ≠ .closed) s n i none := by
  induction n generalizing s i with
  | zero => rfl
  | succ n ih =>
    have hin : (i : ℤ) < fdTableSize := by omega
    rw [closeRangeClose, closeScan, ih _ _ (by omega), fdSnapshotAndClose, if_pos ⟨by omega, hin⟩,
      fdSnapshotLocked]
    by_cases hc : (s.entry i).type = .closed <;> simp [hc]

lemma freeBitmap_ext {b b' : ℕ → BitVec 64} (h : ∀ i, freeBit b i = freeBit b' i) : b = b' := by
  funext w
  refine BitVec.eq_of_getLsbD_eq fun j hj => ?_
  have hbit := h (w * 64 + j)
  unfold freeBit at hbit
  grind

lemma cloexec_markCloexec (e : FdEntry) : e.markCloexec.cloexec = decide (e.type ≠ .closed) := by
  have hbit : (e.linuxFlags ||| FdFlag.linuxOCloexec) &&& FdFlag.linuxOCloexec =
      FdFlag.linuxOCloexec := by grind
  by_cases hc : e.type = .closed <;> simp [FdEntry.markCloexec, FdEntry.cloexec, hc, hbit]
  decide

/-- Changes to slots that are closed anyway leave no trace, if closing removes them. -/
lemma closeAll_entries {g : ℕ → FdEntry} (hmem : ∀ j, j ∈ l' ↔ j ∈ l)
    (hin : ∀ j ∈ l, fdClosedEntry (g j) = fdClosedEntry (s.entry j))
    (hout : ∀ j ∉ l, g j = s.entry j) :
    closeAll { s with entry := g } l' = closeAll s l := by
  have hentry : (closeAll { s with entry := g } l').entry = (closeAll s l).entry := by
    funext j
    by_cases hj : j ∈ l <;> simp [closeAll, hmem, hj, hin, hout]
  have hfree : (closeAll { s with entry := g } l').freeBitmap = (closeAll s l).freeBitmap :=
    freeBitmap_ext fun j => by simp only [freeBit_closeAll, hmem]
  exact congrArg₂ (fun e b => { s with entry := e, freeBitmap := b }) hentry hfree

lemma closeAll_mark (s : FdTable) (n i : ℕ) (hi : 0 < n → i + n ≤ fdTableSize) :
    closeAll (closeRangeMark s n i) (cloexecFds (closeRangeMark s n i)) =
      closeAll (closeRangeClose s n i).2 (cloexecFds (closeRangeClose s n i).2) := by
  rw [closeRangeClose_eq s n i hi, closeScan_eq, Option.elim, closeAll_append, closeRangeMark_eq]
  have hsize : ∀ j ∈ range' i n, j < fdTableSize := by grind
  refine closeAll_entries (fun j => ?_) (fun j _ => ?_) fun j hj => ?_
  · rw [mem_append, mem_cloexecFds, mem_cloexecFds, slotsWith, mem_filter]
    by_cases hj : j ∈ range' i n
    · simp only [hj, if_true, cloexec_markCloexec, hsize j hj, true_and]
      by_cases hc : (s.entry j).type = .closed <;> simp [closeAll, FdEntry.cloexec, hc]
    · simp only [hj, if_false, false_and, false_or, closeAll, mem_filter]
  · unfold FdEntry.markCloexec
    split_ifs <;> rfl
  · grind [FdEntry.markCloexec, slotsWith]

/-- Marking a range close-on-exec and executing leaves the table that closing the range and
executing leaves, however the exec gets its list. -/
theorem closeRange_then_exec (s : FdTable) (first last : ℕ) (malloc malloc' : Bool) :
    closeRangeExec s first last linuxCloseRangeCloexec malloc =
      closeRangeExec s first last 0 malloc' := by
  have hmask : linuxCloseRangeCloexec &&& ~~~linuxCloseRangeCloexec = 0 := by decide
  have hflag : linuxCloseRangeCloexec ≠ 0#32 := by decide
  have htable := fun n => closeAll_mark s n first
  have hsize : 0 < fdTableSize := by decide
  unfold closeRangeExec sysCloseRange
  by_cases h : last < first
  · simp [h]
  · simpa [h, hmask, hflag, execCloseCloexecFds_some] using htable _ (by split <;> omega)

end Elfuse
