/-
Priority-inheritance futexes.

The word of a PI lock is edited in four ways: by the compare-and-swaps of guest
code, by loops under the bucket lock in `futex_lock_pi_inner` and
`futex_unlock_pi`, by the loop that clears the waiters bit after a timeout, and
by the plain read and write of `robust_list_walk`. Each access to the word is a
step of its own here, and any access of the host may fault.

* `piLock_safe` — one owner at a time, and no waiter is stranded.
-/
import Elfuse.Lib.Bits
import Elfuse.Runtime.Futex

namespace Elfuse

open Function Runs List Nat

/-! ### The word -/

def futexPiTidMask : ℕ := 0x3fffffff

def futexPiOwnerDiedBit : ℕ := 0x40000000

def futexPiWaitersBit : ℕ := 0x80000000

def futexPiOwnerTid (word : ℕ) : ℕ := word &&& futexPiTidMask

def futexPiUnowned (word : ℕ) : Bool := futexPiOwnerTid word == 0

def futexPiOwnerDied (word : ℕ) : Bool := word &&& futexPiOwnerDiedBit != 0

def futexPiHasWaiters (word : ℕ) : Bool := decide (futexPiWaitersBit ≤ word)

def futexPiSetWaiters (word : ℕ) : ℕ := word % futexPiWaitersBit + futexPiWaitersBit

def futexPiClearWaiters (word : ℕ) : ℕ := word % futexPiWaitersBit

def futexPiMarkOwnerDied (word : ℕ) : ℕ :=
  (if futexPiWaitersBit ≤ word then futexPiWaitersBit else 0) ||| futexPiOwnerDiedBit

lemma futexPiOwnerTid_eq (word : ℕ) : futexPiOwnerTid word = word % 2 ^ 30 :=
  and_two_pow_sub_one_eq_mod word 30

lemma futexPiOwnerTid_of_lt {tid : ℕ} (h : tid < 2 ^ 30) : futexPiOwnerTid tid = tid := by
  rw [futexPiOwnerTid_eq, mod_eq_of_lt h]

lemma futexPiOwnerTid_setWaiters (word : ℕ) :
    futexPiOwnerTid (futexPiSetWaiters word) = futexPiOwnerTid word := by
  rw [futexPiOwnerTid_eq, futexPiOwnerTid_eq, futexPiSetWaiters, futexPiWaitersBit]
  omega

lemma futexPiOwnerTid_clearWaiters (word : ℕ) :
    futexPiOwnerTid (futexPiClearWaiters word) = futexPiOwnerTid word := by
  rw [futexPiOwnerTid_eq, futexPiOwnerTid_eq, futexPiClearWaiters, futexPiWaitersBit]
  omega

lemma futexPiMarkOwnerDied_fields (word : ℕ) : futexPiOwnerTid (futexPiMarkOwnerDied word) = 0 ∧
      futexPiOwnerDied (futexPiMarkOwnerDied word) := by
  unfold futexPiMarkOwnerDied
  split
  · decide
  · decide

/-! ### Threads -/

/-- A thread's TID fits the owner field and is not zero. -/
abbrev Tid := { n : ℕ // 0 < n ∧ n < 2 ^ 30 }

structure PiMem where
  word : ℕ
  /-- The holder of the bucket's lock. -/
  lock : Option Tid
  /-- The waiters on the word in its bucket. -/
  queue : List Tid
  /-- The mark of each thread's waiter. -/
  woken : Tid → Bool
  /-- The thread has the lock: from the compare-and-swap that took the word to the access that
  releases it. -/
  inside : Tid → Bool

/-- Where a thread is in `futex_lock_pi_inner`. From `marking` to `awake` and from `polled` on it
holds the bucket's lock, save at `parked`. -/
inductive LockStage
  /-- The compare-and-swap at the head of the loop. -/
  | fast
  | search (owner : ℕ)
  | want
  /-- The loop that sets the waiters bit: a load, -/
  | marking
  /-- and a compare-and-swap. -/
  | markCas (cur : ℕ)
  | marked (cur : ℕ)
  | waiting
  | parked
  | awake
  /-- The bucket's lock is given back to poll for signals. -/
  | polling
  | polled
  | unlinking (rc : Option ℤ)
  /-- `futex_clear_waiters_bit`: a load, -/
  | clearing
  /-- and a compare-and-swap. -/
  | clearCas (v : ℕ)
  /-- Give back the bucket's lock, and return or try again. -/
  | release (rc : Option ℤ)
  deriving DecidableEq, Repr

/-- Where a thread is in `futex_unlock_pi`. -/
inductive UnlockStage
  | want
  | load (released : ℕ)
  | cas (released v : ℕ)
  | release
  deriving DecidableEq, Repr

/-- Where an exiting thread is in `robust_list_walk`, as far as it concerns the word. -/
inductive WalkStage
  /-- Between entries. -/
  | walk
  /-- It has read this value, and is the owner. -/
  | write (v : ℕ)
  | wake
  deriving DecidableEq, Repr

inductive PiPc
  | idle
  | locking (timed : Bool) (stage : LockStage)
  | unlocking (stage : UnlockStage)
  | dying (stage : WalkStage)
  | exited
  deriving DecidableEq, Repr

structure PiSystem where
  mem : PiMem
  pc : Tid → PiPc
  /-- What a thread's last call returned. -/
  ret : Tid → ℤ

/-- What a thread does next. -/
inductive PiAct
  /-- Guest code: `CAS(0->TID)`. -/
  | guestLock
  /-- Guest code: `CAS(TID->0)`. -/
  | guestUnlock
  | lockPi (timed : Bool)
  | trylockPi
  | unlockPi
  | exit
  /-- Go on in the call. -/
  | step
  | fault
  | timeout
  /-- A stop is requested or a signal is ready. -/
  | interrupt
  deriving DecidableEq, Repr

/-! ### Steps -/

namespace PiMem

def take (m : PiMem) (t : Tid) (word : ℕ) : PiMem :=
  { m with word := word, inside := update m.inside t true }

def give (m : PiMem) (t : Tid) (word : ℕ) : PiMem :=
  { m with word := word, inside := update m.inside t false }

/-- Model of `futex_wake_first_locked`. -/
def wakeFirst (m : PiMem) : PiMem :=
  match m.queue with
  | [] => m
  | w :: rest => { m with queue := rest, woken := update m.woken w true }

/-- The word a locker writes over one without an owner. -/
def takeover (m : PiMem) (t : Tid) (cur : ℕ) : ℕ :=
  let want := t.1 ||| (cur &&& futexPiOwnerDiedBit)
  if m.queue = [] then want else futexPiSetWaiters want

end PiMem

namespace PiSystem

def goto (s : PiSystem) (t : Tid) (m : PiMem) (p : PiPc) : PiSystem :=
  { s with mem := m, pc := update s.pc t p }

def returns (s : PiSystem) (t : Tid) (m : PiMem) (ret : ℤ) : PiSystem :=
  { s with mem := m, pc := update s.pc t .idle, ret := update s.ret t ret }

/-- Models of `thread_find` and `thread_tid_alive`. -/
def alive (s : PiSystem) (owner : ℕ) : Bool :=
  if h : 0 < owner ∧ owner < 2 ^ 30 then decide (s.pc ⟨owner, h⟩ ≠ .exited) else false

def acquire (s : PiSystem) (t : Tid) (m : PiMem) (p : PiPc) : Option PiSystem :=
  if s.mem.lock = none then some (s.goto t { m with lock := some t } p) else none

/-- Model of `futex_lock_pi_inner`. -/
def lockStep (s : PiSystem) (t : Tid) (timed : Bool) (stage : LockStage) (act : PiAct) :
    Option PiSystem :=
  let m := s.mem
  let go (m : PiMem) (stage : LockStage) : Option PiSystem :=
    some (s.goto t m (.locking timed stage))
  match stage, act with
  | .fast, .step =>
    if m.word = 0 then some (s.returns t (m.take t t.1) 0)
    else if futexPiOwnerTid m.word = t.1 then some (s.returns t m (-linuxEdeadlk))
    else go m (.search (futexPiOwnerTid m.word))
  | .fast, .fault => some (s.returns t m (-linuxEfault))
  | .search owner, .step =>
    if owner ≠ 0 ∧ s.alive owner = false then some (s.returns t m (-linuxEsrch)) else go m .want
  | .want, .step => s.acquire t m (.locking timed .marking)
  | .marking, .step =>
    if futexPiUnowned m.word || futexPiHasWaiters m.word then go m (.marked m.word)
    else go m (.markCas m.word)
  | .marking, .fault => go m (.release (some (-linuxEfault)))
  | .markCas cur, .step =>
    if m.word = cur then go { m with word := futexPiSetWaiters cur } (.marked cur)
    else go m .marking
  | .markCas _, .fault => go m (.release (some (-linuxEfault)))
  | .marked cur, .step =>
    if futexPiUnowned cur then
      if cur = 0 then go m (.release none)
      else if m.word = cur then go (m.take t (m.takeover t cur)) (.release (some 0))
      else go m (.release none)
    else
      go { m with queue := t :: m.queue, woken := update m.woken t false } .waiting
  | .marked cur, .fault =>
    if futexPiUnowned cur ∧ cur ≠ 0 then go m (.release (some (-linuxEfault))) else none
  | .waiting, .step =>
    if m.woken t then go m (.unlinking none) else go { m with lock := none } .parked
  | .waiting, .timeout =>
    if m.woken t = false ∧ timed then go m (.unlinking (some (-linuxEtimedout))) else none
  | .parked, .step => s.acquire t m (.locking timed .awake)
  | .awake, .step =>
    if m.woken t then go m (.unlinking none) else go { m with lock := none } .polling
  | .awake, .interrupt =>
    if m.woken t = false then go m (.unlinking (some (-linuxEintr))) else none
  | .polling, .step => s.acquire t m (.locking timed .polled)
  | .polled, .step =>
    if m.woken t then go m (.unlinking none)
    else if futexPiUnowned m.word then go m (.unlinking none)
    else if s.alive (futexPiOwnerTid m.word) = false then go m (.unlinking (some (-linuxEsrch)))
    else go m .waiting
  | .polled, .interrupt =>
    if m.woken t = false then go m (.unlinking (some (-linuxEintr))) else none
  | .polled, .fault =>
    if m.woken t = false then go m (.unlinking (some (-linuxEfault))) else none
  | .unlinking rc, .step =>
    let m' := { m with queue := m.queue.erase t }
    if rc = some (-linuxEtimedout) ∧ m'.queue = [] then go m' .clearing else go m' (.release rc)
  | .clearing, .step =>
    if futexPiHasWaiters m.word then go m (.clearCas m.word)
    else go m (.release (some (-linuxEtimedout)))
  | .clearing, .fault => go m (.release (some (-linuxEtimedout)))
  | .clearCas v, .step =>
    if m.word = v then
      go { m with word := futexPiClearWaiters v } (.release (some (-linuxEtimedout)))
    else go m .clearing
  | .clearCas _, .fault => go m (.release (some (-linuxEtimedout)))
  | .release none, .step => go { m with lock := none } .fast
  | .release (some rc), .step => some (s.returns t { m with lock := none } rc)
  | _, _ => none

/-- Model of `futex_unlock_pi`, after its check of the owner. -/
def unlockStep (s : PiSystem) (t : Tid) (stage : UnlockStage) (act : PiAct) : Option PiSystem :=
  let m := s.mem
  match stage, act with
  | .want, .step =>
    let m' := m.wakeFirst
    s.acquire t m' (.unlocking (.load (if m'.queue = [] then 0 else futexPiWaitersBit)))
  | .load released, .step => some (s.goto t m (.unlocking (.cas released m.word)))
  | .load _, .fault => some (s.returns t { m with lock := none } (-linuxEfault))
  | .cas released v, .step =>
    if m.word = v then some (s.goto t (m.give t released) (.unlocking .release))
    else some (s.goto t m (.unlocking (.load released)))
  | .cas _ _, .fault => some (s.returns t { m with lock := none } (-linuxEfault))
  | .release, .step => some (s.returns t { m with lock := none } 0)
  | _, _ => none

/-- Model of `robust_list_walk`, where it meets the word: in the list, as the pending operation,
in both or not at all. -/
def walkStep (s : PiSystem) (t : Tid) (stage : WalkStage) (act : PiAct) : Option PiSystem :=
  let m := s.mem
  match stage, act with
  | .walk, .step =>
    if futexPiOwnerTid m.word = t.1 then some (s.goto t m (.dying (.write m.word))) else some s
  | .walk, .exit => some (s.goto t m .exited)
  | .write v, .step => some (s.goto t (m.give t (futexPiMarkOwnerDied v)) (.dying .wake))
  | .write _, .fault => some (s.goto t m (.dying .walk))
  | .wake, .step => if m.lock = none then some (s.goto t m.wakeFirst (.dying .walk)) else none
  | _, _ => none

def next (s : PiSystem) (l : Tid × PiAct) : Option PiSystem :=
  let t := l.1
  let m := s.mem
  match s.pc t with
  | .idle =>
    match l.2 with
    | .guestLock => if m.word = 0 then some { s with mem := m.take t t.1 } else some s
    | .guestUnlock => if m.word = t.1 then some { s with mem := m.give t 0 } else some s
    | .lockPi timed => some (s.goto t m (.locking timed .fast))
    | .trylockPi =>
      if m.word = 0 then some (s.returns t (m.take t t.1) 0)
      else some (s.returns t m (-linuxEagain))
    | .unlockPi =>
      if futexPiOwnerTid m.word = t.1 then some (s.goto t m (.unlocking .want))
      else some (s.returns t m (-linuxEperm))
    | .fault => some (s.returns t m (-linuxEfault))
    | .exit => some (s.goto t m (.dying .walk))
    | _ => none
  | .locking timed stage => s.lockStep t timed stage l.2
  | .unlocking stage => s.unlockStep t stage l.2
  | .dying stage => s.walkStep t stage l.2
  | .exited => none

def init : PiSystem :=
  { mem := ⟨0, none, [], fun _ => false, fun _ => false⟩
    pc := fun _ => .idle
    ret := fun _ => 0 }

end PiSystem

/-! ### The invariant -/

def LockStage.holds : LockStage → Bool
  | .fast | .search _ | .want | .parked | .polling => false
  | _ => true

/-- The call's waiter is linked, unless it is marked. -/
def LockStage.waits : LockStage → Bool
  | .waiting | .parked | .awake | .polling | .polled | .unlinking _ => true
  | _ => false

def PiPc.holds : PiPc → Bool
  | .locking _ stage => stage.holds
  | .unlocking stage => stage != .want
  | _ => false

def PiPc.waits : PiPc → Bool
  | .locking _ stage => stage.waits
  | _ => false

/-- A word that guest code can neither take nor release. -/
def Flagged (word : ℕ) : Prop :=
  futexPiHasWaiters word = true ∨ futexPiUnowned word = true ∧ futexPiOwnerDied word = true

/-- What a thread relies on at its stage. -/
def PiLocal (m : PiMem) (t : Tid) : PiPc → Prop
  | .locking _ (.marked cur) => futexPiUnowned cur = false → Flagged m.word
  | .locking _ (.unlinking rc) => rc ≠ some 0
  | .locking _ .clearing => m.queue = []
  | .locking _ (.clearCas _) => m.queue = []
  | .locking _ (.release rc) => rc = some 0 → m.inside t = true
  | .unlocking .want => futexPiOwnerTid m.word = t.1
  | .unlocking (.load released) => futexPiOwnerTid m.word = t.1 ∧
      released = if m.queue = [] then 0 else futexPiWaitersBit
  | .unlocking (.cas released _) => futexPiOwnerTid m.word = t.1 ∧
      released = if m.queue = [] then 0 else futexPiWaitersBit
  | .dying (.write _) => futexPiOwnerTid m.word = t.1
  | _ => True

structure PiInv (m : PiMem) (pc : Tid → PiPc) : Prop where
  inside : ∀ t, m.inside t = true ↔ futexPiOwnerTid m.word = t.1
  lock : ∀ t, m.lock = some t ↔ (pc t).holds = true
  nodup : m.queue.Nodup
  queued : ∀ t, t ∈ m.queue ↔ (pc t).waits = true ∧ m.woken t = false
  flagged : m.queue ≠ [] → Flagged m.word
  locals : ∀ t, PiLocal m t (pc t)

lemma PiInv.init : PiInv PiSystem.init.mem PiSystem.init.pc where
  inside := fun t => ⟨nofun, fun h => absurd h (Nat.ne_of_lt t.2.1)⟩
  lock := fun _ => ⟨nofun, nofun⟩
  nodup := nodup_nil
  queued := fun _ => ⟨nofun, fun h => (nomatch h.1)⟩
  flagged := fun h => absurd rfl h
  locals := fun _ => trivial

/-! ### Words -/

lemma not_flagged_zero : ¬ Flagged 0 := by
  rintro (h | h)
  · exact absurd h (by decide)
  · exact absurd h.2 (by decide)

lemma not_flagged_tid (t : Tid) : ¬ Flagged t.1 := by
  rintro (h | h)
  · have hle : futexPiWaitersBit ≤ t.1 := of_decide_eq_true h
    rw [futexPiWaitersBit] at hle
    omega
  · have hzero := beq_iff_eq.mp h.1
    grind [futexPiOwnerTid_of_lt]

lemma flagged_markOwnerDied (v : ℕ) : Flagged (futexPiMarkOwnerDied v) :=
  .inr ⟨beq_iff_eq.mpr (futexPiMarkOwnerDied_fields v).1, (futexPiMarkOwnerDied_fields v).2⟩

lemma flagged_setWaiters (v : ℕ) : Flagged (futexPiSetWaiters v) :=
  .inl (decide_eq_true (le_add_left _ _))

lemma futexPiOwnerTid_or (t : Tid) (cur : ℕ) :
    futexPiOwnerTid (t.1 ||| (cur &&& futexPiOwnerDiedBit)) = t.1 := by
  have hbit : cur &&& futexPiOwnerDiedBit = cur / 2 ^ 30 % 2 ^ 1 * 2 ^ 30 := Bits.and_field cur 30 1
  rw [hbit, futexPiOwnerTid_eq, Nat.or_comm, Nat.mul_comm, ← Nat.two_pow_add_eq_or_of_lt t.2.2,
    Nat.mul_add_mod, Nat.mod_eq_of_lt t.2.2]

lemma takeover_owner (m : PiMem) (t : Tid) (cur : ℕ) :
    futexPiOwnerTid (m.takeover t cur) = t.1 := by
  grind [futexPiOwnerTid_setWaiters, futexPiOwnerTid_or, PiMem.takeover]

lemma takeover_flagged (m : PiMem) (t : Tid) (cur : ℕ) (h : m.queue ≠ []) :
    Flagged (m.takeover t cur) := by
  unfold PiMem.takeover
  rw [if_neg h]
  exact flagged_setWaiters _

/-! ### What a step does to the others -/

variable {m m' : PiMem} {pc : Tid → PiPc} {t u : Tid}

/-- What a thread can rely on while another one takes a step. -/
structure Rely (m m' : PiMem) (u : Tid) : Prop where
  owner : futexPiOwnerTid m.word = u.1 → futexPiOwnerTid m'.word = u.1
  inside : m.inside u = true → m'.inside u = true
  queue : m.lock = some u → m'.queue = m.queue
  flagged : m.lock = some u → Flagged m.word → Flagged m'.word

lemma PiLocal.rely (h : PiLocal m u p) (hr : Rely m m' u)
    (hl : p.holds → m.lock = some u) : PiLocal m' u p := by
  cases p with
  | idle => exact h
  | exited => exact h
  | locking timed stage =>
    cases stage with
    | marked cur => exact fun hcur => hr.flagged (hl rfl) (h hcur)
    | unlinking rc => exact h
    | clearing | clearCas => exact (hr.queue (hl rfl)).trans h
    | release rc => exact fun hrc => hr.inside (h hrc)
    | _ => trivial
  | unlocking stage =>
    cases stage with
    | want => exact hr.owner h
    | load | cas =>
      refine ⟨hr.owner h.1, ?_⟩
      rw [hr.queue (hl rfl)]
      exact h.2
    | release => trivial
  | dying stage =>
    cases stage with
    | write v => exact hr.owner h
    | _ => trivial

lemma Rely.refl (m : PiMem) (u : Tid) : Rely m m u :=
  ⟨id, id, fun _ => rfl, fun _ => id⟩

section
variable (h : PiInv m pc)
include h

lemma PiInv.locals_update (hr : ∀ u, u ≠ t → Rely m m' u) (hp : PiLocal m' t p) (u : Tid) :
    PiLocal m' u (update pc t p u) := by
  by_cases hu : u = t
  · simpa [hu] using hp
  · simpa [hu] using (h.locals u).rely (hr u hu) (h.lock u).mpr

lemma PiInv.not_locked (ht : (pc t).holds) (hu : u ≠ t) : m.lock ≠ some u := by
  rw [(h.lock t).mpr ht]
  grind

lemma PiInv.holds_update (hp : p.holds = (pc t).holds) (u : Tid) :
    m.lock = some u ↔ (update pc t p u).holds := by
  by_cases hu : u = t <;> simp [hu, hp, h.lock]

lemma PiInv.queued_update (hp : p.waits = (pc t).waits) (u : Tid) :
    u ∈ m.queue ↔ (update pc t p u).waits ∧ m.woken u = false := by
  by_cases hu : u = t <;> simp [hu, hp, h.queued]

/-! ### Effects -/

lemma PiInv.stage {q : PiPc} (hpc : pc t = q) (hh : p.holds = q.holds) (hw : p.waits = q.waits)
    (hp : PiLocal m t p) : PiInv m (update pc t p) :=
  ⟨h.inside, h.holds_update (hh.trans (by rw [hpc])), h.nodup,
    h.queued_update (hw.trans (by rw [hpc])), h.flagged,
    h.locals_update (fun u _ => Rely.refl m u) hp⟩

lemma PiInv.locks (hfree : m.lock = none) (hh : p.holds) (hw : p.waits = (pc t).waits)
    (hp : PiLocal { m with lock := some t } t p) :
    PiInv { m with lock := some t } (update pc t p) := by
  refine ⟨h.inside, ?_, h.nodup, h.queued_update hw, h.flagged,
    h.locals_update (fun _ _ => ⟨id, id, fun _ => rfl, fun _ => id⟩) hp⟩
  intro u
  by_cases hu : u = t
  · simp [hu, hh]
  · simp [hu, Ne.symm hu, ← h.lock, hfree]

lemma PiInv.unlocks (ht : (pc t).holds) (hh : p.holds = false)
    (hw : p.waits = (pc t).waits) (hp : PiLocal { m with lock := none } t p) :
    PiInv { m with lock := none } (update pc t p) := by
  refine ⟨h.inside, ?_, h.nodup, h.queued_update hw, h.flagged,
    h.locals_update (fun _ _ => ⟨id, id, fun _ => rfl, fun _ => id⟩) hp⟩
  intro u
  by_cases hu : u = t
  · simp [hu, hh]
  · simp [hu, ← h.lock, h.not_locked ht hu]

lemma PiInv.write {inside : Tid → Bool} (hin : ∀ u, inside u ↔ futexPiOwnerTid word = u.1)
    (howner : ∀ u, u ≠ t → futexPiOwnerTid m.word = u.1 → futexPiOwnerTid word = u.1)
    (hflag : (∃ u, u ≠ t ∧ m.lock = some u) → Flagged m.word → Flagged word)
    (hqueue : m.queue ≠ [] → Flagged word) (hh : p.holds = (pc t).holds)
    (hw : p.waits = (pc t).waits) (hp : PiLocal { m with word := word, inside := inside } t p) :
    PiInv { m with word := word, inside := inside } (update pc t p) := by
  refine ⟨hin, h.holds_update hh, h.nodup, h.queued_update hw, hqueue, h.locals_update ?_ hp⟩
  intro u hu
  refine ⟨howner u hu, ?_, fun _ => rfl, fun hl => hflag ⟨u, hu, hl⟩⟩
  intro hins
  exact (hin u).mpr (howner u hu ((h.inside u).mp hins))

lemma PiInv.take (hfree : futexPiOwnerTid m.word = 0) (hword : futexPiOwnerTid word = t.1)
    (hlock : m.word = 0 ∨ (pc t).holds) (hqueue : m.queue ≠ [] → Flagged word)
    (hh : p.holds = (pc t).holds) (hw : p.waits = (pc t).waits) (hp : PiLocal (m.take t word) t p) :
    PiInv (m.take t word) (update pc t p) := by
  refine h.write ?_ ?_ ?_ hqueue hh hw hp
  · intro u
    rw [hword]
    by_cases hu : u = t
    · simp [hu, update_self]
    · rw [update_of_ne hu, h.inside u, hfree]
      grind
  · omega
  rintro ⟨u, hu, hl⟩ hf
  obtain hzero | ht := hlock
  · rw [hzero] at hf
    exact absurd hf not_flagged_zero
  · exact absurd hl (h.not_locked ht hu)

/-- The thread releases the word it owns: under the lock, without a flag set, or as it dies. -/
lemma PiInv.give (hmine : futexPiOwnerTid m.word = t.1) (hword : futexPiOwnerTid word = 0)
    (hlock : m.word = t.1 ∨ (pc t).holds ∨ Flagged word)
    (hqueue : m.queue ≠ [] → Flagged word) (hh : p.holds = (pc t).holds)
    (hw : p.waits = (pc t).waits) (hp : PiLocal (m.give t word) t p) :
    PiInv (m.give t word) (update pc t p) := by
  refine h.write ?_ ?_ ?_ hqueue hh hw hp
  · intro u
    rw [hword]
    by_cases hu : u = t
    · grind
    · rw [update_of_ne hu, h.inside u, hmine]
      grind
  · grind
  rintro ⟨u, hu, hl⟩ hf
  obtain htid | ht | hflag := hlock
  · rw [htid] at hf
    exact absurd hf (not_flagged_tid t)
  · exact absurd hl (h.not_locked ht hu)
  · exact hflag

lemma PiInv.reflag (hword : futexPiOwnerTid word = futexPiOwnerTid m.word)
    (ht : (pc t).holds) (hqueue : m.queue ≠ [] → Flagged word) (hh : p.holds)
    (hw : p.waits = (pc t).waits) (hp : PiLocal { m with word := word } t p) :
    PiInv { m with word := word } (update pc t p) := by
  refine h.write ?_ ?_ ?_ hqueue (hh.trans ht.symm) hw hp
  · intro u
    rw [hword]
    exact h.inside u
  · intro u _ hu
    rw [hword]
    exact hu
  · rintro ⟨u, hu, hl⟩
    exact absurd hl (h.not_locked ht hu)

lemma PiInv.enqueue (ht : (pc t).holds) (hout : (pc t).waits = false)
    (hflag : Flagged m.word) (hh : p.holds) (hw : p.waits)
    (hp : PiLocal { m with queue := t :: m.queue, woken := update m.woken t false } t p) :
    PiInv { m with queue := t :: m.queue, woken := update m.woken t false } (update pc t p) := by
  have hnew : t ∉ m.queue := by
    intro hq
    rw [((h.queued t).mp hq).1] at hout
    cases hout
  refine ⟨h.inside, h.holds_update (hh.trans ht.symm), nodup_cons.mpr ⟨hnew, h.nodup⟩, ?_,
    fun _ => hflag, h.locals_update ?_ hp⟩
  · intro u
    rw [mem_cons]
    by_cases hu : u = t
    · simp [hu, hw]
    · simp [hu, h.queued]
  · intro u hu
    exact ⟨id, id, fun hl => absurd hl (h.not_locked ht hu), fun _ => id⟩

lemma PiInv.dequeue (ht : (pc t).holds) (hh : p.holds) (hw : p.waits = false)
    (hp : PiLocal { m with queue := m.queue.erase t } t p) :
    PiInv { m with queue := m.queue.erase t } (update pc t p) := by
  refine ⟨h.inside, h.holds_update (hh.trans ht.symm), h.nodup.erase t, ?_, ?_,
    h.locals_update ?_ hp⟩
  · intro u
    rw [h.nodup.mem_erase_iff]
    by_cases hu : u = t
    · simp [hu, hw]
    · simp [hu, h.queued]
  · intro hne
    refine h.flagged fun hnil => hne ?_
    rw [hnil]
    rfl
  · intro u hu
    exact ⟨id, id, fun hl => absurd hl (h.not_locked ht hu), fun _ => id⟩

lemma PiInv.wakeFirst (hfree : m.lock = none) : PiInv m.wakeFirst pc := by
  unfold PiMem.wakeFirst
  split
  · exact h
  rename_i w rest hq
  have hnd := h.nodup
  rw [hq, nodup_cons] at hnd
  refine ⟨h.inside, h.lock, hnd.2, ?_, ?_, ?_⟩
  · intro u
    have hu := h.queued u
    rw [hq, mem_cons] at hu
    by_cases huw : u = w
    · simp [huw, hnd.1]
    · simp [huw, ← hu]
  · intro _
    refine h.flagged ?_
    rw [hq]
    exact cons_ne_nil w rest
  · intro u
    refine (h.locals u).rely ⟨id, id, fun hl => ?_, fun _ => id⟩ (h.lock u).mpr
    rw [hfree] at hl
    cases hl

end

/-! ### Each call's steps -/

variable {s : PiSystem}

lemma PiInv.acquire (h : PiInv s.mem s.pc) (hs : s.acquire t s.mem p = some s')
    (hh : p.holds) (hw : p.waits = (s.pc t).waits)
    (hp : PiLocal { s.mem with lock := some t } t p) : PiInv s'.mem s'.pc := by
  obtain ⟨hfree, ⟨⟩⟩ := guarded hs
  exact h.locks hfree hh hw hp

lemma PiInv.lockStep {timed : Bool} {stage : LockStage} (h : PiInv s.mem s.pc)
    (hpc : s.pc t = .locking timed stage) (hs : s.lockStep t timed stage act = some s') :
    PiInv s'.mem s'.pc := by
  have hlocal := h.locals t
  rw [hpc] at hlocal
  have hholds : (s.pc t).holds = stage.holds := by rw [hpc]; rfl
  have hwaits : (s.pc t).waits = stage.waits := by rw [hpc]; rfl
  unfold PiSystem.lockStep at hs
  dsimp only at hs
  split at hs
  · -- the compare-and-swap at the head of the loop
    split at hs
    · rename_i hzero
      cases hs
      refine h.take (by rw [hzero]; rfl) (futexPiOwnerTid_of_lt t.2.2) (.inl hzero) ?_ hholds.symm
        hwaits.symm trivial
      intro hne
      have hf := h.flagged hne
      rw [hzero] at hf
      exact absurd hf not_flagged_zero
    split at hs
    · cases hs
      exact h.stage hpc rfl rfl trivial
    · cases hs
      exact h.stage hpc rfl rfl trivial
  · cases hs
    exact h.stage hpc rfl rfl trivial
  · -- the owner is looked for
    split at hs
    · cases hs
      exact h.stage hpc rfl rfl trivial
    · cases hs
      exact h.stage hpc rfl rfl trivial
  · exact h.acquire hs rfl hwaits.symm trivial
  · -- the loop that sets the waiters bit
    split at hs
    · rename_i hbreak
      cases hs
      refine h.stage hpc rfl rfl ?_
      intro howned
      rw [howned, Bool.false_or] at hbreak
      exact .inl hbreak
    · cases hs
      exact h.stage hpc rfl rfl trivial
  · cases hs
    exact h.stage hpc rfl rfl nofun
  · split at hs
    · rename_i hword
      cases hs
      refine h.reflag ?_ hholds (fun _ => flagged_setWaiters _) rfl hwaits.symm
        fun _ => flagged_setWaiters _
      rw [futexPiOwnerTid_setWaiters, hword]
    · cases hs
      exact h.stage hpc rfl rfl trivial
  · cases hs
    exact h.stage hpc rfl rfl nofun
  · -- the word has no owner, or the waiter is linked
    split at hs
    · rename_i hunowned
      split at hs
      · cases hs
        exact h.stage hpc rfl rfl nofun
      split at hs
      · rename_i hword
        cases hs
        refine h.take ?_ (takeover_owner _ _ _) (.inr hholds) (takeover_flagged _ _ _) hholds.symm
          hwaits.symm fun _ => update_self _ _ _
        rw [hword]
        exact beq_iff_eq.mp hunowned
      · cases hs
        exact h.stage hpc rfl rfl nofun
    · rename_i howned
      cases hs
      exact h.enqueue hholds hwaits (hlocal (Bool.eq_false_iff.mpr howned)) rfl rfl trivial
  · obtain ⟨-, ⟨⟩⟩ := guarded hs
    exact h.stage hpc rfl rfl nofun
  · -- the waiting loop
    split at hs
    · cases hs
      exact h.stage hpc rfl rfl nofun
    · cases hs
      exact h.unlocks hholds rfl hwaits.symm trivial
  · obtain ⟨-, ⟨⟩⟩ := guarded hs
    exact h.stage hpc rfl rfl nofun
  · exact h.acquire hs rfl hwaits.symm trivial
  · split at hs
    · cases hs
      exact h.stage hpc rfl rfl nofun
    · cases hs
      exact h.unlocks hholds rfl hwaits.symm trivial
  · obtain ⟨-, ⟨⟩⟩ := guarded hs
    exact h.stage hpc rfl rfl nofun
  · exact h.acquire hs rfl hwaits.symm trivial
  · split at hs
    · cases hs
      exact h.stage hpc rfl rfl nofun
    split at hs
    · cases hs
      exact h.stage hpc rfl rfl nofun
    split at hs
    · cases hs
      exact h.stage hpc rfl rfl nofun
    · cases hs
      exact h.stage hpc rfl rfl trivial
  · obtain ⟨-, ⟨⟩⟩ := guarded hs
    exact h.stage hpc rfl rfl nofun
  · obtain ⟨-, ⟨⟩⟩ := guarded hs
    exact h.stage hpc rfl rfl nofun
  · -- the waiter is unlinked
    split at hs
    · rename_i hlast
      cases hs
      exact h.dequeue hholds rfl rfl hlast.2
    · cases hs
      exact h.dequeue hholds rfl rfl fun hrc => absurd hrc hlocal
  · -- after a timeout the last waiter clears the waiters bit
    split at hs
    · cases hs
      exact h.stage hpc rfl rfl hlocal
    · cases hs
      exact h.stage hpc rfl rfl nofun
  · cases hs
    exact h.stage hpc rfl rfl nofun
  · split at hs
    · rename_i hword
      cases hs
      refine h.reflag ?_ hholds (fun hne => absurd hlocal hne) rfl hwaits.symm nofun
      rw [futexPiOwnerTid_clearWaiters, hword]
    · cases hs
      exact h.stage hpc rfl rfl hlocal
  · cases hs
    exact h.stage hpc rfl rfl nofun
  · -- the bucket's lock is given back
    cases hs
    exact h.unlocks hholds rfl hwaits.symm trivial
  · cases hs
    exact h.unlocks hholds rfl hwaits.symm trivial
  · cases hs

lemma wakeFirst_word (m : PiMem) : m.wakeFirst.word = m.word ∧ m.wakeFirst.lock = m.lock := by
  unfold PiMem.wakeFirst
  split <;> exact ⟨rfl, rfl⟩

lemma PiInv.unlockStep {stage : UnlockStage} (h : PiInv s.mem s.pc)
    (hpc : s.pc t = .unlocking stage) (hs : s.unlockStep t stage act = some s') :
    PiInv s'.mem s'.pc := by
  have hlocal := h.locals t
  rw [hpc] at hlocal
  have hholds : (s.pc t).holds = (stage != .want) := by rw [hpc]; rfl
  have hwaits : (s.pc t).waits = false := by rw [hpc]; rfl
  unfold PiSystem.unlockStep at hs
  dsimp only at hs
  split at hs
  · -- a waiter is woken, and the queue says what the word is released to
    obtain ⟨hfree, ⟨⟩⟩ := guarded hs
    refine (h.wakeFirst hfree).locks ((wakeFirst_word _).2.trans hfree) rfl hwaits.symm ?_
    exact ⟨(congrArg futexPiOwnerTid (wakeFirst_word _).1).trans hlocal, rfl⟩
  · cases hs
    exact h.stage hpc rfl rfl hlocal
  · cases hs
    exact h.unlocks hholds rfl hwaits.symm trivial
  · -- the word is released
    split at hs
    · cases hs
      refine h.give hlocal.1 ?_ (.inr (.inl hholds)) ?_ hholds.symm hwaits.symm trivial
      · rw [hlocal.2]
        split
        · rfl
        · decide
      · intro hne
        rw [hlocal.2, if_neg hne]
        exact .inl (by decide)
    · cases hs
      exact h.stage hpc rfl rfl hlocal
  · cases hs
    exact h.unlocks hholds rfl hwaits.symm trivial
  · cases hs
    exact h.unlocks hholds rfl hwaits.symm trivial
  · cases hs

lemma PiInv.walkStep {stage : WalkStage} (h : PiInv s.mem s.pc) (hpc : s.pc t = .dying stage)
    (hs : s.walkStep t stage act = some s') : PiInv s'.mem s'.pc := by
  have hlocal := h.locals t
  rw [hpc] at hlocal
  have hholds : (s.pc t).holds = false := by rw [hpc]; rfl
  have hwaits : (s.pc t).waits = false := by rw [hpc]; rfl
  unfold PiSystem.walkStep at hs
  dsimp only at hs
  split at hs
  · split at hs
    · rename_i hmine
      cases hs
      exact h.stage hpc rfl rfl hmine
    · cases hs
      exact h
  · cases hs
    exact h.stage hpc rfl rfl trivial
  · -- the plain write: since the read the word can have got a waiters bit, which is lost here
    cases hs
    exact h.give hlocal (futexPiMarkOwnerDied_fields _).1 (.inr (.inr (flagged_markOwnerDied _)))
      (fun _ => flagged_markOwnerDied _) hholds.symm hwaits.symm trivial
  · cases hs
    exact h.stage hpc rfl rfl trivial
  · obtain ⟨hfree, ⟨⟩⟩ := guarded hs
    exact (h.wakeFirst hfree).stage hpc rfl rfl trivial
  · cases hs

lemma PiInv.step (h : PiInv s.mem s.pc) (hs : s.next l = some s') : PiInv s'.mem s'.pc := by
  obtain ⟨t, act⟩ := l
  unfold PiSystem.next at hs
  dsimp only at hs
  split at hs
  · rename_i hpc
    have hsame : update s.pc t .idle = s.pc := by rw [← hpc, update_eq_self]
    have hholds : (s.pc t).holds = false := by rw [hpc]; rfl
    have hwaits : (s.pc t).waits = false := by rw [hpc]; rfl
    -- the compare-and-swap from zero, in guest code or in FUTEX_TRYLOCK_PI
    have htake : s.mem.word = 0 → PiInv (s.mem.take t t.1) (update s.pc t .idle) := by
      intro hzero
      refine h.take (by rw [hzero]; rfl) (futexPiOwnerTid_of_lt t.2.2) (.inl hzero) ?_ hholds.symm
        hwaits.symm trivial
      intro hne
      have hf := h.flagged hne
      rw [hzero] at hf
      exact absurd hf not_flagged_zero
    split at hs
    · split at hs
      · grind
      · cases hs
        exact h
    · -- the compare-and-swap to zero finds no flag, so nobody is queued
      split at hs
      · rename_i hword
        cases hs
        have hi : PiInv (s.mem.give t 0) (update s.pc t .idle) :=
          h.give (by rw [hword, futexPiOwnerTid_of_lt t.2.2]) rfl (.inl hword)
            (fun hne => absurd (hword ▸ h.flagged hne) (not_flagged_tid t)) hholds.symm hwaits.symm
            trivial
        rw [hsame] at hi
        exact hi
      · cases hs
        exact h
    · cases hs
      exact h.stage hpc rfl rfl trivial
    · split at hs
      · rename_i hzero
        cases hs
        exact htake hzero
      · cases hs
        exact h.stage hpc rfl rfl trivial
    · split at hs
      · rename_i hmine
        cases hs
        exact h.stage hpc rfl rfl hmine
      · cases hs
        exact h.stage hpc rfl rfl trivial
    · cases hs
      exact h.stage hpc rfl rfl trivial
    · cases hs
      exact h.stage hpc rfl rfl trivial
    · cases hs
  · rename_i hpc
    exact h.lockStep hpc hs
  · rename_i hpc
    exact h.unlockStep hpc hs
  · rename_i hpc
    exact h.walkStep hpc hs
  · cases hs

/-! ### Every run -/

def PiSystem.Queued (s : PiSystem) (t : Tid) : Prop :=
  (s.pc t).waits = true ∧ s.mem.woken t = false

/-- In every reachable state at most one thread is inside. While a waiter is queued, a word with an
owner has the waiters bit; and a word without an owner has the waiters bit or the bit of a dead
owner. A call of `FUTEX_LOCK_PI` that is about to return zero has its thread inside. -/
theorem piLock_safe {ls : List (Tid × PiAct)} {s : PiSystem}
    (h : exec PiSystem.next PiSystem.init ls = some s) :
    (∀ t u, s.mem.inside t → s.mem.inside u → t = u) ∧ (∀ t, s.Queued t ↔ t ∈ s.mem.queue) ∧
      (∀ t, s.Queued t → futexPiUnowned s.mem.word = false → futexPiHasWaiters s.mem.word) ∧
      (∀ t, s.Queued t → futexPiUnowned s.mem.word →
        futexPiHasWaiters s.mem.word ∨ futexPiOwnerDied s.mem.word) ∧
      ∀ t timed, s.pc t = .locking timed (.release (some 0)) → s.mem.inside t := by
  have hi : PiInv s.mem s.pc := exec_keeps (P := fun s => PiInv s.mem s.pc)
    (fun _ _ _ hP hs => hP.step hs) PiInv.init h
  have hflag : ∀ t, s.Queued t → Flagged s.mem.word := by
    intro t ht
    exact hi.flagged (ne_nil_of_mem ((hi.queued t).mpr ht))
  refine ⟨?_, fun t => (hi.queued t).symm, ?_, ?_, ?_⟩
  · intro t u ht hu
    exact Subtype.ext (((hi.inside t).mp ht).symm.trans ((hi.inside u).mp hu))
  · intro t ht howned
    obtain hf | hf := hflag t ht
    · exact hf
    · rw [howned] at hf
      cases hf.1
  · intro t ht _
    exact (hflag t ht).imp id And.right
  intro t timed hpc
  have hlocal := hi.locals t
  rw [hpc] at hlocal
  exact hlocal rfl

/-- Thread 1 takes the word in guest code, and thread 2 waits for it. -/
def piContendedRun : List (Tid × PiAct) :=
  [(⟨1, by decide⟩, .guestLock), (⟨2, by decide⟩, .lockPi false), (⟨2, by decide⟩, .step),
    (⟨2, by decide⟩, .step), (⟨2, by decide⟩, .step), (⟨2, by decide⟩, .step),
    (⟨2, by decide⟩, .step), (⟨2, by decide⟩, .step), (⟨2, by decide⟩, .step)]

theorem piLock_safe_contended : ∃ s, exec PiSystem.next PiSystem.init piContendedRun = some s ∧
      s.mem.inside ⟨1, by decide⟩ ∧ s.Queued ⟨2, by decide⟩ ∧
      s.mem.word = 0x80000001 ∧ futexPiHasWaiters s.mem.word := by
  have hrun : exec PiSystem.next PiSystem.init piContendedRun = some _ := rfl
  exact ⟨_, hrun, by decide +kernel, ⟨by decide +kernel, by decide +kernel⟩, by decide +kernel,
    (piLock_safe hrun).2.2.1 ⟨2, by decide⟩ ⟨by decide +kernel, by decide +kernel⟩
      (by decide +kernel)⟩

end Elfuse
