/-
Pending signals.

A pending set has one bit per signal, one siginfo for each standard signal and a
ring of siginfos for each real-time signal. One set is shared by the process and
every thread has one of its own. This module translates the functions of
`signal.c` that put signals into these sets and take them out: the enqueue
functions, the five consumers, and what POSIX timers do to the shared set. A
real-time signal's `rt_info`, `rt_head` and `rt_queue` are one ring here.

* `SigState` — the sets, the claims, the timers and the lock-free hint;
* `SigOp` — the critical sections under `sig_lock`, one by one;
* `SigOp.run` — what each does, and the signals it hands out.
-/
import Elfuse.Core.Words
import Elfuse.Lib.RingBuf
import Elfuse.Lib.Runs

namespace Elfuse

open Function

def linuxNsig : ℕ := 64

def linuxSigrtmin : ℕ := 32

def rtSigqueueMax : ℕ := 32

def posixTimerMax : ℕ := 64

def maxThreads : ℕ := 64

def linuxSiUser : ℤ := 0

def linuxSiTimer : ℤ := -2

/-- Model of `signal_rt_info_t`. -/
structure RtInfo where
  signum : ℕ
  siCode : ℤ
  siPid : ℤ
  siUid : ℕ
  siInt : ℤ
  siPtr : ℕ
  deriving DecidableEq, Repr, Inhabited

/-- Model of `signal_pending_t`. Standard signals are indexed from 0, real-time ones too. -/
structure SignalPending where
  pending : BitVec 64
  stdInfoValid : ℕ → Bool
  stdInfo : ℕ → RtInfo
  rt : ℕ → RingBuf RtInfo

def SignalPending.zero : SignalPending :=
  { pending := 0, stdInfoValid := fun _ => false, stdInfo := fun _ => ⟨0, 0, 0, 0, 0, 0⟩,
    rt := fun _ => ⟨fun _ => ⟨0, 0, 0, 0, 0, 0⟩, 0, 0⟩ }

/-- What `proc_get_pid` and `proc_get_uid` answer. -/
structure SigIds where
  pid : ℤ
  uid : ℕ
  deriving DecidableEq, Repr

/-! ### One pending set -/

def sigBit (signum : ℕ) : BitVec 64 :=
  if signum < 1 ∨ linuxNsig < signum then 0 else 1#64 <<< (signum - 1)

def SignalPending.has (p : SignalPending) (signum : ℕ) : Bool := p.pending.getLsbD (signum - 1)

/-- Model of `pending_clear` of one signal's bit. -/
def SignalPending.clear (p : SignalPending) (signum : ℕ) : SignalPending :=
  { p with pending := p.pending &&& ~~~sigBit signum }

def signalDefaultInfo (ids : SigIds) (signum : ℕ) : RtInfo :=
  { signum := signum, siCode := linuxSiUser, siPid := ids.pid, siUid := ids.uid, siInt := 0,
    siPtr := 0 }

def signalStandardEnqueue (ids : SigIds) (p : SignalPending) (signum : ℕ) (info : Option RtInfo) :
    SignalPending :=
  let idx := signum - 1
  let p' := if p.pending &&& sigBit signum = 0 then
      { p with
        stdInfo := update p.stdInfo idx (info.getD (signalDefaultInfo ids signum))
        stdInfoValid := update p.stdInfoValid idx info.isSome }
    else p
  { p' with pending := p.pending ||| sigBit signum }

def signalStandardPeek (ids : SigIds) (p : SignalPending) (signum : ℕ) : RtInfo :=
  if p.stdInfoValid (signum - 1) then p.stdInfo (signum - 1) else signalDefaultInfo ids signum

def signalRtEnqueue (ids : SigIds) (p : SignalPending) (signum : ℕ) (info : Option RtInfo) :
    SignalPending :=
  let idx := signum - linuxSigrtmin
  { p with
    pending := p.pending ||| sigBit signum
    rt := update p.rt idx
      ((p.rt idx).push rtSigqueueMax (info.getD (signalDefaultInfo ids signum))) }

def signalEnqueue (ids : SigIds) (p : SignalPending) (signum : ℕ) (info : Option RtInfo) :
    SignalPending :=
  if linuxSigrtmin ≤ signum then signalRtEnqueue ids p signum info
  else signalStandardEnqueue ids p signum info

/-! ### Timers -/

inductive PosixTimerNotification
  | none
  | waiting
  | queued
  deriving DecidableEq, Repr

/-- The fields of `guest_posix_timer_t` that the queues depend on. -/
structure PosixTimer where
  used : Bool
  id : ℤ
  signum : ℕ
  value : ℕ
  overruns : ℤ
  lastOverrun : ℤ
  notification : PosixTimerNotification
  deriving DecidableEq, Repr

def PosixTimer.zero : PosixTimer := ⟨false, 0, 0, 0, 0, 0, .none⟩

/-- Model of `posix_timer_find_locked`: the index of the timer. -/
def posixTimerFind (timers : ℕ → PosixTimer) (id : ℤ) : Option ℕ :=
  (List.range posixTimerMax).find? fun i => (timers i).used && decide ((timers i).id = id)

/-- The overrun count as it is stored in a siginfo. -/
def PosixTimer.overrunUid (t : PosixTimer) : ℕ := (t.overruns % 2 ^ 32).toNat

/-- What a dequeue does with the timer in slot `i`. -/
def posixTimerTaken (timers : ℕ → PosixTimer) (i : ℕ) : ℕ → PosixTimer :=
  update timers i
    { timers i with lastOverrun := (timers i).overruns, overruns := 0, notification := .none }

def posixTimerDequeued (timers : ℕ → PosixTimer) (info : RtInfo) : RtInfo × (ℕ → PosixTimer) :=
  if info.siCode ≠ linuxSiTimer then (info, timers)
  else
    match posixTimerFind timers info.siPid with
    | none => (info, timers)
    | some i => ({ info with siUid := (timers i).overrunUid }, posixTimerTaken timers i)

def signalRtDequeue (timers : ℕ → PosixTimer) (p : SignalPending) (signum : ℕ) :
    Option RtInfo × SignalPending × (ℕ → PosixTimer) :=
  let idx := signum - linuxSigrtmin
  let r := p.rt idx
  if r.count = 0 then (none, p.clear signum, timers)
  else
    let d := posixTimerDequeued timers r.front
    let p' := { p with rt := update p.rt idx (r.pop rtSigqueueMax) }
    (some d.1, if r.count - 1 = 0 then p'.clear signum else p', d.2)

/-- The dequeue of a standard signal, as its three consumers write it. -/
def signalStandardTake (ids : SigIds) (timers : ℕ → PosixTimer) (p : SignalPending) (signum : ℕ) :
    RtInfo × SignalPending × (ℕ → PosixTimer) :=
  let d := posixTimerDequeued timers (signalStandardPeek ids p signum)
  (d.1, { p with stdInfoValid := update p.stdInfoValid (signum - 1) false }.clear signum,
    d.2)

/-- A timer's siginfo; a negative `id` stands for every timer. -/
def RtInfo.ofTimer (id : ℤ) (info : RtInfo) : Bool :=
  decide (info.siCode = linuxSiTimer) && (decide (id < 0) || decide (info.siPid = id))

/-- One round of `posix_timer_discard_pending_locked`; nothing where it goes on to the next signal
without looking at the claims. -/
def posixTimerDiscardOne (id : ℤ) (p : SignalPending) (signum : ℕ) : Option SignalPending :=
  if signum < linuxSigrtmin then
    if p.stdInfoValid (signum - 1) && (p.stdInfo (signum - 1)).ofTimer id then
      some ({ p with
        stdInfoValid := update p.stdInfoValid (signum - 1) false }.clear signum)
    else none
  else
    let idx := signum - linuxSigrtmin
    let r := (p.rt idx).compact rtSigqueueMax (RtInfo.ofTimer id)
    if r.count = (p.rt idx).count then none
    else
      let p' := { p with rt := update p.rt idx r }
      some (if r.count = 0 then p'.clear signum else p')

/-! ### The state under the lock -/

inductive SigSet
  | shared
  | thread (t : ℕ)
  deriving DecidableEq, Repr

structure SigClaims where
  claimed : BitVec 64
  owner : ℕ → Option ℕ

/-- Model of `shared_claim_release_locked`. -/
def SigClaims.release (c : SigClaims) (signum : ℕ) : SigClaims :=
  { claimed := c.claimed &&& ~~~sigBit signum
    owner := update c.owner (signum - 1) none }

/-- What decides who may take which signal, beside the sets themselves. -/
structure SigControl where
  /-- The live threads. -/
  active : ℕ → Bool
  /-- The mask of each thread. -/
  blocked : ℕ → BitVec 64
  /-- A wait has left its temporary mask for the next delivery. -/
  savedValid : ℕ → Bool
  /-- The mask used before there are threads. -/
  procBlocked : BitVec 64
  claims : SigClaims
  timers : ℕ → PosixTimer
  nextSlot : ℕ → ℕ
  ids : SigIds

structure SigState where
  ctl : SigControl
  shared : SignalPending
  priv : ℕ → SignalPending
  hint : BitVec 64

def SigState.set (s : SigState) : SigSet → SignalPending
  | .shared => s.shared
  | .thread t => s.priv t

def SigState.put (s : SigState) (p : SignalPending) : SigSet → SigState
  | .shared => { s with shared := p }
  | .thread t => { s with priv := update s.priv t p }

def threadPendingUnion (s : SigState) : BitVec 64 :=
  (List.range maxThreads).foldl
    (fun u t => if s.ctl.active t then u ||| (s.priv t).pending else u) 0

def refreshPendingHint (s : SigState) : SigState :=
  { s with hint := s.shared.pending ||| threadPendingUnion s }

/-- Model of `thread_blocked_ptr`, read. -/
def SigControl.blockedOf (c : SigControl) : Option ℕ → BitVec 64
  | some t => c.blocked t
  | none => c.procBlocked

def SigControl.ownerBlocks (c : SigControl) (idx : ℕ) : Bool :=
  match c.claims.owner idx with
  | none => true
  | some o => (c.blocked o).getLsbD idx

def sharedVisible (s : SigState) (cur : Option ℕ) : BitVec 64 :=
  (setBits (s.ctl.claims.claimed &&& s.shared.pending)).foldl
    (fun w idx =>
      if s.ctl.claims.owner idx = cur then w
      else if s.ctl.ownerBlocks idx then w
      else w &&& ~~~(1#64 <<< idx))
    s.shared.pending

def privPending (s : SigState) : Option ℕ → BitVec 64
  | some t => (s.priv t).pending
  | none => 0

/-- A dequeued signal: the set it came from, its number and the siginfo handed out. -/
structure SigTaken where
  set : SigSet
  signum : ℕ
  info : RtInfo
  deriving DecidableEq, Repr

/-- Model of the dequeue in `signal_deliver_one` and `sigtimedwait_try_dequeue`. -/
def signalTake (s : SigState) (set : SigSet) (signum : ℕ) : RtInfo × SigState :=
  let p := s.set set
  let d : RtInfo × SignalPending × (ℕ → PosixTimer) :=
    if linuxSigrtmin ≤ signum then
      let r := signalRtDequeue s.ctl.timers p signum
      (r.1.getD (signalDefaultInfo s.ctl.ids signum), r.2.1, r.2.2)
    else signalStandardTake s.ctl.ids s.ctl.timers p signum
  let s' := s.put d.2.1 set
  let claims := if set = .shared then s.ctl.claims.release signum else s.ctl.claims
  (d.1, refreshPendingHint { s' with ctl := { s.ctl with timers := d.2.2, claims := claims } })

/-! ### The consumers -/

/-- The shared signals this thread has claimed, where a wait has left its mask for them. -/
def claimedHere (s : SigState) (cur : Option ℕ) (sharedD : BitVec 64) : BitVec 64 :=
  match cur with
  | none => 0
  | some t =>
    if s.ctl.savedValid t then
      (setBits (s.ctl.claims.claimed &&& sharedD)).foldl
        (fun w idx => if s.ctl.claims.owner idx = some t then w ||| 1#64 <<< idx else w) 0
    else 0

/-- The current thread's own set; only its name matters when there is no thread. -/
def ownSet : Option ℕ → SigSet
  | some t => .thread t
  | none => .shared

/-- Model of the selection and the dequeue in `signal_deliver_one`. -/
def signalDeliverOne (s : SigState) (cur : Option ℕ) : Option SigTaken × SigState :=
  let blocked := s.ctl.blockedOf cur
  let threadD := privPending s cur &&& ~~~blocked
  let sharedD := sharedVisible s cur &&& ~~~blocked
  if threadD ||| sharedD = 0 then (none, s)
  else
    let here := claimedHere s cur sharedD
    let pick : SigSet × ℕ :=
      if here ≠ 0 then (.shared, bitCtz64 here + 1)
      else if threadD ≠ 0 then (ownSet cur, bitCtz64 threadD + 1)
      else (.shared, bitCtz64 sharedD + 1)
    let r := signalTake s pick.1 pick.2
    (some ⟨pick.1, pick.2, r.1⟩, r.2)

def sigtimedwaitTryDequeue (s : SigState) (cur : Option ℕ) (mask : BitVec 64) :
    Option SigTaken × SigState :=
  let threadM := privPending s cur &&& mask
  let sharedM := sharedVisible s cur &&& mask
  if threadM ||| sharedM = 0 then (none, s)
  else
    let pick : SigSet × ℕ :=
      if threadM ≠ 0 then (ownSet cur, bitCtz64 threadM + 1)
      else (.shared, bitCtz64 sharedM + 1)
    let r := signalTake s pick.1 pick.2
    (some ⟨pick.1, pick.2, r.1⟩, r.2)

/-- The sets a signalfd of the current thread reads, in the order it numbers them. -/
def signalfdSets : Option ℕ → List SigSet
  | some t => [.thread t, .shared]
  | none => [.shared]

/-- The inner loop of `signal_peek_signalfd` over the signals of one set. -/
def signalPeekSet (ids : SigIds) (p : SignalPending) (avail mask : BitVec 64) (set : SigSet)
    (max : ℕ) (out : List SigTaken) : List SigTaken :=
  (List.range' 1 linuxNsig).foldl
    (fun out signum =>
      if out.length < max ∧ mask.getLsbD (signum - 1) ∧ avail.getLsbD (signum - 1) then
        let found : List RtInfo :=
          if linuxSigrtmin ≤ signum then
            (p.rt (signum - linuxSigrtmin)).contents rtSigqueueMax
          else [signalStandardPeek ids p signum]
        out ++ (found.take (max - out.length)).map fun info => ⟨set, signum, info⟩
      else out)
    out

def signalPeekSignalfd (s : SigState) (cur : Option ℕ) (mask : BitVec 64) (max : ℕ) :
    List SigTaken :=
  (signalfdSets cur).foldl
    (fun out set =>
      let avail := if set = .shared then sharedVisible s cur else (s.set set).pending
      signalPeekSet s.ctl.ids (s.set set) avail mask set max out)
    []

/-- One round of `signal_take_signalfd_exact`; nothing where it stops. -/
def signalTakeExactOne (s : SigState) (cur : Option ℕ) (want : RtInfo × ℕ) :
    Option (SigTaken × SigState) :=
  let signum := want.1.signum
  if signum = 0 ∨ linuxNsig < signum then none
  else
    match (signalfdSets cur)[want.2]? with
    | none => none
    | some set =>
      let p := s.set set
      if p.pending &&& sigBit signum = 0 then none
      else
        let claims := if set = .shared then s.ctl.claims.release signum else s.ctl.claims
        if linuxSigrtmin ≤ signum then
          let r := p.rt (signum - linuxSigrtmin)
          if r.count = 0 then none
          else if r.front ≠ want.1 then none
          else
            let d := signalRtDequeue s.ctl.timers p signum
            some (⟨set, signum, r.front⟩,
              { s.put d.2.1 set with ctl := { s.ctl with timers := d.2.2, claims := claims } })
        else
          let current := signalStandardPeek s.ctl.ids p signum
          if current ≠ want.1 then none
          else
            let d := signalStandardTake s.ctl.ids s.ctl.timers p signum
            some (⟨set, signum, current⟩,
              { s.put d.2.1 set with ctl := { s.ctl with timers := d.2.2, claims := claims } })

/-- The loop of `signal_take_signalfd_exact`. -/
def signalTakeExactLoop (cur : Option ℕ) :
    List (RtInfo × ℕ) → SigState → List SigTaken × SigState
  | [], s => ([], s)
  | want :: rest, s =>
    match signalTakeExactOne s cur want with
    | none => ([], s)
    | some (taken, s') =>
      let r := signalTakeExactLoop cur rest s'
      (taken :: r.1, r.2)

/-- Model of `signal_take_signalfd_exact`; each expected siginfo comes with the number of the set
it was peeked from. -/
def signalTakeSignalfdExact (s : SigState) (cur : Option ℕ) (expected : List (RtInfo × ℕ)) :
    List SigTaken × SigState :=
  let r := signalTakeExactLoop cur expected s
  (r.1, refreshPendingHint r.2)

/-! ### Timers and the shared set -/

def PosixTimer.info (t : PosixTimer) : RtInfo :=
  { signum := t.signum, siCode := linuxSiTimer, siPid := t.id, siUid := t.overrunUid,
    siInt := (BitVec.ofNat 32 t.value).toInt, siPtr := t.value }

def sharedFull (s : SigState) (signum : ℕ) : Bool :=
  if linuxSigrtmin ≤ signum then
    decide (rtSigqueueMax ≤ (s.shared.rt (signum - linuxSigrtmin)).count)
  else !decide (s.shared.pending &&& sigBit signum = 0)

def PosixTimer.waitsOn (t : PosixTimer) (signum : ℕ) : Bool :=
  t.used && decide (t.signum = signum) && decide (t.notification = .waiting)

/-- The loop of `posix_timer_enqueue_waiting_locked`. -/
def posixTimerEnqueueLoop (signum start : ℕ) : ℕ → ℕ → SigState → SigState
  | 0, _, s => s
  | n + 1, offset, s =>
    let i := (start + offset) % posixTimerMax
    let t := s.ctl.timers i
    if t.waitsOn signum then
      if sharedFull s signum then s
      else
        posixTimerEnqueueLoop signum start n (offset + 1)
          { s with
            shared := signalEnqueue s.ctl.ids s.shared t.signum (some t.info)
            ctl := { s.ctl with
              timers := update s.ctl.timers i { t with notification := .queued }
              nextSlot := update s.ctl.nextSlot (signum - 1)
                ((i + 1) % posixTimerMax) } }
    else posixTimerEnqueueLoop signum start n (offset + 1) s

def posixTimerEnqueueWaiting (s : SigState) (signum : ℕ) : SigState :=
  posixTimerEnqueueLoop signum (s.ctl.nextSlot (signum - 1)) posixTimerMax 0 s

/-- Write the timer's overrun count into a queued copy of its siginfo. -/
def PosixTimer.refreshInfo (t : PosixTimer) (info : RtInfo) : RtInfo :=
  if info.siCode = linuxSiTimer ∧ info.siPid = t.id then { info with siUid := t.overrunUid }
  else info

def posixTimerUpdatePending (s : SigState) (t : PosixTimer) : SigState :=
  if t.signum < linuxSigrtmin then
    { s with shared := { s.shared with
        stdInfo := update s.shared.stdInfo (t.signum - 1)
          (t.refreshInfo (s.shared.stdInfo (t.signum - 1))) } }
  else
    let idx := t.signum - linuxSigrtmin
    { s with shared := { s.shared with
        rt := update s.shared.rt idx
          ((s.shared.rt idx).modify rtSigqueueMax t.refreshInfo) } }

/-- The loop of `posix_timer_discard_pending_locked`. -/
def posixTimerDiscardLoop (id : ℤ) (set : SigSet) (p : SignalPending) (c : SigClaims) :
    List ℕ → SignalPending × SigClaims
  | [] => (p, c)
  | idx :: rest =>
    match posixTimerDiscardOne id p (idx + 1) with
    | none => posixTimerDiscardLoop id set p c rest
    | some p' =>
      let c' := if set = .shared ∧ p'.pending &&& sigBit (idx + 1) = 0 then c.release (idx + 1)
        else c
      posixTimerDiscardLoop id set p' c' rest

def posixTimerDiscardPending (s : SigState) (set : SigSet) (id : ℤ) : SigState :=
  let r := posixTimerDiscardLoop id set (s.set set) s.ctl.claims (setBits (s.set set).pending)
  { s.put r.1 set with ctl := { s.ctl with claims := r.2 } }

/-! ### Critical sections -/

/-- What happens under `sig_lock`. -/
inductive SigOp
  /-- `signal_queue`, `signal_queue_thread` and their variants with a siginfo. -/
  | enqueue (set : SigSet) (signum : ℕ) (info : Option RtInfo)
  /-- `signal_rt_dequeue_locked`. -/
  | rtDequeue (set : SigSet) (signum : ℕ)
  /-- `signal_deliver_one`. -/
  | deliverOne (cur : Option ℕ)
  /-- `sigtimedwait_try_dequeue`. -/
  | sigtimedwait (cur : Option ℕ) (mask : BitVec 64)
  /-- `signal_peek_signalfd`. -/
  | peekSignalfd (cur : Option ℕ) (mask : BitVec 64) (max : ℕ)
  /-- `signal_take_signalfd_exact`. -/
  | takeSignalfd (cur : Option ℕ) (expected : List (RtInfo × ℕ))
  /-- `posix_timer_enqueue_waiting_locked`. -/
  | timerEnqueue (signum : ℕ)
  /-- `posix_timer_update_pending_locked` for the timer in a slot. -/
  | timerUpdate (slot : ℕ)
  /-- `posix_timer_discard_pending_locked`. -/
  | discard (set : SigSet) (id : ℤ)
  | claim (t signum : ℕ)
  /-- Whatever else changes: masks, timers, identities, the threads' waits. -/
  | control (blocked : ℕ → BitVec 64) (savedValid : ℕ → Bool) (procBlocked : BitVec 64)
      (timers : ℕ → PosixTimer) (nextSlot : ℕ → ℕ) (ids : SigIds)
  /-- A thread slot is cleared and taken. -/
  | threadStart (t : ℕ)
  | threadExit (t : ℕ)

def SigControl.isLive (c : SigControl) : Option ℕ → Bool
  | none => true
  | some t => decide (t < maxThreads) && c.active t

def SigControl.hasSet (c : SigControl) : SigSet → Bool
  | .shared => true
  | .thread t => c.isLive (some t)

def isSignal (signum : ℕ) : Bool := decide (1 ≤ signum ∧ signum ≤ linuxNsig)

def SigOp.legal (c : SigControl) : SigOp → Bool
  | .enqueue set signum _ => c.hasSet set && isSignal signum
  | .rtDequeue set signum => c.hasSet set && isSignal signum && decide (linuxSigrtmin ≤ signum)
  | .deliverOne cur => c.isLive cur
  | .sigtimedwait cur _ => c.isLive cur
  | .peekSignalfd cur _ _ => c.isLive cur
  | .takeSignalfd cur _ => c.isLive cur
  | .timerEnqueue signum => isSignal signum
  | .timerUpdate slot => isSignal (c.timers slot).signum
  | .discard set _ => c.hasSet set
  | .claim t signum => c.isLive (some t) && isSignal signum
  | .control _ _ _ _ _ _ => true
  | .threadStart t => decide (t < maxThreads) && !c.active t
  | .threadExit t => c.isLive (some t)

/-- What a critical section hands out and the state it leaves. -/
def SigOp.run (s : SigState) : SigOp → List SigTaken × SigState
  | .enqueue set signum info =>
    ([], refreshPendingHint (s.put (signalEnqueue s.ctl.ids (s.set set) signum info) set))
  | .rtDequeue set signum =>
    let d := signalRtDequeue s.ctl.timers (s.set set) signum
    ((d.1.map fun info => ⟨set, signum, info⟩).toList,
      { s.put d.2.1 set with ctl := { s.ctl with timers := d.2.2 } })
  | .deliverOne cur => ((signalDeliverOne s cur).1.toList, (signalDeliverOne s cur).2)
  | .sigtimedwait cur mask =>
    ((sigtimedwaitTryDequeue s cur mask).1.toList, (sigtimedwaitTryDequeue s cur mask).2)
  | .peekSignalfd cur mask max => (signalPeekSignalfd s cur mask max, s)
  | .takeSignalfd cur expected => signalTakeSignalfdExact s cur expected
  | .timerEnqueue signum => ([], refreshPendingHint (posixTimerEnqueueWaiting s signum))
  | .timerUpdate slot =>
    ([], refreshPendingHint (posixTimerUpdatePending s (s.ctl.timers slot)))
  | .discard set id => ([], refreshPendingHint (posixTimerDiscardPending s set id))
  | .claim t signum =>
    ([], { s with ctl := { s.ctl with
      claims := { claimed := s.ctl.claims.claimed ||| sigBit signum
                  owner := update s.ctl.claims.owner (signum - 1) (some t) } } })
  | .control blocked savedValid procBlocked timers nextSlot ids =>
    ([], { s with ctl := { s.ctl with
      blocked := blocked, savedValid := savedValid, procBlocked := procBlocked, timers := timers
      nextSlot := nextSlot, ids := ids } })
  | .threadStart t =>
    ([], { s with
      priv := update s.priv t SignalPending.zero
      ctl := { s.ctl with active := update s.ctl.active t true } })
  | .threadExit t =>
    ([], refreshPendingHint
      { s with ctl := { s.ctl with active := update s.ctl.active t false } })

/-- The state and all that was handed out so far. -/
structure SigRun where
  state : SigState
  log : List SigTaken

def SigRun.next (r : SigRun) (op : SigOp) : Option SigRun :=
  if op.legal r.state.ctl then
    some ⟨(op.run r.state).2, r.log ++ (op.run r.state).1⟩
  else none

def SigControl.init (ids : SigIds) : SigControl :=
  { active := fun _ => false, blocked := fun _ => 0, savedValid := fun _ => false
    procBlocked := 0, claims := ⟨0, fun _ => none⟩, timers := fun _ => PosixTimer.zero
    nextSlot := fun _ => 0, ids := ids }

/-- The state after `signal_init`. -/
def SigRun.init (ids : SigIds) : SigRun :=
  ⟨{ ctl := .init ids, shared := .zero, priv := fun _ => .zero, hint := 0 }, []⟩

end Elfuse
