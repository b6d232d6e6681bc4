/-
Pending signals as queues.

The abstract model of a pending set is a queue for every signal: at most one
entry for a standard signal, the first one, and at most `RT_SIGQUEUE_MAX` for a
real-time one. An entry keeps who queued it: it belongs to a timer or it was
sent. Dequeuing takes the head of the lowest signal, from the thread's own set
before the shared one; discarding a timer removes that timer's entries.

* `queuesOf` — the queues a pending set stands for;
* `signals_queues` — dequeues and discards agree on every run in which no sent
  siginfo carries the timers' code and no thread with a mask to restore delivers
  a signal it has claimed;
* `forged_timer_discarded` — a sent siginfo with that code is lost when the
  timer it names is deleted;
* `signalPending_iff_delivers` — the fast path of `signal_pending` misses nothing.
-/
import Elfuse.Syscall.SignalPending

namespace Elfuse

open Function Runs Option Nat BitVec SignalPending

/-! ### The abstract model -/

structure QEntry where
  /-- Its siginfo; a standard signal sent without one gets the default when it is taken. -/
  info : Option RtInfo
  timer : Option ℤ
  deriving DecidableEq, Repr

abbrev Queues := ℕ → List QEntry

def QEntry.resolve (ids : SigIds) (signum : ℕ) (e : QEntry) : RtInfo :=
  e.info.getD (signalDefaultInfo ids signum)

/-- The siginfo a dequeue hands out: that of a live timer carries its overruns, which start over. -/
def QEntry.report (timers : ℕ → PosixTimer) (ids : SigIds) (signum : ℕ) (e : QEntry) :
    RtInfo × (ℕ → PosixTimer) :=
  match e.timer.bind (posixTimerFind timers) with
  | none => (e.resolve ids signum, timers)
  | some i =>
    ({ e.resolve ids signum with siUid := (timers i).overrunUid }, posixTimerTaken timers i)

/-- Queue an entry: the first one wins for a standard signal, and a full queue drops it. -/
def Queues.enqueue (ids : SigIds) (q : Queues) (signum : ℕ) (info : Option RtInfo)
    (timer : Option ℤ) : Queues :=
  if linuxSigrtmin ≤ signum then
    if (q signum).length < rtSigqueueMax then
      update q signum
        (q signum ++ [⟨some (info.getD (signalDefaultInfo ids signum)), timer⟩])
    else q
  else if q signum = [] then update q signum [⟨info, timer⟩] else q

/-- The entry belongs to the timer; a negative `id` stands for every timer. -/
def QEntry.ofTimer (id : ℤ) (e : QEntry) : Bool :=
  match e.timer with
  | none => false
  | some i => decide (id < 0) || decide (i = id)

def Queues.discard (q : Queues) (id : ℤ) : Queues :=
  fun signum => (q signum).filter fun e => !e.ofTimer id

def Queues.first (q : Queues) (allowed : ℕ → Bool) : Option ℕ :=
  (List.range' 1 linuxNsig).find? fun signum => !(q signum).isEmpty && allowed signum

structure QState where
  ctl : SigControl
  shared : Queues
  priv : ℕ → Queues

def QState.set (q : QState) : SigSet → Queues
  | .shared => q.shared
  | .thread t => q.priv t

def QState.put (q : QState) (qs : Queues) : SigSet → QState
  | .shared => { q with shared := qs }
  | .thread t => { q with priv := update q.priv t qs }

def QState.pop (q : QState) (set : SigSet) (signum : ℕ) : Option RtInfo × QState :=
  match q.set set signum with
  | [] => (none, q)
  | e :: rest =>
    let r := e.report q.ctl.timers q.ctl.ids signum
    (some r.1, { q.put (update (q.set set) signum rest) set with
      ctl := { q.ctl with timers := r.2 } })

def QState.release (q : QState) (set : SigSet) (signum : ℕ) : QState :=
  if set = .shared then { q with ctl := { q.ctl with claims := q.ctl.claims.release signum } }
  else q

def QState.take (q : QState) (set : SigSet) (signum : ℕ) : Option SigTaken × QState :=
  let r := q.pop set signum
  (r.1.map fun info => ⟨set, signum, info⟩, r.2.release set signum)

/-- A shared signal is kept for another thread, which claimed it and leaves it unblocked. -/
def SigControl.hidden (c : SigControl) (cur : Option ℕ) (signum : ℕ) : Bool :=
  c.claims.claimed.getLsbD (signum - 1) && !decide (c.claims.owner (signum - 1) = cur) &&
    !c.ownerBlocks (signum - 1)

/-- The lowest signal of the thread's own set. -/
def QState.firstOwn (q : QState) (allowed : ℕ → Bool) : Option ℕ → Option ℕ
  | some t => (q.priv t).first allowed
  | none => none

/-- Dequeue one allowed signal: the thread's own set before the shared one, the lowest first. -/
def QState.dequeue (q : QState) (cur : Option ℕ) (allowed : ℕ → Bool) :
    Option SigTaken × QState :=
  match q.firstOwn allowed cur with
  | some signum => q.take (ownSet cur) signum
  | none =>
    match q.shared.first fun signum => allowed signum && !q.ctl.hidden cur signum with
    | some signum => q.take .shared signum
    | none => (none, q)

/-- The signals a signalfd can read, in the order of their dequeue. -/
def QState.readable (q : QState) (cur : Option ℕ) (mask : BitVec 64) : List SigTaken :=
  (signalfdSets cur).flatMap fun set =>
    (List.range' 1 linuxNsig).flatMap fun signum =>
      if mask.getLsbD (signum - 1) && !(decide (set = .shared) && q.ctl.hidden cur signum) then
        (q.set set signum).map fun e => ⟨set, signum, e.resolve q.ctl.ids signum⟩
      else []

/-- Take the heads that are as expected, up to the first that is not. -/
def QState.takeExact (cur : Option ℕ) : List (RtInfo × ℕ) → QState → List SigTaken × QState
  | [], q => ([], q)
  | want :: rest, q =>
    match (signalfdSets cur)[want.2]? with
    | none => ([], q)
    | some set =>
      match if isSignal want.1.signum then q.set set want.1.signum else [] with
      | [] => ([], q)
      | e :: _ =>
        if e.resolve q.ctl.ids want.1.signum = want.1 then
          let r := QState.takeExact cur rest (q.take set want.1.signum).2
          (⟨set, want.1.signum, want.1⟩ :: r.1, r.2)
        else ([], q)

def QState.full (q : QState) (signum : ℕ) : Bool :=
  if linuxSigrtmin ≤ signum then decide (rtSigqueueMax ≤ (q.shared signum).length)
  else !(q.shared signum).isEmpty

/-- Queue the waiting timers of a signal, from slot `start` on, while there is room. -/
def QState.timerEnqueueLoop (signum start : ℕ) : ℕ → ℕ → QState → QState
  | 0, _, q => q
  | n + 1, offset, q =>
    let i := (start + offset) % posixTimerMax
    let t := q.ctl.timers i
    if t.waitsOn signum then
      if q.full signum then q
      else
        QState.timerEnqueueLoop signum start n (offset + 1)
          { q with
            shared := q.shared.enqueue q.ctl.ids t.signum (some t.info) (some t.id)
            ctl := { q.ctl with
              timers := update q.ctl.timers i { t with notification := .queued }
              nextSlot := update q.ctl.nextSlot (signum - 1)
                ((i + 1) % posixTimerMax) } }
    else QState.timerEnqueueLoop signum start n (offset + 1) q

/-- Write a timer's overruns into its queued entries. -/
def QEntry.refresh (t : PosixTimer) (e : QEntry) : QEntry :=
  if e.timer = some t.id then
    { e with info := e.info.map fun info => { info with siUid := t.overrunUid } }
  else e

/-- Those of the signals in `l` of which a discard leaves none. -/
def Queues.emptied (q : Queues) (id : ℤ) (l : List ℕ) : List ℕ :=
  l.filter fun signum => !(q signum).isEmpty && (q.discard id signum).isEmpty

/-- Discard a timer's entries; a claim on a signal of which none is left is void. -/
def QState.discard (q : QState) (set : SigSet) (id : ℤ) : QState :=
  { q.put ((q.set set).discard id) set with
    ctl := { q.ctl with
      claims := if set = .shared then
          ((q.set set).emptied id (List.range' 1 linuxNsig)).foldl SigClaims.release q.ctl.claims
        else q.ctl.claims } }

def SigOp.runQueues (q : QState) : SigOp → List SigTaken × QState
  | .enqueue set signum info =>
    ([], q.put ((q.set set).enqueue q.ctl.ids signum info none) set)
  | .rtDequeue set signum =>
    (((q.pop set signum).1.map fun info => ⟨set, signum, info⟩).toList, (q.pop set signum).2)
  | .deliverOne cur =>
    let r := q.dequeue cur fun signum => (~~~q.ctl.blockedOf cur).getLsbD (signum - 1)
    (r.1.toList, r.2)
  | .sigtimedwait cur mask =>
    let r := q.dequeue cur fun signum => mask.getLsbD (signum - 1)
    (r.1.toList, r.2)
  | .peekSignalfd cur mask max => ((q.readable cur mask).take max, q)
  | .takeSignalfd cur expected => QState.takeExact cur expected q
  | .timerEnqueue signum =>
    ([], QState.timerEnqueueLoop signum (q.ctl.nextSlot (signum - 1)) posixTimerMax 0 q)
  | .timerUpdate slot =>
    let t := q.ctl.timers slot
    ([], { q with
      shared := update q.shared t.signum ((q.shared t.signum).map (QEntry.refresh t)) })
  | .discard set id => ([], q.discard set id)
  | .claim t signum =>
    ([], { q with ctl := { q.ctl with
      claims := { claimed := q.ctl.claims.claimed ||| sigBit signum
                  owner := update q.ctl.claims.owner (signum - 1) (some t) } } })
  | .control blocked savedValid procBlocked timers nextSlot ids =>
    ([], { q with ctl := { q.ctl with
      blocked := blocked, savedValid := savedValid, procBlocked := procBlocked, timers := timers
      nextSlot := nextSlot, ids := ids } })
  | .threadStart t =>
    ([], { q with
      priv := update q.priv t fun _ => []
      ctl := { q.ctl with active := update q.ctl.active t true } })
  | .threadExit t =>
    ([], { q with ctl := { q.ctl with active := update q.ctl.active t false } })

/-- The queues and all that was handed out so far. -/
structure QRun where
  state : QState
  log : List SigTaken

def QRun.next (r : QRun) (op : SigOp) : Option QRun :=
  if op.legal r.state.ctl then
    some ⟨(op.runQueues r.state).2, r.log ++ (op.runQueues r.state).1⟩
  else none

/-! ### Bits -/

lemma isSignal_iff {signum : ℕ} : isSignal signum ↔ 1 ≤ signum ∧ signum ≤ linuxNsig :=
  decide_eq_true_iff

variable {s s' : ℕ}

section
variable (hs : isSignal s = true)
include hs

lemma getLsbD_sigBit (hs' : isSignal s') : (sigBit s).getLsbD (s' - 1) = decide (s' = s) := by
  obtain ⟨h1, h2⟩ := isSignal_iff.mp hs
  obtain ⟨h1', h2'⟩ := isSignal_iff.mp hs'
  unfold linuxNsig at h2 h2'
  rw [sigBit, if_neg (by unfold linuxNsig; omega), getLsbD_shiftLeft, getLsbD_one]
  grind

lemma getLsbD_or_sigBit (hs' : isSignal s') (w : BitVec 64) :
    (w ||| sigBit s).getLsbD (s' - 1) = (decide (s' = s) || w.getLsbD (s' - 1)) := by
  rw [getLsbD_or, getLsbD_sigBit hs hs', Bool.or_comm]

lemma getLsbD_and_not_sigBit (hs' : isSignal s') (w : BitVec 64) :
    (w &&& ~~~sigBit s).getLsbD (s' - 1) = (!decide (s' = s) && w.getLsbD (s' - 1)) := by
  have hi : s' - 1 < 64 := by
    have := (isSignal_iff.mp hs').2
    unfold linuxNsig at this
    omega
  rw [getLsbD_and, getLsbD_not, getLsbD_sigBit hs hs', Bool.and_comm]
  simp [hi]

lemma and_sigBit_eq_zero (w : BitVec 64) : w &&& sigBit s = 0 ↔ w.getLsbD (s - 1) = false := by
  constructor
  · intro h
    have := congrArg (·.getLsbD (s - 1)) h
    simpa [getLsbD_and, getLsbD_sigBit hs hs] using this
  intro h
  apply eq_of_getLsbD_eq
  intro i hi
  have hs' : isSignal (i + 1) := isSignal_iff.mpr ⟨by omega, by unfold linuxNsig; omega⟩
  have hb := getLsbD_sigBit hs hs'
  grind

end

/-! ### The queues of a pending set -/

def timerTag : Option RtInfo → Option ℤ
  | none => none
  | some info => if info.siCode = linuxSiTimer then some info.siPid else none

/-- The entry a siginfo stands for. -/
def QEntry.of (info : Option RtInfo) : QEntry := ⟨info, timerTag info⟩

def SignalPending.stdEntry (p : SignalPending) (signum : ℕ) : Option RtInfo :=
  if p.stdInfoValid (signum - 1) then some (p.stdInfo (signum - 1)) else none

def queuesOf (p : SignalPending) : Queues := fun signum =>
  if isSignal signum then
    if linuxSigrtmin ≤ signum then
      ((p.rt (signum - linuxSigrtmin)).contents rtSigqueueMax).map fun info => QEntry.of (some info)
    else if p.has signum then [QEntry.of (p.stdEntry signum)] else []
  else []

variable {p : SignalPending}

lemma queuesOf_rt (hs : isSignal s) (hrt : linuxSigrtmin ≤ s) :
    queuesOf p s = ((p.rt (s - linuxSigrtmin)).contents rtSigqueueMax).map
      fun info => QEntry.of (some info) := by
  rw [queuesOf, if_pos hs, if_pos hrt]

lemma queuesOf_std (hs : isSignal s) (hrt : ¬ linuxSigrtmin ≤ s) :
    queuesOf p s = if p.has s then [QEntry.of (p.stdEntry s)] else [] := by
  rw [queuesOf, if_pos hs, if_neg hrt]

lemma queuesOf_none (hs : ¬ isSignal s) : queuesOf p s = [] := if_neg hs

/-- The rings are in range, and a real-time signal's bit is set while its ring is not empty. -/
def PendingOk (p : SignalPending) : Prop :=
  ∀ s, isSignal s = true → linuxSigrtmin ≤ s →
    (p.rt (s - linuxSigrtmin)).Valid rtSigqueueMax ∧
      (p.has s = true ↔ 0 < (p.rt (s - linuxSigrtmin)).count)

lemma length_queuesOf_rt (hs : isSignal s) (hrt : linuxSigrtmin ≤ s) :
    (queuesOf p s).length = (p.rt (s - linuxSigrtmin)).count := by
  rw [queuesOf_rt hs hrt, List.length_map, RingBuf.length_contents]

lemma has_iff_queue (hp : PendingOk p) (hs : isSignal s) : p.has s ↔ queuesOf p s ≠ [] := by
  by_cases hrt : linuxSigrtmin ≤ s
  · rw [(hp s hs hrt).2, ← length_queuesOf_rt hs hrt, List.length_pos_iff]
  · rw [queuesOf_std hs hrt]
    cases p.has s <;> simp

lemma PendingOk.zero : PendingOk zero := by
  intro s hs hrt
  refine ⟨⟨(by decide : 0 < 32), (by decide : 0 ≤ 32)⟩, ?_⟩
  show (0 : BitVec 64).getLsbD (s - 1) ↔ 0 < 0
  simp

lemma queuesOf_zero : queuesOf zero = fun _ => [] := by
  funext s
  by_cases hs : isSignal s
  · by_cases hrt : linuxSigrtmin ≤ s
    · rw [queuesOf_rt hs hrt]
      rfl
    rw [queuesOf_std hs hrt]
    show (if (0 : BitVec 64).getLsbD (s - 1) = true then _ else _) = _
    simp
  · exact queuesOf_none hs

/-! ### One signal at a time

Every edit of a set touches one signal. What the other signals see of it is the
same, and what this one sees is one fact per edit. -/

/-- Two sets agree on a signal. -/
structure SameAt (s : ℕ) (p p' : SignalPending) : Prop where
  has : p'.has s = p.has s
  valid : p'.stdInfoValid (s - 1) = p.stdInfoValid (s - 1)
  info : p'.stdInfo (s - 1) = p.stdInfo (s - 1)
  rt : linuxSigrtmin ≤ s → p'.rt (s - linuxSigrtmin) = p.rt (s - linuxSigrtmin)

variable {p' : SignalPending}

lemma SameAt.queues (h : SameAt s p p') : queuesOf p' s = queuesOf p s := by
  unfold queuesOf stdEntry
  by_cases hrt : linuxSigrtmin ≤ s
  · rw [h.rt hrt, h.has, h.valid, h.info]
  · rw [if_neg hrt, if_neg hrt, h.has, h.valid, h.info]

def EditsOnly (s : ℕ) (p p' : SignalPending) : Prop :=
  ∀ s', isSignal s' = true → s' ≠ s → SameAt s' p p'

lemma EditsOnly.queues (h : EditsOnly s p p') {qs : Queues}
    (hother : ∀ s', s' ≠ s → qs s' = queuesOf p s') (hs : queuesOf p' s = qs s) :
    queuesOf p' = qs := by
  funext s'
  by_cases heq : s' = s
  · rw [heq, hs]
  rw [hother s' heq]
  by_cases hsig : isSignal s'
  · exact (h s' hsig heq).queues
  · rw [queuesOf_none hsig, queuesOf_none hsig]

lemma EditsOnly.ok (h : EditsOnly s p p') (hp : PendingOk p)
    (hs : isSignal s → linuxSigrtmin ≤ s → (p'.rt (s - linuxSigrtmin)).Valid rtSigqueueMax ∧
        (p'.has s ↔ 0 < (p'.rt (s - linuxSigrtmin)).count)) : PendingOk p' := by
  intro s' hsig hrt
  by_cases heq : s' = s
  · subst heq
    exact hs hsig hrt
  · rw [(h s' hsig heq).rt hrt, (h s' hsig heq).has]
    exact hp s' hsig hrt

lemma SignalPending.has_clear (hs : isSignal s) (hs' : isSignal s') :
    (p.clear s).has s' = (!decide (s' = s) && p.has s') :=
  getLsbD_and_not_sigBit hs hs' p.pending

lemma EditsOnly.clear (hs : isSignal s) (h : EditsOnly s p p') : EditsOnly s p (p'.clear s) := by
  intro s' hs' hne
  have hsame := h s' hs' hne
  refine ⟨?_, hsame.valid, hsame.info, hsame.rt⟩
  rw [has_clear hs hs', hsame.has]
  simp [hne]

lemma EditsOnly.invalid (p : SignalPending) (b : Bool) (hs : isSignal s) :
    EditsOnly s p { p with stdInfoValid := update p.stdInfoValid (s - 1) b } := by
  intro s' hs' hne
  have h1 := (isSignal_iff.mp hs).1
  have h1' := (isSignal_iff.mp hs').1
  exact ⟨rfl, update_of_ne (by omega) _ _, rfl, fun _ => rfl⟩

lemma EditsOnly.ring (p : SignalPending) (r : RingBuf RtInfo) (hrt : linuxSigrtmin ≤ s) :
    EditsOnly s p { p with rt := update p.rt (s - linuxSigrtmin) r } := by
  intro s' _ hne
  refine ⟨rfl, rfl, rfl, fun hrt' => ?_⟩
  exact update_of_ne (by omega) _ _

/-! ### Queueing -/

lemma EditsOnly.enqueue (ids : SigIds) (p : SignalPending) (hs : isSignal s)
    (info : Option RtInfo) : EditsOnly s p (signalEnqueue ids p s info) := by
  intro s' hs' hne
  have h1 := (isSignal_iff.mp hs).1
  have h1' := (isSignal_iff.mp hs').1
  have hbit : (p.pending ||| sigBit s).getLsbD (s' - 1) = p.pending.getLsbD (s' - 1) := by
    rw [getLsbD_or_sigBit hs hs']
    simp [hne]
  unfold signalEnqueue
  split
  · exact ⟨hbit, rfl, rfl, fun hrt' => update_of_ne (by omega) _ _⟩
  unfold signalStandardEnqueue
  split
  · exact ⟨hbit, update_of_ne (by omega) _ _, update_of_ne (by omega) _ _,
      fun _ => rfl⟩
  · exact ⟨hbit, rfl, rfl, fun _ => rfl⟩

lemma signalEnqueue_has (ids : SigIds) (p : SignalPending) (hs : isSignal s)
    (info : Option RtInfo) : (signalEnqueue ids p s info).has s := by
  have hbit : (p.pending ||| sigBit s).getLsbD (s - 1) := by
    rw [getLsbD_or_sigBit hs hs]
    simp
  unfold signalEnqueue
  split
  · exact hbit
  · exact hbit

lemma signalEnqueue_rt (ids : SigIds) (p : SignalPending) (hrt : linuxSigrtmin ≤ s)
    (info : Option RtInfo) : (signalEnqueue ids p s info).rt (s - linuxSigrtmin) =
      (p.rt (s - linuxSigrtmin)).push rtSigqueueMax (info.getD (signalDefaultInfo ids s)) := by
  unfold signalEnqueue
  rw [if_pos hrt]
  exact update_self _ _ _

lemma PendingOk.enqueue (hp : PendingOk p) (ids : SigIds) (hs : isSignal s)
    (info : Option RtInfo) : PendingOk (signalEnqueue ids p s info) := by
  refine (EditsOnly.enqueue ids p hs info).ok hp ?_
  intro _ hrt
  rw [signalEnqueue_rt ids p hrt, signalEnqueue_has ids p hs]
  refine ⟨(hp s hs hrt).1.push _, ?_⟩
  have hpos : 0 < ((p.rt (s - linuxSigrtmin)).push rtSigqueueMax
      (info.getD (signalDefaultInfo ids s))).count := by
    unfold RingBuf.push
    split
    case isTrue h => exact lt_of_lt_of_le (by decide) h
    case isFalse h => exact succ_pos _
  simp [hpos]

lemma signalStandardEnqueue_entry (ids : SigIds) (p : SignalPending) (hs : isSignal s)
    (hrt : ¬ linuxSigrtmin ≤ s) (info : Option RtInfo) : (signalEnqueue ids p s info).stdEntry s =
      if p.has s then p.stdEntry s else info := by
  unfold signalEnqueue
  rw [if_neg hrt]
  unfold signalStandardEnqueue stdEntry
  have hz := and_sigBit_eq_zero hs p.pending
  by_cases hb : p.pending &&& sigBit s = 0
  · have hhas : p.has s = false := hz.mp hb
    simp only [if_pos hb, hhas, Bool.false_eq_true, if_false, update_self]
    cases info <;> rfl
  have hhas : p.has s := by
    have := mt hz.mpr hb
    exact Bool.eq_true_of_not_eq_false this
  simp only [if_neg hb, hhas, if_true]

lemma queuesOf_enqueue (ids : SigIds) (p : SignalPending) (hs : isSignal s) (info : Option RtInfo) :
    queuesOf (signalEnqueue ids p s info) = (queuesOf p).enqueue ids s info (timerTag info) := by
  refine (EditsOnly.enqueue ids p hs info).queues ?_ ?_
  · intro s' hne
    unfold Queues.enqueue
    grind
  unfold Queues.enqueue
  by_cases hrt : linuxSigrtmin ≤ s
  · have hlen := @RingBuf.length_contents _ rtSigqueueMax (p.rt (s - linuxSigrtmin))
    have htag : timerTag info = timerTag (some (info.getD (signalDefaultInfo ids s))) := by
      cases info <;> rfl
    rw [if_pos hrt, length_queuesOf_rt hs hrt, queuesOf_rt hs hrt, signalEnqueue_rt ids p hrt,
      RingBuf.contents_push, hlen]
    split
    · rw [if_neg (by omega), queuesOf_rt hs hrt]
    rw [if_pos (by omega), update_self, queuesOf_rt hs hrt, List.map_append, htag]
    rfl
  · rw [if_neg hrt, queuesOf_std hs hrt, signalEnqueue_has ids p hs, if_pos rfl,
      signalStandardEnqueue_entry ids p hs hrt, queuesOf_std hs hrt]
    by_cases hb : p.has s
    · grind [queuesOf_std]
    · rw [if_neg hb, if_neg hb, if_pos rfl, update_self]
      rfl

/-! ### Taking -/

section
variable (timers : ℕ → PosixTimer)
include timers

lemma posixTimerDequeued_report (ids : SigIds) (s : ℕ) (info : Option RtInfo) :
    posixTimerDequeued timers (info.getD (signalDefaultInfo ids s)) =
      (QEntry.of info).report timers ids s := by
  unfold posixTimerDequeued QEntry.report QEntry.of QEntry.resolve
  cases info with
  | none => rfl
  | some i =>
    rw [getD_some]
    by_cases hc : i.siCode = linuxSiTimer
    · have htag : timerTag (some i) = some i.siPid := if_pos hc
      rw [if_neg (not_not.mpr hc), htag]
      rfl
    have htag : timerTag (some i) = none := if_neg hc
    rw [if_pos hc, htag]
    rfl

lemma EditsOnly.rtDequeue (p : SignalPending) (hs : isSignal s) (hrt : linuxSigrtmin ≤ s) :
    EditsOnly s p (signalRtDequeue timers p s).2.1 := by
  have hrefl : EditsOnly s p p := fun s' _ _ => ⟨rfl, rfl, rfl, fun _ => rfl⟩
  unfold signalRtDequeue
  dsimp only
  split
  · exact hrefl.clear hs
  split
  · exact (EditsOnly.ring p _ hrt).clear hs
  · exact EditsOnly.ring p _ hrt

lemma signalRtDequeue_rt (p : SignalPending) (s : ℕ) :
    (signalRtDequeue timers p s).2.1.rt (s - linuxSigrtmin) =
      if (p.rt (s - linuxSigrtmin)).count = 0 then p.rt (s - linuxSigrtmin)
      else (p.rt (s - linuxSigrtmin)).pop rtSigqueueMax := by
  unfold signalRtDequeue
  dsimp only
  split
  · rfl
  split
  · exact update_self _ _ _
  · exact update_self _ _ _

lemma signalRtDequeue_has (hs : isSignal s) : (signalRtDequeue timers p s).2.1.has s =
      if (p.rt (s - linuxSigrtmin)).count ≤ 1 then false else p.has s := by
  unfold signalRtDequeue
  dsimp only
  by_cases h0 : (p.rt (s - linuxSigrtmin)).count = 0
  · grind [has_clear]
  rw [if_neg h0]
  by_cases h1 : (p.rt (s - linuxSigrtmin)).count - 1 = 0
  · grind [has_clear]
  · rw [if_neg h1, if_neg (by omega)]
    rfl

end

section
variable (hp : PendingOk p) (timers : ℕ → PosixTimer)
include hp timers

lemma PendingOk.rtDequeue (hs : isSignal s) (hrt : linuxSigrtmin ≤ s) :
    PendingOk (signalRtDequeue timers p s).2.1 := by
  refine (EditsOnly.rtDequeue timers p hs hrt).ok hp ?_
  intro _ _
  obtain ⟨hv, hbit⟩ := hp s hs hrt
  rw [signalRtDequeue_rt, signalRtDequeue_has timers hs]
  by_cases h0 : (p.rt (s - linuxSigrtmin)).count = 0
  · grind
  rw [if_neg h0]
  refine ⟨hv.pop, ?_⟩
  have hcount : ((p.rt (s - linuxSigrtmin)).pop rtSigqueueMax).count =
      (p.rt (s - linuxSigrtmin)).count - 1 := by
    unfold RingBuf.pop
    split
    case isTrue h => exact h.symm
    case isFalse h => rfl
  grind

lemma queuesOf_rtDequeue (hs : isSignal s) (hrt : linuxSigrtmin ≤ s) :
    queuesOf (signalRtDequeue timers p s).2.1 = update (queuesOf p) s (queuesOf p s).tail := by
  refine (EditsOnly.rtDequeue timers p hs hrt).queues ?_ ?_
  · intro s' hne
    exact update_of_ne hne _ _
  rw [update_self, queuesOf_rt hs hrt, queuesOf_rt hs hrt, signalRtDequeue_rt,
    ← List.map_tail, ← RingBuf.contents_pop (hp s hs hrt).1]
  by_cases h0 : (p.rt (s - linuxSigrtmin)).count = 0
  · rw [if_pos h0]
    congr 1
    unfold RingBuf.contents RingBuf.pop
    rw [h0]
    rfl
  · rw [if_neg h0]

lemma signalRtDequeue_report (ids : SigIds) (hs : isSignal s) (hrt : linuxSigrtmin ≤ s) :
    match queuesOf p s with
    | [] => (signalRtDequeue timers p s).1 = none ∧ (signalRtDequeue timers p s).2.2 = timers
    | e :: _ => (signalRtDequeue timers p s).1 = some (e.report timers ids s).1 ∧
        (signalRtDequeue timers p s).2.2 = (e.report timers ids s).2 := by
  have hlen := length_queuesOf_rt (p := p) hs hrt
  unfold signalRtDequeue
  by_cases h0 : (p.rt (s - linuxSigrtmin)).count = 0
  · grind
  rw [if_neg h0, queuesOf_rt hs hrt, RingBuf.contents_eq_cons (hp s hs hrt).1 (by omega),
    List.map_cons]
  have hrep := posixTimerDequeued_report timers ids s (some (p.rt (s - linuxSigrtmin)).front)
  grind

end

lemma EditsOnly.standardTake (ids : SigIds) (timers : ℕ → PosixTimer) (p : SignalPending)
    (hs : isSignal s) : EditsOnly s p (signalStandardTake ids timers p s).2.1 :=
  (EditsOnly.invalid p false hs).clear hs

lemma PendingOk.standardTake (hp : PendingOk p) (ids : SigIds) (timers : ℕ → PosixTimer)
    (hs : isSignal s) (hrt : ¬ linuxSigrtmin ≤ s) :
    PendingOk (signalStandardTake ids timers p s).2.1 :=
  (EditsOnly.standardTake ids timers p hs).ok hp fun _ h => absurd h hrt

lemma queuesOf_standardTake (ids : SigIds) (timers : ℕ → PosixTimer) (p : SignalPending)
    (hs : isSignal s) (hrt : ¬ linuxSigrtmin ≤ s) :
    queuesOf (signalStandardTake ids timers p s).2.1 =
      update (queuesOf p) s (queuesOf p s).tail := by
  refine (EditsOnly.standardTake ids timers p hs).queues ?_ ?_
  · intro s' hne
    exact update_of_ne hne _ _
  have hhas : (signalStandardTake ids timers p s).2.1.has s = false := by
    show (clear _ s).has s = false
    rw [has_clear hs hs]
    simp
  grind [update_self, queuesOf_std]

lemma signalStandardPeek_eq (ids : SigIds) (p : SignalPending) (s : ℕ) :
    signalStandardPeek ids p s = (p.stdEntry s).getD (signalDefaultInfo ids s) := by
  unfold signalStandardPeek stdEntry
  cases p.stdInfoValid (s - 1) <;> rfl

/-! ### The abstraction of the whole state -/

def queuesOfState (s : SigState) : QState :=
  { ctl := s.ctl, shared := queuesOf s.shared, priv := fun t => queuesOf (s.priv t) }

@[simp] lemma queuesOfState_ctl (s : SigState) : (queuesOfState s).ctl = s.ctl := rfl

@[simp] lemma queuesOfState_set (s : SigState) (set : SigSet) :
    (queuesOfState s).set set = queuesOf (s.set set) := by
  cases set <;> rfl

lemma queuesOfState_put (s : SigState) (p : SignalPending) (set : SigSet) :
    queuesOfState (s.put p set) = (queuesOfState s).put (queuesOf p) set := by
  cases set with
  | shared => rfl
  | thread t =>
    unfold queuesOfState SigState.put QState.put
    congr 1
    grind

lemma queuesOfState_refresh (s : SigState) :
    queuesOfState (refreshPendingHint s) = queuesOfState s := rfl

/-- Every set is in order. -/
structure SigOk (s : SigState) : Prop where
  shared : PendingOk s.shared
  priv : ∀ t, PendingOk (s.priv t)

variable {s : SigState}

lemma SigOk.set (h : SigOk s) (set : SigSet) : PendingOk (s.set set) := by
  cases set with
  | shared => exact h.shared
  | thread t => exact h.priv t

lemma SigOk.put (h : SigOk s) (hp : PendingOk p) (set : SigSet) : SigOk (s.put p set) := by
  cases set with
  | shared => exact ⟨hp, h.priv⟩
  | thread t =>
    exact ⟨h.shared, (forall_update_iff _ fun _ => PendingOk).mpr ⟨hp, fun u _ => h.priv u⟩⟩

variable {n : ℕ}

/-- Taking a pending signal takes the head of its queue. -/
lemma signalTake_spec (hok : SigOk s) (set : SigSet) (hn : isSignal n)
    (hq : queuesOf (s.set set) n ≠ []) : (queuesOfState s).take set n =
        (some ⟨set, n, (signalTake s set n).1⟩, queuesOfState (signalTake s set n).2) ∧
      SigOk (signalTake s set n).2 := by
  obtain ⟨e, rest, he⟩ := List.exists_cons_of_ne_nil hq
  have htake : (queuesOfState s).take set n = (some ⟨set, n, (e.report s.ctl.timers s.ctl.ids n).1⟩,
        QState.release { (queuesOfState s).put (update (queuesOf (s.set set)) n rest) set
          with ctl := { s.ctl with timers := (e.report s.ctl.timers s.ctl.ids n).2 } } set n) := by
    unfold QState.take QState.pop
    rw [queuesOfState_set, he]
    rfl
  -- both kinds of signal report the head and leave the rest
  have hboth : ∃ p', (signalTake s set n).1 = (e.report s.ctl.timers s.ctl.ids n).1 ∧
      PendingOk p' ∧ queuesOf p' = update (queuesOf (s.set set)) n rest ∧
      (signalTake s set n).2 = refreshPendingHint { s.put p' set with
        ctl := { s.ctl with
          timers := (e.report s.ctl.timers s.ctl.ids n).2
          claims := if set = .shared then s.ctl.claims.release n else s.ctl.claims } } := by
    unfold signalTake
    by_cases hrt : linuxSigrtmin ≤ n
    · have hrep := signalRtDequeue_report (hok.set set) s.ctl.timers s.ctl.ids hn hrt
      rw [he] at hrep
      obtain ⟨h1, h2⟩ := hrep
      refine ⟨(signalRtDequeue s.ctl.timers (s.set set) n).2.1, ?_,
        (hok.set set).rtDequeue _ hn hrt, ?_, ?_⟩
      · simp only [if_pos hrt, h1, getD_some]
      · rw [queuesOf_rtDequeue (hok.set set) _ hn hrt, he, List.tail_cons]
      · simp only [if_pos hrt, h2]
    have hstd := queuesOf_std (p := s.set set) hn hrt
    rw [he] at hstd
    have hentry : e = QEntry.of ((s.set set).stdEntry n) := by
      grind
    have hdeq : posixTimerDequeued s.ctl.timers (signalStandardPeek s.ctl.ids (s.set set) n) =
        e.report s.ctl.timers s.ctl.ids n := by
      rw [signalStandardPeek_eq, posixTimerDequeued_report, hentry]
    refine ⟨(signalStandardTake s.ctl.ids s.ctl.timers (s.set set) n).2.1, ?_,
      (hok.set set).standardTake _ _ hn hrt, ?_, ?_⟩
    · simp only [if_neg hrt, signalStandardTake, hdeq]
    · rw [queuesOf_standardTake _ _ _ hn hrt, he, List.tail_cons]
    · simp only [if_neg hrt, signalStandardTake, hdeq]
  obtain ⟨p', h1, hp', hqs, h2⟩ := hboth
  rw [htake, h1, h2]
  constructor
  · have hput := queuesOfState_put s p' set
    rw [hqs] at hput
    rw [queuesOfState_refresh, ← hput]
    cases set with
    | shared => rfl
    | thread t => rfl
  · have hput := hok.put hp' set
    exact ⟨hput.shared, hput.priv⟩

/-! ### Choosing a signal -/

variable {i : ℕ} {cur : Option ℕ} {q : Queues} {α : Type*}

lemma mem_setBits : i ∈ setBits w ↔ w.getLsbD i := by
  grind [setBits]

lemma getLsbD_bit (hi : i < 64) : (1#64 <<< j).getLsbD i = decide (i = j) := by
  rw [getLsbD_shiftLeft, getLsbD_one]
  grind

lemma getLsbD_foldl_clear (clears : ℕ → Bool) (l : List ℕ) (w : BitVec 64) (i : ℕ) :
    (l.foldl (fun w idx => if clears idx then w &&& ~~~(1#64 <<< idx) else w) w).getLsbD i =
      (w.getLsbD i && !(decide (i ∈ l) && clears i)) := by
  induction l generalizing w with
  | nil => simp
  | cons j l ih =>
    rw [List.foldl_cons, ih]
    by_cases hi : i < 64
    · by_cases hc : clears j
      · rw [if_pos hc, getLsbD_and, getLsbD_not, getLsbD_bit hi]
        grind
      grind
    grind

/-- The shared signals a thread sees are those not kept for another one. -/
lemma getLsbD_sharedVisible (s : SigState) (cur : Option ℕ) (i : ℕ) :
    (sharedVisible s cur).getLsbD i =
      (s.shared.pending.getLsbD i && !s.ctl.hidden cur (i + 1)) := by
  have hstep : (fun (w : BitVec 64) (idx : ℕ) =>
      if s.ctl.claims.owner idx = cur then w
      else if s.ctl.ownerBlocks idx then w
      else w &&& ~~~(1#64 <<< idx)) =
      fun w idx =>
        if (!decide (s.ctl.claims.owner idx = cur) && !s.ctl.ownerBlocks idx) = true then
          w &&& ~~~(1#64 <<< idx)
        else w := by
    funext w idx
    by_cases hc : s.ctl.claims.owner idx = cur
    · simp [hc]
    · cases hb : s.ctl.ownerBlocks idx <;> simp [hc]
  unfold sharedVisible
  rw [hstep, getLsbD_foldl_clear]
  unfold SigControl.hidden
  rw [Nat.add_sub_cancel]
  cases hp : s.shared.pending.getLsbD i with
  | false => rfl
  | true =>
    simp only [mem_setBits, getLsbD_and, hp, Bool.and_true, Bool.true_and,
      Bool.decide_eq_true, Bool.and_assoc]

lemma isEmpty_queuesOf (hp : PendingOk p) (i : ℕ) :
    p.pending.getLsbD i = !(queuesOf p (i + 1)).isEmpty := by
  by_cases hs : isSignal (i + 1)
  · have h := has_iff_queue hp hs
    unfold has at h
    grind
  have hge : 64 ≤ i := by
    by_contra hlt
    exact hs (isSignal_iff.mpr ⟨by omega, by unfold linuxNsig; omega⟩)
  rw [queuesOf_none hs, getLsbD_of_ge _ _ hge]
  rfl

lemma first_eq (h : ∀ i, w.getLsbD i = (!(q (i + 1)).isEmpty && allowed (i + 1))) :
    q.first allowed = if w = 0 then none else some (bitCtz64 w + 1) := by
  have hfind : q.first allowed = ((List.range 64).find? fun i => w.getLsbD i).map (· + 1) := by
    unfold Queues.first
    rw [show linuxNsig = 64 from rfl, List.range'_eq_map_range, List.find?_map]
    have hshift : (fun i : ℕ => 1 + i) = (· + 1) := by
      funext i
      exact add_comm 1 i
    rw [hshift]
    congr 2
    funext i
    exact (h i).symm
  rw [hfind, ← firstBit_eq_find]
  split <;> rfl

lemma first_pending (hp : PendingOk p) (m : BitVec 64) :
    (queuesOf p).first (fun n => m.getLsbD (n - 1)) =
      if p.pending &&& m = 0 then none else some (bitCtz64 (p.pending &&& m) + 1) := by
  apply first_eq
  intro i
  rw [getLsbD_and, isEmpty_queuesOf hp, Nat.add_sub_cancel]

lemma first_visible (hok : SigOk s) (cur : Option ℕ) (m : BitVec 64) :
    (queuesOf s.shared).first (fun n => m.getLsbD (n - 1) && !s.ctl.hidden cur n) =
      if sharedVisible s cur &&& m = 0 then none
      else some (bitCtz64 (sharedVisible s cur &&& m) + 1) := by
  apply first_eq
  intro i
  rw [getLsbD_and, getLsbD_sharedVisible, isEmpty_queuesOf hok.shared, Nat.add_sub_cancel,
    Bool.and_assoc, Bool.and_comm (m.getLsbD i)]

lemma first_some (h : q.first allowed = some n) : isSignal n ∧ q n ≠ [] := by
  have hmem := List.mem_of_find?_eq_some h
  have hp := List.find?_some h
  obtain ⟨h1, h2⟩ := List.mem_range'_1.mp hmem
  refine ⟨isSignal_iff.mpr ⟨h1, by unfold linuxNsig at h2 ⊢; omega⟩, ?_⟩
  intro hnil
  simp [hnil] at hp

/-- The dequeue that delivery and `sigtimedwait` share, given what the thread would take. -/
def signalPickTake (s : SigState) (cur : Option ℕ) (m : BitVec 64) : Option SigTaken × SigState :=
  let threadM := privPending s cur &&& m
  let sharedM := sharedVisible s cur &&& m
  if threadM ||| sharedM = 0 then (none, s)
  else
    let pick : SigSet × ℕ :=
      if threadM ≠ 0 then (ownSet cur, bitCtz64 threadM + 1)
      else (.shared, bitCtz64 sharedM + 1)
    let r := signalTake s pick.1 pick.2
    (some ⟨pick.1, pick.2, r.1⟩, r.2)

lemma firstOwn_eq (hok : SigOk s) (cur : Option ℕ) (m : BitVec 64) :
    (queuesOfState s).firstOwn (fun n => m.getLsbD (n - 1)) cur =
      if privPending s cur &&& m = 0 then none
      else some (bitCtz64 (privPending s cur &&& m) + 1) := by
  cases cur with
  | none =>
    show none = if 0#64 &&& m = 0#64 then none else _
    rw [if_pos BitVec.zero_and]
  | some t => exact first_pending (hok.priv t) m

/-- The thread's own set comes first, and in a set the lowest signal. -/
lemma signalPickTake_spec (hok : SigOk s) (cur : Option ℕ) (m : BitVec 64) :
    (queuesOfState s).dequeue cur (fun n => m.getLsbD (n - 1)) =
        ((signalPickTake s cur m).1, queuesOfState (signalPickTake s cur m).2) ∧
      SigOk (signalPickTake s cur m).2 := by
  have hown := firstOwn_eq hok cur m
  have hshared := first_visible hok cur m
  unfold QState.dequeue signalPickTake
  split at hown
  · rename_i ht
    rw [hown]
    split at hshared
    · rename_i hsh
      simp only [ht, hsh, BitVec.or_self, if_true]
      rw [queuesOfState_ctl, show (queuesOfState s).shared = queuesOf s.shared from rfl, hshared]
      exact ⟨rfl, hok⟩
    rename_i hsh
    have hor : ¬ (privPending s cur &&& m) ||| (sharedVisible s cur &&& m) = 0 := by
      rw [ht]
      simpa using hsh
    obtain ⟨hsig, hne⟩ := first_some hshared
    have hspec := signalTake_spec hok .shared hsig hne
    rw [if_neg hor, if_neg (not_not_intro ht)]
    rw [queuesOfState_ctl, show (queuesOfState s).shared = queuesOf s.shared from rfl, hshared]
    exact hspec
  · rename_i ht
    have hor : ¬ (privPending s cur &&& m) ||| (sharedVisible s cur &&& m) = 0 := by
      grind
    simp only [if_neg hor, ne_eq, ht, not_false_iff, if_true]
    rw [hown]
    cases cur with
    | none => exact absurd BitVec.zero_and ht
    | some t =>
      obtain ⟨hsig, hne⟩ := first_some (show (queuesOf (s.priv t)).first _ = _ from hown)
      exact signalTake_spec hok (.thread t) hsig hne

lemma claimedHere_eq_zero (h : ∀ t, cur = some t → s.ctl.savedValid t →
      ∀ idx, s.ctl.claims.claimed.getLsbD idx → s.ctl.claims.owner idx ≠ some t)
    (sharedD : BitVec 64) : claimedHere s cur sharedD = 0 := by
  unfold claimedHere
  cases cur with
  | none => rfl
  | some t =>
    by_cases hv : s.ctl.savedValid t
    · simp only [if_pos hv]
      -- no claimed signal is this thread's, so nothing is added
      have hnone : ∀ idx ∈ setBits (s.ctl.claims.claimed &&& sharedD),
          s.ctl.claims.owner idx ≠ some t := by
        intro idx hidx
        have hbit := mem_setBits.mp hidx
        rw [getLsbD_and, Bool.and_eq_true] at hbit
        exact h t rfl hv idx hbit.1
      generalize setBits (s.ctl.claims.claimed &&& sharedD) = l at hnone
      induction l with
      | nil => rfl
      | cons idx l ih =>
        grind
    · simp only [if_neg hv]

lemma deliverOne_spec (hok : SigOk s) (h : ∀ t, cur = some t → s.ctl.savedValid t →
      ∀ idx, s.ctl.claims.claimed.getLsbD idx → s.ctl.claims.owner idx ≠ some t) :
    (queuesOfState s).dequeue cur (fun n => (~~~s.ctl.blockedOf cur).getLsbD (n - 1)) =
        ((signalDeliverOne s cur).1, queuesOfState (signalDeliverOne s cur).2) ∧
      SigOk (signalDeliverOne s cur).2 := by
  have hpick : signalDeliverOne s cur = signalPickTake s cur (~~~s.ctl.blockedOf cur) := by
    unfold signalDeliverOne signalPickTake
    simp only [claimedHere_eq_zero h, ne_eq, not_true, if_false]
  rw [hpick]
  exact signalPickTake_spec hok cur _

/-! ### Reading through a signalfd -/

lemma take_append_take (l r : List α) (m : ℕ) : (l.take m ++ r).take m = (l ++ r).take m := by
  rw [List.take_append, List.take_append, List.take_take, List.length_take, min_self]
  congr 2
  omega

lemma foldl_collect (c : α → Bool) (f : α → List β) (m : ℕ) (l : List α)
    (out : List β) (hout : out.length ≤ m) :
    l.foldl (fun out x => if out.length < m ∧ c x = true then out ++ (f x).take (m - out.length)
      else out) out = (out ++ l.flatMap fun x => if c x then f x else []).take m := by
  induction l generalizing out with
  | nil =>
    rw [List.foldl_nil, List.flatMap_nil, List.append_nil, List.take_of_length_le hout]
  | cons x l ih =>
    rw [List.foldl_cons, List.flatMap_cons]
    by_cases hc : c x
    · have htake : (out ++ f x).take m = out ++ (f x).take (m - out.length) := by
        rw [List.take_append, List.take_of_length_le hout]
      have hnext : (if out.length < m ∧ c x = true then out ++ (f x).take (m - out.length)
          else out) = (out ++ f x).take m := by
        by_cases hlt : out.length < m
        · rw [if_pos ⟨hlt, hc⟩, htake]
        · rw [if_neg (fun h => hlt h.1), htake, show m - out.length = 0 by omega, List.take_zero,
            List.append_nil]
      rw [hnext, ih _ (by rw [List.length_take]; omega), take_append_take, if_pos hc,
        List.append_assoc]
    grind

lemma found_eq (hn : isSignal n) (hhas : p.has n) (ids : SigIds) :
    (if linuxSigrtmin ≤ n then (p.rt (n - linuxSigrtmin)).contents rtSigqueueMax
      else [signalStandardPeek ids p n]) = (queuesOf p n).map (QEntry.resolve ids n) := by
  by_cases hrt : linuxSigrtmin ≤ n
  · rw [if_pos hrt, queuesOf_rt hn hrt, List.map_map]
    exact (List.map_id _).symm
  · rw [if_neg hrt, queuesOf_std hn hrt, if_pos hhas, signalStandardPeek_eq]
    rfl

lemma signalPeekSet_spec (hp : PendingOk p) (ids : SigIds) (avail mask : BitVec 64) (set : SigSet)
    (visible : ℕ → Bool) (max : ℕ)
    (havail : ∀ n, isSignal n → avail.getLsbD (n - 1) = (p.has n && visible n))
    (out : List SigTaken) (hout : out.length ≤ max) :
    signalPeekSet ids p avail mask set max out = (out ++ (List.range' 1 linuxNsig).flatMap fun n =>
        if mask.getLsbD (n - 1) && visible n then
          (queuesOf p n).map fun e => (⟨set, n, e.resolve ids n⟩ : SigTaken) else []).take max := by
  have hstep : signalPeekSet ids p avail mask set max out =
      (List.range' 1 linuxNsig).foldl (fun out n =>
        if out.length < max ∧ (mask.getLsbD (n - 1) && avail.getLsbD (n - 1)) = true then
          out ++ (((if linuxSigrtmin ≤ n then (p.rt (n - linuxSigrtmin)).contents rtSigqueueMax
            else [signalStandardPeek ids p n]).map fun info => (⟨set, n, info⟩ : SigTaken)).take
              (max - out.length))
        else out) out := by
    unfold signalPeekSet
    congr 1
    funext out n
    simp only [Bool.and_eq_true, List.map_take]
  rw [hstep, foldl_collect _ _ _ _ _ hout]
  congr 2
  apply List.flatMap_congr
  intro n hmem
  obtain ⟨h1, h2⟩ := List.mem_range'_1.mp hmem
  have hn : isSignal n := isSignal_iff.mpr ⟨h1, by unfold linuxNsig at h2 ⊢; omega⟩
  rw [havail n hn]
  by_cases hhas : p.has n
  · rw [found_eq hn hhas, hhas, Bool.true_and, List.map_map]
    rfl
  have hnil : queuesOf p n = [] := by
    by_contra hne
    exact hhas ((has_iff_queue hp hn).mpr hne)
  grind

lemma peekSignalfd_spec (hok : SigOk s) (cur : Option ℕ) (mask : BitVec 64) (max : ℕ) :
    signalPeekSignalfd s cur mask max = ((queuesOfState s).readable cur mask).take max := by
  have hown : ∀ t n, isSignal n →
      ((s.priv t).pending).getLsbD (n - 1) = ((s.priv t).has n && true) := by
    intro t n _
    rw [Bool.and_true]
    rfl
  have hvis : ∀ n, isSignal n → (sharedVisible s cur).getLsbD (n - 1) =
      (s.shared.has n && !s.ctl.hidden cur n) := by
    intro n hn
    have h1 := (isSignal_iff.mp hn).1
    rw [getLsbD_sharedVisible, Nat.sub_add_cancel h1]
    rfl
  unfold signalPeekSignalfd QState.readable
  cases cur with
  | none =>
    simp only [signalfdSets, List.foldl_cons, List.foldl_nil, List.flatMap_cons, List.flatMap_nil,
      List.append_nil, if_true, decide_true, Bool.true_and]
    rw [show s.set .shared = s.shared from rfl,
      signalPeekSet_spec hok.shared _ _ _ _ _ _ hvis [] (Nat.zero_le _), List.nil_append]
    rfl
  | some t =>
    have hne : ¬ SigSet.thread t = .shared := by simp
    simp only [signalfdSets, List.foldl_cons, List.foldl_nil, List.flatMap_cons, List.flatMap_nil,
      List.append_nil, if_true, decide_true, Bool.true_and, if_neg hne, decide_eq_false hne,
      Bool.false_and, Bool.not_false, Bool.and_true]
    rw [show s.set .shared = s.shared from rfl, show s.set (.thread t) = s.priv t from rfl,
      signalPeekSet_spec (hok.priv t) _ _ _ _ (fun _ => true) _ (hown t) [] (Nat.zero_le _),
      List.nil_append]
    rw [signalPeekSet_spec hok.shared _ _ _ _ _ _ hvis _ (by rw [List.length_take]; omega),
      take_append_take]
    simp only [Bool.and_true]
    rfl

/-- The siginfo at the head of a pending signal's queue, as `signal_take_signalfd_exact` reads
it. -/
lemma head_resolve (hp : PendingOk p) (ids : SigIds) (hn : isSignal n)
    (he : queuesOf p n = e :: rest) : e.resolve ids n =
      if linuxSigrtmin ≤ n then (p.rt (n - linuxSigrtmin)).front
      else signalStandardPeek ids p n := by
  have hhas : p.has n := (has_iff_queue hp hn).mpr (by rw [he]; exact List.cons_ne_nil _ _)
  by_cases hrt : linuxSigrtmin ≤ n
  · have hpos := (hp n hn hrt).2.mp hhas
    rw [queuesOf_rt hn hrt, RingBuf.contents_eq_cons (hp n hn hrt).1 hpos, List.map_cons] at he
    rw [if_pos hrt, ← (List.cons.inj he).1]
    rfl
  · rw [queuesOf_std hn hrt, if_pos hhas] at he
    rw [if_neg hrt, ← (List.cons.inj he).1, signalStandardPeek_eq]
    rfl

/-- One round takes the head of the queue that was peeked if it is still as expected. -/
lemma signalTakeExactOne_spec (hok : SigOk s) (cur : Option ℕ) (want : RtInfo × ℕ)
    {set : SigSet} (hset : (signalfdSets cur)[want.2]? = some set)
    (hn : isSignal want.1.signum) (he : queuesOf (s.set set) want.1.signum = e :: rest) :
    signalTakeExactOne s cur want = if e.resolve s.ctl.ids want.1.signum = want.1 then
        some (⟨set, want.1.signum, want.1⟩,
          { (signalTake s set want.1.signum).2 with hint := s.hint })
      else none := by
  have hsig := isSignal_iff.mp hn
  have hp := hok.set set
  have hhas : (s.set set).has want.1.signum :=
    (has_iff_queue hp hn).mpr (by rw [he]; exact List.cons_ne_nil _ _)
  have hbit : ¬ (s.set set).pending &&& sigBit want.1.signum = 0 := by
    rw [and_sigBit_eq_zero hn]
    exact fun h => Bool.false_ne_true (h.symm.trans hhas)
  have hhead := head_resolve hp s.ctl.ids hn he
  have hput : ∀ p', (s.put p' set).hint = s.hint := by
    intro p'
    cases set <;> rfl
  unfold signalTakeExactOne
  simp only [hset, if_neg (show ¬ (want.1.signum = 0 ∨ linuxNsig < want.1.signum) by omega),
    if_neg hbit]
  unfold signalTake
  by_cases hrt : linuxSigrtmin ≤ want.1.signum
  · have hpos := (hp _ hn hrt).2.mp hhas
    rw [if_pos hrt] at hhead
    simp only [if_pos hrt, if_neg (show ¬ ((s.set set).rt
      (want.1.signum - linuxSigrtmin)).count = 0 by omega), hhead]
    by_cases heq : ((s.set set).rt (want.1.signum - linuxSigrtmin)).front = want.1
    · simp only [heq, ne_eq, not_true, if_false, if_true, refreshPendingHint]
      rw [← hput]
    · simp only [heq, ne_eq, not_false_iff, if_false, if_true]
  · rw [if_neg hrt] at hhead
    simp only [if_neg hrt, hhead]
    by_cases heq : signalStandardPeek s.ctl.ids (s.set set) want.1.signum = want.1
    · simp only [heq, ne_eq, not_true, if_false, if_true, refreshPendingHint]
      rw [← hput]
    · simp only [heq, ne_eq, not_false_iff, if_false, if_true]

lemma signalTakeExactOne_none (hok : SigOk s) (cur : Option ℕ) (want : RtInfo × ℕ)
    (h : ∀ set, (signalfdSets cur)[want.2]? = some set → isSignal want.1.signum →
      queuesOf (s.set set) want.1.signum = []) : signalTakeExactOne s cur want = none := by
  unfold signalTakeExactOne
  by_cases hn : isSignal want.1.signum
  · have hsig := isSignal_iff.mp hn
    simp only [if_neg (show ¬ (want.1.signum = 0 ∨ linuxNsig < want.1.signum) by omega)]
    cases hset : (signalfdSets cur)[want.2]? with
    | none => rfl
    | some set =>
      have hbit : (s.set set).pending &&& sigBit want.1.signum = 0 := by
        rw [and_sigBit_eq_zero hn]
        by_contra hne
        exact (has_iff_queue (hok.set set) hn).mp (Bool.eq_true_of_not_eq_false hne) (h set hset hn)
      simp only [if_pos hbit]
  · have hsig : want.1.signum = 0 ∨ linuxNsig < want.1.signum := by
      have := mt isSignal_iff.mpr hn
      omega
    simp only [if_pos hsig]

lemma takeExactLoop_spec (cur : Option ℕ) (expected : List (RtInfo × ℕ)) (hok : SigOk s) :
    QState.takeExact cur expected (queuesOfState s) = ((signalTakeExactLoop cur expected s).1,
          queuesOfState (signalTakeExactLoop cur expected s).2) ∧
      SigOk (signalTakeExactLoop cur expected s).2 := by
  induction expected generalizing s with
  | nil => exact ⟨rfl, hok⟩
  | cons want rest ih =>
    unfold QState.takeExact signalTakeExactLoop
    cases hset : (signalfdSets cur)[want.2]? with
    | none =>
      rw [signalTakeExactOne_none hok cur want (by rw [hset]; exact nofun)]
      exact ⟨rfl, hok⟩
    | some set =>
      dsimp only
      by_cases hn : isSignal want.1.signum
      · rw [if_pos hn, queuesOfState_set]
        cases he : queuesOf (s.set set) want.1.signum with
        | nil =>
          grind [signalTakeExactOne_none, some.inj]
        | cons e tail =>
          rw [signalTakeExactOne_spec hok cur want hset hn he]
          dsimp only
          rw [queuesOfState_ctl]
          by_cases heq : e.resolve s.ctl.ids want.1.signum = want.1
          · rw [if_pos heq, if_pos heq]
            obtain ⟨htake, hok'⟩ := signalTake_spec hok set hn
              (by rw [he]; exact List.cons_ne_nil _ _)
            have hok'' : SigOk { (signalTake s set want.1.signum).2 with hint := s.hint } :=
              ⟨hok'.shared, hok'.priv⟩
            obtain ⟨h1, h2⟩ := ih hok''
            have habs : queuesOfState { (signalTake s set want.1.signum).2 with hint := s.hint } =
                ((queuesOfState s).take set want.1.signum).2 := by
              rw [htake]
              rfl
            grind
          grind
      · grind [signalTakeExactOne_none]

/-! ### Timers -/

lemma sharedFull_eq (hok : SigOk s) (hn : isSignal n) :
    sharedFull s n = (queuesOfState s).full n := by
  unfold sharedFull QState.full
  by_cases hrt : linuxSigrtmin ≤ n
  · rw [if_pos hrt, if_pos hrt]
    show _ = decide (rtSigqueueMax ≤ (queuesOf s.shared n).length)
    rw [length_queuesOf_rt hn hrt]
  rw [if_neg hrt, if_neg hrt]
  have h := isEmpty_queuesOf hok.shared (n - 1)
  have hz := and_sigBit_eq_zero hn s.shared.pending
  rw [Nat.sub_add_cancel (isSignal_iff.mp hn).1] at h
  show _ = !(queuesOf s.shared n).isEmpty
  grind

lemma timerEnqueueLoop_spec {signum : ℕ} (hn : isSignal signum) (start n offset : ℕ)
    (hok : SigOk s) : QState.timerEnqueueLoop signum start n offset (queuesOfState s) =
        queuesOfState (posixTimerEnqueueLoop signum start n offset s) ∧
      SigOk (posixTimerEnqueueLoop signum start n offset s) := by
  induction n generalizing offset s with
  | zero => exact ⟨rfl, hok⟩
  | succ n ih =>
    unfold QState.timerEnqueueLoop posixTimerEnqueueLoop
    simp only [queuesOfState_ctl, ← sharedFull_eq hok hn]
    generalize ht : s.ctl.timers ((start + offset) % posixTimerMax) = t
    by_cases hw : t.waitsOn signum
    · rw [if_pos hw, if_pos hw]
      by_cases hf : sharedFull s signum
      · grind
      rw [if_neg hf, if_neg hf]
      have hn' : isSignal t.signum := by
        simp only [PosixTimer.waitsOn, Bool.and_eq_true, decide_eq_true_eq] at hw
        rwa [hw.1.2]
      have hq : queuesOf (signalEnqueue s.ctl.ids s.shared t.signum (some t.info)) =
          (queuesOfState s).shared.enqueue s.ctl.ids t.signum (some t.info) (some t.id) :=
        queuesOf_enqueue s.ctl.ids s.shared hn' (some t.info)
      rw [← hq]
      have hok' : ∀ ctl, SigOk { s with
          shared := signalEnqueue s.ctl.ids s.shared t.signum (some t.info), ctl := ctl } :=
        fun _ => ⟨hok.shared.enqueue _ hn' _, hok.priv⟩
      exact ih (offset + 1) (hok' _)
    · rw [if_neg hw, if_neg hw]
      exact ih (offset + 1) hok

lemma refreshInfo_of (t : PosixTimer) (info : RtInfo) :
    QEntry.of (some (t.refreshInfo info)) = (QEntry.of (some info)).refresh t := by
  unfold PosixTimer.refreshInfo QEntry.refresh QEntry.of timerTag
  grind

lemma timerUpdate_spec (hok : SigOk s) (t : PosixTimer) (hn : isSignal t.signum) :
    queuesOfState (posixTimerUpdatePending s t) = { queuesOfState s with
          shared := update (queuesOfState s).shared t.signum
            (((queuesOfState s).shared t.signum).map (QEntry.refresh t)) } ∧
      SigOk (posixTimerUpdatePending s t) := by
  have h1 := (isSignal_iff.mp hn).1
  unfold posixTimerUpdatePending
  split
  · have hedit : EditsOnly t.signum s.shared { s.shared with
        stdInfo := update s.shared.stdInfo (t.signum - 1)
          (t.refreshInfo (s.shared.stdInfo (t.signum - 1))) } := by
      intro n hn' hne
      have h1' := (isSignal_iff.mp hn').1
      exact ⟨rfl, rfl, update_of_ne (by omega) _ _, fun _ => rfl⟩
    refine ⟨?_, hedit.ok hok.shared fun _ h => absurd h (by omega), hok.priv⟩
    have hq := @EditsOnly.queues _ _ _ hedit (update (queuesOf s.shared) t.signum
      ((queuesOf s.shared t.signum).map (QEntry.refresh t)))
      (fun n hne => update_of_ne hne _ _) (by
        rw [update_self, queuesOf_std hn (by omega), queuesOf_std hn (by omega)]
        unfold has stdEntry
        simp only [update_self]
        cases s.shared.pending.getLsbD (t.signum - 1) with
        | false => rfl
        | true =>
          cases s.shared.stdInfoValid (t.signum - 1) with
          | false => rfl
          | true =>
            simp only [if_true, List.map_cons, List.map_nil, refreshInfo_of])
    unfold queuesOfState
    rw [hq]
  have hrt' : linuxSigrtmin ≤ t.signum := by omega
  obtain ⟨hv, hbit⟩ := hok.shared t.signum hn hrt'
  have hedit := EditsOnly.ring s.shared ((s.shared.rt (t.signum - linuxSigrtmin)).modify
    rtSigqueueMax t.refreshInfo) hrt'
  refine ⟨?_, hedit.ok hok.shared ?_, hok.priv⟩
  · have hq := @EditsOnly.queues _ _ _ hedit (update (queuesOf s.shared) t.signum
      ((queuesOf s.shared t.signum).map (QEntry.refresh t)))
      (fun n hne => update_of_ne hne _ _) (by
        rw [update_self, queuesOf_rt hn hrt', queuesOf_rt hn hrt']
        simp only [update_self]
        rw [RingBuf.contents_modify _ hv.count_le, List.map_map, List.map_map]
        congr 1
        funext info
        exact refreshInfo_of t info)
    unfold queuesOfState
    rw [hq]
  · intro _ _
    simp only [update_self]
    exact ⟨hv.modify _, hbit⟩

/-! ### Discarding a timer -/

lemma ofTimer_of (id : ℤ) (info : RtInfo) : (QEntry.of (some info)).ofTimer id =
    info.ofTimer id := by
  unfold QEntry.ofTimer QEntry.of timerTag RtInfo.ofTimer
  grind

lemma compact_count (id : ℤ) {r : RingBuf RtInfo} (hr : r.count ≤ rtSigqueueMax) :
    (r.compact rtSigqueueMax (RtInfo.ofTimer id)).count =
      ((r.contents rtSigqueueMax).filter fun info => !info.ofTimer id).length := by
  rw [← RingBuf.contents_compact _ hr, RingBuf.length_contents]

lemma filter_map_of (id : ℤ) (l : List RtInfo) :
    (l.map fun info => QEntry.of (some info)).filter (fun e => !e.ofTimer id) =
      (l.filter fun info => !info.ofTimer id).map fun info => QEntry.of (some info) := by
  rw [List.filter_map]
  congr 1
  apply List.filter_congr
  simp [ofTimer_of]

lemma discardOne_spec (id : ℤ) (hp : PendingOk p) (hn : isSignal n) (hhas : p.has n) :
    match posixTimerDiscardOne id p n with
    | none => (queuesOf p).discard id n = queuesOf p n
    | some p' => EditsOnly n p p' ∧ PendingOk p' ∧ queuesOf p' n = (queuesOf p).discard id n := by
  unfold posixTimerDiscardOne
  by_cases hrt : n < linuxSigrtmin
  · have hstd := queuesOf_std (p := p) hn (by omega)
    rw [if_pos hhas] at hstd
    rw [if_pos hrt]
    unfold Queues.discard
    rw [hstd]
    by_cases hv : p.stdInfoValid (n - 1)
    · have hentry : p.stdEntry n = some (p.stdInfo (n - 1)) := if_pos hv
      rw [hentry, hv, Bool.true_and]
      by_cases ht : (p.stdInfo (n - 1)).ofTimer id
      · rw [if_pos ht]
        have hedit : EditsOnly n p ({ p with
            stdInfoValid := update p.stdInfoValid (n - 1) false }.clear n) :=
          (EditsOnly.invalid p false hn).clear hn
        refine ⟨hedit, hedit.ok hp fun _ h => absurd h (by omega), ?_⟩
        rw [queuesOf_std hn (by omega), has_clear hn hn,
          List.filter_cons_of_neg (by rw [ofTimer_of, ht]; simp)]
        simp
      · rw [if_neg ht]
        rw [List.filter_cons_of_pos (by rw [ofTimer_of]; simpa using ht), List.filter_nil]
    · have hentry : p.stdEntry n = none := if_neg hv
      rw [hentry, Bool.eq_false_of_not_eq_true hv, Bool.false_and, if_neg (by decide)]
      rfl
  have hrt' : linuxSigrtmin ≤ n := by omega
  obtain ⟨hv, hbit⟩ := hp n hn hrt'
  rw [if_neg hrt]
  unfold Queues.discard
  rw [queuesOf_rt hn hrt', filter_map_of]
  by_cases hsame : ((p.rt (n - linuxSigrtmin)).compact rtSigqueueMax (RtInfo.ofTimer id)).count =
      (p.rt (n - linuxSigrtmin)).count
  · rw [if_pos hsame]
    -- nothing was dropped, so filtering keeps the list
    rw [compact_count id hv.count_le, ← @RingBuf.length_contents _ rtSigqueueMax
      (p.rt (n - linuxSigrtmin))] at hsame
    rw [List.Sublist.eq_of_length List.filter_sublist hsame]
  rw [if_neg hsame]
  dsimp only
  have hring := EditsOnly.ring p ((p.rt (n - linuxSigrtmin)).compact rtSigqueueMax
    (RtInfo.ofTimer id)) hrt'
  have hcontents := RingBuf.contents_compact (RtInfo.ofTimer id) hv.count_le
  split
  · rename_i h0
    refine ⟨hring.clear hn, (hring.clear hn).ok hp ?_, ?_⟩
    · intro _ _
      rw [has_clear hn hn]
      show ((update p.rt _ _ _ : RingBuf RtInfo).Valid rtSigqueueMax) ∧
        (_ ↔ 0 < (update p.rt _ _ _ : RingBuf RtInfo).count)
      rw [update_self]
      exact ⟨hv.compact _, by simp [h0]⟩
    · rw [queuesOf_rt hn hrt']
      show ((update p.rt _ _ _ : RingBuf RtInfo).contents rtSigqueueMax).map _ = _
      rw [update_self, hcontents]
  · refine ⟨hring, hring.ok hp ?_, ?_⟩
    · intro _ _
      show ((update p.rt _ _ _ : RingBuf RtInfo).Valid rtSigqueueMax) ∧
        (p.has n ↔ 0 < (update p.rt _ _ _ : RingBuf RtInfo).count)
      rw [update_self, hhas]
      exact ⟨hv.compact _, by simp only [true_iff]; omega⟩
    grind [queuesOf_rt, update_self]

lemma discardLoop_spec (id : ℤ) (set : SigSet) (l : List ℕ) (hp : PendingOk p) (c : SigClaims)
    (hl : l.Nodup) (hmem : ∀ i ∈ l, p.pending.getLsbD i) :
    PendingOk (posixTimerDiscardLoop id set p c l).1 ∧
      (∀ n, queuesOf (posixTimerDiscardLoop id set p c l).1 n =
        if n ∈ l.map (· + 1) then (queuesOf p).discard id n else queuesOf p n) ∧
      (posixTimerDiscardLoop id set p c l).2 = if set = .shared then
          ((queuesOf p).emptied id (l.map (· + 1))).foldl SigClaims.release c else c := by
  induction l generalizing p c with
  | nil =>
    refine ⟨hp, fun n => ?_, ?_⟩
    · rw [List.map_nil, if_neg List.not_mem_nil]
      rfl
    · show c = if set = .shared then c else c
      rw [ite_self]
  | cons i l ih =>
    obtain ⟨hi, hnd⟩ := List.nodup_cons.mp hl
    have hbit := hmem i List.mem_cons_self
    have hlt : i < 64 := lt_of_getLsbD hbit
    have hn : isSignal (i + 1) := isSignal_iff.mpr ⟨by omega, by unfold linuxNsig; omega⟩
    have hhas : p.has (i + 1) := by
      unfold has
      rwa [Nat.add_sub_cancel]
    have hnotin : i + 1 ∉ l.map (· + 1) := by
      grind
    have hne : (queuesOf p (i + 1)).isEmpty = false := by
      have := isEmpty_queuesOf hp i
      rw [hbit] at this
      simpa using this.symm
    have hone := discardOne_spec id hp hn hhas
    unfold posixTimerDiscardLoop
    cases hd : posixTimerDiscardOne id p (i + 1) with
    | none =>
      rw [hd] at hone
      obtain ⟨h1, h2, h3⟩ := ih hp c hnd fun j hj => hmem j (List.mem_cons_of_mem _ hj)
      refine ⟨h1, fun n => ?_, ?_⟩
      · grind
      · grind [Queues.emptied]
    | some p' =>
      rw [hd] at hone
      obtain ⟨hedit, hp', hq⟩ := hone
      have hmem' : ∀ j ∈ l, p'.pending.getLsbD j := by
        intro j hj
        have hj' := hmem j (List.mem_cons_of_mem _ hj)
        have hjlt : j < 64 := lt_of_getLsbD hj'
        have hji : j + 1 ≠ i + 1 := by
          grind
        have hsame := (hedit (j + 1)
          (isSignal_iff.mpr ⟨by omega, by unfold linuxNsig; omega⟩) hji).has
        grind [Nat.add_sub_cancel, has]
      obtain ⟨h1, h2, h3⟩ := ih hp' (if set = .shared ∧ p'.pending &&& sigBit (i + 1) = 0 then
        c.release (i + 1) else c) hnd hmem'
      have hother : ∀ n, n ≠ i + 1 → queuesOf p' n = queuesOf p n := by
        intro n hne'
        by_cases hsig : isSignal n
        · exact (hedit n hsig hne').queues
        · rw [queuesOf_none hsig, queuesOf_none hsig]
      refine ⟨h1, fun n => ?_, ?_⟩
      · rw [h2 n]
        by_cases hni : n = i + 1
        · grind
        grind [Queues.discard]
      rw [h3, List.map_cons]
      -- the later signals are as they were, and this one is released if it is now empty
      have htail : (queuesOf p').emptied id (l.map (· + 1)) =
          (queuesOf p).emptied id (l.map (· + 1)) := by
        apply List.filter_congr
        intro n hmn
        have hni : n ≠ i + 1 := fun h => hnotin (h ▸ hmn)
        unfold Queues.discard
        rw [hother n hni]
      have hempty : p'.pending &&& sigBit (i + 1) = 0 ↔
          ((queuesOf p).discard id (i + 1)).isEmpty := by
        rw [and_sigBit_eq_zero hn, Nat.add_sub_cancel, isEmpty_queuesOf hp', hq]
        simp
      by_cases hset : set = .shared
      · rw [if_pos hset, if_pos hset, htail]
        grind [Queues.emptied]
      grind

lemma discard_spec (hok : SigOk s) (set : SigSet) (id : ℤ) :
    (queuesOfState s).discard set id = queuesOfState (posixTimerDiscardPending s set id) ∧
      SigOk (posixTimerDiscardPending s set id) := by
  have hp := hok.set set
  obtain ⟨h1, h2, h3⟩ := discardLoop_spec id set (setBits (s.set set).pending) hp s.ctl.claims
    (List.nodup_range.filter _) fun i hi => mem_setBits.mp hi
  have hqueues : queuesOf (posixTimerDiscardLoop id set (s.set set) s.ctl.claims
      (setBits (s.set set).pending)).1 = (queuesOf (s.set set)).discard id := by
    funext n
    rw [h2 n]
    by_cases hmem : n ∈ (setBits (s.set set).pending).map (· + 1)
    · rw [if_pos hmem]
    -- a signal that is not pending has nothing to discard
    have hnil : queuesOf (s.set set) n = [] := by
      by_cases hn : isSignal n
      · have h1n := (isSignal_iff.mp hn).1
        by_contra hne
        refine hmem (List.mem_map.mpr ⟨n - 1, mem_setBits.mpr ?_, by omega⟩)
        exact (has_iff_queue hp hn).mpr hne
      · exact queuesOf_none hn
    rw [if_neg hmem]
    unfold Queues.discard
    rw [hnil, List.filter_nil]
  have hemptied : (queuesOf (s.set set)).emptied id ((setBits (s.set set).pending).map (· + 1)) =
      (queuesOf (s.set set)).emptied id (List.range' 1 linuxNsig) := by
    unfold Queues.emptied setBits
    rw [show linuxNsig = 64 from rfl, List.range'_eq_map_range]
    have hshift : (fun i : ℕ => 1 + i) = (· + 1) := by
      funext i
      exact add_comm 1 i
    rw [hshift, List.filter_map, List.filter_map, List.filter_filter]
    congr 1
    apply List.filter_congr
    intro i _
    show (!(queuesOf (s.set set) (i + 1)).isEmpty &&
      ((queuesOf (s.set set)).discard id (i + 1)).isEmpty && (s.set set).pending.getLsbD i) = _
    rw [isEmpty_queuesOf hp]
    show _ = (!(queuesOf (s.set set) (i + 1)).isEmpty &&
      ((queuesOf (s.set set)).discard id (i + 1)).isEmpty)
    cases (queuesOf (s.set set) (i + 1)).isEmpty <;> simp
  constructor
  · unfold QState.discard posixTimerDiscardPending
    rw [queuesOfState_set, queuesOfState_ctl, ← hemptied]
    dsimp only
    rw [h3]
    have hput := queuesOfState_put s (posixTimerDiscardLoop id set (s.set set) s.ctl.claims
      (setBits (s.set set).pending)).1 set
    rw [hqueues] at hput
    rw [← hput]
    rfl
  · have hput := hok.put h1 set
    exact ⟨hput.shared, hput.priv⟩

/-! ### The hint -/

/-- The hint has the bit of every signal pending in the shared set or in a live thread's. -/
def HintCovers (s : SigState) : Prop :=
  ∀ set, s.ctl.hasSet set = true → ∀ i, (s.set set).pending.getLsbD i = true →
    s.hint.getLsbD i = true

lemma getLsbD_union (active : ℕ → Bool) (w : ℕ → BitVec 64) (l : List ℕ) (u : BitVec 64)
    (ht : t ∈ l ∧ active t ∧ (w t).getLsbD i ∨ u.getLsbD i) :
    (l.foldl (fun u t => if active t then u ||| w t else u) u).getLsbD i := by
  induction l generalizing u with
  | nil =>
    grind
  | cons j l ih =>
    rw [List.foldl_cons]
    apply ih
    rcases ht with ⟨ht, ha, hw⟩ | hu
    · grind
    grind

lemma refreshPendingHint_covers (s : SigState) : HintCovers (refreshPendingHint s) := by
  intro set hset i hi
  show (s.shared.pending ||| threadPendingUnion s).getLsbD i
  rw [getLsbD_or, Bool.or_eq_true]
  cases set with
  | shared => exact Or.inl hi
  | thread t =>
    right
    have hlive : (decide (t < maxThreads) && s.ctl.active t) := hset
    simp only [Bool.and_eq_true, decide_eq_true_eq] at hlive
    exact getLsbD_union s.ctl.active _ _ 0 (Or.inl ⟨List.mem_range.mpr hlive.1, hlive.2, hi⟩)

lemma signalTake_covers (s : SigState) (set : SigSet) (n : ℕ) : HintCovers (signalTake s set n).2 :=
  refreshPendingHint_covers _

lemma deliverOne_covers (h : HintCovers s) (cur : Option ℕ) :
    HintCovers (signalDeliverOne s cur).2 := by
  unfold signalDeliverOne
  dsimp only
  split
  · exact h
  · exact signalTake_covers _ _ _

lemma sigtimedwait_covers (h : HintCovers s) (cur : Option ℕ) (mask : BitVec 64) :
    HintCovers (sigtimedwaitTryDequeue s cur mask).2 := by
  unfold sigtimedwaitTryDequeue
  dsimp only
  split
  · exact h
  · exact signalTake_covers _ _ _

lemma signalRtDequeue_pending (timers : ℕ → PosixTimer) (p : SignalPending) (n : ℕ)
    (hi : (signalRtDequeue timers p n).2.1.pending.getLsbD i) : p.pending.getLsbD i := by
  have hclear : ∀ q : SignalPending, q.pending = p.pending →
      (q.clear n).pending.getLsbD i → p.pending.getLsbD i := by
    intro q hq hc
    have hc' : (q.pending &&& ~~~sigBit n).getLsbD i := hc
    rw [getLsbD_and, Bool.and_eq_true] at hc'
    rw [← hq]
    exact hc'.1
  grind [signalRtDequeue]

lemma rtDequeue_covers (h : HintCovers s) (set : SigSet) (n : ℕ) :
    HintCovers ((SigOp.rtDequeue set n).run s).2 := by
  intro set' hset' i hi
  have hhint : ((SigOp.rtDequeue set n).run s).2.hint = s.hint := by
    cases set <;> rfl
  rw [hhint]
  by_cases heq : set' = set
  · subst heq
    refine h set' hset' i (signalRtDequeue_pending s.ctl.timers (s.set set') n ?_)
    cases set' with
    | shared => exact hi
    | thread t =>
      have hi' : (update s.priv t _ t).pending.getLsbD i := hi
      rwa [update_self] at hi'
  refine h set' hset' i ?_
  cases set with
  | shared =>
    cases set' with
    | shared => exact absurd rfl heq
    | thread t' => exact hi
  | thread t =>
    cases set' with
    | shared => exact hi
    | thread t' =>
      have hne : t' ≠ t := fun h => heq (by rw [h])
      have hi' : (update s.priv t _ t').pending.getLsbD i := hi
      rwa [update_of_ne hne] at hi'

lemma SigOp.run_covers (h : HintCovers s) (op : SigOp) : HintCovers (op.run s).2 := by
  cases op with
  | enqueue set n info => exact refreshPendingHint_covers _
  | rtDequeue set n => exact rtDequeue_covers h set n
  | deliverOne cur => exact deliverOne_covers h cur
  | sigtimedwait cur mask => exact sigtimedwait_covers h cur mask
  | peekSignalfd cur mask max => exact h
  | takeSignalfd | timerEnqueue | timerUpdate | discard => exact refreshPendingHint_covers _
  | claim t n => exact h
  | control blocked savedValid procBlocked timers nextSlot ids => exact h
  | threadStart t =>
    intro set hset i hi
    cases set with
    | shared => exact h .shared rfl i hi
    | thread t' =>
      have hi' : (update s.priv t SignalPending.zero t').pending.getLsbD i := hi
      by_cases ht : t' = t
      · grind [update_self, SignalPending.zero]
      rw [update_of_ne ht] at hi'
      refine h (.thread t') ?_ i hi'
      have hlive : (decide (t' < maxThreads) && update s.ctl.active t true t') :=
        hset
      rwa [update_of_ne ht] at hlive
  | threadExit t => exact refreshPendingHint_covers _

/-! ### Runs -/

/-- What keeps a critical section to the queue model: no siginfo that is sent carries the timers'
code, and a thread that has a mask to restore has claimed no shared signal when it delivers. -/
def SigOp.Plain (s : SigState) : SigOp → Prop
  | .enqueue _ _ (some info) => info.siCode ≠ linuxSiTimer
  | .deliverOne cur => ∀ t, cur = some t → s.ctl.savedValid t = true →
      ∀ idx, s.ctl.claims.claimed.getLsbD idx = true → s.ctl.claims.owner idx ≠ some t
  | _ => True

lemma queuesOfState_enqueue (hok : SigOk s) (set : SigSet) (hn : isSignal n)
    (info : Option RtInfo) (hinfo : timerTag info = none) :
    queuesOfState (s.put (signalEnqueue s.ctl.ids (s.set set) n info) set) =
        (queuesOfState s).put (((queuesOfState s).set set).enqueue s.ctl.ids n info none) set ∧
      SigOk (s.put (signalEnqueue s.ctl.ids (s.set set) n info) set) := by
  constructor
  · rw [queuesOfState_put, queuesOf_enqueue _ _ hn, hinfo, queuesOfState_set]
  · exact hok.put ((hok.set set).enqueue _ hn _) set

lemma queuesOfState_rtDequeue (hok : SigOk s) (set : SigSet)
    (hn : isSignal n) (hrt : linuxSigrtmin ≤ n) :
    (queuesOfState s).pop set n = ((signalRtDequeue s.ctl.timers (s.set set) n).1,
        queuesOfState ((SigOp.rtDequeue set n).run s).2) ∧
      SigOk ((SigOp.rtDequeue set n).run s).2 := by
  have hp := hok.set set
  have hrep := signalRtDequeue_report hp s.ctl.timers s.ctl.ids hn hrt
  have hqs := queuesOf_rtDequeue hp s.ctl.timers hn hrt
  have hput := hok.put (hp.rtDequeue s.ctl.timers hn hrt) set
  refine ⟨?_, hput.shared, hput.priv⟩
  have hstate : queuesOfState ((SigOp.rtDequeue set n).run s).2 =
      { (queuesOfState s).put (update (queuesOf (s.set set)) n
          (queuesOf (s.set set) n).tail) set with
        ctl := { s.ctl with timers := (signalRtDequeue s.ctl.timers (s.set set) n).2.2 } } := by
    rw [← hqs, ← queuesOfState_put]
    rfl
  rw [hstate]
  unfold QState.pop
  rw [queuesOfState_set]
  cases he : queuesOf (s.set set) n with
  | nil =>
    rw [he] at hrep
    rw [hrep.1, hrep.2]
    have hsame : update (queuesOf (s.set set)) n ([] : List QEntry).tail =
        queuesOf (s.set set) := by
      rw [List.tail_nil, ← he]
      exact update_eq_self n _
    rw [hsame, ← queuesOfState_set]
    dsimp only
    congr 1
    cases set with
    | shared => rfl
    | thread t =>
      show queuesOfState s = { queuesOfState s with
        priv := update (queuesOfState s).priv t ((queuesOfState s).priv t) }
      rw [update_eq_self]
  | cons e rest =>
    rw [he] at hrep
    rw [hrep.1, hrep.2]
    rfl

/-- Every critical section does to the sets what the abstract one does to the queues. -/
lemma SigOp.run_refines (hok : SigOk s) {op : SigOp} (hl : op.legal s.ctl) (hplain : op.Plain s) :
    op.runQueues (queuesOfState s) = ((op.run s).1, queuesOfState (op.run s).2) ∧
      SigOk (op.run s).2 := by
  cases op with
  | enqueue set n info =>
    simp only [SigOp.legal, Bool.and_eq_true] at hl
    have htag : timerTag info = none := by
      cases info with
      | none => rfl
      | some i => exact if_neg hplain
    obtain ⟨h1, h2⟩ := queuesOfState_enqueue hok set hl.2 info htag
    exact ⟨congrArg (Prod.mk []) h1.symm, h2.shared, h2.priv⟩
  | rtDequeue set n =>
    simp only [SigOp.legal, Bool.and_eq_true, decide_eq_true_eq] at hl
    obtain ⟨h1, h2⟩ := queuesOfState_rtDequeue hok set hl.1.2 hl.2
    exact ⟨congrArg (fun r : Option RtInfo × QState =>
      ((r.1.map fun info => SigTaken.mk set n info).toList, r.2)) h1, h2⟩
  | deliverOne cur =>
    obtain ⟨h1, h2⟩ := deliverOne_spec hok hplain
    exact ⟨congrArg (fun r : Option SigTaken × QState => (r.1.toList, r.2)) h1, h2⟩
  | sigtimedwait cur mask =>
    obtain ⟨h1, h2⟩ := signalPickTake_spec hok cur mask
    exact ⟨congrArg (fun r : Option SigTaken × QState => (r.1.toList, r.2)) h1, h2⟩
  | peekSignalfd cur mask max =>
    exact ⟨congrArg (fun l => (l, queuesOfState s)) (peekSignalfd_spec hok cur mask max).symm, hok⟩
  | takeSignalfd cur expected =>
    obtain ⟨h1, h2⟩ := takeExactLoop_spec cur expected hok
    exact ⟨h1, h2.shared, h2.priv⟩
  | timerEnqueue n =>
    obtain ⟨h1, h2⟩ := timerEnqueueLoop_spec hl (s.ctl.nextSlot (n - 1)) posixTimerMax 0 hok
    exact ⟨congrArg (Prod.mk []) h1, h2.shared, h2.priv⟩
  | timerUpdate slot =>
    obtain ⟨h1, h2⟩ := timerUpdate_spec hok (s.ctl.timers slot) hl
    exact ⟨congrArg (Prod.mk []) h1.symm, h2.shared, h2.priv⟩
  | discard set id =>
    obtain ⟨h1, h2⟩ := discard_spec hok set id
    exact ⟨congrArg (Prod.mk []) h1, h2.shared, h2.priv⟩
  | claim t n => exact ⟨rfl, hok.shared, hok.priv⟩
  | control blocked savedValid procBlocked timers nextSlot ids =>
    exact ⟨rfl, hok.shared, hok.priv⟩
  | threadStart t =>
    have hput := queuesOfState_put s zero (.thread t)
    have hok' := hok.put PendingOk.zero (.thread t)
    refine ⟨?_, hok'.shared, hok'.priv⟩
    rw [queuesOf_zero] at hput
    have hpriv := congrArg QState.priv hput
    show ([], QState.mk _ _ (update (queuesOfState s).priv t fun _ => [])) =
      ([], QState.mk _ _ (queuesOfState (s.put zero (.thread t))).priv)
    rw [hpriv]
    rfl
  | threadExit t => exact ⟨rfl, hok.shared, hok.priv⟩

def QRun.init (ids : SigIds) : QRun :=
  ⟨{ ctl := .init ids, shared := fun _ => [], priv := fun _ _ => [] }, []⟩

lemma queuesOfState_init (ids : SigIds) :
    queuesOfState (SigRun.init ids).state = (QRun.init ids).state := by
  simp only [queuesOfState, SigRun.init, QRun.init, queuesOf_zero]

/-- Pending signals behave as queues: on every run that keeps to the model, the abstract machine
hands out the same signals, a signal's bit is set exactly when its queue is not empty, and the hint
covers all that is pending. -/
theorem signals_queues {ids : SigIds} {ops : List SigOp} {r : SigRun}
    (hplain : Meets SigRun.next (fun r op => op.Plain r.state) (SigRun.init ids) ops)
    (hrun : exec SigRun.next (SigRun.init ids) ops = some r) :
    ∃ q, exec QRun.next (QRun.init ids) ops = some q ∧ q.log = r.log ∧ (∀ set n, isSignal n →
        ((r.state.set set).has n ↔ q.state.set set n ≠ [])) ∧
      HintCovers r.state := by
  let R : SigRun → QRun → Prop := fun r q =>
    q = ⟨queuesOfState r.state, r.log⟩ ∧ SigOk r.state ∧ HintCovers r.state
  have hstep : ∀ r q op r', R r q → op.Plain r.state → SigRun.next r op = some r' →
      ∃ q', QRun.next q op = some q' ∧ R r' q' := by
    rintro r q op r' ⟨rfl, hok, hcov⟩ hp hn
    unfold SigRun.next at hn
    split at hn
    · rename_i hl
      obtain rfl := some.inj hn
      obtain ⟨h1, h2⟩ := SigOp.run_refines hok hl hp
      refine ⟨⟨queuesOfState (op.run r.state).2, r.log ++ (op.run r.state).1⟩, ?_, rfl, h2,
        SigOp.run_covers hcov op⟩
      unfold QRun.next
      rw [queuesOfState_ctl, if_pos hl, h1]
    · cases hn
  have hinit : R (SigRun.init ids) (QRun.init ids) := by
    refine ⟨?_, ⟨PendingOk.zero, fun _ => PendingOk.zero⟩, ?_⟩
    · rw [queuesOfState_init]
      rfl
    intro set _ i hi
    cases set with
    | shared => exact hi
    | thread t => exact hi
  obtain ⟨q, hq, hqr, hok, hcov⟩ := exec_refines (fun r op => op.Plain r.state) hstep hinit hplain
    hrun
  refine ⟨q, hq, ?_, ?_, hcov⟩
  · rw [hqr]
  intro set n hn
  rw [hqr, queuesOfState_set]
  exact has_iff_queue (hok.set set) hn

/-- A siginfo the guest sends with `rt_sigqueueinfo`. -/
def sentInfo (signum : ℕ) (siCode siPid : ℤ) (siUid : ℕ) : RtInfo :=
  ⟨signum, siCode, siPid, siUid, 0, 0⟩

/-- Two real-time signals, then a standard one, and two deliveries. -/
def fifoOps : List SigOp :=
  [.enqueue .shared 40 (some (sentInfo 40 (-1) 7 1)),
    .enqueue .shared 40 (some (sentInfo 40 (-1) 7 2)), .enqueue .shared 10 none,
    .deliverOne none, .deliverOne none]

theorem signals_queues_fifo : ∃ r q, exec SigRun.next (SigRun.init ⟨1, 0⟩) fifoOps = some r ∧
      exec QRun.next (QRun.init ⟨1, 0⟩) fifoOps = some q ∧ q.log = r.log ∧
      r.log = [⟨.shared, 10, ⟨10, 0, 1, 0, 0, 0⟩⟩, ⟨.shared, 40, sentInfo 40 (-1) 7 1⟩] := by
  have hrun : exec SigRun.next (SigRun.init ⟨1, 0⟩) fifoOps = some _ := rfl
  obtain ⟨q, hq, hlog, -⟩ := signals_queues (meets_of_forall fun op hop r => by
    simp only [fifoOps, List.mem_cons, List.not_mem_nil, or_false] at hop
    rcases hop with rfl | rfl | rfl | rfl | rfl
    · exact (by decide : (-1 : ℤ) ≠ -2)
    · exact (by decide : (-1 : ℤ) ≠ -2)
    · trivial
    · exact nofun
    · exact nofun) hrun
  exact ⟨_, q, hrun, hq, hlog, by decide +kernel⟩

def timerFive (i : ℕ) : PosixTimer :=
  if i = 0 then ⟨true, 5, 41, 0, 0, 0, .none⟩ else PosixTimer.zero

def forgedOps : List SigOp :=
  [.control (fun _ => 0) (fun _ => false) 0 timerFive (fun _ => 0) ⟨1, 0⟩,
    .enqueue .shared 40 (some (sentInfo 40 linuxSiTimer 5 9)), .discard .shared 5]

/-- A signal sent with the timers' code and the number of a live timer is discarded with that
timer, whose own signal is another one. The queue model keeps it. -/
theorem forged_timer_discarded : ∃ r q, exec SigRun.next (SigRun.init ⟨1, 0⟩) forgedOps = some r ∧
      exec QRun.next (QRun.init ⟨1, 0⟩) forgedOps = some q ∧
      r.state.shared.has 40 = false ∧
      q.state.shared 40 = [⟨some (sentInfo 40 linuxSiTimer 5 9), none⟩] :=
  ⟨_, _, rfl, rfl, by decide +kernel, by decide +kernel⟩

def selfPending (s : SigState) (cur : Option ℕ) : BitVec 64 :=
  sharedVisible s cur ||| privPending s cur

/-- Model of `signal_pending`: the hint first, and only where it has something the sets. -/
def signalPending (s : SigState) (cur : Option ℕ) : Bool :=
  if s.hint &&& ~~~s.ctl.blockedOf cur = 0 then false
  else decide (selfPending s cur &&& ~~~s.ctl.blockedOf cur ≠ 0)

lemma selfPending_hint (h : HintCovers s) (cur : Option ℕ) (hlive : s.ctl.isLive cur)
    (hi : (selfPending s cur).getLsbD i) : s.hint.getLsbD i := by
  rw [selfPending, getLsbD_or, getLsbD_sharedVisible, Bool.or_eq_true, Bool.and_eq_true] at hi
  rcases hi with hi | hi
  · exact h .shared rfl i hi.1
  · cases cur with
    | none => simp [privPending] at hi
    | some t => exact h (.thread t) hlive i hi

/-- On every run, with forged siginfos too, the fast path of `signal_pending` misses nothing: it
answers yes exactly when `signal_deliver_one` finds a signal for the thread. -/
theorem signalPending_iff_delivers {ids : SigIds} {ops : List SigOp} {r : SigRun} {cur : Option ℕ}
    (hrun : exec SigRun.next (SigRun.init ids) ops = some r) (hlive : r.state.ctl.isLive cur) :
    signalPending r.state cur = (signalDeliverOne r.state cur).1.isSome := by
  have hcov : HintCovers r.state := by
    refine exec_keeps (P := fun r : SigRun => HintCovers r.state) ?_ ?_ hrun
    · intro r op r' hcov hn
      obtain rfl := Option.some.inj (guarded hn).2
      exact SigOp.run_covers hcov op
    · intro set _ i hi
      cases set <;> exact hi
  have hfast : r.state.hint &&& ~~~r.state.ctl.blockedOf cur = 0 →
      selfPending r.state cur &&& ~~~r.state.ctl.blockedOf cur = 0 := by
    intro hzero
    refine eq_of_getLsbD_eq fun i hi => ?_
    have hbit := congrArg (getLsbD · i) hzero
    have hhint := fun h => selfPending_hint (i := i) hcov cur hlive h
    simp only [getLsbD_and] at hbit ⊢
    grind
  have heq : selfPending r.state cur &&& ~~~r.state.ctl.blockedOf cur =
      privPending r.state cur &&& ~~~r.state.ctl.blockedOf cur |||
        sharedVisible r.state cur &&& ~~~r.state.ctl.blockedOf cur := by
    grind [selfPending]
  unfold signalPending signalDeliverOne
  grind

theorem signalPending_iff_delivers_forged : ∃ r, exec SigRun.next (SigRun.init ⟨1, 0⟩)
      (forgedOps ++ [.enqueue .shared 10 none]) = some r ∧
      signalPending r.state none = (signalDeliverOne r.state none).1.isSome := by
  have hrun : exec SigRun.next (SigRun.init ⟨1, 0⟩) (forgedOps ++ [.enqueue .shared 10 none]) =
      some _ := rfl
  exact ⟨_, hrun, signalPending_iff_delivers hrun rfl⟩

end Elfuse
