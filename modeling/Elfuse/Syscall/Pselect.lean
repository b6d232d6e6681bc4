/-
Waiting for descriptors with `pselect6` (`syscall/poll.c`).

The three sets of the guest become one list of requests. Where every host
descriptor fits a host `fd_set` the host's `select` answers for them; otherwise
`poll` does, and its bits are translated back into the three sets. As with
`ppoll`, a pass is one round of the loop with what follows it.

* `pselectPass` — one pass, which ends the call or leads to another;
* `pselect_answers_iff` — when the sets and the count that are returned are
  exactly what was asked for and found ready.
-/
import Elfuse.Syscall.Ppoll
import Mathlib.Data.Finset.Card
import Mathlib.Algebra.BigOperators.Group.List.Basic

namespace Elfuse

/-! ### Requests -/

/-- Model of `pselect_req_t`, with the entry of `unp` beside it; `index` is
`word * 64 + bit_index`. -/
structure PselectReq where
  hostFd : ℤ
  index : ℕ
  usbdev : Bool
  usbWantR : Bool
  usbWantW : Bool
  disarmed : Bool
  events : PollMask
  revents : PollMask
  unp : Unpollable

structure PselectCall where
  nfds : ℤ
  readfds : UserArg (ℕ → Bool)
  writefds : UserArg (ℕ → Bool)
  exceptfds : UserArg (ℕ → Bool)
  timeout : UserArg Timespec
  /-- The mask and its length, behind the sixth argument. -/
  sigmask : UserArg (UserArg Unit × ℕ)
  /-- `host_fd_ref_open_io` of a guest descriptor. -/
  ref : ℕ → Except HostErrno ℕ
  usbdev : ℕ → Bool
  wakeFd : ℤ
  alloc : Bool
  /-- The sets can be written back. -/
  readOut : Bool
  writeOut : Bool
  exceptOut : Bool
  /-- The time when the deadline is fixed. -/
  start : ℤ

/-- The bit of a guest set, which is read as zero when there is no set. -/
def UserArg.bit (a : UserArg (ℕ → Bool)) (i : ℕ) : Bool :=
  match a with
  | .val b => b i
  | _ => false

def UserArg.given {α : Type} (a : UserArg α) : Bool :=
  match a with
  | .val _ => true
  | _ => false

def fdsetMaxFds : ℤ := 1024

def fdsetWords (nfds : ℤ) : Option ℕ :=
  if nfds < 0 ∨ fdsetMaxFds < nfds then none else some ((nfds.toNat + 63) / 64)

/-- A descriptor is asked about in one of the sets. -/
def PselectCall.requested (c : PselectCall) (i : ℕ) : Bool :=
  c.readfds.bit i || c.writefds.bit i || c.exceptfds.bit i

/-- The request that `pselect_req_arm` makes of a descriptor. -/
def PselectCall.arm (c : PselectCall) (i hostFd : ℕ) : PselectReq :=
  { hostFd := hostFd, index := i, usbdev := c.usbdev i
    usbWantR := c.usbdev i && c.readfds.bit i
    usbWantW := c.usbdev i && c.writefds.bit i
    disarmed := false
    events := if c.usbdev i then {.pollin}
      else (if c.readfds.bit i then {.pollin} else ∅) ∪
        (if c.writefds.bit i then {.pollout} else ∅) ∪
        if c.exceptfds.bit i then {.pollpri} else ∅
    revents := ∅, unp := .unused }

/-- The loop of `pselect_collect` over the words and their bits; bits at `nfds` and above are
skipped. -/
def PselectCall.collectFrom (c : PselectCall) : List ℕ → Except ℤ (List PselectReq)
  | [] => .ok []
  | i :: is =>
    if c.requested i && (i : ℤ) < c.nfds then
      match c.ref i with
      | .error err => .error (if err.1 = linuxEnomem then linuxEnomem else linuxEbadf)
      | .ok h =>
        match c.collectFrom is with
        | .error err => .error err
        | .ok reqs => .ok (c.arm i h :: reqs)
    else c.collectFrom is

/-- Model of `pselect_collect`. -/
def PselectCall.collect (c : PselectCall) (words : ℕ) : Except ℤ (List PselectReq) :=
  match c.readfds, c.writefds, c.exceptfds with
  | .null, .null, .null => .ok []
  | .fault, _, _ => .error linuxEfault
  | _, .fault, _ => .error linuxEfault
  | _, _, .fault => .error linuxEfault
  | _, _, _ =>
    let bits := List.range (64 * words)
    if 64 < bits.countP c.requested && !c.alloc then .error linuxEnomem else c.collectFrom bits

def pselectInstallMask (sigmask : UserArg (UserArg Unit × ℕ)) : Except ℤ Unit :=
  match sigmask with
  | .null => .ok ()
  | .fault => .error linuxEfault
  | .val (.null, _) => .ok ()
  | .val (ss, len) =>
    if len ≠ 8 then .error linuxEinval
    else match ss with
      | .fault => .error linuxEfault
      | _ => .ok ()

structure PselectState where
  reqs : List PselectReq
  /-- The host's sets as they are armed, without the wakeup pipe. -/
  savedRead : ℤ → Bool
  savedWrite : ℤ → Bool
  savedExcept : ℤ → Bool
  addedWakeup : Bool
  usePollFallback : Bool
  deadlineMs : ℤ
  refused : ℤ
  ready : ℤ
  checked : Bool

/-- What the rest of the world answers during one pass. -/
structure PselectPass where
  /-- `select` over the refused descriptors, unless it fails. -/
  select : Option HostReady
  /-- `select` or `poll` over the others, unless it fails. -/
  host : Except HostErrno HostReady
  /-- The wakeup pipe is found readable. -/
  wake : Bool
  /-- The array for `poll` can be allocated. -/
  alloc : Bool
  interrupts : Interrupts
  /-- The usbfs maps, each time they are looked at. -/
  breakUsb : ℕ → UsbState
  discountUsb : ℕ → UsbState
  writeUsb : ℕ → UsbState
  /-- The clock at the end of the round, after the wakeup pipe, and after the completion pipes. -/
  now : ℤ
  afterWake : ℤ
  afterUsb : ℤ

/-- What the call leaves in the three sets and returns. -/
structure PselectResult where
  ret : ℤ
  now : ℤ
  readfds : ℕ → Bool
  writefds : ℕ → Bool
  exceptfds : ℕ → Bool

def PselectResult.plain (ret now : ℤ) : PselectResult :=
  ⟨ret, now, fun _ => false, fun _ => false, fun _ => false⟩

def PselectResult.error (err now : ℤ) : PselectResult := .plain (-err) now

/-! ### One pass -/

def inFdSet (fd : ℤ) : Bool := 0 ≤ fd && fd < fdSetsize

/-- The host's sets as `pselect_req_arm` fills them. -/
def PselectCall.armedSet (reqs : List PselectReq) (want : PselectReq → Bool) (h : ℤ) : Bool :=
  reqs.any fun q => q.hostFd = h && inFdSet h && want q

def hostBits (s : ℤ → Bool) : ℤ :=
  ((Finset.range fdSetsize.toNat).filter fun h : ℕ => s h = true).card

def PselectReq.polled (r : HostReady) (q : PselectReq) : PselectReq :=
  { q with revents := r.poll (if 0 ≤ q.unp.fd ∨ q.disarmed then -1 else q.hostFd) q.events }

def PselectReq.refuses (q : PselectReq) : Bool := .pollnval ∈ q.revents

/-- A request that `poll` refuses is moved to the refused set, when that is found. -/
def PselectReq.split (q : PselectReq) : PselectReq :=
  if q.refuses then { q with unp := { q.unp with fd := q.hostFd, events := q.events } } else q

/-- Model of `pselect_usb_wake_pending` on one request. -/
def PselectReq.usbWakePending (usb : ℕ → UsbState) (q : PselectReq) : Bool :=
  q.disarmed && ((usb q.index).disconnected || q.usbWantW && (usb q.index).reapable)

/-- What the host has said about a request's completion pipe. -/
def PselectReq.pipeReady (fallback : Bool) (readSet : ℤ → Bool) (q : PselectReq) : Bool :=
  if fallback then (q.revents ∩ {.pollin, .pollhup, .pollerr}).Nonempty
  else inFdSet q.hostFd && readSet q.hostFd

/-- Model of `pselect_usb_discount_invisible`: the requests, the two read sets, and how many were
discounted. -/
def usbDiscountInvisible (fallback : Bool) (usb : ℕ → UsbState) :
    List PselectReq → (ℤ → Bool) → (ℤ → Bool) →
    List PselectReq × (ℤ → Bool) × (ℤ → Bool) × ℤ
  | [], readSet, saved => ([], readSet, saved, 0)
  | q :: qs, readSet, saved =>
    let u := usb q.index
    if q.usbdev && !q.disarmed && q.pipeReady fallback readSet &&
        !(q.usbWantW && (u.reapable || u.disconnected) || q.usbWantR && u.disconnected) then
      let readSet := if fallback then readSet else Function.update readSet q.hostFd false
      let saved := if fallback then saved else Function.update saved q.hostFd false
      let (qs, readSet, saved, n) := usbDiscountInvisible fallback usb qs readSet saved
      ({ q with disarmed := true, revents := ∅ } :: qs, readSet, saved, n + 1)
    else
      let (qs, readSet, saved, n) := usbDiscountInvisible fallback usb qs readSet saved
      (q :: qs, readSet, saved, n)

structure SelectBits where
  r : Bool
  w : Bool
  e : Bool

def SelectBits.count (b : SelectBits) : ℤ := b.r.toNat + b.w.toNat + b.e.toNat

/-- The bits that `pselect_usb_writeback` sets. -/
def PselectReq.usbBits (fallback : Bool) (readSet : ℤ → Bool) (usb : ℕ → UsbState)
    (q : PselectReq) : SelectBits :=
  let u := usb q.index
  { r := q.usbWantR && u.disconnected
    w := q.usbWantW && ((q.pipeReady fallback readSet || q.disarmed) && u.reapable ||
      u.disconnected)
    e := false }

/-- The bits that `pselect_writeback` sets for a request. -/
def PselectCall.reqBits (c : PselectCall) (fallback : Bool) (readSet writeSet exceptSet : ℤ → Bool)
    (usb : ℕ → UsbState) (q : PselectReq) : SelectBits :=
  if q.usbdev then q.usbBits fallback readSet usb
  else if fallback then
    let revents := if 0 ≤ q.unp.fd then q.unp.revents else q.revents
    { r := c.readfds.given && (revents ∩ {.pollin, .pollhup, .pollerr}).Nonempty
      w := c.writefds.given && (revents ∩ {.pollout, .pollhup, .pollerr}).Nonempty
      e := c.exceptfds.given && .pollpri ∈ revents }
  else
    { r := c.readfds.given && inFdSet q.hostFd && readSet q.hostFd
      w := c.writefds.given && inFdSet q.hostFd && writeSet q.hostFd
      e := c.exceptfds.given && inFdSet q.hostFd && exceptSet q.hostFd }

/-- Model of `pselect_writeback`. -/
def PselectCall.writeback (c : PselectCall) (s : PselectState)
    (readSet writeSet exceptSet : ℤ → Bool) (usb : ℕ → UsbState) (ret now : ℤ) : PselectResult :=
  let bits := c.reqBits s.usePollFallback readSet writeSet exceptSet usb
  let ret :=
    if !(c.readfds.given || c.writefds.given || c.exceptfds.given) then ret
    else if s.usePollFallback then (s.reqs.map fun q => (bits q).count).sum
    else ret + (s.reqs.map fun q =>
      if q.usbdev then (bits q).count - (q.pipeReady false readSet).toNat else 0).sum
  if c.readfds.given && !c.readOut || c.writefds.given && !c.writeOut ||
      c.exceptfds.given && !c.exceptOut then .error linuxEfault now
  else
    { ret := ret, now := now
      readfds := fun i => s.reqs.any fun q => q.index = i && (bits q).r
      writefds := fun i => s.reqs.any fun q => q.index = i && (bits q).w
      exceptfds := fun i => s.reqs.any fun q => q.index = i && (bits q).e }

/-- The return to the top of the loop, at `pselect_retry`. -/
def PselectState.retry (s : PselectState) : PselectState :=
  { s with reqs := s.reqs.map fun q => { q with revents := ∅ } }

/-- What follows the loop, when the host has returned `ret` and left these sets. -/
def pselectAfter (c : PselectCall) (s : PselectState) (p : PselectPass)
    (readSet writeSet exceptSet : ℤ → Bool) (ret : ℤ) : PselectState ⊕ PselectResult :=
  let woken := s.addedWakeup && p.wake
  let ret := if woken && 0 < ret then ret - 1 else ret
  if woken && ret = 0 && timeLeft s.deadlineMs p.afterWake then .inl s.retry
  else
    let (s, readSet, ret') :=
      if 0 < ret then
        let (reqs, readSet, saved, n) :=
          usbDiscountInvisible s.usePollFallback p.discountUsb s.reqs readSet s.savedRead
        ({ s with reqs := reqs, savedRead := saved }, readSet, ret - n)
      else (s, readSet, ret)
    if 0 < ret ∧ ret' = 0 ∧ timeLeft s.deadlineMs p.afterUsb then .inl s.retry
    else .inr (c.writeback s readSet writeSet exceptSet p.writeUsb ret' p.afterUsb)

def PselectState.wakeReady (s : PselectState) (p : PselectPass) : ℤ :=
  if s.addedWakeup && p.wake then 1 else 0

/-- The end of a round: the call is interrupted, another round follows, or the loop is left. -/
def pselectRound (c : PselectCall) (s : PselectState) (p : PselectPass)
    (readSet writeSet exceptSet : ℤ → Bool) (ret : ℤ) : PselectState ⊕ PselectResult :=
  if pollWaitInterrupted p.interrupts (s.wakeReady p < ret || 0 < s.ready) then
    .inr (.error linuxEintr p.now)
  else if ret = 0 ∧ !s.reqs.any (PselectReq.usbWakePending p.breakUsb) ∧ s.ready = 0 ∧
      timeLeft s.deadlineMs p.now then .inl s
  else pselectAfter c s p readSet writeSet exceptSet ret

def PselectPass.failed (p : PselectPass) (s : PselectState) (err : HostErrno) : PselectResult :=
  if pollWaitInterrupted p.interrupts (0 < s.ready) then .error linuxEintr p.now
  else .error err.1 p.now

/-- The refused requests are asked for again, with `poll_eval_unpollable`. -/
def PselectState.evaluated (s : PselectState) (sel : Option HostReady) : PselectState :=
  if 0 < s.refused then
    let reqs := s.reqs.map fun q => { q with unp := q.unp.eval sel }
    { s with reqs := reqs, ready := reqs.countP fun q => q.unp.ready }
  else s

def PselectState.polled (s : PselectState) (r : HostReady) : PselectState :=
  { s with reqs := s.reqs.map (PselectReq.polled r) }

/-- The refused requests leave the poll set, and the loop starts again. -/
def PselectState.split (s : PselectState) : PselectState :=
  { s with
    checked := true
    reqs := s.reqs.map fun q => { q.split with revents := ∅ }
    refused := s.reqs.countP PselectReq.refuses }

/-- A round that goes through `pselect_fallback_pass`. -/
def pselectFallbackPass (c : PselectCall) (s : PselectState) (p : PselectPass) :
    PselectState ⊕ PselectResult :=
  let s := s.evaluated p.select
  if 64 < s.reqs.length + s.addedWakeup.toNat ∧ !p.alloc then .inr (.error linuxEnomem p.now)
  else match p.host with
    | .error err => .inr (p.failed s err)
    | .ok host =>
      let s := s.polled host
      let ret := s.reqs.countP (fun q => q.revents.Nonempty) + s.wakeReady p
      if 0 < ret ∧ !s.checked ∧ s.reqs.any PselectReq.refuses then .inl s.split
      else
        pselectRound c { s with checked := s.checked || 0 < ret } p (fun _ => false)
          (fun _ => false) (fun _ => false) ret

def PselectState.readSet (s : PselectState) (r : HostReady) (h : ℤ) : Bool :=
  s.savedRead h && r.readable h

def PselectState.writeSet (s : PselectState) (r : HostReady) (h : ℤ) : Bool :=
  s.savedWrite h && r.writable h

def PselectState.exceptSet (s : PselectState) (r : HostReady) (h : ℤ) : Bool :=
  s.savedExcept h && r.exceptional h

/-- One round of the loop in `sys_pselect6`, and what follows it. -/
def pselectPass (c : PselectCall) (s : PselectState) (p : PselectPass) :
    PselectState ⊕ PselectResult :=
  if s.usePollFallback then pselectFallbackPass c s p
  else match p.host with
    | .error err => .inr (p.failed s err)
    | .ok host =>
      pselectRound c s p (s.readSet host) (s.writeSet host) (s.exceptSet host)
        (hostBits (s.readSet host) + hostBits (s.writeSet host) + hostBits (s.exceptSet host) +
          s.wakeReady p)

def pselectNeedsPollFallback (reqs : List PselectReq) (addedWakeup : Bool) (wakeFd : ℤ) : Bool :=
  reqs.any (fun q => !inFdSet q.hostFd) || addedWakeup && !inFdSet wakeFd

/-- `sys_pselect6` from the requests to its loop. -/
def pselectArm (c : PselectCall) (reqs : List PselectReq) : PselectState ⊕ PselectResult :=
  let go (deadlineMs : ℤ) (zero : Bool) : PselectState ⊕ PselectResult :=
    match pselectInstallMask c.sigmask with
    | .error err => .inr (.error err c.start)
    | .ok () =>
      let addedWakeup := !zero && 0 ≤ c.wakeFd
      .inl { reqs := reqs
             savedRead := PselectCall.armedSet reqs fun q => q.usbdev || .pollin ∈ q.events
             savedWrite := PselectCall.armedSet reqs fun q => !q.usbdev && .pollout ∈ q.events
             savedExcept := PselectCall.armedSet reqs fun q => !q.usbdev && .pollpri ∈ q.events
             addedWakeup := addedWakeup
             usePollFallback := pselectNeedsPollFallback reqs addedWakeup c.wakeFd
             deadlineMs := deadlineMs, refused := 0, ready := 0, checked := false }
  match c.timeout with
  | .null => go (-1) false
  | .fault => .inr (.error linuxEfault c.start)
  | .val ts =>
    if ts.valid then go (c.start + ts.toPollMs) (ts.sec = 0 && ts.nsec = 0)
    else .inr (.error linuxEinval c.start)

/-- The call that only sleeps returns at once for a bad or a zero timeout. -/
def pselectSleep (c : PselectCall) : Option PselectResult :=
  match c.readfds, c.writefds, c.exceptfds, c.sigmask, c.timeout with
  | .null, .null, .null, .null, .fault =>
    if c.nfds = 0 then some (.error linuxEfault c.start) else none
  | .null, .null, .null, .null, .val ts =>
    if c.nfds ≠ 0 then none
    else if !ts.valid then some (.error linuxEinval c.start)
    else if ts.sec = 0 ∧ ts.nsec = 0 then some (.plain 0 c.start)
    else none
  | _, _, _, _, _ => none

/-- `sys_pselect6` up to its loop. -/
def pselectStart (c : PselectCall) : PselectState ⊕ PselectResult :=
  match fdsetWords c.nfds with
  | none => .inr (.error linuxEinval c.start)
  | some words =>
    match pselectSleep c with
    | some res => .inr res
    | none =>
      match c.collect words with
      | .error err => .inr (.error err c.start)
      | .ok reqs => pselectArm c reqs

open Finset Runs

/-! ### What the call asks for -/

def PselectCall.asks (c : PselectCall) (i : ℕ) : Bool := c.requested i && (i : ℤ) < c.nfds

def PselectCall.hostFd (c : PselectCall) (i : ℕ) : ℕ :=
  match c.ref i with
  | .ok h => h
  | .error _ => 0

/-- The sets name open descriptors, none of them of usbfs. -/
def PselectCall.Plain (c : PselectCall) : Prop :=
  ∀ i, c.asks i = true → (∃ h, c.ref i = .ok h) ∧ c.usbdev i = false

variable {c : PselectCall} {s : PselectState} {p : PselectPass} {reqs : List PselectReq}
  {q : PselectReq} {words i : ℕ} {err : ℤ} {res : PselectResult}

/-- The requests that `pselect_collect` makes. -/
def PselectCall.requests (c : PselectCall) (words : ℕ) : List PselectReq :=
  ((List.range (64 * words)).filter c.asks).map fun i => c.arm i (c.hostFd i)

lemma collectFrom_cases (c : PselectCall) (is : List ℕ) :
    (∃ err, 0 < err ∧ c.collectFrom is = .error err) ∨
      c.collectFrom is = .ok ((is.filter c.asks).map fun i => c.arm i (c.hostFd i)) := by
  induction is with
  | nil => exact .inr rfl
  | cons i is ih =>
    rw [PselectCall.collectFrom, ← PselectCall.asks]
    by_cases hask : c.asks i
    · rw [List.filter_cons_of_pos hask, List.map_cons, if_pos hask]
      cases href : c.ref i with
      | error e =>
        refine .inl ⟨_, ?_, rfl⟩
        split <;> decide
      | ok h =>
        have hhost : c.hostFd i = h := by
          rw [PselectCall.hostFd, href]
        obtain ⟨err, hpos, heq⟩ | heq := ih
        · exact .inl ⟨err, hpos, by rw [heq]⟩
        · exact .inr (by rw [heq, hhost])
    · rw [List.filter_cons_of_neg hask, if_neg hask]
      exact ih

lemma collect_cases (c : PselectCall) (words : ℕ) :
    (∃ err, 0 < err ∧ c.collect words = .error err) ∨ c.collect words = .ok (c.requests words) := by
  unfold PselectCall.collect
  split
  · rename_i hr hw he
    have hnone : (List.range (64 * words)).filter c.asks = [] := by
      refine List.filter_eq_nil_iff.mpr fun i _ => ?_
      simp [PselectCall.asks, PselectCall.requested, hr, hw, he, UserArg.bit]
    exact .inr (by rw [PselectCall.requests, hnone, List.map_nil])
  · exact .inl ⟨_, by decide, rfl⟩
  · exact .inl ⟨_, by decide, rfl⟩
  · exact .inl ⟨_, by decide, rfl⟩
  dsimp only
  split
  · exact .inl ⟨_, by decide, rfl⟩
  · exact collectFrom_cases c _

lemma pselectInstallMask_cases (m : UserArg (UserArg Unit × ℕ)) :
    (∃ err, 0 < err ∧ pselectInstallMask m = .error err) ∨ pselectInstallMask m = .ok () := by
  unfold pselectInstallMask
  split
  · exact .inr rfl
  · exact .inl ⟨_, by decide, rfl⟩
  · exact .inr rfl
  split
  · exact .inl ⟨_, by decide, rfl⟩
  split
  · exact .inl ⟨_, by decide, rfl⟩
  · exact .inr rfl

/-- The state in which the loop is entered. -/
def PselectCall.armed (c : PselectCall) (reqs : List PselectReq) (deadlineMs : ℤ) (zero : Bool) :
    PselectState :=
  { reqs := reqs
    savedRead := PselectCall.armedSet reqs fun q => q.usbdev || .pollin ∈ q.events
    savedWrite := PselectCall.armedSet reqs fun q => !q.usbdev && .pollout ∈ q.events
    savedExcept := PselectCall.armedSet reqs fun q => !q.usbdev && .pollpri ∈ q.events
    addedWakeup := !zero && 0 ≤ c.wakeFd
    usePollFallback := pselectNeedsPollFallback reqs (!zero && 0 ≤ c.wakeFd) c.wakeFd
    deadlineMs := deadlineMs, refused := 0, ready := 0, checked := false }

/-- The deadline is the one that the timeout asks for; without a timeout it is negative. -/
def PselectCall.Deadline (c : PselectCall) (deadlineMs : ℤ) : Prop :=
  0 ≤ deadlineMs → ∃ ts, c.timeout = .val ts ∧ ts.valid = true ∧ deadlineMs = c.start + ts.toPollMs

lemma pselectArm_cases (c : PselectCall) (reqs : List PselectReq) :
    (∃ err, 0 < err ∧ pselectArm c reqs = .inr (.error err c.start)) ∨
      ∃ d z, pselectArm c reqs = .inl (c.armed reqs d z) ∧ c.Deadline d := by
  unfold pselectArm
  dsimp only
  split
  · obtain ⟨err, hpos, hmask⟩ | hmask := pselectInstallMask_cases c.sigmask
    · exact .inl ⟨err, hpos, by rw [hmask]⟩
    · exact .inr ⟨-1, false, by rw [hmask]; rfl, fun h => absurd h (by decide)⟩
  · exact .inl ⟨_, by decide, rfl⟩
  rename_i ts hts
  split
  · rename_i hvalid
    obtain ⟨err, hpos, hmask⟩ | hmask := pselectInstallMask_cases c.sigmask
    · exact .inl ⟨err, hpos, by rw [hmask]⟩
    · exact .inr ⟨_, _, by rw [hmask]; rfl, fun _ => ⟨ts, hts, hvalid, rfl⟩⟩
  · exact .inl ⟨_, by decide, rfl⟩

lemma pselectSleep_cases (c : PselectCall) :
    (∃ err, 0 < err ∧ pselectSleep c = some (.error err c.start)) ∨
      (pselectSleep c = some (.plain 0 c.start) ∧ (∀ i, c.asks i = false) ∧
        ∃ ts, c.timeout = .val ts ∧ ts.ms = 0) ∨ pselectSleep c = none := by
  unfold pselectSleep
  split
  · split
    · exact .inl ⟨_, by decide, rfl⟩
    · exact .inr (.inr rfl)
  · rename_i ts hr hw he _ hts
    split
    · exact .inr (.inr rfl)
    split
    · exact .inl ⟨_, by decide, rfl⟩
    split
    · refine .inr (.inl ⟨rfl, fun i => ?_, ts, hts, ?_⟩)
      · simp [PselectCall.asks, PselectCall.requested, hr, hw, he, UserArg.bit]
      · unfold Timespec.ms
        omega
    · exact .inr (.inr rfl)
  · exact .inr (.inr rfl)

/-- How a call begins: it fails, it only sleeps and for no time, or it enters the loop. -/
lemma pselectStart_cases (c : PselectCall) :
    (∃ err, 0 < err ∧ pselectStart c = .inr (.error err c.start)) ∨
      (pselectStart c = .inr (.plain 0 c.start) ∧ (∀ i, c.asks i = false) ∧
        ∃ ts, c.timeout = .val ts ∧ ts.ms = 0) ∨ ∃ words d z, fdsetWords c.nfds = some words ∧
        pselectStart c = .inl (c.armed (c.requests words) d z) ∧ c.Deadline d := by
  unfold pselectStart
  cases hwords : fdsetWords c.nfds with
  | none => exact .inl ⟨_, by decide, rfl⟩
  | some words =>
    dsimp only
    obtain ⟨err, hpos, hs⟩ | ⟨hs, hnone⟩ | hs := pselectSleep_cases c
    · exact .inl ⟨err, hpos, by rw [hs]⟩
    · exact .inr (.inl ⟨by rw [hs], hnone⟩)
    rw [hs]
    obtain ⟨err, hpos, hc⟩ | hc := collect_cases c words
    · exact .inl ⟨err, hpos, by rw [hc]⟩
    rw [hc]
    obtain ⟨err, hpos, ha⟩ | ⟨d, z, ha, hd⟩ := pselectArm_cases c (c.requests words)
    · exact .inl ⟨err, hpos, ha⟩
    · exact .inr (.inr ⟨words, d, z, rfl, ha, hd⟩)

/-! ### What holds between the passes -/

/-- A request for a plain descriptor, as the call made it; the host may have refused it since. -/
structure PselectReq.Fits (c : PselectCall) (q : PselectReq) : Prop where
  asked : c.asks q.index = true
  host : q.hostFd = c.hostFd q.index
  plain : q.usbdev = false
  armed : q.disarmed = false
  events : q.events = (c.arm q.index (c.hostFd q.index)).events
  unp : q.unp.fd < 0 ∨ q.unp.fd = q.hostFd ∧ q.unp.events = q.events

/-- What holds between the passes of a call for plain descriptors. -/
structure PselectInv (c : PselectCall) (s : PselectState) : Prop where
  fits : ∀ q ∈ s.reqs, q.Fits c
  index : ∃ words, fdsetWords c.nfds = some words ∧
    s.reqs.map PselectReq.index = (List.range (64 * words)).filter c.asks
  read : ∀ h, s.savedRead h = true ↔
    inFdSet h = true ∧ ∃ i, c.asks i = true ∧ (c.hostFd i : ℤ) = h ∧ c.readfds.bit i = true
  write : ∀ h, s.savedWrite h = true ↔
    inFdSet h = true ∧ ∃ i, c.asks i = true ∧ (c.hostFd i : ℤ) = h ∧ c.writefds.bit i = true
  except : ∀ h, s.savedExcept h = true ↔
    inFdSet h = true ∧ ∃ i, c.asks i = true ∧ (c.hostFd i : ℤ) = h ∧ c.exceptfds.bit i = true
  native : s.usePollFallback = false → ∀ i, c.asks i = true → inFdSet (c.hostFd i) = true
  refused : (∃ q ∈ s.reqs, 0 ≤ q.unp.fd) → 0 < s.refused

lemma fdsetWords_bound (h : fdsetWords c.nfds = some words) (hi : c.asks i) :
    i < 64 * words ∧ i < 1024 := by
  unfold fdsetWords fdsetMaxFds at h
  simp only [PselectCall.asks, Bool.and_eq_true, decide_eq_true_eq] at hi
  grind

lemma mem_requests (hwords : fdsetWords c.nfds = some words) :
    q ∈ c.requests words ↔ ∃ i, c.asks i ∧ c.arm i (c.hostFd i) = q := by
  rw [PselectCall.requests, List.mem_map]
  refine exists_congr fun i => and_congr_left fun _ => ?_
  rw [List.mem_filter, List.mem_range]
  exact ⟨fun h => h.2, fun hi => ⟨(fdsetWords_bound hwords hi).1, hi⟩⟩

section
variable (h : PselectInv c s)
include h

lemma PselectInv.mem_index (hi : c.asks i) : ∃ q ∈ s.reqs, q.index = i := by
  obtain ⟨words, hw, hidx⟩ := h.index
  have hmem : i ∈ s.reqs.map PselectReq.index := by
    rw [hidx, List.mem_filter, List.mem_range]
    exact ⟨(fdsetWords_bound hw hi).1, hi⟩
  exact List.mem_map.mp hmem

lemma PselectInv.nodup : (s.reqs.map PselectReq.index).Nodup := by
  obtain ⟨words, -, hidx⟩ := h.index
  rw [hidx]
  exact List.nodup_range.filter _

lemma PselectInv.index_inj {q' : PselectReq} (hq : q ∈ s.reqs) (hq' : q' ∈ s.reqs)
    (heq : q.index = q'.index) : q = q' :=
  List.inj_on_of_nodup_map h.nodup hq hq' heq

lemma PselectInv.lt (hi : c.asks i) : i < 1024 := by
  obtain ⟨words, hw, -⟩ := h.index
  exact (fdsetWords_bound hw hi).2

end

/-- The refused set is found once. -/
def PselectState.Unsplit (s : PselectState) : Prop :=
  s.checked = false → ∀ q ∈ s.reqs, q.unp.fd < 0

lemma armedSet_iff (hwords : fdsetWords c.nfds = some words) {set : UserArg (ℕ → Bool)}
    (hwant : ∀ i, c.asks i → want (c.arm i (c.hostFd i)) = set.bit i) (h : ℤ) :
    PselectCall.armedSet (c.requests words) want h ↔ inFdSet h ∧
      ∃ i, c.asks i ∧ (c.hostFd i : ℤ) = h ∧ set.bit i := by
  simp only [PselectCall.armedSet, List.any_eq_true, Bool.and_eq_true, decide_eq_true_eq,
    mem_requests hwords]
  constructor
  · rintro ⟨_, ⟨i, hi, rfl⟩, ⟨hh, hset⟩, hb⟩
    exact ⟨hset, i, hi, hh, hwant i hi ▸ hb⟩
  · rintro ⟨hset, i, hi, hh, hb⟩
    exact ⟨_, ⟨i, hi, rfl⟩, ⟨hh, hset⟩, (hwant i hi).trans hb⟩

lemma PselectInv.fresh (hplain : c.Plain) (hwords : fdsetWords c.nfds = some words) :
    PselectInv c (c.armed (c.requests words) d z) ∧ (c.armed (c.requests words) d z).Unsplit := by
  have hev : ∀ i, c.asks i →
      ((c.arm i (c.hostFd i)).usbdev || .pollin ∈ (c.arm i (c.hostFd i)).events) = c.readfds.bit i ∧
      (!(c.arm i (c.hostFd i)).usbdev && .pollout ∈ (c.arm i (c.hostFd i)).events) =
        c.writefds.bit i ∧
      (!(c.arm i (c.hostFd i)).usbdev && .pollpri ∈ (c.arm i (c.hostFd i)).events) =
        c.exceptfds.bit i := by
    intro i hi
    simp only [PselectCall.arm, (hplain i hi).2]
    cases c.readfds.bit i <;> cases c.writefds.bit i <;> cases c.exceptfds.bit i <;> decide
  have hunused : ∀ q ∈ c.requests words, q.unp.fd < 0 := by
    intro q hq
    obtain ⟨i, -, rfl⟩ := (mem_requests hwords).mp hq
    exact (by decide : (-1 : ℤ) < 0)
  refine ⟨⟨?_, ⟨words, hwords, ?_⟩, armedSet_iff hwords fun i hi => (hev i hi).1,
    armedSet_iff hwords fun i hi => (hev i hi).2.1, armedSet_iff hwords fun i hi => (hev i hi).2.2,
    ?_, ?_⟩, fun _ => hunused⟩
  · intro q hq
    have hneg := hunused q hq
    obtain ⟨i, hi, rfl⟩ := (mem_requests hwords).mp hq
    exact ⟨hi, rfl, (hplain i hi).2, rfl, rfl, .inl hneg⟩
  · exact (List.map_map ..).trans (List.map_id _)
  · intro hfb i hi
    have hset := List.any_eq_false.mp (Bool.or_eq_false_iff.mp hfb).1 _
      ((mem_requests hwords).mpr ⟨i, hi, rfl⟩)
    rw [Bool.not_eq_true, Bool.not_eq_false_eq_eq_true] at hset
    exact hset
  · rintro ⟨q, hq, hfd⟩
    exact absurd (hunused q hq) (Int.not_lt.mpr hfd)

/-- A change of the requests that leaves alone what they ask for. -/
structure PselectReq.Keeps (c : PselectCall) (g : PselectReq → PselectReq) : Prop where
  index : ∀ q, (g q).index = q.index
  fits : ∀ q, q.Fits c → (g q).Fits c

lemma PselectInv.map (h : PselectInv c s) {g : PselectReq → PselectReq}
    (hg : PselectReq.Keeps c g) {n m : ℤ} {b : Bool}
    (hrefused : ∀ q ∈ s.reqs, 0 ≤ (g q).unp.fd → 0 < n) :
    PselectInv c { s with reqs := s.reqs.map g, refused := n, ready := m, checked := b } := by
  refine ⟨?_, ?_, h.read, h.write, h.except, h.native, ?_⟩
  · exact List.forall_mem_map.mpr fun q hq => hg.fits q (h.fits q hq)
  · obtain ⟨words, hwords, hidx⟩ := h.index
    refine ⟨words, hwords, ?_⟩
    rw [List.map_map, ← hidx]
    exact List.map_congr_left fun q _ => hg.index q
  · rintro ⟨q, hq, hfd⟩
    obtain ⟨a, ha, rfl⟩ := List.mem_map.mp hq
    exact hrefused a ha hfd

lemma keeps_pselectEval (sel : Option HostReady) :
    PselectReq.Keeps c fun q => { q with unp := q.unp.eval sel } := by
  refine ⟨fun q => rfl, fun q hq => { hq with unp := ?_ }⟩
  rw [(q.unp.eval_fd sel).1, (q.unp.eval_fd sel).2]
  exact hq.unp

lemma keeps_pselectRevents (f : PselectReq → PollMask) :
    PselectReq.Keeps c fun q => { q with revents := f q } :=
  ⟨fun _ => rfl, fun _ hq => { hq with }⟩

lemma keeps_pselectSplit : PselectReq.Keeps c fun q => { q.split with revents := ∅ } := by
  refine ⟨fun q => ?_, fun q hq => ?_⟩
  · unfold PselectReq.split
    split <;> rfl
  unfold PselectReq.split
  split
  · exact { hq with unp := .inr ⟨rfl, rfl⟩ }
  · exact { hq with }

section
variable (h : PselectInv c s)
include h

lemma PselectInv.retry : PselectInv c s.retry :=
  h.map (keeps_pselectRevents fun _ => ∅) fun q hq hfd => h.refused ⟨q, hq, hfd⟩

lemma PselectInv.polled (r : HostReady) : PselectInv c (s.polled r) :=
  h.map (keeps_pselectRevents _) fun q hq hfd => h.refused ⟨q, hq, hfd⟩

lemma PselectInv.evaluated (sel : Option HostReady) : PselectInv c (s.evaluated sel) := by
  unfold PselectState.evaluated
  split
  · rename_i hpos
    exact h.map (keeps_pselectEval sel) fun _ _ _ => hpos
  · exact h

lemma PselectInv.split (hnew : ∀ q ∈ s.reqs, q.unp.fd < 0) : PselectInv c s.split := by
  refine h.map keeps_pselectSplit fun q hq hfd => ?_
  have hrefuses : q.refuses := by
    by_contra hno
    rw [PselectReq.split, if_neg hno] at hfd
    exact absurd (hnew q hq) (Int.not_lt.mpr hfd)
  exact_mod_cast List.countP_pos_iff.mpr ⟨q, hq, hrefuses⟩

lemma PselectInv.withChecked (b : Bool) : PselectInv c { s with checked := b } :=
  { h with }

end

lemma PselectState.Unsplit.evaluated (hu : s.Unsplit) (sel : Option HostReady) :
    (s.evaluated sel).Unsplit := by
  unfold PselectState.evaluated
  split
  · refine fun hc => List.forall_mem_map.mpr fun q hq => ?_
    rw [(q.unp.eval_fd sel).1]
    exact hu hc q hq
  · exact hu

lemma PselectState.Unsplit.polled (hu : s.Unsplit) (r : HostReady) : (s.polled r).Unsplit :=
  fun hc => List.forall_mem_map.mpr (hu hc)

lemma PselectState.Unsplit.retry (hu : s.Unsplit) : s.retry.Unsplit :=
  fun hc => List.forall_mem_map.mpr (hu hc)

@[simp] lemma evaluated_same (s : PselectState) (sel : Option HostReady) :
    (s.evaluated sel).usePollFallback = s.usePollFallback ∧ (s.evaluated sel).checked =
        s.checked := by
  unfold PselectState.evaluated
  split <;> exact ⟨rfl, rfl⟩

/-! ### What a pass can do -/

lemma error_neg (h : 0 < err) (now : ℤ) : (PselectResult.error err now).ret < 0 := by
  show -err < 0
  omega

lemma hostBits_nonneg (b : ℤ → Bool) : 0 ≤ hostBits b := Int.natCast_nonneg _

variable {R : ℤ → Bool} {usb : ℕ → UsbState} {out : PselectState ⊕ PselectResult}

/-- What `pselect_usb_discount_invisible` does to the state. -/
abbrev PselectState.discount (s : PselectState) (usb : ℕ → UsbState) (R : ℤ → Bool) :
    List PselectReq × (ℤ → Bool) × (ℤ → Bool) × ℤ :=
  usbDiscountInvisible s.usePollFallback usb s.reqs R s.savedRead

def PselectState.discounted (s : PselectState) (usb : ℕ → UsbState) (R : ℤ → Bool) : PselectState :=
  { s with
    reqs := (usbDiscountInvisible s.usePollFallback usb s.reqs R s.savedRead).1
    savedRead := (usbDiscountInvisible s.usePollFallback usb s.reqs R s.savedRead).2.2.1 }

/-- The end of a round: the call is interrupted, it goes on with or without discounted completions,
or it ends with some descriptors found ready or with none. -/
lemma pselectRound_cases (hn : 0 ≤ n) (hs : pselectRound c s p R W E (n + s.wakeReady p) = out) :
    out = .inr (.error linuxEintr p.now) ∨
    (∃ t, out = .inl t ∧ (t = s ∨ t = s.retry ∨ t = (s.discounted p.discountUsb R).retry)) ∨
    (0 < n ∧ ∃ m, m = n - (s.discount p.discountUsb R).2.2.2 ∧
      out = .inr (c.writeback (s.discounted p.discountUsb R) (s.discount p.discountUsb R).2.1 W E
        p.writeUsb m p.afterUsb) ∧ (m = 0 → timeLeft s.deadlineMs p.afterUsb = false)) ∨
    n = 0 ∧ out = .inr (c.writeback s R W E p.writeUsb 0 p.afterUsb) ∧
      (s.wakeReady p ≠ 0 → timeLeft s.deadlineMs p.afterWake = false) ∧
      (s.wakeReady p = 0 → timeLeft s.deadlineMs p.now →
        s.reqs.any (PselectReq.usbWakePending p.breakUsb) ∨ s.ready ≠ 0) := by
  have hret : (if (s.addedWakeup && p.wake) && 0 < n + s.wakeReady p then n + s.wakeReady p - 1
      else n + s.wakeReady p) = n := by
    unfold PselectState.wakeReady
    cases s.addedWakeup && p.wake with
    | false => simp
    | true => simp; omega
  unfold pselectRound at hs
  split at hs
  · exact .inl hs.symm
  split at hs
  · exact .inr (.inl ⟨s, hs.symm, .inl rfl⟩)
  rename_i hstop
  unfold pselectAfter at hs
  dsimp only at hs
  rw [hret] at hs
  split at hs
  · exact .inr (.inl ⟨s.retry, hs.symm, .inr (.inl rfl)⟩)
  by_cases hpos : 0 < n
  · rw [if_pos hpos] at hs
    split at hs
    · exact .inr (.inl ⟨_, hs.symm, .inr (.inr rfl)⟩)
    rename_i hmore
    refine .inr (.inr (.inl ⟨hpos, _, rfl, hs.symm, fun h0 => ?_⟩))
    exact Bool.eq_false_of_not_eq_true fun hleft => hmore ⟨hpos, h0, hleft⟩
  obtain rfl : n = 0 := by omega
  rw [if_neg hpos] at hs
  rw [if_neg fun hc => hpos hc.1] at hs
  refine .inr (.inr (.inr ⟨rfl, hs.symm, fun hw => ?_, fun hw hleft => ?_⟩))
  · grind
  by_contra hno
  obtain ⟨hpend, hready⟩ := not_or.mp hno
  exact hstop ⟨by omega, by simp [hpend], by omega, hleft⟩

/-- A pass fails, finds the descriptors that `poll` refuses, or is a round of one of the two
kinds. -/
lemma pselectPass_cases (c : PselectCall) (s : PselectState) (p : PselectPass) :
    (∃ err now, 0 < err ∧ pselectPass c s p = .inr (.error err now)) ∨
    ∃ host, p.host = .ok host ∧ ((s.usePollFallback = false ∧ ∃ n,
        n = hostBits (s.readSet host) + hostBits (s.writeSet host) + hostBits (s.exceptSet host) ∧
        0 ≤ n ∧ pselectPass c s p = pselectRound c s p (s.readSet host) (s.writeSet host)
          (s.exceptSet host) (n + s.wakeReady p)) ∨
      s.usePollFallback ∧ ∃ t, t = (s.evaluated p.select).polled host ∧
        ((t.checked = false ∧ t.reqs.any PselectReq.refuses ∧ pselectPass c s p = .inl t.split) ∨
        ∃ b n, n = (t.reqs.countP fun q => q.revents.Nonempty : ℤ) ∧
          (0 < n → t.reqs.any PselectReq.refuses → t.checked) ∧
          pselectPass c s p = pselectRound c { t with checked := t.checked || b } p (fun _ => false)
            (fun _ => false) (fun _ => false) (n + t.wakeReady p))) := by
  have hfailed : ∀ s err, ∃ e now, 0 < e ∧ p.failed s err = .error e now := by
    intro s err
    unfold PselectPass.failed
    split
    · exact ⟨_, _, by decide, rfl⟩
    · exact ⟨_, _, err.2, rfl⟩
  unfold pselectPass
  cases hfb : s.usePollFallback with
  | false =>
    rw [if_neg Bool.false_ne_true]
    cases hhost : p.host with
    | error err =>
      obtain ⟨e, now, hpos, heq⟩ := hfailed s err
      exact .inl ⟨e, now, hpos, congrArg Sum.inr heq⟩
    | ok host =>
      have hr := hostBits_nonneg (s.readSet host)
      have hw := hostBits_nonneg (s.writeSet host)
      have he := hostBits_nonneg (s.exceptSet host)
      exact .inr ⟨host, rfl, .inl ⟨rfl, _, rfl, by omega, rfl⟩⟩
  | true =>
    rw [if_pos rfl, pselectFallbackPass]
    split
    · exact .inl ⟨_, _, by decide, rfl⟩
    cases hhost : p.host with
    | error err =>
      obtain ⟨e, now, hpos, heq⟩ := hfailed (s.evaluated p.select) err
      exact .inl ⟨e, now, hpos, congrArg Sum.inr heq⟩
    | ok host =>
      refine .inr ⟨host, rfl, .inr ⟨rfl, _, rfl, ?_⟩⟩
      dsimp only
      split
      · rename_i hsplit
        exact .inl ⟨by simpa using hsplit.2.1, hsplit.2.2, rfl⟩
      rename_i hnosplit
      refine .inr ⟨_, _, rfl, fun hpos hany => ?_, rfl⟩
      by_contra hc
      refine hnosplit ⟨?_, by simp [hc], hany⟩
      unfold PselectState.wakeReady
      split <;> omega

lemma discount_plain (h : ∀ q ∈ reqs, q.usbdev = false) (readSet saved : ℤ → Bool) :
    usbDiscountInvisible fb usb reqs readSet saved = (reqs, readSet, saved, 0) := by
  induction reqs with
  | nil => rfl
  | cons q qs ih =>
    grind [usbDiscountInvisible]

section
variable (h : PselectInv c s)
include h

lemma pselectRound_plain (hn : 0 ≤ n) (hs : pselectRound c s p R W E (n + s.wakeReady p) = out) :
    out = .inr (.error linuxEintr p.now) ∨ out = .inl s ∨ out = .inl s.retry ∨
      out = .inr (c.writeback s R W E p.writeUsb n p.afterUsb) := by
  have hdisc : s.discount p.discountUsb R = (s.reqs, R, s.savedRead, 0) :=
    discount_plain (fun q hq => (h.fits q hq).plain) R s.savedRead
  have hsame : s.discounted p.discountUsb R = s := by
    unfold PselectState.discounted
    rw [show usbDiscountInvisible _ _ _ _ _ = _ from hdisc]
  obtain ho | ⟨t, ho, rfl | rfl | rfl⟩ | ⟨-, m, rfl, ho, -⟩ | ⟨rfl, ho, -⟩ :=
    pselectRound_cases hn hs
  · exact .inl ho
  · exact .inr (.inl ho)
  · exact .inr (.inr (.inl ho))
  · rw [hsame] at ho
    exact .inr (.inr (.inl ho))
  · rw [hsame, hdisc, Int.sub_zero] at ho
    exact .inr (.inr (.inr ho))
  · exact .inr (.inr (.inr ho))

lemma pselectRound_inv (hu : s.Unsplit) (hn : 0 ≤ n)
    (hs : pselectRound c s p R W E (n + s.wakeReady p) = .inl s') :
    PselectInv c s' ∧ s'.Unsplit := by
  obtain hs | hs | hs | hs := pselectRound_plain h hn hs
  · cases hs
  · cases hs
    exact ⟨h, hu⟩
  · cases hs
    exact ⟨h.retry, hu.retry⟩
  · cases hs

lemma pselectPass_inv (hu : s.Unsplit) (hs : pselectPass c s p = .inl s') :
    PselectInv c s' ∧ s'.Unsplit := by
  obtain ⟨_, _, -, hp⟩ | ⟨host, -, ⟨-, n, -, hn, hp⟩ | ⟨-, t, rfl, ht⟩⟩ := pselectPass_cases c s p
  · rw [hp] at hs
    cases hs
  · rw [hp] at hs
    exact pselectRound_inv h hu hn hs
  have he := (h.evaluated p.select).polled host
  have hue := (hu.evaluated p.select).polled host
  obtain ⟨hc, -, hp⟩ | ⟨b, n, hn, -, hp⟩ := ht
  · rw [hp] at hs
    cases hs
    exact ⟨he.split (hue hc), nofun⟩
  rw [hp] at hs
  refine pselectRound_inv (he.withChecked _) (fun hc => ?_) (by omega) hs
  exact hue (Bool.or_eq_false_iff.mp hc).1

lemma pselectPass_native (hfb : s.usePollFallback = false) (hs : pselectPass c s p = .inr res)
    (hret : 0 ≤ res.ret) : ∃ host, p.host = .ok host ∧
      res = c.writeback s (s.readSet host) (s.writeSet host) (s.exceptSet host) p.writeUsb
        (hostBits (s.readSet host) + hostBits (s.writeSet host) + hostBits (s.exceptSet host))
        p.afterUsb := by
  obtain ⟨err, now, hpos, hp⟩ | ⟨host, hhost, ⟨-, n, rfl, hn, hp⟩ | ⟨hfb', -⟩⟩ :=
    pselectPass_cases c s p
  · have hneg := error_neg hpos now
    grind
  · refine ⟨host, hhost, ?_⟩
    rw [hp] at hs
    obtain hs | hs | hs | hs := pselectRound_plain h hn hs
    · have hneg := error_neg (show 0 < linuxEintr by decide) p.now
      grind
    · cases hs
    · cases hs
    · exact Sum.inr.inj hs
  · rw [hfb] at hfb'
    cases hfb'

lemma pselectPass_fallback (hfb : s.usePollFallback) (hs : pselectPass c s p = .inr res)
    (hret : 0 ≤ res.ret) :
    ∃ host b n, p.host = .ok host ∧ 0 ≤ n ∧ ((s.evaluated p.select).reqs = [] → n = 0) ∧
      res = c.writeback { (s.evaluated p.select).polled host with checked := b } (fun _ => false)
        (fun _ => false) (fun _ => false) p.writeUsb n p.afterUsb := by
  obtain ⟨err, now, hpos, hp⟩ | ⟨host, hhost,
      ⟨hfb', -⟩ | ⟨-, t, rfl, ⟨-, -, hp⟩ | ⟨b, n, hn, -, hp⟩⟩⟩ :=
    pselectPass_cases c s p
  · have hneg := error_neg hpos now
    grind
  · rw [hfb] at hfb'
    cases hfb'
  · rw [hp] at hs
    cases hs
  rw [hp] at hs
  have he := ((h.evaluated p.select).polled host).withChecked
    (((s.evaluated p.select).polled host).checked || b)
  obtain hs | hs | hs | hs := pselectRound_plain he (by omega) hs
  · have hneg := error_neg (show 0 < linuxEintr by decide) p.now
    grind
  · cases hs
  · cases hs
  refine ⟨host, _, n, hhost, by omega, fun hnil => ?_, Sum.inr.inj hs⟩
  rw [hn, PselectState.polled, hnil]
  rfl

end

/-! ### What should be answered -/

/-- A descriptor with these bits counts as readable: it is, or has hung up, or is in error. -/
def maskReadable (m : PollMask) : Bool := (m ∩ {.pollin, .pollhup, .pollerr}).Nonempty

def maskWritable (m : PollMask) : Bool := (m ∩ {.pollout, .pollerr}).Nonempty

def maskExceptional (m : PollMask) : Bool := .pollpri ∈ m

/-- The descriptor is in the set that `poll` refused and `select` answers for. -/
def PselectState.isRefused (s : PselectState) (i : ℕ) : Bool :=
  s.reqs.any fun q => q.index = i && 0 ≤ q.unp.fd

/-- What the host says about the descriptor in a pass. `select` cannot be asked about a refused one
that has no bit in a host set. -/
def PselectState.report (c : PselectCall) (s : PselectState) (p : PselectPass) (i : ℕ) : PollMask :=
  match p.host with
  | .error _ => ∅
  | .ok host =>
    if s.usePollFallback = false then host.bits (c.hostFd i)
    else if s.isRefused i then
      if (c.hostFd i : ℤ) < fdSetsize then (p.select.map fun r => r.bits (c.hostFd i)).getD ∅ else ∅
    else if host.refused (c.hostFd i) then ∅
    else host.bits (c.hostFd i)

def guestBits (b : ℕ → Bool) : ℤ := ((range 1024).filter fun i => b i = true).card

/-- The sets hold what was asked for and is ready, and the count is theirs. -/
structure PselectAnswers (c : PselectCall) (s : PselectState) (p : PselectPass)
    (res : PselectResult) : Prop where
  read : ∀ i, res.readfds i = true ↔
    (i : ℤ) < c.nfds ∧ c.readfds.bit i = true ∧ maskReadable (s.report c p i) = true
  write : ∀ i, res.writefds i = true ↔
    (i : ℤ) < c.nfds ∧ c.writefds.bit i = true ∧ maskWritable (s.report c p i) = true
  except : ∀ i, res.exceptfds i = true ↔
    (i : ℤ) < c.nfds ∧ c.exceptfds.bit i = true ∧ maskExceptional (s.report c p i) = true
  count : res.ret = guestBits res.readfds + guestBits res.writefds + guestBits res.exceptfds

/-- When that is so. A host descriptor that stands for two guest descriptors is ready in no set that
one of them is in; a descriptor that `poll` reports to be hung up or in error is in both the first
and the second set, as far as they are given, and a hung up one that is to be written is writable;
and no descriptor that `poll` refuses and `select` cannot take is to be read or written. -/
structure PselectFair (c : PselectCall) (s : PselectState) (p : PselectPass) : Prop where
  native : s.usePollFallback = false → ∀ i j, c.asks i = true → c.asks j = true → i ≠ j →
    c.hostFd i = c.hostFd j →
      (c.readfds.bit j = true → maskReadable (s.report c p j) = false) ∧
      (c.writefds.bit j = true → maskWritable (s.report c p j) = false) ∧
      (c.exceptfds.bit j = true → maskExceptional (s.report c p j) = false)
  polled : s.usePollFallback = true → ∀ i, c.asks i = true → s.isRefused i = false →
    (.pollhup ∈ s.report c p i ∨ .pollerr ∈ s.report c p i →
      (c.readfds.given = true → c.readfds.bit i = true) ∧
      (c.writefds.given = true → c.writefds.bit i = true)) ∧
    (.pollhup ∈ s.report c p i → c.writefds.bit i = true →
      .pollout ∈ s.report c p i ∨ .pollerr ∈ s.report c p i)
  refused : s.usePollFallback = true → ∀ i, c.asks i = true → s.isRefused i = true →
    fdSetsize ≤ c.hostFd i → c.readfds.bit i = false ∧ c.writefds.bit i = false

/-! ### The three sets -/

inductive SelectSet where
  | read
  | write
  | except

def PselectCall.set (c : PselectCall) : SelectSet → UserArg (ℕ → Bool)
  | .read => c.readfds
  | .write => c.writefds
  | .except => c.exceptfds

def PselectState.saved (s : PselectState) : SelectSet → ℤ → Bool
  | .read => s.savedRead
  | .write => s.savedWrite
  | .except => s.savedExcept

def PselectState.hostSet (s : PselectState) (r : HostReady) : SelectSet → ℤ → Bool
  | .read => s.readSet r
  | .write => s.writeSet r
  | .except => s.exceptSet r

def PselectResult.set (res : PselectResult) : SelectSet → ℕ → Bool
  | .read => res.readfds
  | .write => res.writefds
  | .except => res.exceptfds

def SelectBits.get (b : SelectBits) : SelectSet → Bool
  | .read => b.r
  | .write => b.w
  | .except => b.e

/-- A descriptor with these bits belongs in the set. -/
def SelectSet.ready : SelectSet → PollMask → Bool
  | .read => maskReadable
  | .write => maskWritable
  | .except => maskExceptional

variable {k : SelectSet} {host : HostReady} {A B : Finset ℕ}

lemma PselectInv.saved (h : PselectInv c s) (k : SelectSet) (x : ℤ) : s.saved k x ↔
    inFdSet x ∧ ∃ i, c.asks i ∧ (c.hostFd i : ℤ) = x ∧ (c.set k).bit i := by
  cases k with
  | read => exact h.read x
  | write => exact h.write x
  | except => exact h.except x

lemma hostSet_eq (s : PselectState) (r : HostReady) (k : SelectSet) (x : ℤ) :
    s.hostSet r k x = (s.saved k x && k.ready (r.bits x)) := by
  cases k <;> rfl

lemma asks_of_bit (hi : (i : ℤ) < c.nfds) (hb : (c.set k).bit i) : c.asks i := by
  simp only [PselectCall.asks, PselectCall.requested, Bool.and_eq_true, Bool.or_eq_true,
    decide_eq_true_eq]
  cases k with
  | read => exact ⟨.inl (.inl hb), hi⟩
  | write => exact ⟨.inl (.inr hb), hi⟩
  | except => exact ⟨.inr hb, hi⟩

lemma asks_lt (hi : c.asks i) : (i : ℤ) < c.nfds :=
  of_decide_eq_true (Bool.and_eq_true_iff.mp hi).2

lemma UserArg.given_of_bit {a : UserArg (ℕ → Bool)} (h : a.bit i) : a.given := by
  cases a with
  | val b => rfl
  | null => cases h
  | fault => cases h

lemma pselectAnswers_iff : PselectAnswers c s p res ↔ (∀ k i, res.set k i ↔
      (i : ℤ) < c.nfds ∧ (c.set k).bit i ∧ k.ready (s.report c p i)) ∧ res.ret =
      guestBits (res.set .read) + guestBits (res.set .write) + guestBits (res.set .except) := by
  constructor
  · intro h
    refine ⟨fun k => ?_, h.count⟩
    cases k with
    | read => exact h.read
    | write => exact h.write
    | except => exact h.except
  · exact fun h => ⟨h.1 .read, h.1 .write, h.1 .except, h.2⟩

lemma writeback_ok (hres : res = c.writeback s R W E usb n now) (hret : 0 ≤ res.ret) :
    (∀ k i, res.set k i ↔ ∃ q ∈ s.reqs, q.index = i ∧
      (c.reqBits s.usePollFallback R W E usb q).get k) ∧
    res.ret = if !(c.readfds.given || c.writefds.given || c.exceptfds.given) then n
      else if s.usePollFallback then
        (s.reqs.map fun q => (c.reqBits s.usePollFallback R W E usb q).count).sum
      else n + (s.reqs.map fun q =>
        if q.usbdev then (c.reqBits s.usePollFallback R W E usb q).count -
          (q.pipeReady false R).toNat else 0).sum := by
  unfold PselectCall.writeback at hres
  dsimp only at hres
  split at hres
  · have hneg := error_neg (show 0 < linuxEfault by decide) now
    rw [hres] at hret
    omega
  subst hres
  refine ⟨fun k i => ?_, rfl⟩
  cases k <;>
    simp only [PselectResult.set, SelectBits.get, List.any_eq_true, Bool.and_eq_true,
      decide_eq_true_eq]

/-! ### The native path -/

lemma card_image_le_sharing (f : ℕ → ℕ) (hBA : B ⊆ A) :
    (B.image f).card ≤ (A.filter fun i => f i ∈ B.image f).card := by
  refine Nat.le_trans (Finset.card_image_le (s := B)) (Finset.card_le_card ?_)
  grind

/-- They are `B` itself, and as many as there are images, when no member of `A` shares its image
with another one in `B`. -/
lemma sharing_eq_iff (f : ℕ → ℕ) (hBA : B ⊆ A) : ((A.filter fun i => f i ∈ B.image f) = B ∧
      (B.image f).card = (A.filter fun i => f i ∈ B.image f).card) ↔
    ∀ i ∈ A, ∀ j ∈ B, i ≠ j → f i ≠ f j := by
  constructor
  · rintro ⟨heq, hcard⟩ i hi j hj hne hf
    rw [heq] at hcard
    have hinj := Finset.card_image_iff.mp hcard
    have hiB : i ∈ B := by
      grind
    exact hne (hinj hiB hj hf)
  intro h
  have heq : (A.filter fun i => f i ∈ B.image f) = B := by
    ext i
    rw [mem_filter]
    grind
  refine ⟨heq, ?_⟩
  rw [heq]
  refine Finset.card_image_of_injOn ?_
  intro i hi j hj hf
  grind

/-- The descriptors asked about, and those asked about in a set and ready. -/
def PselectCall.askedFds (c : PselectCall) : Finset ℕ := (range 1024).filter fun i => c.asks i =
    true

def PselectCall.readyFds (c : PselectCall) (set : UserArg (ℕ → Bool)) (ready : ℤ → Bool) :
    Finset ℕ :=
  c.askedFds.filter fun i => set.bit i = true ∧ ready (c.hostFd i) = true

section
variable (h : PselectInv c s)
include h

lemma PselectInv.mem_askedFds : i ∈ c.askedFds ↔ c.asks i := by
  rw [PselectCall.askedFds, mem_filter, mem_range]
  exact ⟨fun hi => hi.2, fun hi => ⟨h.lt hi, hi⟩⟩

lemma PselectInv.mem_readyFds {ready : ℤ → Bool} : i ∈ c.readyFds (c.set k) ready ↔
      (i : ℤ) < c.nfds ∧ (c.set k).bit i ∧ ready (c.hostFd i) := by
  rw [PselectCall.readyFds, mem_filter, h.mem_askedFds]
  exact ⟨fun hi => ⟨asks_lt hi.1, hi.2⟩, fun hi => ⟨asks_of_bit hi.1 hi.2.1, hi.2⟩⟩

lemma hostSet_iff (hfb : s.usePollFallback = false) (k : SelectSet) (host : HostReady) (x : ℕ) :
    s.hostSet host k x ↔
      x ∈ (c.readyFds (c.set k) fun x => k.ready (host.bits x)).image c.hostFd := by
  rw [hostSet_eq, Bool.and_eq_true, h.saved, mem_image]
  constructor
  · rintro ⟨⟨-, i, hi, hh, hb⟩, hr⟩
    exact ⟨i, h.mem_readyFds.mpr ⟨asks_lt hi, hb, hh ▸ hr⟩, by exact_mod_cast hh⟩
  rintro ⟨i, hi, rfl⟩
  obtain ⟨hlt, hb, hr⟩ := h.mem_readyFds.mp hi
  have hask := asks_of_bit hlt hb
  exact ⟨⟨h.native hfb i hask, i, hask, rfl, hb⟩, hr⟩

/-- One set of the result of the native path: it has at least the bits that the host counts, and it
is as asked when no host descriptor is shared. -/
lemma native_set_iff (hfb : s.usePollFallback = false) (k : SelectSet) (host : HostReady)
    {out : ℕ → Bool} (hout : ∀ i, out i ↔ c.asks i ∧ s.hostSet host k (c.hostFd i)) :
    hostBits (s.hostSet host k) ≤ guestBits out ∧
    ((∀ i, out i ↔ (i : ℤ) < c.nfds ∧ (c.set k).bit i ∧ k.ready (host.bits (c.hostFd i))) ∧
      hostBits (s.hostSet host k) = guestBits out ↔
    ∀ i j, c.asks i → c.asks j → i ≠ j → c.hostFd i = c.hostFd j →
      (c.set k).bit j → k.ready (host.bits (c.hostFd j)) = false) := by
  have hmem := hostSet_iff h hfb k host
  generalize hB : (c.readyFds (c.set k) fun x => k.ready (host.bits x)) = B at hmem
  have hready : ∀ i, i ∈ B ↔ _ := fun i => hB ▸ h.mem_readyFds
  have hsub : B ⊆ c.askedFds := hB ▸ filter_subset _ _
  have hany : ∀ i, out i ↔ i ∈ c.askedFds.filter fun i => c.hostFd i ∈ B.image c.hostFd := by
    intro i
    rw [hout, hmem, mem_filter, h.mem_askedFds]
  have hcount : hostBits (s.hostSet host k) = (B.image c.hostFd).card := by
    refine congrArg (fun A => (Finset.card A : ℤ)) (Finset.ext fun x => ?_)
    rw [mem_filter, mem_range, hmem]
    refine ⟨fun hx => hx.2, fun hx => ⟨?_, hx⟩⟩
    obtain ⟨i, hi, rfl⟩ := mem_image.mp hx
    have hin := h.native hfb i (h.mem_askedFds.mp (hsub hi))
    rw [inFdSet, Bool.and_eq_true, decide_eq_true_eq, decide_eq_true_eq] at hin
    omega
  have hguest : guestBits out =
      (c.askedFds.filter fun i => c.hostFd i ∈ B.image c.hostFd).card := by
    refine congrArg (fun A => (Finset.card A : ℤ)) (Finset.ext fun i => ?_)
    rw [mem_filter, hany, mem_range]
    refine ⟨fun hi => hi.2, fun hi => ⟨?_, hi⟩⟩
    exact h.lt (h.mem_askedFds.mp (mem_filter.mp hi).1)
  rw [hcount, hguest]
  refine ⟨by exact_mod_cast card_image_le_sharing c.hostFd hsub, ?_⟩
  have hiff := sharing_eq_iff c.hostFd hsub
  constructor
  · rintro ⟨heq, hcard⟩ i j hi hj hne hh hb
    refine Bool.eq_false_of_not_eq_true fun hr => ?_
    refine hiff.mp ⟨?_, by exact_mod_cast hcard⟩ i (h.mem_askedFds.mpr hi) j ?_ hne hh
    · ext i
      rw [← hany, heq, hready]
    · exact (hready j).mpr ⟨asks_lt hj, hb, hr⟩
  intro hc
  obtain ⟨heq, hcard⟩ := hiff.mpr (by
    intro i hi j hj hne hh
    obtain ⟨hlt, hb, hr⟩ := (hready j).mp hj
    rw [hc i j (h.mem_askedFds.mp hi) (asks_of_bit hlt hb) hne hh hb] at hr
    cases hr)
  refine ⟨fun i => ?_, by exact_mod_cast hcard⟩
  rw [hany, heq, hready]

end

lemma sum_plain (h : ∀ q ∈ reqs, q.usbdev = false) (f : PselectReq → ℤ) :
    (reqs.map fun q => if q.usbdev then f q else 0).sum = 0 := by
  refine List.sum_eq_zero ?_
  grind

lemma native_bits (hplain : q.usbdev = false) (k : SelectSet) :
    (c.reqBits false (s.readSet host) (s.writeSet host) (s.exceptSet host) usb q).get k =
      ((c.set k).given && inFdSet q.hostFd && s.hostSet host k q.hostFd) := by
  rw [PselectCall.reqBits, hplain]
  cases k <;> rfl

lemma native_iff (h : PselectInv c s) (hfb : s.usePollFallback = false)
    (hs : pselectPass c s p = .inr res) (hret : 0 ≤ res.ret) :
    PselectAnswers c s p res ↔ PselectFair c s p := by
  obtain ⟨host, hhost, hres⟩ := pselectPass_native h hfb hs hret
  have hreport : ∀ i, s.report c p i = host.bits (c.hostFd i) := by
    grind [PselectState.report]
  have hplain : ∀ q ∈ s.reqs, q.usbdev = false := fun q hq => (h.fits q hq).plain
  obtain ⟨hsets, hsum⟩ := writeback_ok hres hret
  rw [hfb] at hsets hsum
  rw [if_neg Bool.false_ne_true, sum_plain hplain, Int.add_zero, ite_self] at hsum
  have hout : ∀ k i, res.set k i ↔ c.asks i ∧ s.hostSet host k (c.hostFd i) := by
    intro k i
    rw [hsets]
    constructor
    · rintro ⟨q, hq, rfl, hb⟩
      rw [native_bits (hplain q hq), Bool.and_eq_true, (h.fits q hq).host] at hb
      exact ⟨(h.fits q hq).asked, hb.2⟩
    rintro ⟨hi, ho⟩
    obtain ⟨q, hq, rfl⟩ := h.mem_index hi
    refine ⟨q, hq, rfl, ?_⟩
    rw [native_bits (hplain q hq), (h.fits q hq).host, ho, h.native hfb _ hi]
    rw [hostSet_eq, Bool.and_eq_true, h.saved] at ho
    obtain ⟨-, j, -, -, hj⟩ := ho.1
    rw [UserArg.given_of_bit hj]
    rfl
  have hset := fun k => native_set_iff h hfb k host (hout k)
  rw [pselectAnswers_iff, hsum]
  simp only [hreport]
  constructor
  · rintro ⟨hall, hcount⟩
    -- each set has at most as many host bits as guest bits, so none has fewer
    have hr := (hset .read).1
    have hw := (hset .write).1
    have he := (hset .except).1
    replace hcount : hostBits (s.hostSet host .read) + hostBits (s.hostSet host .write) +
      hostBits (s.hostSet host .except) = _ := hcount
    have hfair := fun k => (hset k).2.mp ⟨hall k, by cases k <;> omega⟩
    refine ⟨fun _ i j hi hj hne hh => ?_, fun hc => ?_, fun hc => ?_⟩
    · rw [hreport]
      exact ⟨hfair .read i j hi hj hne hh, hfair .write i j hi hj hne hh,
        hfair .except i j hi hj hne hh⟩
    · rw [hfb] at hc
      cases hc
    · rw [hfb] at hc
      cases hc
  · intro hfair
    have hall := fun k => (hset k).2.mpr (by
      intro i j hi hj hne hh
      have hone := hfair.native hfb i j hi hj hne hh
      rw [hreport] at hone
      cases k with
      | read => exact hone.1
      | write => exact hone.2.1
      | except => exact hone.2.2)
    refine ⟨fun k => (hall k).1, ?_⟩
    rw [← (hall .read).2, ← (hall .write).2, ← (hall .except).2]
    rfl

/-! ### The fallback -/

/-- The members of a guest set, counted by request. -/
lemma guestBits_eq (hnodup : (reqs.map PselectReq.index).Nodup)
    (hlt : ∀ q ∈ reqs, q.index < 1024) {b : PselectReq → Bool} {f : ℕ → Bool}
    (hf : ∀ i, f i ↔ ∃ q ∈ reqs, q.index = i ∧ b q) :
    guestBits f = (reqs.map fun q => ((b q).toNat : ℤ)).sum := by
  have heq : ((range 1024).filter fun i => f i) =
      ((reqs.filter b).map PselectReq.index).toFinset := by
    ext i
    rw [mem_filter, mem_range, hf, List.mem_toFinset, List.mem_map]
    constructor
    · rintro ⟨-, q, hq, hi, hb⟩
      exact ⟨q, List.mem_filter.mpr ⟨hq, hb⟩, hi⟩
    rintro ⟨q, hq, rfl⟩
    obtain ⟨hq, hb⟩ := List.mem_filter.mp hq
    exact ⟨hlt q hq, q, hq, rfl, hb⟩
  have hsum : ∀ l : List PselectReq,
      (l.map fun q => ((b q).toNat : ℤ)).sum = (l.filter b).length := by
    intro l
    induction l with
    | nil => rfl
    | cons q l ih =>
      rw [List.map_cons, List.sum_cons, ih]
      cases hb : b q with
      | false => simp [hb]
      | true => simp [hb, Int.add_comm]
  rw [guestBits, heq, List.toFinset_card_of_nodup (hnodup.sublist (List.filter_sublist.map _)),
    List.length_map, hsum]

lemma inter_pair_nonempty (m : PollMask) (a b : PollFlag) :
    (m ∩ {a, b}).Nonempty ↔ a ∈ m ∨ b ∈ m := by
  constructor
  · grind
  rintro (h | h)
  · exact ⟨a, by simp [h]⟩
  · exact ⟨b, by simp [h]⟩

lemma inter_triple_nonempty (m : PollMask) (a b d : PollFlag) :
    (m ∩ {a, b, d}).Nonempty ↔ a ∈ m ∨ b ∈ m ∨ d ∈ m := by
  constructor
  · grind
  rintro (h | h | h)
  · exact ⟨a, by simp [h]⟩
  · exact ⟨b, by simp [h]⟩
  · exact ⟨d, by simp [h]⟩

variable {m : PollMask} {f : PollFlag}

lemma mem_ite_empty [Decidable P] : f ∈ (if P then m else ∅) ↔ P ∧ f ∈ m := by
  grind

lemma maskReadable_iff (m : PollMask) :
    maskReadable m ↔ .pollin ∈ m ∨ .pollhup ∈ m ∨ .pollerr ∈ m := by
  rw [maskReadable, decide_eq_true_eq, inter_triple_nonempty]

lemma maskWritable_iff (m : PollMask) : maskWritable m ↔ .pollout ∈ m ∨ .pollerr ∈ m := by
  rw [maskWritable, decide_eq_true_eq, inter_pair_nonempty]

lemma mem_armEvents (husb : c.usbdev i = false) :
    f ∈ (c.arm i h).events ↔ f = .pollin ∧ c.readfds.bit i ∨
      f = .pollout ∧ c.writefds.bit i ∨ f = .pollpri ∧ c.exceptfds.bit i := by
  simp only [PselectCall.arm, husb, Bool.false_eq_true, if_false, mem_union]
  grind

def PselectState.finalReq (s : PselectState) (p : PselectPass) (host : HostReady) (q : PselectReq) :
    PselectReq :=
  (if 0 < s.refused then { q with unp := q.unp.eval p.select } else q).polled host

lemma evaluated_reqs (s : PselectState) (p : PselectPass) (host : HostReady) :
    ((s.evaluated p.select).polled host).reqs = s.reqs.map (s.finalReq p host) := by
  unfold PselectState.evaluated PselectState.polled PselectState.finalReq
  split
  · rw [List.map_map]
    rfl
  · rfl

lemma finalReq_same (s : PselectState) (p : PselectPass) (host : HostReady) (q : PselectReq) :
    (s.finalReq p host q).index = q.index ∧ (s.finalReq p host q).usbdev = q.usbdev := by
  unfold PselectState.finalReq
  split <;> exact ⟨rfl, rfl⟩

def PselectState.answer (s : PselectState) (p : PselectPass) (host : HostReady) (q : PselectReq) :
    PollMask :=
  if 0 ≤ (s.finalReq p host q).unp.fd then (s.finalReq p host q).unp.revents
  else (s.finalReq p host q).revents

lemma PselectInv.isRefused_iff (h : PselectInv c s) (hq : q ∈ s.reqs) :
    s.isRefused q.index ↔ 0 ≤ q.unp.fd := by
  rw [PselectState.isRefused, List.any_eq_true]
  constructor
  · rintro ⟨a, ha, hc⟩
    rw [Bool.and_eq_true, decide_eq_true_eq, decide_eq_true_eq] at hc
    rw [← h.index_inj ha hq hc.1]
    exact hc.2
  grind

section Answer

variable (h : PselectInv c s) (hq : q ∈ s.reqs) (hplain : c.usbdev q.index = false)
include h hq

lemma answer_refused (p : PselectPass) (host : HostReady) (hfd : 0 ≤ q.unp.fd) :
    s.answer p host q = (q.unp.eval p.select).revents ∧ q.unp.fd = c.hostFd q.index ∧
      q.unp.events = (c.arm q.index (c.hostFd q.index)).events := by
  have hfits := h.fits q hq
  obtain hneg | ⟨hhost, hevents⟩ := hfits.unp
  · omega
  refine ⟨?_, hhost.trans hfits.host, hevents.trans hfits.events⟩
  unfold PselectState.answer PselectState.finalReq
  rw [if_pos (h.refused ⟨q, hq, hfd⟩)]
  refine if_pos ?_
  show 0 ≤ (q.unp.eval p.select).fd
  rw [(q.unp.eval_fd p.select).1]
  exact hfd

include hplain

lemma answer_select (hfd : 0 ≤ q.unp.fd) (hlt : (c.hostFd q.index : ℤ) < fdSetsize)
    (hm : m = (p.select.map fun r => r.bits (c.hostFd q.index)).getD ∅) (f : PollFlag) :
    f ∈ s.answer p host q ↔ f = .pollin ∧ c.readfds.bit q.index ∧ maskReadable m ∨
      f = .pollout ∧ c.writefds.bit q.index ∧ maskWritable m ∨
      f = .pollpri ∧ c.exceptfds.bit q.index ∧ maskExceptional m := by
  obtain ⟨hans, hu, hevents⟩ := answer_refused h hq p host hfd
  have hev : ∀ f, f ∈ q.unp.events ↔ _ := fun f => hevents ▸ mem_armEvents hplain
  rw [hans, Unpollable.eval_select hfd (by omega)]
  cases hsel : p.select with
  | none =>
    grind [maskReadable, maskWritable, maskExceptional]
  | some r =>
    have hm' : m = r.bits (c.hostFd q.index) := by
      rw [hm, hsel]
      rfl
    dsimp only
    rw [hu, show r.readable (c.hostFd q.index) = maskReadable m by rw [hm']; rfl,
      show r.writable (c.hostFd q.index) = maskWritable m by rw [hm']; rfl,
      show r.exceptional (c.hostFd q.index) = maskExceptional m by rw [hm']; rfl]
    simp only [pollReadEvents, pollWriteEvents, mem_union, mem_ite_empty, inter_pair_nonempty,
      mem_inter, mem_insert, mem_singleton, hev, reduceCtorEq, false_and, true_and, false_or,
          or_false]
    grind

lemma answer_beyond (hfd : 0 ≤ q.unp.fd) (hge : fdSetsize ≤ c.hostFd q.index) (f : PollFlag) :
    f ∈ s.answer p host q ↔ f = .pollin ∧ c.readfds.bit q.index ∨
      f = .pollout ∧ c.writefds.bit q.index := by
  obtain ⟨hans, hu, hevents⟩ := answer_refused h hq p host hfd
  rw [hans, Unpollable.eval_beyond (by omega)]
  rw [hevents, mem_inter, mem_armEvents hplain]
  cases f <;> simp [pollReadEvents, pollWriteEvents]

lemma answer_poll (hfd : q.unp.fd < 0)
    (hm : m = if host.refused (c.hostFd q.index) then ∅ else host.bits (c.hostFd q.index))
    (hf : f ≠ .pollnval) : f ∈ s.answer p host q ↔ f ∈ m ∧
      (f = .pollin ∧ c.readfds.bit q.index ∨ f = .pollout ∧ c.writefds.bit q.index ∨
        f = .pollpri ∧ c.exceptfds.bit q.index ∨ f = .pollerr ∨ f = .pollhup) := by
  have hfits := h.fits q hq
  obtain ⟨u, hu, hfin⟩ : ∃ u : Unpollable, u.fd < 0 ∧
      s.finalReq p host q = ({ q with unp := u } : PselectReq).polled host := by
    unfold PselectState.finalReq
    split
    · exact ⟨_, by rw [(q.unp.eval_fd p.select).1]; exact hfd, rfl⟩
    · exact ⟨q.unp, hfd, rfl⟩
  unfold PselectState.answer
  rw [hfin]
  show f ∈ (if 0 ≤ u.fd then u.revents
    else host.poll (if 0 ≤ u.fd ∨ q.disarmed = true then -1 else q.hostFd) q.events) ↔ _
  rw [if_neg (by omega), hfits.armed, if_neg (by simp; omega), hfits.host, HostReady.poll,
    if_neg (by omega), hfits.events]
  split
  · grind
  rename_i hyes
  rw [hm, if_neg hyes, mem_inter, mem_union, mem_armEvents hplain, mem_insert, mem_singleton]
  tauto

end Answer

/-- The bits of one descriptor are right exactly when it is fairly reported. -/
lemma fallback_req_iff (hplain : c.Plain) (h : PselectInv c s) (hfb : s.usePollFallback)
    (hhost : p.host = .ok host) (hq : q ∈ s.reqs) :
    (∀ k, (c.reqBits true R W E usb (s.finalReq p host q)).get k ↔
      (c.set k).bit q.index ∧ k.ready (s.report c p q.index)) ↔ (s.isRefused q.index = false →
      (.pollhup ∈ s.report c p q.index ∨ .pollerr ∈ s.report c p q.index →
        (c.readfds.given → c.readfds.bit q.index) ∧ (c.writefds.given → c.writefds.bit q.index)) ∧
      (.pollhup ∈ s.report c p q.index → c.writefds.bit q.index →
        .pollout ∈ s.report c p q.index ∨ .pollerr ∈ s.report c p q.index)) ∧
    (s.isRefused q.index → fdSetsize ≤ c.hostFd q.index →
      c.readfds.bit q.index = false ∧ c.writefds.bit q.index = false) := by
  have hpl := (hplain q.index (h.fits q hq).asked).2
  have hgr : c.readfds.bit q.index → c.readfds.given := UserArg.given_of_bit
  have hgw : c.writefds.bit q.index → c.writefds.given := UserArg.given_of_bit
  have hge : c.exceptfds.bit q.index → c.exceptfds.given := UserArg.given_of_bit
  have hmem := h.isRefused_iff hq
  have hall : ∀ P : SelectSet → Prop, (∀ k, P k) ↔ P .read ∧ P .write ∧ P .except :=
    fun P => ⟨fun hP => ⟨hP _, hP _, hP _⟩, fun hP k => by cases k <;> tauto⟩
  rw [hall, PselectCall.reqBits, (finalReq_same s p host q).2, (h.fits q hq).plain,
    if_neg Bool.false_ne_true, if_pos rfl, ← PselectState.answer]
  simp only [SelectBits.get, SelectSet.ready, PselectCall.set, maskReadable_iff, maskWritable_iff,
    maskExceptional, Bool.and_eq_true, decide_eq_true_eq, inter_triple_nonempty]
  unfold PselectState.report
  rw [hhost, hfb]
  dsimp only
  rw [if_neg (by decide : ¬ true = false)]
  by_cases hfd : 0 ≤ q.unp.fd
  · rw [hmem.mpr hfd, if_pos rfl]
    by_cases hlt : (c.hostFd q.index : ℤ) < fdSetsize
    · -- `select` answers
      rw [if_pos hlt]
      generalize hm : (p.select.map fun r => r.bits (c.hostFd q.index)).getD ∅ = m
      have hans : ∀ f, f ∈ s.answer p host q ↔ _ := answer_select h hq hpl hfd hlt hm.symm
      simp only [hans, maskReadable_iff, maskWritable_iff, maskExceptional, decide_eq_true_eq,
        reduceCtorEq, false_and, true_and, false_or, or_false]
      grind
    · rw [if_neg hlt]
      have hge' : fdSetsize ≤ (c.hostFd q.index : ℤ) := by omega
      have hans : ∀ f, f ∈ s.answer p host q ↔ _ := answer_beyond h hq hpl hfd hge'
      grind
  · rw [Bool.eq_false_of_not_eq_true fun hc => hfd (hmem.mp hc), if_neg Bool.false_ne_true]
    generalize hm : (if host.refused (c.hostFd q.index) = true then (∅ : PollMask)
      else host.bits (c.hostFd q.index)) = m
    have hans : ∀ {f : PollFlag}, f ≠ .pollnval → _ :=
      fun {f} hf => answer_poll (p := p) h hq hpl (by omega) hm.symm hf
    simp only [hans (by decide : PollFlag.pollin ≠ .pollnval),
      hans (by decide : PollFlag.pollout ≠ .pollnval),
          hans (by decide : PollFlag.pollpri ≠ .pollnval),
      hans (by decide : PollFlag.pollhup ≠ .pollnval),
          hans (by decide : PollFlag.pollerr ≠ .pollnval),
      reduceCtorEq, false_and, true_and, false_or, or_false, or_true, and_true]
    grind

lemma set_iff (h : PselectInv c s) {K : ℕ → Prop} {g : PselectReq → Prop} :
    (∀ i : ℕ, (∃ q ∈ s.reqs, q.index = i ∧ g q) ↔ (i : ℤ) < c.nfds ∧ (c.set k).bit i ∧ K i) ↔
    ∀ q ∈ s.reqs, g q ↔ (c.set k).bit q.index ∧ K q.index := by
  constructor
  · intro hall q hq
    constructor
    · grind
    intro hok
    obtain ⟨a, ha, hidx, hg⟩ := (hall q.index).mpr ⟨asks_lt (h.fits q hq).asked, hok⟩
    rw [h.index_inj ha hq hidx] at hg
    exact hg
  intro hall i
  constructor
  · rintro ⟨q, hq, rfl, hg⟩
    exact ⟨asks_lt (h.fits q hq).asked, (hall q hq).mp hg⟩
  rintro ⟨hi, hb, hok⟩
  obtain ⟨q, hq, rfl⟩ := h.mem_index (asks_of_bit hi hb)
  exact ⟨q, hq, rfl, (hall q hq).mpr ⟨hb, hok⟩⟩

lemma reqs_nil (hasked : ∀ q ∈ reqs, c.asks q.index)
    (hnone : (c.readfds.given || c.writefds.given || c.exceptfds.given) = false) : reqs = [] := by
  refine List.eq_nil_iff_forall_not_mem.mpr fun q hq => ?_
  have hi := hasked q hq
  simp only [PselectCall.asks, PselectCall.requested, Bool.and_eq_true, Bool.or_eq_true] at hi
  grind [UserArg.given_of_bit]

lemma fallback_iff (hplain : c.Plain) (h : PselectInv c s) (hfb : s.usePollFallback)
    (hs : pselectPass c s p = .inr res) (hret : 0 ≤ res.ret) :
    PselectAnswers c s p res ↔ PselectFair c s p := by
  obtain ⟨host, b, n, hhost, hn, hnil, hres⟩ := pselectPass_fallback h hfb hs hret
  have ht := ((h.evaluated p.select).polled host).withChecked b
  generalize htt : ({ (s.evaluated p.select).polled host with checked := b } : PselectState) = t
    at hres ht
  have hreqs : t.reqs = s.reqs.map (s.finalReq p host) := by
    rw [← htt]
    exact evaluated_reqs s p host
  have htfb : t.usePollFallback := by
    rw [← htt, ← hfb]
    exact (evaluated_same s p.select).1
  obtain ⟨hsets, hsum⟩ := writeback_ok hres hret
  rw [htfb] at hsets hsum
  rw [if_pos rfl] at hsum
  have hcount : res.ret =
      guestBits (res.set .read) + guestBits (res.set .write) + guestBits (res.set .except) := by
    have hbits := fun k => guestBits_eq ht.nodup (fun q hq => ht.lt (ht.fits q hq).asked) (hsets k)
    rw [hsum, hbits, hbits, hbits]
    split
    · rename_i hnone
      have hempty := reqs_nil (fun q hq => (ht.fits q hq).asked) (by simpa using hnone)
      rw [← htt] at hempty
      rw [hnil (List.map_eq_nil_iff.mp hempty), ← htt, hempty]
      rfl
    · simp [SelectBits.count, SelectBits.get]
  have hreq : PselectAnswers c s p res ↔ ∀ k, ∀ q ∈ s.reqs,
      (c.reqBits true (fun _ => false) (fun _ => false) (fun _ => false) p.writeUsb
        (s.finalReq p host q)).get k ↔
      (c.set k).bit q.index ∧ k.ready (s.report c p q.index) := by
    rw [pselectAnswers_iff, and_iff_left hcount]
    refine forall_congr' fun k => Iff.trans (forall_congr' fun i => ?_)
      (set_iff h (K := fun i => k.ready (s.report c p i)))
    simp only [hsets, hreqs, List.mem_map, exists_exists_and_eq_and, (finalReq_same s p host _).1]
  rw [hreq]
  constructor
  · intro hall
    have hone := fun q hq => (fallback_req_iff hplain h hfb hhost hq).mp fun k => hall k q hq
    refine ⟨fun hc => ?_, fun _ i hi => ?_, fun _ i hi => ?_⟩
    · rw [hfb] at hc
      cases hc
    · obtain ⟨q, hq, rfl⟩ := h.mem_index hi
      exact (hone q hq).1
    · obtain ⟨q, hq, rfl⟩ := h.mem_index hi
      exact (hone q hq).2
  · intro hfair k q hq
    exact (fallback_req_iff hplain h hfb hhost hq).mpr
      ⟨hfair.polled hfb q.index (h.fits q hq).asked, hfair.refused hfb q.index (h.fits q hq).asked⟩
          k

/-! ### Whole calls -/

def pselectNext (c : PselectCall) (s : PselectState ⊕ PselectResult) (p : PselectPass) :
    Option (PselectState ⊕ PselectResult) :=
  match s with
  | .inl s => some (pselectPass c s p)
  | .inr _ => none

lemma pselectNext_inv (hplain : c.Plain)
    (hrun : exec (pselectNext c) (pselectStart c) ps = some (.inl s)) :
    PselectInv c s ∧ s.Unsplit := by
  refine exec_keeps (P := fun x => ∀ s, x = .inl s → PselectInv c s ∧ s.Unsplit) ?_ ?_ hrun s rfl
  · intro x p y hx hnext s' hy
    subst hy
    cases x with
    | inl s =>
      obtain ⟨hinv, hu⟩ := hx s rfl
      exact pselectPass_inv hinv hu (Option.some.inj hnext)
    | inr res => cases hnext
  intro s hs
  obtain ⟨_, -, hc⟩ | ⟨hc, -⟩ | ⟨words, d, z, hwords, hc, -⟩ := pselectStart_cases c
  · rw [hc] at hs
    cases hs
  · rw [hc] at hs
    cases hs
  rw [hc] at hs
  cases hs
  exact PselectInv.fresh hplain hwords

/-- Every call over open descriptors that returns successfully: one that returns before the first
pass asks for nothing, and one that a pass ends answers what was asked exactly when the descriptors
were fairly reported to it. -/
theorem pselect_answers_iff (c : PselectCall) (hplain : c.Plain) :
    (∀ res, pselectStart c = .inr res → 0 ≤ res.ret →
      res = .plain 0 c.start ∧ ∀ i, c.asks i = false) ∧
    ∀ ps s p res, exec (pselectNext c) (pselectStart c) ps = some (.inl s) →
      pselectPass c s p = .inr res → 0 ≤ res.ret →
      (PselectAnswers c s p res ↔ PselectFair c s p) := by
  constructor
  · intro res hs hret
    obtain ⟨err, hpos, hc⟩ | ⟨hc, hnone, -⟩ | ⟨_, _, _, -, hc, -⟩ := pselectStart_cases c
    · have hneg := error_neg hpos c.start
      rw [hc] at hs
      cases hs
      omega
    · rw [hc] at hs
      cases hs
      exact ⟨rfl, hnone⟩
    · rw [hc] at hs
      cases hs
  · intro ps s p res hrun hpass hret
    obtain ⟨hinv, -⟩ := pselectNext_inv hplain hrun
    cases hfb : s.usePollFallback with
    | false => exact native_iff hinv hfb hpass hret
    | true => exact fallback_iff hplain hinv hfb hpass hret

def sampleCall (readfds writefds : ℕ → Bool) (host : ℕ → ℕ) : PselectCall :=
  { nfds := 7, readfds := .val readfds, writefds := .val writefds, exceptfds := .null
    timeout := .null, sigmask := .null, ref := fun i => .ok (host i), usbdev := fun _ => false
    wakeFd := 4, alloc := true, readOut := true, writeOut := true, exceptOut := true, start := 0 }

lemma sampleCall_plain (readfds writefds : ℕ → Bool) (host : ℕ → ℕ) :
    (sampleCall readfds writefds host).Plain := fun i _ => ⟨⟨host i, rfl⟩, rfl⟩

def samplePass (host : HostReady) : PselectPass :=
  let usb : ℕ → UsbState := fun _ => ⟨false, false, false⟩
  { select := none, host := .ok host, wake := false, alloc := true
    interrupts := ⟨false, false, false⟩, breakUsb := usb, discountUsb := usb, writeUsb := usb
    now := 1, afterWake := 1, afterUsb := 1 }

lemma ends_of_elim {f : PselectResult → Bool}
    (h : Sum.elim (fun s => Sum.elim (fun _ => false) f (pselectPass c s p)) (fun _ => false)
      (pselectStart c) = true) :
    ∃ s res, pselectStart c = .inl s ∧ pselectPass c s p = .inr res ∧ f res = true := by
  cases hs : pselectStart c with
  | inr res =>
    rw [hs] at h
    cases h
  | inl s =>
    rw [hs, Sum.elim_inl] at h
    cases hp : pselectPass c s p with
    | inl s' =>
      rw [hp] at h
      cases h
    | inr res =>
      grind

/-- Two descriptors are waited for whose host descriptors are beyond `FD_SETSIZE`, and one of them
becomes readable. -/
theorem pselect_answers_iff_readable :
    let c := sampleCall (fun i => i = 5 || i = 6) (fun _ => false) fun i => i + 1024
    let p := samplePass ⟨fun h => if h = 1029 then {.pollin} else ∅, fun _ => false⟩
    ∃ s res, pselectStart c = .inl s ∧ pselectPass c s p = .inr res ∧ res.ret = 1 ∧
      PselectFair c s p ∧ PselectAnswers c s p res := by
  intro c p
  obtain ⟨s, res, hs, hpass, hret⟩ := ends_of_elim (c := c) (p := p)
    (f := fun res => decide (res.ret = 1)) (by decide +kernel)
  replace hret : res.ret = 1 := of_decide_eq_true hret
  have hpolled : s.usePollFallback = true ∧ s.reqs.all (fun q => decide (q.unp.fd < 0)) = true := by
    have hstart : Sum.elim (fun s : PselectState => s.usePollFallback &&
        s.reqs.all fun q => decide (q.unp.fd < 0)) (fun _ => false) (pselectStart c) = true := by
      decide +kernel
    rw [hs] at hstart
    exact Bool.and_eq_true_iff.mp hstart
  have hrefused : ∀ i, s.isRefused i = false := by
    intro i
    refine List.any_eq_false.mpr fun q hq => ?_
    have hneg := of_decide_eq_true (List.all_eq_true.mp hpolled.2 q hq)
    simp only [Bool.and_eq_true, decide_eq_true_eq, not_and, not_le]
    exact fun _ => hneg
  have hreport : ∀ i, s.report c p i = if (c.hostFd i : ℤ) = 1029 then {.pollin} else ∅ := by
    intro i
    have hhost : p.host = .ok ⟨fun h => if h = 1029 then {.pollin} else ∅, fun _ => false⟩ := rfl
    simp only [PselectState.report, hhost, hrefused, hpolled.1, Bool.true_eq_false,
      Bool.false_eq_true, if_false]
  have hfair : PselectFair c s p := by
    refine ⟨fun hno => ?_, fun _ i _ _ => ?_, fun _ i _ href => ?_⟩
    · rw [hpolled.1] at hno
      cases hno
    · rw [hreport]
      split <;> simp
    · rw [hrefused] at href
      cases href
  exact ⟨s, res, hs, hpass, hret, hfair, ((pselect_answers_iff c (sampleCall_plain _ _ _)).2 [] s p
    res (congrArg some hs) hpass (by omega)).mpr hfair⟩

/-- A descriptor that is to be written hangs up: it is reported to be readable, which nobody
asked. -/
theorem pselect_reports_unasked :
    let c := sampleCall (fun i => i = 6) (fun i => i = 5) fun i => if i = 5 then 1030 else i
    let p := samplePass ⟨fun h => if h = 1030 then {.pollhup} else ∅, fun _ => false⟩
    c.Plain ∧ ∃ s res, pselectStart c = .inl s ∧ pselectPass c s p = .inr res ∧ 0 ≤ res.ret ∧
      res.readfds 5 = true ∧ c.readfds.bit 5 = false ∧ ¬ PselectAnswers c s p res := by
  intro c p
  obtain ⟨s, res, hs, hpass, hres⟩ := ends_of_elim (c := c) (p := p)
    (f := fun res => decide (0 ≤ res.ret) && res.readfds 5) (by decide +kernel)
  obtain ⟨hret, hread⟩ := Bool.and_eq_true_iff.mp hres
  have hbit : c.readfds.bit 5 = false := rfl
  refine ⟨sampleCall_plain _ _ _, s, res, hs, hpass, of_decide_eq_true hret, hread, hbit, ?_⟩
  intro hans
  have hasked := ((hans.read 5).mp hread).2.1
  rw [hbit] at hasked
  cases hasked

end Elfuse
