/-
Waiting for descriptors with `ppoll` (`syscall/poll.c`).

The host's `poll` is asked in slices. It answers for descriptors the guest did
not name (the wakeup pipe), for completion pipes that mean something else to
the guest, and refuses descriptors that `select` has to answer for, so what it
counts is corrected before the call decides whether it has waited long enough.
A pass is one round of the loop with what follows it; the host, the clock and
the sibling threads answer as they like in each pass.

* `ppollPass` — one pass, which ends the call or leads to another;
* `ppollFinish_count` — the count that is returned is that of the entries with
  an answer;
* `ppollPass_zero` — a pass that ends the call with 0 ends it at the deadline.
-/
import Elfuse.Core.Layout
import Elfuse.Lib.Runs
import Mathlib.Algebra.Order.Ring.Int
import Mathlib.Data.Finset.Basic

namespace Elfuse

open List Function

/-! ### Masks and times -/

inductive PollFlag
  | pollin | pollpri | pollout | pollerr | pollhup | pollnval | pollrdnorm | pollwrband
  deriving DecidableEq, Repr

abbrev PollMask := Finset PollFlag

def pollWriteEvents : PollMask := {.pollout, .pollwrband}

def pollReadEvents : PollMask := {.pollin, .pollrdnorm}

/-- An error number of the host, translated to the guest's. -/
abbrev HostErrno := { err : ℤ // 0 < err }

/-- An argument that points into guest memory. -/
inductive UserArg (α : Type)
  | null
  | fault
  | val (a : α)
  deriving DecidableEq, Repr

structure Timespec where
  sec : ℤ
  nsec : ℤ
  deriving DecidableEq, Repr

/-- Model of `linux_timespec_valid`. -/
def Timespec.valid (ts : Timespec) : Bool :=
  0 ≤ ts.sec && 0 ≤ ts.nsec && ts.nsec < 1000000000

def int32Max : ℤ := 2147483647

def int64Max : ℤ := 9223372036854775807

def Timespec.toNsSat (ts : Timespec) : ℤ :=
  if ts.sec < 0 ∨ ts.nsec < 0 then 0
  else if int64Max / 1000000000 < ts.sec then int64Max
  else if int64Max - 1000000000 * ts.sec < ts.nsec then int64Max
  else 1000000000 * ts.sec + ts.nsec

def Timespec.toPollMs (ts : Timespec) : ℤ :=
  let ns := ts.toNsSat
  let ms := if ns % 1000000 ≠ 0 then ns / 1000000 + 1 else ns / 1000000
  if int32Max < ms then int32Max else ms

def Timespec.ms (ts : Timespec) : ℤ := (1000000000 * ts.sec + ts.nsec + 999999) / 1000000

def pollWakeSliceMs : ℤ := 200

/-- Model of `poll_slice_ms`, at the time `now`. -/
def pollSliceMs (deadlineMs now : ℤ) : ℤ :=
  if deadlineMs < 0 then pollWakeSliceMs
  else if deadlineMs - now ≤ 0 then 0
  else if deadlineMs - now < pollWakeSliceMs then deadlineMs - now
  else pollWakeSliceMs

/-- `deadline_ms < 0 || poll_slice_ms(deadline_ms) > 0`: there is time left. -/
def timeLeft (deadlineMs now : ℤ) : Bool :=
  deadlineMs < 0 || 0 < pollSliceMs deadlineMs now

/-! ### The host -/

structure HostReady where
  bits : ℤ → PollMask
  /-- The host's `poll` does not take the descriptor. -/
  refused : ℤ → Bool

/-- The answer of the host's `poll` for one entry; a negative descriptor is skipped. -/
def HostReady.poll (r : HostReady) (fd : ℤ) (events : PollMask) : PollMask :=
  if fd < 0 then ∅
  else if r.refused fd then {.pollnval}
  else (events ∪ {.pollerr, .pollhup}) ∩ r.bits fd

def HostReady.readable (r : HostReady) (fd : ℤ) : Bool :=
  (r.bits fd ∩ {.pollin, .pollhup, .pollerr}).Nonempty

def HostReady.writable (r : HostReady) (fd : ℤ) : Bool :=
  (r.bits fd ∩ {.pollout, .pollerr}).Nonempty

def HostReady.exceptional (r : HostReady) (fd : ℤ) : Bool :=
  .pollpri ∈ r.bits fd

def fdSetsize : ℤ := 1024

/-- Model of `poll_unpollable_t`. -/
structure Unpollable where
  fd : ℤ
  events : PollMask
  revents : PollMask

def Unpollable.unused : Unpollable := ⟨-1, ∅, ∅⟩

/-- Model of `poll_eval_unpollable` on one entry; the argument is `none` when `select` fails. -/
def Unpollable.eval (sel : Option HostReady) (u : Unpollable) : Unpollable :=
  if u.fd < 0 then { u with revents := ∅ }
  else if fdSetsize ≤ u.fd then
    { u with revents := u.events ∩ (pollReadEvents ∪ pollWriteEvents) }
  else match sel with
    | none => { u with revents := ∅ }
    | some r =>
      { u with revents :=
          (if (u.events ∩ pollReadEvents).Nonempty ∧ r.readable u.fd
            then u.events ∩ pollReadEvents else ∅) ∪
          (if (u.events ∩ pollWriteEvents).Nonempty ∧ r.writable u.fd
            then u.events ∩ pollWriteEvents else ∅) ∪
          if .pollpri ∈ u.events ∧ r.exceptional u.fd then {.pollpri} else ∅ }

variable {u : Unpollable} {f : PollEntry → ℤ → PollEntry × ℤ} {g : PollEntry → PollEntry}

lemma Unpollable.eval_beyond (h : fdSetsize ≤ u.fd) (sel : Option HostReady) :
    u.eval sel = { u with revents := u.events ∩ (pollReadEvents ∪ pollWriteEvents) } := by
  have hneg : ¬ u.fd < 0 := by
    unfold fdSetsize at h
    omega
  unfold Unpollable.eval
  rw [if_neg hneg, if_pos h]

lemma Unpollable.eval_select (hpos : 0 ≤ u.fd) (hlt : u.fd < fdSetsize) (sel : Option HostReady) :
    u.eval sel = match sel with
      | none => { u with revents := ∅ }
      | some r =>
        { u with revents :=
            (if (u.events ∩ pollReadEvents).Nonempty ∧ r.readable u.fd
              then u.events ∩ pollReadEvents else ∅) ∪
            (if (u.events ∩ pollWriteEvents).Nonempty ∧ r.writable u.fd
              then u.events ∩ pollWriteEvents else ∅) ∪
            if .pollpri ∈ u.events ∧ r.exceptional u.fd then {.pollpri} else ∅ } := by
  grind [Unpollable.eval]

lemma Unpollable.eval_fd (u : Unpollable) (sel : Option HostReady) :
    (u.eval sel).fd = u.fd ∧ (u.eval sel).events = u.events := by
  unfold Unpollable.eval
  grind

/-- An entry of the refused set that `select` reports ready. -/
def Unpollable.ready (u : Unpollable) : Bool := 0 ≤ u.fd && u.revents.Nonempty

/-- What the usbfs maps say about a guest descriptor; `writable` is its access mode. -/
structure UsbState where
  disconnected : Bool
  reapable : Bool
  writable : Bool

def usbdevPollGuestRevents (u : UsbState) (guestEvents hostRevents : PollMask) : PollMask :=
  ((if u.disconnected then {.pollerr, .pollhup} else ∅) ∪
    if u.writable && .pollin ∈ hostRevents && u.reapable then {.pollout, .pollwrband} else ∅) ∩
  (guestEvents ∪ {.pollerr, .pollhup, .pollnval})

/-- What can end a wait from outside, in the order it is looked at: a stop of the thread, an
interrupt of the futex layer, and a signal this thread claims. -/
structure Interrupts where
  stop : Bool
  futex : Bool
  claim : Bool

def pollWaitInterrupted (i : Interrupts) (events : Bool) : Bool :=
  if i.stop || events then i.stop else i.futex || i.claim

/-- How a wait ends: what it returns, and the last time its clock was read. -/
structure WaitResult where
  ret : ℤ
  now : ℤ
  deriving DecidableEq, Repr

/-! ### The entries of a call -/

/-- A member of the guest's array, with what its descriptor is resolved to. -/
structure PollTarget where
  fd : ℤ
  events : PollMask
  revents : PollMask
  /-- `host_fd_ref_open_io_gen`: the host descriptor and the generation of the slot. -/
  ref : Except HostErrno (ℕ × ℕ)
  usbdev : Bool

/-- The arrays of `ppoll_set_t`, at one index. -/
structure PollEntry where
  fd : ℤ
  events : PollMask
  guestRevents : PollMask
  hostFd : ℤ
  hostEvents : PollMask
  revents : PollMask
  ref : ℤ
  needPollnval : Bool
  usbdevRemap : Bool
  gen : ℕ
  unpollable : Unpollable
  usbDisarmed : Bool
  usbPipeFired : Bool

/-- Model of one round of `ppoll_resolve_fds`. -/
def PollTarget.resolve (a : PollTarget) : Except HostErrno PollEntry :=
  let entry (hostFd : ℤ) (gen : ℕ) (nval : Bool) : PollEntry :=
    { fd := a.fd, events := a.events, guestRevents := a.revents, hostFd := hostFd
      hostEvents := if 0 ≤ hostFd ∧ a.usbdev then {.pollin} else a.events
      revents := ∅, ref := hostFd, needPollnval := nval
      usbdevRemap := 0 ≤ hostFd && a.usbdev, gen := gen, unpollable := .unused
      usbDisarmed := false, usbPipeFired := false }
  if a.fd < 0 then .ok (entry (-1) 0 false)
  else match a.ref with
    | .ok (h, gen) => .ok (entry h gen false)
    | .error err => if err.1 = linuxEnomem then .error err else .ok (entry (-1) 0 true)

def ppollResolveFds (targets : List PollTarget) : Except HostErrno (List PollEntry) :=
  targets.mapM PollTarget.resolve

structure PpollCall where
  /-- The array, unless it cannot be read. -/
  fds : Option (List PollTarget)
  timeout : UserArg Timespec
  sigmask : UserArg Unit
  wakeup : Bool
  /-- The array can be written back. -/
  writeback : Bool
  /-- The time when the deadline is fixed. -/
  start : ℤ

structure PpollState where
  entries : List PollEntry
  invalidCount : ℤ
  unpollableCount : ℤ
  unpollableReady : ℤ
  unpollableChecked : Bool
  addedWakeup : Bool
  timeoutMs : ℤ
  deadlineMs : ℤ

/-- What the rest of the world answers during one pass. -/
structure PpollPass where
  /-- `select` over the refused descriptors, unless it fails. -/
  select : Option HostReady
  /-- `poll`, unless it fails with this error. -/
  poll : Except HostErrno HostReady
  /-- `poll` finds the wakeup pipe readable. -/
  wake : Bool
  interrupts : Interrupts
  /-- Pty masters that have hung up, by descriptor and generation, and the usbfs maps, each time
  they are looked at. -/
  breakHung : ℤ → ℕ → Bool
  breakUsb : ℤ → UsbState
  stampHung : ℤ → ℕ → Bool
  remapUsb : ℤ → UsbState
  disarmUsb : ℤ → UsbState
  /-- The clock at the end of the round, and before another one. -/
  now : ℤ
  later : ℤ

/-! ### One pass -/

def PollEntry.answered (e : PollEntry) : Bool := e.revents.Nonempty

/-- The loop of `poll_eval_unpollable` over the entries. -/
def PollEntry.evalUnpollable (sel : Option HostReady) (e : PollEntry) : PollEntry :=
  { e with unpollable := e.unpollable.eval sel }

def PollEntry.polled (r : HostReady) (e : PollEntry) : PollEntry :=
  { e with revents := r.poll e.hostFd e.hostEvents }

def PollEntry.refuses (e : PollEntry) : Bool := !e.needPollnval && .pollnval ∈ e.revents

/-- Model of one round of `ppoll_split_unpollable`. -/
def PollEntry.split (e : PollEntry) : PollEntry :=
  if e.refuses then
    { e with unpollable := { e.unpollable with fd := e.ref, events := e.hostEvents }, hostFd := -1 }
  else e

/-- Model of `ppoll_break_pending` on one entry. -/
def PollEntry.breakPending (hung : ℤ → ℕ → Bool) (usb : ℤ → UsbState) (e : PollEntry) : Bool :=
  !e.needPollnval && 0 ≤ e.fd &&
    (hung e.fd e.gen ||
      e.usbDisarmed && (usbdevPollGuestRevents (usb e.fd) e.events {.pollin}).Nonempty)

/-- Model of `ppoll_restamp_unseen` on one entry. -/
def PollEntry.restamp (invalidCount unpollableCount : ℤ) (e : PollEntry) : PollEntry :=
  let e := if 0 < invalidCount ∧ e.needPollnval then { e with revents := {.pollnval} } else e
  if 0 < unpollableCount ∧ 0 ≤ e.unpollable.fd then { e with revents := e.unpollable.revents }
  else e

/-- Model of one round of `ppoll_stamp_pty_hangups`. -/
def PollEntry.stampHangup (hung : ℤ → ℕ → Bool) (e : PollEntry) (ret : ℤ) : PollEntry × ℤ :=
  if !e.needPollnval && 0 ≤ e.fd && hung e.fd e.gen then
    ({ e with revents := e.revents ∪ {.pollhup} }, if e.revents = ∅ then ret + 1 else ret)
  else (e, ret)

/-- Model of one round of `ppoll_remap_usb`. -/
def PollEntry.remapUsb (usb : ℤ → UsbState) (e : PollEntry) (ret : ℤ) : PollEntry × ℤ :=
  if e.usbdevRemap && !e.needPollnval then
    let probe := if e.usbDisarmed then e.revents ∪ {.pollin} else e.revents
    let after := usbdevPollGuestRevents (usb e.fd) e.events probe
    ({ e with usbPipeFired := !e.usbDisarmed && .pollin ∈ e.revents, revents := after },
      if e.revents ≠ ∅ ∧ after = ∅ ∧ 0 < ret then ret - 1
      else if e.revents = ∅ ∧ after ≠ ∅ then ret + 1 else ret)
  else (e, ret)

/-- Model of one round of `ppoll_disarm_usb`. -/
def PollEntry.disarmUsb (usb : ℤ → UsbState) (e : PollEntry) : PollEntry :=
  if e.usbdevRemap && !e.usbDisarmed && !e.needPollnval && 0 ≤ e.hostFd && e.usbPipeFired &&
      usbdevPollGuestRevents (usb e.fd) e.events {.pollin} = ∅ then
    { e with usbDisarmed := true, hostFd := -1 }
  else e

/-- A loop over the entries that corrects the count as it goes. -/
def updateEntries (f : PollEntry → ℤ → PollEntry × ℤ) :
    List PollEntry → ℤ → List PollEntry × ℤ
  | [], ret => ([], ret)
  | e :: es, ret =>
    let (e', ret') := f e ret
    let (es', ret'') := updateEntries f es ret'
    (e' :: es', ret'')

/-- From the end of the loop to the last correction: the entries and the count that are left when
the host's `poll` has returned `ret`. -/
def ppollFinish (s : PpollState) (p : PpollPass) (ret : ℤ) : List PollEntry × ℤ :=
  let entries := s.entries.map (PollEntry.restamp s.invalidCount s.unpollableCount)
  let ret := ret + s.invalidCount + if 0 < s.unpollableCount then s.unpollableReady else 0
  let (entries, ret) := updateEntries (PollEntry.stampHangup p.stampHung) entries ret
  let (entries, ret) := updateEntries (PollEntry.remapUsb p.remapUsb) entries ret
  (entries, if s.addedWakeup && p.wake && 0 < ret then ret - 1 else ret)

/-- Model of `ppoll_writeback` and the return. -/
def ppollReturn (c : PpollCall) (entries : List PollEntry) (ret now : ℤ) : WaitResult :=
  if entries.any (fun e => e.guestRevents ≠ e.revents) && !c.writeback then ⟨-linuxEfault, now⟩
  else ⟨ret, now⟩

def ppollAfter (c : PpollCall) (s : PpollState) (p : PpollPass) (ret : ℤ) :
    PpollState ⊕ WaitResult :=
  let (entries, ret) := ppollFinish s p ret
  if ret = 0 ∧ s.timeoutMs ≠ 0 ∧ timeLeft s.deadlineMs p.later then
    .inl { s with entries := entries.map (PollEntry.disarmUsb p.disarmUsb) }
  else .inr (ppollReturn c entries ret p.later)

/-- The refused entries are asked for again, with `poll_eval_unpollable`. -/
def PpollState.evaluated (s : PpollState) (sel : Option HostReady) : PpollState :=
  if 0 < s.unpollableCount then
    let entries := s.entries.map (PollEntry.evalUnpollable sel)
    { s with entries := entries, unpollableReady := entries.countP fun e => e.unpollable.ready }
  else s

def PpollState.polled (s : PpollState) (r : HostReady) : PpollState :=
  { s with entries := s.entries.map (PollEntry.polled r) }

def PpollState.wakeReady (s : PpollState) (p : PpollPass) : ℤ :=
  if s.addedWakeup && p.wake then 1 else 0

/-- Model of `ppoll_split_unpollable`. -/
def PpollState.split (s : PpollState) : PpollState :=
  { s with
    unpollableChecked := true
    entries := s.entries.map PollEntry.split
    unpollableCount := s.entries.countP PollEntry.refuses }

/-- One round of the loop in `sys_ppoll`, and what follows it. -/
def ppollPass (c : PpollCall) (s : PpollState) (p : PpollPass) : PpollState ⊕ WaitResult :=
  let s := s.evaluated p.select
  match p.poll with
  | .error err =>
    if pollWaitInterrupted p.interrupts (0 < s.unpollableReady || 0 < s.invalidCount) then
      .inr ⟨-linuxEintr, p.now⟩
    else .inr ⟨-err.1, p.now⟩
  | .ok host =>
    let s := s.polled host
    let ret := s.entries.countP PollEntry.answered + s.wakeReady p
    if 0 < ret ∧ !s.unpollableChecked ∧ s.entries.any PollEntry.refuses then .inl s.split
    else
      let s := { s with unpollableChecked := s.unpollableChecked || 0 < ret }
      if pollWaitInterrupted p.interrupts
          (s.wakeReady p < ret || 0 < s.unpollableReady || 0 < s.invalidCount) then
        .inr ⟨-linuxEintr, p.now⟩
      else if ret = 0 ∧ !s.entries.any (PollEntry.breakPending p.breakHung p.breakUsb) ∧
          s.unpollableReady = 0 ∧ s.timeoutMs ≠ 0 ∧ timeLeft s.deadlineMs p.now then .inl s
      else ppollAfter c s p ret

/-- `sys_ppoll` up to its loop. -/
def ppollStart (c : PpollCall) : PpollState ⊕ WaitResult :=
  match c.fds with
  | none => .inr ⟨-linuxEfault, c.start⟩
  | some targets =>
    if 256 < targets.length then .inr ⟨-linuxEinval, c.start⟩
    else match ppollResolveFds targets with
      | .error err => .inr ⟨-err.1, c.start⟩
      | .ok entries =>
        let go (timeoutMs : ℤ) : PpollState ⊕ WaitResult :=
          match c.sigmask with
          | .fault => .inr ⟨-linuxEfault, c.start⟩
          | _ =>
            let invalid := entries.countP PollEntry.needPollnval
            let timeoutMs := if 0 < invalid then 0 else timeoutMs
            .inl { entries := entries, invalidCount := invalid, unpollableCount := 0
                   unpollableReady := 0, unpollableChecked := false
                   addedWakeup := c.wakeup && targets.length < 256
                   timeoutMs := timeoutMs
                   deadlineMs := if 0 < timeoutMs then c.start + timeoutMs else -1 }
        match c.timeout with
        | .null => go (-1)
        | .fault => .inr ⟨-linuxEfault, c.start⟩
        | .val ts => if ts.valid then go ts.toPollMs else .inr ⟨-linuxEinval, c.start⟩

/-! ### The count -/

def PollEntry.share (e : PollEntry) : ℤ := if e.answered then 1 else 0

lemma PollEntry.share_nonneg (e : PollEntry) : 0 ≤ e.share := by
  unfold PollEntry.share
  split <;> decide

lemma countP_answered_cons (e : PollEntry) (es : List PollEntry) :
    ((e :: es).countP PollEntry.answered : ℤ) = e.share + es.countP PollEntry.answered := by
  rw [countP_cons, PollEntry.share]
  split <;> omega

lemma updateEntries_count (hf : ∀ e n, e.share ≤ n → (f e n).2 = n - e.share + (f e n).1.share)
    (es : List PollEntry) (k : ℤ) (hk : 0 ≤ k) :
    (updateEntries f es (k + es.countP PollEntry.answered)).2 =
      k + (updateEntries f es (k + es.countP PollEntry.answered)).1.countP PollEntry.answered := by
  induction es generalizing k with
  | nil => rfl
  | cons e es ih =>
    have hcons := countP_answered_cons e es
    generalize hn : k + ((e :: es).countP PollEntry.answered : ℤ) = n
    have hstep := hf e n (by omega)
    have hshare' := (f e n).1.share_nonneg
    have hnext : (f e n).2 = (k + (f e n).1.share) + es.countP PollEntry.answered := by omega
    have hrest := ih (k + (f e n).1.share) (by omega)
    rw [← hnext] at hrest
    have hcons' := countP_answered_cons (f e n).1 (updateEntries f es (f e n).2).1
    show (updateEntries f es (f e n).2).2 =
      k + (((f e n).1 :: (updateEntries f es (f e n).2).1).countP PollEntry.answered : ℤ)
    omega

lemma updateEntries_fst (hf : ∀ e n, (f e n).1 = g e) (es : List PollEntry) (n : ℤ) :
    (updateEntries f es n).1 = es.map g := by
  induction es generalizing n with
  | nil => rfl
  | cons e es ih =>
    rw [updateEntries]
    dsimp only
    rw [ih, hf, map_cons]

variable {e : PollEntry} {es : List PollEntry} {i : ℤ}

lemma PollEntry.share_eq_zero (h : e.revents = ∅) : e.share = 0 := by
  simp [PollEntry.share, PollEntry.answered, h]

lemma PollEntry.share_eq_one (h : e.revents ≠ ∅) : e.share = 1 := by
  simp [PollEntry.share, PollEntry.answered, Finset.nonempty_iff_ne_empty, h]

lemma PollEntry.stampHangup_count (hung : ℤ → ℕ → Bool) (e : PollEntry) (n : ℤ) :
    (e.stampHangup hung n).2 = n - e.share + (e.stampHangup hung n).1.share := by
  unfold PollEntry.stampHangup
  split
  · have hafter : (e.revents ∪ {.pollhup} : PollMask) ≠ ∅ := by
      intro h
      have hmem : PollFlag.pollhup ∈ e.revents ∪ {.pollhup} :=
        Finset.mem_union_right _ (Finset.mem_singleton_self _)
      rw [h] at hmem
      cases hmem
    rw [PollEntry.share_eq_one (e := { e with revents := e.revents ∪ {.pollhup} }) hafter]
    grind [PollEntry.share_eq_zero, PollEntry.share_eq_one]
  · dsimp only
    omega

lemma PollEntry.remapUsb_count (usb : ℤ → UsbState) (e : PollEntry) (n : ℤ) (hn : e.share ≤ n) :
    (e.remapUsb usb n).2 = n - e.share + (e.remapUsb usb n).1.share := by
  unfold PollEntry.remapUsb
  split
  · generalize usbdevPollGuestRevents _ _ _ = after
    by_cases hb : e.revents = ∅
    · grind [PollEntry.share_eq_zero, PollEntry.share_eq_one]
    grind [PollEntry.share_eq_one, PollEntry.share_eq_zero]
  · dsimp only
    omega

/-- What holds of an entry between passes: `poll` does not see one that is invalid or refused. -/
structure PollEntry.Shape (e : PollEntry) : Prop where
  hidden : e.needPollnval = true ∨ 0 ≤ e.unpollable.fd → e.hostFd < 0
  split : ¬ (e.needPollnval = true ∧ 0 ≤ e.unpollable.fd)

lemma PollEntry.Shape.polled_empty (h : e.Shape) (r : HostReady)
    (hid : e.needPollnval ∨ 0 ≤ e.unpollable.fd) : (e.polled r).revents = ∅ := by
  show r.poll e.hostFd e.hostEvents = ∅
  rw [HostReady.poll, if_pos (h.hidden hid)]

/-- Restamping counts the invalid entries and the refused ones that are ready. -/
lemma restamp_count {u : ℤ} (hs : ∀ e ∈ es, e.Shape)
    (hempty : ∀ e ∈ es, e.needPollnval ∨ 0 ≤ e.unpollable.fd → e.revents = ∅)
    (hi : i = es.countP PollEntry.needPollnval) (k : ℤ)
    (hr : 0 < u → k = es.countP fun e => e.unpollable.ready) :
    ((es.map (PollEntry.restamp i u)).countP PollEntry.answered : ℤ) =
      es.countP PollEntry.answered + i + if 0 < u then k else 0 := by
  have key : ∀ es' : List PollEntry, (∀ e ∈ es', e ∈ es) →
      ((es'.map (PollEntry.restamp i u)).countP PollEntry.answered : ℤ) =
        es'.countP PollEntry.answered + es'.countP PollEntry.needPollnval +
          if 0 < u then (es'.countP fun e => e.unpollable.ready : ℤ) else 0 := by
    intro es' hsub
    induction es' with
    | nil =>
      split <;> rfl
    | cons e es' ih =>
      have hrest := ih fun a ha => hsub a (mem_cons_of_mem e ha)
      have he := hsub e mem_cons_self
      have hsplit := (hs e he).split
      have hnil := hempty e he
      have hinv : e.needPollnval → 0 < i := by
        intro hn
        rw [hi]
        exact_mod_cast countP_pos_iff.mpr ⟨e, he, hn⟩
      rw [map_cons, countP_answered_cons, countP_answered_cons, hrest, countP_cons, countP_cons]
      by_cases hn : e.needPollnval
      · -- an invalid entry gets its mark
        have hfd : ¬ 0 ≤ e.unpollable.fd := fun h => hsplit ⟨hn, h⟩
        have hre : e.restamp i u = { e with revents := {.pollnval} } := by
          simp [PollEntry.restamp, hinv hn, hn, hfd]
        have hready : e.unpollable.ready = false := by simp [Unpollable.ready, hfd]
        rw [hre, PollEntry.share_eq_one (by simp), PollEntry.share_eq_zero (hnil (.inl hn)),
            if_pos hn,
          hready]
        split <;> push_cast <;> simp <;> omega
      have hn : e.needPollnval = false := Bool.eq_false_of_not_eq_true hn
      by_cases hfd : 0 < u ∧ 0 ≤ e.unpollable.fd
      · have hre : e.restamp i u = { e with revents := e.unpollable.revents } := by
          simp [PollEntry.restamp, hn, hfd]
        rw [hre, PollEntry.share_eq_zero (hnil (.inr hfd.2)), hn, if_pos hfd.1, if_pos hfd.1]
        by_cases hrev : e.unpollable.revents = ∅
        · have hready : e.unpollable.ready = false := by simp [Unpollable.ready, hrev]
          rw [PollEntry.share_eq_zero hrev, hready]
          simp
        have hready : e.unpollable.ready := by
          grind [Unpollable.ready]
        rw [PollEntry.share_eq_one hrev, hready]
        simp
        omega
      have hre : e.restamp i u = e := by
        simp only [PollEntry.restamp, hn, Bool.false_eq_true, and_false, ↓reduceIte]
        rw [if_neg hfd]
      rw [hre, hn]
      by_cases hu : 0 < u
      · have hneg : ¬ 0 ≤ e.unpollable.fd := fun h => hfd ⟨hu, h⟩
        have hready : e.unpollable.ready = false := by simp [Unpollable.ready, hneg]
        rw [if_pos hu, if_pos hu, hready]
        simp
        omega
      · rw [if_neg hu, if_neg hu]
        simp
        omega
  rw [key es fun e he => he, ← hi]
  split
  · rename_i hu
    rw [hr hu]
  · rfl

/-! ### The deadline -/

/-- The call asked for no wait, or the clock has reached its deadline. -/
def TimedOut (timeout : UserArg Timespec) (start now : ℤ) : Prop :=
  ∃ ts, timeout = .val ts ∧ (ts.ms = 0 ∨ start + ts.ms ≤ now)

/-- The milliseconds that the call asks to wait fit an `int`. -/
def TimeoutFits (timeout : UserArg Timespec) : Prop :=
  ∀ ts, timeout = .val ts → ts.ms ≤ int32Max

lemma toPollMs_eq {ts : Timespec} (hvalid : ts.valid) (hfits : ts.ms ≤ int32Max) :
    ts.toPollMs = ts.ms := by
  simp only [Timespec.valid, Bool.and_eq_true, decide_eq_true_eq] at hvalid
  unfold Timespec.ms int32Max at hfits
  have hns : ts.toNsSat = 1000000000 * ts.sec + ts.nsec := by
    grind [Timespec.toNsSat, int64Max]
  grind [Timespec.toPollMs, Timespec.ms, int32Max]

lemma timeLeft_eq_false {deadlineMs : ℤ} (h : timeLeft deadlineMs now = false) :
    0 ≤ deadlineMs ∧ deadlineMs ≤ now := by
  unfold timeLeft pollSliceMs pollWakeSliceMs at h
  grind

lemma timeLeft_mono (hab : a ≤ b) (h : timeLeft d b) : timeLeft d a := by
  unfold timeLeft pollSliceMs pollWakeSliceMs at h ⊢
  grind

/-- What holds between the passes of a call. -/
structure PpollInv (c : PpollCall) (s : PpollState) : Prop where
  shape : ∀ e ∈ s.entries, e.Shape
  invalid : s.invalidCount = s.entries.countP PollEntry.needPollnval
  zero : s.timeoutMs = 0 → s.invalidCount = 0 → ∃ ts, c.timeout = .val ts ∧ ts.ms = 0
  deadline : s.timeoutMs ≠ 0 → 0 ≤ s.deadlineMs →
    ∃ ts, c.timeout = .val ts ∧ s.deadlineMs = c.start + ts.ms

variable {c : PpollCall} {s : PpollState}

/-- A change of the entries that leaves alone what they were resolved to. -/
structure PollEntry.Keeps (g : PollEntry → PollEntry) : Prop where
  nval : ∀ e, (g e).needPollnval = e.needPollnval
  shape : ∀ e, e.Shape → (g e).Shape

lemma PpollInv.map (h : PpollInv c s) (hg : PollEntry.Keeps g) :
    PpollInv c { s with entries := s.entries.map g } := by
  refine ⟨forall_mem_map.mpr fun a ha => hg.shape a (h.shape a ha), ?_, h.zero, h.deadline⟩
  rw [h.invalid, countP_map]
  congr 1
  exact countP_congr fun e _ => by rw [comp_apply, hg.nval]

lemma keeps_evalUnpollable (sel : Option HostReady) :
    PollEntry.Keeps (PollEntry.evalUnpollable sel) := by
  refine ⟨fun e => rfl, fun e he => ⟨?_, ?_⟩⟩
  · show e.needPollnval ∨ 0 ≤ (e.unpollable.eval sel).fd → e.hostFd < 0
    rw [(e.unpollable.eval_fd sel).1]
    exact he.hidden
  show ¬ (e.needPollnval ∧ 0 ≤ (e.unpollable.eval sel).fd)
  rw [(e.unpollable.eval_fd sel).1]
  exact he.split

lemma keeps_split : PollEntry.Keeps PollEntry.split := by
  refine ⟨fun e => ?_, fun e he => ?_⟩
  · unfold PollEntry.split
    split <;> rfl
  unfold PollEntry.split
  split
  · rename_i hr
    have hn : e.needPollnval = false := by
      rw [PollEntry.refuses, Bool.and_eq_true, Bool.not_eq_true'] at hr
      exact hr.1
    refine ⟨fun _ => (show (-1 : ℤ) < 0 by decide), fun h => ?_⟩
    grind
  · exact he

lemma keeps_restamp (i u : ℤ) : PollEntry.Keeps (PollEntry.restamp i u) := by
  have hsame : ∀ e : PollEntry, ∃ m, e.restamp i u = { e with revents := m } := by
    intro e
    unfold PollEntry.restamp
    dsimp only
    split <;> split <;> exact ⟨_, rfl⟩
  refine ⟨fun e => ?_, fun e he => ?_⟩
  · obtain ⟨m, hm⟩ := hsame e
    rw [hm]
  obtain ⟨m, hm⟩ := hsame e
  rw [hm]
  exact ⟨he.hidden, he.split⟩

lemma stampHangup_fst (hung : ℤ → ℕ → Bool) (e : PollEntry) (n : ℤ) :
    (e.stampHangup hung n).1 = (e.stampHangup hung 0).1 := by
  unfold PollEntry.stampHangup
  split <;> rfl

lemma remapUsb_fst (usb : ℤ → UsbState) (e : PollEntry) (n : ℤ) :
    (e.remapUsb usb n).1 = (e.remapUsb usb 0).1 := by
  unfold PollEntry.remapUsb
  split <;> rfl

lemma keeps_stampHangup (hung : ℤ → ℕ → Bool) :
    PollEntry.Keeps fun e => (e.stampHangup hung 0).1 := by
  refine ⟨fun e => ?_, fun e he => ?_⟩
  · unfold PollEntry.stampHangup
    split <;> rfl
  unfold PollEntry.stampHangup
  split
  · exact ⟨he.hidden, he.split⟩
  · exact he

lemma keeps_remapUsb (usb : ℤ → UsbState) : PollEntry.Keeps fun e => (e.remapUsb usb 0).1 := by
  refine ⟨fun e => ?_, fun e he => ?_⟩
  · unfold PollEntry.remapUsb
    split <;> rfl
  unfold PollEntry.remapUsb
  split
  · exact ⟨he.hidden, he.split⟩
  · exact he

lemma keeps_disarmUsb (usb : ℤ → UsbState) : PollEntry.Keeps (PollEntry.disarmUsb usb) := by
  refine ⟨fun e => ?_, fun e he => ?_⟩
  · unfold PollEntry.disarmUsb
    split <;> rfl
  unfold PollEntry.disarmUsb
  split
  · exact ⟨fun _ => (show (-1 : ℤ) < 0 by decide), he.split⟩
  · exact he

lemma nval_answered {u : ℤ} {hung : ℤ → ℕ → Bool} {usb : ℤ → UsbState} (he : e.Shape) (hi : 0 < i)
    (hn : e.needPollnval) : (((e.restamp i u).stampHangup hung 0).1.remapUsb usb 0).1.answered := by
  have hfd : ¬ 0 ≤ e.unpollable.fd := fun h => he.split ⟨hn, h⟩
  simp [PollEntry.restamp, hi, hn, hfd, PollEntry.stampHangup, PollEntry.remapUsb,
    PollEntry.answered]

variable {p : PpollPass} {n : ℤ}

/-- What is left at the end of a pass: the entries are those of the pass with their answers
corrected, and the count is that of the answers. -/
lemma ppollFinish_count (hs : ∀ e ∈ s.entries, e.Shape)
    (hi : s.invalidCount = s.entries.countP PollEntry.needPollnval)
    {entries : List PollEntry} (hentries : s.entries = entries.map (PollEntry.polled r))
        (hshape : ∀ e ∈ entries, e.Shape)
    (hready : 0 < s.unpollableCount →
      s.unpollableReady = s.entries.countP fun e => e.unpollable.ready)
    (hw : w = if s.addedWakeup && p.wake then 1 else 0) :
    (ppollFinish s p (s.entries.countP PollEntry.answered + w)).2 =
      (ppollFinish s p (s.entries.countP PollEntry.answered + w)).1.countP PollEntry.answered := by
  have hempty : ∀ e ∈ s.entries, e.needPollnval ∨ 0 ≤ e.unpollable.fd → e.revents = ∅ := by
    intro e he hid
    rw [hentries] at he
    obtain ⟨a, ha, rfl⟩ := mem_map.mp he
    exact (hshape a ha).polled_empty r hid
  have hre := restamp_count hs hempty hi s.unpollableReady hready
  have hwpos : 0 ≤ w := by
    rw [hw]
    split <;> decide
  unfold ppollFinish
  dsimp only
  generalize hes : s.entries.map (PollEntry.restamp s.invalidCount s.unpollableCount) = es at hre ⊢
  have hstart : (s.entries.countP PollEntry.answered : ℤ) + w + s.invalidCount +
      (if 0 < s.unpollableCount then s.unpollableReady else 0) =
      w + es.countP PollEntry.answered := by omega
  rw [hstart]
  have hstamp := updateEntries_count (f := PollEntry.stampHangup p.stampHung)
    (fun e n _ => e.stampHangup_count p.stampHung n) es w hwpos
  rw [hstamp]
  have hremap := updateEntries_count (f := PollEntry.remapUsb p.remapUsb)
    (fun e n hn => e.remapUsb_count p.remapUsb n hn)
    (updateEntries (PollEntry.stampHangup p.stampHung) es (w + es.countP PollEntry.answered)).1
    w hwpos
  rw [hremap]
  generalize countP PollEntry.answered (updateEntries (PollEntry.remapUsb p.remapUsb) _ _).1 = n
  -- the wakeup pipe was counted, and is taken off
  cases hwake : s.addedWakeup && p.wake with
  | false =>
    rw [hwake] at hw
    rw [hw]
    simp
  | true =>
    grind

lemma ppollFinish_entries (s : PpollState) (p : PpollPass) (n : ℤ) :
    (ppollFinish s p n).1 = s.entries.map fun e =>
      (((e.restamp s.invalidCount s.unpollableCount).stampHangup p.stampHung 0).1.remapUsb
        p.remapUsb 0).1 := by
  unfold ppollFinish
  rw [updateEntries_fst (remapUsb_fst p.remapUsb), updateEntries_fst (stampHangup_fst p.stampHung),
    map_map, map_map]
  rfl

lemma ppollFinish_invalid (h : PpollInv c s) (p : PpollPass) (n : ℤ) (hi : s.invalidCount ≠ 0) :
    0 < (ppollFinish s p n).1.countP PollEntry.answered := by
  have hpos : 0 < s.invalidCount := by
    have hinv := h.invalid
    omega
  have hcount : 0 < s.entries.countP PollEntry.needPollnval := by
    have hinv := h.invalid
    omega
  obtain ⟨e, he, hn⟩ := countP_pos_iff.mp hcount
  rw [ppollFinish_entries]
  exact countP_pos_iff.mpr ⟨_, mem_map_of_mem he, nval_answered (h.shape e he) hpos hn⟩

lemma PpollInv.evaluated (h : PpollInv c s) (sel : Option HostReady) :
    PpollInv c (s.evaluated sel) := by
  unfold PpollState.evaluated
  split
  · have hmap := h.map (keeps_evalUnpollable sel)
    exact ⟨hmap.shape, hmap.invalid, hmap.zero, hmap.deadline⟩
  · exact h

lemma PpollInv.ready (s : PpollState) (sel : Option HostReady)
    (hpos : 0 < (s.evaluated sel).unpollableCount) :
    (s.evaluated sel).unpollableReady = (s.evaluated sel).entries.countP fun e =>
      e.unpollable.ready := by
  grind [PpollState.evaluated]

section
variable (h : PpollInv c s)
include h

lemma PpollInv.polled (r : HostReady) : PpollInv c (s.polled r) :=
  h.map ⟨fun _ => rfl, fun _ he => ⟨he.hidden, he.split⟩⟩

lemma PpollInv.split : PpollInv c s.split := by
  have hmap := h.map keeps_split
  exact ⟨hmap.shape, hmap.invalid, hmap.zero, hmap.deadline⟩

lemma PpollInv.checked (b : Bool) : PpollInv c { s with unpollableChecked := b } :=
  ⟨h.shape, h.invalid, h.zero, h.deadline⟩

/-- What follows the loop leads to another pass, or returns 0 at the deadline only. -/
lemma ppollAfter_inv (hs : ppollAfter c s p n = .inl s') : PpollInv c s' := by
  unfold ppollAfter at hs
  dsimp only at hs
  split at hs
  · cases hs
    rw [ppollFinish_entries, map_map]
    refine h.map ⟨fun e => ?_, fun e he => ?_⟩
    · rw [comp_apply, (keeps_disarmUsb p.disarmUsb).nval,
        (keeps_remapUsb p.remapUsb).nval, (keeps_stampHangup p.stampHung).nval,
        (keeps_restamp _ _).nval]
    · exact (keeps_disarmUsb _).shape _ ((keeps_remapUsb _).shape _
        ((keeps_stampHangup _).shape _ ((keeps_restamp _ _).shape e he)))
  · cases hs

lemma ppollAfter_zero
    (hcount : (ppollFinish s p n).2 = (ppollFinish s p n).1.countP PollEntry.answered)
    (hs : ppollAfter c s p n = .inr ⟨0, now⟩) : TimedOut c.timeout c.start now := by
  unfold ppollAfter ppollReturn at hs
  dsimp only at hs
  split at hs
  · cases hs
  split at hs
  · cases hs
  injection hs with hs
  injection hs with hret hnow
  have hvalid : s.invalidCount = 0 := by
    by_contra hi
    have hpos := ppollFinish_invalid h p n hi
    omega
  by_cases hzero : s.timeoutMs = 0
  · obtain ⟨ts, hts, hms⟩ := h.zero hzero hvalid
    exact ⟨ts, hts, .inl hms⟩
  have hleft : timeLeft s.deadlineMs p.later = false := by
    grind
  obtain ⟨hdead, hreached⟩ := timeLeft_eq_false hleft
  obtain ⟨ts, hts, heq⟩ := h.deadline hzero hdead
  exact ⟨ts, hts, .inr (by omega)⟩

lemma ppollPass_inv (hs : ppollPass c s p = .inl s') : PpollInv c s' := by
  have he := h.evaluated p.select
  unfold ppollPass at hs
  dsimp only at hs
  split at hs
  · split at hs
    · cases hs
    · cases hs
  rename_i r _
  split at hs
  · cases hs
    exact (he.polled r).split
  split at hs
  · cases hs
  split at hs
  · cases hs
    exact (he.polled r).checked _
  · exact ppollAfter_inv ((he.polled r).checked _) hs

/-- A pass that ends the call with 0 ends it at the deadline, or the call was not to wait. -/
lemma ppollPass_zero (hs : ppollPass c s p = .inr ⟨0, now⟩) : TimedOut c.timeout c.start now := by
  have he := h.evaluated p.select
  unfold ppollPass at hs
  dsimp only at hs
  split at hs
  · split at hs
    · cases hs
    grind
  rename_i r _
  split at hs
  · cases hs
  split at hs
  · cases hs
  split at hs
  · cases hs
  refine ppollAfter_zero ((he.polled r).checked _) ?_ hs
  refine ppollFinish_count (he.polled r).shape (he.polled r).invalid rfl he.shape ?_ rfl
  intro hpos
  have hready := PpollInv.ready s p.select hpos
  show (s.evaluated p.select).unpollableReady = _
  rw [hready]
  show _ = (((s.evaluated p.select).entries.map (PollEntry.polled r)).countP _ : ℤ)
  rw [countP_map]
  rfl

end

lemma resolve_shape {a : PollTarget} (h : a.resolve = .ok e) : e.Shape := by
  unfold PollTarget.resolve at h
  split at h
  · cases h
    exact ⟨fun _ => (show (-1 : ℤ) < 0 by decide), fun h => (nomatch h.1)⟩
  split at h
  · cases h
    refine ⟨fun h => ?_, fun h => (nomatch h.1)⟩
    obtain h | h := h
    · cases h
    · exact absurd h (show ¬ (0 : ℤ) ≤ -1 by decide)
  split at h
  · cases h
  · cases h
    exact ⟨fun _ => (show (-1 : ℤ) < 0 by decide), fun h =>
        absurd h.2 (show ¬ (0 : ℤ) ≤ -1 by decide)⟩

lemma resolveFds_forall (h : ppollResolveFds targets = .ok es) :
    Forall₂ (fun a e => a.resolve = .ok e) targets es := by
  induction targets generalizing es with
  | nil =>
    cases h
    exact .nil
  | cons a targets ih =>
    rw [ppollResolveFds, mapM_cons] at h
    cases ha : a.resolve with
    | error err =>
      rw [ha] at h
      cases h
    | ok e =>
      cases hrest : ppollResolveFds targets with
      | error err =>
        rw [ppollResolveFds] at hrest
        rw [ha, hrest] at h
        cases h
      | ok es' =>
        have hes := ih hrest
        rw [ppollResolveFds] at hrest
        rw [ha, hrest] at h
        cases h
        exact .cons ha hes

lemma resolveFds_shape (h : ppollResolveFds targets = .ok es) : ∀ e ∈ es, e.Shape := by
  have hall := resolveFds_forall h
  clear h
  induction hall with
  | nil => nofun
  | cons ha _ ih => exact forall_mem_cons.mpr ⟨resolve_shape ha, ih⟩

lemma ppollStart_inv (hfits : TimeoutFits c.timeout) (hs : ppollStart c = .inl s) :
    PpollInv c s := by
  unfold ppollStart at hs
  split at hs
  · cases hs
  split at hs
  · cases hs
  split at hs
  · cases hs
  rename_i entries hres
  have hshape := resolveFds_shape hres
  dsimp only at hs
  split at hs
  · split at hs
    · cases hs
    cases hs
    refine ⟨hshape, rfl, ?_, ?_⟩
    · grind
    grind
  · cases hs
  rename_i ts hts
  split at hs
  · rename_i hvalid
    have hms := toPollMs_eq hvalid (hfits ts hts)
    split at hs
    · cases hs
    cases hs
    refine ⟨hshape, rfl, ?_, ?_⟩
    · grind
    intro hz hd
    split at hz
    · exact absurd rfl hz
    grind
  · cases hs

/-- A call that ends before its first pass fails. -/
lemma ppollStart_neg (hs : ppollStart c = .inr res) : res.ret < 0 := by
  unfold ppollStart at hs
  split at hs
  · cases hs
    show -linuxEfault < 0
    decide
  split at hs
  · cases hs
    show -linuxEinval < 0
    decide
  split at hs
  · grind
  have hmask : ∀ {f : Unit → PpollState}, (match c.sigmask with
      | .fault => (.inr ⟨-linuxEfault, c.start⟩ : PpollState ⊕ WaitResult)
      | _ => .inl (f ())) = .inr res → res.ret < 0 := by
    intro f hs
    split at hs
    · cases hs
      show -linuxEfault < 0
      decide
    · cases hs
  dsimp only at hs
  split at hs
  · exact hmask (f := fun _ => _) hs
  · cases hs
    show -linuxEfault < 0
    decide
  split at hs
  · exact hmask (f := fun _ => _) hs
  cases hs
  show -linuxEinval < 0
  decide

end Elfuse
