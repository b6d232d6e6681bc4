/-
`epoll` over a host `kqueue` (`syscall/poll.c`): registrations and collection.

An instance has a registration per guest descriptor number. `epoll_ctl` keeps
it together with the filters it arms on the host's queue; a wait takes a batch
of events from the queue and merges them by guest descriptor, under the lock of
the instance, into what the guest gets. A queue is modelled by its notes: a note
that is `oneshot` goes with its event, one that is `clear` is spent by it until
the descriptor changes again, any other one stays up as long as its descriptor
is ready.

* `epollCtl` — the changes of an instance;
* `epollCollect` — what a wait makes of a batch, up to the lock's release;
* `stamp_mem`, `stamp_keeps` — what is in the output was there before or comes
  from the items that are merged into it, and nothing is lost.
-/
import Elfuse.Syscall.FdTable
import Elfuse.Syscall.Ppoll
import Mathlib.Data.Finset.Card

namespace Elfuse

open List

/-! ### Event masks -/

def linuxEpollin : BitVec 32 := 0x001
def linuxEpollout : BitVec 32 := 0x004
def linuxEpollerr : BitVec 32 := 0x008
def linuxEpollhup : BitVec 32 := 0x010
def linuxEpollrdnorm : BitVec 32 := 0x040
def linuxEpollwrnorm : BitVec 32 := 0x100
def linuxEpollrdhup : BitVec 32 := 0x2000
def linuxEpolloneshot : BitVec 32 := 0x40000000
def linuxEpollet : BitVec 32 := 0x80000000

def linuxEpollReadable : BitVec 32 := linuxEpollin ||| linuxEpollrdnorm

def linuxEpollWritable : BitVec 32 := linuxEpollout ||| linuxEpollwrnorm

def linuxEnoent : ℤ := 2

def hasAny (events bits : BitVec 32) : Bool := events &&& bits ≠ 0

/-! ### Registrations -/

structure EpollReg where
  events : BitVec 32
  data : ℕ
  generation : ℕ
  ofdId : ℕ
  active : Bool
  oneshotArmed : Bool
  ptyMaster : Bool
  alwaysReadable : Bool
  usbdev : Bool
  deriving DecidableEq, Repr

/-- Model of `epoll_instance_t`. -/
structure EpollInst where
  activeCount : ℕ
  ptyMasterCount : ℕ
  alwaysReadableCount : ℕ
  regs : ℕ → EpollReg

/-- The instance that `epoll_create1` makes. -/
def EpollInst.new : EpollInst := ⟨0, 0, 0, fun _ => ⟨0, 0, 0, 0, false, false, false, false, false⟩⟩

/-- Model of `epoll_reg_deactivate_locked`. -/
def EpollInst.deactivate (inst : EpollInst) (fd : ℕ) : EpollInst :=
  let reg := inst.regs fd
  { activeCount := if reg.active then inst.activeCount - 1 else inst.activeCount
    ptyMasterCount := if reg.ptyMaster then inst.ptyMasterCount - 1 else inst.ptyMasterCount
    alwaysReadableCount :=
      if reg.alwaysReadable then inst.alwaysReadableCount - 1 else inst.alwaysReadableCount
    regs := Function.update inst.regs fd
      { reg with
        active := false, oneshotArmed := false, ptyMaster := false, alwaysReadable := false
        usbdev := false, generation := 0, ofdId := 0 } }

/-- Model of `epoll_reg_live`. -/
def EpollInst.regLive (inst : EpollInst) (gfd gen : ℕ) : Bool :=
  (inst.regs gfd).active && !(inst.regs gfd).oneshotArmed && (inst.regs gfd).generation = gen

/-! ### The host's queue -/

/-- `EVFILT_READ` and `EVFILT_WRITE`. -/
inductive KqFilter
  | read | write
  deriving DecidableEq, Repr

/-- An event that the queue delivers; `gfd` is its `udata`. -/
structure Kevent where
  ident : ℤ
  filter : KqFilter
  gfd : ℕ
  eof : Bool
  error : Bool
  deriving DecidableEq, Repr

structure KqChange where
  ident : ℤ
  filter : KqFilter
  gfd : ℕ
  clear : Bool
  oneshot : Bool
  /-- `NOTE_LOWAT` with `INT_MAX`: only the end of the stream is reported. -/
  eofOnly : Bool
  deriving DecidableEq, Repr

/-- A note of the queue. A `spent` one is delivered again only when its descriptor changes. -/
structure Knote where
  gfd : ℕ
  clear : Bool
  oneshot : Bool
  eofOnly : Bool
  enabled : Bool
  spent : Bool
  deriving DecidableEq, Repr

abbrev Kqueue := ℤ → KqFilter → Option Knote

def Kqueue.set (kq : Kqueue) (ident : ℤ) (filter : KqFilter) (k : Option Knote) : Kqueue :=
  fun i f => if i = ident ∧ f = filter then k else kq i f

/-- `EV_DELETE`; there may be nothing to delete. -/
def Kqueue.delete (kq : Kqueue) (ident : ℤ) (filter : KqFilter) : Kqueue := kq.set ident filter none

/-- `EV_ADD`. -/
def Kqueue.add (kq : Kqueue) (c : KqChange) : Kqueue :=
  kq.set c.ident c.filter (some ⟨c.gfd, c.clear, c.oneshot, c.eofOnly, true, false⟩)

/-- The queue after an event has been taken from it. -/
def Kqueue.dequeue (kq : Kqueue) (e : Kevent) : Kqueue :=
  match kq e.ident e.filter with
  | none => kq
  | some k =>
    if k.oneshot then kq.delete e.ident e.filter
    else if k.clear then kq.set e.ident e.filter (some { k with spent := true })
    else kq

/-! ### `epoll_ctl` -/

inductive ArmAnswer
  | accepted
  /-- `EINVAL`. -/
  | refused
  | failed (err : HostErrno)

/-- What the host answers during a call of `epoll_ctl`. -/
structure EpollHost where
  /-- `epoll_target_pollable`, on the queue of the instance and on a new one. -/
  probe : Bool
  standalone : Bool
  arm : KqFilter → ArmAnswer
  isDir : Bool
  isReg : Bool
  ptyMaster : Bool

def epollTargetSupported (snap : FdEntry) (host : EpollHost) (pollable : Bool) : Bool :=
  if host.isDir then false
  else if snap.pathPollCapable then true
  else if host.isReg then false
  else pollable

def epollEinvalUnlessUnsupported (snap : FdEntry) (host : EpollHost) : ℤ :=
  if epollTargetSupported snap host host.standalone then -linuxEinval else -linuxEperm

def epollDeleteFilters (kq : Kqueue) (hostFd : ℤ) (reg : EpollReg) : Kqueue :=
  let kq :=
    if reg.usbdev || hasAny reg.events (linuxEpollReadable ||| linuxEpollrdhup) then
      kq.delete hostFd .read
    else kq
  if !reg.usbdev && hasAny reg.events linuxEpollWritable then kq.delete hostFd .write else kq

def epollBuildChanges (events : BitVec 32) (fd : ℕ) (snap : FdEntry) : List KqChange :=
  let clear := hasAny events linuxEpollet
  let oneshot := hasAny events linuxEpolloneshot
  if snap.type = .usbdev then [⟨snap.hostFd, .read, fd, clear, oneshot, false⟩]
  else
    (if hasAny events (linuxEpollReadable ||| linuxEpollrdhup) then
      [⟨snap.hostFd, .read, fd, clear, oneshot, !hasAny events linuxEpollReadable⟩] else []) ++
    if hasAny events linuxEpollWritable then [⟨snap.hostFd, .write, fd, clear, oneshot, false⟩]
      else []

def epollUndoChanges (kq : Kqueue) (changes : List KqChange) : Kqueue :=
  changes.foldl (fun kq c => kq.delete c.ident c.filter) kq

/-- The loop of `epoll_arm_changes`, with the changes it has been through. -/
def epollArmLoop (snap : FdEntry) (host : EpollHost) :
    List KqChange → List KqChange → Bool → Bool → Kqueue → Except ℤ Bool × Kqueue
  | [], _, _, refused, kq => (.ok refused, kq)
  | c :: cs, done, registered, refused, kq =>
    match host.arm c.filter with
    | .accepted =>
      epollArmLoop snap host cs (done ++ [c]) (registered || c.filter = .read) refused (kq.add c)
    | .failed err => (.error (-err.1), epollUndoChanges kq done)
    | .refused =>
      if snap.pathPollCapable then
        epollArmLoop snap host cs (done ++ [c]) registered (refused || c.filter = .read) kq
      else if c.filter = .read || !(registered || host.probe) then (.error (-linuxEperm), kq)
      else epollArmLoop snap host cs (done ++ [c]) registered refused kq

/-- Model of `epoll_arm_changes`: whether the read filter was refused. -/
def epollArmChanges (kq : Kqueue) (changes : List KqChange) (snap : FdEntry) (host : EpollHost) :
    Except ℤ Bool × Kqueue :=
  if changes = [] ∧ !host.probe then (.error (-linuxEperm), kq)
  else epollArmLoop snap host changes [] false false kq

def epollStoreReg (inst : EpollInst) (fd : ℕ) (events : BitVec 32) (data : ℕ) (snap : FdEntry)
    (ptyMaster readRefused : Bool) : EpollInst :=
  let reg := inst.regs fd
  { activeCount := if reg.active then inst.activeCount else inst.activeCount + 1
    ptyMasterCount :=
      if ptyMaster && !reg.ptyMaster then inst.ptyMasterCount + 1
      else if !ptyMaster && reg.ptyMaster then inst.ptyMasterCount - 1
      else inst.ptyMasterCount
    alwaysReadableCount :=
      if readRefused && !reg.alwaysReadable then inst.alwaysReadableCount + 1
      else if !readRefused && reg.alwaysReadable then inst.alwaysReadableCount - 1
      else inst.alwaysReadableCount
    regs := Function.update inst.regs fd
      { events := events, data := data, generation := snap.generation, ofdId := snap.ofdId
        active := true, oneshotArmed := false, ptyMaster := ptyMaster
        alwaysReadable := readRefused, usbdev := snap.type = .usbdev } }

/-- The operations of `epoll_ctl`. -/
inductive EpollOp
  | add | del | mod | unknown
  deriving DecidableEq, Repr

/-- The registration of a descriptor that was closed and opened again is dropped. -/
def EpollInst.dropStale (inst : EpollInst) (fd : ℕ) (snap : FdEntry) : EpollInst :=
  if ((inst.regs fd).active || (inst.regs fd).oneshotArmed) &&
      (inst.regs fd).generation ≠ snap.generation then inst.deactivate fd
  else inst

/-- `sys_epoll_ctl` while it holds the lock of the instance. -/
def epollCtlLocked (op : EpollOp) (fd : ℕ) (events : BitVec 32) (data : ℕ) (snap : FdEntry)
    (host : EpollHost) (inst : EpollInst) (kq : Kqueue) : ℤ × EpollInst × Kqueue :=
  let inst := inst.dropStale fd snap
  let reg := inst.regs fd
  let missing : ℤ := if epollTargetSupported snap host host.probe then -linuxEnoent else -linuxEperm
  if op = .del then
    if !reg.active then (missing, inst, kq)
    else (0, inst.deactivate fd, epollDeleteFilters kq snap.hostFd reg)
  else if !snap.pathPollCapable && host.isReg then (-linuxEperm, inst, kq)
  else if op = .add && reg.active then (-linuxEexist, inst, kq)
  else if op = .mod && !reg.active && !reg.oneshotArmed then (missing, inst, kq)
  else
    let kq := if op = .mod && reg.active then epollDeleteFilters kq snap.hostFd reg else kq
    match epollArmChanges kq (epollBuildChanges events fd snap) snap host with
    | (.error err, kq) => (err, inst, kq)
    | (.ok refused, kq) => (0, epollStoreReg inst fd events data snap host.ptyMaster refused, kq)

/-- Model of `sys_epoll_ctl` on an instance and its queue. The event is `none` when it cannot be
read, `epRef` the descriptor of the queue, `snap` the target's slot, `inst` the instance behind
`epfd`. -/
def epollCtl (epfd : ℤ) (op : EpollOp) (fd : ℤ) (event : Option (BitVec 32 × ℕ))
    (epRef : Except HostErrno ℤ) (snap : Option FdEntry) (host : EpollHost)
    (inst : Option EpollInst) (kq : Kqueue) : ℤ × Option EpollInst × Kqueue :=
  if op ≠ .del ∧ event = none then (-linuxEfault, inst, kq)
  else match epRef, snap with
    | .error err, _ => (-err.1, inst, kq)
    | .ok _, none => (-linuxEbadf, inst, kq)
    | .ok _, some snap =>
      if host.isDir then (-linuxEperm, inst, kq)
      else match inst with
        | none => (epollEinvalUnlessUnsupported snap host, none, kq)
        | some inst =>
          if op = .unknown then (epollEinvalUnlessUnsupported snap host, some inst, kq)
          else if fd = epfd then (-linuxEinval, some inst, kq)
          else
            let ev := event.getD (0, 0)
            let (ret, inst, kq) := epollCtlLocked op fd.toNat ev.1 ev.2 snap host inst kq
            (ret, some inst, kq)

/-! ### Collection -/

/-- The bits that `epoll_merge_event` adds for an event. -/
def epollMergeEvent (e : Kevent) (reg : EpollReg) (usb : UsbState) : BitVec 32 :=
  if reg.usbdev then
    (if e.filter = .read ∧ hasAny reg.events linuxEpollWritable ∧ usb.reapable then
      reg.events &&& linuxEpollWritable else 0) |||
    if e.eof || e.error then linuxEpollerr ||| linuxEpollhup else 0
  else
    (match e.filter with
      | .read => reg.events &&& linuxEpollReadable
      | .write =>
        if hasAny reg.events linuxEpollWritable then reg.events &&& linuxEpollWritable
        else linuxEpollout) |||
    (if e.eof then
      linuxEpollhup |||
        if e.filter = .read ∧ hasAny reg.events linuxEpollrdhup then linuxEpollrdhup else 0
      else 0) |||
    if e.error then linuxEpollerr else 0

structure OutEntry where
  gfd : ℕ
  events : BitVec 32
  data : ℕ
  deriving DecidableEq, Repr

/-- Model of `epoll_out_slot`, with the bits that are then merged into the slot. -/
def epollOutSlot (o : List OutEntry) (e : OutEntry) (maxevents : ℕ) : Option (List OutEntry) :=
  if o.any fun a => a.gfd = e.gfd then
    some (o.map fun a => if a.gfd = e.gfd then { a with events := a.events ||| e.events } else a)
  else if maxevents ≤ o.length then none
  else some (o ++ [e])

/-- The common loop of the functions that fill the output: an item says what to merge, if anything.
The loop ends when an item finds no slot, with `stopFull` already when all slots are in use. -/
def epollStamp {α : Type} (stopFull : Bool) (maxevents : ℕ) (f : α → Option OutEntry) :
    List α → List OutEntry → List OutEntry
  | [], o => o
  | a :: as, o =>
    if stopFull && maxevents ≤ o.length then o
    else match f a with
      | none => epollStamp stopFull maxevents f as o
      | some e => match epollOutSlot o e maxevents with
        | none => o
        | some o => epollStamp stopFull maxevents f as o

/-- What an event of a batch adds to the output. -/
def EpollInst.shows (inst : EpollInst) (usb : ℕ → UsbState) (e : Kevent) : Option OutEntry :=
  let reg := inst.regs e.gfd
  if fdTableSize ≤ e.gfd ∨ !reg.active then none
  else if reg.oneshotArmed then none
  else some ⟨e.gfd, epollMergeEvent e reg (usb e.gfd) |||
    (if reg.usbdev && (usb e.gfd).disconnected then linuxEpollerr ||| linuxEpollhup else 0),
        reg.data⟩

/-- Model of `epoll_collect_ready`; the filters of events that belong to no registration are
deleted on the way. -/
def epollCollectReady (inst : EpollInst) (usb : ℕ → UsbState) (maxevents : ℕ) :
    List Kevent → List OutEntry → Kqueue → List OutEntry × Kqueue
  | [], o, kq => (o, kq)
  | e :: es, o, kq =>
    if maxevents ≤ o.length then (o, kq)
    else if fdTableSize ≤ e.gfd ∨ !(inst.regs e.gfd).active then
      epollCollectReady inst usb maxevents es o (kq.delete e.ident e.filter)
    else match inst.shows usb e with
      | none => epollCollectReady inst usb maxevents es o kq
      | some a => match epollOutSlot o a maxevents with
        | none => (o, kq)
        | some o => epollCollectReady inst usb maxevents es o kq

def epollStampAlwaysReadable (inst : EpollInst) (maxevents : ℕ) (o : List OutEntry) :
    List OutEntry :=
  if inst.alwaysReadableCount = 0 then o
  else epollStamp true maxevents (fun gfd =>
    let reg := inst.regs gfd
    if !reg.alwaysReadable || !reg.active || reg.oneshotArmed then none
    else if !hasAny reg.events linuxEpollReadable then none
    else some ⟨gfd, reg.events &&& linuxEpollReadable, reg.data⟩) (List.range fdTableSize) o

/-- Model of `epoll_stamp_hangups`, for the masters that were found hung up and the generations
they had. -/
def epollStampHangups (inst : EpollInst) (maxevents : ℕ) (hups : List (ℕ × ℕ))
    (o : List OutEntry) : List OutEntry :=
  epollStamp false maxevents (fun h =>
    if inst.regLive h.1 h.2 then some ⟨h.1, linuxEpollhup, (inst.regs h.1).data⟩ else none) hups o

/-- An entry of `epoll_mute_set_t`. -/
structure EpollMute where
  gfd : ℕ
  ident : ℤ
  gen : ℕ
  wantout : BitVec 32
  deriving DecidableEq, Repr

/-- Model of `epoll_mute_wake_pending` on one entry. -/
def EpollMute.wakePending (usb : ℕ → UsbState) (m : EpollMute) : Bool :=
  (usb m.gfd).disconnected || m.wantout ≠ 0 && (usb m.gfd).reapable

/-- What `epoll_stamp_muted` adds for a muted registration. -/
def EpollInst.showsMuted (inst : EpollInst) (usb : ℕ → UsbState) (m : EpollMute) :
    Option OutEntry :=
  let wr := m.wantout &&& (inst.regs m.gfd).events
  let reap := wr ≠ 0 && (usb m.gfd).reapable
  if !(usb m.gfd).disconnected && !reap then none
  else if !inst.regLive m.gfd m.gen then none
  else some ⟨m.gfd, (if (usb m.gfd).disconnected then linuxEpollerr ||| linuxEpollhup else 0) |||
    (if reap then wr else 0), (inst.regs m.gfd).data⟩

def epollStampMuted (inst : EpollInst) (usb : ℕ → UsbState) (maxevents : ℕ)
    (muted : List EpollMute) (o : List OutEntry) : List OutEntry :=
  epollStamp false maxevents (inst.showsMuted usb) muted o

/-- The rest of what the world says while a wait collects. -/
structure EpollSeen where
  /-- The masters `epoll_collect_hung_up` finds, and their generations. -/
  hups : List (ℕ × ℕ)
  /-- The usbfs maps, for the batch and for the muted registrations. -/
  usb : ℕ → UsbState
  mutedUsb : ℕ → UsbState

/-- The output before `epoll_drop_empty`, and the queue. -/
def epollCollect (inst : EpollInst) (kq : Kqueue) (maxevents : ℕ) (batch : List Kevent)
    (muted : List EpollMute) (x : EpollSeen) : List OutEntry × Kqueue :=
  let (o, kq) := epollCollectReady inst x.usb maxevents batch [] kq
  let o := epollStampAlwaysReadable inst maxevents o
  let o := epollStampHangups inst maxevents x.hups o
  (epollStampMuted inst x.mutedUsb maxevents muted o, kq)

def epollDropEmpty (o : List OutEntry) : List OutEntry := o.filter fun e => e.events ≠ 0

def epollMarkOneshot (inst : EpollInst) (o : List OutEntry) : EpollInst :=
  { inst with regs := fun gfd =>
      let reg := inst.regs gfd
      if o.any (fun e => e.gfd = gfd) && reg.active && hasAny reg.events linuxEpolloneshot then
        { reg with oneshotArmed := true }
      else reg }

/-- Room for `epoll_mute_set_t`. -/
def epollMuteMax : ℕ := 256

/-- The note of a muted event: disabled, or added again disabled where the event has taken it. -/
def Kqueue.mute (kq : Kqueue) (e : Kevent) (reg : EpollReg) : Kqueue :=
  if hasAny reg.events linuxEpolloneshot then
    kq.set e.ident .read (some ⟨e.gfd, hasAny reg.events linuxEpollet, true, false, false, false⟩)
  else kq.set e.ident .read ((kq e.ident .read).map fun k => { k with enabled := false })

/-- Model of `epoll_mute_usb_wakes`; `ok` says for which events the change succeeds. -/
def epollMuteUsbWakes (inst : EpollInst) (ok : Kevent → Bool) :
    List Kevent → List EpollMute → Kqueue → List EpollMute × Kqueue
  | [], muted, kq => (muted, kq)
  | e :: es, muted, kq =>
    let reg := inst.regs e.gfd
    if epollMuteMax ≤ muted.length then (muted, kq)
    else if fdTableSize ≤ e.gfd ∨ !reg.active ∨ !reg.usbdev ∨ !ok e then
      epollMuteUsbWakes inst ok es muted kq
    else epollMuteUsbWakes inst ok es
      (muted ++ [⟨e.gfd, e.ident, reg.generation, reg.events &&& linuxEpollWritable⟩])
      (kq.mute e reg)

/-- Model of `epoll_unmute`. Enabling a note makes the host look at its descriptor again. -/
def epollUnmute (inst : EpollInst) (muted : List EpollMute) (kq : Kqueue) : Kqueue :=
  muted.foldl (fun kq m =>
    if (inst.regs m.gfd).active && (inst.regs m.gfd).generation = m.gen &&
        (inst.regs m.gfd).oneshotArmed then kq.delete m.ident .read
    else kq.set m.ident .read
      ((kq m.ident .read).map fun k => { k with gfd := m.gfd, enabled := true, spent := false })) kq

/-! ### What the output holds -/

def Covers (b a : BitVec 32) : Prop := a ||| b = b

lemma Covers.refl (a : BitVec 32) : Covers a a := BitVec.or_self

lemma Covers.or_left (a b : BitVec 32) : Covers (a ||| b) a := by
  unfold Covers
  rw [← BitVec.or_assoc, BitVec.or_self]

lemma Covers.or_right (a b : BitVec 32) : Covers (a ||| b) b := by
  rw [BitVec.or_comm]
  exact Covers.or_left b a

lemma Covers.trans (hab : Covers b a) (hbd : Covers d b) : Covers d a := by
  unfold Covers at hab hbd ⊢
  rw [← hbd, ← BitVec.or_assoc, hab]

lemma Covers.zero (h : Covers 0 a) : a = 0 := by
  unfold Covers at h
  simpa using h

structure OutEntry.Grows (a b : OutEntry) : Prop where
  gfd : b.gfd = a.gfd
  data : b.data = a.data
  events : Covers b.events a.events

lemma OutEntry.Grows.refl (a : OutEntry) : a.Grows a := ⟨rfl, rfl, .refl _⟩

lemma OutEntry.Grows.trans {a d : OutEntry} (hab : a.Grows b) (hbd : b.Grows d) : a.Grows d :=
  ⟨hbd.gfd.trans hab.gfd, hbd.data.trans hab.data, hab.events.trans hbd.events⟩

variable {o o' : List OutEntry} {e : OutEntry} {m : ℕ}

section
variable (h : epollOutSlot o e m = some o')
include h

lemma slot_keeps (ha : a ∈ o) : ∃ b ∈ o', a.Grows b := by
  unfold epollOutSlot at h
  split at h
  · cases h
    refine ⟨_, mem_map_of_mem ha, ?_⟩
    split
    · exact ⟨rfl, rfl, Covers.or_left _ _⟩
    · exact .refl a
  split at h
  · cases h
  · cases h
    exact ⟨a, mem_append_left _ ha, .refl a⟩

lemma slot_mem (hb : b ∈ o') : (∃ a ∈ o, a.Grows b) ∨ b = e := by
  unfold epollOutSlot at h
  split at h
  · cases h
    obtain ⟨a, ha, rfl⟩ := mem_map.mp hb
    refine .inl ⟨a, ha, ?_⟩
    split
    · exact ⟨rfl, rfl, Covers.or_left _ _⟩
    · exact .refl a
  split at h
  · cases h
  cases h
  obtain hb | hb := mem_append.mp hb
  · exact .inl ⟨b, hb, .refl b⟩
  · exact .inr (mem_singleton.mp hb)

lemma slot_has : ∃ b ∈ o', b.gfd = e.gfd ∧ Covers b.events e.events := by
  unfold epollOutSlot at h
  split at h
  · rename_i hany
    cases h
    obtain ⟨a, ha, heq⟩ := any_eq_true.mp hany
    have hgfd := of_decide_eq_true heq
    refine ⟨_, mem_map_of_mem ha, ?_⟩
    rw [if_pos hgfd]
    exact ⟨hgfd, Covers.or_right _ _⟩
  · split at h
    · cases h
    · cases h
      exact ⟨e, mem_append_right _ mem_cons_self, rfl, .refl _⟩

end

lemma slot_isSome (h : o.length < m) : (epollOutSlot o e m).isSome := by
  grind [epollOutSlot]

section
variable {α : Type}

lemma stamp_keeps (ha : a ∈ o) : ∃ b ∈ epollStamp full m f as o, a.Grows b := by
  induction as generalizing o a with
  | nil => exact ⟨a, ha, .refl a⟩
  | cons x as ih =>
    rw [epollStamp]
    split
    · exact ⟨a, ha, .refl a⟩
    split
    · exact ih ha
    split
    · exact ⟨a, ha, .refl a⟩
    rename_i hslot
    obtain ⟨b, hb, hab⟩ := slot_keeps hslot ha
    obtain ⟨d, hd, hbd⟩ := ih hb
    exact ⟨d, hd, hab.trans hbd⟩

lemma stamp_mem (hb : b ∈ epollStamp full m f as o) :
    (∃ a ∈ o, a.Grows b) ∨ ∃ x ∈ as, ∃ e, f x = some e ∧ e.Grows b := by
  induction as generalizing o with
  | nil => exact .inl ⟨b, hb, .refl b⟩
  | cons x as ih =>
    have hrest : ∀ {o}, b ∈ epollStamp full m f as o →
        (∃ a ∈ o, a.Grows b) ∨ ∃ y ∈ x :: as, ∃ e, f y = some e ∧ e.Grows b := by
      intro o hb
      obtain h | ⟨y, hy, he⟩ := ih hb
      · exact .inl h
      · exact .inr ⟨y, mem_cons_of_mem x hy, he⟩
    rw [epollStamp] at hb
    split at hb
    · exact .inl ⟨b, hb, .refl b⟩
    split at hb
    · exact hrest hb
    split at hb
    · exact .inl ⟨b, hb, .refl b⟩
    rename_i hslot
    obtain ⟨a, ha, hab⟩ | h := hrest hb
    · obtain ⟨d, hd, hda⟩ | rfl := slot_mem hslot ha
      · exact .inl ⟨d, hd, hda.trans hab⟩
      grind
    · exact .inr h

lemma stamp_ne_nil (hm : 0 < m) (hx : ∃ x ∈ as, (f x).isSome) : epollStamp full m f as o ≠ [] := by
  induction as generalizing o with
  | nil =>
    obtain ⟨x, hx, -⟩ := hx
    cases hx
  | cons x as ih =>
    have hkeep : ∀ {o : List OutEntry}, o ≠ [] → epollStamp full m f as o ≠ [] := by
      intro o ho
      obtain ⟨a, ha⟩ := exists_mem_of_ne_nil o ho
      have hstays : ∃ b ∈ epollStamp full m f as o, a.Grows b := stamp_keeps ha
      grind
    rw [epollStamp]
    split
    · grind
    split
    · grind
    rename_i e _
    split
    · rename_i hno
      intro hnil
      have hsome := slot_isSome (e := e) (show o.length < m by rw [hnil]; exact hm)
      rw [hno] at hsome
      cases hsome
    · rename_i hslot
      obtain ⟨b, hb, -⟩ := slot_has hslot
      exact hkeep (ne_nil_of_mem hb)

end

lemma collectReady_out (inst : EpollInst) (usb : ℕ → UsbState) (batch : List Kevent)
    (o : List OutEntry) (kq : Kqueue) :
    (epollCollectReady inst usb m batch o kq).1 = epollStamp true m (inst.shows usb) batch o := by
  induction batch generalizing o kq with
  | nil => rfl
  | cons e es ih =>
    rw [epollCollectReady, epollStamp]
    by_cases hfull : m ≤ o.length
    · grind
    have hgo : ¬ (true && decide (m ≤ o.length)) := by simpa using hfull
    rw [if_neg hfull, if_neg hgo]
    by_cases hin : fdTableSize ≤ e.gfd ∨ (!(inst.regs e.gfd).active)
    · have hnone : inst.shows usb e = none := if_pos hin
      rw [if_pos hin, hnone]
      exact ih o _
    · rw [if_neg hin]
      grind

end Elfuse
