/-
The wait of `epoll_pwait` (`syscall/poll.c`).

A pass is one round of the wait: the host is asked for a batch of events, and
either another round follows or what there is is collected under the lock of the
instance. Other threads may change the instance between two passes and between a
batch and its collection, so a pass is given the instance it finds.

* `epollPass` — one pass, which ends the call or leads to another;
* `epollPass_zero` — a pass that ends the call with 0 ends it at the deadline, if
  what stopped the wait still has a registration when it is collected.
-/
import Elfuse.Syscall.Epoll

namespace Elfuse

open List EpollInst

/-! ### The wait -/

structure EpollCall where
  /-- `host_fd_ref_open` of the epoll descriptor. -/
  ref : Except HostErrno ℤ
  maxevents : ℤ
  timeoutMs : ℤ
  /-- There is an instance behind the descriptor. -/
  hasInst : Bool
  /-- The events can be written to the guest. -/
  writeOut : Bool
  start : ℤ

/-- What the call keeps from round to round. -/
structure EpollWait where
  maxevents : ℕ
  deadlineMs : ℤ
  muted : List EpollMute

structure EpollResult where
  ret : ℤ
  now : ℤ
  out : List OutEntry

/-- What the rest of the world answers during one pass. -/
structure EpollPass where
  /-- The batch, unless the host fails. -/
  kevents : Except HostErrno (List Kevent)
  interrupts : Interrupts
  /-- `thread_stop_is_leader_work_only`. -/
  leaderOnly : Bool
  /-- `epoll_collect_hung_up` finds a master when the round ends without an event. -/
  hung : Bool
  breakUsb : ℕ → UsbState
  /-- The clock when the round ends. -/
  now : ℤ
  seen : EpollSeen
  /-- The events whose note can be muted. -/
  muteOk : Kevent → Bool
  /-- The clock after the collection. -/
  later : ℤ

/-- `sys_epoll_pwait` up to its loop. -/
def epollStart (c : EpollCall) : EpollWait ⊕ EpollResult :=
  match c.ref with
  | .error err => .inr ⟨-err.1, c.start, []⟩
  | .ok _ =>
    if c.maxevents ≤ 0 ∨ !c.hasInst then .inr ⟨-linuxEinval, c.start, []⟩
    else
      .inl { maxevents := min c.maxevents.toNat 128
             deadlineMs := if 0 ≤ c.timeoutMs then c.start + c.timeoutMs else -1
             muted := [] }

def EpollPass.batch (p : EpollPass) : List Kevent :=
  match p.kevents with
  | .ok batch => batch
  | .error _ => []

/-- The thread is to stop, unless there are events and only the leader has work. -/
def EpollPass.interrupted (p : EpollPass) : Bool :=
  let events : Bool := p.batch ≠ []
  pollWaitInterrupted
    { p.interrupts with stop := p.interrupts.stop && !(events && p.leaderOnly) } events

/-- The round ends without an event and nothing else ends the wait. -/
def EpollWait.again (w : EpollWait) (p : EpollPass) : Bool :=
  p.batch = [] && !p.hung && !w.muted.any (EpollMute.wakePending p.breakUsb) &&
    timeLeft w.deadlineMs p.now

/-- What follows the loop: the collection, and another round when all it finds is to be muted. -/
def epollAfter (c : EpollCall) (w : EpollWait) (p : EpollPass) (inst : EpollInst) (kq : Kqueue) :
    (EpollWait ⊕ EpollResult) × EpollInst × Kqueue :=
  let (o, kq) := epollCollect inst kq w.maxevents p.batch w.muted p.seen
  let out := epollDropEmpty o
  let (muted, mutedKq) := epollMuteUsbWakes inst p.muteOk p.batch w.muted kq
  if out = [] ∧ o ≠ [] ∧ timeLeft w.deadlineMs p.later ∧ w.muted.length < muted.length then
    (.inl { w with muted := muted }, inst, mutedKq)
  else
    let inst := epollMarkOneshot inst out
    let kq := epollUnmute inst w.muted kq
    if out ≠ [] ∧ !c.writeOut then (.inr ⟨-linuxEfault, p.later, []⟩, inst, kq)
    else (.inr ⟨out.length, p.later, out⟩, inst, kq)

/-- One round of the loop in `sys_epoll_pwait`, and what follows it. -/
def epollPass (c : EpollCall) (w : EpollWait) (p : EpollPass) (inst : EpollInst) (kq : Kqueue) :
    (EpollWait ⊕ EpollResult) × EpollInst × Kqueue :=
  let kq := p.batch.foldl Kqueue.dequeue kq
  if p.interrupted then
    (.inr ⟨-linuxEintr, p.now, []⟩, inst, epollUnmute inst w.muted kq)
  else match p.kevents with
    | .error err => (.inr ⟨-err.1, p.now, []⟩, inst, epollUnmute inst w.muted kq)
    | .ok _ => if w.again p then (.inl w, inst, kq) else epollAfter c w p inst kq

/-! ### When a wait returns 0 -/

def EpollTimedOut (c : EpollCall) (now : ℤ) : Prop :=
  0 ≤ c.timeoutMs ∧ (c.timeoutMs = 0 ∨ c.start + c.timeoutMs ≤ now)

/-- What holds between the passes of a call. -/
structure EpollWaits (c : EpollCall) (w : EpollWait) : Prop where
  maxevents : 0 < w.maxevents
  deadline : 0 ≤ w.deadlineMs → 0 ≤ c.timeoutMs ∧ w.deadlineMs = c.start + c.timeoutMs

/-- What a pass that stops early must find: an event of the batch, a hung up master or a muted
device that still has a registration, not fired, when it is collected; and an event that says
nothing about what its registration asks for is of a usbfs descriptor, whose note can be muted. -/
structure EpollOk (w : EpollWait) (p : EpollPass) (inst : EpollInst) : Prop where
  clock : p.now ≤ p.later
  live : (p.batch ≠ [] ∨ p.hung = true ∨ w.muted.any (EpollMute.wakePending p.breakUsb) = true) →
    (∃ e ∈ p.batch, (inst.shows p.seen.usb e).isSome = true) ∨
    (∃ h ∈ p.seen.hups, inst.regLive h.1 h.2 = true) ∨
    ∃ m ∈ w.muted, (inst.showsMuted p.seen.mutedUsb m).isSome = true
  asked : ∀ e ∈ p.batch, ∀ a, inst.shows p.seen.usb e = some a → a.events = 0 →
    (inst.regs e.gfd).usbdev = true ∧ p.muteOk e = true ∧ w.muted.length < epollMuteMax

variable {c : EpollCall} {w : EpollWait} {p : EpollPass} {inst : EpollInst} {kq : Kqueue}

lemma collect_out (inst : EpollInst) (kq : Kqueue) (n : ℕ) (batch : List Kevent)
    (muted : List EpollMute) (x : EpollSeen) : (epollCollect inst kq n batch muted x).1 =
      epollStampMuted inst x.mutedUsb n muted (epollStampHangups inst n x.hups
        (epollStampAlwaysReadable inst n (epollStamp true n (inst.shows x.usb) batch []))) := by
  rw [← collectReady_out inst x.usb batch [] kq]
  rfl

variable {o : List OutEntry}

lemma alwaysReadable_ne_nil (h : o ≠ []) : epollStampAlwaysReadable inst n o ≠ [] := by
  unfold epollStampAlwaysReadable
  split
  · exact h
  obtain ⟨a, ha⟩ := exists_mem_of_ne_nil o h
  obtain ⟨b, hb, -⟩ := stamp_keeps ha
  exact ne_nil_of_mem hb

lemma stamp_ne_nil_of (h : o ≠ []) : epollStamp full n f as o ≠ [] := by
  obtain ⟨a, ha⟩ := exists_mem_of_ne_nil o h
  obtain ⟨b, hb, -⟩ := stamp_keeps ha
  exact ne_nil_of_mem hb

variable {muted : List EpollMute} {usb : ℕ → UsbState} {res : EpollResult} {a : OutEntry}
  {e : Kevent}

lemma collect_ne_nil (hn : 0 < n) (hlive : (∃ e ∈ batch, (inst.shows x.usb e).isSome) ∨
      (∃ h ∈ x.hups, inst.regLive h.1 h.2) ∨ ∃ m ∈ muted, (inst.showsMuted x.mutedUsb m).isSome) :
    (epollCollect inst kq n batch muted x).1 ≠ [] := by
  rw [collect_out]
  obtain he | ⟨h, hh, hl⟩ | hm := hlive
  · exact stamp_ne_nil_of (stamp_ne_nil_of (alwaysReadable_ne_nil (stamp_ne_nil hn he)))
  · refine stamp_ne_nil_of (stamp_ne_nil hn ⟨h, hh, ?_⟩)
    rw [if_pos hl]
    rfl
  · exact stamp_ne_nil hn hm

lemma or_eq_zero {a b : BitVec 32} (h : a ||| b = 0) : a = 0 ∧ b = 0 := by
  have ha : Covers 0 a := by
    rw [← h]
    exact Covers.or_left a b
  have hb : Covers 0 b := by
    rw [← h]
    exact Covers.or_right a b
  exact ⟨ha.zero, hb.zero⟩

lemma showsMuted_ne_zero {m : EpollMute} (h : inst.showsMuted usb m = some a) : a.events ≠ 0 := by
  unfold showsMuted at h
  dsimp only at h
  split at h
  · cases h
  rename_i hsay
  split at h
  · cases h
  cases h
  intro h0
  obtain ⟨hdisc, hreap⟩ := or_eq_zero h0
  cases hd : (usb m.gfd).disconnected with
  | true =>
    rw [hd] at hdisc
    exact absurd hdisc (by decide)
  | false =>
    cases hr : (decide (m.wantout &&& (inst.regs m.gfd).events ≠ 0) && (usb m.gfd).reapable) with
    | false =>
      rw [hd, hr] at hsay
      exact hsay rfl
    | true =>
      rw [hr, if_pos rfl] at hreap
      exact of_decide_eq_true (Bool.and_eq_true_iff.mp hr).1 hreap

/-- An entry without bits is an event of the batch that shows nothing. -/
lemma collect_zero (hb : b ∈ (epollCollect inst kq n batch muted x).1) (h0 : b.events = 0) :
    ∃ e ∈ batch, ∃ a, inst.shows x.usb e = some a ∧ a.events = 0 := by
  have hzero : ∀ {a d : OutEntry}, a.Grows d → d.events = 0 → a.events = 0 := by
    intro a d had hd
    have hcov := had.events
    rw [hd] at hcov
    exact hcov.zero
  rw [collect_out] at hb
  -- what is muted, hung up or always readable has bits
  obtain ⟨a, ha, hab⟩ | ⟨m, -, a, hm, hab⟩ := stamp_mem hb
  · have ha0 := hzero hab h0
    obtain ⟨d, hd, hda⟩ | ⟨h, -, d, hh, hda⟩ := stamp_mem ha
    · have hd0 := hzero hda ha0
      have hready : ∃ e ∈ epollStamp true n (inst.shows x.usb) batch [], e.events = 0 := by
        unfold epollStampAlwaysReadable at hd
        split at hd
        · exact ⟨d, hd, hd0⟩
        obtain ⟨e, he, hed⟩ | ⟨g, -, e, hg, hed⟩ := stamp_mem hd
        · exact ⟨e, he, hzero hed hd0⟩
        have he0 := hzero hed hd0
        dsimp only at hg
        split at hg
        · cases hg
        split at hg
        · cases hg
        rename_i hasked
        cases hg
        exact absurd (by simpa [hasAny] using he0) hasked
      obtain ⟨e, he, he0⟩ := hready
      obtain ⟨f, hf, -⟩ | ⟨k, hk, f, hf, hfe⟩ := stamp_mem he
      · cases hf
      · exact ⟨k, hk, f, hf, hzero hfe he0⟩
    · split at hh
      · cases hh
        exact absurd (hzero hda ha0) (show ¬ linuxEpollhup = 0 by decide)
      · cases hh
  · exact absurd (hzero hab h0) (showsMuted_ne_zero hm)

lemma mute_length (inst : EpollInst) (ok : Kevent → Bool) (batch : List Kevent)
    (muted : List EpollMute) (kq : Kqueue) :
    muted.length ≤ (epollMuteUsbWakes inst ok batch muted kq).1.length := by
  induction batch generalizing muted kq with
  | nil => exact Nat.le_refl _
  | cons e es ih =>
    rw [epollMuteUsbWakes]
    split
    · exact Nat.le_refl _
    split
    · exact ih muted kq
    refine Nat.le_trans ?_ (ih _ _)
    rw [length_append]
    omega

lemma mute_lt (he : e ∈ batch) (hroom : muted.length < epollMuteMax)
    (hgfd : e.gfd < fdTableSize) (hactive : (inst.regs e.gfd).active)
    (husb : (inst.regs e.gfd).usbdev) (hok : ok e) :
    muted.length < (epollMuteUsbWakes inst ok batch muted kq).1.length := by
  induction batch generalizing muted kq with
  | nil => cases he
  | cons a as ih =>
    rw [epollMuteUsbWakes, if_neg (by omega)]
    split
    · rename_i hskip
      obtain rfl | he := mem_cons.mp he
      · rw [hactive, husb, hok] at hskip
        simp only [Bool.not_true, Bool.false_eq_true, or_false] at hskip
        omega
      · exact ih he hroom
    · have hle := mute_length inst ok as (muted ++ [⟨a.gfd, a.ident, (inst.regs a.gfd).generation,
        (inst.regs a.gfd).events &&& linuxEpollWritable⟩]) (kq.mute a (inst.regs a.gfd))
      rw [length_append, length_singleton] at hle
      omega

lemma shows_some (h : inst.shows usb e = some a) : e.gfd < fdTableSize ∧ (inst.regs e.gfd).active ∧
      (inst.regs e.gfd).oneshotArmed = false ∧ a.gfd = e.gfd ∧ a.data = (inst.regs e.gfd).data := by
  unfold shows at h
  dsimp only at h
  split at h
  · cases h
  rename_i hin
  split at h
  · cases h
  rename_i hfired
  cases h
  obtain ⟨hlt, hactive⟩ := not_or.mp hin
  exact ⟨by omega, by simpa using hactive, Bool.eq_false_of_not_eq_true hfired, rfl, rfl⟩

lemma EpollTimedOut.of_timeLeft (h : EpollWaits c w)
    (hleft : timeLeft w.deadlineMs now = false) : EpollTimedOut c now := by
  obtain ⟨hdead, hreached⟩ := timeLeft_eq_false hleft
  obtain ⟨hpos, heq⟩ := h.deadline hdead
  exact ⟨hpos, .inr (by omega)⟩

/-- What follows the loop: another pass with more muted registrations, or the result. -/
lemma epollAfter_cases (c : EpollCall) (w : EpollWait) (p : EpollPass) (inst : EpollInst)
    (kq : Kqueue) : ∃ o kq' muted mkq,
    epollCollect inst kq w.maxevents p.batch w.muted p.seen = (o, kq') ∧
    epollMuteUsbWakes inst p.muteOk p.batch w.muted kq' = (muted, mkq) ∧
    ((epollDropEmpty o = [] ∧ o ≠ [] ∧ timeLeft w.deadlineMs p.later ∧
      w.muted.length < muted.length ∧
      epollAfter c w p inst kq = (.inl { w with muted := muted }, inst, mkq)) ∨
    (¬ (epollDropEmpty o = [] ∧ o ≠ [] ∧ timeLeft w.deadlineMs p.later ∧
      w.muted.length < muted.length) ∧
      ∃ res, epollAfter c w p inst kq = (.inr res, epollMarkOneshot inst (epollDropEmpty o),
        epollUnmute (epollMarkOneshot inst (epollDropEmpty o)) w.muted kq') ∧
      (res = ⟨(epollDropEmpty o).length, p.later, epollDropEmpty o⟩ ∨
        epollDropEmpty o ≠ [] ∧ c.writeOut = false ∧ res = ⟨-linuxEfault, p.later, []⟩))) := by
  obtain ⟨o, kq', ho⟩ : ∃ o kq', epollCollect inst kq w.maxevents p.batch w.muted p.seen =
    (o, kq') := ⟨_, _, rfl⟩
  obtain ⟨muted, mkq, hm⟩ : ∃ muted mkq, epollMuteUsbWakes inst p.muteOk p.batch w.muted kq' =
    (muted, mkq) := ⟨_, _, rfl⟩
  refine ⟨o, kq', muted, mkq, ho, hm, ?_⟩
  unfold epollAfter
  rw [ho]
  dsimp only
  rw [hm]
  split
  · rename_i hmute
    exact .inl ⟨hmute.1, hmute.2.1, hmute.2.2.1, hmute.2.2.2, rfl⟩
  rename_i hmute
  refine .inr ⟨hmute, ?_⟩
  split
  · rename_i hout
    exact ⟨_, rfl, .inr ⟨hout.1, by simpa using hout.2, rfl⟩⟩
  · exact ⟨_, rfl, .inl rfl⟩

lemma epollPass_zero (h : EpollWaits c w) (hok : EpollOk w p inst)
    (hs : (epollPass c w p inst kq).1 = .inr res) (h0 : res.ret = 0) : EpollTimedOut c res.now := by
  unfold epollPass at hs
  split at hs
  · cases hs
    replace h0 : -linuxEintr = 0 := h0
    exact absurd h0 (by decide)
  split at hs
  · rename_i err _
    cases hs
    replace h0 : -err.1 = 0 := h0
    omega
  split at hs
  · cases hs
  rename_i hstop
  generalize p.batch.foldl Kqueue.dequeue kq = kq at hs
  obtain ⟨o, kq', muted, mkq, ho, hm, ⟨-, -, -, -, heq⟩ | ⟨hno, res', heq, hres⟩⟩ :=
    epollAfter_cases c w p inst kq
  · rw [heq] at hs
    cases hs
  rw [heq] at hs
  cases hs
  have hempty : epollDropEmpty o = [] ∧ res.now = p.later := by
    obtain rfl | ⟨-, -, rfl⟩ := hres
    · replace h0 : ((epollDropEmpty o).length : ℤ) = 0 := h0
      exact ⟨length_eq_zero_iff.mp (by omega), rfl⟩
    · replace h0 : -linuxEfault = 0 := h0
      exact absurd h0 (by decide)
  rw [hempty.2]
  refine EpollTimedOut.of_timeLeft h (Bool.eq_false_of_not_eq_true fun hleft => ?_)
  -- before the deadline something stopped the wait, and it has a slot
  have hcause : p.batch ≠ [] ∨ p.hung ∨ w.muted.any (EpollMute.wakePending p.breakUsb) := by
    by_contra hnone
    simp only [not_or, not_not] at hnone
    refine hstop ?_
    simp only [EpollWait.again, hnone.1, Bool.eq_false_of_not_eq_true hnone.2.1,
      Bool.eq_false_of_not_eq_true hnone.2.2, timeLeft_mono hok.clock hleft, decide_true,
      Bool.not_false, Bool.and_self]
  have hne : o ≠ [] := by
    have hlive : (epollCollect inst kq w.maxevents p.batch w.muted p.seen).1 ≠ [] :=
      collect_ne_nil h.maxevents (hok.live hcause)
    rw [ho] at hlive
    exact hlive
  -- it shows nothing, so it is muted, and another pass follows
  obtain ⟨b, hb⟩ := exists_mem_of_ne_nil o hne
  have hb0 : b.events = 0 := by
    by_contra hbits
    have hmem : b ∈ epollDropEmpty o := mem_filter.mpr ⟨hb, decide_eq_true hbits⟩
    rw [hempty.1] at hmem
    cases hmem
  rw [← show (epollCollect inst kq w.maxevents p.batch w.muted p.seen).1 = o by rw [ho]] at hb
  obtain ⟨e, he, a, ha, ha0⟩ := collect_zero hb hb0
  obtain ⟨husb, hmute, hroom⟩ := hok.asked e he a ha ha0
  obtain ⟨hlt, hactive, -⟩ := shows_some ha
  have hmore : w.muted.length < (epollMuteUsbWakes inst p.muteOk p.batch w.muted kq').1.length :=
    mute_lt he hroom hlt hactive husb hmute
  rw [hm] at hmore
  exact hno ⟨hempty.1, hne, hleft, hmore⟩

lemma epollPass_waits (h : EpollWaits c w)
    (hs : (epollPass c w p inst kq).1 = .inl w') : EpollWaits c w' := by
  unfold epollPass at hs
  split at hs
  · cases hs
  split at hs
  · cases hs
  split at hs
  · cases hs
    exact h
  generalize p.batch.foldl Kqueue.dequeue kq = kq at hs
  obtain ⟨_, _, _, _, -, -, ⟨-, -, -, -, heq⟩ | ⟨-, res', heq, -⟩⟩ := epollAfter_cases c w p inst kq
  · rw [heq] at hs
    cases hs
    exact ⟨h.maxevents, h.deadline⟩
  · rw [heq] at hs
    cases hs

lemma epollStart_waits (hs : epollStart c = .inl w) : EpollWaits c w := by
  unfold epollStart at hs
  split at hs
  · cases hs
  split at hs
  · cases hs
  rename_i hargs
  cases hs
  obtain ⟨hmax, -⟩ := not_or.mp hargs
  refine ⟨?_, ?_⟩
  · show 0 < min c.maxevents.toNat 128
    omega
  dsimp only
  split
  · rename_i hpos
    exact fun _ => ⟨hpos, rfl⟩
  · intro hc
    exact absurd hc (by decide)

lemma epollStart_neg (hs : epollStart c = .inr res) : res.ret < 0 := by
  unfold epollStart at hs
  split at hs
  · rename_i err _
    cases hs
    show -err.1 < 0
    omega
  split at hs
  · cases hs
    show -linuxEinval < 0
    decide
  · cases hs

end Elfuse
