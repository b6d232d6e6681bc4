/-
The three waits together: `ppoll`, `pselect6` and `epoll_pwait` (`syscall/poll.c`).

Each of them asks the host in rounds, looks through what comes back for things
that are none of the guest's business, and goes on waiting when nothing is left.
A run of a wait is a sequence of passes, each with whatever the host, the clock
and the other threads make of it.

* `wait_zero_at_deadline` — a wait all of whose passes meet `WaitOk` returns 0 only when its timeout
  is zero or its deadline has come.
-/
import Elfuse.Syscall.PselectTimeout
import Elfuse.Syscall.EpollWait

namespace Elfuse

open Runs

inductive WaitCall
  | ppoll (c : PpollCall)
  | pselect (c : PselectCall)
  | epoll (c : EpollCall)

/-- Where a call is between two passes; `done` holds what it returned, and when. -/
inductive WaitState
  | ppoll (s : PpollState)
  | pselect (s : PselectState)
  | epoll (w : EpollWait)
  | done (ret now : ℤ)

/-- A pass; one of `epoll_pwait` finds the instance and the queue as other threads left them. -/
inductive WaitPass
  | ppoll (p : PpollPass)
  | pselect (p : PselectPass)
  | epoll (p : EpollPass) (inst : EpollInst) (kq : Kqueue)

def WaitState.ofPpoll : PpollState ⊕ WaitResult → WaitState
  | .inl s => .ppoll s
  | .inr res => .done res.ret res.now

def WaitState.ofPselect : PselectState ⊕ PselectResult → WaitState
  | .inl s => .pselect s
  | .inr res => .done res.ret res.now

def WaitState.ofEpoll : EpollWait ⊕ EpollResult → WaitState
  | .inl w => .epoll w
  | .inr res => .done res.ret res.now

def waitStart : WaitCall → WaitState
  | .ppoll c => .ofPpoll (ppollStart c)
  | .pselect c => .ofPselect (pselectStart c)
  | .epoll c => .ofEpoll (epollStart c)

def waitNext (c : WaitCall) (s : WaitState) (p : WaitPass) : Option WaitState :=
  match c, s, p with
  | .ppoll c, .ppoll s, .ppoll p => some (.ofPpoll (ppollPass c s p))
  | .pselect c, .pselect s, .pselect p => some (.ofPselect (pselectPass c s p))
  | .epoll c, .epoll w, .epoll p inst kq => some (.ofEpoll (epollPass c w p inst kq).1)
  | _, _, _ => none

def WaitCall.Fits : WaitCall → Prop
  | .ppoll c => TimeoutFits c.timeout
  | .pselect c => TimeoutFits c.timeout
  | .epoll _ => True

def WaitCall.TimedOut : WaitCall → ℤ → Prop
  | .ppoll c, now => Elfuse.TimedOut c.timeout c.start now
  | .pselect c, now => Elfuse.TimedOut c.timeout c.start now
  | .epoll c, now => EpollTimedOut c now

/-- What a pass must be like; nothing is asked of `ppoll`. -/
def WaitOk (c : WaitCall) (s : WaitState) (p : WaitPass) : Prop :=
  match c, s, p with
  | .pselect c, .pselect s, .pselect p => PselectOk c s p
  | .epoll _, .epoll w, .epoll p inst _ => EpollOk w p inst
  | _, _, _ => True

/-- What holds between the passes of a call, and at its end. -/
def WaitInv (c : WaitCall) (s : WaitState) : Prop :=
  match c, s with
  | .ppoll c, .ppoll s => PpollInv c s
  | .pselect c, .pselect s => PselectWaits c s
  | .epoll c, .epoll w => EpollWaits c w
  | c, .done ret now => ret = 0 → c.TimedOut now
  | _, _ => False

variable {c : WaitCall} {s t : WaitState} {p : WaitPass}

lemma waitStart_inv (hfits : c.Fits) : WaitInv c (waitStart c) := by
  cases c with
  | ppoll c =>
    cases hs : ppollStart c with
    | inl s =>
      rw [waitStart, hs]
      exact ppollStart_inv hfits hs
    | inr res =>
      rw [waitStart, hs]
      intro h0
      have hneg := ppollStart_neg hs
      omega
  | pselect c =>
    cases hs : pselectStart c with
    | inl s =>
      rw [waitStart, hs]
      exact pselectStart_waits hfits hs
    | inr res =>
      rw [waitStart, hs]
      exact pselectStart_zero hs
  | epoll c =>
    cases hs : epollStart c with
    | inl w =>
      rw [waitStart, hs]
      exact epollStart_waits hs
    | inr res =>
      rw [waitStart, hs]
      intro h0
      have hneg := epollStart_neg hs
      omega

lemma waitNext_inv (h : WaitInv c s) (hok : WaitOk c s p) (hs : waitNext c s p = some t) :
    WaitInv c t := by
  unfold waitNext at hs
  split at hs
  · rename_i c s p
    cases hpass : ppollPass c s p with
    | inl s' =>
      rw [hpass] at hs
      cases hs
      exact ppollPass_inv h hpass
    | inr res =>
      rw [hpass] at hs
      cases hs
      intro h0
      have hres : res = ⟨0, res.now⟩ := by
        rw [← h0]
      rw [hres] at hpass
      exact ppollPass_zero h hpass
  · rename_i c s p
    cases hpass : pselectPass c s p with
    | inl s' =>
      rw [hpass] at hs
      cases hs
      exact pselectPass_waits h hok hpass
    | inr res =>
      rw [hpass] at hs
      cases hs
      exact pselectPass_zero h hok hpass
  · rename_i c w p inst kq
    cases hpass : (epollPass c w p inst kq).1 with
    | inl w' =>
      rw [hpass] at hs
      cases hs
      exact epollPass_waits h hpass
    | inr res =>
      rw [hpass] at hs
      cases hs
      exact epollPass_zero h hok hpass
  · cases hs

/-- A wait returns 0 only when its timeout is zero or its deadline has come. -/
theorem wait_zero_at_deadline (c : WaitCall) (hfits : c.Fits) (ps : List WaitPass)
    (hok : Meets (waitNext c) (WaitOk c) (waitStart c) ps) (now : ℤ)
    (hrun : exec (waitNext c) (waitStart c) ps = some (.done 0 now)) : c.TimedOut now := by
  have hinv : WaitInv c (.done 0 now) := by
    refine exec_keeps_of_meets (P := WaitInv c) (WaitOk c) ?_ (waitStart_inv hfits) hok hrun
    intro s p t hs hp hn
    exact waitNext_inv hs hp hn
  cases c <;> exact hinv rfl

def sampleWait (timeoutMs : ℤ) : EpollCall :=
  { ref := .ok 4, maxevents := 8, timeoutMs := timeoutMs, hasInst := true, writeOut := true
    start := 100 }

def sampleRound (batch : List Kevent) (now : ℤ) : EpollPass :=
  { kevents := .ok batch, interrupts := ⟨false, false, false⟩, leaderOnly := false, hung := false
    breakUsb := fun _ => ⟨false, false, false⟩, now := now
    seen := ⟨[], fun _ => ⟨false, false, false⟩, fun _ => ⟨false, false, false⟩⟩
    muteOk := fun _ => true, later := now }

def samplePipe : FdEntry :=
  { FdEntry.zero with type := .pipe, hostFd := 9, generation := 3, ofdId := 3 }

def sampleHost : EpollHost :=
  { probe := true, standalone := true, arm := fun _ => .accepted, isDir := false, isReg := false
    ptyMaster := false }

/-- A usbfs device is registered for reading. -/
def usbAdded : EpollInst × Kqueue :=
  (epollCtlLocked .add 5 linuxEpollin 77 { samplePipe with type := .usbdev } sampleHost .new
    fun _ _ => none).2

/-- A completion of the device, which shows nothing that was asked for. -/
def usbRound : EpollPass := sampleRound [⟨9, .read, 5, false, false⟩] 110

/-- A wait of 50 ms: the completion is muted, the wait goes on, and nothing else comes. -/
theorem wait_zero_at_deadline_muted :
    let c := WaitCall.epoll (sampleWait 50)
    let p := WaitPass.epoll usbRound usbAdded.1 usbAdded.2
    let q := WaitPass.epoll (sampleRound [] 150) usbAdded.1
      (epollPass (sampleWait 50) ⟨8, 150, []⟩ usbRound usbAdded.1 usbAdded.2).2.2
    waitNext c (waitStart c) p = some (.epoll ⟨8, 150, [⟨5, 9, 3, 0⟩]⟩) ∧
      exec (waitNext c) (waitStart c) [p, q] = some (.done 0 150) ∧ c.TimedOut 150 := by
  intro c p q
  have hfirst : waitNext c (waitStart c) p = some (.epoll ⟨8, 150, [⟨5, 9, 3, 0⟩]⟩) := rfl
  have hrun : exec (waitNext c) (waitStart c) [p, q] = some (.done 0 150) := rfl
  have hmuted : EpollOk ⟨8, 150, []⟩ usbRound usbAdded.1 := by
    refine ⟨Int.le_refl _, fun _ => .inl ⟨_, List.mem_singleton_self _, rfl⟩, ?_⟩
    intro e he _ _ _
    obtain rfl := List.mem_singleton.mp he
    decide
  have hidle : EpollOk ⟨8, 150, [⟨5, 9, 3, 0⟩]⟩ (sampleRound [] 150) usbAdded.1 := by
    refine ⟨Int.le_refl _, ?_, nofun⟩
    rintro (hne | hhung | hwake)
    · exact absurd rfl hne
    · cases hhung
    · cases hwake
  refine ⟨hfirst, hrun, wait_zero_at_deadline c trivial [p, q] ?_ 150 hrun⟩
  exact meets_cons hmuted hfirst (meets_cons hidle rfl trivial)

/-- A descriptor is registered once for reading and writing. -/
def sampleAdded : ℤ × EpollInst × Kqueue :=
  epollCtlLocked .add 5 (linuxEpollin ||| linuxEpollout ||| linuxEpolloneshot) 77 samplePipe
    sampleHost .new fun _ _ => none

def sampleFirst : (EpollWait ⊕ EpollResult) × EpollInst × Kqueue :=
  epollPass (sampleWait (-1)) ⟨8, -1, []⟩ (sampleRound [⟨9, .write, 5, false, false⟩] 110)
    sampleAdded.2.1 sampleAdded.2.2

/-- When it becomes readable after that, a wait without a timeout returns 0. -/
theorem wait_zero_of_fired :
    let c := WaitCall.epoll (sampleWait (-1))
    let ps := [WaitPass.epoll (sampleRound [⟨9, .read, 5, false, false⟩] 120) sampleFirst.2.1
      sampleFirst.2.2]
    sampleFirst.1 = .inr ⟨1, 110, [⟨5, linuxEpollout, 77⟩]⟩ ∧
      exec (waitNext c) (waitStart c) ps = some (.done 0 120) ∧ ¬ c.TimedOut 120 := by
  refine ⟨rfl, rfl, ?_⟩
  intro h
  exact absurd h.1 (by decide)

end Elfuse
