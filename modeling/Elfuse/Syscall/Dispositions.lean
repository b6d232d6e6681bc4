/-
Signals that were ignored (`syscall/signal.c`).

`rt_sigaction` only stores the new action. A signal that is pending stays so, and
what becomes of it is decided by the action in force when it is taken; a signal
that is blocked can outlive a time when it was ignored.

* `signalRtSigaction`, `deliverSignal` — the call, and a delivery with the action of
  its signal;
* `ignored_never_handled` — no handler gets a signal that was pending when it was
  ignored, if no such signal is left when a handler is installed;
* `ignored_then_handled` — one that is blocked meanwhile does reach a handler.
-/
import Elfuse.Core.Layout
import Elfuse.Syscall.SignalClaims

namespace Elfuse

open Runs List Function

/-- `linux_sigaction_t`, as far as a delivery looks at it. -/
structure SigActionEntry where
  action : SigAction
  mask : BitVec 64
  nodefer : Bool
  resethand : Bool

/-- The signals that are ignored by default. -/
def ignoredByDefault (signum : ℕ) : Bool := signum = 17 || signum = 23 || signum = 28

/-- The action ignores its signal. -/
def SigAction.ignores : SigAction → ℕ → Bool
  | .ign, _ => true
  | .dfl, signum => ignoredByDefault signum
  | .handler, _ => false

def sigUncatchable (signum : ℕ) : Bool := signum = 9 || signum = 19

def unmaskable : BitVec 64 := sigBit 9 ||| sigBit 19

def signalRtSigaction (actions : ℕ → SigActionEntry) (signum : ℕ)
    (act : Option (Option SigActionEntry)) (oldact : Option Bool) (sigsetsize : ℕ) :
    ℤ × (ℕ → SigActionEntry) :=
  if sigsetsize ≠ 8 then (-linuxEinval, actions)
  else if !isSignal signum then (-linuxEinval, actions)
  else if sigUncatchable signum && act.isSome then (-linuxEinval, actions)
  else if oldact = some false then (-linuxEfault, actions)
  else match act with
    | none => (0, actions)
    | some none => (-linuxEfault, actions)
    | some (some a) => (0, update actions signum a)

def SigState.setBlocked (s : SigState) (cur : Option ℕ) (m : BitVec 64) : SigState :=
  { s with ctl := match cur with
    | some t => { s.ctl with blocked := update s.ctl.blocked t m }
    | none => { s.ctl with procBlocked := m } }

/-- The process, with what is to be known of its signals. -/
structure DispState where
  sig : SigState
  actions : ℕ → SigActionEntry
  /-- Of the entries of a signal in a set, so many of the oldest were pending when the signal was
  last ignored. -/
  stale : SigSet → ℕ → ℕ
  /-- What handlers were run for, and whether it was stale. -/
  ran : List (SigTaken × Bool)

/-- A signal has got the action that it has now. -/
def DispState.marked (s : DispState) (signum : ℕ) : DispState :=
  if (s.actions signum).action.ignores signum then
    { s with stale := fun set n =>
        if n = signum then (queuesOf (s.sig.set set) n).length else s.stale set n }
  else s

/-- The end of `deliver_signal_locked` in thread `cur`: a frame for the handler. -/
def DispState.handle (s : DispState) (cur : Option ℕ) (e : SigTaken) (late : Bool) : DispState :=
  let a := s.actions e.signum
  let blocked := s.sig.ctl.blockedOf cur ||| (if a.nodefer then 0 else sigBit e.signum) ||| a.mask
  let sig := s.sig.setBlocked cur (blocked &&& ~~~unmaskable)
  let saved := match cur with
    | some t => update sig.ctl.savedValid t false
    | none => sig.ctl.savedValid
  let s := { s with
    sig := { sig with ctl := { sig.ctl with savedValid := saved } }
    ran := s.ran ++ [(e, late)] }
  if a.resethand then
    { s with actions := update s.actions e.signum { a with action := .dfl } }.marked e.signum
  else s

/-- Model of `signal_deliver_one`; nothing where the process ends. `frame` says that the frame can
be built. -/
def deliverSignal (s : DispState) (cur : Option ℕ) (frame : Bool) : Option DispState :=
  match signalDeliverOne s.sig cur with
  | (none, _) => some s
  | (some e, sig) =>
    let late := s.stale e.set e.signum
    let s := { s with
      sig := sig
      stale := fun set n => if set = e.set ∧ n = e.signum then late - 1 else s.stale set n }
    match (s.actions e.signum).action with
    | .ign => some s
    | .dfl => if quietByDefault e.signum then some s else none
    | .handler => if frame then some (s.handle cur e (0 < late)) else none

inductive DispStep
  /-- A critical section that takes nothing from a set, such as queueing and `rt_sigprocmask`. -/
  | pending (op : SigOp)
  | sigaction (signum : ℕ) (act : Option (Option SigActionEntry)) (oldact : Option Bool)
      (sigsetsize : ℕ)
  | deliver (cur : Option ℕ) (frame : Bool)

/-- What is stale after a critical section; none where it takes a signal that is queued. -/
def SigOp.staleAfter (stale : SigSet → ℕ → ℕ) : SigOp → Option (SigSet → ℕ → ℕ)
  | .enqueue _ _ _ | .claim _ _ | .control _ _ _ _ _ _ | .threadExit _ => some stale
  | .threadStart t => some fun set n => if set = .thread t then 0 else stale set n
  | _ => none

def dispNext (s : DispState) : DispStep → Option DispState
  | .pending op =>
    if op.legal s.sig.ctl then
      (op.staleAfter s.stale).map fun stale => { s with sig := (op.run s.sig).2, stale := stale }
    else none
  | .sigaction signum act oldact sigsetsize =>
    let r := signalRtSigaction s.actions signum act oldact sigsetsize
    let s := { s with actions := r.2 }
    some (if r.1 = 0 ∧ act.isSome then s.marked signum else s)
  | .deliver cur frame => deliverSignal s cur frame

def DispState.init (ids : SigIds) : DispState :=
  ⟨(SigRun.init ids).state, fun _ => ⟨.dfl, 0, false, false⟩, fun _ _ => 0, []⟩

/-- A handler is installed only where nothing stale is left. -/
def HandlesFresh (s : DispState) : DispStep → Prop
  | .sigaction signum act oldact sigsetsize =>
    ((signalRtSigaction s.actions signum act oldact sigsetsize).2 signum).action = .handler →
      ∀ set, s.stale set signum = 0
  | _ => True

structure DispInv (s : DispState) : Prop where
  stale : ∀ set n, 0 < s.stale set n → (s.actions n).action ≠ .handler
  ran : ∀ x ∈ s.ran, x.2 = false

variable {s : DispState}

lemma DispInv.marked (h : DispInv s) (signum : ℕ) : DispInv (s.marked signum) := by
  unfold DispState.marked
  split
  · rename_i hign
    refine ⟨fun set n hpos hact => ?_, h.ran⟩
    by_cases hn : n = signum
    · subst hn
      rw [hact] at hign
      cases hign
    · exact h.stale set n (by simpa [hn] using hpos) hact
  · exact h

lemma DispInv.handle (h : DispInv s) (cur : Option ℕ) (e : SigTaken) :
    DispInv (s.handle cur e false) := by
  have hran : ∀ x ∈ s.ran ++ [(e, false)], x.2 = false :=
    forall_mem_append.mpr ⟨h.ran, forall_mem_singleton.mpr rfl⟩
  unfold DispState.handle
  dsimp only
  split
  · exact DispInv.marked ⟨fun set => (forall_update_iff s.actions fun n a => 0 < s.stale set n →
      a.action ≠ .handler).mpr ⟨fun _ => by simp, fun n _ => h.stale set n⟩, hran⟩ e.signum
  · exact ⟨h.stale, hran⟩

lemma DispInv.deliver (h : DispInv s) (hs : deliverSignal s cur frame = some t) : DispInv t := by
  unfold deliverSignal at hs
  split at hs
  · cases hs
    exact h
  rename_i e sig _
  -- what is taken is the oldest of its queue, so it is stale if anything there is
  have htaken : DispInv { s with
      sig := sig
      stale := fun set n => if set = e.set ∧ n = e.signum then s.stale e.set e.signum - 1
        else s.stale set n } := by
    refine ⟨fun set n hpos => h.stale set n ?_, h.ran⟩
    grind
  dsimp only at hs
  split at hs
  · -- it is ignored
    cases hs
    exact htaken
  · split at hs <;> cases hs
    exact htaken
  · -- a handler gets a frame
    rename_i hact
    split at hs <;> cases hs
    have hfresh : s.stale e.set e.signum = 0 := by
      by_contra hne
      exact h.stale _ _ (Nat.pos_of_ne_zero hne) hact
    rw [hfresh] at htaken ⊢
    exact htaken.handle cur e

lemma sigaction_other (hn : n ≠ signum) :
    (signalRtSigaction actions signum act oldact sigsetsize).2 n = actions n := by
  unfold signalRtSigaction
  repeat' split
  all_goals simp [hn]

lemma DispInv.step (h : DispInv s) (hok : HandlesFresh s l) (hn : dispNext s l = some t) :
    DispInv t := by
  cases l with
  | pending op =>
    rw [dispNext] at hn
    split at hn
    · obtain ⟨stale, hstale, rfl⟩ := Option.map_eq_some_iff.mp hn
      refine ⟨fun set n hpos => h.stale set n ?_, h.ran⟩
      unfold SigOp.staleAfter at hstale
      grind
    · cases hn
  | sigaction signum act oldact sigsetsize =>
    have hset : DispInv { s with
        actions := (signalRtSigaction s.actions signum act oldact sigsetsize).2 } := by
      refine ⟨fun set n hpos hact => ?_, h.ran⟩
      by_cases hn : n = signum
      · -- the step is not taken while something stale is pending
        subst hn
        exact absurd (hok hact set) hpos.ne'
      · dsimp only at hact
        rw [sigaction_other hn] at hact
        exact h.stale set n hpos hact
    cases hn
    split
    · exact hset.marked signum
    · exact hset
  | deliver cur frame => exact h.deliver hn

/-- In every run in which nothing stale is left when a handler is installed, no handler runs for
what is stale. -/
theorem ignored_never_handled {ids : SigIds} {ls : List DispStep}
    (hok : Meets dispNext HandlesFresh (DispState.init ids) ls)
    (hrun : exec dispNext (DispState.init ids) ls = some s) : ∀ x ∈ s.ran, x.2 = false := by
  have hinit : DispInv (DispState.init ids) := ⟨fun _ _ hpos => absurd hpos (lt_irrefl 0), nofun⟩
  have hinv : DispInv s :=
    exec_keeps_of_meets HandlesFresh (fun _ _ _ h hok hn => h.step hok hn) hinit hok hrun
  exact hinv.ran

/-- `rt_sigaction` of SIGUSR1. -/
def usr1Action (action : SigAction) : DispStep :=
  .sigaction 10 (some (some ⟨action, 0, false, false⟩)) none 8

def usr1Send : DispStep := .pending (.enqueue .shared 10 none)

/-- The mask before there are threads is set. -/
def mainMask (m : BitVec 64) : DispStep :=
  .pending (.control (fun _ => 0) (fun _ => false) m (fun _ => PosixTimer.zero) (fun _ => 0) ⟨1, 0⟩)

/-- SIGUSR1 is sent while it is blocked, ignored, unblocked and discarded; then it gets a handler,
which runs for another one. -/
def discardSteps : List DispStep :=
  [mainMask (sigBit 10), usr1Send, usr1Action .ign, mainMask 0, .deliver none true,
    usr1Action .handler, usr1Send, .deliver none true]

theorem ignored_never_handled_before :
    (exec dispNext (DispState.init ⟨1, 0⟩) (discardSteps.take 3)).map
      (fun s => s.stale .shared 10) = some 1 ∧
    ∃ s, exec dispNext (DispState.init ⟨1, 0⟩) discardSteps = some s ∧ s.ran.length = 1 ∧
      ∀ x ∈ s.ran, x.2 = false := by
  have hrun : exec dispNext (DispState.init ⟨1, 0⟩) discardSteps = some _ := rfl
  refine ⟨rfl, _, hrun, rfl, ignored_never_handled ?_ hrun⟩
  refine meets_cons trivial rfl (meets_cons trivial rfl (meets_cons nofun rfl ?_))
  refine meets_cons trivial rfl (meets_cons trivial rfl (meets_cons (fun _ set => ?_) rfl ?_))
  · cases set with
    | shared => rfl
    | thread t =>
      -- nothing is pending for a thread
      have hzero : (queuesOf SignalPending.zero 10).length = 0 := rfl
      refine (congrArg (fun p => (queuesOf p 10).length) ?_).trans hzero
      rfl
  · exact meets_cons trivial rfl (meets_cons trivial rfl trivial)

/-- SIGUSR1 is sent while it is blocked, ignored, and given a handler, which then runs for it. -/
theorem ignored_then_handled : (exec dispNext (DispState.init ⟨1, 0⟩)
    [mainMask (sigBit 10), usr1Send, usr1Action .ign, usr1Action .handler, mainMask 0,
      .deliver none true]).map (fun s => s.ran.map fun x => (x.1.signum, x.2)) =
    some [(10, true)] := by
  rfl

end Elfuse
