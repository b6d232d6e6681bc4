/-
When `epoll_pwait` sleeps (`syscall/poll.c`).

The host's queue says nothing about a pty master that has hung up, nor about a
descriptor that is always readable and takes no filter. The wait asks for both
before its loop, and then lets the host wait for no time; the loop asks again
after each round without an event, but only for the masters. It does not ask
when it is entered again after a pass whose events were all muted.

* `epoll_parks_idle` — a wait that sleeps has nothing to report, if nothing is
  always readable or no round was without an event, and no master hung up in a
  pass whose events were muted.
-/
import Elfuse.Syscall.EpollInterest

namespace Elfuse

open EpollInst List Runs

/-! ### The scan -/

/-- The loop of `epoll_collect_hung_up`, which has seen `seen` active registrations; `hung` is
`proc_pty_master_hung_up`. No thread changes the registrations between its batches. -/
def hungScan (inst : EpollInst) (hung : ℕ → ℕ → Bool) : List ℕ → ℕ → List (ℕ × ℕ)
  | [], _ => []
  | gfd :: gfds, seen =>
    let reg := inst.regs gfd
    if inst.activeCount ≤ seen then []
    else if !reg.active then hungScan inst hung gfds seen
    else
      let rest := hungScan inst hung gfds (seen + 1)
      if reg.oneshotArmed || !reg.ptyMaster || !hung gfd reg.generation then rest
      else (gfd, reg.generation) :: rest

def epollCollectHungUp (inst : EpollInst) (hung : ℕ → ℕ → Bool) (max : ℕ) : List (ℕ × ℕ) :=
  if inst.ptyMasterCount = 0 then []
  else (hungScan inst hung (List.range fdTableSize) 0).take max

/-! ### The loop -/

/-- Model of `slice_ms`, at the time `now`; `pending` is `signal_pending_interruption`. -/
def epollSliceMs (hupReady pending : Bool) (deadlineMs now : ℤ) : ℤ :=
  if hupReady || pending then 0 else pollSliceMs deadlineMs now

/-- The loop between two passes, with the masters that are hung up then. -/
structure EpollLoop where
  wait : EpollWait
  hupReady : Bool
  hung : ℕ → ℕ → Bool
  kq : Kqueue

def epollLoopStart (inst : EpollInst) (w : EpollWait) (hung : ℕ → ℕ → Bool) (kq : Kqueue) :
    EpollLoop :=
  ⟨w, epollCollectHungUp inst hung 1 ≠ [] || 0 < inst.alwaysReadableCount, hung, kq⟩

/-- A pass after which the wait goes on: a round without an event, or one whose events are muted,
from which `goto epoll_rewait` leads back with `hup_ready` as it was. -/
def epollLoopNext (c : EpollCall) (inst : EpollInst) (s : EpollLoop)
    (l : EpollPass × (ℕ → ℕ → Bool)) : Option EpollLoop :=
  let hupReady : Bool := epollCollectHungUp inst l.2 1 ≠ []
  match epollPass c s.wait { l.1 with hung := hupReady } inst s.kq with
  | (.inl w, _, kq) => some ⟨w, if l.1.batch = [] then hupReady else s.hupReady, l.2, kq⟩
  | (.inr _, _) => none

/-- A registration that is not fired, of a descriptor that is always readable and is to be read. -/
def EpollInst.AlwaysReady (inst : EpollInst) (gfd : ℕ) : Prop :=
  (inst.regs gfd).active = true ∧ (inst.regs gfd).oneshotArmed = false ∧
    (inst.regs gfd).alwaysReadable = true ∧ hasAny (inst.regs gfd).events linuxEpollReadable = true

/-- A registration that is not fired, of a pty master that has hung up. -/
def EpollInst.HungUp (inst : EpollInst) (hung : ℕ → ℕ → Bool) (gfd : ℕ) : Prop :=
  (inst.regs gfd).active = true ∧ (inst.regs gfd).oneshotArmed = false ∧
    (inst.regs gfd).ptyMaster = true ∧ hung gfd (inst.regs gfd).generation = true

/-- In a pass whose events are muted no master hangs up that `hup_ready` does not tell of. -/
def ReentryFresh (inst : EpollInst) (s : EpollLoop) (l : EpollPass × (ℕ → ℕ → Bool)) : Prop :=
  l.1.batch ≠ [] → s.hupReady = false → ∀ g, ¬ inst.HungUp l.2 g

/-! ### What the probes find -/

variable {inst : EpollInst} {hung : ℕ → ℕ → Bool} {gfd : ℕ}

lemma tally_eq_countP (q : EpollReg → Bool) (regs : ℕ → EpollReg) :
    tally q regs = (range fdTableSize).countP fun gfd => q (regs gfd) := by
  unfold tally
  induction fdTableSize with
  | zero => rfl
  | succ n ih => rw [Finset.sum_range_succ, ih, range_succ, countP_append, countP_singleton]; grind

/-- As long as a registration is to come, fewer than all active ones have been seen. -/
lemma mem_hungScan (h : inst.HungUp hung gfd) {gfds : List ℕ} (hmem : gfd ∈ gfds) {seen : ℕ}
    (hseen : seen + gfds.countP (fun g => (inst.regs g).active) ≤ inst.activeCount) :
    (gfd, (inst.regs gfd).generation) ∈ hungScan inst hung gfds seen := by
  induction gfds generalizing seen with
  | nil => cases hmem
  | cons g gfds ih =>
    have hpos : 0 < (g :: gfds).countP fun g => (inst.regs g).active :=
      countP_pos_iff.mpr ⟨gfd, hmem, h.1⟩
    -- so the scan is not cut short here
    rw [hungScan, if_neg (by omega)]
    rw [countP_cons] at hseen
    obtain rfl | hmem := mem_cons.mp hmem
    · rw [h.1, h.2.1, h.2.2.1, h.2.2.2]
      exact mem_cons_self
    cases hactive : (inst.regs g).active with
    | false =>
      rw [hactive] at hseen
      exact ih hmem hseen
    | true =>
      rw [hactive, if_pos rfl] at hseen
      have hrest := @ih hmem (seen + 1) (by omega)
      rw [if_neg nofun]
      split
      · exact hrest
      · exact mem_cons_of_mem _ hrest

lemma collectHungUp_ne_nil (hcounts : EpollCounts inst) (hgfd : gfd < fdTableSize)
    (h : inst.HungUp hung gfd) : epollCollectHungUp inst hung 1 ≠ [] := by
  have hpty := toNat_le_tally EpollReg.ptyMaster inst.regs hgfd
  have hseen : 0 + (range fdTableSize).countP (fun g => (inst.regs g).active) ≤
      inst.activeCount := by
    rw [hcounts.active, tally_eq_countP]
    omega
  have hmem := mem_hungScan h (mem_range.mpr hgfd) hseen
  rw [h.2.2.1, ← hcounts.pty] at hpty
  rw [epollCollectHungUp, if_neg (by simpa using Nat.pos_iff_ne_zero.mp hpty)]
  obtain ⟨a, as, has⟩ := exists_cons_of_ne_nil (ne_nil_of_mem hmem)
  rw [has]
  nofun

lemma epollLoopNext_some {c : EpollCall} {s t : EpollLoop} {l : EpollPass × (ℕ → ℕ → Bool)}
    (hn : epollLoopNext c inst s l = some t) : t.hung = l.2 ∧ t.hupReady =
      if l.1.batch = [] then decide (epollCollectHungUp inst l.2 1 ≠ []) else s.hupReady := by
  unfold epollLoopNext at hn
  dsimp only at hn
  split at hn
  · cases hn
    exact ⟨rfl, rfl⟩
  · cases hn

/-- A wait that lets the host sleep knows of nothing to report, if no round before was without an
event or no registration is always ready. -/
theorem epoll_parks_idle (hcounts : EpollCounts inst) {c : EpollCall} {kq : Kqueue} {w : EpollWait}
    {ls : List (EpollPass × (ℕ → ℕ → Bool))} {s : EpollLoop}
    (hfresh : Meets (epollLoopNext c inst) (ReentryFresh inst) (epollLoopStart inst w hung kq) ls)
    (hrun : exec (epollLoopNext c inst) (epollLoopStart inst w hung kq) ls = some s)
    {pending : Bool} {now : ℤ} (hslice : epollSliceMs s.hupReady pending s.wait.deadlineMs now ≠ 0)
    (hfirst : (∀ l ∈ ls, l.1.batch ≠ []) ∨ ∀ g, ¬ inst.AlwaysReady g) (hgfd : gfd < fdTableSize) :
    ¬ inst.HungUp s.hung gfd ∧ ¬ inst.AlwaysReady gfd := by
  have hready : s.hupReady = false := by
    unfold epollSliceMs at hslice
    grind
  -- a probe asks about the masters as they are then
  have hprobe : ∀ {hung}, decide (epollCollectHungUp inst hung 1 ≠ []) = false →
      ¬ inst.HungUp hung gfd := fun hno h =>
    of_decide_eq_false hno (collectHungUp_ne_nil hcounts hgfd h)
  have hinv : s.hupReady = false → ¬ inst.HungUp s.hung gfd := by
    refine exec_keeps_of_meets (P := fun s : EpollLoop => s.hupReady = false →
      ¬ inst.HungUp s.hung gfd) (ReentryFresh inst) ?_ ?_ hfresh hrun
    · intro s l t _ hok hn hno
      obtain ⟨hhung, hhup⟩ := epollLoopNext_some hn
      rw [hhup] at hno
      rw [hhung]
      split at hno
      · exact hprobe hno
      · exact hok ‹_› hno gfd
    · exact fun h => hprobe (Bool.or_eq_false_iff.mp h).1
  refine ⟨hinv hready, ?_⟩
  obtain hsome | hnone := hfirst
  · -- the flag is that of the start, so the count is zero
    have hstart : s.hupReady = (epollLoopStart inst w hung kq).hupReady := by
      refine exec_keeps_of_meets (P := fun s : EpollLoop => s.hupReady =
        (epollLoopStart inst w hung kq).hupReady) (fun _ l => l.1.batch ≠ []) ?_ rfl
        (meets_of_forall fun l hl _ => hsome l hl) hrun
      intro s l t hs hne hn
      rw [(epollLoopNext_some hn).2, if_neg hne, hs]
    have hzero : inst.alwaysReadableCount = 0 := by
      simpa using (Bool.or_eq_false_iff.mp (hstart.symm.trans hready)).2
    intro h
    have hle := toNat_le_tally EpollReg.alwaysReadable inst.regs hgfd
    rw [h.2.2.1, ← hcounts.always, hzero] at hle
    cases hle
  · exact hnone gfd

/-- A round without an event. -/
def idlePass : EpollPass :=
  { kevents := .ok [], interrupts := ⟨false, false, false⟩, leaderOnly := false, hung := false
    breakUsb := fun _ => ⟨false, false, false⟩, now := 0
    seen := ⟨[], fun _ => ⟨false, false, false⟩, fun _ => ⟨false, false, false⟩⟩
    muteOk := fun _ => true, later := 0 }

/-- A pty master at guest descriptor 5 and a usbfs device at 6, both to be read. -/
def ptyUsbInst : EpollInst :=
  epollStoreReg (epollStoreReg .new 5 linuxEpollin 1 FdEntry.zero true false) 6 linuxEpollin 2
    { FdEntry.zero with type := .usbdev } false false

/-- A completion of the device that shows nothing is muted, then a round brings no event. -/
def mutedRounds : List (EpollPass × (ℕ → ℕ → Bool)) :=
  [({ idlePass with kevents := .ok [⟨10, .read, 6, false, false⟩] }, fun _ _ => false),
    (idlePass, fun _ _ => false)]

theorem epoll_parks_idle_muted : ∃ s, exec (epollLoopNext ⟨.ok 3, 1, -1, true, true, 0⟩ ptyUsbInst)
      (epollLoopStart ptyUsbInst ⟨1, -1, []⟩ (fun _ _ => false) fun _ _ => none) mutedRounds =
        some s ∧ s.wait.muted.length = 1 ∧ epollSliceMs s.hupReady false s.wait.deadlineMs 0 = 200 ∧
      ¬ ptyUsbInst.HungUp s.hung 5 ∧ ¬ ptyUsbInst.AlwaysReady 5 := by
  have hcounts : EpollCounts ptyUsbInst := (counts_new.store (by decide) _ _ _ _ _).store
    (by decide) _ _ _ _ _
  have hend : (exec (epollLoopNext ⟨.ok 3, 1, -1, true, true, 0⟩ ptyUsbInst)
      (epollLoopStart ptyUsbInst ⟨1, -1, []⟩ (fun _ _ => false) fun _ _ => none) mutedRounds).map
      (fun s => (s.wait.muted.length, epollSliceMs s.hupReady false s.wait.deadlineMs 0)) =
    some (1, 200) := by
    decide +kernel
  obtain ⟨s, hrun, hs⟩ := Option.map_eq_some_iff.mp hend
  obtain ⟨hmuted, hslice⟩ := Prod.mk.inj hs
  refine ⟨s, hrun, hmuted, hslice, epoll_parks_idle hcounts (meets_of_forall fun l hl _ => ?_) hrun
    (hslice.trans_ne (by decide)) (.inr fun g hg => ?_) (by decide)⟩
  · -- no master hangs up in these rounds
    rintro - - g ⟨-, -, -, hhung⟩
    simp only [mutedRounds, mem_cons, not_mem_nil, or_false] at hl
    obtain rfl | rfl := hl <;> cases hhung
  · obtain ⟨-, -, halways, -⟩ := hg
    simp only [ptyUsbInst, epollStoreReg, new, Function.update_apply] at halways
    grind

/-- `/dev/random` at guest descriptor 5, to be read. -/
def randomInst : EpollInst := epollStoreReg .new 5 linuxEpollin 1 FdEntry.zero false true

/-- After one round a wait without a deadline sleeps, with a descriptor that is always readable. -/
theorem epoll_sleeps_on_random : randomInst.AlwaysReady 5 ∧
    (exec (epollLoopNext ⟨.ok 3, 1, -1, true, true, 0⟩ randomInst)
      (epollLoopStart randomInst ⟨1, -1, []⟩ (fun _ _ => false) fun _ _ => none)
      [(idlePass, fun _ _ => false)]).map
          (fun s => epollSliceMs s.hupReady false s.wait.deadlineMs 0) = some 200 :=
  ⟨⟨rfl, rfl, rfl, rfl⟩, rfl⟩

end Elfuse
