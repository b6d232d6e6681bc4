/-
Claims on process-directed signals.

A waiter that wakes for a shared signal claims it: the signal stays in the
shared set and is hidden from every other thread as long as the claimer leaves
it unblocked. `thread_deactivate` gives a thread's claims back before its slot is
freed; a child made by `clone` with `CLONE_VM` ends without it, in
`vm_clone_thread_run`, and its slot is freed in `thread_ptrace_wait`.

* `signalClaimWaking`, `signalReleaseClaims`, `signalResetForExec` — what makes
  claims and gives them back, beside the consumers;
* `claims_strand_none` — no signal is stranded in a run whose `CLONE_VM` children
  end without claims;
* `vmClone_strands` — one that ends with a claim takes the signal along.
-/
import Elfuse.Syscall.SignalQueues

namespace Elfuse

open BitVec Bool Function List Runs

/-! ### Making claims and giving them back -/

/-- What an action does with its signal, as far as waits care. -/
inductive SigAction
  | ign
  | dfl
  | handler

/-- The signals `signal_default_disposition` ignores, stops or continues the process on. -/
def quietByDefault (signum : ℕ) : Bool := decide (17 ≤ signum ∧ signum ≤ 23 ∨ signum = 28)

/-- The signal reaches the guest or ends it. -/
def SigAction.wakes : SigAction → ℕ → Bool
  | .ign, _ => false
  | .dfl, signum => !quietByDefault signum
  | .handler, _ => true

def signalFirstWaking (actions : ℕ → SigAction) (candidates : BitVec 64) : Option ℕ :=
  ((setBits candidates).find? fun idx => (actions idx).wakes (idx + 1)).map (· + 1)

/-- Model of `signal_claim_waking_locked` in thread `t`. -/
def signalClaimWaking (s : SigState) (t : ℕ) (actions : ℕ → SigAction) (blocked : BitVec 64) :
    SigState :=
  if (signalFirstWaking actions ((s.priv t).pending &&& ~~~blocked)).isSome then s
  else
    match signalFirstWaking actions (sharedVisible s (some t) &&& ~~~blocked) with
    | none => s
    | some signum => ((SigOp.claim t signum).run s).2

def signalReleaseClaims (s : SigState) (t : ℕ) : SigState :=
  { s with ctl := { s.ctl with
    claims := (setBits s.ctl.claims.claimed).foldl
      (fun c idx => if c.owner idx = some t then c.release (idx + 1) else c) s.ctl.claims } }

/-- Model of `signal_reset_for_exec` in thread `t`. -/
def signalResetForExec (s : SigState) (t : ℕ) : SigState :=
  let s := posixTimerDiscardPending (posixTimerDiscardPending s .shared (-1)) (.thread t) (-1)
  let s := refreshPendingHint s
  { s with ctl := { s.ctl with
    timers := fun _ => PosixTimer.zero
    nextSlot := fun _ => 0
    savedValid := Function.update s.ctl.savedValid t false
    claims := ⟨0, fun _ => none⟩ } }

/-- A critical section of the sets, or one of these. -/
inductive ClaimStep
  | pending (op : SigOp)
  | claimWaking (t : ℕ) (actions : ℕ → SigAction) (blocked : BitVec 64)
  | releaseClaims (t : ℕ)
  | resetForExec (t : ℕ)
  /-- The end of a `CLONE_VM` child. -/
  | vmCloneExit (t : ℕ)

def claimNext (s : SigState) : ClaimStep → Option SigState
  -- `thread_deactivate`
  | .pending (.threadExit t) =>
    if s.ctl.isLive (some t) then some ((SigOp.threadExit t).run (signalReleaseClaims s t)).2
    else none
  | .pending op => if op.legal s.ctl then some (op.run s).2 else none
  | .claimWaking t actions blocked =>
    if s.ctl.isLive (some t) then some (signalClaimWaking s t actions blocked) else none
  | .releaseClaims t => some (signalReleaseClaims s t)
  | .resetForExec t => if s.ctl.isLive (some t) then some (signalResetForExec s t) else none
  | .vmCloneExit t =>
    if s.ctl.isLive (some t) then some ((SigOp.threadExit t).run s).2 else none

def SigClaims.Live (active : ℕ → Bool) (c : SigClaims) : Prop :=
  ∀ i, c.claimed.getLsbD i = true → ∃ t < maxThreads, c.owner i = some t ∧ active t = true

def SigState.ClaimsLive (s : SigState) : Prop := s.ctl.claims.Live s.ctl.active

/-- A `CLONE_VM` child that ends has no claim. -/
def EndsClean (s : SigState) : ClaimStep → Prop
  | .vmCloneExit t => ∀ i ∈ setBits s.ctl.claims.claimed, s.ctl.claims.owner i ≠ some t
  | _ => True

/-- Every claimer is alive, and of the live threads that do not block a pending shared signal, one
sees it. -/
structure NoneStranded (s : SigState) : Prop where
  live : s.ClaimsLive
  seen : ∀ i t, s.shared.pending.getLsbD i = true → s.ctl.isLive (some t) = true →
    (s.ctl.blocked t).getLsbD i = false → ∃ u, s.ctl.isLive (some u) = true ∧
      (s.ctl.blocked u).getLsbD i = false ∧ (sharedVisible s (some u)).getLsbD i = true

/-! ### Claims are given back -/

lemma isSignal_succ (hi : i < 64) : isSignal (i + 1) :=
  isSignal_iff.mpr ⟨Nat.le_add_left 1 i, hi⟩

lemma isSignal_ctz (h : w ≠ 0) : isSignal (bitCtz64 w + 1) :=
  isSignal_succ (bitCtz64_spec h).1

lemma isSignal_ctz_or (h : ¬ w ||| w' = 0) (hw : ¬ w ≠ 0) : isSignal (bitCtz64 w' + 1) := by
  refine isSignal_ctz fun hzero => h ?_
  rw [hzero, not_not.mp hw]
  rfl

variable {active : ℕ → Bool} {c : SigClaims} {s : SigState} {n t : ℕ} {cur : Option ℕ}
  {set : SigSet}

lemma claimed_release (hn : isSignal n) (hi : (c.release n).claimed.getLsbD i) :
    c.claimed.getLsbD i ∧ i ≠ n - 1 ∧ (c.release n).owner i = c.owner i := by
  have hbit := getLsbD_and_not_sigBit hn (isSignal_succ (lt_of_getLsbD hi)) c.claimed
  rw [Nat.add_sub_cancel] at hbit
  obtain ⟨hne, hi⟩ := and_eq_true_iff.mp (hbit.symm.trans hi)
  have hn1 := (isSignal_iff.mp hn).1
  simp only [not_eq_true', decide_eq_false_iff_not] at hne
  have hne : i ≠ n - 1 := by omega
  exact ⟨hi, hne, update_of_ne hne _ _⟩

lemma SigClaims.Live.release (h : c.Live active) (hn : isSignal n) : (c.release n).Live active := by
  intro i hi
  obtain ⟨hi, -, howner⟩ := claimed_release hn hi
  rw [howner]
  exact h i hi

lemma SigClaims.Live.releaseIf (h : c.Live active) [Decidable p]
    (hn : isSignal n) : (if p then c.release n else c).Live active := by
  split
  · exact h.release hn
  · exact h

section
variable (h : s.ClaimsLive)
include h

lemma deliverOne_live : (signalDeliverOne s cur).2.ClaimsLive := by
  rw [signalDeliverOne]
  split
  · exact h
  rename_i hsome
  refine h.releaseIf ?_
  split
  · exact isSignal_ctz ‹_›
  split
  · exact isSignal_ctz ‹_›
  exact isSignal_ctz_or hsome ‹_›

lemma sigtimedwait_live (mask : BitVec 64) : (sigtimedwaitTryDequeue s cur mask).2.ClaimsLive := by
  rw [sigtimedwaitTryDequeue]
  split
  · exact h
  rename_i hsome
  refine h.releaseIf ?_
  split
  · exact isSignal_ctz ‹_›
  exact isSignal_ctz_or hsome ‹_›

lemma takeExactOne_live (hr : signalTakeExactOne s cur want = some r) : r.2.ClaimsLive := by
  rw [signalTakeExactOne] at hr
  dsimp only at hr
  split at hr
  · cases hr
  have hlive : ∀ set : SigSet, (if set = .shared then s.ctl.claims.release want.1.signum
      else s.ctl.claims).Live s.ctl.active :=
    fun _ => h.releaseIf (isSignal_iff.mpr (by omega))
  split at hr
  · cases hr
  split at hr
  · cases hr
  split at hr
  · split at hr
    · cases hr
    split at hr
    · cases hr
    cases hr
    exact hlive _
  · split at hr
    · cases hr
    cases hr
    exact hlive _

lemma claim_live (ht : s.ctl.isLive (some t)) (hn : isSignal n) :
    ((SigOp.claim t n).run s).2.ClaimsLive := by
  intro i hi
  obtain ⟨htlt, hactive⟩ := and_eq_true_iff.mp ht
  by_cases heq : i = n - 1
  · exact ⟨t, of_decide_eq_true htlt, by rw [heq]; exact update_self _ _ _, hactive⟩
  have hbit := getLsbD_or_sigBit hn (isSignal_succ (lt_of_getLsbD hi)) s.ctl.claims.claimed
  rw [Nat.add_sub_cancel] at hbit
  have hold := hbit.symm.trans hi
  rw [decide_eq_false (by omega), Bool.false_or] at hold
  obtain ⟨u, hlt, hu, hlive⟩ := h i hold
  exact ⟨u, hlt, (update_of_ne heq _ _).trans hu, hlive⟩

end

lemma takeExactLoop_live (expected : List (RtInfo × ℕ)) (h : s.ClaimsLive) :
    (signalTakeExactLoop cur expected s).2.ClaimsLive := by
  induction expected generalizing s with
  | nil => exact h
  | cons want rest ih =>
    rw [signalTakeExactLoop]
    split
    · exact h
    · exact ih (takeExactOne_live h ‹_›)

lemma timerEnqueue_live (signum start n offset : ℕ) (h : s.ClaimsLive) :
    (posixTimerEnqueueLoop signum start n offset s).ClaimsLive := by
  induction n generalizing offset s with
  | zero => exact h
  | succ n ih =>
    rw [posixTimerEnqueueLoop]
    split
    · split
      · exact h
      · exact ih _ h
    · exact ih _ h

lemma discardLoop_live (id : ℤ) (p : SignalPending) (l : List ℕ) (hl : ∀ i ∈ l, i < 64)
    (h : c.Live active) : (posixTimerDiscardLoop id set p c l).2.Live active := by
  induction l generalizing p c with
  | nil => exact h
  | cons i l ih =>
    have hrest := fun j hj => hl j (mem_cons_of_mem i hj)
    rw [posixTimerDiscardLoop]
    split
    · exact ih _ hrest h
    · exact ih _ hrest (h.releaseIf (isSignal_succ (hl i mem_cons_self)))

/-- What is left after the loop of `signal_release_claims`. -/
lemma claimed_releaseLoop (l : List ℕ) (hl : ∀ i ∈ l, i < 64) (hi : (l.foldl (fun c idx =>
      if c.owner idx = some t then c.release (idx + 1) else c) c).claimed.getLsbD i) :
    c.claimed.getLsbD i ∧ (i ∈ l → c.owner i ≠ some t) ∧ (l.foldl (fun c idx =>
      if c.owner idx = some t then c.release (idx + 1) else c) c).owner i = c.owner i := by
  induction l generalizing c with
  | nil => exact ⟨hi, nofun, rfl⟩
  | cons j l ih =>
    rw [foldl_cons] at hi ⊢
    obtain ⟨hclaimed, hrest, howner⟩ := ih (fun k hk => hl k (mem_cons_of_mem j hk)) hi
    rw [howner]
    split at hclaimed
    case isTrue hj =>
      obtain ⟨hold, hne, hsame⟩ := claimed_release (isSignal_succ (hl j mem_cons_self)) hclaimed
      grind
    case isFalse hj => grind

lemma lt_of_setBits : ∀ i ∈ setBits w, i < 64 :=
  fun _ hi => lt_of_getLsbD (mem_setBits.mp hi)

/-! ### Runs -/

lemma releaseClaims_spec (hi : (signalReleaseClaims s t).ctl.claims.claimed.getLsbD i) :
    s.ctl.claims.claimed.getLsbD i ∧ s.ctl.claims.owner i ≠ some t ∧
      (signalReleaseClaims s t).ctl.claims.owner i = s.ctl.claims.owner i := by
  obtain ⟨hold, hother, howner⟩ := claimed_releaseLoop _ lt_of_setBits hi
  exact ⟨hold, hother (mem_setBits.mpr hold), howner⟩

lemma releaseClaims_live (h : s.ClaimsLive) : (signalReleaseClaims s t).ClaimsLive := by
  intro i hi
  obtain ⟨hold, -, howner⟩ := releaseClaims_spec hi
  rw [howner]
  exact h i hold

lemma threadExit_live (h : s.ClaimsLive)
    (hclean : ∀ i, s.ctl.claims.claimed.getLsbD i → s.ctl.claims.owner i ≠ some t) :
    ((SigOp.threadExit t).run s).2.ClaimsLive := by
  intro i hi
  obtain ⟨u, hlt, hu, hlive⟩ := h i hi
  have hne : u ≠ t := by
    rintro rfl
    exact hclean i hi hu
  exact ⟨u, hlt, hu, (update_of_ne hne _ _).trans hlive⟩

lemma pending_live {op : SigOp} (h : s.ClaimsLive) (hlegal : op.legal s.ctl)
    (hop : ∀ t, op ≠ .threadExit t) : (op.run s).2.ClaimsLive := by
  cases op with
  | enqueue set signum info => cases set <;> exact h
  | rtDequeue set signum => exact h
  | deliverOne cur => exact deliverOne_live h
  | sigtimedwait cur mask => exact sigtimedwait_live h mask
  | peekSignalfd cur mask max => exact h
  | takeSignalfd cur expected => exact takeExactLoop_live expected h
  | timerEnqueue signum => exact timerEnqueue_live _ _ _ _ h
  | timerUpdate slot =>
    rw [SigOp.run, posixTimerUpdatePending]
    split <;> exact h
  | discard set id => exact discardLoop_live id _ _ lt_of_setBits h
  | claim t signum =>
    obtain ⟨ht, hn⟩ := and_eq_true_iff.mp hlegal
    exact claim_live h ht hn
  | control blocked savedValid procBlocked timers nextSlot ids => exact h
  | threadStart t =>
    intro i hi
    obtain ⟨u, hlt, hu, hlive⟩ := h i hi
    refine ⟨u, hlt, hu, ?_⟩
    show update s.ctl.active t true u
    rw [update_apply, hlive, ite_self]
  | threadExit t => exact absurd rfl (hop t)

lemma firstWaking_isSignal (h : signalFirstWaking actions w = some n) : isSignal n := by
  obtain ⟨i, hi, rfl⟩ := Option.map_eq_some_iff.mp h
  exact isSignal_succ (lt_of_setBits i (mem_of_find?_eq_some hi))

lemma claimNext_live (h : s.ClaimsLive)
    (hclean : EndsClean s l) (hs : claimNext s l = some s') : s'.ClaimsLive := by
  cases l with
  | pending op =>
    by_cases hop : ∃ t, op = .threadExit t
    · obtain ⟨t, rfl⟩ := hop
      obtain ⟨-, hs⟩ := guarded hs
      cases hs
      refine threadExit_live (releaseClaims_live h) fun i hi => ?_
      obtain ⟨-, hother, howner⟩ := releaseClaims_spec hi
      rwa [howner]
    · rw [claimNext] at hs
      · obtain ⟨hlegal, hs⟩ := guarded hs
        cases hs
        exact pending_live h hlegal fun t ht => hop ⟨t, ht⟩
      · exact fun t ht => hop ⟨t, ht⟩
  | claimWaking t actions blocked =>
    obtain ⟨ht, hs⟩ := guarded hs
    cases hs
    rw [signalClaimWaking]
    split
    · exact h
    split
    · exact h
    · exact claim_live h ht (firstWaking_isSignal ‹_›)
  | releaseClaims t =>
    cases hs
    exact releaseClaims_live h
  | resetForExec t =>
    obtain ⟨-, hs⟩ := guarded hs
    cases hs
    intro i hi
    exact absurd hi (by simp [signalResetForExec])
  | vmCloneExit t =>
    obtain ⟨-, hs⟩ := guarded hs
    cases hs
    exact threadExit_live h fun i hi => hclean i (mem_setBits.mpr hi)

lemma noneStranded_of_live (h : s.ClaimsLive) : NoneStranded s := by
  refine ⟨h, fun i t hpend hlive hopen => ?_⟩
  by_cases hhid : s.ctl.hidden (some t) (i + 1)
  · rw [SigControl.hidden, Nat.add_sub_cancel, and_eq_true, and_eq_true] at hhid
    obtain ⟨⟨hclaimed, -⟩, hopen'⟩ := hhid
    obtain ⟨u, hlt, hu, hactive⟩ := h i hclaimed
    rw [SigControl.ownerBlocks, hu] at hopen'
    refine ⟨u, and_eq_true_iff.mpr ⟨decide_eq_true hlt, hactive⟩, by simpa using hopen', ?_⟩
    simp [getLsbD_sharedVisible, hpend, SigControl.hidden, hu]
  · refine ⟨t, hlive, hopen, ?_⟩
    rw [getLsbD_sharedVisible, hpend, eq_false_of_not_eq_true hhid]
    rfl

/-- Every run in which no `CLONE_VM` child ends with a claim strands no signal. -/
theorem claims_strand_none {ids : SigIds} {ls : List ClaimStep}
    (hclean : Meets claimNext EndsClean (SigRun.init ids).state ls)
    (hrun : exec claimNext (SigRun.init ids).state ls = some s) : NoneStranded s := by
  refine noneStranded_of_live (exec_keeps_of_meets (P := fun s => s.ClaimsLive)
    EndsClean (fun s l t hs hok => claimNext_live hs hok) ?_ hclean hrun)
  intro i hi
  exact absurd hi (by simp [SigRun.init, SigControl.init])

/-- Two threads, a SIGTERM for the process that the second claims, and how that one ends. -/
def claimSteps (ending : List ClaimStep) : List ClaimStep :=
  .pending (.threadStart 0) :: .pending (.threadStart 1) :: .pending (.enqueue .shared 15 none) ::
    .claimWaking 1 (fun _ => .handler) 0 :: ending

/-- The claimer ends through `thread_deactivate`, and then a `CLONE_VM` child without claims. -/
theorem claims_strand_none_released : ∃ s, exec claimNext (SigRun.init ⟨1, 0⟩).state
    (claimSteps [.pending (.threadExit 1), .pending (.threadStart 1), .vmCloneExit 1]) = some s ∧
      s.shared.pending.getLsbD 14 = true ∧ NoneStranded s := by
  have hrun : exec claimNext (SigRun.init ⟨1, 0⟩).state
      (claimSteps [.pending (.threadExit 1), .pending (.threadStart 1), .vmCloneExit 1]) = some _ :=
    rfl
  refine ⟨_, hrun, rfl, claims_strand_none ?_ hrun⟩
  refine meets_cons trivial rfl (meets_cons trivial rfl (meets_cons trivial rfl ?_))
  refine meets_cons trivial rfl (meets_cons trivial rfl (meets_cons trivial rfl ?_))
  refine meets_cons (fun i hi => ?_) rfl trivial
  exact absurd (show i ∈ [] from hi) not_mem_nil

/-- It ends as a `CLONE_VM` child does: SIGTERM is pending, the first thread does not block it and
does not see it, and its claimer is gone. -/
theorem vmClone_strands : (exec claimNext (SigRun.init ⟨1, 0⟩).state
    (claimSteps [.vmCloneExit 1])).map (fun s =>
    (s.shared.pending.getLsbD 14, (s.ctl.blocked 0).getLsbD 14,
      (sharedVisible s (some 0)).getLsbD 14, s.ctl.isLive (some 0), s.ctl.isLive (some 1))) =
    some (true, false, false, true, false) := by
  rfl

end Elfuse
