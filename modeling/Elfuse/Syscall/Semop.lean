/-
Operations on a set of semaphores with `semop` (`syscall/sysvipc.c`).

A blocking host call cannot be woken, so every array is tried without waiting,
again and again. When the host refuses it, whether the guest is owed `EAGAIN`
depends on the operation that stopped it, and the values are read to find that
one. Other processes may change the set between any two steps.

* `semop_like_linux` — what a call has done when it returns, and when it refuses.
-/
import Elfuse.Syscall.Ppoll

namespace Elfuse

open Function List Runs

/-! ### The array -/

/-- Model of `struct sembuf`; of the flags only `IPC_NOWAIT` is looked at. -/
structure Sembuf where
  num : ℕ
  op : ℤ
  nowait : Bool
  deriving DecidableEq, Repr

/-- The values of a set. -/
abbrev SemVals := ℕ → ℤ

/-- What `semop_first_blocker` answers. -/
inductive SemBlocker
  | none
  | unknown
  | op (i : ℕ)
  deriving DecidableEq, Repr

/-- The value an operation finds: what the last earlier one on its semaphore left (the first in
`after`), or else the value that was read. -/
def semCur (vals : SemVals) (after : List (ℕ × ℤ)) : SemVals := fun num =>
  ((after.find? fun a => a.1 = num).map Prod.snd).getD (vals num)

/-- The walk of `semop_first_blocker` from operation `i` on. -/
def semopWalk (nsems : ℕ) (vals : SemVals) : List Sembuf → ℕ → List (ℕ × ℤ) → SemBlocker
  | [], _, _ => .none
  | s :: sops, i, after =>
    if nsems ≤ s.num then .unknown
    else
      let cur := semCur vals after s.num
      if s.op = 0 ∧ cur ≠ 0 then .op i
      else if s.op < 0 ∧ cur < -s.op then .op i
      else semopWalk nsems vals sops (i + 1) ((s.num, cur + s.op) :: after)

/-- Model of `semop_first_blocker`, when the values can be read. -/
def semopFirstBlocker (nsems : ℕ) (vals : SemVals) (sops : List Sembuf) : SemBlocker :=
  if nsems = 0 then .unknown else semopWalk nsems vals sops 0 []

/-! ### What Linux does with it -/

/-- The operation need not wait for the value `cur` to change. -/
def Sembuf.Proceeds (s : Sembuf) (cur : ℤ) : Prop :=
  (s.op = 0 → cur = 0) ∧ (s.op < 0 → -s.op ≤ cur)

instance (s : Sembuf) (cur : ℤ) : Decidable (s.Proceeds cur) :=
  inferInstanceAs (Decidable (_ ∧ _))

def Sembuf.apply (v : SemVals) (s : Sembuf) : SemVals := update v s.num (v s.num + s.op)

/-- The first operation that cannot proceed when the array is applied in order. -/
def firstWaiting (v : SemVals) : List Sembuf → Option ℕ
  | [] => none
  | s :: sops =>
    if s.Proceeds (v s.num) then (firstWaiting (s.apply v) sops).map (· + 1) else some 0

/-! ### The call -/

/-- Where `sys_semop` is: before the host's `semop`, before the values are read, before
`io_retry_backoff`, or at its end. -/
inductive SemPc
  | call
  | probe
  | rest
  | done (rc : ℤ)
  deriving DecidableEq

/-- The set, with what the call keeps, the values it has read, and the values before and after each
application of its array. -/
structure SemSys where
  vals : SemVals
  pc : SemPc
  waited : Bool
  hasVals : Bool
  seen : List SemVals
  applied : List (SemVals × SemVals)

inductive SemAct
  /-- Other processes change the set. -/
  | others (vals : SemVals)
  /-- The host's `semop`; an error other than `EAGAIN` is the host's own. -/
  | semop (err : Option HostErrno)
  | probe (alloc : Bool)
  | backoff (interrupted : Bool)

def linuxEidrm : ℤ := 43

def sysvPollErrno (waited : Bool) (err : ℤ) : ℤ :=
  if waited && err = linuxEinval then -linuxEidrm else -err

/-- `sys_semop` up to its loop; there is no array when it cannot be read. -/
def semStart (vals : SemVals) (nsops : ℕ) (sops : Option (List Sembuf)) : SemSys :=
  let pc := if nsops = 0 ∨ 256 < nsops then .done (-linuxEinval)
    else if sops.isNone then .done (-linuxEfault) else .call
  ⟨vals, pc, false, false, [], []⟩

/-- The operation that stops the array carries `IPC_NOWAIT`. -/
def semRefused (nsems : ℕ) (vals : SemVals) (sops : List Sembuf) : Bool :=
  match semopFirstBlocker nsems vals sops with
  | .op i => (sops[i]?.map Sembuf.nowait).getD false
  | _ => false

def semNext (nsems : ℕ) (sops : List Sembuf) (s : SemSys) (l : SemAct) : Option SemSys :=
  match l, s.pc with
  | .others vals, _ => some { s with vals := vals }
  | .semop (some err), .call =>
    if err.1 = linuxEagain then none else some { s with pc := .done (sysvPollErrno s.waited err.1) }
  | .semop none, .call =>
    if sops.all fun o => o.num < nsems then
      some <| match firstWaiting s.vals sops with
        | none =>
          let vals := sops.foldl Sembuf.apply s.vals
          { s with pc := .done 0, vals := vals, applied := (s.vals, vals) :: s.applied }
        | some _ => { s with pc := if sops.any (·.nowait) then .probe else .rest }
    else none
  | .probe alloc, .probe =>
    some <| if !s.hasVals && !alloc then { s with pc := .done (-linuxEnomem) }
      else
        { s with pc := if semRefused nsems s.vals sops then .done (-linuxEagain) else .rest
                 hasVals := true, seen := s.vals :: s.seen }
  | .backoff interrupted, .rest =>
    some (if interrupted then { s with pc := .done (-linuxEintr) }
      else { s with pc := .call, waited := true })
  | _, _ => none

/-! ### The first operation that waits -/

variable {nsems : ℕ} {vals v : SemVals} {sops : List Sembuf}

lemma semCur_cons (after : List (ℕ × ℤ)) (s : Sembuf) :
    semCur vals ((s.num, semCur vals after s.num + s.op) :: after) =
      s.apply (semCur vals after) := by
  funext n
  by_cases hn : s.num = n
  · simp [semCur, Sembuf.apply, hn]
  · have hn' : n ≠ s.num := fun h => hn h.symm
    simp [semCur, Sembuf.apply, hn, hn']

/-- Searching back for the last operation on a semaphore is applying the array in order. -/
lemma semopWalk_eq (hnum : ∀ o ∈ sops, o.num < nsems) (i : ℕ) (after : List (ℕ × ℤ)) :
    semopWalk nsems vals sops i after =
      ((firstWaiting (semCur vals after) sops).map (.op <| i + ·)).getD .none := by
  induction sops generalizing i after with
  | nil => rfl
  | cons s sops ih =>
    have hlt := hnum s mem_cons_self
    have hrest := ih (fun o ho => hnum o (mem_cons_of_mem s ho)) (i + 1)
      ((s.num, semCur vals after s.num + s.op) :: after)
    rw [semCur_cons] at hrest
    rw [semopWalk, if_neg (by omega), firstWaiting]
    by_cases hp : s.Proceeds (semCur vals after s.num)
    · have hneg : ¬ (s.op < 0 ∧ semCur vals after s.num < -s.op) := fun h => by
        have := hp.2 h.1
        omega
      rw [if_pos hp, if_neg (fun h => h.2 (hp.1 h.1)), if_neg hneg, hrest, Option.map_map]
      simp only [comp_def, Nat.add_assoc, Nat.add_comm 1]
    · rw [if_neg hp]
      unfold Sembuf.Proceeds at hp
      dsimp only
      split
      · rfl
      rw [if_pos (by omega)]
      rfl

lemma firstBlocker_eq (hpos : 0 < nsems) (hnum : ∀ o ∈ sops, o.num < nsems) :
    semopFirstBlocker nsems v sops = ((firstWaiting v sops).map .op).getD .none := by
  rw [semopFirstBlocker, if_neg (by omega), semopWalk_eq hnum]
  simp only [Nat.zero_add]
  rfl

/-! ### What a call has done -/

/-- In the values `v` the operation that stops the array is not to wait. -/
def Refused (sops : List Sembuf) (v : SemVals) : Prop :=
  ∃ i o, firstWaiting v sops = some i ∧ sops[i]? = some o ∧ o.nowait = true

lemma semRefused_iff (hpos : 0 < nsems) (hnum : ∀ o ∈ sops, o.num < nsems) :
    semRefused nsems v sops ↔ Refused sops v := by
  unfold semRefused Refused
  rw [firstBlocker_eq hpos hnum]
  cases hw : firstWaiting v sops with
  | none => simp
  | some i => cases ho : sops[i]? <;> simp [ho]

/-- What a call has seen and done. -/
structure SemInv (nsems : ℕ) (sops : List Sembuf) (s : SemSys) : Prop where
  nums : s.pc = .probe → ∀ o ∈ sops, o.num < nsems
  applied : if s.pc = .done 0 then
      ∃ v, s.applied = [(v, sops.foldl Sembuf.apply v)] ∧ firstWaiting v sops = none
    else s.applied = []
  refused : s.pc = .done (-linuxEagain) ↔ ∃ v ∈ s.seen, Refused sops v

variable {s : SemSys} {l : SemAct} {ls : List SemAct}

lemma SemInv.goto (h : SemInv nsems sops s) (ht : t.applied = s.applied ∧ t.seen = s.seen)
    (hs : s.pc ≠ .done 0 ∧ s.pc ≠ .done (-linuxEagain))
    (hpc : t.pc ≠ .done 0 ∧ t.pc ≠ .done (-linuxEagain))
    (hnums : t.pc = .probe → ∀ o ∈ sops, o.num < nsems) : SemInv nsems sops t := by
  have happlied := h.applied
  rw [if_neg hs.1] at happlied
  refine ⟨hnums, ?_, ?_⟩
  · rw [if_neg hpc.1, ht.1, happlied]
  · rw [ht.2, ← h.refused]
    exact iff_of_false hpc.2 hs.2

lemma sysvPollErrno_ne (waited : Bool) {err : HostErrno} (h : err.1 ≠ linuxEagain) :
    sysvPollErrno waited err.1 ≠ 0 ∧ sysvPollErrno waited err.1 ≠ -linuxEagain := by
  unfold sysvPollErrno linuxEidrm
  unfold linuxEagain at h ⊢
  grind

lemma SemInv.step (hpos : 0 < nsems) (h : SemInv nsems sops s)
    (hn : semNext nsems sops s l = some t) : SemInv nsems sops t := by
  unfold semNext at hn
  split at hn
  · cases hn
    exact ⟨h.nums, h.applied, h.refused⟩
  · -- the host fails the call
    rename_i err hpc
    obtain ⟨herr, ⟨⟩⟩ := Option.ite_none_left_eq_some.mp hn
    have hne := sysvPollErrno_ne s.waited herr
    exact h.goto ⟨rfl, rfl⟩ (by simp [hpc]) (by simpa using hne) nofun
  · -- the host applies the array, or refuses it
    rename_i hpc
    obtain ⟨hnums, hn⟩ := guarded hn
    cases hw : firstWaiting s.vals sops with
    | none =>
      rw [hw] at hn
      cases hn
      have happlied := h.applied
      have hrefused := h.refused
      rw [hpc, if_neg nofun] at happlied
      rw [hpc] at hrefused
      refine ⟨nofun, ?_, ?_⟩
      · rw [if_pos rfl]
        exact ⟨s.vals, by rw [happlied], hw⟩
      · exact iff_of_false (by simp [linuxEagain]) fun hv => nomatch hrefused.mpr hv
    | some i =>
      rw [hw] at hn
      cases hn
      exact h.goto ⟨rfl, rfl⟩ (by simp [hpc]) (by dsimp only; split <;> simp)
        fun _ => by simpa using hnums
  · -- the values are read, those of before having shown nothing to refuse
    rename_i hpc
    cases hn
    split
    · exact h.goto ⟨rfl, rfl⟩ (by simp [hpc]) (by simp [linuxEnomem, linuxEagain]) nofun
    have happlied := h.applied
    have hrefused := h.refused
    have hiff := semRefused_iff (v := s.vals) hpos (h.nums hpc)
    rw [hpc, if_neg nofun] at happlied
    rw [hpc] at hrefused
    have hnone : ∀ v ∈ s.seen, ¬ Refused sops v := fun v hv hr => nomatch hrefused.mpr ⟨v, hv, hr⟩
    by_cases hr : semRefused nsems s.vals sops
    · refine ⟨by simp [hr], by simp [hr, happlied, linuxEagain], ?_⟩
      simp [hr, hiff.mp hr]
    · refine ⟨by simp [hr], by simp [hr, happlied], ?_⟩
      have hr' : ¬ Refused sops s.vals := fun h => hr (hiff.mpr h)
      simpa [hr, hr'] using hnone
  · rename_i hpc
    cases hn
    refine h.goto ?_ (by simp [hpc]) ?_ ?_ <;> split <;> simp [linuxEintr, linuxEagain]
  · cases hn

/-- The host has no error of its own, there is memory, and nothing interrupts the call. -/
def SemAct.Quiet : SemAct → Prop
  | .semop err => err = none
  | .probe alloc => alloc = true
  | .backoff interrupted => interrupted = false
  | .others _ => True

lemma quiet_step (hl : l.Quiet) (h : ∀ rc, s.pc = .done rc → rc = 0 ∨ rc = -linuxEagain)
    (hn : semNext nsems sops s l = some t) :
    ∀ rc, t.pc = .done rc → rc = 0 ∨ rc = -linuxEagain := by
  unfold semNext at hn
  unfold SemAct.Quiet at hl
  grind

/-- A call that returns 0 has applied its array once, to values that let all of it proceed, and no
other call has applied it; one that returns `EAGAIN` has read values in which the first operation
that cannot proceed is not to wait, and when it has read such values it returns; nothing else ends
a call that is not disturbed. -/
theorem semop_like_linux (hpos : 0 < nsems) (hlen : 1 ≤ sops.length ∧ sops.length ≤ 256)
    (hrun : exec (semNext nsems sops) (semStart vals sops.length (some sops)) ls = some s) :
    (if s.pc = .done 0 then
      ∃ v, s.applied = [(v, sops.foldl Sembuf.apply v)] ∧ firstWaiting v sops = none
    else s.applied = []) ∧
    (s.pc = .done (-linuxEagain) ↔ ∃ v ∈ s.seen, Refused sops v) ∧
    ((∀ l ∈ ls, l.Quiet) → ∀ rc, s.pc = .done rc → rc = 0 ∨ rc = -linuxEagain) ∧
    ((∀ o ∈ sops, o.num < nsems) → ∀ v,
      semopFirstBlocker nsems v sops = ((firstWaiting v sops).map .op).getD .none) := by
  have hstart : (semStart vals sops.length (some sops)).pc = .call := by
    unfold semStart
    rw [if_neg (by omega)]
    rfl
  have hinit : SemInv nsems sops (semStart vals sops.length (some sops)) := by
    refine ⟨by simp [hstart], by rw [hstart, if_neg nofun]; rfl, ?_⟩
    rw [hstart]
    exact iff_of_false nofun nofun
  have hinv := exec_keeps (fun _ _ _ h hn => h.step hpos hn) hinit hrun
  refine ⟨hinv.applied, hinv.refused, fun hquiet => ?_, fun hnum v => firstBlocker_eq hpos hnum⟩
  refine exec_keeps_of_meets (fun _ l => l.Quiet) (fun _ _ _ h hl hn => quiet_step hl h hn) ?_
    (meets_of_forall fun l hl _ => hquiet l hl) hrun
  rw [hstart]
  nofun

/-- Two operations on one semaphore, the second of which must not wait. -/
theorem semop_like_linux_refuses :
    ∃ s, exec (semNext 1 [⟨0, -1, false⟩, ⟨0, -1, true⟩])
        (semStart (fun _ => 1) 2 (some [⟨0, -1, false⟩, ⟨0, -1, true⟩]))
            [.semop none, .probe true] =
        some s ∧ s.pc = .done (-linuxEagain) ∧
      ∃ v ∈ s.seen, Refused [⟨0, -1, false⟩, ⟨0, -1, true⟩] v :=
  ⟨_, rfl, rfl, (@semop_like_linux 1 (fun _ => 1) [⟨0, -1, false⟩, ⟨0, -1, true⟩] _
    [.semop none, .probe true] (by decide) (by decide) rfl).2.1.mp rfl⟩

end Elfuse
