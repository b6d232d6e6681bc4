/-
A call of `epoll_ctl` that fails (`syscall/poll.c`).

`EPOLL_CTL_MOD` takes the old filters off the queue before it arms the new ones.
When the host refuses one of these, those that were armed are taken off again,
but the old ones are not put back.

* `failed_ctl_keeps` — a failing call changes the queue exactly when it is a
  modification that gets to the filters of its target (`ModDisarms`).
-/
import Elfuse.Syscall.EpollEdges

namespace Elfuse

open EpollInst Function

variable {hosts : ℕ → ℤ} {inst : EpollInst} {kq : Kqueue} {fd : ℕ} {snap : FdEntry}
  {host : EpollHost} {op : EpollOp}

lemma armedAt_eq (hat : ArmedAt kq kq' h []) (hnone : ∀ f, kq h f = none) : kq' = kq := by
  funext i f
  by_cases hi : i = h
  · subst hi
    rw [hnone f]
    cases hk : kq' i f with
    | none => rfl
    | some k =>
      obtain ⟨c, hc, -⟩ := hat.added f k hk
      cases hc
  · exact hat.other i f hi

lemma armChanges_failed (hnone : ∀ f, kq snap.hostFd f = none)
    (h : epollArmChanges kq (epollBuildChanges events fd snap) snap host = (.error err, kq')) :
    kq' = kq := by
  have harm : ArmResult kq snap.hostFd (epollBuildChanges events fd snap)
      (epollArmChanges kq (epollBuildChanges events fd snap) snap host) := armChanges_at hnone
  rw [h] at harm
  exact armedAt_eq harm hnone

/-- The call modifies an active registration (one of a closed description has been dropped) of a
descriptor that is no plain file, and a filter of the target is on the queue. -/
def ModDisarms (op : EpollOp) (fd : ℕ) (snap : FdEntry) (host : EpollHost) (inst : EpollInst)
    (kq : Kqueue) : Prop :=
  op = .mod ∧ (snap.pathPollCapable = true ∨ host.isReg = false) ∧
    ((inst.dropStale fd snap).regs fd).active = true ∧ ∃ f, kq snap.hostFd f ≠ none

lemma deleteFilters_eq (hnone : ∀ f, kq h f = none) : epollDeleteFilters kq h reg = kq := by
  funext i f
  by_cases hi : i = h
  · subst hi
    rw [hnone f]
    unfold epollDeleteFilters
    grind [Kqueue.delete_none]
  · exact @deleteFilters_ne i reg (fun _ => h) kq 0 hi f

/-- With the registrations of closed descriptions dropped, a failing call leaves the registration
as it is, and the queue unless all filters of the target are then gone. -/
lemma ctlLocked_failed (hinj : Injective hosts) (hsnap : snap.hostFd = hosts fd)
    (hwired : EpollWired hosts (inst.dropStale fd snap) kq) (hop : op ≠ .unknown)
    (h : epollCtlLocked op fd events data snap host inst kq = (ret, inst', kq')) (hret : ret < 0) :
    inst' = inst.dropStale fd snap ∧
      (ModDisarms op fd snap host inst kq ∧ (∀ f, kq' snap.hostFd f = none) ∨
        ¬ ModDisarms op fd snap host inst kq ∧ kq' = kq) := by
  unfold epollCtlLocked at h
  unfold ModDisarms
  dsimp only at h
  generalize inst.dropStale fd snap = inst at hwired h
  split at h
  · split at h
    · cases h
      exact ⟨rfl, .inr ⟨by grind, rfl⟩⟩
    · cases h
      exact absurd hret (lt_irrefl 0)
  rename_i hdel
  split at h
  · cases h
    exact ⟨rfl, .inr ⟨by grind, rfl⟩⟩
  rename_i hreg
  split at h
  · cases h
    exact ⟨rfl, .inr ⟨by grind, rfl⟩⟩
  rename_i hadd
  split at h
  · cases h
    exact ⟨rfl, .inr ⟨by grind, rfl⟩⟩
  split at h
  · rename_i harm
    cases h
    refine ⟨rfl, ?_⟩
    by_cases hmod : op = .mod ∧ (inst'.regs fd).active
    · -- the old filters are gone, and nothing new is armed
      rw [if_pos (by simpa using hmod), hsnap] at harm
      have hnone : ∀ f, epollDeleteFilters kq (hosts fd) (inst'.regs fd) (hosts fd) f = none :=
        deleteFilters_none hinj hwired
      rw [← hsnap] at harm hnone
      obtain rfl := armChanges_failed hnone harm
      by_cases hfilter : ∃ f, kq snap.hostFd f ≠ none
      · exact .inl ⟨by grind, hnone⟩
      · refine .inr ⟨fun hdis => hfilter hdis.2.2.2, deleteFilters_eq fun f => ?_⟩
        exact not_not.mp (not_exists.mp hfilter f)
    · rw [if_neg (by simpa using hmod)] at harm
      refine .inr ⟨fun hdis => hmod ⟨hdis.1, hdis.2.2.1⟩, armChanges_failed ?_ harm⟩
      rw [hsnap]
      refine hwired.place_none hinj ?_
      cases hactive : (inst'.regs fd).active with
      | false => rfl
      | true =>
        -- an active registration gets here by a modification only
        rw [hactive, Bool.and_true, decide_eq_true_eq] at hadd
        cases op with
        | add => exact absurd rfl hadd
        | del => exact absurd rfl hdel
        | mod => exact absurd ⟨rfl, hactive⟩ hmod
        | unknown => exact absurd rfl hop
  · cases h
    exact absurd hret (lt_irrefl 0)

/-- A call that fails leaves the instance as it is, but for the registration of a closed
description. It changes the queue exactly if it passes the checks of its arguments and gets to the
filters of an active registration, and then no filter of the target is left. The notes of the queue
are those of active registrations (`EpollWired`). -/
theorem failed_ctl_keeps (hinj : Injective hosts) {epfd fd : ℤ} {event : Option (BitVec 32 × ℕ)}
    {epRef : Except HostErrno ℤ} {snap : FdEntry} (hsnap : snap.hostFd = hosts fd.toNat)
    (hwired : EpollWired hosts (inst.dropStale fd.toNat snap) kq)
    {ret : ℤ} {inst' : Option EpollInst} {kq' : Kqueue}
    (h : epollCtl epfd op fd event epRef (some snap) host (some inst) kq = (ret, inst', kq'))
    (hret : ret < 0) :
    (inst' = some inst ∨ inst' = some (inst.dropStale fd.toNat snap)) ∧
    (kq' ≠ kq ↔ event ≠ none ∧ (∃ q, epRef = .ok q) ∧ host.isDir = false ∧ fd ≠ epfd ∧
      ModDisarms op fd.toNat snap host inst kq) ∧
    (kq' ≠ kq → ∀ f, kq' snap.hostFd f = none) := by
  -- the checks of the arguments come before anything is changed
  have hsame : ∀ {p : Prop}, ¬ p → (some inst = some inst ∨ some inst =
      some (inst.dropStale fd.toNat snap)) ∧ (kq ≠ kq ↔ p) ∧
      (kq ≠ kq → ∀ f, kq snap.hostFd f = none) :=
    fun hp => ⟨.inl rfl, iff_of_false (fun hne => hne rfl) hp, fun hne => absurd rfl hne⟩
  unfold epollCtl at h
  split at h
  · cases h
    exact hsame (by grind)
  split at h
  · cases h
    exact hsame (by simp)
  · rename_i hsome
    cases hsome
  rename_i e _ hsome
  cases hsome
  split at h
  · cases h
    exact hsame (by grind)
  dsimp only at h
  split at h
  · cases h
    exact hsame (by grind [ModDisarms])
  rename_i hop
  split at h
  · cases h
    exact hsame (by grind)
  -- the rest runs under the lock of the instance
  obtain ⟨r, i, q, hr⟩ : ∃ r i q, epollCtlLocked op fd.toNat (event.getD (0, 0)).1
    (event.getD (0, 0)).2 snap host inst kq = (r, i, q) := ⟨_, _, _, rfl⟩
  rw [hr] at h
  cases h
  obtain ⟨rfl, hkq⟩ := ctlLocked_failed hinj hsnap hwired hop hr hret
  refine ⟨.inr rfl, ?_⟩
  obtain ⟨hdis, hkq⟩ | ⟨hdis, hkq⟩ := hkq
  · obtain ⟨f, hf⟩ := hdis.2.2.2
    refine ⟨iff_of_true (fun heq => hf (heq ▸ hkq f)) ?_, fun _ => hkq⟩
    grind [ModDisarms]
  · exact ⟨iff_of_false (not_not.mpr hkq) fun hall => hdis hall.2.2.2.2, absurd hkq⟩

/-- The pipe at guest descriptor 5, registered for edges of its readability. -/
def edgeOne : EpollInst × Kqueue := edgeAdd .new (fun _ _ => none) 5

/-- A host that has no memory for another filter. -/
def noMemory : EpollHost := { edgeHost with arm := fun _ => .failed ⟨12, by decide⟩ }

/-- It cannot be added a second time, nor another pipe for want of memory. -/
theorem failed_ctl_keeps_twice :
    (epollCtl 3 .add 5 (some (linuxEpollin, 1)) (.ok 4) (some (edgePipe 5)) edgeHost
      (some edgeOne.1) edgeOne.2).2.2 = edgeOne.2 ∧
    (epollCtl 3 .add 6 (some (linuxEpollin, 1)) (.ok 4) (some (edgePipe 6)) noMemory
      (some edgeOne.1) edgeOne.2).2.2 = edgeOne.2 := by
  have hnone : EpollWired (fun fd => fd + 4) .new fun _ _ => none := nofun
  have hwired : EpollWired (fun fd => fd + 4) edgeOne.1 edgeOne.2 := edgeAdd_wired hnone rfl
  have hinj : Injective fun fd : ℕ => (fd : ℤ) + 4 := fun a b hab => by
    dsimp only at hab
    omega
  have hrun : epollCtl 3 .add 5 (some (linuxEpollin, 1)) (.ok 4) (some (edgePipe 5)) edgeHost
      (some edgeOne.1) edgeOne.2 = (_, _, _) := rfl
  have hrun' : epollCtl 3 .add 6 (some (linuxEpollin, 1)) (.ok 4) (some (edgePipe 6)) noMemory
      (some edgeOne.1) edgeOne.2 = (_, _, _) := rfl
  have hkeeps := failed_ctl_keeps hinj (by rfl) (by exact hwired) hrun (by decide)
  have hkeeps' := failed_ctl_keeps hinj (by rfl) (by exact hwired) hrun' (by decide)
  constructor
  · exact not_not.mp fun hne => nomatch (hkeeps.2.1.mp hne).2.2.2.2.1
  · exact not_not.mp fun hne => nomatch (hkeeps'.2.1.mp hne).2.2.2.2.1

/-- A modification that fails for want of memory leaves the registration active, without a
filter. -/
theorem failed_mod_disarms :
    let r := epollCtl 3 .mod 5 (some (linuxEpollout, 1)) (.ok 4) (some (edgePipe 5)) noMemory
      (some edgeOne.1) edgeOne.2
    r.1 = -linuxEnomem ∧ r.2.1.map (fun i => i.regs 5) = some (edgeOne.1.regs 5) ∧
      (edgeOne.2 9 .read).isSome ∧ r.2.2 9 .read = none := by
  decide

end Elfuse
