/-
The descriptors behind the regions.

A record with a file owns one descriptor. A split gives its right half a
duplicate, a removal closes what it drops, and a full table or a failed `dup`
leaves a piece without one. `Settles h A h' B` accounts for that: what was owned
before and what has been opened since is closed or owned now.

* `backingFds_owned` — every descriptor has one owner, over whole runs.
-/
import Elfuse.Syscall.RegionUndo
import Elfuse.Lib.Runs

namespace Elfuse

open List Multiset Runs

/-- The descriptors of the records. -/
def held (rs : List GuestRegion) : Multiset ℤ := (rs.map fun r => owned r.backingFd).sum

/-- From `h` and the descriptors `A` to `h'` and `B`: all that were there or have been opened since
are closed or in `B`. -/
def Settles (h : HostFds) (A : Multiset ℤ) (h' : HostFds) (B : Multiset ℤ) : Prop :=
  ∃ n c : Multiset ℤ, (h'.opened : Multiset ℤ) = h.opened + n ∧
    (h'.closed : Multiset ℤ) = h.closed + c ∧ A + n = c + B

inductive RegionCall
  | add (x : RegionArgs)
  | remove (start stop : ℕ)
  | setProt (start stop prot : ℕ)

namespace RegionCall

def run (t : RegionTable) : RegionCall → RegionTable
  | add x => (guestRegionAddExOwnedGpa t x).2
  | remove start stop => (guestRegionRemove t start stop).2
  | setProt start stop prot => guestRegionSetProt t start stop prot

def given : RegionCall → Multiset ℤ
  | add x => owned x.ownedBackingFd
  | _ => 0

/-- What the call is given and what `dup` gives out meanwhile. -/
def fresh (s : RegionTable × Multiset ℤ) (call : RegionCall) : Multiset ℤ :=
  call.given + ((call.run s.1).fds.opened - s.1.fds.opened)

/-- None of these descriptors is given out twice, and no record has one of them. -/
def Fresh (s : RegionTable × Multiset ℤ) (call : RegionCall) : Prop :=
  (call.fresh s).Nodup ∧ ∀ fd ∈ call.fresh s, fd ∉ held s.1.regions

instance (s : RegionTable × Multiset ℤ) (call : RegionCall) : Decidable (call.Fresh s) :=
  inferInstanceAs (Decidable (_ ∧ _))

/-- One call, and all that has been handed in. -/
def next (s : RegionTable × Multiset ℤ) (call : RegionCall) : Option (RegionTable × Multiset ℤ) :=
  some (call.run s.1, call.given + s.2)

end RegionCall

/-- Every descriptor that was handed in or duplicated is owned by one record or has been closed,
each as often as it was opened. -/
structure OneOwner (given : Multiset ℤ) (t : RegionTable) : Prop where
  nodup : (held t.regions).Nodup
  settled : given + t.fds.opened = t.fds.closed + held t.regions

/-! ### Accounts -/

variable {h : HostFds}

@[simp] lemma held_nil : held [] = 0 := rfl

@[simp] lemma held_cons : held (r :: rs) = owned r.backingFd + held rs := by simp [held]

@[simp] lemma held_append : held (rs ++ rest) = held rs + held rest := by simp [held]

lemma held_take_drop (n : ℕ) (rs : List GuestRegion) :
    held (rs.take n) + held (rs.drop n) = held rs := by
  rw [← held_append, take_append_drop]

lemma Settles.of_eq (heq : A = B) : Settles h A h B :=
  ⟨0, 0, (add_zero _).symm, (add_zero _).symm, by rw [heq, add_comm]⟩

lemma Settles.trans (h1 : Settles h A h' B) (h2 : Settles h' B h'' C) : Settles h A h'' C := by
  obtain ⟨n, c, hn, hc, hA⟩ := h1
  obtain ⟨n', c', hn', hc', hB⟩ := h2
  refine ⟨n + n', c + c', by rw [hn', hn, add_assoc], by rw [hc', hc, add_assoc], ?_⟩
  rw [← add_assoc, hA, add_assoc, hB, add_assoc]

lemma Settles.frame (C : Multiset ℤ) (h1 : Settles h A h' B) : Settles h (C + A) h' (C + B) := by
  obtain ⟨n, c, hn, hc, hA⟩ := h1
  exact ⟨n, c, hn, hc, by rw [add_assoc, hA, add_left_comm]⟩

lemma settles_dup (h : HostFds) (A : Multiset ℤ) : Settles h A h.dup.2 (owned h.dup.1 + A) := by
  have hbal := (HostFds.keeps_dup h).balance
  rw [add_right_comm] at hbal
  exact ⟨owned h.dup.1, 0, add_right_cancel hbal, (add_zero _).symm, by rw [zero_add, add_comm]⟩

lemma settles_close (h : HostFds) (fd : ℤ) (A : Multiset ℤ) :
    Settles h (owned fd + A) (h.closeIfOpen fd) A := by
  rw [HostFds.closeIfOpen, owned]
  split
  · exact ⟨0, {fd}, (add_zero _).symm, (coe_add _ _).symm, add_zero _⟩
  · exact .of_eq (zero_add A)

/-! ### Merges -/

/-- Records with the same descriptor have none. -/
lemma tryMerge_held (i : ℕ) (hnodup : (held rs).Nodup) : held (tryMergeRight rs i) = held rs := by
  rcases tryMergeRight_cases rs i with heq | ⟨a, b, hab, hrs, heq⟩
  · rw [heq]
  have hfd : a.backingFd = b.backingFd := by
    grind [regionsMergeable, regionsMergeableLayout]
  have hheld : held rs = held (rs.take i) + (owned a.backingFd +
      (owned a.backingFd + held (rs.drop (i + 2)))) := by
    conv_lhs => rw [hrs]
    rw [held_append, held_cons, held_cons, hfd]
  have hnone : owned a.backingFd = 0 := by
    refine eq_zero_of_forall_notMem fun x hx => ?_
    rw [hheld] at hnodup
    have htwice := (nodup_add.mp (nodup_add.mp hnodup).2.1).2.2
    exact disjoint_left.mp htwice hx (mem_add.mpr (.inl hx))
  rw [heq, hheld, held_append, held_cons, hnone, zero_add, zero_add]

/-! ### Removals -/

lemma removePrepareLoop_settles (start stop : ℕ) (full : Bool) (rs : List GuestRegion) :
    let res := removePrepareLoop start stop full rs h
    Settles h A res.2.2 (owned res.2.1 + A) ∧ (res.1 < 0 → owned res.2.1 = 0) := by
  have hnone : Settles h A h (owned (-1) + A) := .of_eq (zero_add A).symm
  induction rs with
  | nil => exact ⟨hnone, fun _ => rfl⟩
  | cons r rs ih =>
    rw [removePrepareLoop]
    split
    · exact ⟨hnone, fun _ => rfl⟩
    split
    · split
      · exact ⟨hnone, fun _ => rfl⟩
      · exact ⟨settles_dup h A, fun hneg => if_neg fun hfd => by simp [hfd] at hneg⟩
    · exact ih

/-- The loop keeps, hands on or closes what the records have. -/
lemma removeLoop_settles (hps start stop : ℕ) (full : Bool) (rs : List GuestRegion)
    (s : RemoveSt) : Settles s.fds (held rs + owned s.reserved)
      (removeLoop hps start stop full rs s).2.fds (held (removeLoop hps start stop full rs s).1 +
        owned (removeLoop hps start stop full rs s).2.reserved) := by
  induction rs generalizing s with
  | nil => exact .of_eq rfl
  | cons r rs ih =>
    have hkeep := fun s' => (ih s').frame (owned r.backingFd)
    simp only [← add_assoc] at hkeep
    rw [removeLoop]
    split
    · exact .of_eq rfl
    split
    · split
      · -- the interior split
        refine .of_eq ?_
        by_cases hfd : 0 ≤ r.backingFd
        · simp only [hfd, held_cons, clipOverlay_backingFd, GuestRegion.below, if_true]
          rw [add_assoc, add_comm (held rs)]
          exact (add_zero _).symm
        · simp [hfd, GuestRegion.below, GuestRegion.above, owned]
      · simpa [GuestRegion.below] using hkeep { s with stale := s.stale || decide (stop < r.stop) }
    split
    · simpa [GuestRegion.above] using hkeep s
    · rw [held_cons, add_assoc]
      exact (settles_close _ _ _).trans (ih _)

lemma removeReserved_settles (t : RegionTable) (start stop : ℕ) (reserved : ℤ) :
    Settles t.fds (owned reserved + held t.regions)
      (guestRegionRemoveReserved t start stop reserved).fds
      (held (guestRegionRemoveReserved t start stop reserved).regions) := by
  rw [guestRegionRemoveReserved]
  split
  · exact settles_close _ _ _
  have hloop := (removeLoop_settles t.hostPageSize start stop
    (decide (guestMaxRegions ≤ t.regions.length))
    (t.regions.drop (guestRegionFirstEndAbove t.regions start))
    ⟨t.regionsTrackerStale, t.fds, reserved⟩).frame
      (held (t.regions.take (guestRegionFirstEndAbove t.regions start)))
  rw [← add_assoc, ← add_assoc, held_take_drop, add_comm (held _), ← held_append,
    add_comm (held _)] at hloop
  exact hloop.trans (settles_close _ _ _)

lemma remove_settles (t : RegionTable) (start stop : ℕ) :
    Settles t.fds (held t.regions) (guestRegionRemove t start stop).2.fds
      (held (guestRegionRemove t start stop).2.regions) := by
  rw [guestRegionRemove, guestRegionRemovePrepare]
  by_cases hrange : stop ≤ start
  · rw [if_pos hrange]
    exact (Settles.of_eq (zero_add _).symm).trans (removeReserved_settles t start stop (-1))
  rw [if_neg hrange]
  obtain ⟨hprep, hneg⟩ := removePrepareLoop_settles (h := t.fds) (A := held t.regions) start stop
    (decide (guestMaxRegions ≤ t.regions.length))
    (t.regions.drop (guestRegionFirstEndAbove t.regions start))
  split
  · rwa [hneg ‹_›, zero_add] at hprep
  · exact hprep.trans (removeReserved_settles { t with fds := _ } start stop _)

/-! ### Protection changes -/

lemma dupBacking_settles (s : SetProtSt) (r : GuestRegion) (A : Multiset ℤ) :
    Settles s.fds A (s.dupBacking r).2.fds (owned (s.dupBacking r).1.backingFd + A) := by
  rw [SetProtSt.dupBacking]
  split
  · exact settles_dup s.fds A
  · exact .of_eq (by rw [owned, if_neg ‹_›, zero_add])

/-- The slot is written; the loop ends with a piece behind it or goes on with `k`. -/
lemma setProtSlot_settles {k : SetProtSt → SetProtSt}
    (hk : ∀ s, Settles s.fds (held s.done + held rest) (k s).fds (held (k s).done))
    (hps stop prot : ℕ) (r : GuestRegion) (s : SetProtSt) {s' : SetProtSt}
    (hs : (match setProtSlot hps stop prot r rest s with | .inl s' => s' | .inr s' => k s') = s') :
    Settles s.fds (held s.done + held (r :: rest)) s'.fds (held s'.done) := by
  subst hs
  rw [setProtSlot]
  by_cases hcut : stop < r.stop
  · by_cases hfull : guestMaxRegions ≤ s.done.length + 1 + rest.length
    · simp only [if_pos hcut, if_pos hfull]
      exact (Settles.of_eq (by simp [SetProtSt.modify, add_assoc])).trans (hk _)
    · simp only [if_pos hcut, if_neg hfull]
      refine (dupBacking_settles s (r.above stop) _).trans (.of_eq ?_)
      simp [SetProtSt.modify, dupBacking_done, GuestRegion.below, add_left_comm]
  · simp only [if_neg hcut]
    exact (Settles.of_eq (by simp [SetProtSt.modify, add_assoc])).trans (hk _)

lemma setProtLoop_settles (hps start stop prot : ℕ) (rs : List GuestRegion) (s : SetProtSt) :
    Settles s.fds (held s.done + held rs) (setProtLoop hps start stop prot rs s).fds
      (held (setProtLoop hps start stop prot rs s).done) := by
  induction rs generalizing s with
  | nil => exact .of_eq (add_zero _)
  | cons r rest ih =>
    rw [setProtLoop]
    split
    · exact .of_eq held_append.symm
    split
    · split
      · exact (Settles.of_eq (by simp [SetProtSt.pass, add_assoc])).trans (ih _)
      · refine (dupBacking_settles s (r.above start) _).trans
          (.trans (.of_eq ?_) (setProtSlot_settles ih hps stop prot _
            ((s.dupBacking (r.above start)).2.pass _) rfl))
        simp [SetProtSt.pass, dupBacking_done, GuestRegion.below, add_assoc, add_left_comm]
    · exact setProtSlot_settles ih hps stop prot r s rfl

/-! ### Runs -/

lemma adoptVmaId_backingFd (left right : Option GuestRegion) (r : GuestRegion) :
    (adoptVmaId left right r).backingFd = r.backingFd := by
  obtain heq | ⟨n, -, heq⟩ := adoptVmaId_cases left right r <;> rw [heq]

/-- Apart from merges, which come last, a call settles what it is given and what there was. -/
lemma run_settles (t : RegionTable) (call : RegionCall) : ∃ pre,
    Settles t.fds (call.given + held t.regions) (call.run t).fds (held pre) ∧
      ((held pre).Nodup → held (call.run t).regions = held pre) := by
  have hmerge : ∀ {pre : List GuestRegion}, (held pre).Nodup → ∀ (rs : List GuestRegion) (i : ℕ),
      held rs = held pre → held (tryMergeRight rs i) = held pre :=
    fun hn rs i heq => (tryMerge_held i (heq ▸ hn)).trans heq
  cases call with
  | add x =>
    rw [RegionCall.run, guestRegionAddExOwnedGpa]
    split
    · exact ⟨t.regions, settles_close _ _ _, fun _ => rfl⟩
    refine ⟨_, .of_eq ?_, fun hn => tryMergeLeft_induct (hmerge hn) _ _ (hmerge hn _ _ rfl)⟩
    rw [held_append, held_cons, add_left_comm, held_take_drop]
    refine congrArg (owned · + _) ?_
    split
    · rw [adoptVmaId_backingFd]
      rfl
    · rfl
  | remove start stop =>
    exact ⟨_, (Settles.of_eq (zero_add _)).trans (remove_settles t start stop), fun _ => rfl⟩
  | setProt start stop prot =>
    refine ⟨_, (Settles.of_eq ?_).trans (setProtLoop_settles _ start stop prot _ _), fun hn =>
      setProtMerge_induct (hmerge hn) _ rfl⟩
    exact (zero_add _).trans (held_take_drop _ _).symm

/-- A call keeps the owners apart if what it is given and what it opens is not in use. -/
lemma OneOwner.run (h : OneOwner s.2 s.1)
    (hfresh : call.Fresh s) (hs : RegionCall.next s call = some s') : OneOwner s'.2 s'.1 := by
  obtain ⟨pre, ⟨n, c, hn, hc, hbal⟩, hmerge⟩ := run_settles s.1 call
  cases hs
  have hnew : ((call.run s.1).fds.opened : Multiset ℤ) - s.1.fds.opened = n := by
    rw [hn, add_tsub_cancel_left]
  have hpre : (held pre).Nodup := by
    rw [RegionCall.Fresh, RegionCall.fresh, hnew] at hfresh
    have hall : (call.given + n + held s.1.regions).Nodup :=
      nodup_add.mpr ⟨hfresh.1, h.nodup, disjoint_left.mpr fun hmem => hfresh.2 _ hmem⟩
    rw [add_right_comm, hbal] at hall
    exact (nodup_add.mp hall).2.1
  refine ⟨(hmerge hpre).symm ▸ hpre, ?_⟩
  rw [hmerge hpre, hn, hc, add_assoc _ c, ← hbal]
  calc call.given + s.2 + (s.1.fds.opened + n) = call.given + (s.2 + s.1.fds.opened) + n := by abel
    _ = s.1.fds.closed + (call.given + held s.1.regions + n) := by
      rw [h.settled]
      abel

/-- Over every run of calls, from the empty table, in which nobody gives out a descriptor that is
in use. -/
theorem backingFds_owned {hps : ℕ} {answers : ℕ → ℤ} {calls : List RegionCall}
    {s : RegionTable × Multiset ℤ}
    (hfresh : Meets RegionCall.next RegionCall.Fresh (.empty hps ⟨answers, 0, []⟩, 0) calls)
    (hrun : exec RegionCall.next (.empty hps ⟨answers, 0, []⟩, 0) calls = some s) :
    OneOwner s.2 s.1 :=
  exec_keeps_of_meets (P := fun s => OneOwner s.2 s.1) _ (fun _ _ _ h hf hs => h.run hf hs)
    (⟨nodup_zero, rfl⟩ : OneOwner 0 (.empty hps ⟨answers, 0, []⟩)) hfresh hrun

/-- A file of four pages, mapped with descriptor 5, loses its second page; `dup` answers 6. -/
theorem backingFds_owned_hole : ∃ s, exec RegionCall.next (.empty 0x1000 ⟨fun _ => 6, 0, []⟩, 0)
    [.add { fourPages with ownedBackingFd := 5 }, .remove 0x2000 0x3000] = some s ∧
    held s.1.regions = {5, 6} ∧ OneOwner s.2 s.1 := by
  have hrun : exec RegionCall.next (.empty 0x1000 ⟨fun _ => 6, 0, []⟩, 0)
      [.add { fourPages with ownedBackingFd := 5 }, .remove 0x2000 0x3000] = some _ := rfl
  refine ⟨_, hrun, by decide, backingFds_owned ?_ hrun⟩
  exact meets_cons (by decide) rfl (meets_cons (by decide) rfl trivial)

end Elfuse
