/-
Sequences of calls on the descriptor table.

A run is a list of calls from `fdtable_init` on. Beside the table it keeps what
has been made: for every slot ever filled its generation, its description and
the slot it was made an alias of. Aliases are made from snapshots of slots the
table has held, however long ago, or from identities reserved before.

* `FdFilled`, `FdShut`, `FdKept` — all that a call can do to the table;
* `fdTable_consistent` — the bitmap is the table's and allocation is lowest-free;
  as long as the counters have not come round, generations are not reused and
  identities are shared by aliases only;
* `fdTable_generation_wraps` — with more calls the 64-bit counters come round.
-/
import Mathlib.Order.Bounds.Basic
import Mathlib.Data.List.Nodup
import Elfuse.Syscall.FdTable

namespace Elfuse

open Function Runs List

/-! ### Calls -/

/-- What an alias variant is given: how its caller built the specification. -/
inductive FdAliasArg
  /-- No specification. -/
  | fresh
  /-- `fd_alias_of`, with flags of the caller's own. -/
  | full (srcGuestFd : ℤ) (snap : FdEntry) (extra : BitVec 32)
  /-- `fd_alias_host_shared`. -/
  | hostShared (snap : FdEntry)
  /-- `fd_alias_identity` of a slot's description. -/
  | identity (snap : FdEntry) (flags : BitVec 32)
  /-- `fd_alias_identity` of an identity reserved before. -/
  | reserved (id : ℕ) (flags : BitVec 32)
  /-- `fd_alias_carried`. -/
  | carried (foreign owned : Bool)

def FdAliasArg.spec : FdAliasArg → Option FdAliasSpec
  | .fresh => none
  | .full fd snap extra =>
    some { fdAliasOf fd snap with linuxFlags := (fdAliasOf fd snap).linuxFlags ||| extra }
  | .hostShared snap => some (fdAliasHostShared snap)
  | .identity snap flags => some (fdAliasIdentity snap.ofdId flags)
  | .reserved id flags => some (fdAliasIdentity id flags)
  | .carried foreign owned => some (fdAliasCarried foreign owned)

/-- The snapshot whose description the new slot is made an alias of. -/
def FdAliasArg.source : FdAliasArg → Option FdEntry
  | .full _ snap _ => some snap
  | .identity snap _ => some snap
  | _ => none

/-- Where an allocation is to land. -/
inductive FdTarget
  /-- The lowest free slot from a minimum on. -/
  | lowest (minfd : ℤ)
  | fixed (fd : ℤ)

/-- The entry points of the table. -/
inductive FdCall
  | alloc (a : FdInstall)
  | allocDir (a : FdInstall) (dir : Option ℕ) (flags : BitVec 32)
  | allocFrom (minfd : ℤ) (a : FdInstall)
  | allocDirFrom (minfd : ℤ) (a : FdInstall) (dir : Option ℕ) (flags : BitVec 32)
  | allocAt (fd : ℤ) (a : FdInstall)
  | allocDirAt (fd : ℤ) (a : FdInstall) (dir : Option ℕ) (flags : BitVec 32)
  | allocFromRelaxed (single : Bool) (minfd : ℤ) (a : FdInstall)
  | allocAtRelaxed (single : Bool) (fd : ℤ) (a : FdInstall)
  | allocAlias (arg : FdAliasArg) (a : FdInstall)
  | allocAliasAt (arg : FdAliasArg) (fd : ℤ) (a : FdInstall)
  | allocAliasRelaxed (arg : FdAliasArg) (single : Bool) (fixedFd minfd : ℤ) (a : FdInstall)
  | allocAliasDir (arg : FdAliasArg) (fixedFd minfd : ℤ) (a : FdInstall) (dir : Option ℕ)
      (flags : BitVec 32)
  | reserveOfdId
  | markClosed (fd : ℕ)
  | snapshotAndClose (fd : ℤ)
  | closeRegularRelaxed (single : Bool) (fd : ℤ)
  | retirePublished (fd hostFd : ℤ)
  | setNofile (limit : ℕ)

def FdCall.run (s : FdTable) : FdCall → Option FdResult × FdTable
  | .alloc a => ((fdAlloc s a).1, (fdAlloc s a).2)
  | .allocDir a dir flags => ((fdAllocDir s a dir flags).1, (fdAllocDir s a dir flags).2)
  | .allocFrom minfd a => ((fdAllocFrom s minfd a).1, (fdAllocFrom s minfd a).2)
  | .allocDirFrom minfd a dir flags =>
    ((fdAllocDirFrom s minfd a dir flags).1, (fdAllocDirFrom s minfd a dir flags).2)
  | .allocAt fd a => ((fdAllocAt s fd a).1, (fdAllocAt s fd a).2.2)
  | .allocDirAt fd a dir flags =>
    ((fdAllocDirAt s fd a dir flags).1, (fdAllocDirAt s fd a dir flags).2.2)
  | .allocFromRelaxed single minfd a =>
    ((fdAllocFromRelaxed s single minfd a).1, (fdAllocFromRelaxed s single minfd a).2)
  | .allocAtRelaxed single fd a =>
    ((fdAllocAtRelaxed s single fd a).1, (fdAllocAtRelaxed s single fd a).2.2)
  | .allocAlias arg a => ((fdAllocAlias s arg.spec a).1, (fdAllocAlias s arg.spec a).2)
  | .allocAliasAt arg fd a =>
    ((fdAllocAliasAt s arg.spec fd a).1, (fdAllocAliasAt s arg.spec fd a).2.2)
  | .allocAliasRelaxed arg single fixedFd minfd a =>
    ((fdAllocAliasRelaxed s arg.spec single fixedFd minfd a).1,
      (fdAllocAliasRelaxed s arg.spec single fixedFd minfd a).2.2)
  | .allocAliasDir arg fixedFd minfd a dir flags =>
    ((fdAllocAliasDir s arg.spec fixedFd minfd a dir flags).1,
      (fdAllocAliasDir s arg.spec fixedFd minfd a dir flags).2.2)
  | .reserveOfdId => (none, (fdReserveOfdId s).2)
  | .markClosed fd => (none, (fdMarkClosed s fd).2)
  | .snapshotAndClose fd => (none, (fdSnapshotAndClose s fd).2)
  | .closeRegularRelaxed single fd => (none, (fdCloseRegularRelaxed s single fd).2)
  | .retirePublished fd hostFd => (none, (fdRetirePublished s fd hostFd).2)
  | .setNofile limit => (none, { s with nofile := limit })

/-! ### What a call does -/

/-- The inheritance a slot is filled with, re-read from its source. -/
def fdInherited (s : FdTable) (fd : ℕ) (type : FdType) (inh : Option FdAliasSpec) :
    Option FdAliasSpec :=
  inh.map (fdAliasRefresh (Function.update s.entry fd { s.entry fd with type := type }))

structure FdFilled (s : FdTable) (inh : Option FdAliasSpec) (type : FdType) (fd : ℕ)
    (s' : FdTable) : Prop where
  lt : fd < fdTableSize
  others : ∀ n, n ≠ fd → s'.entry n = s.entry n
  type_eq : (s'.entry fd).type = type
  generation : (s'.entry fd).generation = s.nextGeneration
  ofdId : (s'.entry fd).ofdId = fdNewOfdId s (fdInherited s fd type inh)
  freeBitmap : s'.freeBitmap = fdBitmapSetUsed s.freeBitmap fd
  nextGeneration : s'.nextGeneration = u64 (s.nextGeneration + 1)
  nextOfdId : s'.nextOfdId = if fdNamesOfd (fdInherited s fd type inh) then s.nextOfdId
    else u64 (s.nextOfdId + 1)
  pending : s.pending = none → s'.pending = none

/-- No slot changed. -/
structure FdKept (s s' : FdTable) : Prop where
  entry : s'.entry = s.entry
  freeBitmap : s'.freeBitmap = s.freeBitmap
  nextGeneration : s'.nextGeneration = s.nextGeneration
  nextOfdId : s'.nextOfdId = s.nextOfdId
  pending : s.pending = none → s'.pending = none

/-- The outcome of an allocation from `minfd` on: the least free slot if it is below the limit,
and `EMFILE` otherwise. -/
def FdLowest (s : FdTable) (inh : Option FdAliasSpec) (type : FdType) (minfd : ℤ) (r : FdResult)
    (s' : FdTable) : Prop :=
  (∃ fd, r = .ok fd ∧ IsLeast {n | FreeFrom s.freeBitmap minfd n} fd ∧ fd < s.nofile ∧
    FdFilled s inh type fd s') ∨
  (r = .error .emfile ∧ (∀ fd, IsLeast {n | FreeFrom s.freeBitmap minfd n} fd → s.nofile ≤ fd) ∧
    FdKept s s')

def FdFixed (s : FdTable) (inh : Option FdAliasSpec) (type : FdType) (r : FdResult)
    (s' : FdTable) : Prop :=
  (∃ fd, r = .ok fd ∧ FdFilled s inh type fd s') ∨ (r = .error .refused ∧ FdKept s s')

lemma FdKept.refl (s : FdTable) : FdKept s s := ⟨rfl, rfl, rfl, rfl, id⟩

lemma fdProbeHost_hostFlags (s : FdTable) (type : FdType) (hostFd : ℤ) (ans : HostAnswers) :
    ∃ h, (fdProbeHost s type hostFd ans).2 = { s with hostFlags := h } := by
  unfold fdProbeHost
  split
  · exact ⟨s.hostFlags, rfl⟩
  dsimp only
  split
  · exact ⟨s.hostFlags, rfl⟩
  cases ans.setNonblock
  · exact ⟨s.hostFlags, rfl⟩
  · exact ⟨_, rfl⟩

lemma fdProbeRollback_kept (s : FdTable) (probe : FdHostProbe) (hostFd : ℤ) :
    FdKept s (fdProbeRollback s probe hostFd) := by
  unfold fdProbeRollback
  cases probe.restoreFlags with
  | none => exact FdKept.refl s
  | some old => exact ⟨rfl, rfl, rfl, rfl, id⟩

variable {fd : ℕ}

lemma fdInitEntry_filled (s : FdTable) (hfd : fd < fdTableSize) (type : FdType) (hostFd : ℤ)
    (cleanup : Option FdCleanup) (probe : FdHostProbe) :
    FdFilled s s.pending type fd (fdInitEntry s fd type hostFd cleanup probe) where
  lt := hfd
  others := fun n hn => update_of_ne hn _ _
  type_eq := by simp only [fdInitEntry, update_self, fdNewEntry]
  generation := by simp only [fdInitEntry, update_self, fdNewEntry]
  ofdId := by simp only [fdInitEntry, update_self, fdNewEntry, fdInherited, fdRefreshed]
  freeBitmap := rfl
  nextGeneration := rfl
  nextOfdId := rfl
  pending := by
    intro hp
    simp only [fdInitEntry, fdRefreshed, hp, Option.map_none]

lemma fdAllocLocked_lowest (s : FdTable) (minfd : ℤ) (a : FdInstall) (probe : FdHostProbe) :
    FdLowest s s.pending a.type minfd (fdAllocLocked s minfd a probe).1
      (fdAllocLocked s minfd a probe).2 := by
  unfold fdAllocLocked
  cases hf : fdBitmapFindFree s.freeBitmap minfd with
  | none =>
    refine .inr ⟨rfl, ?_, fdProbeRollback_kept s probe a.hostFd⟩
    intro fd hfd
    exact absurd hfd.1 (fdBitmapFindFree_none hf fd)
  | some fd =>
    have hleast : IsLeast {n | FreeFrom s.freeBitmap minfd n} fd := fdBitmapFindFree_some hf
    have hlt : fd < fdTableSize := hleast.1.2.1
    -- below the table's size the clamp of the limit makes no difference
    have hlim : fd < s.rlimitNofileCur ↔ fd < s.nofile := by
      unfold FdTable.rlimitNofileCur
      split <;> omega
    by_cases hfd : fd < s.rlimitNofileCur
    · dsimp only
      rw [if_pos hfd]
      exact .inl ⟨fd, rfl, hleast, hlim.mp hfd, fdInitEntry_filled s hlt _ _ _ _⟩
    dsimp only
    rw [if_neg hfd]
    refine .inr ⟨rfl, ?_, fdProbeRollback_kept s probe a.hostFd⟩
    intro n hn
    rw [hn.unique hleast]
    omega

variable {r : FdResult} {s s' : FdTable} {type : FdType} {inh : Option FdAliasSpec} {minfd : ℤ}

lemma FdLowest.of_hostFlags {h : ℤ → BitVec 32}
    (hl : FdLowest { s with hostFlags := h } inh type minfd r s') :
    FdLowest s inh type minfd r s' := by
  rcases hl with ⟨fd, hr, hleast, hlim, hf⟩ | ⟨hr, hall, hk⟩
  · exact .inl ⟨fd, hr, hleast, hlim, ⟨hf.lt, hf.others, hf.type_eq, hf.generation, hf.ofdId,
      hf.freeBitmap, hf.nextGeneration, hf.nextOfdId, hf.pending⟩⟩
  · exact .inr ⟨hr, hall, ⟨hk.entry, hk.freeBitmap, hk.nextGeneration, hk.nextOfdId, hk.pending⟩⟩

lemma fdAllocFrom_lowest (s : FdTable) (minfd : ℤ) (a : FdInstall) :
    FdLowest s s.pending a.type minfd (fdAllocFrom s minfd a).1 (fdAllocFrom s minfd a).2 := by
  obtain ⟨h, hp⟩ := fdProbeHost_hostFlags s a.type a.hostFd a.answers
  have hl := fdAllocLocked_lowest (fdProbeHost s a.type a.hostFd a.answers).2 minfd a
    (fdProbeHost s a.type a.hostFd a.answers).1
  rw [hp] at hl
  unfold fdAllocFrom
  dsimp only
  rw [hp]
  exact hl.of_hostFlags

lemma FdFilled.publishDir (hf : FdFilled s inh type fd s') (dir : Option ℕ) (flags : BitVec 32) :
    FdFilled s inh type fd (fdPublishDir s' fd dir flags) where
  lt := hf.lt
  others := by
    intro n hn
    rw [← hf.others n hn]
    exact update_of_ne hn _ _
  type_eq := by simp only [fdPublishDir, update_self, hf.type_eq]
  generation := by simp only [fdPublishDir, update_self, hf.generation]
  ofdId := by simp only [fdPublishDir, update_self, hf.ofdId]
  freeBitmap := hf.freeBitmap
  nextGeneration := hf.nextGeneration
  nextOfdId := hf.nextOfdId
  pending := hf.pending

section
variable (s)

lemma fdAllocDirFrom_lowest (minfd : ℤ) (a : FdInstall) (dir : Option ℕ) (flags : BitVec 32) :
    FdLowest s s.pending a.type minfd (fdAllocDirFrom s minfd a dir flags).1
      (fdAllocDirFrom s minfd a dir flags).2 := by
  unfold fdAllocDirFrom
  rcases fdAllocFrom_lowest s minfd a with ⟨fd, hr, hleast, hlim, hf⟩ | ⟨hr, hall, hk⟩
  · simp only [hr]
    exact .inl ⟨fd, rfl, hleast, hlim, hf.publishDir dir flags⟩
  · simp only [hr]
    exact .inr ⟨rfl, hall, hk⟩

lemma fdAllocAt_fixed (fd : ℤ) (a : FdInstall) :
    FdFixed s s.pending a.type (fdAllocAt s fd a).1 (fdAllocAt s fd a).2.2 := by
  unfold fdAllocAt
  cases hok : s.fixedOk fd with
  | false => exact .inr ⟨rfl, FdKept.refl s⟩
  | true =>
    obtain ⟨h0, h1, -⟩ := of_decide_eq_true hok
    obtain ⟨h, hp⟩ := fdProbeHost_hostFlags s a.type a.hostFd a.answers
    have hf := fdInitEntry_filled (fdProbeHost s a.type a.hostFd a.answers).2
      (show fd.toNat < fdTableSize by omega) a.type a.hostFd a.cleanup
      (fdProbeHost s a.type a.hostFd a.answers).1
    simp only [if_true]
    rw [hp] at hf ⊢
    exact .inl ⟨fd.toNat, rfl, ⟨hf.lt, hf.others, hf.type_eq, hf.generation, hf.ofdId,
      hf.freeBitmap, hf.nextGeneration, hf.nextOfdId, hf.pending⟩⟩

lemma fdAllocDirAt_fixed (fd : ℤ) (a : FdInstall) (dir : Option ℕ) (flags : BitVec 32) :
    FdFixed s s.pending a.type (fdAllocDirAt s fd a dir flags).1
      (fdAllocDirAt s fd a dir flags).2.2 := by
  unfold fdAllocDirAt
  rcases fdAllocAt_fixed s fd a with ⟨n, hr, hf⟩ | ⟨hr, hk⟩
  · simp only [hr]
    exact .inl ⟨n, rfl, hf.publishDir dir flags⟩
  · simp only [hr]
    exact .inr ⟨rfl, hk⟩

lemma fdAllocFromRelaxed_lowest (single : Bool) (minfd : ℤ) (a : FdInstall) :
    FdLowest s s.pending a.type minfd (fdAllocFromRelaxed s single minfd a).1
      (fdAllocFromRelaxed s single minfd a).2 := by
  have h := fdAllocFrom_lowest s minfd a
  cases single with
  | true => exact h
  | false => exact h

lemma fdAllocAtRelaxed_eq (single : Bool) (fd : ℤ) (a : FdInstall) :
    (fdAllocAtRelaxed s single fd a).1 = (fdAllocAt s fd a).1 ∧
      (fdAllocAtRelaxed s single fd a).2.2 = (fdAllocAt s fd a).2.2 := by
  unfold fdAllocAtRelaxed
  cases hok : s.fixedOk fd with
  | false =>
    unfold fdAllocAt
    rw [hok]
    exact ⟨rfl, rfl⟩
  | true =>
    rw [if_neg (by decide)]
    grind [fdAllocAt]

lemma fdAllocAtRelaxed_fixed (single : Bool) (fd : ℤ) (a : FdInstall) :
    FdFixed s s.pending a.type (fdAllocAtRelaxed s single fd a).1
      (fdAllocAtRelaxed s single fd a).2.2 := by
  obtain ⟨h1, h2⟩ := fdAllocAtRelaxed_eq s single fd a
  rw [h1, h2]
  exact fdAllocAt_fixed s fd a

end

/-! The alias variants run the plain one between `fd_alias_begin` and `fd_alias_end`. -/

lemma FdFilled.of_pending (hf : FdFilled (fdAliasBegin s inh) inh type fd s') :
    FdFilled s inh type fd (fdAliasEnd s') :=
  ⟨hf.lt, hf.others, hf.type_eq, hf.generation, hf.ofdId, hf.freeBitmap, hf.nextGeneration,
    hf.nextOfdId, fun _ => rfl⟩

lemma FdKept.of_pending (hk : FdKept (fdAliasBegin s inh) s') : FdKept s (fdAliasEnd s') :=
  ⟨hk.entry, hk.freeBitmap, hk.nextGeneration, hk.nextOfdId, fun _ => rfl⟩

lemma FdLowest.of_pending (hl : FdLowest (fdAliasBegin s inh) inh type minfd r s') :
    FdLowest s inh type minfd r (fdAliasEnd s') := by
  rcases hl with ⟨fd, hr, hleast, hlim, hf⟩ | ⟨hr, hall, hk⟩
  · exact .inl ⟨fd, hr, hleast, hlim, hf.of_pending⟩
  · exact .inr ⟨hr, hall, hk.of_pending⟩

lemma FdFixed.of_pending (hl : FdFixed (fdAliasBegin s inh) inh type r s') :
    FdFixed s inh type r (fdAliasEnd s') := by
  rcases hl with ⟨fd, hr, hf⟩ | ⟨hr, hk⟩
  · exact .inl ⟨fd, hr, hf.of_pending⟩
  · exact .inr ⟨hr, hk.of_pending⟩

def FdCall.request : FdCall → Option (FdAliasArg × FdType × FdTarget)
  | .alloc a => some (.fresh, a.type, .lowest 0)
  | .allocDir a _ _ => some (.fresh, a.type, .lowest 0)
  | .allocFrom minfd a => some (.fresh, a.type, .lowest minfd)
  | .allocDirFrom minfd a _ _ => some (.fresh, a.type, .lowest minfd)
  | .allocAt fd a => some (.fresh, a.type, .fixed fd)
  | .allocDirAt fd a _ _ => some (.fresh, a.type, .fixed fd)
  | .allocFromRelaxed _ minfd a => some (.fresh, a.type, .lowest minfd)
  | .allocAtRelaxed _ fd a => some (.fresh, a.type, .fixed fd)
  | .allocAlias arg a => some (arg, a.type, .lowest 0)
  | .allocAliasAt arg fd a => some (arg, a.type, .fixed fd)
  | .allocAliasRelaxed arg _ fixedFd minfd a =>
    some (arg, a.type, if 0 ≤ fixedFd then .fixed fixedFd else .lowest minfd)
  | .allocAliasDir arg fixedFd minfd a _ _ =>
    some (arg, a.type, if 0 ≤ fixedFd then .fixed fixedFd else .lowest minfd)
  | _ => none

/-- What an allocation does, by the place it asks for. -/
def FdTarget.Outcome (s : FdTable) (inh : Option FdAliasSpec) (type : FdType) :
    FdTarget → FdResult → FdTable → Prop
  | .lowest minfd, r, s' => FdLowest s inh type minfd r s'
  | .fixed _, r, s' => FdFixed s inh type r s'

lemma fdAllocAliasRelaxed_outcome (s : FdTable) (inh : Option FdAliasSpec) (single : Bool)
    (fixedFd minfd : ℤ) (a : FdInstall) :
    (if 0 ≤ fixedFd then FdTarget.fixed fixedFd else .lowest minfd).Outcome s inh a.type
      (fdAllocAliasRelaxed s inh single fixedFd minfd a).1
      (fdAllocAliasRelaxed s inh single fixedFd minfd a).2.2 := by
  unfold fdAllocAliasRelaxed
  by_cases h : 0 ≤ fixedFd
  · simp only [if_pos h]
    exact (fdAllocAtRelaxed_fixed (fdAliasBegin s inh) single fixedFd a).of_pending
  · simp only [if_neg h]
    exact (fdAllocFromRelaxed_lowest (fdAliasBegin s inh) single minfd a).of_pending

lemma fdAllocAliasDir_outcome (s : FdTable) (inh : Option FdAliasSpec) (fixedFd minfd : ℤ)
    (a : FdInstall) (dir : Option ℕ) (flags : BitVec 32) :
    (if 0 ≤ fixedFd then FdTarget.fixed fixedFd else .lowest minfd).Outcome s inh a.type
      (fdAllocAliasDir s inh fixedFd minfd a dir flags).1
      (fdAllocAliasDir s inh fixedFd minfd a dir flags).2.2 := by
  unfold fdAllocAliasDir
  by_cases h : 0 ≤ fixedFd
  · simp only [if_pos h]
    exact (fdAllocDirAt_fixed (fdAliasBegin s inh) fixedFd a dir flags).of_pending
  · simp only [if_neg h]
    exact (fdAllocDirFrom_lowest (fdAliasBegin s inh) minfd a dir flags).of_pending

variable {arg : FdAliasArg} {c : FdCall} {target : FdTarget}

lemma FdCall.run_request (hp : s.pending = none) (hc : c.request = some (arg, type, target)) :
    ∃ r, (c.run s).1 = some r ∧ target.Outcome s arg.spec type r (c.run s).2 := by
  -- a plain variant runs with no inheritance pending
  have hplain : FdAliasArg.fresh.spec = s.pending := hp.symm
  cases c with
  | alloc a =>
    cases hc
    exact ⟨_, rfl, hplain ▸ fdAllocFrom_lowest s 0 a⟩
  | allocDir a dir flags =>
    cases hc
    exact ⟨_, rfl, hplain ▸ fdAllocDirFrom_lowest s 0 a dir flags⟩
  | allocFrom minfd a =>
    cases hc
    exact ⟨_, rfl, hplain ▸ fdAllocFrom_lowest s minfd a⟩
  | allocDirFrom minfd a dir flags =>
    cases hc
    exact ⟨_, rfl, hplain ▸ fdAllocDirFrom_lowest s minfd a dir flags⟩
  | allocAt fd a =>
    cases hc
    exact ⟨_, rfl, hplain ▸ fdAllocAt_fixed s fd a⟩
  | allocDirAt fd a dir flags =>
    cases hc
    exact ⟨_, rfl, hplain ▸ fdAllocDirAt_fixed s fd a dir flags⟩
  | allocFromRelaxed single minfd a =>
    cases hc
    exact ⟨_, rfl, hplain ▸ fdAllocFromRelaxed_lowest s single minfd a⟩
  | allocAtRelaxed single fd a =>
    cases hc
    exact ⟨_, rfl, hplain ▸ fdAllocAtRelaxed_fixed s single fd a⟩
  | allocAlias inh a =>
    cases hc
    exact ⟨_, rfl, (fdAllocFrom_lowest (fdAliasBegin s arg.spec) 0 a).of_pending⟩
  | allocAliasAt inh fd a =>
    cases hc
    exact ⟨_, rfl, (fdAllocAt_fixed (fdAliasBegin s arg.spec) fd a).of_pending⟩
  | allocAliasRelaxed inh single fixedFd minfd a =>
    cases hc
    exact ⟨_, rfl, fdAllocAliasRelaxed_outcome s arg.spec single fixedFd minfd a⟩
  | allocAliasDir inh fixedFd minfd a dir flags =>
    cases hc
    exact ⟨_, rfl, fdAllocAliasDir_outcome s arg.spec fixedFd minfd a dir flags⟩
  | reserveOfdId => cases hc
  | markClosed fd => cases hc
  | snapshotAndClose fd => cases hc
  | closeRegularRelaxed single fd => cases hc
  | retirePublished fd hostFd => cases hc
  | setNofile limit => cases hc

lemma FdTarget.Outcome.filled_or_kept (h : target.Outcome s inh type r s') :
    (∃ fd, r = .ok fd ∧ FdFilled s inh type fd s') ∨ ((∃ e, r = .error e) ∧ FdKept s s') := by
  cases target with
  | lowest minfd =>
    rcases h with ⟨fd, hr, -, -, hf⟩ | ⟨hr, -, hk⟩
    · exact .inl ⟨fd, hr, hf⟩
    · exact .inr ⟨⟨_, hr⟩, hk⟩
  | fixed fd =>
    rcases h with ⟨n, hr, hf⟩ | ⟨hr, hk⟩
    · exact .inl ⟨n, hr, hf⟩
    · exact .inr ⟨⟨_, hr⟩, hk⟩

structure FdShut (s : FdTable) (fd : ℕ) (s' : FdTable) : Prop where
  lt : fd < fdTableSize
  others : ∀ n, n ≠ fd → s'.entry n = s.entry n
  type_eq : (s'.entry fd).type = .closed
  ofdId : (s'.entry fd).ofdId = 0
  freeBitmap : s'.freeBitmap = fdBitmapSetFree s.freeBitmap fd
  nextGeneration : s'.nextGeneration = s.nextGeneration
  nextOfdId : s'.nextOfdId = s.nextOfdId
  pending : s'.pending = s.pending

lemma fdMarkClosedUnlocked_shut (s : FdTable) (hfd : fd < fdTableSize) :
    FdShut s fd (fdMarkClosedUnlocked s fd).2 where
  lt := hfd
  others := fun n hn => update_of_ne hn _ _
  type_eq := by simp only [fdMarkClosedUnlocked, update_self, fdClosedEntry]
  ofdId := by simp only [fdMarkClosedUnlocked, update_self, fdClosedEntry]
  freeBitmap := rfl
  nextGeneration := rfl
  nextOfdId := rfl
  pending := rfl

/-- A call that does not allocate closes one slot or changes none. -/
def FdClosesAtMost (s s' : FdTable) : Prop := FdKept s s' ∨ ∃ fd, FdShut s fd s'

lemma fdSnapshotAndClose_closesAtMost (s : FdTable) (fd : ℤ) :
    FdClosesAtMost s (fdSnapshotAndClose s fd).2 := by
  unfold fdSnapshotAndClose
  split
  · unfold fdSnapshotLocked
    split
    · exact .inl (FdKept.refl s)
    · exact .inr ⟨fd.toNat, fdMarkClosedUnlocked_shut s (by omega)⟩
  · exact .inl (FdKept.refl s)

lemma fdCloseRegularRelaxed_closesAtMost (s : FdTable) (single : Bool) (fd : ℤ) :
    FdClosesAtMost s (fdCloseRegularRelaxed s single fd).2 := by
  unfold fdCloseRegularRelaxed
  dsimp only
  split
  case isTrue h => exact .inr ⟨fd.toNat, fdMarkClosedUnlocked_shut s (by omega)⟩
  case isFalse h => exact .inl (FdKept.refl s)

lemma fdRetirePublished_closesAtMost (s : FdTable) (fd hostFd : ℤ) :
    FdClosesAtMost s (fdRetirePublished s fd hostFd).2 := by
  unfold fdRetirePublished
  dsimp only
  split
  · split
    · exact .inr ⟨fd.toNat, fdMarkClosedUnlocked_shut s (by omega)⟩
    · exact .inl (FdKept.refl s)
  · exact .inl (FdKept.refl s)

/-! ### Histories -/

/-- A slot that was filled: its generation, its description, and the generation of the slot it
was made an alias of. -/
structure FdMade where
  generation : ℕ
  ofdId : ℕ
  source : Option ℕ
  deriving DecidableEq, Repr

structure FdHistory where
  tab : FdTable
  /-- The slots filled so far, the latest first. -/
  made : List FdMade
  /-- The identities reserved and not yet given to a slot. -/
  reserved : List ℕ
  /-- The number of calls so far. -/
  calls : ℕ

/-- The table after `fdtable_init`: the three standard streams have been made. -/
def FdHistory.init (mayBlock : ℕ → Bool) (nofile : ℕ) (hostFlags : ℤ → BitVec 32) : FdHistory :=
  { tab := fdtableInit mayBlock nofile hostFlags
    made := [⟨1, 1, none⟩, ⟨2, 2, none⟩, ⟨3, 3, none⟩]
    reserved := []
    calls := 0 }

def FdHistory.held (h : FdHistory) (snap : FdEntry) : Bool :=
  h.made.any fun m => m.generation == snap.generation && m.ofdId == snap.ofdId

def FdAliasArg.legal (h : FdHistory) : FdAliasArg → Bool
  | .full _ snap _ => h.held snap
  | .identity snap _ => h.held snap
  | .reserved id _ => h.reserved.contains id
  | .fresh => true
  | .hostShared _ => true
  | .carried _ _ => true

/-- The calls a caller can make: it installs an open type, and it closes without a check only
inside the table. -/
def FdCall.legal (h : FdHistory) (c : FdCall) : Bool :=
  match c.request, c with
  | some (arg, type, _), _ => arg.legal h && type != .closed
  | none, .markClosed fd => decide (fd < fdTableSize)
  | none, _ => true

/-- The reserved identities left once an allocation has succeeded. -/
def FdAliasArg.unreserve (reserved : List ℕ) : FdAliasArg → List ℕ
  | .reserved id _ => reserved.erase id
  | _ => reserved

/-- What the history keeps of a successful allocation. -/
def FdHistory.record (h : FdHistory) (tab : FdTable) (arg : FdAliasArg) (fd : ℕ) : FdHistory :=
  { tab := tab
    made := ⟨(tab.entry fd).generation, (tab.entry fd).ofdId,
      arg.source.map (·.generation)⟩ :: h.made
    reserved := arg.unreserve h.reserved
    calls := h.calls + 1 }

def FdHistory.after (h : FdHistory) (c : FdCall) : FdHistory :=
  let tab := (c.run h.tab).2
  match c.request, (c.run h.tab).1, c with
  | some (arg, _, _), some (.ok fd), _ => h.record tab arg fd
  | none, _, .reserveOfdId =>
    { h with tab := tab, reserved := (fdReserveOfdId h.tab).1 :: h.reserved, calls := h.calls + 1 }
  | _, _, _ => { h with tab := tab, calls := h.calls + 1 }

def FdHistory.next (h : FdHistory) (c : FdCall) : Option FdHistory :=
  if c.legal h then some (h.after c) else none

/-- One slot was made an alias of another, both given by their generations. -/
def AliasOf (made : List FdMade) (g g' : ℕ) : Prop :=
  ∃ m ∈ made, m.generation = g ∧ m.source = some g'

/-- The bitmap is the table's, and no inheritance is pending. -/
structure FdBits (tab : FdTable) : Prop where
  agrees : ∀ fd < fdTableSize, freeBit tab.freeBitmap fd = true ↔ (tab.entry fd).type = .closed
  pending : tab.pending = none

structure FdInv (h : FdHistory) : Prop extends FdBits h.tab where
  open_made : ∀ fd < fdTableSize, (h.tab.entry fd).type ≠ .closed →
    ∃ m ∈ h.made, m.generation = (h.tab.entry fd).generation ∧ m.ofdId = (h.tab.entry fd).ofdId
  closed_ofdId : ∀ fd < fdTableSize, (h.tab.entry fd).type = .closed → (h.tab.entry fd).ofdId = 0
  open_inj : ∀ fd < fdTableSize, ∀ fd' < fdTableSize, (h.tab.entry fd).type ≠ .closed →
    (h.tab.entry fd').type ≠ .closed →
    (h.tab.entry fd).generation = (h.tab.entry fd').generation → fd = fd'
  generations : (h.made.map (·.generation)).Nodup
  generation_lt : ∀ m ∈ h.made, m.generation < h.tab.nextGeneration
  ofdId_lt : ∀ m ∈ h.made, 0 < m.ofdId ∧ m.ofdId < h.tab.nextOfdId
  reserved_lt : ∀ id ∈ h.reserved, 0 < id ∧ id < h.tab.nextOfdId
  reserved_nodup : h.reserved.Nodup
  /-- A reserved identity belongs to no slot yet. -/
  reserved_unused : ∀ id ∈ h.reserved, ∀ m ∈ h.made, m.ofdId ≠ id
  /-- Slots of one description are linked by aliases. -/
  aliases : ∀ m ∈ h.made, ∀ m' ∈ h.made, m.ofdId = m'.ofdId →
    Relation.EqvGen (AliasOf h.made) m.generation m'.generation
  nextOfdId_pos : 0 < h.tab.nextOfdId
  counters : h.tab.nextGeneration ≤ 4 + h.calls ∧ h.tab.nextOfdId ≤ 4 + h.calls

lemma FdInv.init (mayBlock : ℕ → Bool) (nofile : ℕ) (hostFlags : ℤ → BitVec 32) :
    FdInv (FdHistory.init mayBlock nofile hostFlags) := by
  have hentry : ∀ fd, (FdHistory.init mayBlock nofile hostFlags).tab.entry fd =
      if fd < 3 then fdStdio fd (mayBlock fd) else FdEntry.zero := fun _ => rfl
  have hclosed : ∀ fd, ((FdHistory.init mayBlock nofile hostFlags).tab.entry fd).type = .closed ↔
      ¬ fd < 3 := by
    intro fd
    rw [hentry]
    split
    · exact iff_of_false nofun (not_not.mpr ‹_›)
    · exact iff_of_true rfl ‹_›
  have hopen : ∀ fd, ((FdHistory.init mayBlock nofile hostFlags).tab.entry fd).type ≠ .closed →
      fd < 3 := fun fd h => not_not.mp (mt (hclosed fd).mpr h)
  constructor
  case toFdBits =>
    refine ⟨fun fd hfd => ?_, rfl⟩
    have hall : freeBit (fun _ => BitVec.allOnes 64) fd := by
      unfold freeBit
      rw [BitVec.getLsbD_allOnes]
      grind
    rw [hclosed]
    simp only [FdHistory.init, fdtableInit, freeBit_setUsed, hall, Bool.and_true, Bool.and_eq_true,
      Bool.not_eq_true', decide_eq_false_iff_not]
    omega
  case open_made =>
    intro fd _ h
    have hlt := hopen fd h
    show ∃ m ∈ [_, _, _], _
    rw [hentry, if_pos hlt]
    obtain rfl | rfl | rfl : fd = 0 ∨ fd = 1 ∨ fd = 2 := by omega
    all_goals simp [fdStdio]
  case closed_ofdId =>
    intro fd _ h
    rw [hentry, if_neg ((hclosed fd).mp h)]
    rfl
  case open_inj =>
    intro fd _ fd' _ h h' hg
    rw [hentry, if_pos (hopen fd h), hentry, if_pos (hopen fd' h')] at hg
    exact Nat.succ.inj hg
  case generations => exact (by decide : [1, 2, 3].Nodup)
  case generation_lt =>
    exact (by decide : ∀ m ∈ [FdMade.mk 1 1 none, ⟨2, 2, none⟩, ⟨3, 3, none⟩], m.generation < 4)
  case ofdId_lt =>
    exact (by decide : ∀ m ∈ [FdMade.mk 1 1 none, ⟨2, 2, none⟩, ⟨3, 3, none⟩],
      0 < m.ofdId ∧ m.ofdId < 4)
  case reserved_lt => exact fun id hid => absurd hid not_mem_nil
  case reserved_nodup => exact nodup_nil
  case reserved_unused => exact fun id hid => absurd hid not_mem_nil
  case aliases =>
    intro m hm m' hm' heq
    have hsame : ∀ m ∈ [FdMade.mk 1 1 none, ⟨2, 2, none⟩, ⟨3, 3, none⟩],
      m.generation = m.ofdId := by decide
    rw [hsame m hm, hsame m' hm', heq]
    exact Relation.EqvGen.refl _
  case nextOfdId_pos => exact (by decide : 0 < 4)
  case counters => exact ⟨le_refl 4, le_refl 4⟩

/-! ### One step -/

variable {h h' : FdHistory} {tab : FdTable} {cs : List FdCall} {snap : FdEntry}

lemma FdBits.kept (hb : FdBits s) (hk : FdKept s tab) : FdBits tab := by
  refine ⟨?_, hk.pending hb.pending⟩
  rw [hk.freeBitmap, hk.entry]
  exact hb.agrees

lemma FdBits.shut (hb : FdBits s) (hs : FdShut s fd tab) : FdBits tab := by
  refine ⟨fun n hn => ?_, hs.pending.trans hb.pending⟩
  rw [hs.freeBitmap, freeBit_setFree]
  by_cases hne : n = fd
  · subst hne
    simp [hs.type_eq]
  · rw [hs.others n hne, ← hb.agrees n hn]
    simp [hne]

lemma FdBits.filled (hb : FdBits s) (hf : FdFilled s inh type fd tab) (ht : type ≠ .closed) :
    FdBits tab := by
  refine ⟨fun n hn => ?_, hf.pending hb.pending⟩
  rw [hf.freeBitmap, freeBit_setUsed]
  by_cases hne : n = fd
  · subst hne
    simp [hf.type_eq, ht]
  · rw [hf.others n hne, ← hb.agrees n hn]
    simp [hne]

lemma FdInv.kept (hi : FdInv h) (hk : FdKept h.tab tab) :
    FdInv { h with tab := tab, calls := h.calls + 1 } where
  toFdBits := hi.toFdBits.kept hk
  open_made := by
    rw [hk.entry]
    exact hi.open_made
  closed_ofdId := by
    rw [hk.entry]
    exact hi.closed_ofdId
  open_inj := by
    rw [hk.entry]
    exact hi.open_inj
  generations := hi.generations
  generation_lt := by
    rw [hk.nextGeneration]
    exact hi.generation_lt
  ofdId_lt := by
    rw [hk.nextOfdId]
    exact hi.ofdId_lt
  reserved_lt := by
    rw [hk.nextOfdId]
    exact hi.reserved_lt
  reserved_nodup := hi.reserved_nodup
  reserved_unused := hi.reserved_unused
  aliases := hi.aliases
  nextOfdId_pos := by
    rw [hk.nextOfdId]
    exact hi.nextOfdId_pos
  counters := by
    have hc := hi.counters
    show tab.nextGeneration ≤ 4 + (h.calls + 1) ∧ tab.nextOfdId ≤ 4 + (h.calls + 1)
    rw [hk.nextGeneration, hk.nextOfdId]
    omega

lemma FdInv.shut (hi : FdInv h) (hs : FdShut h.tab fd tab) :
    FdInv { h with tab := tab, calls := h.calls + 1 } := by
  have hopen : ∀ n, (tab.entry n).type ≠ .closed → n ≠ fd ∧ tab.entry n = h.tab.entry n := by
    intro n hn
    have hne : n ≠ fd := by
      rintro rfl
      exact hn hs.type_eq
    exact ⟨hne, hs.others n hne⟩
  constructor
  case toFdBits => exact hi.toFdBits.shut hs
  case open_made =>
    intro n hn ho
    rw [(hopen n ho).2]
    exact hi.open_made n hn ((hopen n ho).2 ▸ ho)
  case closed_ofdId =>
    intro n hn hc
    by_cases hne : n = fd
    · rw [hne]
      exact hs.ofdId
    · rw [hs.others n hne]
      exact hi.closed_ofdId n hn (hs.others n hne ▸ hc)
  case open_inj =>
    intro n hn n' hn' ho ho' hg
    refine hi.open_inj n hn n' hn' ((hopen n ho).2 ▸ ho) ((hopen n' ho').2 ▸ ho') ?_
    rw [← (hopen n ho).2, ← (hopen n' ho').2]
    exact hg
  case generations => exact hi.generations
  case generation_lt =>
    intro m hm
    exact hs.nextGeneration ▸ hi.generation_lt m hm
  case ofdId_lt =>
    intro m hm
    exact hs.nextOfdId ▸ hi.ofdId_lt m hm
  case reserved_lt =>
    intro id hid
    exact hs.nextOfdId ▸ hi.reserved_lt id hid
  case reserved_nodup => exact hi.reserved_nodup
  case reserved_unused => exact hi.reserved_unused
  case aliases => exact hi.aliases
  case nextOfdId_pos => exact hs.nextOfdId ▸ hi.nextOfdId_pos
  case counters =>
    have hc := hi.counters
    show tab.nextGeneration ≤ 4 + (h.calls + 1) ∧ tab.nextOfdId ≤ 4 + (h.calls + 1)
    rw [hs.nextGeneration, hs.nextOfdId]
    omega

lemma held_iff : h.held snap ↔
      ∃ m ∈ h.made, m.generation = snap.generation ∧ m.ofdId = snap.ofdId := by
  simp only [FdHistory.held, any_eq_true, Bool.and_eq_true, beq_iff_eq]

/-- Where the identity of a new slot comes from, and where it leaves the counter. -/
inductive FdOrigin (h : FdHistory) (arg : FdAliasArg) (ofdId counter : ℕ) : Prop
  | minted (new : ofdId = h.tab.nextOfdId) (count : counter = u64 (h.tab.nextOfdId + 1))
  /-- It is that of the slot the caller took a snapshot of. -/
  | shared (snap : FdEntry) (m : FdMade) (source : arg.source = some snap) (mem : m ∈ h.made)
      (generation : m.generation = snap.generation) (same : m.ofdId = ofdId)
      (count : counter = h.tab.nextOfdId)
  | reserved (flags : BitVec 32) (arg_eq : arg = .reserved ofdId flags)
      (mem : ofdId ∈ h.reserved) (count : counter = h.tab.nextOfdId)

lemma fdAliasRefresh_of_neg (entry : ℕ → FdEntry)
    (h : spec.srcGuestFd < 0) : fdAliasRefresh entry spec = spec := by
  grind [fdAliasRefresh]

/-- Re-reading the source of an alias finds the description of the snapshot, or none where the
slot was closed and is being filled again. -/
lemma FdInv.refresh_ofdId (hi : FdInv h) (fd : ℕ) (type : FdType) (hheld : h.held snap)
    (spec : FdAliasSpec) (hspec : spec.ofdId = snap.ofdId)
    (hgen : spec.srcGeneration = snap.generation) :
    (fdAliasRefresh (update h.tab.entry fd { h.tab.entry fd with type := type })
      spec).ofdId = snap.ofdId ∨
    (fdAliasRefresh (update h.tab.entry fd { h.tab.entry fd with type := type })
      spec).ofdId = 0 := by
  obtain ⟨m, hm, hmg, hmo⟩ := held_iff.mp hheld
  have hentry : ∀ n, (update h.tab.entry fd { h.tab.entry fd with type := type } n).ofdId
        = (h.tab.entry n).ofdId ∧
      (update h.tab.entry fd { h.tab.entry fd with type := type } n).generation
        = (h.tab.entry n).generation := by
    intro n
    by_cases hn : n = fd
    · rw [hn, update_self]
      exact ⟨rfl, rfl⟩
    · rw [update_of_ne hn]
      exact ⟨rfl, rfl⟩
  unfold fdAliasRefresh
  dsimp only
  split
  case isFalse => exact .inl hspec
  case isTrue hlive =>
    obtain ⟨h0, h1, -, hsame⟩ := hlive
    have hlt : spec.srcGuestFd.toNat < fdTableSize := by omega
    rw [(hentry _).2, hgen] at hsame
    rw [(hentry _).1]
    by_cases hc : (h.tab.entry spec.srcGuestFd.toNat).type = .closed
    · exact .inr (hi.closed_ofdId _ hlt hc)
    obtain ⟨m', hm', hg', ho'⟩ := hi.open_made _ hlt hc
    left
    rw [← ho', ← hmo]
    rw [inj_on_of_nodup_map hi.generations hm' hm (by rw [hg', hsame, hmg])]

/-- The identity a legal allocation gives its slot. -/
lemma FdInv.origin (hi : FdInv h) (hf : FdFilled h.tab arg.spec type fd tab) (hl : arg.legal h) :
    FdOrigin h arg (tab.entry fd).ofdId tab.nextOfdId := by
  -- what the two readers of the refreshed specification do with it
  have hzero : ∀ spec : FdAliasSpec, fdInherited h.tab fd type arg.spec = some spec →
      spec.ofdId = 0 → FdOrigin h arg (tab.entry fd).ofdId tab.nextOfdId := by
    intro spec hs h0
    have ho := hf.ofdId
    have hn := hf.nextOfdId
    rw [hs] at ho hn
    exact .minted (by rw [ho, fdNewOfdId, if_neg (by omega)]) (by rw [hn, fdNamesOfd, h0]; rfl)
  have hnamed : ∀ spec : FdAliasSpec, fdInherited h.tab fd type arg.spec = some spec →
      0 < spec.ofdId → (tab.entry fd).ofdId = spec.ofdId ∧ tab.nextOfdId = h.tab.nextOfdId := by
    intro spec hs hpos
    have ho := hf.ofdId
    have hn := hf.nextOfdId
    rw [hs] at ho hn
    have hname : fdNamesOfd (some spec) := bne_iff_ne.mpr (by omega)
    exact ⟨by rw [ho, fdNewOfdId, if_pos (by omega)], by rw [hn, if_pos hname]⟩
  cases arg with
  | fresh => exact .minted hf.ofdId hf.nextOfdId
  | full src snap extra =>
    obtain ⟨m, hm, hmg, hmo⟩ := held_iff.mp hl
    rcases hi.refresh_ofdId fd type hl { fdAliasOf src snap with
        linuxFlags := (fdAliasOf src snap).linuxFlags ||| extra } rfl rfl with hr | hr
    · have hpos := (hi.ofdId_lt m hm).1
      obtain ⟨h1, h2⟩ := hnamed _ rfl (by rw [hr, ← hmo]; exact hpos)
      exact .shared snap m rfl hm hmg (by rw [h1, hr, hmo]) h2
    · exact hzero _ rfl hr
  | hostShared snap =>
    refine hzero (fdAliasHostShared snap) ?_ rfl
    exact congrArg some (fdAliasRefresh_of_neg _ (by decide : (-1 : ℤ) < 0))
  | identity snap flags =>
    obtain ⟨m, hm, hmg, hmo⟩ := held_iff.mp hl
    have hpos := (hi.ofdId_lt m hm).1
    obtain ⟨h1, h2⟩ := hnamed (fdAliasIdentity snap.ofdId flags)
      (congrArg some (fdAliasRefresh_of_neg _ (by decide : (-1 : ℤ) < 0)))
      (show 0 < snap.ofdId by omega)
    exact .shared snap m rfl hm hmg (by rw [h1, hmo]; rfl) h2
  | reserved id flags =>
    have hmem : id ∈ h.reserved := contains_iff_mem.mp hl
    obtain ⟨h1, h2⟩ := hnamed (fdAliasIdentity id flags)
      (congrArg some (fdAliasRefresh_of_neg _ (by decide : (-1 : ℤ) < 0)))
      (hi.reserved_lt id hmem).1
    have h1' : (tab.entry fd).ofdId = id := h1
    exact .reserved flags (by rw [h1']) (h1' ▸ hmem) h2
  | carried foreign owned =>
    refine hzero (fdAliasCarried foreign owned) ?_ rfl
    exact congrArg some (fdAliasRefresh_of_neg _ (by decide : (-1 : ℤ) < 0))

lemma aliases_cons (new : FdMade)
    (hg : Relation.EqvGen (AliasOf made) g g') : Relation.EqvGen (AliasOf (new :: made)) g g' := by
  refine Relation.EqvGen.mono ?_ g g' hg
  rintro a b ⟨m, hm, hab⟩
  exact ⟨m, mem_cons_of_mem new hm, hab⟩

lemma FdOrigin.counter {ofdId counter : ℕ} (ho : FdOrigin h arg ofdId counter) (hi : FdInv h)
    (hcalls : h.calls + 1 < 2 ^ 64 - 4) :
    h.tab.nextOfdId ≤ counter ∧ counter ≤ h.tab.nextOfdId + 1 ∧ 0 < ofdId ∧ ofdId < counter := by
  have hc := hi.counters
  have hu : u64 (h.tab.nextOfdId + 1) = h.tab.nextOfdId + 1 := u64_of_lt (by omega)
  cases ho with
  | minted ho hn =>
    have := hi.nextOfdId_pos
    omega
  | shared snap m _ hm _ ho hn =>
    have := hi.ofdId_lt m hm
    omega
  | reserved _ _ hm hn =>
    have := hi.reserved_lt _ hm
    omega

lemma FdOrigin.linked {ofdId counter : ℕ} (horigin : FdOrigin h arg ofdId counter) (hi : FdInv h)
    {new m : FdMade} (hnew : new.source = arg.source.map (·.generation)) (hm : m ∈ h.made)
    (hsame : m.ofdId = ofdId) :
    Relation.EqvGen (AliasOf (new :: h.made)) new.generation m.generation := by
  cases horigin with
  | minted hminted _ =>
    have := (hi.ofdId_lt m hm).2
    omega
  | reserved flags harg hmem _ => exact absurd hsame (hi.reserved_unused _ hmem m hm)
  | shared snap m0 hsrc hm0 hg0 ho0 _ =>
    have hstep : AliasOf (new :: h.made) new.generation m0.generation :=
      ⟨new, mem_cons_self, rfl, by rw [hnew, hsrc, hg0, Option.map_some]⟩
    exact (Relation.EqvGen.rel _ _ hstep).trans _ _ _
      (aliases_cons new (hi.aliases m0 hm0 m hm (ho0.trans hsame.symm)))

/-- Filling a slot keeps the invariant while the counters have not come round. -/
lemma FdInv.filled (hi : FdInv h) (hcalls : h.calls + 1 < 2 ^ 64 - 4)
    (hf : FdFilled h.tab arg.spec type fd tab) (hl : arg.legal h) (ht : type ≠ .closed) :
    FdInv (h.record tab arg fd) := by
  have hc := hi.counters
  have hgen : tab.nextGeneration = h.tab.nextGeneration + 1 := by
    rw [hf.nextGeneration, u64_of_lt (by omega)]
  have horigin := hi.origin hf hl
  obtain ⟨hofd, hofd', hnew⟩ := horigin.counter hi hcalls
  have hsub : ∀ id, id ∈ arg.unreserve h.reserved → id ∈ h.reserved := by
    intro id hid
    cases arg with
    | reserved i flags => exact mem_of_mem_erase hid
    | _ => exact hid
  have hsame : ∀ n, n ≠ fd → (h.record tab arg fd).tab.entry n = h.tab.entry n := hf.others
  constructor
  case toFdBits => exact hi.toFdBits.filled hf ht
  case open_made =>
    intro n hn ho
    by_cases hne : n = fd
    · subst hne
      exact ⟨_, mem_cons_self, rfl, rfl⟩
    rw [hsame n hne] at ho ⊢
    obtain ⟨m, hm, hmo⟩ := hi.open_made n hn ho
    exact ⟨m, mem_cons_of_mem _ hm, hmo⟩
  case closed_ofdId =>
    intro n hn hclosed
    have hne : n ≠ fd := by
      rintro rfl
      exact ht (hf.type_eq.symm.trans hclosed)
    rw [hsame n hne] at hclosed ⊢
    exact hi.closed_ofdId n hn hclosed
  case open_inj =>
    -- the generation of the new entry is above every one given out before
    have hold : ∀ n < fdTableSize, n ≠ fd → (tab.entry n).type ≠ .closed →
        (tab.entry n).generation ≠ (tab.entry fd).generation := by
      intro n hn hne ho
      rw [hf.others n hne] at ho ⊢
      obtain ⟨m, hm, hmg, -⟩ := hi.open_made n hn ho
      have := hi.generation_lt m hm
      rw [hf.generation]
      omega
    intro n hn n' hn' ho ho' hg
    by_cases hne : n = fd
    · by_cases hne' : n' = fd
      · rw [hne, hne']
      · exact absurd (hne ▸ hg.symm) (hold n' hn' hne' ho')
    by_cases hne' : n' = fd
    · exact absurd (hne' ▸ hg) (hold n hn hne ho)
    rw [hsame n hne] at ho hg
    rw [hsame n' hne'] at ho' hg
    exact hi.open_inj n hn n' hn' ho ho' hg
  case generations =>
    refine nodup_cons.mpr ⟨?_, hi.generations⟩
    intro hmem
    obtain ⟨m, hm, hmg⟩ := mem_map.mp hmem
    have := hi.generation_lt m hm
    have := hf.generation
    simp only at hmg
    omega
  case generation_lt =>
    have := hf.generation
    refine forall_mem_cons.mpr ⟨?_, fun m hm => (hi.generation_lt m hm).trans_le ?_⟩
    · show (tab.entry fd).generation < tab.nextGeneration
      omega
    · show h.tab.nextGeneration ≤ tab.nextGeneration
      omega
  case ofdId_lt =>
    exact forall_mem_cons.mpr ⟨hnew, fun m hm => (hi.ofdId_lt m hm).imp_right (·.trans_le hofd)⟩
  case reserved_lt =>
    exact fun id hid => (hi.reserved_lt id (hsub id hid)).imp_right (·.trans_le hofd)
  case reserved_nodup =>
    cases arg with
    | reserved i flags => exact hi.reserved_nodup.erase i
    | _ => exact hi.reserved_nodup
  case reserved_unused =>
    intro id hid m hm
    rcases mem_cons.mp hm with rfl | hm
    · show (tab.entry fd).ofdId ≠ id
      cases horigin with
      | minted ho _ =>
        have := (hi.reserved_lt id (hsub id hid)).2
        omega
      | shared snap m _ hm _ ho _ =>
        rw [← ho]
        exact hi.reserved_unused id (hsub id hid) m hm
      | reserved flags harg _ _ =>
        intro heq
        have hid' : id ∈ h.reserved.erase (tab.entry fd).ofdId := by
          rw [harg] at hid
          exact hid
        exact (hi.reserved_nodup.mem_erase_iff.mp hid').1 heq.symm
    · exact hi.reserved_unused id (hsub id hid) m hm
  case aliases =>
    intro m hm m' hm' ho
    rcases mem_cons.mp hm with rfl | hm
    · rcases mem_cons.mp hm' with rfl | hm'
      · exact Relation.EqvGen.refl _
      · exact horigin.linked hi rfl hm' ho.symm
    rcases mem_cons.mp hm' with rfl | hm'
    · exact (horigin.linked hi rfl hm ho).symm
    · exact aliases_cons _ (hi.aliases m hm m' hm' ho)
  case nextOfdId_pos => exact hi.nextOfdId_pos.trans_le hofd
  case counters =>
    show tab.nextGeneration ≤ 4 + (h.calls + 1) ∧ tab.nextOfdId ≤ 4 + (h.calls + 1)
    omega

/-- Reserving an identity keeps the invariant while the counter has not come round. -/
lemma FdInv.reserve (hi : FdInv h) (hcalls : h.calls + 1 < 2 ^ 64 - 4) :
    FdInv (h.after .reserveOfdId) := by
  have hc := hi.counters
  have hu : u64 (h.tab.nextOfdId + 1) = h.tab.nextOfdId + 1 := u64_of_lt (by omega)
  have hlt : ∀ n, n < h.tab.nextOfdId → n < (h.after .reserveOfdId).tab.nextOfdId := by
    intro n hn
    show n < u64 (h.tab.nextOfdId + 1)
    omega
  constructor
  case toFdBits => exact ⟨hi.agrees, hi.pending⟩
  case open_made => exact hi.open_made
  case closed_ofdId => exact hi.closed_ofdId
  case open_inj => exact hi.open_inj
  case generations => exact hi.generations
  case generation_lt => exact hi.generation_lt
  case ofdId_lt => exact fun m hm => (hi.ofdId_lt m hm).imp_right (hlt _)
  case reserved_lt =>
    refine forall_mem_cons.mpr ⟨⟨hi.nextOfdId_pos, ?_⟩,
      fun id hid => (hi.reserved_lt id hid).imp_right (hlt _)⟩
    show h.tab.nextOfdId < u64 (h.tab.nextOfdId + 1)
    omega
  case reserved_nodup =>
    refine nodup_cons.mpr ⟨?_, hi.reserved_nodup⟩
    intro hmem
    exact absurd (hi.reserved_lt _ hmem).2 (lt_irrefl _)
  case reserved_unused =>
    exact forall_mem_cons.mpr ⟨fun m hm => (hi.ofdId_lt m hm).2.ne, hi.reserved_unused⟩
  case aliases => exact hi.aliases
  case nextOfdId_pos => exact hlt 0 hi.nextOfdId_pos
  case counters =>
    show h.tab.nextGeneration ≤ 4 + (h.calls + 1) ∧ u64 (h.tab.nextOfdId + 1) ≤ 4 + (h.calls + 1)
    omega

lemma FdHistory.after_calls (h : FdHistory) (c : FdCall) : (h.after c).calls = h.calls + 1 := by
  unfold FdHistory.after
  split <;> rfl

/-- All that a step can do: it fills a slot, closes one, changes none, or reserves an identity. -/
lemma FdHistory.next_cases (hp : h.tab.pending = none) (hn : h.next c = some h') :
    (∃ arg type fd tab, FdFilled h.tab arg.spec type fd tab ∧ arg.legal h ∧ type ≠ .closed ∧
      h' = h.record tab arg fd) ∨
    (∃ tab, FdClosesAtMost h.tab tab ∧ h' = { h with tab := tab, calls := h.calls + 1 }) ∨
    h' = h.after .reserveOfdId := by
  unfold FdHistory.next at hn
  split at hn
  case isFalse => cases hn
  rename_i hl
  obtain rfl : h.after c = h' := Option.some.inj hn
  cases hreq : c.request with
  | some q =>
    obtain ⟨arg, type, target⟩ := q
    have hlegal : arg.legal h ∧ type ≠ .closed := by
      unfold FdCall.legal at hl
      grind
    obtain ⟨r, hr, hout⟩ := FdCall.run_request hp hreq
    unfold FdHistory.after
    simp only [hreq, hr]
    rcases hout.filled_or_kept with ⟨fd, rfl, hf⟩ | ⟨⟨e, rfl⟩, hk⟩
    · exact .inl ⟨arg, type, fd, _, hf, hlegal.1, hlegal.2, rfl⟩
    · exact .inr (.inl ⟨_, .inl hk, rfl⟩)
  | none =>
    cases c with
    | reserveOfdId => exact .inr (.inr rfl)
    | markClosed fd =>
      exact .inr (.inl ⟨_, .inr ⟨fd, fdMarkClosedUnlocked_shut h.tab (of_decide_eq_true hl)⟩, rfl⟩)
    | snapshotAndClose fd =>
      exact .inr (.inl ⟨_, fdSnapshotAndClose_closesAtMost h.tab fd, rfl⟩)
    | closeRegularRelaxed single fd =>
      exact .inr (.inl ⟨_, fdCloseRegularRelaxed_closesAtMost h.tab single fd, rfl⟩)
    | retirePublished fd hostFd =>
      exact .inr (.inl ⟨_, fdRetirePublished_closesAtMost h.tab fd hostFd, rfl⟩)
    | setNofile limit =>
      exact .inr (.inl ⟨{ h.tab with nofile := limit }, .inl ⟨rfl, rfl, rfl, rfl, id⟩, rfl⟩)
    | _ => cases hreq

lemma FdBits.step (hb : FdBits h.tab) (hn : h.next c = some h') : FdBits h'.tab := by
  obtain ⟨arg, type, fd, tab, hf, -, ht, rfl⟩ | ⟨tab, hk | ⟨fd, hs⟩, rfl⟩ | rfl :=
    FdHistory.next_cases hb.pending hn
  · exact hb.filled hf ht
  · exact hb.kept hk
  · exact hb.shut hs
  · exact ⟨hb.agrees, hb.pending⟩

lemma FdInv.step (hi : FdInv h) (hn : h.next c = some h') (hcalls : h'.calls < 2 ^ 64 - 4) :
    FdInv h' := by
  obtain ⟨arg, type, fd, tab, hf, hl, ht, rfl⟩ | ⟨tab, hk | ⟨fd, hs⟩, rfl⟩ | rfl :=
    FdHistory.next_cases hi.pending hn
  · exact hi.filled hcalls hf hl ht
  · exact hi.kept hk
  · exact hi.shut hs
  · rw [h.after_calls] at hcalls
    exact hi.reserve hcalls

lemma FdHistory.exec_calls (hrun : exec FdHistory.next h cs = some h') :
    h'.calls = h.calls + cs.length := by
  induction cs generalizing h with
  | nil =>
    obtain rfl : h = h' := Option.some.inj hrun
    rfl
  | cons c cs ih =>
    rw [exec_cons] at hrun
    obtain ⟨u, hu, hrest⟩ := Option.bind_eq_some_iff.mp hrun
    have hcalls : u.calls = h.calls + 1 := by
      unfold FdHistory.next at hu
      split at hu
      · obtain rfl := Option.some.inj hu
        exact h.after_calls c
      · cases hu
    grind

/-- The invariant holds after every run whose calls do not exhaust the counters. -/
lemma fdRun_inv (hlen : cs.length < 2 ^ 64 - 4)
    (hrun : exec FdHistory.next (FdHistory.init mayBlock nofile hostFlags) cs = some h) :
    FdInv h := by
  have hcalls := FdHistory.exec_calls hrun
  have hstep : ∀ h c h', (h.calls < 2 ^ 64 - 4 → FdInv h) → FdHistory.next h c = some h' →
      (h'.calls < 2 ^ 64 - 4 → FdInv h') := by
    intro h c h' hi hn hlt
    have hprev := @FdHistory.exec_calls h h' [c] (exec_cons.trans (by rw [hn]; rfl))
    refine (hi ?_).step hn hlt
    omega
  refine exec_keeps hstep (fun _ => FdInv.init mayBlock nofile hostFlags) hrun ?_
  rw [hcalls]
  show 0 + cs.length < 2 ^ 64 - 4
  omega

/-! ### The table and its bitmap -/

def FdHistory.SameDescription (h : FdHistory) (fd fd' : ℕ) : Prop :=
  Relation.EqvGen (AliasOf h.made) (h.tab.entry fd).generation (h.tab.entry fd').generation

def FdHistory.closedFrom (h : FdHistory) (minfd : ℤ) : Set ℕ :=
  {fd | max minfd 0 ≤ fd ∧ fd < fdTableSize ∧ (h.tab.entry fd).type = .closed}

/-- What the table promises at any moment. -/
structure FdConsistent (h : FdHistory) : Prop where
  bitmap : ∀ fd < fdTableSize,
    freeBit h.tab.freeBitmap fd = true ↔ (h.tab.entry fd).type = .closed
  /-- An allocation takes the least closed descriptor below the limit. -/
  lowest : ∀ c arg type minfd fd, FdCall.request c = some (arg, type, .lowest minfd) →
    IsLeast (h.closedFrom minfd) fd → fd < h.tab.nofile →
    (c.run h.tab).1 = some (.ok fd)
  /-- Where there is none it fails with `EMFILE` and changes no slot. -/
  emfile : ∀ c arg type minfd, FdCall.request c = some (arg, type, .lowest minfd) →
    (∀ fd, IsLeast (h.closedFrom minfd) fd → h.tab.nofile ≤ fd) →
    (c.run h.tab).1 = some (.error .emfile) ∧ (c.run h.tab).2.entry = h.tab.entry ∧
      (c.run h.tab).2.freeBitmap = h.tab.freeBitmap

/-- What it promises of generations and identities. -/
structure FdIdentified (h : FdHistory) : Prop where
  /-- No generation was used twice. -/
  generations : (h.made.map (·.generation)).Nodup
  made : ∀ fd < fdTableSize, (h.tab.entry fd).type ≠ .closed →
    (h.tab.entry fd).generation ∈ h.made.map (·.generation)
  distinct : ∀ fd < fdTableSize, ∀ fd' < fdTableSize, (h.tab.entry fd).type ≠ .closed →
    (h.tab.entry fd').type ≠ .closed → fd ≠ fd' →
    (h.tab.entry fd).generation ≠ (h.tab.entry fd').generation
  /-- An identity is shared by aliases only. -/
  identities : ∀ fd < fdTableSize, ∀ fd' < fdTableSize, (h.tab.entry fd).type ≠ .closed →
    (h.tab.entry fd').type ≠ .closed → (h.tab.entry fd).ofdId = (h.tab.entry fd').ofdId →
    h.SameDescription fd fd'

lemma FdBits.closedFrom_eq (hi : FdBits h.tab) (minfd : ℤ) :
    h.closedFrom minfd = {fd | FreeFrom h.tab.freeBitmap minfd fd} := by
  ext fd
  constructor
  · rintro ⟨h1, h2, h3⟩
    exact ⟨by omega, h2, (hi.agrees fd h2).mpr h3⟩
  · rintro ⟨h1, h2, h3⟩
    exact ⟨by omega, h2, (hi.agrees fd h2).mp h3⟩

lemma FdInv.identified (hi : FdInv h) : FdIdentified h where
  generations := hi.generations
  made := by
    intro fd hfd ho
    obtain ⟨m, hm, hg, -⟩ := hi.open_made fd hfd ho
    exact hg ▸ mem_map_of_mem hm
  distinct := by
    intro fd hfd fd' hfd' ho ho' hne hg
    exact hne (hi.open_inj fd hfd fd' hfd' ho ho' hg)
  identities := by
    intro fd hfd fd' hfd' ho ho' heq
    obtain ⟨m, hm, hg, hid⟩ := hi.open_made fd hfd ho
    obtain ⟨m', hm', hg', hid'⟩ := hi.open_made fd' hfd' ho'
    unfold FdHistory.SameDescription
    rw [← hg, ← hg']
    exact hi.aliases m hm m' hm' (by rw [hid, hid', heq])

lemma FdBits.consistent (hi : FdBits h.tab) : FdConsistent h where
  bitmap := hi.agrees
  lowest := by
    intro c arg type minfd fd hreq hleast hlim
    obtain ⟨r, hr, hout⟩ := FdCall.run_request hi.pending hreq
    rw [hi.closedFrom_eq] at hleast
    rcases hout with ⟨n, rfl, hn, -, -⟩ | ⟨-, hall, -⟩
    · rw [hr, hn.unique hleast]
    · exact absurd (hall fd hleast) (by omega)
  emfile := by
    intro c arg type minfd hreq hall
    obtain ⟨r, hr, hout⟩ := FdCall.run_request hi.pending hreq
    rw [hi.closedFrom_eq] at hall
    rcases hout with ⟨n, -, hn, hlim, -⟩ | ⟨rfl, -, hk⟩
    · exact absurd (hall n hn) (by omega)
    · exact ⟨hr, hk.entry, hk.freeBitmap⟩

/-- After every run the bitmap is the table's and allocation takes the least closed descriptor.
After one of fewer than `2 ^ 64 - 4` calls no generation was used twice and only aliases share an
identity. -/
theorem fdTable_consistent {mayBlock : ℕ → Bool} {nofile : ℕ} {hostFlags : ℤ → BitVec 32}
    {cs : List FdCall} {h : FdHistory}
    (hrun : exec FdHistory.next (FdHistory.init mayBlock nofile hostFlags) cs = some h) :
    FdConsistent h ∧ (cs.length < 2 ^ 64 - 4 → FdIdentified h) := by
  have hinit := (FdInv.init mayBlock nofile hostFlags).toFdBits
  have hbits : FdBits h.tab :=
    exec_keeps (P := fun h : FdHistory => FdBits h.tab) (fun _ _ _ hb hn => hb.step hn) hinit hrun
  exact ⟨hbits.consistent, fun hlen => (fdRun_inv hlen hrun).identified⟩

def FdInstall.file (hostFd : ℤ) : FdInstall := ⟨.regular, hostFd, none, ⟨false, true, true⟩⟩

theorem fdTable_consistent_replaced :
    ∃ h, exec FdHistory.next (FdHistory.init (fun _ => false) 64 fun _ => 0) [.alloc (.file 7),
          .allocAliasAt (.full 3 { FdEntry.zero with generation := 4, ofdId := 4 } 0) 1 (.file 8),
          .markClosed 3, .allocFrom 2 (.file 9)] = some h ∧
      (FdConsistent h ∧ FdIdentified h) ∧ (h.tab.entry 1).ofdId = 4 ∧
        (h.tab.entry 3).ofdId = 5 := by
  have hrun : exec FdHistory.next (FdHistory.init (fun _ => false) 64 fun _ => 0) [.alloc (.file 7),
        .allocAliasAt (.full 3 { FdEntry.zero with generation := 4, ofdId := 4 } 0) 1 (.file 8),
        .markClosed 3, .allocFrom 2 (.file 9)] = some _ := rfl
  obtain ⟨hbits, hids⟩ := fdTable_consistent hrun
  exact ⟨_, hrun, ⟨hbits, hids (by decide)⟩, by decide +kernel, by decide +kernel⟩

/-! ### The counters come round -/

/-- The table of the standard streams with slot 3 closed and both counters at `g`. -/
def wrapTab (e : FdEntry) (g : ℕ) : FdTable :=
  { fdtableInit (fun _ => false) 1024 (fun _ => 0) with
    entry := Function.update (fdtableInit (fun _ => false) 1024 fun _ => 0).entry 3 e
    nextGeneration := g
    nextOfdId := g }

def wrapRound : List FdCall := [.alloc (.file 7), .markClosed 3]

/-- Only plain files have been opened, and the counters stand at `g`. -/
structure WrapAt (g : ℕ) (h : FdHistory) : Prop where
  tab : ∃ e, h.tab = wrapTab e g
  plain : ∀ m ∈ h.made, m.source = none
  stdin : ⟨1, 1, none⟩ ∈ h.made

lemma fdAlloc_wrapTab (e : FdEntry) (g : ℕ) : ∃ probe, fdAlloc (wrapTab e g) (.file 7) =
      (.ok 3, fdInitEntry (wrapTab e g) 3 .regular 7 none probe) := by
  refine ⟨⟨false, false, none⟩, ?_⟩
  have hprobe : fdProbeHost (wrapTab e g) .regular 7 ⟨false, true, true⟩ =
      (⟨false, false, none⟩, wrapTab e g) := rfl
  have hfind : fdBitmapFindFree (wrapTab e g).freeBitmap 0 = some 3 := by
    show fdBitmapFindFree (fdtableInit (fun _ => false) 1024 fun _ => 0).freeBitmap 0 = some 3
    decide +kernel
  unfold fdAlloc fdAllocFrom fdAllocLocked
  simp only [FdInstall.file, hprobe, hfind]
  rfl

lemma fdMarkClosed_wrapTab (e : FdEntry) (g : ℕ) (probe : FdHostProbe) :
    ∃ e', (fdMarkClosed (fdInitEntry (wrapTab e g) 3 .regular 7 none probe) 3).2 =
      wrapTab e' (u64 (g + 1)) := by
  have hbit : fdBitmapSetFree (fdBitmapSetUsed (wrapTab e g).freeBitmap 3) 3 =
      (wrapTab e g).freeBitmap := by
    unfold fdBitmapSetFree fdBitmapSetUsed
    rw [update_idem, update_self, update_eq_self_iff]
    show (fdtableInit (fun _ => false) 1024 fun _ => 0).freeBitmap 0 &&& ~~~fdBit 3 ||| fdBit 3 =
      (fdtableInit (fun _ => false) 1024 fun _ => 0).freeBitmap 0
    decide +kernel
  refine ⟨fdClosedEntry ((fdInitEntry (wrapTab e g) 3 .regular 7 none probe).entry 3), ?_⟩
  unfold fdMarkClosed fdMarkClosedUnlocked fdInitEntry
  rw [hbit, update_idem]
  show FdTable.mk (update (update _ 3 e) 3 _) _ _ _ _ _ _ = _
  rw [update_idem]
  rfl

lemma WrapAt.alloc (hw : WrapAt g h) : ∃ h' probe, FdHistory.next h (.alloc (.file 7)) = some h' ∧
      (∃ e, h'.tab = fdInitEntry (wrapTab e g) 3 .regular 7 none probe) ∧
      h'.made = ⟨g, g, none⟩ :: h.made := by
  obtain ⟨e, he⟩ := hw.tab
  obtain ⟨probe, ha⟩ := fdAlloc_wrapTab e g
  refine ⟨h.record (fdInitEntry (wrapTab e g) 3 .regular 7 none probe) .fresh 3, probe, ?_,
    ⟨e, rfl⟩, ?_⟩
  · show some (h.after (.alloc (.file 7))) = _
    unfold FdHistory.after
    simp only [FdCall.run, FdCall.request, he, ha]
  · simp only [FdHistory.record, fdInitEntry, update_self, fdNewEntry]
    rfl

lemma WrapAt.round (hw : WrapAt g h) :
    ∃ h', exec FdHistory.next h wrapRound = some h' ∧ WrapAt (u64 (g + 1)) h' := by
  obtain ⟨h', probe, hnext, ⟨e, htab⟩, hmade⟩ := hw.alloc
  obtain ⟨e', hclose⟩ := fdMarkClosed_wrapTab e g probe
  refine ⟨h'.after (.markClosed 3), ?_, ⟨e', ?_⟩, ?_, ?_⟩
  · rw [wrapRound, exec_cons, hnext]
    rfl
  · show (fdMarkClosed h'.tab 3).2 = _
    rw [htab, hclose]
  · show ∀ m ∈ h'.made, _
    rw [hmade]
    exact forall_mem_cons.mpr ⟨rfl, hw.plain⟩
  · show _ ∈ h'.made
    rw [hmade]
    exact mem_cons_of_mem _ hw.stdin

lemma WrapAt.rounds (n : ℕ) (hg : g < 2 ^ 64) (hw : WrapAt g h) :
    ∃ h', exec FdHistory.next h (replicate n wrapRound).flatten = some h' ∧
      WrapAt (u64 (g + n)) h' := by
  induction n generalizing g h with
  | zero => exact ⟨h, rfl, by rwa [Nat.add_zero, u64_of_lt hg]⟩
  | succ n ih =>
    obtain ⟨u, hu, hwu⟩ := hw.round
    obtain ⟨h', hrun, hw'⟩ := ih (Nat.mod_lt _ (by decide)) hwu
    refine ⟨h', ?_, ?_⟩
    · rw [replicate_succ, flatten_cons, exec_append, hu]
      exact hrun
    have heq : u64 (u64 (g + 1) + n) = u64 (g + (n + 1)) := by
      unfold u64
      omega
    rwa [← heq]

/-- After `2 ^ 64 - 3` files have been opened and closed the next one gets the generation and
the identity of the standard input, which is still open; no alias was ever made. -/
theorem fdTable_generation_wraps :
    ∃ cs h, exec FdHistory.next (FdHistory.init (fun _ => false) 1024 fun _ => 0) cs = some h ∧
      ¬ (h.made.map (·.generation)).Nodup ∧
      (h.tab.entry 0).type ≠ .closed ∧ (h.tab.entry 3).type ≠ .closed ∧
      (h.tab.entry 0).ofdId = (h.tab.entry 3).ofdId ∧ ∀ m ∈ h.made, m.source = none := by
  have hw : WrapAt 4 (FdHistory.init (fun _ => false) 1024 fun _ => 0) := by
    refine ⟨⟨FdEntry.zero, ?_⟩, ?_, mem_cons_self⟩
    · unfold FdHistory.init wrapTab
      rw [show update (fdtableInit (fun _ => false) 1024 fun _ => 0).entry 3
        FdEntry.zero = (fdtableInit (fun _ => false) 1024 fun _ => 0).entry from
          update_eq_self 3 _]
      rfl
    · intro m hm
      exact (by decide : ∀ m ∈ [FdMade.mk 1 1 none, ⟨2, 2, none⟩, ⟨3, 3, none⟩],
        m.source = none) m hm
  obtain ⟨h, hrun, hwh⟩ := hw.rounds (2 ^ 64 - 3) (by decide)
  rw [show u64 (4 + (2 ^ 64 - 3)) = 1 from by decide] at hwh
  obtain ⟨h', probe, hnext, ⟨e, htab⟩, hmade⟩ := hwh.alloc
  refine ⟨(replicate (2 ^ 64 - 3) wrapRound).flatten ++ [.alloc (.file 7)], h', ?_, ?_, ?_,
    ?_, ?_, ?_⟩
  · rw [exec_append, hrun]
    show (FdHistory.next h (.alloc (.file 7))).bind _ = _
    rw [hnext]
    rfl
  · rw [hmade, map_cons, nodup_cons]
    exact fun hn => hn.1 (mem_map.mpr ⟨_, hwh.stdin, rfl⟩)
  · rw [htab]
    exact (by decide : FdType.stdio ≠ .closed)
  · rw [htab]
    simp only [fdInitEntry, update_self, fdNewEntry]
    decide
  · rw [htab]
    simp only [fdInitEntry, update_self, fdNewEntry]
    rfl
  rw [hmade]
  exact forall_mem_cons.mpr ⟨rfl, hwh.plain⟩

end Elfuse
