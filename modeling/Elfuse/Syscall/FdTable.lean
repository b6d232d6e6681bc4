/-
The guest descriptor table (`syscall/fdtable.c`).

The table has a slot per guest descriptor and beside it a bitmap of the free
ones, sixteen words that the allocator scans from the lowest descriptor asked
for. Every slot that is filled gets a generation of its own and the identity of
an open file description: a fresh one, or that of the description it is an
alias of. The inheritance travels to `fd_init_entry` through a thread-local
that the alias variants of the allocators set and clear.

The functions here are those of the source, on a state that holds the table,
the bitmap and the two counters. What a call leaves to do outside the table
(close a host descriptor, release a lifetime) is part of its result.

* `freeBit_setFree`, `freeBit_setUsed` — what the setters do to the bitmap;
* `fdBitmapFindFree_some`, `fdBitmapFindFree_none` — the scan finds the least
  free descriptor, or there is none.
-/
import Elfuse.Core.Layout
import Elfuse.Core.Words
import Elfuse.Lib.Runs

namespace Elfuse

open Function Nat

/-! ### Slots -/

def fdTableSize : ℕ := 1024

inductive FdType
  | closed | stdio | regular | dir | pipe | socket | epoll | timerfd | eventfd | signalfd
  | inotify | path | netlink | pidfd | fuseDev | fuseFile | fuseDir | urandom | usbdev
  deriving DecidableEq, Repr

/-- The teardown functions a slot can carry in `cleanup`. -/
inductive FdCleanup
  | timerfdClose | eventfdClose | signalfdClose | inotifyClose | netlinkClose | pidfdCleanup
  | fuseFdCleanup | urandomFdCleanup | usbdevFdCleanup | absockUnregisterFd
  deriving DecidableEq, Repr

/-- Model of `fd_entry_t`, without the socket option cache. Pointers are numbers. -/
structure FdEntry where
  type : FdType
  hostFd : ℤ
  lifetime : Option ℕ
  ofdId : ℕ
  generation : ℕ
  linuxFlags : BitVec 32
  dir : Option ℕ
  procPath : List UInt8
  pathPollCapable : Bool
  seals : BitVec 32
  canBlock : Bool
  foreignDescription : Bool
  nonblockOwned : Bool
  fasyncOwnerType : ℤ
  fasyncOwner : ℤ
  cleanup : Option FdCleanup
  deriving DecidableEq, Repr

/-- The entry `memset` leaves. -/
def FdEntry.zero : FdEntry :=
  { type := .closed, hostFd := 0, lifetime := none, ofdId := 0, generation := 0, linuxFlags := 0,
    dir := none, procPath := [], pathPollCapable := false, seals := 0, canBlock := false,
    foreignDescription := false, nonblockOwned := false, fasyncOwnerType := 0, fasyncOwner := 0,
    cleanup := none }

/-! ### Status flags -/

def FdFlag.linuxOAccmode : BitVec 32 := 0x3
def FdFlag.linuxORdonly : BitVec 32 := 0x0
def FdFlag.linuxORdwr : BitVec 32 := 0x2
def FdFlag.linuxOAppend : BitVec 32 := 0x400
def FdFlag.linuxONonblock : BitVec 32 := 0x800
def FdFlag.linuxOAsync : BitVec 32 := 0x2000
def FdFlag.linuxODirectory : BitVec 32 := 0x4000
def FdFlag.linuxONofollow : BitVec 32 := 0x8000
def FdFlag.linuxODirect : BitVec 32 := 0x10000
def FdFlag.linuxOLargefile : BitVec 32 := 0x20000
def FdFlag.linuxONoatime : BitVec 32 := 0x40000
def FdFlag.linuxOCloexec : BitVec 32 := 0x80000
def FdFlag.linuxOPath : BitVec 32 := 0x200000

/-- The host's own `O_NONBLOCK`. -/
def hostONonblock : BitVec 32 := 0x4

/-- Model of `FD_DESCRIPTION_FLAGS`: the bits a description has and its slots share. -/
def fdDescriptionFlags : BitVec 32 :=
  FdFlag.linuxOAccmode ||| FdFlag.linuxOPath ||| FdFlag.linuxODirectory |||
    FdFlag.linuxONofollow ||| FdFlag.linuxODirect ||| FdFlag.linuxOLargefile |||
    FdFlag.linuxONonblock ||| FdFlag.linuxOAsync ||| FdFlag.linuxOAppend ||| FdFlag.linuxONoatime

/-- Model of `fd_type_accmode`; `none` is the answer -1. -/
def fdTypeAccmode : FdType → Option (BitVec 32)
  | .eventfd | .signalfd | .timerfd | .epoll | .pidfd | .netlink => some FdFlag.linuxORdwr
  | .inotify => some FdFlag.linuxORdonly
  | _ => none

def fdFlagsWithAccmode (type : FdType) (flags : BitVec 32) : BitVec 32 :=
  match fdTypeAccmode type with
  | none => flags
  | some m => (flags &&& ~~~FdFlag.linuxOAccmode) ||| m

/-! ### Aliases -/

structure FdAliasSpec where
  ofdId : ℕ
  linuxFlags : BitVec 32
  foreignDescription : Bool
  nonblockOwned : Bool
  pathPollCapable : Bool
  srcGuestFd : ℤ
  srcGeneration : ℕ
  deriving DecidableEq, Repr

def fdAliasOf (srcGuestFd : ℤ) (src : FdEntry) : FdAliasSpec :=
  { ofdId := src.ofdId, linuxFlags := src.linuxFlags &&& fdDescriptionFlags,
    foreignDescription := src.foreignDescription, nonblockOwned := src.nonblockOwned,
    pathPollCapable := src.pathPollCapable, srcGuestFd := srcGuestFd,
    srcGeneration := src.generation }

def fdAliasHostShared (src : FdEntry) : FdAliasSpec :=
  { ofdId := 0, linuxFlags := 0, foreignDescription := src.foreignDescription,
    nonblockOwned := src.nonblockOwned, pathPollCapable := src.pathPollCapable,
    srcGuestFd := -1, srcGeneration := 0 }

def fdAliasIdentity (ofdId : ℕ) (linuxFlags : BitVec 32) : FdAliasSpec :=
  { ofdId := ofdId, linuxFlags := linuxFlags, foreignDescription := false,
    nonblockOwned := false, pathPollCapable := false, srcGuestFd := -1, srcGeneration := 0 }

def fdAliasCarried (foreign owned : Bool) : FdAliasSpec :=
  { ofdId := 0, linuxFlags := 0, foreignDescription := foreign, nonblockOwned := owned,
    pathPollCapable := false, srcGuestFd := -1, srcGeneration := 0 }

/-! ### The table and its bitmap -/

/-- The state of `fdtable.c`: table, bitmap, counters, the soft `RLIMIT_NOFILE`, the pending
alias inheritance of the calling thread, and the status flags of the host's descriptors. -/
structure FdTable where
  entry : ℕ → FdEntry
  freeBitmap : ℕ → BitVec 64
  nextGeneration : ℕ
  nextOfdId : ℕ
  nofile : ℕ
  pending : Option FdAliasSpec
  hostFlags : ℤ → BitVec 32

def fdBit (fd : ℕ) : BitVec 64 := 1#64 <<< (fd % 64)

def fdBitmapSetFree (b : ℕ → BitVec 64) (fd : ℕ) : ℕ → BitVec 64 :=
  update b (fd / 64) (b (fd / 64) ||| fdBit fd)

def fdBitmapSetUsed (b : ℕ → BitVec 64) (fd : ℕ) : ℕ → BitVec 64 :=
  update b (fd / 64) (b (fd / 64) &&& ~~~fdBit fd)

def freeBit (b : ℕ → BitVec 64) (fd : ℕ) : Bool := (b (fd / 64)).getLsbD (fd % 64)

/-- The loop of `fd_bitmap_find_free`, over the words from `word` on; `mask` cuts the first one. -/
def findFreeLoop (b : ℕ → BitVec 64) : ℕ → ℕ → BitVec 64 → Option ℕ
  | 0, _, _ => none
  | n + 1, word, mask =>
    if b word &&& mask ≠ 0 then some (word * 64 + bitCtz64 (b word &&& mask))
    else findFreeLoop b n (word + 1) (BitVec.allOnes 64)

/-- Model of `fd_bitmap_find_free`, with the split of `fdset_slot`. -/
def fdBitmapFindFree (b : ℕ → BitVec 64) (minfd : ℤ) : Option ℕ :=
  let lo := minfd.toNat
  if fdTableSize ≤ lo then none
  else findFreeLoop b (16 - lo / 64) (lo / 64) (BitVec.allOnes 64 <<< (lo % 64))

def FdTable.rlimitNofileCur (s : FdTable) : ℕ :=
  if fdTableSize < s.nofile then fdTableSize else s.nofile

/-- One of the standard descriptors of `fdtable_init`. -/
def fdStdio (n : ℕ) (mayBlock : Bool) : FdEntry :=
  { FdEntry.zero with type := .stdio, hostFd := n, ofdId := n + 1, generation := n + 1,
                      foreignDescription := true, canBlock := mayBlock }

/-- Model of `fdtable_init`; `mayBlock` are the three answers of `host_fd_may_block`. -/
def fdtableInit (mayBlock : ℕ → Bool) (nofile : ℕ) (hostFlags : ℤ → BitVec 32) : FdTable :=
  { entry := fun fd => if fd < 3 then fdStdio fd (mayBlock fd) else FdEntry.zero,
    freeBitmap := fdBitmapSetUsed (fdBitmapSetUsed (fdBitmapSetUsed
      (fun _ => BitVec.allOnes 64) 0) 1) 2,
    nextGeneration := 4, nextOfdId := 4, nofile := nofile, pending := none,
    hostFlags := hostFlags }

/-! ### Probing the host descriptor -/

structure HostAnswers where
  /-- `fstat` works and shows neither a regular file nor a directory. -/
  mayBlock : Bool
  /-- `F_GETFL` works. -/
  getfl : Bool
  setNonblock : Bool
  deriving DecidableEq, Repr

/-- Model of `fd_host_probe_t`; `none` is a `restore_flags` of -1. -/
structure FdHostProbe where
  canBlock : Bool
  nonblockOwned : Bool
  restoreFlags : Option (BitVec 32)
  deriving DecidableEq, Repr

/-- Model of `type_may_block` and `host_fd_may_block`. -/
def typeMayBlock (type : FdType) (hostFd : ℤ) (ans : HostAnswers) : Bool :=
  match type with
  | .pipe | .socket => true
  | .stdio | .regular => decide (0 ≤ hostFd) && ans.mayBlock
  | _ => false

/-- Model of `fd_probe_host`. It sets `O_NONBLOCK` on a descriptor it takes over. -/
def fdProbeHost (s : FdTable) (type : FdType) (hostFd : ℤ) (ans : HostAnswers) :
    FdHostProbe × FdTable :=
  let canBlock := typeMayBlock type hostFd ans
  match s.pending with
  | some spec => (⟨canBlock, spec.nonblockOwned, none⟩, s)
  | none =>
    if canBlock = false ∨ type = .stdio then (⟨canBlock, false, none⟩, s)
    else
      let old := s.hostFlags hostFd
      let s' := if ans.setNonblock then
          { s with hostFlags := update s.hostFlags hostFd (old ||| hostONonblock) }
        else s
      let restore := ans.setNonblock && ans.getfl && (old &&& hostONonblock) == 0
      (⟨canBlock, ans.setNonblock, if restore then some old else none⟩, s')

def fdProbeRollback (s : FdTable) (probe : FdHostProbe) (hostFd : ℤ) : FdTable :=
  match probe.restoreFlags with
  | none => s
  | some old => { s with hostFlags := update s.hostFlags hostFd old }

/-! ### Filling a slot -/

/-- The re-read of the live source in `fd_init_entry`. It reads the table after the slot being
filled has got its type, so a source that was closed and whose slot is the one being filled
passes the test. -/
def fdAliasRefresh (entry : ℕ → FdEntry) (spec : FdAliasSpec) : FdAliasSpec :=
  let src := entry spec.srcGuestFd.toNat
  if 0 ≤ spec.srcGuestFd ∧ spec.srcGuestFd < fdTableSize ∧ src.type ≠ .closed ∧
      src.generation = spec.srcGeneration then
    { spec with
      ofdId := src.ofdId
      linuxFlags := (spec.linuxFlags &&& ~~~fdDescriptionFlags) |||
        (src.linuxFlags &&& fdDescriptionFlags)
      foreignDescription := src.foreignDescription
      nonblockOwned := src.nonblockOwned
      pathPollCapable := src.pathPollCapable }
  else spec

/-- The pending inheritance names a description. -/
def fdNamesOfd : Option FdAliasSpec → Bool
  | some spec => spec.ofdId != 0
  | none => false

def fdNewOfdId (s : FdTable) : Option FdAliasSpec → ℕ
  | some spec => if spec.ofdId ≠ 0 then spec.ofdId else s.nextOfdId
  | none => s.nextOfdId

def fdNewFlags (type : FdType) (inh : Option FdAliasSpec) : BitVec 32 :=
  match inh with
  | some spec =>
    if spec.linuxFlags ≠ 0 then fdFlagsWithAccmode type spec.linuxFlags
    else (fdTypeAccmode type).getD 0
  | none => (fdTypeAccmode type).getD 0

/-- The entry `fd_init_entry` writes, given the refreshed inheritance. -/
def fdNewEntry (s : FdTable) (inh : Option FdAliasSpec) (type : FdType) (hostFd : ℤ)
    (cleanup : Option FdCleanup) (probe : FdHostProbe) : FdEntry :=
  { type := type, hostFd := hostFd, lifetime := none, ofdId := fdNewOfdId s inh,
    generation := s.nextGeneration, linuxFlags := fdNewFlags type inh, dir := none,
    procPath := [], pathPollCapable := (inh.map (·.pathPollCapable)).getD false, seals := 0,
    canBlock := probe.canBlock,
    foreignDescription := (inh.map (·.foreignDescription)).getD (type == .stdio),
    nonblockOwned := (inh.map (·.nonblockOwned)).getD probe.nonblockOwned,
    fasyncOwnerType := 0, fasyncOwner := 0, cleanup := cleanup }

/-- The inheritance as `fd_init_entry` uses it, once the slot has its type. -/
def fdRefreshed (s : FdTable) (fd : ℕ) (type : FdType) : Option FdAliasSpec :=
  s.pending.map (fdAliasRefresh
    (update s.entry fd { s.entry fd with type := type }))

def fdInitEntry (s : FdTable) (fd : ℕ) (type : FdType) (hostFd : ℤ)
    (cleanup : Option FdCleanup) (probe : FdHostProbe) : FdTable :=
  let inh := fdRefreshed s fd type
  { s with
    entry := update s.entry fd (fdNewEntry s inh type hostFd cleanup probe)
    freeBitmap := fdBitmapSetUsed s.freeBitmap fd
    nextOfdId := if fdNamesOfd inh then s.nextOfdId else u64 (s.nextOfdId + 1)
    nextGeneration := u64 (s.nextGeneration + 1)
    pending := inh }

/-! ### Allocating -/

/-- How an allocation fails: with `EMFILE`, or with -1 and `errno` as it was. -/
inductive FdError
  | emfile
  | refused
  deriving DecidableEq, Repr

abbrev FdResult := Except FdError ℕ

structure FdInstall where
  type : FdType
  hostFd : ℤ
  cleanup : Option FdCleanup
  answers : HostAnswers
  deriving DecidableEq, Repr

def fdAllocLocked (s : FdTable) (minfd : ℤ) (a : FdInstall) (probe : FdHostProbe) :
    FdResult × FdTable :=
  match fdBitmapFindFree s.freeBitmap minfd with
  | some fd =>
    if fd < s.rlimitNofileCur then (.ok fd, fdInitEntry s fd a.type a.hostFd a.cleanup probe)
    else (.error .emfile, fdProbeRollback s probe a.hostFd)
  | none => (.error .emfile, fdProbeRollback s probe a.hostFd)

def fdAllocFrom (s : FdTable) (minfd : ℤ) (a : FdInstall) : FdResult × FdTable :=
  let p := fdProbeHost s a.type a.hostFd a.answers
  fdAllocLocked p.2 minfd a p.1

def fdAlloc (s : FdTable) (a : FdInstall) : FdResult × FdTable := fdAllocFrom s 0 a

/-- The writes to `dir` and `linux_flags` that follow an allocation under the same lock. -/
def fdPublishDir (s : FdTable) (fd : ℕ) (dir : Option ℕ) (flags : BitVec 32) : FdTable :=
  let e := s.entry fd
  { s with
    entry := update s.entry fd
      { e with dir := dir, linuxFlags := fdFlagsWithAccmode e.type flags } }

def fdAllocDirFrom (s : FdTable) (minfd : ℤ) (a : FdInstall) (dir : Option ℕ)
    (flags : BitVec 32) : FdResult × FdTable :=
  let r := fdAllocFrom s minfd a
  match r.1 with
  | .ok fd => (.ok fd, fdPublishDir r.2 fd dir flags)
  | .error e => (.error e, r.2)

def fdAllocDir (s : FdTable) (a : FdInstall) (dir : Option ℕ) (flags : BitVec 32) :
    FdResult × FdTable :=
  fdAllocDirFrom s 0 a dir flags

/-- The fixed-slot allocators accept this descriptor. -/
def FdTable.fixedOk (s : FdTable) (fd : ℤ) : Bool :=
  decide (0 ≤ fd ∧ fd < fdTableSize ∧ fd < s.rlimitNofileCur)

/-- The entry a fixed-slot allocation replaces and its caller tears down. -/
def FdTable.occupant (s : FdTable) (fd : ℕ) : Option FdEntry :=
  if (s.entry fd).type ≠ .closed then some (s.entry fd) else none

/-- Model of `fd_alloc_at`. The second component is handed to `fd_cleanup_entry`. -/
def fdAllocAt (s : FdTable) (fd : ℤ) (a : FdInstall) : FdResult × Option FdEntry × FdTable :=
  if s.fixedOk fd then
    let p := fdProbeHost s a.type a.hostFd a.answers
    (.ok fd.toNat, p.2.occupant fd.toNat,
      fdInitEntry p.2 fd.toNat a.type a.hostFd a.cleanup p.1)
  else (.error .refused, none, s)

def fdAllocDirAt (s : FdTable) (fd : ℤ) (a : FdInstall) (dir : Option ℕ) (flags : BitVec 32) :
    FdResult × Option FdEntry × FdTable :=
  let r := fdAllocAt s fd a
  match r.1 with
  | .ok n => (.ok n, r.2.1, fdPublishDir r.2.2 n dir flags)
  | .error e => (.error e, r.2.1, r.2.2)

/-- Model of `fd_alloc_from_relaxed`; `single` is `thread_is_single_active`. -/
def fdAllocFromRelaxed (s : FdTable) (single : Bool) (minfd : ℤ) (a : FdInstall) :
    FdResult × FdTable :=
  if single then
    let p := fdProbeHost s a.type a.hostFd a.answers
    fdAllocLocked p.2 minfd a p.1
  else fdAllocFrom s minfd a

def fdAllocAtRelaxed (s : FdTable) (single : Bool) (fd : ℤ) (a : FdInstall) :
    FdResult × Option FdEntry × FdTable :=
  if s.fixedOk fd = false then (.error .refused, none, s)
  else if single = false ∨ (s.entry fd.toNat).type ≠ .closed then fdAllocAt s fd a
  else
    let p := fdProbeHost s a.type a.hostFd a.answers
    (.ok fd.toNat, none, fdInitEntry p.2 fd.toNat a.type a.hostFd a.cleanup p.1)

def fdAliasBegin (s : FdTable) (spec : Option FdAliasSpec) : FdTable := { s with pending := spec }

def fdAliasEnd (s : FdTable) : FdTable := { s with pending := none }

def fdAllocAlias (s : FdTable) (spec : Option FdAliasSpec) (a : FdInstall) : FdResult × FdTable :=
  let r := fdAlloc (fdAliasBegin s spec) a
  (r.1, fdAliasEnd r.2)

def fdAllocAliasAt (s : FdTable) (spec : Option FdAliasSpec) (fd : ℤ) (a : FdInstall) :
    FdResult × Option FdEntry × FdTable :=
  let r := fdAllocAt (fdAliasBegin s spec) fd a
  (r.1, r.2.1, fdAliasEnd r.2.2)

def fdAllocAliasRelaxed (s : FdTable) (spec : Option FdAliasSpec) (single : Bool)
    (fixedFd minfd : ℤ) (a : FdInstall) : FdResult × Option FdEntry × FdTable :=
  if 0 ≤ fixedFd then
    let r := fdAllocAtRelaxed (fdAliasBegin s spec) single fixedFd a
    (r.1, r.2.1, fdAliasEnd r.2.2)
  else
    let r := fdAllocFromRelaxed (fdAliasBegin s spec) single minfd a
    (r.1, none, fdAliasEnd r.2)

def fdAllocAliasDir (s : FdTable) (spec : Option FdAliasSpec) (fixedFd minfd : ℤ)
    (a : FdInstall) (dir : Option ℕ) (flags : BitVec 32) : FdResult × Option FdEntry × FdTable :=
  if 0 ≤ fixedFd then
    let r := fdAllocDirAt (fdAliasBegin s spec) fixedFd a dir flags
    (r.1, r.2.1, fdAliasEnd r.2.2)
  else
    let r := fdAllocDirFrom (fdAliasBegin s spec) minfd a dir flags
    (r.1, none, fdAliasEnd r.2)

def fdReserveOfdId (s : FdTable) : ℕ × FdTable :=
  (s.nextOfdId, { s with nextOfdId := u64 (s.nextOfdId + 1) })

/-! ### Closing -/

/-- The entry `fd_mark_closed_unlocked` leaves: the generation and the description's ownership
flags stay. -/
def fdClosedEntry (e : FdEntry) : FdEntry :=
  { e with
    type := .closed, hostFd := -1, lifetime := none, ofdId := 0, dir := none, procPath := []
    pathPollCapable := false, linuxFlags := 0, seals := 0, fasyncOwnerType := 0, fasyncOwner := 0 }

/-- Model of `fd_mark_closed_unlocked`, which hands the slot's lifetime to its caller. -/
def fdMarkClosedUnlocked (s : FdTable) (fd : ℕ) : Option ℕ × FdTable :=
  ((s.entry fd).lifetime,
    { s with
      entry := update s.entry fd (fdClosedEntry (s.entry fd))
      freeBitmap := fdBitmapSetFree s.freeBitmap fd })

def fdMarkClosed (s : FdTable) (fd : ℕ) : Option ℕ × FdTable := fdMarkClosedUnlocked s fd

def fdSnapshotLocked (s : FdTable) (fd : ℕ) (closeIt : Bool) : Option FdEntry × FdTable :=
  if (s.entry fd).type = .closed then (none, s)
  else (some (s.entry fd), if closeIt then (fdMarkClosedUnlocked s fd).2 else s)

/-- Model of `fd_snapshot_and_close`, and of its relaxed variant, which differs in the lock. -/
def fdSnapshotAndClose (s : FdTable) (fd : ℤ) : Option FdEntry × FdTable :=
  if 0 ≤ fd ∧ fd < fdTableSize then fdSnapshotLocked s fd.toNat true else (none, s)

def fdCloseRegularRelaxed (s : FdTable) (single : Bool) (fd : ℤ) : Option ℤ × FdTable :=
  let e := s.entry fd.toNat
  if 0 ≤ fd ∧ fd < fdTableSize ∧ single ∧ e.type = .regular ∧ e.dir = none ∧ e.cleanup = none ∧
      e.lifetime = none then
    (some e.hostFd, (fdMarkClosedUnlocked s fd.toNat).2)
  else (none, s)

/-- What `fd_retire_published` does once it has dropped the lock. -/
structure FdTeardown where
  release : Option ℕ
  close : Option ℤ
  deriving DecidableEq, Repr

def fdRetirePublished (s : FdTable) (fd hostFd : ℤ) : FdTeardown × FdTable :=
  let own := if 0 ≤ hostFd then some hostFd else none
  if 0 ≤ fd ∧ fd < fdTableSize then
    let e := s.entry fd.toNat
    if e.type ≠ .closed ∧ e.hostFd = hostFd then
      let r := fdMarkClosedUnlocked s fd.toNat
      (⟨r.1, if r.1 = none then own else none⟩, r.2)
    else (⟨none, none⟩, s)
  else (⟨none, own⟩, s)

/-! ### The bitmap -/

lemma getLsbD_fdBit (hi : i < 64) : (fdBit fd).getLsbD i = decide (i = fd % 64) := by
  rw [fdBit, BitVec.getLsbD_shiftLeft, BitVec.getLsbD_one]
  grind

lemma freeBit_setFree (b : ℕ → BitVec 64) (fd n : ℕ) :
    freeBit (fdBitmapSetFree b fd) n = (decide (n = fd) || freeBit b n) := by
  unfold freeBit fdBitmapSetFree
  by_cases hw : n / 64 = fd / 64
  · rw [hw, update_self, BitVec.getLsbD_or, getLsbD_fdBit (mod_lt _ (by decide))]
    grind
  grind

lemma freeBit_setUsed (b : ℕ → BitVec 64) (fd n : ℕ) :
    freeBit (fdBitmapSetUsed b fd) n = (!decide (n = fd) && freeBit b n) := by
  unfold freeBit fdBitmapSetUsed
  by_cases hw : n / 64 = fd / 64
  · have hlt : n % 64 < 64 := mod_lt _ (by decide)
    rw [hw, update_self, BitVec.getLsbD_and, BitVec.getLsbD_not, getLsbD_fdBit hlt]
    grind
  grind

def Scanned (b : ℕ → BitVec 64) (n word : ℕ) (mask : BitVec 64) (fd : ℕ) : Prop :=
  word ≤ fd / 64 ∧ fd / 64 < word + n ∧ freeBit b fd = true ∧
    (fd / 64 = word → mask.getLsbD (fd % 64) = true)

lemma findFreeLoop_spec (b : ℕ → BitVec 64) (n word : ℕ) (mask : BitVec 64) :
    match findFreeLoop b n word mask with
    | some fd => Scanned b n word mask fd ∧ ∀ m, Scanned b n word mask m → fd ≤ m
    | none => ∀ m, ¬ Scanned b n word mask m := by
  induction n generalizing word mask with
  | zero =>
    rintro m ⟨h1, h2, -⟩
    omega
  | succ n ih =>
    rw [findFreeLoop]
    by_cases hz : b word &&& mask ≠ 0
    · rw [if_pos hz]
      obtain ⟨hlt, hset, hlow⟩ := bitCtz64_spec hz
      generalize bitCtz64 (b word &&& mask) = k at hlt hset hlow
      rw [BitVec.getLsbD_and, Bool.and_eq_true] at hset
      have hdiv : (word * 64 + k) / 64 = word := by omega
      have hmod : (word * 64 + k) % 64 = k := by omega
      refine ⟨⟨by omega, by omega, ?_, fun _ => by rw [hmod]; exact hset.2⟩, ?_⟩
      · rw [freeBit, hdiv, hmod]
        exact hset.1
      rintro m ⟨h1, h2, hfree, hmask⟩
      by_contra hm
      have hw : m / 64 = word := by omega
      have := hlow (m % 64) (by omega)
      grind [freeBit]
    rw [if_neg hz]
    rw [ne_eq, not_not] at hz
    -- the first word holds nothing, so the rest of the scan decides
    have hshift : ∀ m, Scanned b (n + 1) word mask m ↔
        Scanned b n (word + 1) (BitVec.allOnes 64) m := by
      intro m
      have hmod : m % 64 < 64 := mod_lt _ (by decide)
      constructor
      · rintro ⟨h1, h2, hfree, hmask⟩
        have hne : m / 64 ≠ word := by
          intro hw
          have hbit : (b word &&& mask).getLsbD (m % 64) := by
            grind [freeBit]
          rw [hz] at hbit
          simp at hbit
        exact ⟨by omega, by omega, hfree, fun _ => by
            rw [BitVec.getLsbD_allOnes]; exact decide_eq_true hmod⟩
      · rintro ⟨h1, h2, hfree, -⟩
        exact ⟨by omega, by omega, hfree, fun h => by omega⟩
    have := ih (word + 1) (BitVec.allOnes 64)
    grind

/-- The descriptors `fd_bitmap_find_free` looks at. -/
def FreeFrom (b : ℕ → BitVec 64) (minfd : ℤ) (fd : ℕ) : Prop :=
  minfd.toNat ≤ fd ∧ fd < fdTableSize ∧ freeBit b fd = true

lemma scanned_iff_freeFrom (h : minfd.toNat < fdTableSize) (fd : ℕ) :
    Scanned b (16 - minfd.toNat / 64) (minfd.toNat / 64)
      (BitVec.allOnes 64 <<< (minfd.toNat % 64)) fd ↔ FreeFrom b minfd fd := by
  unfold Scanned FreeFrom
  have hmod : fd % 64 < 64 := mod_lt _ (by decide)
  have hmask : (BitVec.allOnes 64 <<< (minfd.toNat % 64)).getLsbD (fd % 64) ↔
      minfd.toNat % 64 ≤ fd % 64 := by
    have hlt : fd % 64 - minfd.toNat % 64 < 64 := by omega
    rw [BitVec.getLsbD_shiftLeft, BitVec.getLsbD_allOnes]
    simp only [hmod, hlt, decide_true, Bool.true_and, Bool.and_true, Bool.not_eq_true',
      decide_eq_false_iff_not, not_lt]
  grind [fdTableSize]

lemma fdBitmapFindFree_some (h : fdBitmapFindFree b minfd = some fd) :
    FreeFrom b minfd fd ∧ ∀ m, FreeFrom b minfd m → fd ≤ m := by
  unfold fdBitmapFindFree at h
  by_cases hlo : fdTableSize ≤ minfd.toNat
  · rw [if_pos hlo] at h
    cases h
  rw [if_neg hlo] at h
  have hspec := findFreeLoop_spec b (16 - minfd.toNat / 64) (minfd.toNat / 64)
    (BitVec.allOnes 64 <<< (minfd.toNat % 64))
  grind [scanned_iff_freeFrom]

lemma fdBitmapFindFree_none (h : fdBitmapFindFree b minfd = none) (m : ℕ) :
    ¬ FreeFrom b minfd m := by
  unfold fdBitmapFindFree at h
  by_cases hlo : fdTableSize ≤ minfd.toNat
  · rintro ⟨h1, h2, -⟩
    omega
  rw [if_neg hlo] at h
  have hspec := findFreeLoop_spec b (16 - minfd.toNat / 64) (minfd.toNat / 64)
    (BitVec.allOnes 64 <<< (minfd.toNat % 64))
  rw [h] at hspec
  simp only [scanned_iff_freeFrom (not_le.mp hlo)] at hspec
  exact hspec m

end Elfuse
