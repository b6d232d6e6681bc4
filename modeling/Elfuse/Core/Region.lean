/-
The semantic region table: the tracker of what the guest has mapped.

`regions[0..nregions)` of `guest_t` is the list `RegionTable.regions`; the
array surgery of the sources (`memmove` plus index arithmetic) is list surgery
at the same indices. The file models

* the two binary searches and the finder (`regionLowerBoundStart`,
  `guestRegionFirstEndAbove`, `guestRegionFind`);
* insertion with coalescing (`guestRegionAddExOwnedGpa`);
* removal in its two halves (`guestRegionRemovePrepare` reserves the descriptor
  an interior split needs, `guestRegionRemoveReserved` edits the table);
* `guestRegionSetProt`, with the splits a full table drops;
* the boundary splits of the syscall layer and their undo.

Host descriptors are the only outside world these functions touch. `dup(2)`
answers from an oracle indexed by the number of calls made so far, and closed
descriptors are logged.
-/
import Elfuse.Core.Layout
import Elfuse.Lib.Search
import Elfuse.Lib.Intervals

namespace Elfuse

def guestMaxRegions : ℕ := 4096

/-- One entry of the table: `guest_region_t`, with `stop` for its `end`. -/
structure GuestRegion where
  start : ℕ
  stop : ℕ
  gpaBase : ℕ
  vmaId : ℕ
  prot : ℕ
  flags : ℕ
  offset : ℕ
  backingFd : ℤ
  shared : Bool
  noreserve : Bool
  backingRo : Bool
  inheritedAtFork : Bool
  overlayActive : Bool
  overlayStart : ℕ
  overlayEnd : ℕ
  /-- The label's bytes, without the terminating NUL. -/
  name : List UInt8
  deriving DecidableEq, Repr

/-- The host descriptor table as far as the tracker uses it. -/
structure HostFds where
  /-- Answer of the `n`-th `dup(2)`; negative means it failed. -/
  dupAnswer : ℕ → ℤ
  dupCalls : ℕ
  closed : List ℤ

namespace HostFds

def dup (h : HostFds) : ℤ × HostFds :=
  (h.dupAnswer h.dupCalls, { h with dupCalls := h.dupCalls + 1 })

/-- The sources' `if (fd >= 0) close(fd)`. -/
def closeIfOpen (h : HostFds) (fd : ℤ) : HostFds :=
  if 0 ≤ fd then { h with closed := h.closed ++ [fd] } else h

end HostFds

/-- The part of `guest_t` the region tracker owns. -/
structure RegionTable where
  regions : List GuestRegion
  nextVmaId : ℕ
  regionsTrackerStale : Bool
  fds : HostFds
  /-- `guest_host_page_size_cached()`. -/
  hostPageSize : ℕ

def RegionTable.empty (hps : ℕ) (fds : HostFds) : RegionTable :=
  { regions := [], nextVmaId := 0, regionsTrackerStale := false, fds := fds,
    hostPageSize := hps }

/-! ### Overlay metadata -/

def guestRegionClearOverlay (r : GuestRegion) : GuestRegion :=
  { r with overlayActive := false, overlayStart := 0, overlayEnd := 0 }

/-- Clip the overlay window to the host pages a trimmed region still touches. -/
def guestRegionClipOverlay (hps : ℕ) (r : GuestRegion) : GuestRegion :=
  if !r.overlayActive || decide (r.stop ≤ r.start) then guestRegionClearOverlay r
  else
    let pageStart := alignDown r.start hps
    let pageEnd := alignUp r.stop hps
    let overlayStart := if r.overlayStart > pageStart then r.overlayStart else pageStart
    let overlayEnd := if r.overlayEnd < pageEnd then r.overlayEnd else pageEnd
    if overlayEnd ≤ overlayStart then guestRegionClearOverlay r
    else { r with overlayStart := overlayStart, overlayEnd := overlayEnd }

/-! ### Coalescing -/

/-- May `b` follow `a` in one record, up to the VMA lineage? -/
def regionsMergeableLayout (a b : GuestRegion) : Bool :=
  decide (a.stop = b.start) &&
  decide (u64 (a.gpaBase + (a.stop - a.start)) = b.gpaBase) &&
  decide (a.prot = b.prot) && decide (a.flags = b.flags) &&
  decide (a.backingFd = b.backingFd) && (a.noreserve == b.noreserve) &&
  (a.backingRo == b.backingRo) && (a.inheritedAtFork == b.inheritedAtFork) &&
  !(a.overlayActive || b.overlayActive) && decide (a.name = b.name) &&
  -- an anonymous region's offset names nothing
  (hasFlag a.flags linuxMapAnonymous && hasFlag b.flags linuxMapAnonymous ||
    decide (u64 (a.offset + (a.stop - a.start)) = b.offset))

def regionsMergeable (a b : GuestRegion) : Bool :=
  decide (a.vmaId = b.vmaId) && regionsMergeableLayout a b

def tryMergeRight (rs : List GuestRegion) (i : ℕ) : List GuestRegion :=
  match rs[i]?, rs[i + 1]? with
  | some a, some b =>
    if regionsMergeable a b then rs.take i ++ { a with stop := b.stop } :: rs.drop (i + 2)
    else rs
  | _, _ => rs

def tryMergeLeft (rs : List GuestRegion) (i : ℕ) : List GuestRegion :=
  if i = 0 then rs
  else
    match rs[i - 1]?, rs[i]? with
    | some a, some b =>
      if regionsMergeable a b then
        rs.take (i - 1) ++ { a with stop := b.stop } :: rs.drop (i + 1)
      else rs
    | _, _ => rs

/-! ### Searches -/

def regionLowerBoundStart (rs : List GuestRegion) (start : ℕ) : ℕ :=
  Search.partitionPoint (fun i => rs[i]?.elim false fun r => decide (r.start < start))
    rs.length 0 rs.length

def guestRegionFirstEndAbove (rs : List GuestRegion) (addr : ℕ) : ℕ :=
  Search.partitionPoint (fun i => rs[i]?.elim false fun r => decide (r.stop ≤ addr))
    rs.length 0 rs.length

/-- The three-way comparison `guest_region_find` makes at a slot. -/
def findProbe (rs : List GuestRegion) (addr i : ℕ) : Ordering :=
  match rs[i]? with
  | none => .lt
  | some r => if addr < r.start then .lt else if r.stop ≤ addr then .gt else .eq

def guestRegionFind (rs : List GuestRegion) (addr : ℕ) : Option GuestRegion :=
  (Search.bisect (findProbe rs addr) rs.length 0 rs.length).bind fun i => rs[i]?

/-! ### Insertion -/

/-- The attributes a caller hands to `guest_region_add_ex_owned_gpa`. -/
structure RegionArgs where
  start : ℕ
  stop : ℕ
  gpaBase : ℕ
  prot : ℕ
  flags : ℕ
  offset : ℕ
  name : Option (List UInt8)
  ownedBackingFd : ℤ
  inheritedAtFork : Bool
  vmaId : ℕ

/-- Model of `str_copy_trunc` into the 64-byte `name` field. -/
def strCopyTrunc (name : List UInt8) : List UInt8 := name.take 63

/-- The record an insertion writes, before it adopts a neighbour's lineage. -/
def RegionArgs.toRegion (x : RegionArgs) (vmaId : ℕ) : GuestRegion :=
  { start := x.start, stop := x.stop, gpaBase := x.gpaBase, vmaId := vmaId, prot := x.prot,
    flags := x.flags, offset := x.offset, backingFd := x.ownedBackingFd,
    shared := hasFlag x.flags linuxMapShared, noreserve := hasFlag x.flags linuxMapNoreserve,
    backingRo := false, inheritedAtFork := x.inheritedAtFork, overlayActive := false,
    overlayStart := 0, overlayEnd := 0,
    name := (x.name.map strCopyTrunc).getD [] }

/-- The lineage of a new record between its neighbours: a fresh one gives way to
the left neighbour's, else to the right neighbour's, where the layouts fit. -/
def adoptVmaId (left right : Option GuestRegion) (r : GuestRegion) : GuestRegion :=
  match left.filter (regionsMergeableLayout · r) with
  | some l => { r with vmaId := l.vmaId }
  | none =>
    match right.filter (regionsMergeableLayout r ·) with
    | some n => { r with vmaId := n.vmaId }
    | none => r

def guestRegionAddExOwnedGpa (t : RegionTable) (x : RegionArgs) : ℤ × RegionTable :=
  if guestMaxRegions ≤ t.regions.length then
    (-1, { t with fds := t.fds.closeIfOpen x.ownedBackingFd })
  else
    let newVma := decide (x.vmaId = 0)
    let vmaId := if newVma then t.nextVmaId + 1 else x.vmaId
    let nextVmaId := if t.nextVmaId < vmaId then vmaId else t.nextVmaId
    let i := regionLowerBoundStart t.regions x.start
    let r := x.toRegion vmaId
    let left := if 0 < i then t.regions[i - 1]? else none
    let r := if newVma then adoptVmaId left t.regions[i]? r else r
    let rs := t.regions.take i ++ r :: t.regions.drop i
    (0, { t with regions := tryMergeLeft (tryMergeRight rs i) i, nextVmaId := nextVmaId })

/-- Model of `guest_region_add_ex_owned`: identity backing. -/
def guestRegionAddExOwned (t : RegionTable) (x : RegionArgs) : ℤ × RegionTable :=
  guestRegionAddExOwnedGpa t { x with gpaBase := x.start }

/-! ### Removal -/

def GuestRegion.below (r : GuestRegion) (x : ℕ) : GuestRegion :=
  { r with stop := x }

/-- The piece of `r` from `x` on; offset and backing move along, by a difference that wraps. -/
def GuestRegion.above (r : GuestRegion) (x : ℕ) : GuestRegion :=
  { r with
    offset := u64 (r.offset + (x + 2 ^ 64 - r.start))
    gpaBase := u64 (r.gpaBase + (x + 2 ^ 64 - r.start))
    start := x }

/-- The loop of `guest_region_remove_prepare`: a descriptor is wanted only by a
region the range lies strictly inside of. -/
def removePrepareLoop (start stop : ℕ) (full : Bool) : List GuestRegion → HostFds →
    ℤ × ℤ × HostFds
  | [], fds => (0, -1, fds)
  | r :: rest, fds =>
    if stop ≤ r.start then (0, -1, fds)
    else if r.start < start ∧ stop < r.stop then
      if full || decide (r.backingFd < 0) then (0, -1, fds)
      else (if 0 ≤ fds.dup.1 then 0 else -1, fds.dup.1, fds.dup.2)
    else removePrepareLoop start stop full rest fds

/-- Returns the status, the reserved descriptor and the table. -/
def guestRegionRemovePrepare (t : RegionTable) (start stop : ℕ) : ℤ × ℤ × RegionTable :=
  if stop ≤ start then (0, -1, t)
  else
    let first := guestRegionFirstEndAbove t.regions start
    let res := removePrepareLoop start stop (decide (guestMaxRegions ≤ t.regions.length))
      (t.regions.drop first) t.fds
    (res.1, res.2.1, { t with fds := res.2.2 })

/-- Loop variables of the compaction: the tracker flag, the descriptors and the
descriptor reserved for an interior split. -/
structure RemoveSt where
  stale : Bool
  fds : HostFds
  reserved : ℤ

/-- The compaction loop over the unread slots; the result is what the output
slots from here on hold. -/
def removeLoop (hps start stop : ℕ) (full : Bool) : List GuestRegion → RemoveSt →
    List GuestRegion × RemoveSt
  | [], s => ([], s)
  | r :: rest, s =>
    if stop ≤ r.start then (r :: rest, s)
    else if r.start < start then
      if stop < r.stop && !full then
        let right := if 0 ≤ r.backingFd then { r.above stop with backingFd := s.reserved }
          else r.above stop
        (guestRegionClipOverlay hps (r.below start) :: guestRegionClipOverlay hps right :: rest,
          { s with reserved := if 0 ≤ r.backingFd then -1 else s.reserved })
      else
        -- a full table has no slot for the tail `[stop, r.stop)`: it is dropped
        let res := removeLoop hps start stop full rest
          { s with stale := s.stale || decide (stop < r.stop) }
        (guestRegionClipOverlay hps (r.below start) :: res.1, res.2)
    else if stop < r.stop then
      let res := removeLoop hps start stop full rest s
      (guestRegionClipOverlay hps (r.above stop) :: res.1, res.2)
    else removeLoop hps start stop full rest { s with fds := s.fds.closeIfOpen r.backingFd }

def guestRegionRemoveReserved (t : RegionTable) (start stop : ℕ) (reserved : ℤ) : RegionTable :=
  if stop ≤ start then { t with fds := t.fds.closeIfOpen reserved }
  else
    let first := guestRegionFirstEndAbove t.regions start
    let res := removeLoop t.hostPageSize start stop
      (decide (guestMaxRegions ≤ t.regions.length)) (t.regions.drop first)
      { stale := t.regionsTrackerStale, fds := t.fds, reserved := reserved }
    { t with
      regions := t.regions.take first ++ res.1
      regionsTrackerStale := res.2.stale
      fds := res.2.fds.closeIfOpen res.2.reserved }

def guestRegionRemove (t : RegionTable) (start stop : ℕ) : ℤ × RegionTable :=
  let prep := guestRegionRemovePrepare t start stop
  if prep.1 < 0 then (-1, prep.2.2)
  else (0, guestRegionRemoveReserved prep.2.2 start stop prep.2.1)

/-! ### Protection changes -/

/-- Loop variables of `guest_region_set_prot`: the slots already passed, the
index range of the modified ones, the tracker flag and the descriptors. -/
structure SetProtSt where
  done : List GuestRegion
  firstModified : Option ℕ
  lastModified : ℕ
  stale : Bool
  fds : HostFds

namespace SetProtSt

def pass (s : SetProtSt) (r : GuestRegion) : SetProtSt :=
  { s with done := s.done ++ [r] }

def modify (s : SetProtSt) (r : GuestRegion) : SetProtSt :=
  { s with
    done := s.done ++ [r]
    firstModified := some (s.firstModified.getD s.done.length)
    lastModified := s.done.length }

/-- The right half of a split takes a duplicate of the backing descriptor; a
failed `dup` leaves the half without one. -/
def dupBacking (s : SetProtSt) (r : GuestRegion) : GuestRegion × SetProtSt :=
  if 0 ≤ r.backingFd then
    ({ r with backingFd := s.fds.dup.1 }, { s with fds := s.fds.dup.2 })
  else (r, s)

end SetProtSt

/-- The work on the slot at the cursor once it starts inside the range:
`Sum.inl` ends the loop, `Sum.inr` goes on with the next slot. -/
def setProtSlot (hps stop prot : ℕ) (r : GuestRegion) (rest : List GuestRegion)
    (s : SetProtSt) : SetProtSt ⊕ SetProtSt :=
  if stop < r.stop then
    if guestMaxRegions ≤ s.done.length + 1 + rest.length then
      -- no slot for the tail: the whole region gets the new protection
      .inr { s.modify { r with prot := prot } with stale := true }
    else
      let left := guestRegionClipOverlay hps { r.below stop with prot := prot }
      let right := s.dupBacking (r.above stop)
      let s' := right.2.modify left
      .inl { s' with done := s'.done ++ guestRegionClipOverlay hps right.1 :: rest }
  else .inr (s.modify { r with prot := prot })

def setProtLoop (hps start stop prot : ℕ) : List GuestRegion → SetProtSt → SetProtSt
  | [], s => s
  | r :: rest, s =>
    if stop ≤ r.start then { s with done := s.done ++ r :: rest }
    else if r.start < start then
      if guestMaxRegions ≤ s.done.length + 1 + rest.length then
        setProtLoop hps start stop prot rest { s.pass r with stale := true }
      else
        let right := s.dupBacking (r.above start)
        let s := right.2.pass (guestRegionClipOverlay hps (r.below start))
        match setProtSlot hps stop prot (guestRegionClipOverlay hps right.1) rest s with
        | .inl s' => s'
        | .inr s' => setProtLoop hps start stop prot rest s'
    else
      match setProtSlot hps stop prot r rest s with
      | .inl s' => s'
      | .inr s' => setProtLoop hps start stop prot rest s'

def mergeLeftDown : ℕ → ℕ → List GuestRegion → List GuestRegion
  | 0, _, rs => rs
  | n + 1, i, rs => mergeLeftDown n (i - 1) (tryMergeLeft rs i)

def setProtMerge (s : SetProtSt) : List GuestRegion :=
  match s.firstModified with
  | none => s.done
  | some f => tryMergeLeft
      (mergeLeftDown (s.lastModified - f) s.lastModified (tryMergeRight s.done s.lastModified)) f

def guestRegionSetProt (t : RegionTable) (start stop prot : ℕ) : RegionTable :=
  let first := guestRegionFirstEndAbove t.regions start
  let s := setProtLoop t.hostPageSize start stop prot (t.regions.drop first)
    { done := t.regions.take first, firstModified := none, lastModified := 0,
      stale := t.regionsTrackerStale, fds := t.fds }
  { t with regions := setProtMerge s, regionsTrackerStale := s.stale, fds := s.fds }

end Elfuse
