/-
Edits the memory syscalls make to the region table themselves.

`sys_mmap`, `sys_munmap` and `sys_mremap` split the table at the bounds of
their range before they work on it and undo the splits on failure
(`splitRegionsAtBounds`, `undoRegionSplits`); `sys_brk` widens the heap record
in place or adds a new one (`brkUpdateRegions`), bounded by `brkGrowLimit`.
-/
import Elfuse.Core.Region

namespace Elfuse

/-! ### Boundary splits -/

def regionHasLiveOverlay (r : GuestRegion) : Bool :=
  r.overlayActive && decide (r.overlayStart < r.overlayEnd)

/-- The syscall layer's own `region_clip_overlay`. -/
def regionClipOverlay (hps : ℕ) (r : GuestRegion) : GuestRegion :=
  if !regionHasLiveOverlay r || decide (r.stop ≤ r.start) then guestRegionClearOverlay r
  else
    let pageStart := alignDown r.start hps
    let pageEnd := alignUp r.stop hps
    let overlayStart := if r.overlayStart < pageStart then pageStart else r.overlayStart
    let overlayEnd := if r.overlayEnd > pageEnd then pageEnd else r.overlayEnd
    if overlayEnd ≤ overlayStart then guestRegionClearOverlay r
    else { r with overlayStart := overlayStart, overlayEnd := overlayEnd }

/-- Model of `region_split_undo_t`; an `index` of `-1` is `none`. -/
structure RegionSplitUndo where
  index : ℕ
  orig : GuestRegion

def splitRegionsAtBoundary (t : RegionTable) (boundary : ℕ) :
    ℤ × Option RegionSplitUndo × RegionTable :=
  if boundary = 0 then (0, none, t)
  else
    let i := guestRegionFirstEndAbove t.regions boundary
    match t.regions[i]? with
    | none => (0, none, t)
    | some r =>
      if boundary ≤ r.start then (0, none, t)
      else if guestMaxRegions ≤ t.regions.length then (-linuxEnomem, none, t)
      else
        let dup := if 0 ≤ r.backingFd then t.fds.dup else (r.backingFd, t.fds)
        if 0 ≤ r.backingFd ∧ dup.1 < 0 then (-linuxEnomem, none, { t with fds := dup.2 })
        else
          let left := regionClipOverlay t.hostPageSize (r.below boundary)
          let right := regionClipOverlay t.hostPageSize
            ({ r with backingFd := dup.1 }.above boundary)
          (0, some { index := i, orig := r },
            { t with
              regions := t.regions.take i ++ left :: right :: t.regions.drop (i + 1)
              fds := dup.2 })

def undoRegionSplit (t : RegionTable) (undo : Option RegionSplitUndo) : RegionTable :=
  match undo with
  | none => t
  | some u =>
    { t with
      regions := t.regions.take u.index ++ u.orig :: t.regions.drop (u.index + 2)
      fds := (t.regions[u.index + 1]?).elim t.fds fun r => t.fds.closeIfOpen r.backingFd }

def splitRegionsAtBounds (t : RegionTable) (start stop : ℕ) :
    ℤ × (Option RegionSplitUndo × Option RegionSplitUndo) × RegionTable :=
  let s0 := splitRegionsAtBoundary t start
  if s0.1 < 0 then (s0.1, (s0.2.1, none), s0.2.2)
  else
    let s1 := splitRegionsAtBoundary s0.2.2 stop
    if s1.1 < 0 then (s1.1, (s0.2.1, s1.2.1), undoRegionSplit s1.2.2 s0.2.1)
    else (s1.1, (s0.2.1, s1.2.1), s1.2.2)

def undoRegionSplits (t : RegionTable) (undo : Option RegionSplitUndo × Option RegionSplitUndo) :
    RegionTable :=
  undoRegionSplit (undoRegionSplit t undo.2) undo.1

/-! ### The heap record -/

def heapName : List UInt8 := [0x5b, 0x68, 0x65, 0x61, 0x70, 0x5d]

def heapPieceIsPlain (r : GuestRegion) : Bool :=
  decide (r.start < r.stop) && decide (r.gpaBase = r.start) &&
  decide (r.prot = linuxProtRead ||| linuxProtWrite) &&
  decide (r.flags = linuxMapPrivate ||| linuxMapAnonymous) && decide (r.backingFd < 0) &&
  !r.shared && !r.noreserve && !r.backingRo && !r.inheritedAtFork &&
  !regionHasLiveOverlay r && decide (r.name = heapName)

/-- Model of `brk_limit_region`: one region's effect on the growth bound. -/
def brkLimitRegion (fromOff limit start stop : ℕ) : ℕ :=
  if limit ≤ start ∨ stop ≤ fromOff then limit else if start ≤ fromOff then fromOff else start

/-- How far the break may grow from `fromOff`, and the slot a growth widens. -/
def brkGrowLimit (t : RegionTable) (stackBase fromOff : ℕ) : ℕ × Option ℕ :=
  if t.regionsTrackerStale then (fromOff, none)
  else
    let limit := if fromOff < stackBase then stackBase else fromOff
    let i := guestRegionFirstEndAbove t.regions fromOff
    let adjoining := if 0 < i then
        (t.regions[i - 1]?).bind fun r =>
          if r.stop = fromOff ∧ heapPieceIsPlain r then some (i - 1) else none
      else none
    (t.regions[i]?.elim limit fun r => brkLimitRegion fromOff limit r.start r.stop, adjoining)

/-- The heap record a growth from `oldBrk` to `newOff` adds when there is no
piece to widen. -/
def heapArgs (t : RegionTable) (brkBase oldBrk newOff : ℕ) : RegionArgs :=
  { start := oldBrk, stop := newOff, gpaBase := oldBrk
    prot := linuxProtRead ||| linuxProtWrite, flags := linuxMapPrivate ||| linuxMapAnonymous
    offset := 0, name := some heapName, ownedBackingFd := -1, inheritedAtFork := false
    -- the lineage of the record at the heap's base, when there is one
    vmaId := ((guestRegionFind t.regions brkBase).filter fun r => r.name = heapName).elim 0
      GuestRegion.vmaId }

/-- The tracker edit at the end of `sys_brk`, once the pages are in place. -/
def brkUpdateRegions (t : RegionTable) (brkBase oldBrk newOff : ℕ) (adjoining : Option ℕ)
    (shrinkRemoveFd : ℤ) : RegionTable :=
  if newOff < oldBrk then guestRegionRemoveReserved t newOff oldBrk shrinkRemoveFd
  else if brkBase < newOff then
    match adjoining with
    | some i => { t with regions := t.regions.modify i fun r => { r with stop := newOff } }
    | none =>
      if oldBrk < newOff then
        let res := guestRegionAddExOwned t (heapArgs t brkBase oldBrk newOff)
        if res.1 < 0 then { res.2 with regionsTrackerStale := true } else res.2
      else t
  else (guestRegionRemove t brkBase (if brkBase < oldBrk then oldBrk else brkBase + 1)).2

/-- What `sys_brk` does to the table when the page-table work succeeds: refuse a
growth past the limit, reserve the descriptor of a shrink, edit the heap. -/
def brkRegions (t : RegionTable) (brkBase stackBase oldBrk newOff : ℕ) : RegionTable :=
  let lim := brkGrowLimit t stackBase oldBrk
  if oldBrk < newOff ∧ lim.1 ≤ newOff then t
  else
    let adjoining := if oldBrk < newOff then lim.2 else none
    let prep := if newOff < oldBrk then guestRegionRemovePrepare t newOff oldBrk else (0, -1, t)
    if prep.1 < 0 then prep.2.2
    else brkUpdateRegions prep.2.2 brkBase oldBrk newOff adjoining prep.2.1

end Elfuse
