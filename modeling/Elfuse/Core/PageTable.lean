/-
The four-level page tables and the operations that edit them.

Tables live in a bump-allocated pool inside guest memory. The pool is disjoint
from everything the guest maps, so the model keeps it apart: `tables a i` is
the descriptor at index `i` of the table page at address `a`. Every operation
is a function on `PageTables`, which also carries the thread's TLB invalidation
request and the generation counter of the translation cache. An operation
returns `0` or `-1` with the state it leaves behind, since failures part way
through keep what was written before.

`guest_invalidate_ptes` and `guest_update_perms` advance by 64-bit arithmetic
that wraps in the last 2 MiB of the address space; their loops run on `2 ^ 64`
units of fuel, more than any terminating run needs, and `none` means that the
call does not return.
-/
import Elfuse.Core.Desc
import Elfuse.Core.Tlbi
import Elfuse.Core.Region

namespace Elfuse

/-- A descriptor's place: table page and index. -/
abbrev Slot := ℕ × ℕ

/-- The page-table part of `guest_t`, with the calling thread's request. -/
structure PageTables where
  tables : ℕ → ℕ → ℕ
  ptPoolBase : ℕ
  ptPoolEnd : ℕ
  ptPoolNext : ℕ
  ttbr0 : ℕ
  guestSize : ℕ
  ptGen : ℕ
  /-- `cpu_tlbi_req`. -/
  tlbi : TlbiRequest
  /-- `g_tlbi_range_supported`. -/
  tlbiRangeSupported : Bool

namespace PageTables

def read (p : PageTables) (s : Slot) : ℕ := p.tables s.1 s.2

def write (p : PageTables) (s : Slot) (d : ℕ) : PageTables :=
  { p with tables := fun a i => if a = s.1 ∧ i = s.2 then d else p.tables a i }

def writePage (p : PageTables) (page : ℕ) (f : ℕ → ℕ) : PageTables :=
  { p with tables := fun a i => if a = page then f i else p.tables a i }

def ptGenBump (p : PageTables) : PageTables := { p with ptGen := p.ptGen + 1 }

def requestRange (p : PageTables) (lo hi : ℕ) : PageTables :=
  { p with tlbi := tlbiRequestRange p.tlbiRangeSupported p.tlbi lo hi }

def markIcacheIf (p : PageTables) (x : Bool) : PageTables :=
  if x then { p with tlbi := tlbiRequestMarkIcache p.tlbi } else p

def isBroadcast (p : PageTables) : Bool := tlbiRequestIsBroadcast p.tlbi

end PageTables

/-! ### Table pool and slots -/

/-- Model of `pt_alloc_page`; its 0 is `none`. -/
def ptAllocPage (p : PageTables) : Option (ℕ × PageTables) :=
  if p.ptPoolEnd < p.ptPoolNext + guestPageSize then none
  else some (p.ptPoolNext,
    { p with ptPoolNext := p.ptPoolNext + guestPageSize }.writePage p.ptPoolNext fun _ => 0)

def l0Idx (va : ℕ) : ℕ := va / 2 ^ 39
def l1Idx (va : ℕ) : ℕ := va % 2 ^ 39 / 2 ^ 30
def l2Idx (va : ℕ) : ℕ := va % 2 ^ 30 / block2MiB
def l3Idx (va : ℕ) : ℕ := va % block2MiB / guestPageSize

/-- Model of `find_l2_entry`: the slot of the L2 descriptor covering `va`. -/
def findL2Entry (p : PageTables) (va : ℕ) : Option Slot :=
  if 512 ≤ l0Idx va then none
  else
    let l0e := p.read (p.ttbr0, l0Idx va)
    if !isValid l0e then none
    else
      let l1e := p.read (pageAddr l0e, l1Idx va)
      if !isValid l1e then none else some (pageAddr l1e, l2Idx va)

/-- Make the entry at a slot point to a table, allocating one if it is invalid;
`false` when the pool is exhausted. -/
def ensureTable (p : PageTables) (s : Slot) : Bool × PageTables :=
  if isValid (p.read s) then (true, p)
  else
    match ptAllocPage p with
    | none => (false, p)
    | some (a, p') => (true, p'.write s (makeTableDesc a))

/-- The L2 slot of `va`, allocating the tables above it. With `checkL1` a block
at L1 is refused, as `guest_map_va_range` does. -/
def ensureL2Slot (checkL1 : Bool) (p : PageTables) (va : ℕ) : Option Slot × PageTables :=
  if 512 ≤ l0Idx va then (none, p)
  else
    let e0 := ensureTable p (p.ttbr0, l0Idx va)
    if !e0.1 then (none, e0.2)
    else
      let l1 := (pageAddr (e0.2.read (p.ttbr0, l0Idx va)), l1Idx va)
      if checkL1 && isValid (e0.2.read l1) && !isTable (e0.2.read l1) then (none, e0.2)
      else
        let e1 := ensureTable e0.2 l1
        if !e1.1 then (none, e1.2)
        else (some (pageAddr (e1.2.read l1), l2Idx va), e1.2)

/-! ### Splitting a block -/

/-- The page descriptors a block is split into: same addresses, same permissions. -/
def splitPages (d : ℕ) : ℕ → ℕ := fun i =>
  if i < 512 then makePageDesc (blockAddr d + i * guestPageSize) (descToPerms d) else 0

def splitL2Block (p : PageTables) (s : Slot) : ℤ × PageTables :=
  let d := p.read s
  if isTable d then (0, p)
  else if !isValid d then (-1, p)
  else
    match ptAllocPage p with
    | none => (-1, p)
    | some (l3, p') => (0, (p'.writePage l3 (splitPages d)).write s (makeTableDesc l3))

def guestSplitBlock (p : PageTables) (blockGpa : ℕ) : ℤ × PageTables :=
  match findL2Entry p (align2MiBDown blockGpa) with
  | none => (-1, p)
  | some s => splitL2Block p s

/-! ### Mapping whole blocks -/

/-- The batch of changed addresses a call has not yet asked to invalidate. -/
structure Changed where
  lo : ℕ
  hi : ℕ

def Changed.empty : Changed := ⟨2 ^ 64 - 1, 0⟩

def Changed.note (c : Changed) (bcast : Bool) (lo hi : ℕ) : Changed :=
  if bcast then c
  else ⟨if lo < c.lo then lo else c.lo, if c.hi < hi then hi else c.hi⟩

def flushChanged (p : PageTables) (bcast : Bool) (c : Changed) : PageTables :=
  if !bcast && decide (c.lo < c.hi) then p.requestRange c.lo c.hi else p

/-- The loop shared by `guest_map_va_range` and `guest_extend_page_tables`: `n`
blocks from `va` on, each mapped to the block at the running `gpa` unless its
entry is valid already. -/
def mapBlocks (checkL1 : Bool) (perms : Perms) (bcast : Bool) :
    ℕ → ℕ → ℕ → PageTables → Changed → Bool × PageTables × Changed
  | 0, _, _, p, c => (true, p, c)
  | n + 1, va, gpa, p, c =>
    match ensureL2Slot checkL1 p va with
    | (none, p') => (false, p', c)
    | (some s, p') =>
      if isValid (p'.read s) then
        mapBlocks checkL1 perms bcast n (va + block2MiB) (gpa + block2MiB) p' c
      else
        mapBlocks checkL1 perms bcast n (va + block2MiB) (gpa + block2MiB)
          (p'.write s (makeBlockDesc gpa perms)) (c.note bcast va (va + block2MiB))

/-- The common end of both: request the batch and bump the generation, unless
the loop failed. -/
def finishMap (bcast : Bool) (res : Bool × PageTables × Changed) : ℤ × PageTables :=
  if res.1 then (0, (flushChanged res.2.1 bcast res.2.2).ptGenBump) else (-1, res.2.1)

def guestMapVaRange (p : PageTables) (vaBase vaLimit gpaStart : ℕ) (perms : Perms) :
    ℤ × PageTables :=
  if vaLimit ≤ vaBase then (-1, p)
  else if vaBase % block2MiB ≠ 0 ∨ vaLimit % block2MiB ≠ 0 ∨ gpaStart % block2MiB ≠ 0 then (-1, p)
  else if p.ttbr0 = 0 then (-1, p)
  else
    let bcast := p.isBroadcast
    finishMap bcast (mapBlocks true perms bcast ((vaLimit - vaBase) / block2MiB) vaBase gpaStart
      (p.markIcacheIf perms.x) Changed.empty)

def guestExtendPageTables (p : PageTables) (start stop : ℕ) (perms : Perms) : ℤ × PageTables :=
  if p.guestSize ≤ start ∨ p.guestSize < stop then (-1, p)
  else if 2 ^ 64 - 1 - (block2MiB - 1) < stop then (-1, p)
  else
    let bcast := p.isBroadcast
    let addrStart := align2MiBDown start
    finishMap bcast (mapBlocks false perms bcast ((align2MiBUp stop - addrStart) / block2MiB)
      addrStart addrStart (p.markIcacheIf perms.x) Changed.empty)

/-! ### Rewriting pages -/

/-- The page loop of `guest_invalidate_ptes` and `guest_update_perms`: `n` pages
from `pa` on, each entry replaced by `f pa old` where that differs. -/
def rewritePages (f : ℕ → ℕ → ℕ) (l3 : ℕ) (bcast : Bool) :
    ℕ → ℕ → PageTables → Changed → PageTables × Changed
  | 0, _, p, c => (p, c)
  | n + 1, pa, p, c =>
    let old := p.read (l3, l3Idx pa)
    if old = f pa old then rewritePages f l3 bcast n (pa + guestPageSize) p c
    else rewritePages f l3 bcast n (pa + guestPageSize) (p.write (l3, l3Idx pa) (f pa old))
      (c.note bcast pa (pa + guestPageSize))

def blockStop (stop addr : ℕ) : ℕ :=
  let blockEnd := align2MiBDown addr + block2MiB
  if stop < blockEnd then stop else blockEnd

/-- The part of a split block that lies in the range: rewrite its pages and
request the batch. Returns the address the outer loop goes on from. -/
def rewriteSplitBlock (f : ℕ → ℕ → ℕ) (p : PageTables) (s : Slot) (stop addr : ℕ) :
    ℕ × PageTables :=
  let pageEnd := blockStop stop addr
  let bcast := p.isBroadcast
  let res := rewritePages f (pageAddr (p.read s)) bcast ((pageEnd - addr) / guestPageSize) addr p
    Changed.empty
  (pageEnd, flushChanged res.1 bcast res.2)

/-- The outer loop of both: `step` works on the block at the cursor and returns
the next cursor, or `none` when it fails. -/
def blockLoop (step : PageTables → ℕ → Option (ℕ × PageTables)) (stop : ℕ) :
    ℕ → ℕ → PageTables → Option (ℤ × PageTables)
  | 0, _, _ => none
  | n + 1, addr, p =>
    if addr < stop then
      match step p addr with
      | none => some (-1, p)
      | some (addr', p') => blockLoop step stop n addr' p'
    else some (0, p.ptGenBump)

/-- More iterations than any call that returns makes. -/
def loopFuel : ℕ := 2 ^ 64

/-- The next block after an address whose L2 table does not exist. -/
def nextBlock (addr : ℕ) : ℕ := align2MiBUp (u64 (addr + 1))

def invalidateStep (start stop : ℕ) (p : PageTables) (addr : ℕ) : Option (ℕ × PageTables) :=
  match findL2Entry p addr with
  | none => some (nextBlock addr, p)
  | some s =>
    let blockStart := align2MiBDown addr
    let blockEnd := blockStart + block2MiB
    let d := p.read s
    if !isValid d then some (blockEnd, p)
    else if isBlock d then
      if start ≤ blockStart ∧ blockEnd ≤ stop then
        some (blockEnd, (p.write s 0).requestRange blockStart blockEnd)
      else
        let split := guestSplitBlock p blockStart
        if split.1 < 0 then none
        else some (rewriteSplitBlock (fun _ _ => 0) split.2 s stop addr)
    else some (rewriteSplitBlock (fun _ _ => 0) p s stop addr)

def guestInvalidatePtes (p : PageTables) (start stop : ℕ) : Option (ℤ × PageTables) :=
  if 2 ^ 64 - 1 - (guestPageSize - 1) < stop then some (-1, p)
  else
    let start := alignDown start guestPageSize
    let stop := pageAlignUp stop
    if stop ≤ start then some (0, p)
    else blockLoop (invalidateStep start stop) stop loopFuel start p

/-- The output address of a page whose entry is gone: what the tracker says, or
the identity. -/
def recoveredIpa (rs : List GuestRegion) (pa : ℕ) : ℕ :=
  match guestRegionFind rs pa with
  | some r => alignDown (u64 (r.gpaBase + (pa - r.start))) guestPageSize
  | none => alignDown pa guestPageSize

/-- The descriptor `guest_update_perms` gives a page: the output address is kept,
or recovered from the tracker when the entry is invalid. -/
def updatedPage (rs : List GuestRegion) (perms : Perms) (pa old : ℕ) : ℕ :=
  makePageDesc (if isValid old then pageAddr old else recoveredIpa rs pa) perms

def updateStep (rs : List GuestRegion) (perms : Perms) (start stop : ℕ) (p : PageTables)
    (addr : ℕ) : Option (ℕ × PageTables) :=
  match findL2Entry p addr with
  | none => some (nextBlock addr, p)
  | some s =>
    let blockStart := align2MiBDown addr
    let blockEnd := blockStart + block2MiB
    let d := p.read s
    if !isValid d then some (blockEnd, p)
    else if isBlock d then
      if start ≤ blockStart ∧ blockEnd ≤ stop then
        if descToPerms d = perms then some (blockEnd, p)
        else some (blockEnd,
          (p.write s (makeBlockDesc (blockAddr d) perms)).requestRange blockStart blockEnd)
      else if descToPerms d = perms then some (blockEnd, p)
      else
        let split := guestSplitBlock p blockStart
        if split.1 < 0 then none
        else some (rewriteSplitBlock (updatedPage rs perms) split.2 s stop addr)
    else some (rewriteSplitBlock (updatedPage rs perms) p s stop addr)

def guestKbufUserVaOverlap (va size : ℕ) : Bool :=
  if size = 0 then false
  else
    let stop := if 2 ^ 64 ≤ va + size then 2 ^ 64 - 1 else va + size
    decide (va < kbufUserVa + kbufSize) && decide (kbufUserVa < stop)

def guestUpdatePerms (rs : List GuestRegion) (p : PageTables) (start stop : ℕ) (perms : Perms) :
    Option (ℤ × PageTables) :=
  if 2 ^ 64 - 1 - (guestPageSize - 1) < stop then some (-1, p)
  else
    let start := alignDown start guestPageSize
    let stop := pageAlignUp stop
    if stop ≤ start then some (0, p)
    else
      let p := p.markIcacheIf perms.x
      if perms.x && guestKbufUserVaOverlap start (stop - start) then some (-1, p)
      else blockLoop (updateStep rs perms start stop) stop loopFuel start p

/-! ### Installing pages -/

/-- The page loop of `guest_install_va_pages`: `n` pages from `v` on, backed from
`gpa` on. -/
def installPages (perms : Perms) (bcast : Bool) :
    ℕ → ℕ → ℕ → PageTables → Changed → Bool × PageTables × Changed
  | 0, _, _, p, c => (true, p, c)
  | n + 1, v, gpa, p, c =>
    match findL2Entry p v with
    | none => (false, p, c)
    | some s =>
      if !isValid (p.read s) then (false, p, c)
      else
        let split := if isBlock (p.read s) then guestSplitBlock p (align2MiBDown v) else (0, p)
        if split.1 < 0 then (false, split.2, c)
        else
          let slot := (pageAddr (split.2.read s), l3Idx v)
          let new := makePageDesc gpa perms
          if split.2.read slot = new then
            installPages perms bcast n (v + guestPageSize) (gpa + guestPageSize) split.2 c
          else
            installPages perms bcast n (v + guestPageSize) (gpa + guestPageSize)
              (split.2.write slot new) (c.note bcast v (v + guestPageSize))

def guestInstallVaPages (p : PageTables) (va length gpa : ℕ) (perms : Perms) : ℤ × PageTables :=
  if length = 0 then (-1, p)
  else if va % guestPageSize ≠ 0 ∨ length % guestPageSize ≠ 0 ∨ gpa % guestPageSize ≠ 0 then (-1, p)
  else if 2 ^ 64 - 1 - length < va ∨ 2 ^ 64 - 1 - length < gpa then (-1, p)
  else if perms.x && guestKbufUserVaOverlap va length then (-1, p)
  else
    let bcast := p.isBroadcast
    finishMap bcast (installPages perms bcast (length / guestPageSize) va gpa
      (p.markIcacheIf perms.x) Changed.empty)

/-! ### The walk -/

/-- What the hardware makes of an address: output address and permissions, read
from `ttbr0` down. -/
def ptWalk (p : PageTables) (va : ℕ) : Option (ℕ × Perms) :=
  match findL2Entry p va with
  | none => none
  | some s =>
    let l2e := p.read s
    if !isValid l2e then none
    else if isTable l2e then
      let l3e := p.read (pageAddr l2e, l3Idx va)
      if !isValid l3e then none
      else some (pageAddr l3e + va % guestPageSize, descToPerms l3e)
    else some (blockAddr l2e + va % block2MiB, descToPerms l2e)

end Elfuse
