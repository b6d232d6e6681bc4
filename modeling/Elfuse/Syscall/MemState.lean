/-
The guest as the memory system calls see it.

`Guest` is the part of `guest_t` that `mprotect` reads and writes: the page
tables and the region tracker. The calls are programs in the monad of `Calls`,
with the errno as the error.
-/
import Elfuse.Core.LazyMap
import Elfuse.Lib.Calls

namespace Elfuse

open Calls

def userVaMax : ℕ := 0x0000FFFFFFFFFFFF

/-- What the memory calls read and do not write: the layout settled at boot. -/
structure GuestEnv where
  interpBase : ℕ

structure Guest where
  pt : PageTables
  rt : RegionTable

/-- A memory call: it fails with a negative errno. -/
abbrev Sys (α : Type) : Type := Call Guest ℤ α

namespace Guest

/-! ### Page tables and region table -/

def setPt (g : Guest) (p : PageTables) : Guest := { g with pt := p }

def setRt (g : Guest) (t : RegionTable) : Guest := { g with rt := t }

end Guest

/-! ### Page-table calls -/

/-- A page-table operation; its `-1` is the error. -/
def ptCall (f : Guest → Option (ℤ × PageTables)) : Sys Unit := fun g =>
  (f g).map fun res => (if res.1 < 0 then .error (-linuxEnomem) else .ok (), g.setPt res.2)

def invalidatePtes (start stop : ℕ) : Sys Unit :=
  ptCall fun g => guestInvalidatePtes g.pt start stop

def updatePerms (start stop : ℕ) (perms : Perms) : Sys Unit :=
  ptCall fun g => guestUpdatePerms g.rt.regions g.pt start stop perms

def extendPageTables (start stop : ℕ) (perms : Perms) : Sys Unit :=
  ptCall fun g => some (guestExtendPageTables g.pt start stop perms)

/-- Model of `prot_to_perms`: always readable. -/
def protToPerms (prot : ℕ) : Perms :=
  ⟨true, hasFlag prot linuxProtWrite, hasFlag prot linuxProtExec, false⟩

/-! ### Region-table calls -/

def regionSetProt (start stop prot : ℕ) : Sys Unit :=
  .modify fun g => g.setRt (guestRegionSetProt g.rt start stop prot)

/-- The regions from the first that ends above `start` up to `stop`: what the
loops over a range visit. -/
def regionsFrom (rs : List GuestRegion) (start stop : ℕ) : List GuestRegion :=
  (rs.drop (guestRegionFirstEndAbove rs start)).takeWhile fun r => decide (r.start < stop)

/-! ### The runtime reserve -/

namespace GuestEnv

/-- Model of `guest_infra_window`. -/
def infraLo (e : GuestEnv) : ℕ := e.interpBase - infraReserve
def infraHi (e : GuestEnv) : ℕ := e.interpBase

/-- Model of `guest_range_hits_infra`. -/
def rangeHitsInfra (e : GuestEnv) (start stop : ℕ) : Bool :=
  decide (start < e.infraHi) && decide (e.infraLo < stop)

end GuestEnv

/-! ### A guest of 64 GiB -/

/-- The layout `guest_init` computes for the smallest slab. -/
def env64 : GuestEnv := ⟨0xF00000000⟩

def root64 : PageTables :=
  { emptyPool with
    ptPoolBase := 0xEFF010000, ptPoolEnd := 0xEFFDF6000, ptPoolNext := 0xEFF011000
    ttbr0 := 0xEFF010000, guestSize := 2 ^ 36 }.writePage 0xEFF010000 fun _ => 0

lemma root64_wf : PtWf root64 := by
  have hpool : PoolOk { emptyPool with
      ptPoolBase := 0xEFF010000, ptPoolEnd := 0xEFFDF6000, ptPoolNext := 0xEFF010000
      guestSize := 2 ^ 36 } := by
    constructor <;> simp only <;> omega
  refine ptRoot_wf hpool ?_
  rw [ptRoot, ptAllocPage, if_neg (by decide)]
  rfl

/-- A guest with the given regions and nothing mapped in its tables. Duplicates of descriptors are
numbered from 100 on. -/
def guest64 (rs : List GuestRegion) : Guest where
  pt := root64
  rt := { RegionTable.empty 16384
      { dupAnswer := fun n => 100 + n, dupCalls := 0, closed := [] } with regions := rs }

def anonRegion (start stop prot : ℕ) : GuestRegion :=
  { start := start, stop := stop, gpaBase := start, vmaId := 1, prot := prot
    flags := linuxMapPrivate ||| linuxMapAnonymous, offset := 0, backingFd := -1
    shared := false, noreserve := false, backingRo := false, inheritedAtFork := false
    overlayActive := false, overlayStart := 0, overlayEnd := 0, name := [] }

end Elfuse
