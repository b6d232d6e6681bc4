/-
`sys_mprotect` and the pages around its range.

The call gives a range its new protection in the page tables and then in the
tracker. In the primary window it first makes sure that the tables exist, with
`guest_extend_page_tables`, which maps whole 2 MiB blocks: where the range
touches a block without an entry, the rest of that block is mapped along with it.

* `mprotect_confined_iff` — a successful call leaves the pages outside its range
  alone exactly when it does not extend the tables or every block it covers in
  part has an entry already;
* `mprotect_maps_neighbour` — one page is protected and 511 others appear.
-/
import Elfuse.Syscall.MemState

namespace Elfuse

open Calls Option

/-! ### The call -/

/-- Model of `guest_region_range_has_ro_shared_backing`. -/
def rangeHasRoSharedBacking (rs : List GuestRegion) (start stop : ℕ) : Bool :=
  (regionsFrom rs start stop).any fun r => r.shared && r.backingRo

/-- Model of `guest_region_range_prot_uniform`. -/
def rangeProtUniform (rs : List GuestRegion) (start stop prot : ℕ) : Bool :=
  (regionsFrom rs start stop).all fun r => decide (r.prot = prot)

/-- Model of `guest_region_range_has_noreserve`. -/
def rangeHasNoreserve (rs : List GuestRegion) (start stop : ℕ) : Bool :=
  (regionsFrom rs start stop).any GuestRegion.noreserve

/-- A read-only request is never taken for granted: some mappings are recorded
readable and mapped writable. -/
def mprotectSameProtFastPathSafe (prot : ℕ) : Bool :=
  decide (prot = linuxProtNone) || hasFlag prot linuxProtWrite || hasFlag prot linuxProtExec

def mprotectFastPath (t : RegionTable) (start stop prot : ℕ) : Bool :=
  mprotectSameProtFastPathSafe prot && !t.regionsTrackerStale &&
    rangeProtUniform t.regions start stop prot && !rangeHasNoreserve t.regions start stop

def mprotectTables (start stop prot : ℕ) (grant : Sys Unit) : Sys Unit :=
  if prot ≠ linuxProtNone then grant else invalidatePtes start stop

/-- The common part of both branches of `sys_mprotect`; `grant` gives the range
its permissions. The tracker is changed last, so a failure leaves it behind. -/
def mprotectRange (start stop prot : ℕ) (grant : Sys Unit) : Sys Unit := do
  let t ← .read Guest.rt
  .require (¬ (hasFlag prot linuxProtWrite = true ∧
    rangeHasRoSharedBacking t.regions start stop = true)) (-linuxEacces)
  if mprotectFastPath t start stop prot then .ret ()
  else do
    mprotectTables start stop prot grant
    regionSetProt start stop prot

def mprotectHigh (start stop prot : ℕ) : Sys Unit := do
  .require (¬ (guestKbufUserVaOverlap start (stop - start) = true ∧
    hasFlag prot linuxProtExec = true)) (-linuxEinval)
  mprotectRange start stop prot (updatePerms start stop (protToPerms prot))

def mprotectLow (e : GuestEnv) (start stop prot : ℕ) : Sys Unit := do
  .require (e.rangeHitsInfra start stop = false) (-linuxEinval)
  mprotectRange start stop prot do
    extendPageTables start stop (protToPerms prot)
    updatePerms start stop (protToPerms prot)

/-- What `sys_mprotect` does once the arguments are checked; a range that is in
neither window is left alone. -/
def mprotectChecked (e : GuestEnv) (addr length prot : ℕ) : Sys Unit := do
  let size ← .read fun g => g.pt.guestSize
  if userVaMax < addr then .ret ()
  else if size ≤ addr then mprotectHigh addr (addr + length) prot
  else if length ≤ size - addr then mprotectLow e addr (addr + length) prot
  else .ret ()

def sysMprotect (e : GuestEnv) (addr length prot : ℕ) : Sys Unit := do
  .require (addr % guestPageSize = 0) (-linuxEinval)
  if length = 0 then .ret ()
  else do
    .require (pageAlignUp length ≠ 0) (-linuxEinval)
    .require (addr ≤ 2 ^ 64 - 1 - pageAlignUp length) (-linuxEinval)
    mprotectChecked e addr (pageAlignUp length) prot

/-! ### Ranges that reach the top -/

variable {p : PageTables} {start stop addr a : ℕ} {r : ℤ}

lemma findL2Entry_lt (h : findL2Entry p addr = some s) : addr < 2 ^ 48 := by
  unfold findL2Entry at h
  by_cases h0 : 512 ≤ l0Idx addr
  · rw [if_pos h0] at h
    cases h
  · unfold l0Idx at h0
    omega

/-- Where the cursor of a range loop goes: to the next block, around the top of
the address space, unless the block has tables. -/
def LeavesTop (addr a : ℕ) : Prop := a = nextBlock addr ∨ addr < 2 ^ 48 ∧ a ≤ 2 ^ 48

lemma leavesTop_block (h : addr < 2 ^ 48) : LeavesTop addr (align2MiBDown addr + block2MiB) := by
  rw [blockEnd_eq]
  exact .inr ⟨h, by omega⟩

lemma leavesTop_rewrite (h : addr < 2 ^ 48) :
    LeavesTop addr (rewriteSplitBlock f p s stop addr).1 := by
  have hstop : blockStop stop addr ≤ align2MiBDown addr + block2MiB := by
    unfold blockStop
    dsimp only
    split <;> omega
  rw [blockEnd_eq] at hstop
  exact .inr ⟨h, hstop.trans (by omega)⟩

lemma BlockStep.leavesTop
    (h : BlockStep w start stop p addr res) (hres : res = some (a, p')) : LeavesTop addr a := by
  cases h with
  | absent =>
    cases hres
    exact .inl rfl
  | empty hs | equal hs | whole hs =>
    cases hres
    exact leavesTop_block (findL2Entry_lt hs)
  | part hs =>
    split at hres
    · cases hres
    obtain rfl := congrArg Prod.fst (some_inj.mp hres)
    exact leavesTop_rewrite (findL2Entry_lt hs)
  | table hs =>
    obtain rfl := congrArg Prod.fst (some_inj.mp hres)
    exact leavesTop_rewrite (findL2Entry_lt hs)

/-- A range that ends in the last 2 MiB is never done: if the loop comes to an
end it has failed. -/
lemma blockLoop_past_top (hspec : StepSpec G start stop step)
    (hcase : ∀ p addr, PtWf p → BlockStep w start stop p addr (step p addr))
    (htop : 2 ^ 64 - 2 ^ 21 < stop) : ∀ n addr p, PtWf p → Cursor start stop addr →
      blockLoop step stop n addr p = some (r, p') → r = -1 := by
  have hb : block2MiB = 2 ^ 21 := rfl
  intro n
  induction n with
  | zero =>
    intro addr p _ _ h
    cases h
  | succ n ih =>
    intro addr p hwf hc h
    rw [blockLoop, if_pos hc.lt] at h
    rcases hspec p addr hwf hc with ⟨hnone, -, -⟩ | ⟨a, q, hq, hstep⟩
    · rw [hnone] at h
      cases h
      rfl
    rw [hq] at h
    refine ih a q hstep.wf (hc.next hstep.next ?_) h
    rcases (hcase p addr hwf).leavesTop hq with rfl | ⟨-, ha⟩
    · rw [nextBlock, align2MiBUp, alignUp, hb, u64, u64]
      omega
    · omega

section
variable (h : PtWf p) (hs : start % 4096 = 0) (he : stop % 4096 = 0) (hlt : start < stop)
  (htop : stop < 2 ^ 64)
include h hs he hlt htop

lemma invalidate_done (hrun : guestInvalidatePtes p start stop = some (r, p')) (hr : ¬ r < 0) :
    PtWf p' ∧ ∀ va, ptWalk p' va = if start ≤ va ∧ va < stop then none else ptWalk p va := by
  by_cases hlow : stop ≤ 2 ^ 64 - 2 ^ 21
  · obtain ⟨res, a, heq, hcall⟩ := invalidate_call ⟨hs, he, hlt, hlow⟩ h
    obtain rfl := some_inj.mp (heq.symm.trans hrun)
    rcases hcall.ret with ⟨-, rfl, -⟩ | ⟨hneg, -, -⟩
    · exact ⟨hcall.wf, hcall.walk⟩
    · omega
  rw [guestInvalidatePtes, if_neg (by unfold guestPageSize; omega)] at hrun
  rw [alignDown_page hs, pageAlignUp_page he (by omega), if_neg (by omega)] at hrun
  have := blockLoop_past_top (invalidateStep_spec start stop)
    (fun _ addr h => invalidateStep_cases h start stop addr) (by omega) _ _ _ h
        ⟨hs, he, hlt, .inl rfl⟩
    hrun
  omega

lemma update_done (hrun : guestUpdatePerms rs p start stop perms = some (r, p')) (hr : ¬ r < 0) :
    PtWf p' ∧ ∀ va, ptWalk p' va = if start ≤ va ∧ va < stop then
      updatedLeaf rs perms va (l2Valid p va) (ptWalk p va) else ptWalk p va := by
  by_cases hlow : stop ≤ 2 ^ 64 - 2 ^ 21
  · rcases update_call rs perms ⟨hs, he, hlt, hlow⟩ h with ⟨-, heq⟩ | ⟨res, a, heq, hcall⟩
    · cases heq.symm.trans hrun
      exact absurd (by decide) hr
    obtain rfl := some_inj.mp (heq.symm.trans hrun)
    rcases hcall.ret with ⟨-, rfl, -⟩ | ⟨hneg, -, -⟩
    · exact ⟨hcall.wf, hcall.walk⟩
    · omega
  rw [guestUpdatePerms, if_neg (by unfold guestPageSize; omega)] at hrun
  rw [alignDown_page hs, pageAlignUp_page he (by omega), if_neg (by omega)] at hrun
  split at hrun
  · cases hrun
    exact absurd (by decide) hr
  · have := blockLoop_past_top (updateStep_spec rs perms start stop)
      (fun _ addr h => updateStep_cases h rs perms start stop addr) (by omega) _ _ _
      (h.markIcacheIf perms.x) ⟨hs, he, hlt, .inl rfl⟩ hrun
    omega

end

lemma extend_done (h : PtWf p) (hlt : start < stop)
    (hrun : guestExtendPageTables p start stop perms = (r, p')) (hr : ¬ r < 0) :
    PtWf p' ∧ ∀ va, ptWalk p' va =
      if (start / 2 ^ 21 ≤ va / 2 ^ 21 ∧ va / 2 ^ 21 ≤ (stop - 1) / 2 ^ 21) ∧ l2Valid p va = false
      then some (va, perms.norm) else ptWalk p va := by
  have hsize := h.pool.size_le
  rcases extend_call h start stop perms with hfail | ⟨hs, hstop, e, hcall, -⟩
  · cases hfail.symm.trans hrun
    exact absurd (by decide) hr
  rw [hrun] at hcall
  rcases hcall.ret with ⟨-, rfl, -⟩ | ⟨hneg, -, -⟩
  · refine ⟨hcall.wf, fun va => ?_⟩
    rw [hcall.walk_eq va, align2MiBUp_eq (by omega), align2MiBDown_eq]
    by_cases hin : (start / 2 ^ 21 ≤ va / 2 ^ 21 ∧ va / 2 ^ 21 ≤ (stop - 1) / 2 ^ 21) ∧
        l2Valid p va = false
    · rw [if_pos hin, if_pos ⟨by omega, hin.2⟩, mappedLeaf_eq _ _ _ (by omega) (by omega)]
      congr 2
      omega
    · rw [if_neg hin, if_neg (fun hc => hin ⟨by omega, hc.2⟩)]
  · omega

/-! ### What a successful call does -/

variable {e : GuestEnv} {g g' : Guest} {length prot va : ℕ} {u : Unit}

lemma ptCall_ok :
    ptCall f g = some (.ok u, g') ↔ ∃ r p', f g = some (r, p') ∧ ¬ r < 0 ∧ g.setPt p' = g' := by
  unfold ptCall
  constructor
  · intro h
    obtain ⟨⟨r, p'⟩, hf, heq⟩ := map_eq_some_iff.mp h
    by_cases hr : r < 0
    · rw [if_pos hr] at heq
      cases heq
    rw [if_neg hr] at heq
    cases heq
    exact ⟨r, p', hf, hr, rfl⟩
  · rintro ⟨r, p', hf, hr, rfl⟩
    rw [hf, map_some, if_neg hr]

/-- The call gets as far as `guest_extend_page_tables`. -/
def MprotectExtends (g : Guest) (addr length prot : ℕ) : Prop :=
  length ≠ 0 ∧ prot ≠ linuxProtNone ∧ addr < g.pt.guestSize ∧
    pageAlignUp length ≤ g.pt.guestSize - addr ∧
    mprotectFastPath g.rt addr (addr + pageAlignUp length) prot = false

instance : Decidable (MprotectExtends g addr length prot) := inferInstanceAs (Decidable (_ ∧ _))

/-- The address is in a 2 MiB block of which the range holds a part. -/
def TouchesBlock (start stop va : ℕ) : Prop :=
  start / 2 ^ 21 ≤ va / 2 ^ 21 ∧ va / 2 ^ 21 ≤ (stop - 1) / 2 ^ 21

instance : Decidable (TouchesBlock start stop va) := inferInstanceAs (Decidable (_ ∧ _))

lemma mprotectRange_ok (h : mprotectRange start stop prot grant g = some (.ok u, g')) :
    mprotectFastPath g.rt start stop prot ∧ g = g' ∨
    mprotectFastPath g.rt start stop prot = false ∧ ∃ g1,
      mprotectTables start stop prot grant g = some (.ok (), g1) ∧ g'.pt = g1.pt := by
  obtain ⟨t, _, h1, h⟩ := bind_ok.mp h
  obtain ⟨rfl, rfl⟩ := read_ok.mp h1
  obtain ⟨_, _, h2, h⟩ := bind_ok.mp h
  obtain ⟨-, rfl⟩ := require_ok.mp h2
  split at h
  · rename_i hfast
    exact .inl ⟨hfast, (ret_ok.mp h).2⟩
  rename_i hfast
  obtain ⟨_, g1, h3, h⟩ := bind_ok.mp h
  refine .inr ⟨Bool.eq_false_iff.mpr hfast, g1, h3, ?_⟩
  rw [← modify_ok.mp h]
  rfl

section
variable (hwf : PtWf g.pt) (hs : start % 4096 = 0) (he : stop % 4096 = 0) (hlt : start < stop)
  (htop : stop < 2 ^ 64) (hva : ¬ (start ≤ va ∧ va < stop))
include hwf hs he hlt htop hva

lemma mprotectHigh_walk (h : mprotectHigh start stop prot g = some (.ok u, g')) :
    ptWalk g'.pt va = ptWalk g.pt va := by
  obtain ⟨_, _, h1, h⟩ := bind_ok.mp h
  obtain ⟨-, rfl⟩ := require_ok.mp h1
  rcases mprotectRange_ok h with ⟨-, rfl⟩ | ⟨-, g1, hg, heq⟩
  · rfl
  rw [heq]
  by_cases hprot : prot ≠ linuxProtNone
  · rw [mprotectTables, if_pos hprot] at hg
    obtain ⟨r, p', hrun, hr, rfl⟩ := ptCall_ok.mp hg
    exact ((update_done hwf hs he hlt htop hrun hr).2 va).trans (if_neg hva)
  rw [mprotectTables, if_neg hprot] at hg
  obtain ⟨r, p', hrun, hr, rfl⟩ := ptCall_ok.mp hg
  exact ((invalidate_done hwf hs he hlt htop hrun hr).2 va).trans (if_neg hva)

/-- In the primary window an absent block that the range touches is mapped as a
whole. -/
lemma mprotectLow_walk (h : mprotectLow e start stop prot g = some (.ok u, g')) : ptWalk g'.pt va =
      if (prot ≠ linuxProtNone ∧ mprotectFastPath g.rt start stop prot = false) ∧
        TouchesBlock start stop va ∧ l2Valid g.pt va = false
      then some (va, (protToPerms prot).norm) else ptWalk g.pt va := by
  obtain ⟨_, _, h1, h⟩ := bind_ok.mp h
  obtain ⟨-, rfl⟩ := require_ok.mp h1
  rcases mprotectRange_ok h with ⟨hfast, rfl⟩ | ⟨hfast, g1, hg, heq⟩
  · rw [if_neg (fun hc => by rw [hfast] at hc; exact absurd hc.1.2 (by decide))]
  rw [heq]
  by_cases hprot : prot ≠ linuxProtNone
  · rw [mprotectTables, if_pos hprot] at hg
    obtain ⟨_, g2, h2, h3⟩ := bind_ok.mp hg
    obtain ⟨r2, p2, hrun2, hr2, rfl⟩ := ptCall_ok.mp h2
    obtain ⟨r1, p1, hrun1, hr1, rfl⟩ := ptCall_ok.mp h3
    obtain ⟨hwf2, hwalk2⟩ := extend_done hwf hlt (some_inj.mp hrun2) hr2
    obtain ⟨-, hwalk1⟩ := update_done hwf2 hs he hlt htop hrun1 hr1
    refine (hwalk1 va).trans ?_
    rw [if_neg hva, hwalk2 va]
    exact if_congr ⟨fun hc => ⟨⟨hprot, hfast⟩, hc⟩, fun hc => hc.2⟩ rfl rfl
  · rw [mprotectTables, if_neg hprot] at hg
    obtain ⟨r, p', hrun, hr, rfl⟩ := ptCall_ok.mp hg
    rw [if_neg (fun hc => hprot hc.1.1)]
    exact ((invalidate_done hwf hs he hlt htop hrun hr).2 va).trans (if_neg hva)

end

/-- The translation of every page outside the range, after a successful call. -/
lemma mprotect_walk (hwf : PtWf g.pt) (h : sysMprotect e addr length prot g = some (.ok u, g'))
    (hva : ¬ (addr ≤ va ∧ va < addr + pageAlignUp length)) : ptWalk g'.pt va =
      if MprotectExtends g addr length prot ∧
        TouchesBlock addr (addr + pageAlignUp length) va ∧ l2Valid g.pt va = false
      then some (va, (protToPerms prot).norm) else ptWalk g.pt va := by
  have hsize := hwf.pool.size_le
  obtain ⟨_, _, h1, h⟩ := bind_ok.mp h
  obtain ⟨haddr, rfl⟩ := require_ok.mp h1
  by_cases hlen : length = 0
  · rw [if_pos hlen] at h
    rw [← (ret_ok.mp h).2, if_neg (fun hc => hc.1.1 hlen)]
  rw [if_neg hlen] at h
  obtain ⟨_, _, h2, h⟩ := bind_ok.mp h
  obtain ⟨hpos, rfl⟩ := require_ok.mp h2
  obtain ⟨_, _, h3, h⟩ := bind_ok.mp h
  obtain ⟨hwrap, rfl⟩ := require_ok.mp h3
  obtain ⟨_, _, h4, h⟩ := bind_ok.mp h
  obtain ⟨rfl, rfl⟩ := read_ok.mp h4
  have hstart : addr % 4096 = 0 := haddr
  have hstop : (addr + pageAlignUp length) % 4096 = 0 := by
    have := pageAlignUp_mod length
    omega
  have hlt : addr < addr + pageAlignUp length := by omega
  have htop : addr + pageAlignUp length < 2 ^ 64 := by
    have : pageAlignUp length < 2 ^ 64 := by
      unfold pageAlignUp alignUp guestPageSize u64
      omega
    omega
  split at h
  · rename_i hmax
    rw [← (ret_ok.mp h).2, if_neg]
    rintro ⟨⟨-, -, hc, -⟩, -⟩
    unfold userVaMax at hmax
    omega
  split at h
  · rw [mprotectHigh_walk hwf hstart hstop hlt htop hva h, if_neg]
    rintro ⟨⟨-, -, hc, -⟩, -⟩
    omega
  rename_i hhigh
  split at h
  · rename_i hin
    rw [mprotectLow_walk hwf hstart hstop hlt htop hva h]
    refine if_congr (and_congr ⟨fun hc => ?_, fun hc => ?_⟩ Iff.rfl) rfl rfl
    · exact ⟨hlen, hc.1, Nat.not_le.mp hhigh, hin, hc.2⟩
    · exact ⟨hc.2.1, hc.2.2.2.2⟩
  rename_i hin
  rw [← (ret_ok.mp h).2, if_neg]
  rintro ⟨⟨-, -, -, hc, -⟩, -⟩
  exact hin hc

/-- The tables need no extension, or every block the range holds only a part of
has its entry. -/
def MprotectConfined (g : Guest) (addr length prot : ℕ) : Prop :=
  MprotectExtends g addr length prot → ∀ va, ¬ (addr ≤ va ∧ va < addr + pageAlignUp length) →
    TouchesBlock addr (addr + pageAlignUp length) va → l2Valid g.pt va = true

/-- A successful `sys_mprotect` leaves the translations outside its range alone
exactly when the tables are there: an absent block at an end of the range comes
to life with the pages beyond the end. -/
theorem mprotect_confined_iff (e : GuestEnv) {g g' : Guest} (hwf : PtWf g.pt)
    {addr length prot : ℕ} (h : sysMprotect e addr length prot g = some (.ok (), g')) :
    (∀ va, ¬ (addr ≤ va ∧ va < addr + pageAlignUp length) →
      ptWalk g'.pt va = ptWalk g.pt va) ↔ MprotectConfined g addr length prot := by
  constructor
  · intro hsame hext va hva htouch
    by_contra hinv
    have hinv : l2Valid g.pt va = false := Bool.eq_false_iff.mpr hinv
    have hwalk := mprotect_walk hwf h hva
    rw [if_pos ⟨hext, htouch, hinv⟩, hsame va hva, walk_of_not_l2Valid hinv] at hwalk
    cases hwalk
  intro hconf va hva
  rw [mprotect_walk hwf h hva, if_neg]
  rintro ⟨hext, htouch, hinv⟩
  rw [hconf hext va hva htouch] at hinv
  cases hinv

/-- Four pages reserved with `PROT_NONE` in a block without an entry. -/
def reserved : Guest := guest64 [anonRegion 0x210000000 0x210004000 linuxProtNone]

/-- Making the first of them readable and writable maps the second too, and the
rest of the block. -/
theorem mprotect_maps_neighbour : PtWf reserved.pt ∧ ptWalk reserved.pt 0x210001000 = none ∧
    ((sysMprotect env64 0x210000000 0x1000 3 reserved).map fun res =>
      (res.1.isOk, ptWalk res.2.pt 0x210001000, ptWalk res.2.pt 0x210004000))
      = some (true, some (0x210001000, Perms.rw), some (0x210004000, Perms.rw)) :=
  ⟨root64_wf, by decide +kernel, by decide +kernel⟩

/-- The reservation whole: the four pages are no block either, so the call is not confined. -/
theorem mprotect_confined_iff_reserved : ∃ g', sysMprotect env64 0x210000000 0x4000 3 reserved
      = some (.ok (), g') ∧
    ¬ MprotectConfined reserved 0x210000000 0x4000 3 ∧
    ¬ ∀ va, ¬ (0x210000000 ≤ va ∧ va < 0x210000000 + pageAlignUp 0x4000) →
      ptWalk g'.pt va = ptWalk reserved.pt va := by
  obtain ⟨⟨res, g'⟩, hrun⟩ := isSome_iff_exists.mp
    (by decide +kernel : (sysMprotect env64 0x210000000 0x4000 3 reserved).isSome = true)
  have hok : ((sysMprotect env64 0x210000000 0x4000 3 reserved).elim false fun r => r.1.isOk)
      = true := by decide +kernel
  have hnot : ¬ MprotectConfined reserved 0x210000000 0x4000 3 := by
    intro hconf
    have hvalid := hconf (by decide +kernel) 0x210004000 (by decide) (by decide)
    exact absurd hvalid (by decide +kernel)
  rw [hrun] at hok
  cases res with
  | error e => cases hok
  | ok u =>
    exact ⟨g', hrun, hnot, mt (mprotect_confined_iff env64 root64_wf hrun).mp hnot⟩

end Elfuse
