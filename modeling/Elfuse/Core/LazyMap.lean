/-
Lazy materialization of `MAP_NORESERVE` memory.

A fault in a lazily mapped region makes `guest_materialize_lazy` map the 2 MiB
block around it, as far as it belongs to the region, and clear its bytes. The
decision to do so rests on the region's `noreserve` flag, which is never
cleared, and the faults of several vCPUs are served one after the other. The
system here has one vCPU per number; each takes a fault, serves it, or stores a
byte through the page tables.

* `lazy_store_kept` — in every run in which a block is materialized only while
  nothing of it is mapped, a stored byte stays until the next store to it;
* `materialize_grants_iff` — what a call maps lies in the region, with the rights
  of the region where that may be read;
* `late_fault_clears_store` — two faults taken on one block: serving the second
  clears what was stored after serving the first.
-/
import Elfuse.Core.PageTableBuild
import Elfuse.Core.RegionOrder

namespace Elfuse

open Bool Nat Option Prod

/-! ### Materialization -/

abbrev Bytes := ℕ → ℕ

def memset (mem : Bytes) (lo hi b : ℕ) : Bytes := fun a => if lo ≤ a ∧ a < hi then b else mem a

/-- The permissions of a materialized page: those of the region, at least readable. -/
def lazyPerms (prot : ℕ) : Perms :=
  let perms : Perms := ⟨hasFlag prot linuxProtRead, hasFlag prot linuxProtWrite,
    hasFlag prot linuxProtExec, false⟩
  if perms = ⟨false, false, false, false⟩ then ⟨true, false, false, false⟩ else perms

structure LazyWindow where
  blockStart : ℕ
  blockEnd : ℕ
  start : ℕ
  stop : ℕ
  partialBlock : Bool

def lazyWindow (guestSize : ℕ) (r : GuestRegion) (faultOffset : ℕ) : LazyWindow :=
  let blockStart := align2MiBDown faultOffset
  let blockEnd := u64 (blockStart + block2MiB)
  let blockEnd := if guestSize < blockEnd then guestSize else blockEnd
  { blockStart := blockStart
    blockEnd := blockEnd
    start := if r.start < blockStart then blockStart else r.start
    stop := if blockEnd < r.stop then blockEnd else r.stop
    partialBlock := decide (blockStart < r.start) || decide (r.stop < blockEnd) }

/-- Leave of a block just mapped as a whole only the window; a block that had an
entry before keeps its pages. -/
def lazyCarve (w : LazyWindow) (hadMapping : Bool) (p : PageTables) : Option (Bool × PageTables) :=
  andThen (callOk (some (guestSplitBlock p w.blockStart))) fun p =>
    if hadMapping then some (true, p)
    else
      andThen (if w.blockStart < w.start then
          callOk (guestInvalidatePtes p w.blockStart w.start) else some (true, p)) fun p =>
        if w.stop < w.blockEnd then callOk (guestInvalidatePtes p w.stop w.blockEnd)
        else some (true, p)

/-- The part of `guest_materialize_lazy` that can fail. -/
def lazyTables (w : LazyWindow) (perms : Perms) (p : PageTables) : Option (Bool × PageTables) :=
  andThen (callOk (some (guestExtendPageTables p w.blockStart w.blockEnd perms))) fun p' =>
    if w.partialBlock then lazyCarve w (l2Valid p w.blockStart) p' else some (true, p')

/-- Model of `guest_materialize_lazy`. The result of `guest_update_perms` is not
looked at. -/
def guestMaterializeLazy (rs : List GuestRegion) (p : PageTables) (mem : Bytes)
    (faultOffset : ℕ) : Option (ℤ × PageTables × Bytes) :=
  match guestRegionFind rs faultOffset with
  | none => some (-1, p, mem)
  | some r =>
    if !r.noreserve then some (-1, p, mem)
    else
      let w := lazyWindow p.guestSize r faultOffset
      let perms := lazyPerms r.prot
      (lazyTables w perms p).bind fun res =>
        if !res.1 then some (-1, res.2, mem)
        else (guestUpdatePerms rs res.2 w.start w.stop perms).map fun u =>
          (0, u.2, if w.start < w.stop then memset mem w.start w.stop 0 else mem)

/-! ### What one call does -/

variable {rs : List GuestRegion} {p p' q : PageTables} {K : ℕ → Prop} {va off : ℕ} {perms : Perms}
  {r : GuestRegion} {res : Option (ℤ × PageTables)} {ret : ℤ}

def InLazy (rs : List GuestRegion) (va : ℕ) : Prop :=
  ∃ r ∈ rs, r.noreserve = true ∧ r.start ≤ va ∧ va < r.stop

/-- Lazily mapped regions are page aligned and backed by their own addresses. -/
structure LazyRegions (rs : List GuestRegion) : Prop where
  ordered : RegionsOrdered rs
  aligned : ∀ r ∈ rs, r.noreserve = true → r.start % 4096 = 0 ∧ r.stop % 4096 = 0
  identity : ∀ r ∈ rs, r.noreserve = true → r.gpaBase = r.start

def LazyIdentity (rs : List GuestRegion) (p : PageTables) : Prop :=
  ∀ va, InLazy rs va → ∀ a perms, ptWalk p va = some (a, perms) → a = va

/-- An edit that keeps the tables well formed, lazy memory mapped to itself, and
the translations of the addresses in `K`. -/
structure LazyEdit (rs : List GuestRegion) (K : ℕ → Prop) (p p' : PageTables) : Prop where
  wf : PtWf p'
  size : p'.guestSize = p.guestSize
  kept : ∀ va, K va → ptWalk p va ≠ none → ptWalk p' va = ptWalk p va
  identity : LazyIdentity rs p → LazyIdentity rs p'

lemma LazyEdit.refl (h : PtWf p) : LazyEdit rs K p p := ⟨h, rfl, fun _ _ _ => rfl, id⟩

lemma LazyEdit.trans (h : LazyEdit rs K p p') (h' : LazyEdit rs K p' q) : LazyEdit rs K p q := by
  refine ⟨h'.wf, h'.size.trans h.size, fun va hK hv => ?_, fun hid => h'.identity (h.identity hid)⟩
  have hone := h.kept va hK hv
  rw [h'.kept va hK (hone ▸ hv), hone]

lemma Touched.guestSize (h : Touched p p') : p'.guestSize = p.guestSize := by
  rw [h]

def EditsLazily (rs : List GuestRegion) (K : ℕ → Prop) (p : PageTables)
    (res : Option (Bool × PageTables)) : Prop :=
  ∀ ok p', res = some (ok, p') → LazyEdit rs K p p'

lemma EditsLazily.done (h : PtWf p) (ok : Bool) : EditsLazily rs K p (some (ok, p)) := by
  intro ok' p' hres
  obtain ⟨-, rfl⟩ := mk.inj (some_inj.mp hres)
  exact LazyEdit.refl h

lemma EditsLazily.andThen {res : Option (Bool × PageTables)}
    {k : PageTables → Option (Bool × PageTables)} (h : EditsLazily rs K p res)
    (hk : ∀ q, LazyEdit rs K p q → EditsLazily rs K q (k q)) :
    EditsLazily rs K p (andThen res k) := by
  intro ok p' hres
  obtain ⟨⟨ok1, p1⟩, hres1, hnext⟩ := bind_eq_some_iff.mp hres
  have hone := h ok1 p1 hres1
  cases ok1 with
  | false =>
    obtain ⟨-, rfl⟩ := mk.inj (some_inj.mp hnext)
    exact hone
  | true => exact hone.trans (hk p1 hone ok p' hnext)

lemma editsLazily_call (h : ∀ r p', res = some (r, p') → LazyEdit rs K p p') :
    EditsLazily rs K p (callOk res) := by
  intro ok p' hres
  obtain ⟨⟨ret, p1⟩, hres1, heq⟩ := map_eq_some_iff.mp hres
  obtain ⟨-, rfl⟩ := mk.inj heq
  exact h ret _ hres1

lemma extend_lazyEdit (h : PtWf p) (lo hi : ℕ) (perms : Perms) :
    LazyEdit rs K p (guestExtendPageTables p lo hi perms).2 := by
  rcases extend_call h lo hi perms with hfail | ⟨-, -, e, hcall, -⟩
  · rw [hfail]
    exact LazyEdit.refl h
  refine ⟨hcall.wf, hcall.frame.guestSize, fun va _ hv => ?_, fun hid va hva a perms' hwalk => ?_⟩
  · rw [hcall.walk_eq va, if_neg]
    rintro ⟨-, hinv⟩
    exact hv (walk_of_not_l2Valid hinv)
  have hlt : va < 2 ^ 48 := by
    by_contra hge
    rw [ptWalk_eq hcall.wf, if_neg hge] at hwalk
    cases hwalk
  rw [hcall.walk_eq va] at hwalk
  by_cases hin : (align2MiBDown lo ≤ va ∧ va < e) ∧ l2Valid p va = false
  · have hal : align2MiBDown lo % 2 ^ 21 = 0 := by
      rw [align2MiBDown_eq]
      omega
    rw [if_pos hin, mappedLeaf_eq _ _ _ hal (by omega)] at hwalk
    obtain ⟨rfl, -⟩ := mk.inj (some_inj.mp hwalk)
    omega
  · rw [if_neg hin] at hwalk
    exact hid va hva a perms' hwalk

lemma split_lazyEdit (h : PtWf p) (blk : ℕ) : LazyEdit rs K p (guestSplitBlock p blk).2 := by
  obtain ⟨h1, h2, h3⟩ := guestSplitBlock_walk h blk
  refine ⟨h1, h2.edited.touched.guestSize, fun va _ _ => h3 va, fun hid va hva a perms' hw => ?_⟩
  rw [h3 va] at hw
  exact hid va hva a perms' hw

lemma invalidate_lazyEdit (h : PtWf p) (hr : PageRange lo hi)
    (hK : ∀ va, K va → ¬ (lo ≤ va ∧ va < hi))
        (hres : guestInvalidatePtes p lo hi = some (ret, p')) :
    LazyEdit rs K p p' := by
  obtain ⟨res, a, heq, hcall⟩ := invalidate_call hr h
  obtain rfl := some_inj.mp (heq.symm.trans hres)
  have hle := hcall.le
  refine ⟨hcall.wf, hcall.frame.guestSize, fun va hva _ => ?_, fun hid va hva b perms' hw => ?_⟩
  · have := hK va hva
    exact (hcall.walk va).trans (if_neg (by omega))
  have hwalk := hcall.walk va
  rw [hw] at hwalk
  split at hwalk
  · cases hwalk
  · exact hid va hva b perms' hwalk.symm

lemma recoveredIpa_lazy (hrs : LazyRegions rs) (hva : InLazy rs va) (hlt : va < 2 ^ 48) :
    pageAddr (recoveredIpa rs (va / 4096 * 4096)) + va % 4096 = va := by
  obtain ⟨r, hr, hno, h1, h2⟩ := hva
  obtain ⟨hal, -⟩ := hrs.aligned r hr hno
  have hfind : guestRegionFind rs (va / 4096 * 4096) = some r :=
    (guestRegionFind_eq_some_iff hrs.ordered).mpr ⟨hr, by omega, by omega⟩
  have hback : r.gpaBase + (va / 4096 * 4096 - r.start) = va / 4096 * 4096 := by
    rw [hrs.identity r hr hno]
    omega
  rw [recoveredIpa, hfind]
  dsimp only
  rw [hback, u64, mod_eq_of_lt (by omega), alignDown_page (by omega),
    pageAddr_of_aligned (by omega) (by omega)]
  omega

lemma update_lazyEdit (hrs : LazyRegions rs) (h : PtWf p) (hr : PageRange lo hi)
    (hK : ∀ va, K va → ¬ (lo ≤ va ∧ va < hi))
    (hres : guestUpdatePerms rs p lo hi perms = some (ret, p')) : LazyEdit rs K p p' := by
  rcases update_call rs perms hr h with ⟨-, heq⟩ | ⟨res, a, heq, hcall⟩
  · obtain ⟨-, rfl⟩ := mk.inj (some_inj.mp (heq.symm.trans hres))
    refine ⟨h.markIcacheIf perms.x, (touched_markIcacheIf p perms.x).guestSize, fun va _ _ => ?_,
      fun hid va hva b perms' hw => ?_⟩
    · exact walk_markIcacheIf p perms.x va
    · rw [walk_markIcacheIf] at hw
      exact hid va hva b perms' hw
  obtain rfl := some_inj.mp (heq.symm.trans hres)
  have hle := hcall.le
  refine ⟨hcall.wf, hcall.frame.guestSize, fun va hva _ => ?_, fun hid va hva b perms' hw => ?_⟩
  · have := hK va hva
    exact (hcall.walk va).trans (if_neg (by omega))
  have hlt : va < 2 ^ 48 := by
    by_contra hge
    have hnone : ptWalk p' va = none := by rw [ptWalk_eq hcall.wf, if_neg hge]
    rw [hnone] at hw
    cases hw
  have hwalk := hcall.walk va
  rw [hw] at hwalk
  split at hwalk
  · unfold updatedLeaf at hwalk
    split at hwalk
    · obtain ⟨hb, -⟩ := mk.inj (some_inj.mp hwalk)
      cases hold : ptWalk p va with
      | none =>
        rw [hold] at hb
        exact hb.trans (recoveredIpa_lazy hrs hva hlt)
      | some x =>
        rw [hold] at hb
        exact hb.trans (hid va hva x.1 x.2 hold)
    · cases hwalk
  · exact hid va hva b perms' hwalk.symm

/-- The address belongs to the part of the block that a fault at `off` makes be
materialized. -/
def LazyTarget (rs : List GuestRegion) (guestSize off va : ℕ) : Prop :=
  ∃ r, guestRegionFind rs off = some r ∧ r.noreserve = true ∧
    (lazyWindow guestSize r off).start ≤ va ∧ va < (lazyWindow guestSize r off).stop

lemma lazyWindow_bounds (hsize : guestSize % 2 ^ 21 = 0)
    (hmax : guestSize ≤ 2 ^ 48) (hlt : align2MiBDown off < guestSize) (hr : r.start ≤ off)
    (hr' : off < r.stop) :
    let w := lazyWindow guestSize r off
    w.blockStart = off / 2 ^ 21 * 2 ^ 21 ∧ w.blockEnd = off / 2 ^ 21 * 2 ^ 21 + 2 ^ 21 ∧
    w.start = max r.start (off / 2 ^ 21 * 2 ^ 21) ∧
    w.stop = min r.stop (off / 2 ^ 21 * 2 ^ 21 + 2 ^ 21) ∧ w.start < w.stop := by
  rw [align2MiBDown_eq] at hlt
  obtain ⟨m, hm⟩ : ∃ m, off / 2 ^ 21 * 2 ^ 21 = m := ⟨_, rfl⟩
  have hfit : m + 2097152 ≤ guestSize := by omega
  have hsum : u64 (m + block2MiB) = m + 2097152 := mod_eq_of_lt (by
    unfold block2MiB
    omega)
  have hend : (if guestSize < u64 (m + block2MiB) then guestSize else u64 (m + block2MiB))
      = m + 2097152 := by
    rw [hsum]
    exact if_neg (not_lt.mpr hfit)
  unfold lazyWindow
  dsimp only
  rw [align2MiBDown_eq, hm, hend]
  refine ⟨rfl, rfl, ?_, ?_, ?_⟩
  · split <;> omega
  · split <;> omega
  · split <;> split <;> omega

lemma lazyTables_refused (hge : p.guestSize ≤ align2MiBDown off) (perms : Perms) :
    lazyTables (lazyWindow p.guestSize r off) perms p = some (false, p) := by
  have hfail : guestExtendPageTables p (lazyWindow p.guestSize r off).blockStart
      (lazyWindow p.guestSize r off).blockEnd perms = (-1, p) := by
    rw [guestExtendPageTables, if_pos]
    exact Or.inl hge
  unfold lazyTables
  rw [hfail]
  rfl

/-- The tables of a materialization: outside the window nothing that translates
changes, and new translations are to the address itself. -/
lemma lazyTables_edits (hrs : LazyRegions rs) (h : PtWf p) (hsize : p.guestSize % 2 ^ 21 = 0)
    (hr : r ∈ rs) (hno : r.noreserve) (hin : r.start ≤ off ∧ off < r.stop) (perms : Perms) :
    EditsLazily rs (fun va => ¬ ((lazyWindow p.guestSize r off).start ≤ va ∧
        va < (lazyWindow p.guestSize r off).stop) ∧
      (l2Valid p (lazyWindow p.guestSize r off).blockStart = false → va / 2 ^ 21 ≠ off / 2 ^ 21))
      p (lazyTables (lazyWindow p.guestSize r off) perms p) := by
  have hmax := h.pool.size_le
  obtain ⟨hal, hal'⟩ := hrs.aligned r hr hno
  by_cases hlt : align2MiBDown off < p.guestSize
  · obtain ⟨hw1, hw2, hw3, hw4, hw5⟩ := lazyWindow_bounds hsize hmax hlt hin.1 hin.2
    rw [align2MiBDown_eq] at hlt
    generalize lazyWindow p.guestSize r off = w at hw1 hw2 hw3 hw4 hw5 ⊢
    refine EditsLazily.andThen (editsLazily_call fun ret p' hres => ?_) fun q hq => ?_
    · obtain rfl := congrArg snd (some_inj.mp hres)
      exact extend_lazyEdit h _ _ _
    split
    · refine EditsLazily.andThen (editsLazily_call fun ret p' hres => ?_) fun q1 hq1 => ?_
      · obtain rfl := congrArg snd (some_inj.mp hres)
        exact split_lazyEdit hq.wf _
      split
      · exact EditsLazily.done hq1.wf true
      rename_i hhad
      rw [not_eq_true] at hhad
      -- the block had no entry, so nothing in it is to be kept
      refine EditsLazily.andThen ?_ fun q2 hq2 => ?_
      · split
        · rename_i hhead
          refine editsLazily_call fun ret p' hres => invalidate_lazyEdit hq1.wf
            ⟨by omega, by omega, hhead, by omega⟩ (fun va hK => ?_) hres
          have := hK.2 hhad
          omega
        · exact EditsLazily.done hq1.wf true
      split
      · rename_i htail
        refine editsLazily_call fun ret p' hres => invalidate_lazyEdit hq2.wf
          ⟨by omega, by omega, htail, by omega⟩ (fun va hK => ?_) hres
        have := hK.2 hhad
        omega
      · exact EditsLazily.done hq2.wf true
    · exact EditsLazily.done hq.wf true
  · rw [lazyTables_refused (not_lt.mp hlt)]
    exact EditsLazily.done h false

lemma materialize_spec (hrs : LazyRegions rs) (h : PtWf p) (hsize : p.guestSize % 2 ^ 21 = 0)
    (hres : guestMaterializeLazy rs p mem off = some (ret, p', mem')) :
    LazyEdit rs (fun va => ¬ LazyTarget rs p.guestSize off va) p p' ∧
    ∀ a, mem' a ≠ mem a → LazyTarget rs p.guestSize off a := by
  have hself : LazyEdit rs (fun va => ¬ LazyTarget rs p.guestSize off va) p p ∧
      ∀ a, mem a ≠ mem a → LazyTarget rs p.guestSize off a :=
    ⟨LazyEdit.refl h, fun a hne => absurd rfl hne⟩
  unfold guestMaterializeLazy at hres
  cases hfind : guestRegionFind rs off with
  | none =>
    rw [hfind] at hres
    cases hres
    exact hself
  | some r =>
    rw [hfind] at hres
    dsimp only at hres
    set w := lazyWindow p.guestSize r off
    by_cases hno : r.noreserve
    · rw [hno] at hres
      obtain ⟨hr, hin⟩ := (guestRegionFind_eq_some_iff hrs.ordered).mp hfind
      have hedits := lazyTables_edits hrs h hsize hr hno hin (lazyPerms r.prot)
      obtain ⟨⟨ok, q⟩, htab, hrest⟩ := bind_eq_some_iff.mp hres
      have hq := hedits ok q htab
      -- what translates is not in a block without an entry
      have hweaken : ∀ {q'}, LazyEdit rs (fun va => ¬ (w.start ≤ va ∧ va < w.stop) ∧
          (l2Valid p w.blockStart = false → va / 2 ^ 21 ≠ off / 2 ^ 21)) p q' →
          LazyEdit rs (fun va => ¬ LazyTarget rs p.guestSize off va) p q' := by
        intro q' hq'
        refine ⟨hq'.wf, hq'.size, fun va hK hv =>
            hq'.kept va ⟨fun hc => ?_, fun hinv hblk => ?_⟩ hv,
          hq'.identity⟩
        · exact hK ⟨r, hfind, hno, hc⟩
        have hvalid : l2Valid p va = l2Valid p (align2MiBDown off) := by
          refine l2Valid_block h ?_
          rw [align2MiBDown_eq]
          omega
        exact hv (walk_of_not_l2Valid (hvalid.trans hinv))
      cases ok with
      | false =>
        obtain ⟨-, h2⟩ := mk.inj (some_inj.mp hrest)
        obtain ⟨rfl, rfl⟩ := mk.inj h2
        exact ⟨hweaken hq, fun a hne => absurd rfl hne⟩
      | true =>
        obtain ⟨⟨ret', u⟩, hupd, heq⟩ := map_eq_some_iff.mp hrest
        obtain ⟨-, h2⟩ := mk.inj heq
        obtain ⟨rfl, rfl⟩ := mk.inj h2
        have hmem : ∀ a, (if w.start < w.stop then memset mem w.start w.stop 0 else mem) a ≠ mem a →
            LazyTarget rs p.guestSize off a := by
          intro a hne
          split at hne
          · by_contra hout
            refine hne (if_neg fun hc => hout ⟨r, hfind, hno, hc⟩)
          · exact absurd rfl hne
        refine ⟨hweaken (hq.trans ?_), hmem⟩
        have hlt : align2MiBDown off < p.guestSize := by
          by_contra hge
          rw [lazyTables_refused (not_lt.mp hge)] at htab
          cases htab
        obtain ⟨hal, hal'⟩ := hrs.aligned r hr hno
        obtain ⟨-, -, hw3, hw4, hw5⟩ := lazyWindow_bounds hsize h.pool.size_le hlt hin.1 hin.2
        have hmax := h.pool.size_le
        rw [align2MiBDown_eq] at hlt
        exact update_lazyEdit hrs hq.wf ⟨by omega, by omega, hw5, by omega⟩ (fun va hK => hK.1) hupd
    · rw [not_eq_true] at hno
      rw [hno] at hres
      cases hres
      exact hself

/-! ### The rights of materialized pages -/

/-- What a translation lets user code do is among what `prot` allows. -/
def UserWithin (prot : ℕ) (t : Option (ℕ × Perms)) : Prop :=
  ∀ a perms, t = some (a, perms) → perms.el1Only = false →
    (perms.r = true → hasFlag prot linuxProtRead = true) ∧
    (perms.w = true → hasFlag prot linuxProtWrite = true) ∧
    (perms.x = true → hasFlag prot linuxProtExec = true)

lemma userWithin_lazyPerms (prot a : ℕ) :
    UserWithin prot (some (a, (lazyPerms prot).norm)) ↔ hasFlag prot linuxProtRead := by
  unfold UserWithin lazyPerms
  cases hasFlag prot linuxProtRead <;> cases hasFlag prot linuxProtWrite <;>
    cases hasFlag prot linuxProtExec <;> simp [Perms.norm]

structure Regrants (S : ℕ → Prop) (perms : Perms) (p p' : PageTables) : Prop where
  wf : PtWf p'
  kept : ∀ va, ¬ S va → ptWalk p' va = ptWalk p va
  rights : ∀ va, ptWalk p' va = ptWalk p va ∨ ∃ a, ptWalk p' va = some (a, perms.norm)

lemma Regrants.trans (h : Regrants S perms p p') (h' : Regrants S perms p' q) :
    Regrants S perms p q := by
  refine ⟨h'.wf, fun va hva => (h'.kept va hva).trans (h.kept va hva), fun va => ?_⟩
  rcases h'.rights va with heq | hnew
  · rw [heq]
    exact h.rights va
  · exact .inr hnew

lemma callOk_true (h : callOk res = some (true, q)) : ∃ ret : ℤ, 0 ≤ ret ∧ res = some (ret, q) := by
  obtain ⟨⟨ret, q'⟩, hres, heq⟩ := map_eq_some_iff.mp h
  obtain ⟨hret, rfl⟩ := mk.inj heq
  exact ⟨ret, by simpa using hret, hres⟩

/-- The block is mapped where it was not, and nothing else changes. -/
lemma extend_regrants (h : PtWf p) (hal : blk % 2 ^ 21 = 0) (hblk : blk < 2 ^ 48)
    (hok : callOk (some (guestExtendPageTables p blk (blk + 2 ^ 21) perms)) = some (true, q)) :
    Regrants (fun va => va / 2 ^ 21 = blk / 2 ^ 21 ∧ l2Valid p blk = false) perms p q := by
  obtain ⟨ret, hret, hext⟩ := callOk_true hok
  rw [some_inj] at hext
  rcases extend_call h blk (blk + 2 ^ 21) perms with hfail | ⟨-, -, e, hcall, he⟩
  · rw [hfail] at hext
    cases hext
    omega
  rw [hext] at hcall
  have hlo : align2MiBDown blk = blk := by
    rw [align2MiBDown_eq]
    omega
  have hup : align2MiBUp (blk + 2 ^ 21) = blk + 2 ^ 21 := by
    rw [align2MiBUp_eq (by omega)]
    omega
  rw [hlo, hup] at hcall he
  have hin : ∀ va, (blk ≤ va ∧ va < e) ∧ l2Valid p va = false →
      va / 2 ^ 21 = blk / 2 ^ 21 ∧ l2Valid p blk = false := by
    rintro va ⟨hva, hinv⟩
    have hsame : va / 2 ^ 21 = blk / 2 ^ 21 := by omega
    exact ⟨hsame, (l2Valid_block h hsame).symm.trans hinv⟩
  refine ⟨hcall.wf, fun va hva => ?_, fun va => ?_⟩
  · rw [hcall.walk_eq va, if_neg fun hc => hva (hin va hc)]
  rw [hcall.walk_eq va]
  split
  · exact .inr ⟨_, rfl⟩
  · exact .inl rfl

lemma callOk_invalidate (h : PtWf p) (hr : PageRange lo hi)
    (hok : callOk (guestInvalidatePtes p lo hi) = some (true, q)) :
    PtWf q ∧ ∀ va, ptWalk q va = if lo ≤ va ∧ va < hi then none else ptWalk p va := by
  obtain ⟨ret, hret, hinv⟩ := callOk_true hok
  obtain ⟨res, a, heq, hcall⟩ := invalidate_call hr h
  obtain rfl := some_inj.mp (heq.symm.trans hinv)
  obtain ⟨-, rfl, -⟩ | ⟨hneg, -⟩ := hcall.ret
  · exact ⟨hcall.wf, hcall.walk⟩
  · omega

lemma update_regrants (h : PtWf p) (hr : PageRange lo hi)
    (hres : guestUpdatePerms rs p lo hi perms = some (ret, p')) :
    Regrants (fun va => lo ≤ va ∧ va < hi) perms p p' := by
  rcases update_call rs perms hr h with ⟨-, heq⟩ | ⟨res, a, heq, hcall⟩
  · obtain ⟨-, rfl⟩ := mk.inj (some_inj.mp (heq.symm.trans hres))
    refine ⟨h.markIcacheIf perms.x, fun va _ => ?_, fun va => .inl ?_⟩
    all_goals exact walk_markIcacheIf p perms.x va
  obtain rfl := some_inj.mp (heq.symm.trans hres)
  have hle := hcall.le
  have hwalk : ∀ va, ptWalk p' va = _ := hcall.walk
  refine ⟨hcall.wf, fun va hva => (hwalk va).trans (if_neg (by omega)), fun va => ?_⟩
  rw [hwalk va]
  split
  · cases hvalid : l2Valid p va with
    | true => exact .inr ⟨_, rfl⟩
    | false => exact .inl (walk_of_not_l2Valid hvalid).symm
  · exact .inl rfl

/-- The tables of a materialization that succeeds: only the window changes. -/
lemma lazyTables_regrants (h : PtWf p) (hsize : p.guestSize % 2 ^ 21 = 0)
    (hal : r.start % 4096 = 0 ∧ r.stop % 4096 = 0) (hin : r.start ≤ off ∧ off < r.stop)
    (hok : lazyTables (lazyWindow p.guestSize r off) perms p = some (true, q)) :
    Regrants (fun va => (lazyWindow p.guestSize r off).start ≤ va ∧
      va < (lazyWindow p.guestSize r off).stop) perms p q := by
  have hmax := h.pool.size_le
  have hlt : align2MiBDown off < p.guestSize := by
    by_contra hge
    rw [lazyTables_refused (not_lt.mp hge)] at hok
    cases hok
  have hpart : (lazyWindow p.guestSize r off).partialBlock =
      (decide ((lazyWindow p.guestSize r off).blockStart < r.start) ||
        decide (r.stop < (lazyWindow p.guestSize r off).blockEnd)) := by
    rw [lazyWindow]
  obtain ⟨hw1, hw2, hw3, hw4, hw5⟩ := lazyWindow_bounds hsize hmax hlt hin.1 hin.2
  rw [align2MiBDown_eq] at hlt
  generalize lazyWindow p.guestSize r off = w at hw1 hw2 hw3 hw4 hw5 hpart hok ⊢
  obtain ⟨p1, hext, hok⟩ := andThen_true hok
  rw [hw2, hw1] at hext
  have h1 := extend_regrants h (by omega) (by omega) hext
  rw [hpart] at hok
  split at hok
  · obtain ⟨p2, hsplit, hok⟩ := andThen_true hok
    obtain ⟨ret, -, hsplit⟩ := callOk_true hsplit
    obtain ⟨hwf2, -, hwalk2⟩ := guestSplitBlock_walk h1.wf w.blockStart
    rw [some_inj.mp hsplit] at hwf2 hwalk2
    rw [hw1] at hok
    split at hok
    · -- the block had an entry, and `guest_extend_page_tables` skipped it
      rename_i hhad
      have hkept : ∀ va, ptWalk p2 va = ptWalk p va := by
        intro va
        rw [hwalk2]
        exact h1.kept va fun hc => false_ne_true (hc.2.symm.trans hhad)
      cases hok
      exact ⟨hwf2, fun va _ => hkept va, fun va => .inl (hkept va)⟩
    rename_i hhad
    obtain ⟨p3, hhead, htail⟩ := andThen_true hok
    -- what the block got outside the window is taken away again
    have h3 : PtWf p3 ∧ ∀ va, ptWalk p3 va =
        if off / 2 ^ 21 * 2 ^ 21 ≤ va ∧ va < w.start then none else ptWalk p1 va := by
      split at hhead
      · have h3 := callOk_invalidate hwf2 ⟨by omega, by omega, by omega, by omega⟩ hhead
        simpa only [hwalk2] using h3
      cases hhead
      refine ⟨hwf2, fun va => ?_⟩
      rw [hwalk2, if_neg (by omega)]
    have h4 : PtWf q ∧ ∀ va, ptWalk q va =
        if w.stop ≤ va ∧ va < w.blockEnd then none else ptWalk p3 va := by
      split at htail
      · exact callOk_invalidate h3.1 ⟨by omega, by omega, by omega, by omega⟩ htail
      · cases htail
        exact ⟨h3.1, fun va => (if_neg (by omega)).symm⟩
    have hnone : ∀ va, va / 2 ^ 21 = off / 2 ^ 21 → ptWalk p va = none := by
      intro va hva
      refine walk_of_not_l2Valid ((l2Valid_block h ?_).trans (eq_false_of_not_eq_true hhad))
      omega
    refine ⟨h4.1, fun va hva => ?_, fun va => ?_⟩
    · rw [h4.2, h3.2]
      split
      · exact (hnone va (by omega)).symm
      split
      · exact (hnone va (by omega)).symm
      · exact h1.kept va fun hc => by omega
    rw [h4.2, h3.2]
    split
    · exact .inl (hnone va (by omega)).symm
    split
    · exact .inl (hnone va (by omega)).symm
    · exact h1.rights va
  · rename_i hwhole
    cases hok
    refine ⟨h1.wf, fun va hva => h1.kept va fun hc => hva ?_, h1.rights⟩
    simp at hwhole
    omega

/-- A call that succeeds changes only the window of the fault. -/
lemma materialize_regrants (hrs : RegionsOrdered rs)
    (hal : ∀ r ∈ rs, r.noreserve → r.start % 4096 = 0 ∧ r.stop % 4096 = 0)
    (h : PtWf p) (hsize : p.guestSize % 2 ^ 21 = 0)
    (hres : guestMaterializeLazy rs p mem off = some (0, p', mem')) :
    ∃ r, guestRegionFind rs off = some r ∧ r.noreserve ∧
      Regrants (fun va => (r.start ≤ va ∧ va < r.stop) ∧ va / 2 ^ 21 = off / 2 ^ 21)
        (lazyPerms r.prot) p p' := by
  unfold guestMaterializeLazy at hres
  split at hres
  · cases hres
  rename_i r hfind
  split at hres
  · cases hres
  rename_i hno
  replace hno : r.noreserve := by simpa using hno
  obtain ⟨hr, hin⟩ := (guestRegionFind_eq_some_iff hrs).mp hfind
  obtain ⟨⟨ok, q⟩, htab, hrest⟩ := bind_eq_some_iff.mp hres
  cases ok with
  | false => cases hrest
  | true =>
    obtain ⟨⟨ret, u⟩, hupd, heq⟩ := map_eq_some_iff.mp hrest
    cases heq
    have hlt : align2MiBDown off < p.guestSize := by
      by_contra hge
      rw [lazyTables_refused (not_lt.mp hge)] at htab
      cases htab
    have hmax := h.pool.size_le
    have hal := hal r hr hno
    have hq := lazyTables_regrants h hsize hal hin htab
    obtain ⟨-, -, hw3, hw4, hw5⟩ := lazyWindow_bounds hsize hmax hlt hin.1 hin.2
    rw [align2MiBDown_eq] at hlt
    have hall := hq.trans (update_regrants hq.wf ⟨by omega, by omega, hw5, by omega⟩ hupd)
    exact ⟨r, hfind, hno, hall.wf, fun va hva => hall.kept va fun hw => hva (by omega), hall.rights⟩

/-- A call that succeeds: each translation that it changes is one of the region around the fault,
and lets user code do only what the region allows exactly when the region may be read. -/
theorem materialize_grants_iff {mem mem' : Bytes} {off : ℕ} (hrs : RegionsOrdered rs)
    (hal : ∀ r ∈ rs, r.noreserve → r.start % 4096 = 0 ∧ r.stop % 4096 = 0)
    (h : PtWf p) (hsize : p.guestSize % 2 ^ 21 = 0)
    (hres : guestMaterializeLazy rs p mem off = some (0, p', mem')) :
    ∃ r, guestRegionFind rs off = some r ∧ r.noreserve ∧
      ∀ va, ptWalk p' va ≠ ptWalk p va → (r.start ≤ va ∧ va < r.stop) ∧
        (UserWithin r.prot (ptWalk p' va) ↔ hasFlag r.prot linuxProtRead) := by
  obtain ⟨r, hfind, hno, hall⟩ := materialize_regrants hrs hal h hsize hres
  refine ⟨r, hfind, hno, fun va hne => ⟨?_, ?_⟩⟩
  · by_contra hout
    exact hne (hall.kept va fun hin => hout hin.1)
  obtain ⟨a, ha⟩ := (hall.rights va).resolve_left hne
  rw [ha]
  exact userWithin_lazyPerms r.prot a

/-! ### Faults and stores of several vCPUs -/

/-- The shared tables and bytes, and the fault each vCPU has taken and not yet
served. -/
structure LazySys where
  pt : PageTables
  mem : Bytes
  pending : ℕ → Option ℕ

inductive LazyOp
  | fault (cpu va : ℕ)
  | materialize (cpu : ℕ)
  | store (cpu va b : ℕ)

def setPending (st : LazySys) (cpu : ℕ) (x : Option ℕ) : ℕ → Option ℕ :=
  fun i => if i = cpu then x else st.pending i

/-- One step of one vCPU; `none` when it cannot be taken. A translation fault is
taken on an unmapped page of a lazily mapped region, served under the lock, and
a store goes to a page that is mapped writable. -/
def LazyOp.run (rs : List GuestRegion) (st : LazySys) : LazyOp → Option LazySys
  | .fault cpu va =>
    if st.pending cpu = none ∧ (guestRegionFind rs va).any GuestRegion.noreserve = true ∧
        ptWalk st.pt va = none then
      some { st with pending := setPending st cpu (some va) }
    else none
  | .materialize cpu =>
    (st.pending cpu).bind fun va => (guestMaterializeLazy rs st.pt st.mem va).map fun res =>
      ⟨res.2.1, res.2.2, setPending st cpu none⟩
  | .store cpu va b =>
    if st.pending cpu = none then
      (ptWalk st.pt va).bind fun t =>
        if t.2.w then some { st with mem := fun a => if a = t.1 then b else st.mem a } else none
    else none

def LazySys.readByte (st : LazySys) (va : ℕ) : Option ℕ := (ptWalk st.pt va).map fun t => st.mem t.1

/-- A fault is served only while nothing of what it materializes is mapped. -/
def LazyOp.Timely (rs : List GuestRegion) (st : LazySys) : LazyOp → Prop
  | .materialize cpu => ∀ off, st.pending cpu = some off →
      ∀ va, LazyTarget rs st.pt.guestSize off va → ptWalk st.pt va = none
  | _ => True

/-- A step that stores to the byte at output address `a`. -/
def LazyOp.StoresTo (st : LazySys) (a : ℕ) : LazyOp → Prop
  | .store _ va _ => (ptWalk st.pt va).map fst = some a
  | _ => False

inductive TimelyRun (rs : List GuestRegion) (a : ℕ) (st : LazySys) : LazySys → Prop
  | start : TimelyRun rs a st st
  | step {st₁ st₂} (op : LazyOp) : TimelyRun rs a st st₁ → op.Timely rs st₁ → ¬ op.StoresTo st₁ a →
      op.run rs st₁ = some st₂ → TimelyRun rs a st st₂

structure LazySys.Ok (rs : List GuestRegion) (st : LazySys) : Prop where
  wf : PtWf st.pt
  size : st.pt.guestSize % 2 ^ 21 = 0
  identity : LazyIdentity rs st.pt

variable {st st' st₁ : LazySys} {cpu b : ℕ}

lemma fault_eq (h : (LazyOp.fault cpu off).run rs st = some st') :
    st' = { st with pending := setPending st cpu (some off) } := by
  unfold LazyOp.run at h
  dsimp only at h
  split at h
  · exact (some_inj.mp h).symm
  · cases h

lemma materialize_eq (h : (LazyOp.materialize cpu).run rs st = some st') : ∃ off ret p' mem',
    st.pending cpu = some off ∧ guestMaterializeLazy rs st.pt st.mem off = some (ret, p', mem') ∧
      st' = ⟨p', mem', setPending st cpu none⟩ := by
  obtain ⟨off, hoff, hrest⟩ := bind_eq_some_iff.mp h
  obtain ⟨⟨ret, p', mem'⟩, hmat, rfl⟩ := map_eq_some_iff.mp hrest
  exact ⟨off, ret, p', mem', hoff, hmat, rfl⟩

lemma store_eq (h : (LazyOp.store cpu va b).run rs st = some st') : ∃ t, ptWalk st.pt va = some t ∧
    st' = { st with mem := fun a => if a = t.1 then b else st.mem a } := by
  unfold LazyOp.run at h
  dsimp only at h
  split at h
  · obtain ⟨t, ht, hw⟩ := bind_eq_some_iff.mp h
    split at hw
    · exact ⟨t, ht, (some_inj.mp hw).symm⟩
    · cases hw
  · cases h

/-- A step away from the byte leaves it, and its mapping, alone. -/
lemma LazyOp.run_kept (op : LazyOp) (hrs : LazyRegions rs) (h : st.Ok rs)
    (htimely : op.Timely rs st) (hv : ptWalk st.pt va ≠ none)
    (hother : ¬ op.StoresTo st va) (hrun : op.run rs st = some st') :
    st'.Ok rs ∧ ptWalk st'.pt va = ptWalk st.pt va ∧ st'.mem va = st.mem va := by
  cases op with
  | fault cpu off =>
    obtain rfl := fault_eq hrun
    exact ⟨⟨h.wf, h.size, h.identity⟩, rfl, rfl⟩
  | materialize cpu =>
    obtain ⟨off, ret, p', mem', hoff, hmat, rfl⟩ := materialize_eq hrun
    obtain ⟨hedit, hmem⟩ := materialize_spec hrs h.wf h.size hmat
    -- the address is mapped, so it is not among those to be materialized
    have hout : ¬ LazyTarget rs st.pt.guestSize off va := fun hc => hv (htimely off hoff va hc)
    refine ⟨⟨hedit.wf, ?_, hedit.identity h.identity⟩, hedit.kept va hout hv, ?_⟩
    · rw [hedit.size]
      exact h.size
    · by_contra hne
      exact hout (hmem va hne)
  | store cpu x b =>
    obtain ⟨t, ht, rfl⟩ := store_eq hrun
    refine ⟨⟨h.wf, h.size, h.identity⟩, rfl, if_neg fun hc => hother ?_⟩
    show (ptWalk st.pt x).map fst = some va
    rw [ht, hc]
    rfl

lemma TimelyRun.kept (hrun : TimelyRun rs va st st') (hrs : LazyRegions rs) (h : st.Ok rs)
    (hv : ptWalk st.pt va ≠ none) :
    st'.Ok rs ∧ ptWalk st'.pt va = ptWalk st.pt va ∧ st'.mem va = st.mem va := by
  induction hrun with
  | start => exact ⟨h, rfl, rfl⟩
  | step op _ htimely hother hstep ih =>
    obtain ⟨h1, h2, h3⟩ := ih
    obtain ⟨h4, h5, h6⟩ := op.run_kept hrs h1 htimely (h2.symm ▸ hv) hother hstep
    exact ⟨h4, h5.trans h2, h6.trans h3⟩

/-- A byte stored to lazily mapped memory reads back until the next store to it, in
every run whose faults are served in time. -/
theorem lazy_store_kept {rs : List GuestRegion} {st st₁ st' : LazySys} {cpu va b : ℕ}
    (hrs : LazyRegions rs) (h : st.Ok rs) (hva : InLazy rs va)
    (hstore : (LazyOp.store cpu va b).run rs st = some st₁) (hrun : TimelyRun rs va st₁ st') :
    st'.readByte va = some b := by
  obtain ⟨t, ht, rfl⟩ := store_eq hstore
  have hid : t.1 = va := h.identity va hva t.1 t.2 ht
  have hv : ptWalk st.pt va ≠ none := by
    rw [ht]
    exact some_ne_none t
  have hkept := hrun.kept hrs
  obtain ⟨-, h2, h3⟩ := hkept ⟨h.wf, h.size, h.identity⟩ hv
  dsimp only at h2 h3
  rw [LazySys.readByte, h2, ht]
  show some (st'.mem t.1) = some b
  rw [hid, h3, if_pos hid.symm]

def lazyRegion : GuestRegion where
  start := 0x200000
  stop := 0x400000
  gpaBase := 0x200000
  vmaId := 1
  prot := 3
  flags := 0x4022
  offset := 0
  backingFd := -1
  shared := false
  noreserve := true
  backingRo := false
  inheritedAtFork := false
  overlayActive := false
  overlayStart := 0
  overlayEnd := 0
  name := []

lemma lazyRegions_singleton (hr : RegionsOrdered [r]) (hid : r.gpaBase = r.start)
    (hal : r.start % 4096 = 0 ∧ r.stop % 4096 = 0) : LazyRegions [r] := by
  refine ⟨hr, fun r hr _ => ?_, fun r hr _ => ?_⟩ <;> obtain rfl := List.mem_singleton.mp hr
  · exact hal
  · exact hid

lemma lazyRegion_regions : LazyRegions [lazyRegion] :=
  lazyRegions_singleton (by decide) rfl ⟨rfl, rfl⟩

def lazyStart : LazySys := ⟨emptyRoot, fun _ => 0, fun _ => none⟩

lemma emptyRoot_walk (va : ℕ) : ptWalk emptyRoot va = none := by
  rw [ptWalk, emptyRoot_find]

lemma lazyStart_ok (rs : List GuestRegion) : lazyStart.Ok rs := by
  refine ⟨emptyRoot_wf, by decide, fun va _ a perms hw => ?_⟩
  rw [show ptWalk lazyStart.pt va = none from emptyRoot_walk va] at hw
  cases hw

/-- Two blocks of lazily mapped memory. -/
def lazyTwo : GuestRegion := { lazyRegion with stop := 0x600000 }

lemma lazyTwo_regions : LazyRegions [lazyTwo] := lazyRegions_singleton (by decide) rfl ⟨rfl, rfl⟩

/-- A fault materializes the first block and a byte is stored there; then the fault of another vCPU
materializes the second block. -/
theorem lazy_store_kept_second :
    ([.fault 0 0x200000, .materialize 0, .store 0 0x200000 7, .fault 1 0x400000,
      .materialize 1].foldlM (LazyOp.run [lazyTwo]) lazyStart).bind
        (fun st => st.readByte 0x200000) = some 7 := by
  have hall : ([.fault 0 0x200000, .materialize 0, .store 0 0x200000 7, .fault 1 0x400000,
      .materialize 1].foldlM (LazyOp.run [lazyTwo]) lazyStart).isSome := by
    decide +kernel
  obtain ⟨st5, hall⟩ := isSome_iff_exists.mp hall
  rw [hall, bind_some]
  simp only [List.foldlM_cons, List.foldlM_nil, bind_eq_bind, bind_eq_some_iff] at hall
  obtain ⟨st1, h1, st2, h2, st3, h3, st4, h4, _, h5, ⟨⟩⟩ := hall
  -- the first block is mapped, and nothing else
  obtain rfl := fault_eq h1
  obtain ⟨_, ret, p', mem', ⟨⟩, hmat, rfl⟩ := materialize_eq h2
  have hret : (guestMaterializeLazy [lazyTwo] emptyRoot (fun _ => 0) 0x200000).map fst =
      some 0 := by
    decide +kernel
  obtain rfl : ret = 0 := some_inj.mp ((congrArg (Option.map fst) hmat).symm.trans hret)
  obtain ⟨r, -, -, hgrants⟩ := materialize_regrants lazyTwo_regions.ordered
    lazyTwo_regions.aligned emptyRoot_wf (by decide) hmat
  obtain ⟨hedit, -⟩ := materialize_spec lazyTwo_regions emptyRoot_wf (by decide) hmat
  have hok : ∀ pending, LazySys.Ok [lazyTwo] ⟨p', mem', pending⟩ := fun _ =>
    ⟨hedit.wf, by rw [hedit.size]; decide, hedit.identity (lazyStart_ok _).identity⟩
  obtain ⟨t, -, rfl⟩ := store_eq h3
  obtain rfl := fault_eq h4
  refine lazy_store_kept lazyTwo_regions (hok _)
    ⟨lazyTwo, List.mem_singleton_self _, rfl, by decide, by decide⟩ h3
    ((TimelyRun.start.step (.fault 1 0x400000) trivial nofun h4).step (.materialize 1) ?_ nofun h5)
  rintro _ ⟨⟩ va ⟨q, hfind, -, hlo, -⟩
  obtain rfl : lazyTwo = q := some_inj.mp (hfind.symm.trans (by decide)).symm
  rw [hedit.size] at hlo
  replace hlo : 0x400000 ≤ va := hlo
  show ptWalk p' va = none
  rw [hgrants.kept va (by omega), emptyRoot_walk]

/-- Both vCPUs fault on the block before either fault is served. The first is
served, the byte 7 is stored; serving the second makes it read 0. -/
theorem late_fault_clears_store : LazyRegions [lazyRegion] ∧ lazyStart.Ok [lazyRegion] ∧
    (([LazyOp.fault 0 0x200000, .fault 1 0x200008, .materialize 0, .store 0 0x200000 7].foldlM
      (LazyOp.run [lazyRegion]) lazyStart).bind fun st => st.readByte 0x200000) = some 7 ∧
    (([LazyOp.fault 0 0x200000, .fault 1 0x200008, .materialize 0, .store 0 0x200000 7,
      .materialize 1].foldlM (LazyOp.run [lazyRegion]) lazyStart).bind
        fun st => st.readByte 0x200000) = some 0 :=
  ⟨lazyRegion_regions, lazyStart_ok _, by decide +kernel, by decide +kernel⟩

/-- The first fault of the block makes it readable and writable. -/
theorem materialize_grants_iff_rw :
    ∃ p' mem', guestMaterializeLazy [lazyRegion] emptyRoot (fun _ => 0) 0x200000 =
        some (0, p', mem') ∧
      ptWalk p' 0x200000 = some (0x200000, Perms.rw) ∧ UserWithin 3 (ptWalk p' 0x200000) := by
  have hrun : ((guestMaterializeLazy [lazyRegion] emptyRoot (fun _ => 0) 0x200000).map
      fun res => (res.1, ptWalk res.2.1 0x200000)) = some (0, some (0x200000, Perms.rw)) := by
    decide +kernel
  obtain ⟨⟨ret, p', mem'⟩, hres, heq⟩ := map_eq_some_iff.mp hrun
  obtain ⟨rfl, hwalk⟩ := mk.inj heq
  refine ⟨p', mem', hres, hwalk, ?_⟩
  obtain ⟨r, hfind, -, hall⟩ := materialize_grants_iff lazyRegion_regions.ordered
    lazyRegion_regions.aligned emptyRoot_wf (by decide) hres
  obtain rfl : lazyRegion = r := some_inj.mp (hfind.symm.trans (by decide)).symm
  refine (hall 0x200000 ?_).2.mpr (by decide)
  rw [show ptWalk p' 0x200000 = _ from hwalk, emptyRoot_walk]
  exact nofun

/-- A fault in a region that may not be accessed makes it readable. -/
theorem materialize_grants_read :
    let rs := [{ lazyRegion with prot := 0 }]
    ((guestMaterializeLazy rs emptyRoot (fun _ => 0) 0x200000).map
      fun res => (res.1, ptWalk res.2.1 0x200000)) = some (0, some (0x200000, Perms.ro)) ∧
    ptWalk emptyRoot 0x200000 = none ∧ ¬ UserWithin 0 (some (0x200000, Perms.ro)) := by
  refine ⟨by decide +kernel, emptyRoot_walk _, fun h => ?_⟩
  exact absurd ((h _ _ rfl rfl).1 rfl) (by decide)

end Elfuse
