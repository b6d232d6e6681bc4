/-
Guest address translation and its per-thread cache.

`gva_translate_perm` answers from a one-entry cache when the entry belongs to
the guest, is of the current page-table generation and covers the address and
the required permissions; otherwise it walks the tables and refills the entry.
The walk reads the block view and nothing else (`gvaWalk_eq`), so an answer from
the cache is right as long as the block it was filled from has not changed
since. That holds over whole runs of operations as long as no operation changes
a block without bumping the generation:

* `cache_agrees` — in every run whose steps meet `GuestOp.Safe`, an answer from
  the cache is the answer of the walk;
* `failed_update_stale_hit` — an update that runs out of table pages part way
  leaves a cached answer the tables refuse.
-/
import Elfuse.Core.PageTableBuild

namespace Elfuse

open Nat Option Prod

/-! ### The walk -/

/-- Model of the `gva_tlb` slot of one thread; `size` 0 marks it invalid. -/
structure GvaTlb where
  owner : ℕ
  baseGva : ℕ
  baseGpa : ℕ
  size : ℕ
  perms : Perms
  gen : ℕ
  deriving DecidableEq

def GvaTlb.empty : GvaTlb := ⟨0, 0, 0, 0, ⟨false, false, false, false⟩, 0⟩

structure GvaTranslation where
  gpa : ℕ
  chunk : ℕ
  deriving DecidableEq, Repr

/-- Model of `gva_pt_table_offset`: the table must lie in the slab. -/
def gvaPtTableOffset (desc guestSize : ℕ) : Option ℕ :=
  if guestSize < 4096 ∨ guestSize - 4096 < pageAddr desc then none else some (pageAddr desc)

def gvaLeafTarget (ipa gva granule : ℕ) : GvaTranslation :=
  ⟨ipa + gva % granule, granule - gva % granule⟩

/-- What a leaf of size `granule` answers: refused for EL1-only data, missing
permissions and addresses outside the slab. The second part is the cache entry,
but for owner and generation. -/
def gvaLeaf (guestSize gva : ℕ) (required perms : Perms) (ipa granule : ℕ) :
    Option (GvaTranslation × GvaTlb) :=
  if perms.el1Only then none
  else if !perms.covers required then none
  else
    let t := gvaLeafTarget ipa gva granule
    if guestSize ≤ t.gpa then none
    else some (t, ⟨0, gva / granule * granule, ipa, granule, perms, 0⟩)

def gvaNext (p : PageTables) (table idx : ℕ) : Option ℕ :=
  let e := p.read (table, idx)
  if !isValid e then none else gvaPtTableOffset e p.guestSize

/-- The walk of `gva_translate_perm`. -/
def gvaWalk (p : PageTables) (gva : ℕ) (required : Perms) : Option (GvaTranslation × GvaTlb) :=
  if 512 ≤ gva / 2 ^ 39 then none
  else
    (gvaNext p p.ttbr0 (gva / 2 ^ 39)).bind fun l1 =>
    (gvaNext p l1 (gva / 2 ^ 30 % 512)).bind fun l2 =>
      let l2e := p.read (l2, gva / block2MiB % 512)
      if !isValid l2e then none
      else if l2e &&& ptTable ≠ 0 then
        (gvaPtTableOffset l2e p.guestSize).bind fun l3 =>
          let l3e := p.read (l3, gva / guestPageSize % 512)
          if !isValid l3e then none
          else gvaLeaf p.guestSize gva required (descToPerms l3e) (pageAddr l3e) guestPageSize
      else gvaLeaf p.guestSize gva required (descToPerms l2e) (blockAddr l2e) block2MiB

/-- Does the cache answer? `self` is the guest's identity. -/
def gvaTlbHit (self : ℕ) (p : PageTables) (tlb : GvaTlb) (gva : ℕ) (required : Perms) : Bool :=
  decide (tlb.size ≠ 0) && decide (tlb.owner = self) && decide (tlb.gen = p.ptGen) &&
    decide (tlb.baseGva ≤ gva) && decide (gva - tlb.baseGva < tlb.size) &&
    tlb.perms.covers required

def gvaTranslatePerm (self : ℕ) (p : PageTables) (tlb : GvaTlb) (gva : ℕ) (required : Perms) :
    Option GvaTranslation × GvaTlb :=
  if gvaTlbHit self p tlb gva required then
    (some ⟨tlb.baseGpa + (gva - tlb.baseGva), tlb.baseGva + tlb.size - gva⟩, tlb)
  else
    match gvaWalk p gva required with
    | none => (none, tlb)
    | some (t, e) => (some t, { e with owner := self, gen := p.ptGen })

/-- The page-table part of `guest_reset`: an empty pool, no root, a new
generation. -/
def guestResetTables (p : PageTables) : PageTables :=
  { p with
    tables := fun a i => if p.ptPoolBase ≤ a ∧ a < p.ptPoolNext then 0 else p.tables a i
    ptPoolNext := p.ptPoolBase
    ttbr0 := 0
    ptGen := p.ptGen + 1
    tlbi := tlbiRequestClear }

def guestTlbFlush (tlb : GvaTlb) : GvaTlb := { tlb with size := 0 }

/-! ### The walk reads the block view -/

variable {p p' : PageTables} {gva : ℕ} {required : Perms} {tlb e : GvaTlb} {self start stop : ℕ}

def BlockView.answer (v : BlockView) (guestSize gva : ℕ) (required : Perms) :
    Option (GvaTranslation × GvaTlb) :=
  match v with
  | .absent => none
  | .block d => gvaLeaf guestSize gva required (descToPerms d) (blockAddr d) block2MiB
  | .pages f =>
    let e := f (l3Idx gva)
    if !isValid e then none
    else gvaLeaf guestSize gva required (descToPerms e) (pageAddr e) guestPageSize

lemma gvaPtTableOffset_pool (h : PoolOk p) (ha : InPool p a) (hd : pageAddr d = a) :
    gvaPtTableOffset d p.guestSize = some a := by
  obtain ⟨h1, h2, h3⟩ := ha
  have := h.next_aligned
  have := h.next_le
  have := h.end_le
  unfold gvaPtTableOffset
  rw [if_neg (by omega), hd]

lemma gvaNext_eq (h : PtWf p) (hq : q.length ≤ 1) (ha : p.node q = some a) (i : ℕ) :
    gvaNext p a i = p.node (i :: q) := by
  have hnode : p.node (i :: q) = tableChild (p.tables a i) := by
    show (p.node q).bind _ = _
    rw [ha]
    rfl
  have hread : p.read (a, i) = p.tables a i := rfl
  unfold gvaNext
  dsimp only
  rw [hnode, hread]
  rcases h.entry_mod (by omega) ha i with hz | hm | ⟨hl, -⟩
  · rw [hz]
    rfl
  · have hc : tableChild (p.tables a i) = some (pageAddr (p.tables a i)) :=
      if_pos (isTable_iff.mpr hm)
    have hin : InPool p (pageAddr (p.tables a i)) :=
      h.node_inPool (q := i :: q) (by rw [List.length_cons]; omega) (hnode.trans hc)
    rw [isValid_iff.mpr (by omega), hc]
    exact gvaPtTableOffset_pool h.pool hin rfl
  · omega

lemma ptTable_and (d : ℕ) : d &&& ptTable = d / 2 % 2 * 2 := Bits.and_field d 1 1

/-- The walk sees the view of the block of the address, and nothing else. -/
lemma gvaWalk_eq (h : PtWf p) (gva : ℕ) (required : Perms) : gvaWalk p gva required
    = if gva < 2 ^ 48 then (blockView p (gva / 2 ^ 21)).answer p.guestSize gva required
      else none := by
  have h0 : gva / 2 ^ 39 = gva / 2 ^ 21 / 2 ^ 18 := by omega
  have h1 : gva / 2 ^ 30 % 512 = gva / 2 ^ 21 / 512 % 512 := by omega
  have h2 : gva / block2MiB % 512 = gva / 2 ^ 21 % 512 := rfl
  have h3 : gva / guestPageSize % 512 = l3Idx gva := by
    unfold l3Idx guestPageSize block2MiB
    omega
  unfold gvaWalk
  by_cases hlt : gva < 2 ^ 48
  swap
  · rw [if_neg hlt, if_pos (by omega)]
  rw [if_pos hlt, if_neg (by omega), h0, h1, h2, h3]
  have hl1 : gvaNext p p.ttbr0 (gva / 2 ^ 21 / 2 ^ 18) = p.node [gva / 2 ^ 21 / 2 ^ 18] :=
    gvaNext_eq h (q := []) (by simp) rfl _
  rw [hl1]
  cases hn1 : p.node [gva / 2 ^ 21 / 2 ^ 18] with
  | none =>
    have hn2 : p.node (l2Path (gva / 2 ^ 21)) = none := by
      show (p.node [gva / 2 ^ 21 / 2 ^ 18]).bind _ = none
      rw [hn1]
      rfl
    rw [blockView, hn2]
    rfl
  | some l1 =>
    have hl2 := gvaNext_eq h (by simp) hn1 (gva / 2 ^ 21 / 512 % 512)
    rw [bind_some, hl2, blockView, l2Path]
    cases hn2 : p.node [gva / 2 ^ 21 / 512 % 512, gva / 2 ^ 21 / 2 ^ 18] with
    | none => rfl
    | some l2 =>
      rw [bind_some]
      have hread : p.read (l2, gva / 2 ^ 21 % 512) = p.tables l2 (gva / 2 ^ 21 % 512) := rfl
      dsimp only
      rw [hread]
      rcases h.entries _ l2 (by simp) hn2 (gva / 2 ^ 21 % 512) with hz | ⟨-, a, ha, hd⟩ |
        ⟨-, hm, -⟩ | ⟨hl, -, -⟩
      · rw [hz]
        rfl
      · have hm : p.tables l2 (gva / 2 ^ 21 % 512) % 4 = 3 := by
          rw [hd]
          exact makeTableDesc_mod a ha.2.2
        have hpa : pageAddr (p.tables l2 (gva / 2 ^ 21 % 512)) = a := by
          rw [hd]
          exact pageAddr_makeTableDesc ha.2.2 (ha.lt_size h.pool)
        have hbit : p.tables l2 (gva / 2 ^ 21 % 512) &&& ptTable ≠ 0 := by
          rw [ptTable_and]
          omega
        rw [viewOf_table p hm, isValid_iff.mpr (by omega), if_pos hbit,
          gvaPtTableOffset_pool h.pool ha hpa, hpa]
        rfl
      · have hbit : ¬ p.tables l2 (gva / 2 ^ 21 % 512) &&& ptTable ≠ 0 := by
          rw [ptTable_and]
          omega
        rw [viewOf_block p hm, isValid_iff.mpr (by omega), if_neg hbit]
        rfl
      · simp at hl

/-! ### What a cache entry promises -/

def GvaTlb.answer (tlb : GvaTlb) (gva : ℕ) : GvaTranslation :=
  ⟨tlb.baseGpa + (gva - tlb.baseGva), tlb.baseGva + tlb.size - gva⟩

structure EntryOf (v : BlockView) (guestSize b : ℕ) (tlb : GvaTlb) : Prop where
  present : v.present = true
  lt : b < 2 ^ 27
  agrees : ∀ gva required, tlb.baseGva ≤ gva → gva - tlb.baseGva < tlb.size →
    tlb.perms.covers required = true →
    gva / 2 ^ 21 = b ∧ (v.answer guestSize gva required).map fst = some (tlb.answer gva)

/-- A leaf answers every address of its granule. -/
lemma gvaLeaf_granule (hdvd : granule ∣ guestSize) (hipa : granule ∣ ipa)
    (h : gvaLeaf guestSize gva required perms ipa granule = some (t, e)) (hlo : e.baseGva ≤ gva')
    (hhi : gva' - e.baseGva < e.size) (hp : e.perms.covers required') :
    gva' / granule = gva / granule ∧
    (gvaLeaf guestSize gva' required' perms ipa granule).map fst = some (e.answer gva') := by
  unfold gvaLeaf at h ⊢
  cases hel : perms.el1Only with
  | true =>
    rw [hel] at h
    cases h
  | false =>
    rw [hel] at h
    dsimp only at h ⊢
    split at h
    · cases h
    split at h
    · cases h
    split at h
    · cases h
    rename_i hsize
    obtain ⟨rfl, rfl⟩ := mk.inj (some_inj.mp h)
    dsimp only at hlo hhi hp
    have hdiv := Nat.div_add_mod gva' granule
    have hdiv0 := Nat.div_add_mod gva granule
    rw [Nat.mul_comm] at hdiv hdiv0
    have hsame : gva' / granule = gva / granule := by
      refine Nat.div_eq_of_lt_le ?_ ?_
      · exact hlo
      · rw [Nat.succ_mul]
        omega
    rw [hsame] at hdiv
    -- the granule lies in the slab with its first byte
    have hin : ¬ guestSize ≤ (gvaLeafTarget ipa gva' granule).gpa := by
      obtain ⟨m, rfl⟩ := hdvd
      obtain ⟨k, rfl⟩ := hipa
      have hk : k < m := by
        by_contra hc
        have := Nat.mul_le_mul_left granule (Nat.le_of_not_lt hc)
        exact hsize (Nat.le_trans this (Nat.le_add_right _ _))
      have hle := Nat.mul_le_mul_left granule (Nat.succ_le_of_lt hk)
      rw [Nat.mul_succ] at hle
      show ¬ granule * m ≤ granule * k + gva' % granule
      omega
    refine ⟨hsame, ?_⟩
    rw [if_neg (by simp), hp, if_neg (by simp), if_neg hin]
    show some (GvaTranslation.mk _ _) = some (GvaTranslation.mk _ _)
    congr 2
    · show ipa + gva' % granule = ipa + (gva' - gva / granule * granule)
      omega
    · show granule - gva' % granule = gva / granule * granule + granule - gva'
      omega

lemma pageAddr_dvd (d : ℕ) : guestPageSize ∣ pageAddr d := by
  have := pageAddr_eq d
  have hps : guestPageSize = 4096 := rfl
  exact dvd_of_mod_eq_zero (by rw [hps]; omega)

lemma blockAddr_dvd (d : ℕ) : block2MiB ∣ blockAddr d := by
  have := blockAddr_eq d
  have hb : block2MiB = 2 ^ 21 := rfl
  exact dvd_of_mod_eq_zero (by rw [hb]; omega)

/-- A walk fills the cache with an entry of the block it went through. -/
lemma entryOf_walk (h : PtWf p) (hsize : p.guestSize % 2 ^ 21 = 0)
    (hw : gvaWalk p gva required = some (t, e)) (g : ℕ) :
    EntryOf (blockView p (gva / 2 ^ 21)) p.guestSize (gva / 2 ^ 21)
      { e with owner := self, gen := g } := by
  have hps : guestPageSize = 4096 := rfl
  have hdvd : block2MiB ∣ p.guestSize := dvd_of_mod_eq_zero hsize
  have hdvd' : guestPageSize ∣ p.guestSize :=
    dvd_of_mod_eq_zero (by rw [hps]; omega)
  rw [gvaWalk_eq h] at hw
  by_cases hlt : gva < 2 ^ 48
  swap
  · rw [if_neg hlt] at hw
    cases hw
  rw [if_pos hlt] at hw
  cases hv : blockView p (gva / 2 ^ 21) with
  | absent =>
    rw [hv] at hw
    cases hw
  | block d =>
    rw [hv] at hw
    refine ⟨rfl, by omega, fun gva' required' hlo hhi hp => ?_⟩
    obtain ⟨h1, h2⟩ := gvaLeaf_granule hdvd (blockAddr_dvd d) hw hlo hhi hp
    exact ⟨h1, h2⟩
  | pages f =>
    rw [hv] at hw
    refine ⟨rfl, by omega, fun gva' required' hlo hhi hp => ?_⟩
    have hw' : (if !isValid (f (l3Idx gva)) then none else gvaLeaf p.guestSize gva required
        (descToPerms (f (l3Idx gva))) (pageAddr (f (l3Idx gva))) guestPageSize) = some (t, e) := hw
    split at hw'
    · cases hw'
    rename_i hval
    obtain ⟨h1, h2⟩ := gvaLeaf_granule hdvd' (pageAddr_dvd _) hw' hlo hhi hp
    have hidx : l3Idx gva' = l3Idx gva := by
      rw [hps] at h1
      unfold l3Idx guestPageSize block2MiB
      omega
    refine ⟨by rw [hps] at h1; omega, ?_⟩
    show Option.map _ (if !isValid (f (l3Idx gva')) then none else gvaLeaf p.guestSize gva'
      required' (descToPerms (f (l3Idx gva'))) (pageAddr (f (l3Idx gva'))) guestPageSize) = _
    rw [hidx, if_neg hval]
    exact h2

/-! ### Operations that keep the cache right -/

/-- The effect of an operation the cache can live with: a new generation, or
every block that was there is as it was. -/
def CacheSafe (p p' : PageTables) : Prop :=
  p'.ptGen = p.ptGen + 1 ∨
    p'.ptGen = p.ptGen ∧ ∀ b, (blockView p b).present = true → blockView p' b = blockView p b

lemma CacheSafe.refl (p : PageTables) : CacheSafe p p := .inr ⟨rfl, fun _ _ => rfl⟩

/-- What an operation needs so that it does not fail half way: blocks to split
only where a pool page is left for them, and L2 entries for the pages to
install. A split has to find nothing to do. -/
def PtOp.Funded (p : PageTables) : PtOp → Prop
  | .splitBlock blk => (blockView p (blk / 2 ^ 21)).isBlock = false
  | .invalidatePtes start stop | .updatePerms _ start stop _ =>
      stop ≤ 2 ^ 64 - 2 ^ 21 ∧
      p.ptPoolNext + cutBlocks (alignDown start guestPageSize) (pageAlignUp stop) * 4096
        ≤ p.ptPoolEnd
  | .installVaPages va length _ _ =>
      (∀ k < length / 4096, l2Valid p (va + k * 4096) = true) ∧
      p.ptPoolNext + installSplits p va (length / 4096) * 4096 ≤ p.ptPoolEnd
  | .mapVaRange _ _ _ _ | .extendPageTables _ _ _ => True

lemma RangeCall.cacheSafe (h : RangeCall G start stop p res a)
    (hpool : p.ptPoolNext + cutBlocks start stop * 4096 ≤ p.ptPoolEnd) : CacheSafe p res.2 := by
  rcases h.ret with ⟨-, -, hgen⟩ | ⟨-, -, hshort⟩
  · exact .inl hgen
  · omega

lemma cacheSafe_markIcacheIf (p : PageTables) (x : Bool) : CacheSafe p (p.markIcacheIf x) := by
  obtain ⟨t, ht⟩ := markIcacheIf_cases p x
  rw [ht]
  exact .inr ⟨rfl, fun _ _ => rfl⟩

lemma pageRange_of (htop : stop ≤ 2 ^ 64 - 2 ^ 21)
    (hlt : alignDown start guestPageSize < pageAlignUp stop) :
    PageRange (alignDown start guestPageSize) (pageAlignUp stop) := by
  refine ⟨alignDown_mod start, pageAlignUp_mod stop, hlt, ?_⟩
  unfold pageAlignUp alignUp guestPageSize u64
  omega

lemma blockLoop_cacheSafe
    (hstep : StepSpec G start stop step) (hr : PageRange start stop) (h : PtWf p)
    (hpool : p.ptPoolNext + cutBlocks start stop * 4096 ≤ p.ptPoolEnd)
    (hrun : blockLoop step stop loopFuel start (p.markIcacheIf x) = some res) :
    CacheSafe p res.2 := by
  obtain ⟨res', a, heq, hcall⟩ := blockLoop_call hstep hr (h.markIcacheIf x)
  obtain rfl := some_inj.mp (heq.symm.trans hrun)
  exact hcall.of_markIcacheIf.cacheSafe hpool

/-- No funded operation changes a block behind the cache's back. -/
lemma PtOp.cacheSafe (op : PtOp) (h : PtWf p) (hf : op.Funded p)
    (hrun : op.run p = some (r, p')) : CacheSafe p p' := by
  cases op with
  | splitBlock blk =>
    have heq := some_inj.mp hrun
    have hsame : (guestSplitBlock p blk).2 = p := by
      cases hs : findL2Entry p blk with
      | none => rw [guestSplitBlock_none h hs]
      | some s =>
        rw [guestSplitBlock_some h hs]
        have hnb : (viewOf p (p.read s)).isBlock = false := by
          rw [← blockView_of_find h hs]
          exact hf
        rw [viewOf_isBlock] at hnb
        rcases h.l2_cases hs with hz | hm | hm
        · unfold splitL2Block
          rw [hz]
          rfl
        · rw [isBlock_iff.mpr hm] at hnb
          cases hnb
        unfold splitL2Block
        rw [if_pos (isTable_iff.mpr hm)]
    rw [heq] at hsame
    obtain rfl : p' = p := hsame
    exact CacheSafe.refl p'
  | invalidatePtes start stop =>
    obtain rfl | ⟨hcursor, hloop⟩ := guestInvalidatePtes_cases hrun
    · exact CacheSafe.refl _
    · exact blockLoop_cacheSafe (x := false) (invalidateStep_spec _ _)
        (pageRange_of hf.1 hcursor.lt) h hf.2 hloop
  | updatePerms rs start stop perms =>
    obtain rfl | rfl | ⟨hcursor, hloop⟩ := guestUpdatePerms_cases hrun
    · exact CacheSafe.refl _
    · exact cacheSafe_markIcacheIf _ _
    · exact blockLoop_cacheSafe (updateStep_spec rs perms _ _) (pageRange_of hf.1 hcursor.lt) h
        hf.2 hloop
  | installVaPages va length gpa perms =>
    have heq := some_inj.mp hrun
    rcases install_call h va length gpa perms with hfail | ⟨-, -, -, m, hm, hcall, hwhy⟩
    · cases hfail.symm.trans heq
      exact CacheSafe.refl _
    rw [heq] at hcall
    rcases hcall.ret with ⟨-, -, hgen⟩ | ⟨-, hne, -⟩
    · exact .inl hgen
    -- a funded installation has nothing to fail at
    have hlt : m < length / 4096 := lt_of_le_of_ne hm hne
    rcases hwhy hlt with hval | hshort
    · rw [hf.1 m hlt] at hval
      cases hval
    · have := hf.2
      omega
  | mapVaRange vaBase vaLimit gpaStart perms =>
    have heq := some_inj.mp hrun
    rcases map_call h vaBase vaLimit gpaStart perms with hfail | ⟨-, -, -, -, e, -, hcall⟩
    · cases hfail.symm.trans heq
      exact CacheSafe.refl _
    · rw [heq] at hcall
      exact hcall.ret.imp (fun hr => hr.2.2) (fun hr => ⟨hr.2.2, hcall.view⟩)
  | extendPageTables start stop perms =>
    have heq := some_inj.mp hrun
    rcases extend_call h start stop perms with hfail | ⟨-, -, e, hcall, -⟩
    · cases hfail.symm.trans heq
      exact CacheSafe.refl _
    · rw [heq] at hcall
      exact hcall.ret.imp (fun hr => hr.2.2) (fun hr => ⟨hr.2.2, hcall.view⟩)

/-! ### Runs -/

structure GuestPt where
  pt : PageTables
  tlb : GvaTlb

inductive GuestOp
  | tables (op : PtOp)
  | build (tracker : List GuestRegion) (regions : List MemRegion)
  | reset
  | translate (gva : ℕ) (required : Perms)

/-- One operation, whether it succeeds or fails; `none` when it does not return. -/
def GuestOp.run (self : ℕ) (st : GuestPt) : GuestOp → Option GuestPt
  | .tables op => (op.run st.pt).map fun r => { st with pt := r.2 }
  | .build rs regions => (guestBuildPageTables rs st.pt regions).map fun r => { st with pt := r.2 }
  | .reset => some ⟨guestResetTables st.pt, guestTlbFlush st.tlb⟩
  | .translate gva required =>
      some { st with tlb := (gvaTranslatePerm self st.pt st.tlb gva required).2 }

/-- The condition on a step: tables are built only where there are none, used only
where there are some, and an operation has the table pages it needs. -/
def GuestOp.Safe (st : GuestPt) : GuestOp → Prop
  | .tables op => st.pt.ttbr0 ≠ 0 ∧ op.Funded st.pt
  | .build _ _ => st.pt.ttbr0 = 0
  | .reset => True
  | .translate _ _ => st.pt.ttbr0 ≠ 0

inductive SafeRun (self : ℕ) : GuestPt → Prop
  | init {q : PageTables} {c : GvaTlb} : PoolOk q → q.guestSize % 2 ^ 21 = 0 → q.ttbr0 = 0 →
      c.size = 0 → SafeRun self ⟨q, c⟩
  | step {st st' : GuestPt} (op : GuestOp) : SafeRun self st → op.Safe st → op.run self st =
      some st' →
      SafeRun self st'

/-- Without tables the cache is empty; with tables they are well formed and an
entry of the current generation answers as its block does. -/
structure GuestPt.Ok (st : GuestPt) : Prop where
  size : st.pt.guestSize % 2 ^ 21 = 0
  tables : (PoolOk st.pt ∧ st.pt.ttbr0 = 0 ∧ st.tlb.size = 0) ∨ PtWf st.pt
  gen : st.tlb.size ≠ 0 → st.tlb.gen ≤ st.pt.ptGen
  entry : st.tlb.size ≠ 0 → st.tlb.gen = st.pt.ptGen →
    ∃ b, EntryOf (blockView st.pt b) st.pt.guestSize b st.tlb

lemma PtWf.ttbr0_ne (h : PtWf p) : p.ttbr0 ≠ 0 := by
  have h1 := h.root.1
  have h2 := h.pool.base_pos
  omega

lemma GuestPt.Ok.wf {st : GuestPt} (h : st.Ok) (hr : st.pt.ttbr0 ≠ 0) : PtWf st.pt := by
  rcases h.tables with ⟨-, hz, -⟩ | hwf
  · exact absurd hz hr
  · exact hwf

variable {st : GuestPt}

lemma GuestPt.Ok.tables_step (h : st.Ok) (hwf : PtWf p') (ht : Touched st.pt p')
    (hs : CacheSafe st.pt p') : GuestPt.Ok { st with pt := p' } := by
  have hsize : p'.guestSize = st.pt.guestSize := by rw [ht]
  refine ⟨hsize ▸ h.size, .inr hwf, fun hne => ?_, fun hne hgen => ?_⟩
  · have hle := h.gen hne
    show st.tlb.gen ≤ p'.ptGen
    rcases hs with hg | ⟨hg, -⟩ <;> omega
  have hle := h.gen hne
  have hgen' : st.tlb.gen = p'.ptGen := hgen
  rcases hs with hg | ⟨hg, hview⟩
  · omega
  obtain ⟨b, hb⟩ := h.entry hne (by omega)
  refine ⟨b, ?_⟩
  rw [hview b hb.present, hsize]
  exact hb

lemma GuestPt.ok_of_empty {q : PageTables} {c : GvaTlb} (hsize : q.guestSize % 2 ^ 21 = 0)
    (ht : (PoolOk q ∧ q.ttbr0 = 0) ∨ PtWf q) (hc : c.size = 0) : GuestPt.Ok ⟨q, c⟩ :=
  ⟨hsize, ht.imp (fun h => ⟨h.1, h.2, hc⟩) id, fun hne => absurd hc hne, fun hne => absurd hc hne⟩

lemma poolOk_reset (h : PoolOk p) : PoolOk (guestResetTables p) :=
  ⟨h.base_pos, h.base_aligned, h.base_aligned, le_rfl, le_trans h.base_le h.next_le, h.end_le,
    h.size_le⟩

lemma GuestPt.Ok.pool (h : st.Ok) : PoolOk st.pt := by
  rcases h.tables with ⟨hp, -, -⟩ | hwf
  · exact hp
  · exact hwf.pool

lemma GuestPt.Ok.translate_step (h : st.Ok) (hwf : PtWf st.pt) (gva : ℕ) (required : Perms) :
    GuestPt.Ok { st with tlb := (gvaTranslatePerm self st.pt st.tlb gva required).2 } := by
  unfold gvaTranslatePerm
  split
  · exact h
  cases hw : gvaWalk st.pt gva required with
  | none => exact h
  | some res =>
    obtain ⟨t, e⟩ := res
    exact ⟨h.size, .inr hwf, fun _ => le_rfl,
      fun _ _ => ⟨_, entryOf_walk hwf h.size hw st.pt.ptGen⟩⟩

lemma GuestOp.run_ok (op : GuestOp) (h : st.Ok) (hs : op.Safe st)
    (hrun : op.run self st = some st') : st'.Ok := by
  cases op with
  | tables op =>
    obtain ⟨⟨r, q⟩, hres, rfl⟩ := map_eq_some_iff.mp hrun
    obtain ⟨h1, h2⟩ := op.run_wf (h.wf hs.1) hres
    exact h.tables_step h1 h2 (op.cacheSafe (h.wf hs.1) hs.2 hres)
  | build rs regions =>
    obtain ⟨⟨r, q⟩, hres, rfl⟩ := map_eq_some_iff.mp hrun
    have hz : st.pt.ttbr0 = 0 := hs
    have hc : st.tlb.size = 0 := by
      rcases h.tables with ⟨-, -, hc⟩ | hwf
      · exact hc
      · exact absurd hz hwf.ttbr0_ne
    obtain ⟨hsize, hwf⟩ := guestBuildPageTables_wf h.pool hres
    refine GuestPt.ok_of_empty ?_ (hwf.imp (fun hr => ⟨hr.2.1, hr.2.2.trans hz⟩) id) hc
    rw [hsize]
    exact h.size
  | reset =>
    obtain rfl := some_inj.mp hrun
    exact GuestPt.ok_of_empty h.size (.inl ⟨poolOk_reset h.pool, rfl⟩) rfl
  | translate gva required =>
    obtain rfl := some_inj.mp hrun
    exact h.translate_step (h.wf hs) gva required

lemma SafeRun.ok (h : SafeRun self st) : st.Ok := by
  induction h with
  | init hp hsize hz hc => exact GuestPt.ok_of_empty hsize (.inl ⟨hp, hz⟩) hc
  | step op _ hs hrun ih => exact op.run_ok ih hs hrun

/-- In every safe run the cache agrees with the walk: whatever it answers, a full
walk of the current tables answers too. -/
theorem cache_agrees (h : SafeRun self st) (gva : ℕ) (required : Perms)
    (hhit : gvaTlbHit self st.pt st.tlb gva required) :
    (gvaTranslatePerm self st.pt st.tlb gva required).1 = (gvaWalk st.pt gva required).map fst := by
  have hok := h.ok
  simp only [gvaTlbHit, Bool.and_eq_true, decide_eq_true_iff] at hhit
  obtain ⟨⟨⟨⟨⟨hsize, howner⟩, hgen⟩, hlo⟩, hhi⟩, hp⟩ := hhit
  have hwf : PtWf st.pt := by
    rcases hok.tables with ⟨-, -, hc⟩ | hwf
    · exact absurd hc hsize
    · exact hwf
  obtain ⟨b, hb⟩ := hok.entry hsize hgen
  obtain ⟨hblk, hans⟩ := hb.agrees gva required hlo hhi hp
  have hlt := hb.lt
  have htrue : gvaTlbHit self st.pt st.tlb gva required := by
    simp only [gvaTlbHit, Bool.and_eq_true, decide_eq_true_iff]
    exact ⟨⟨⟨⟨⟨hsize, howner⟩, hgen⟩, hlo⟩, hhi⟩, hp⟩
  rw [gvaTranslatePerm, if_pos htrue, gvaWalk_eq hwf, if_pos (by omega), hblk, hans]
  rfl

/-! ### A stale answer -/

def threePages : GuestPt :=
  ⟨{ emptyPool with ptPoolEnd := 0x13000 }, GvaTlb.empty⟩

def twoBlocks : GuestPt :=
  ((GuestOp.build [] [⟨0x200000, 0x600000, 0, Perms.rw⟩]).run 1 threePages).getD threePages

def warm : GuestPt :=
  { twoBlocks with
    tlb := (gvaTranslatePerm 1 twoBlocks.pt twoBlocks.tlb 0x200000 Perms.rw).2 }

lemma warm_safeRun : SafeRun 1 warm := by
  have hpool : PoolOk threePages.pt := by
    constructor <;> simp only [threePages, emptyPool] <;> omega
  have hnew : SafeRun 1 threePages := SafeRun.init hpool (by decide) rfl rfl
  have hsome : ((GuestOp.build [] [⟨0x200000, 0x600000, 0, Perms.rw⟩]).run 1 threePages).isSome
      := by decide +kernel
  obtain ⟨st, hst⟩ := isSome_iff_exists.mp hsome
  have hbuilt : twoBlocks = st := by rw [twoBlocks, hst, getD_some]
  have htwo : SafeRun 1 twoBlocks :=
    SafeRun.step (.build [] [⟨0x200000, 0x600000, 0, Perms.rw⟩]) hnew rfl (hbuilt ▸ hst)
  have hroot : twoBlocks.pt.ttbr0 ≠ 0 := by decide +kernel
  exact SafeRun.step (.translate 0x200000 Perms.rw) htwo hroot rfl

/-- A mapping of two more blocks fails for want of a table page when the first is in the tables; the
cache still answers for the other bytes of the block it holds. -/
theorem cache_agrees_warm : ∃ st,
    (GuestOp.tables (.mapVaRange 0x3FE00000 0x40200000 0x600000 Perms.rw)).run 1 warm = some st ∧
    ptWalk warm.pt 0x3FE00000 = none ∧ ptWalk st.pt 0x3FE00000 ≠ none ∧
    gvaTlbHit 1 st.pt st.tlb 0x200008 Perms.rw ∧
    (gvaTranslatePerm 1 st.pt st.tlb 0x200008 Perms.rw).1
      = (gvaWalk st.pt 0x200008 Perms.rw).map fst := by
  have hroot : warm.pt.ttbr0 ≠ 0 := by decide +kernel
  refine ⟨_, rfl, by decide +kernel, by decide +kernel, by decide +kernel, ?_⟩
  exact cache_agrees (SafeRun.step (.tables (.mapVaRange 0x3FE00000 0x40200000 0x600000 Perms.rw))
    warm_safeRun ⟨hroot, trivial⟩ rfl) 0x200008 Perms.rw (by decide +kernel)

/-- Write-protecting the first block and a page of the second: the first block is
rewritten, the second cannot be split for want of a table page, and the call
fails without a new generation. The cache still grants the write that the tables
now refuse. -/
theorem failed_update_stale_hit : SafeRun 1 warm ∧
    ((guestUpdatePerms [] warm.pt 0x200000 0x401000 Perms.ro).map fun r =>
      (r.1, gvaTlbHit 1 r.2 warm.tlb 0x200008 Perms.rw,
        (gvaTranslatePerm 1 r.2 warm.tlb 0x200008 Perms.rw).1,
        (gvaWalk r.2 0x200008 Perms.rw).map fst))
      = some (-1, true, some ⟨0x200008, 0x1FFFF8⟩, none) :=
  ⟨warm_safeRun, by decide +kernel⟩

end Elfuse
