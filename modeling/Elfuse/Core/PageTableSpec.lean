/-
The page-table operations as pointwise updates of the translation.

The translation `ptWalk p` is a partial function on addresses. On well-formed
tables each operation updates it on its own range and nowhere else:

* `guestSplitBlock_walk` — splitting changes nothing;
* `invalidate_call` — invalidation clears the range;
* `update_call` — a permission change rewrites the permissions of the pages
  whose block is there.

The operations on a range of blocks share one loop, so each is described by
what it does to the block at the cursor (`invalidateStep_spec`,
`updateStep_spec`) and the rest is an induction over the iterations.
-/
import Elfuse.Core.PageTableView

namespace Elfuse

open Nat

variable {p p' : PageTables} {va addr stop start n d : ℕ} {s : Slot}

/-! ### Rewriting pages of a split block -/

/-- A page descriptor that decodes to what it encodes, or an empty entry. -/
def PageEntryOk (d : ℕ) : Prop := d = 0 ∨ (d % 4 = 3 ∧ CanonicalPerms d)

lemma pageEntryOk_makePageDesc (pa : ℕ) (perms : Perms) : PageEntryOk (makePageDesc pa perms) :=
  .inr ⟨makePageDesc_mod _ _, by
    rw [CanonicalPerms, descToPerms_makePageDesc, Perms.norm_norm]⟩

def rewritten (F : ℕ → ℕ → ℕ) (pa n : ℕ) (f : ℕ → ℕ) : ℕ → ℕ := fun k =>
  if l3Idx pa ≤ k ∧ k < l3Idx pa + n then F (pa + (k - l3Idx pa) * guestPageSize) (f k) else f k

lemma l3Idx_lt (pa : ℕ) : l3Idx pa < 512 := by
  unfold l3Idx guestPageSize block2MiB
  omega

lemma l3Idx_add (h : l3Idx pa + 1 < 512) : l3Idx (pa + guestPageSize) = l3Idx pa + 1 := by
  unfold l3Idx guestPageSize block2MiB at *
  omega

lemma rewritePages_view (F : ℕ → ℕ → ℕ) (hF : ∀ pa old, PageEntryOk (F pa old)) (bcast : Bool) :
    ∀ (n : ℕ) {p : PageTables} {c : Changed} {pa : ℕ}, PtWf p → findL2Entry p va = some s →
      isTable (p.read s) → l3Idx pa + n ≤ 512 →
      let q := (rewritePages F (pageAddr (p.read s)) bcast n pa p c).1
      PtWf q ∧ OnlyTables p q ∧ q.ptPoolNext = p.ptPoolNext ∧ ∀ b, blockView q b
        = if b = va / 2 ^ 21 then .pages (rewritten F pa n (p.tables (pageAddr (p.read s))))
          else blockView p b := by
  intro n
  induction n with
  | zero =>
    intro p c pa h hs ht _
    refine ⟨h, OnlyTables.refl p, rfl, fun b => ?_⟩
    by_cases hb : b = va / 2 ^ 21
    · rw [if_pos hb, hb]
      show blockView p (va / 2 ^ 21) = _
      rw [blockView_of_find h hs, viewOf_table p (isTable_iff.mp ht)]
      congr 1
      funext k
      exact (if_neg (by omega)).symm
    · rw [if_neg hb]
      rfl
  | succ n ih =>
    intro p c pa h hs ht hlen
    set f := p.tables (pageAddr (p.read s))
    have hread : p.read (pageAddr (p.read s), l3Idx pa) = f (l3Idx pa) := rfl
    -- the entries after the first page, as the induction hypothesis sees them
    have hglue : ∀ g : ℕ → ℕ, (∀ k, k ≠ l3Idx pa → g k = f k) → g (l3Idx pa) = F pa (f (l3Idx pa)) →
        rewritten F (pa + guestPageSize) n g = rewritten F pa (n + 1) f := by
      intro g hg hg0
      funext k
      unfold rewritten
      by_cases hn : n = 0
      · subst hn
        by_cases hk : k = l3Idx pa
        · rw [if_neg (by omega), if_pos (by omega), hk, hg0]
          simp
        · rw [if_neg (by omega), if_neg (by omega), hg k hk]
      rw [l3Idx_add (by omega)]
      by_cases hk : k = l3Idx pa
      · rw [if_neg (by omega), if_pos (by omega), hk, hg0]
        simp
      rw [hg k hk]
      split
      · rw [if_pos (by omega)]
        congr 1
        unfold guestPageSize
        omega
      · rw [if_neg (by omega)]
    have hroom : l3Idx (pa + guestPageSize) + n ≤ 512 := by
      by_cases hn : n = 0
      · have := l3Idx_lt (pa + guestPageSize)
        omega
      · rw [l3Idx_add (by omega)]
        omega
    rw [rewritePages]
    rw [hread]
    split
    · rename_i hsame
      obtain ⟨h1, h2, h3, h4⟩ := ih (c := c) h hs ht hroom
      refine ⟨h1, h2, h3, fun b => ?_⟩
      rw [h4 b, hglue f (fun _ _ => rfl) hsame]
    obtain ⟨hwf, hs', hread', hview⟩ := writeL3_view h hs ht (k := l3Idx pa) (hF pa (f (l3Idx pa)))
    set p1 := p.write (pageAddr (p.read s), l3Idx pa) (F pa (f (l3Idx pa)))
    obtain ⟨h1, h2, h3, h4⟩ := ih (c := c.note bcast pa (pa + guestPageSize)) hwf hs'
      (by rw [hread']; exact ht) hroom
    rw [hread'] at h1 h2 h3 h4
    refine ⟨h1, (onlyTables_write p _ _).trans h2, h3, fun b => ?_⟩
    rw [h4 b]
    by_cases hb : b = va / 2 ^ 21
    · have hrest := hglue (p1.tables (pageAddr (p.read s)))
        (fun k hk => Radix.set_of_ne fun hx => hk hx.2) (Radix.set_self _ _ _ _)
      rw [if_pos hb, if_pos hb, hrest]
    · rw [if_neg hb, if_neg hb, hview b, if_neg hb]

/-! ### The frame of an edit -/

/-- `p'` is `p` after an edit in progress: other tables, a shorter pool, another
invalidation request; the generation is not yet bumped. -/
structure Edited (p p' : PageTables) : Prop where
  eq : p' = { p with tables := p'.tables, ptPoolNext := p'.ptPoolNext, tlbi := p'.tlbi }
  next : p.ptPoolNext ≤ p'.ptPoolNext

lemma Edited.refl (p : PageTables) : Edited p p := ⟨rfl, le_rfl⟩

lemma Edited.trans (h : Edited p p') (h' : Edited p' p'') : Edited p p'' := by
  refine ⟨?_, le_trans h.next h'.next⟩
  rw [h'.eq, h.eq]

lemma OnlyTables.edited (h : OnlyTables p p') : Edited p p' := by
  refine ⟨?_, h.next⟩
  rw [h.eq]

lemma flushChanged_cases (p : PageTables) (bcast : Bool) (c : Changed) :
    ∃ t, flushChanged p bcast c = { p with tlbi := t } := by
  unfold flushChanged
  split
  · exact ⟨_, rfl⟩
  · exact ⟨p.tlbi, rfl⟩

lemma edited_flushChanged (p : PageTables) (bcast : Bool) (c : Changed) :
    Edited p (flushChanged p bcast c) := by
  obtain ⟨t, ht⟩ := flushChanged_cases p bcast c
  rw [ht]
  exact ⟨rfl, le_rfl⟩

lemma flushChanged_ptPoolNext (p : PageTables) (bcast : Bool) (c : Changed) :
    (flushChanged p bcast c).ptPoolNext = p.ptPoolNext := by
  obtain ⟨t, ht⟩ := flushChanged_cases p bcast c
  rw [ht]

/-- `p'` is `p` after a call: the generation may be bumped too. -/
def Touched (p p' : PageTables) : Prop :=
  p' = { p with
    tables := p'.tables, ptPoolNext := p'.ptPoolNext, tlbi := p'.tlbi, ptGen := p'.ptGen }

lemma Edited.touched (h : Edited p p') : Touched p p' := by
  unfold Touched
  rw [h.eq]

lemma Touched.trans (h : Touched p p') (h' : Touched p' p'') : Touched p p'' := by
  unfold Touched at *
  rw [h', h]

lemma touched_ptGenBump (p : PageTables) : Touched p p.ptGenBump := rfl

lemma PtWf.setRegs (h : PtWf p) (t : TlbiRequest) (g : ℕ) : PtWf { p with tlbi := t, ptGen := g } :=
  ⟨⟨h.pool.1, h.pool.2, h.pool.3, h.pool.4, h.pool.5, h.pool.6, h.pool.7⟩, h.root, h.entries,
    h.separated⟩

lemma PtWf.flushChanged (h : PtWf p) (bcast : Bool) (c : Changed) :
    PtWf (flushChanged p bcast c) := by
  obtain ⟨t, ht⟩ := flushChanged_cases p bcast c
  rw [ht]
  exact h.setRegs t p.ptGen

lemma blockView_flushChanged (p : PageTables) (bcast : Bool) (c : Changed) (b : ℕ) :
    blockView (flushChanged p bcast c) b = blockView p b := by
  obtain ⟨t, ht⟩ := flushChanged_cases p bcast c
  rw [ht]
  rfl

/-! ### The part of a split block in the range -/

lemma align2MiBDown_eq (addr : ℕ) : align2MiBDown addr = addr / 2 ^ 21 * 2 ^ 21 := by
  rw [align2MiBDown, alignDown, mul_comm]
  rfl

lemma blockEnd_eq (addr : ℕ) :
    align2MiBDown addr + block2MiB = addr / 2 ^ 21 * 2 ^ 21 + 2 ^ 21 := by
  have hb : block2MiB = 2 ^ 21 := rfl
  rw [align2MiBDown_eq, hb]

lemma blockStop_bounds (haddr : addr < stop) : addr < blockStop stop addr ∧
    blockStop stop addr ≤ stop ∧ blockStop stop addr ≤ addr / 2 ^ 21 * 2 ^ 21 + 2 ^ 21 := by
  unfold blockStop
  dsimp only
  rw [align2MiBDown_eq]
  have hb : block2MiB = 2 ^ 21 := rfl
  split <;> omega

lemma blockStop_aligned (hstop : stop % 4096 = 0) : blockStop stop addr % 4096 = 0 := by
  unfold blockStop
  dsimp only
  rw [align2MiBDown_eq]
  have hb : block2MiB = 2 ^ 21 := rfl
  split <;> omega

lemma page_in_range (haddr : addr % 4096 = 0) (he : e % 4096 = 0) (hlt : addr < e)
    (hle : e ≤ addr / 2 ^ 21 * 2 ^ 21 + 2 ^ 21) (hva : va / 2 ^ 21 = addr / 2 ^ 21) :
    (l3Idx addr ≤ l3Idx va ∧ l3Idx va < l3Idx addr + (e - addr) / guestPageSize ↔
      addr ≤ va ∧ va < e) ∧
    (addr ≤ va → addr + (l3Idx va - l3Idx addr) * guestPageSize = va / 4096 * 4096) ∧
    l3Idx addr + (e - addr) / guestPageSize ≤ 512 := by
  unfold l3Idx guestPageSize block2MiB
  omega

lemma rewriteSplitBlock_view (F : ℕ → ℕ → ℕ) (hF : ∀ pa old, PageEntryOk (F pa old))
    (h : PtWf p) (hs : findL2Entry p addr = some s) (ht : isTable (p.read s))
    (haddr : addr % 4096 = 0) (hstop : stop % 4096 = 0) (hlt : addr < stop) :
    let res := rewriteSplitBlock F p s stop addr
    res.1 = blockStop stop addr ∧ PtWf res.2 ∧ Edited p res.2 ∧ res.2.ptPoolNext = p.ptPoolNext ∧
    ∀ b, blockView res.2 b = if b = addr / 2 ^ 21 then
        .pages (rewritten F addr ((blockStop stop addr - addr) / guestPageSize)
          (p.tables (pageAddr (p.read s))))
      else blockView p b := by
  obtain ⟨hb1, hb2, hb3⟩ := blockStop_bounds hlt
  obtain ⟨-, -, hroom⟩ := page_in_range haddr (blockStop_aligned hstop) hb1 hb3
    (rfl : addr / 2 ^ 21 = addr / 2 ^ 21)
  obtain ⟨h1, h2, h3, h4⟩ := rewritePages_view F hF p.isBroadcast
    ((blockStop stop addr - addr) / guestPageSize) (c := Changed.empty) h hs ht hroom
  refine ⟨rfl, h1.flushChanged _ _, h2.edited.trans (edited_flushChanged _ _ _), ?_, fun b => ?_⟩
  · exact (flushChanged_ptPoolNext _ _ _).trans h3
  · exact (blockView_flushChanged _ _ _ b).trans (h4 b)

lemma pageLeaf_zero (va : ℕ) : pageLeaf 0 va = none := rfl

lemma rewritten_leaf (F : ℕ → ℕ → ℕ) (f : ℕ → ℕ) (haddr : addr % 4096 = 0) (he : e % 4096 = 0)
    (hlt : addr < e) (hle : e ≤ addr / 2 ^ 21 * 2 ^ 21 + 2 ^ 21)
        (hva : va / 2 ^ 21 = addr / 2 ^ 21) :
    (BlockView.pages (rewritten F addr ((e - addr) / guestPageSize) f)).leaf va
      = if addr ≤ va ∧ va < e then (BlockView.pages fun k => F (va / 4096 * 4096) (f k)).leaf va
        else (BlockView.pages f).leaf va := by
  obtain ⟨hiff, hpa, -⟩ := page_in_range haddr he hlt hle hva
  show pageLeaf (rewritten F addr ((e - addr) / guestPageSize) f (l3Idx va)) va = _
  unfold rewritten
  by_cases hin : addr ≤ va ∧ va < e
  · rw [if_pos hin, if_pos (hiff.mpr hin), hpa hin.1]
    rfl
  · rw [if_neg hin, if_neg fun hc => hin (hiff.mp hc)]
    rfl

/-! ### Splitting -/

lemma PtWf.block_canonical (h : PtWf p) (hs : findL2Entry p va = some s)
    (hm : p.read s % 4 = 1) : CanonicalPerms (p.read s) := by
  obtain ⟨-, hn, -⟩ := findL2Entry_some h hs
  rcases h.entries _ _ (by simp [l2Path]) hn s.2 with hz | ⟨-, c, hc, hd⟩ | ⟨-, -, hc⟩ | ⟨hl, -, -⟩
  · rw [PageTables.read, hz] at hm
    omega
  · have := makeTableDesc_mod c hc.2.2
    rw [PageTables.read, hd] at hm
    omega
  · exact hc
  · simp [l2Path] at hl

lemma PtWf.l2_cases (h : PtWf p) (hs : findL2Entry p va = some s) :
    p.read s = 0 ∨ p.read s % 4 = 1 ∨ p.read s % 4 = 3 := by
  obtain ⟨-, hn, -⟩ := findL2Entry_some h hs
  rcases h.entry_mod (by simp [l2Path]) hn s.2 with hz | hm | ⟨-, hm⟩
  · exact .inl hz
  · exact .inr (.inr hm)
  · exact .inr (.inl hm)

lemma splitPages_leaf (hd : CanonicalPerms d) (va : ℕ) :
    (BlockView.pages (splitPages d)).leaf va = (BlockView.block d).leaf va := by
  have hk := l3Idx_lt va
  have hb := blockAddr_eq d
  have hlt : blockAddr d + l3Idx va * guestPageSize < 2 ^ 48 := by
    unfold guestPageSize
    omega
  have hal : (blockAddr d + l3Idx va * guestPageSize) % 4096 = 0 := by
    unfold guestPageSize
    omega
  show pageLeaf (splitPages d (l3Idx va)) va = some (blockAddr d + va % block2MiB, descToPerms d)
  rw [splitPages, if_pos hk, pageLeaf, if_pos (isValid_iff.mpr (by
    have := makePageDesc_mod (blockAddr d + l3Idx va * guestPageSize) (descToPerms d)
    omega)), pageAddr_makePageDesc, pageAddr_of_aligned hal hlt, descToPerms_makePageDesc, hd]
  congr 2
  unfold l3Idx guestPageSize block2MiB
  omega

lemma findL2Entry_align (h : PtWf p) (addr : ℕ) :
    findL2Entry p (align2MiBDown addr) = findL2Entry p addr := by
  have hdiv : align2MiBDown addr / 2 ^ 21 = addr / 2 ^ 21 := by
    rw [align2MiBDown_eq]
    omega
  rw [findL2Entry_eq h, findL2Entry_eq h, hdiv]
  by_cases hlt : addr < 2 ^ 48
  · rw [if_pos hlt, if_pos (by rw [align2MiBDown_eq]; omega)]
  · rw [if_neg hlt, if_neg (by rw [align2MiBDown_eq]; omega)]

/-- The walk after a change of one block `b` that rewrites the translation on
the part `R` of it. -/
lemma walk_of_view (h : PtWf p) (h' : PtWf p') {b : ℕ} {R : ℕ → Prop} [DecidablePred R]
    {G : ℕ → Option (ℕ × Perms)}
    (hview : ∀ b', blockView p' b' = if b' = b then v else blockView p b')
    (hR : ∀ va, R va → va / 2 ^ 21 = b ∧ va < 2 ^ 48)
    (hleaf : ∀ va, va / 2 ^ 21 = b → v.leaf va = if R va then G va else (blockView p b).leaf va)
    (va : ℕ) : ptWalk p' va = if R va then G va else ptWalk p va := by
  rw [ptWalk_eq h', ptWalk_eq h, hview]
  by_cases hlt : va < 2 ^ 48
  · rw [if_pos hlt, if_pos hlt]
    by_cases hb : va / 2 ^ 21 = b
    · rw [if_pos hb, hleaf va hb, hb]
    · rw [if_neg hb, if_neg fun hc => hb (hR va hc).1]
  · rw [if_neg hlt, if_neg hlt, if_neg fun hc => hlt (hR va hc).2]

lemma SplitDone.walk (hd : SplitDone p s addr p') (h : PtWf p) (hs : findL2Entry p addr = some s)
    (hm : p.read s % 4 = 1) (va : ℕ) : ptWalk p' va = ptWalk p va := by
  have hleaf : ∀ va, va / 2 ^ 21 = addr / 2 ^ 21 → (BlockView.pages (splitPages (p.read s))).leaf va
      = if False then none else (blockView p (addr / 2 ^ 21)).leaf va := by
    intro va _
    rw [if_neg not_false, blockView_of_find h hs, viewOf_block p hm,
      splitPages_leaf (h.block_canonical hs hm)]
  rw [walk_of_view h hd.wf (R := fun _ => False) hd.view (fun _ hc => hc.elim) hleaf va,
    if_neg not_false]

lemma guestSplitBlock_none (h : PtWf p) (hs : findL2Entry p blk = none) :
    guestSplitBlock p blk = (-1, p) := by
  rw [guestSplitBlock, findL2Entry_align h, hs]

lemma guestSplitBlock_some (h : PtWf p) (hs : findL2Entry p blk = some s) :
    guestSplitBlock p blk = splitL2Block p s := by
  rw [guestSplitBlock, findL2Entry_align h, hs]

lemma guestSplitBlock_walk (h : PtWf p) (blk : ℕ) :
    PtWf (guestSplitBlock p blk).2 ∧ OnlyTables p (guestSplitBlock p blk).2 ∧
    ∀ va, ptWalk (guestSplitBlock p blk).2 va = ptWalk p va := by
  cases hs : findL2Entry p blk with
  | none =>
    rw [guestSplitBlock_none h hs]
    exact ⟨h, OnlyTables.refl p, fun _ => rfl⟩
  | some s =>
    rw [guestSplitBlock_some h hs]
    rcases h.l2_cases hs with hz | hm | hm
    · have heq : splitL2Block p s = (-1, p) := by
        unfold splitL2Block
        rw [hz]
        rfl
      rw [heq]
      exact ⟨h, OnlyTables.refl p, fun _ => rfl⟩
    · rcases split_view h hs hm with ⟨-, heq⟩ | ⟨p', heq, hd⟩
      · rw [heq]
        exact ⟨h, OnlyTables.refl p, fun _ => rfl⟩
      · rw [heq]
        exact ⟨hd.wf, hd.only, hd.walk h hs hm⟩
    have heq : splitL2Block p s = (0, p) := by
      exact if_pos (isTable_iff.mpr hm)
    rw [heq]
    exact ⟨h, OnlyTables.refl p, fun _ => rfl⟩

/-! ### One block of an invalidation -/

/-- The cursor of a block loop: page aligned, and at a block boundary once it has
left the start of the range. -/
structure Cursor (start stop addr : ℕ) : Prop where
  aligned : addr % 4096 = 0
  stop_aligned : stop % 4096 = 0
  lt : addr < stop
  boundary : addr = start ∨ addr % 2 ^ 21 = 0

/-- Where the loop goes on: at the end of the block or of the range. -/
def NextCursor (stop addr addr' : ℕ) : Prop :=
  addr' = blockStop stop addr ∨ addr' = addr / 2 ^ 21 * 2 ^ 21 + 2 ^ 21 ∨ addr' = nextBlock addr

abbrev WholeBlock (start stop addr : ℕ) : Prop :=
  start ≤ align2MiBDown addr ∧ align2MiBDown addr + block2MiB ≤ stop

lemma Cursor.whole (h : Cursor start stop addr) (hw : WholeBlock start stop addr) :
    addr = addr / 2 ^ 21 * 2 ^ 21 ∧ blockStop stop addr = addr / 2 ^ 21 * 2 ^ 21 + 2 ^ 21 := by
  obtain ⟨h1, h2⟩ := hw
  have hb : block2MiB = 2 ^ 21 := rfl
  rw [align2MiBDown_eq] at h1 h2
  refine ⟨?_, ?_⟩
  · rcases h.boundary with h3 | h3 <;> omega
  unfold blockStop
  rw [align2MiBDown_eq, if_neg (by omega), hb]

/-- What a step of a block loop does to the block at the cursor: `G` is the new
translation of an address, given whether its L2 entry was valid and what it
translated to. Only a block that the range cuts can cost a pool page. -/
structure RangeStep (G : ℕ → Bool → Option (ℕ × Perms) → Option (ℕ × Perms)) (start stop : ℕ)
    (p : PageTables) (addr : ℕ) (p' : PageTables) (addr' : ℕ) : Prop where
  next : NextCursor stop addr addr'
  wf : PtWf p'
  edited : Edited p p'
  pool : p'.ptPoolNext ≤ p.ptPoolNext + if WholeBlock start stop addr then 0 else 4096
  walk : ∀ va, ptWalk p' va = if addr ≤ va ∧ va < blockStop stop addr then
    G va (l2Valid p va) (ptWalk p va) else ptWalk p va
  view : ∀ b, b ≠ addr / 2 ^ 21 → blockView p' b = blockView p b

variable {G : ℕ → Bool → Option (ℕ × Perms) → Option (ℕ × Perms)} {addr' : ℕ}

lemma RangeStep.same (h : PtWf p) (hnext : NextCursor stop addr addr')
    (hG : ∀ va, addr ≤ va ∧ va < blockStop stop addr →
      G va (l2Valid p va) (ptWalk p va) = ptWalk p va) : RangeStep G start stop p addr p addr' := by
  refine ⟨hnext, h, Edited.refl p, le_add_right _ _, fun va => ?_, fun _ _ => rfl⟩
  by_cases hin : addr ≤ va ∧ va < blockStop stop addr
  · rw [if_pos hin, hG va hin]
  · rw [if_neg hin]

lemma RangeStep.of_view (h : PtWf p) (h' : PtWf p') (hnext : NextCursor stop addr addr')
    (hed : Edited p p')
    (hpool : p'.ptPoolNext ≤ p.ptPoolNext + if WholeBlock start stop addr then 0 else 4096)
    (hlt : addr < stop) (haddr : addr < 2 ^ 48)
    (hview : ∀ b, blockView p' b = if b = addr / 2 ^ 21 then v else blockView p b)
    (hleaf : ∀ va, va / 2 ^ 21 = addr / 2 ^ 21 → v.leaf va
      = if addr ≤ va ∧ va < blockStop stop addr then G va (l2Valid p va) (ptWalk p va)
        else (blockView p (addr / 2 ^ 21)).leaf va) : RangeStep G start stop p addr p' addr' := by
  obtain ⟨-, -, hend⟩ := blockStop_bounds hlt
  refine ⟨hnext, h', hed, hpool, fun va => ?_, fun b hb => ?_⟩
  · exact walk_of_view (R := fun va => addr ≤ va ∧ va < blockStop stop addr)
      (G := fun va => G va (l2Valid p va) (ptWalk p va)) h h' hview
      (fun va hva => by omega) hleaf va
  · rw [hview, if_neg hb]

/-- A step that rewrites pages of a block that is split, or has just been. -/
lemma RangeStep.rewrite (F : ℕ → ℕ → ℕ)
    (hF : ∀ pa old, PageEntryOk (F pa old)) (h : PtWf p) (h₁ : PtWf p₁) (hed : Edited p p₁)
    (hpool : p₁.ptPoolNext ≤ p.ptPoolNext + if WholeBlock start stop addr then 0 else 4096)
    (hs : findL2Entry p₁ addr = some s) (ht : isTable (p₁.read s)) (hc : Cursor start stop addr)
    (hview : ∀ b, b ≠ addr / 2 ^ 21 → blockView p₁ b = blockView p b)
    (hleaf : ∀ va, va / 2 ^ 21 = addr / 2 ^ 21 →
      pageLeaf (p₁.tables (pageAddr (p₁.read s)) (l3Idx va)) va
        = (blockView p (addr / 2 ^ 21)).leaf va) (hG : ∀ va, va / 2 ^ 21 = addr / 2 ^ 21 →
      pageLeaf (F (va / 4096 * 4096) (p₁.tables (pageAddr (p₁.read s)) (l3Idx va))) va
        = G va (l2Valid p va) (ptWalk p va)) :
    RangeStep G start stop p addr (rewriteSplitBlock F p₁ s stop addr).2
      (rewriteSplitBlock F p₁ s stop addr).1 := by
  obtain ⟨hb1, -, hb3⟩ := blockStop_bounds hc.lt
  obtain ⟨h1, h2, h3, h4, h5⟩ := rewriteSplitBlock_view F hF h₁ hs ht hc.aligned hc.stop_aligned
    hc.lt
  refine RangeStep.of_view (v := .pages (rewritten F addr
      ((blockStop stop addr - addr) / guestPageSize) (p₁.tables (pageAddr (p₁.read s)))))
    h h2 (.inl h1) (hed.trans h3) (h4 ▸ hpool) hc.lt
    (findL2Entry_some h₁ hs).1 (fun b => ?_) (fun va hva => ?_)
  · rw [h5 b]
    by_cases hb : b = addr / 2 ^ 21
    · rw [if_pos hb, if_pos hb]
    · rw [if_neg hb, if_neg hb, hview b hb]
  · rw [rewritten_leaf _ _ hc.aligned (blockStop_aligned hc.stop_aligned) hb1 hb3 hva]
    exact if_congr Iff.rfl (hG va hva) (hleaf va hva)

section InvalidateStep

lemma invalidateStep_none (hs : findL2Entry p addr = none) :
    invalidateStep start stop p addr = some (nextBlock addr, p) := by
  rw [invalidateStep, hs]

lemma invalidateStep_table (hs : findL2Entry p addr = some s) (hm : p.read s % 4 = 3) :
    invalidateStep start stop p addr = some (rewriteSplitBlock (fun _ _ => 0) p s stop addr) := by
  rw [invalidateStep, hs]
  dsimp only
  rw [isValid_iff.mpr (by omega), isBlock_table hm]
  rfl

end InvalidateStep

/-- What a block loop writes: the entry of a page, the entry of a whole block, and
the blocks it leaves as they are. -/
structure BlockEdit where
  page : ℕ → ℕ → ℕ
  block : ℕ → ℕ
  same : ℕ → Prop
  page_ok : ∀ pa old, PageEntryOk (page pa old)
  block_ok : ∀ d, block d = 0 ∨ (block d % 4 = 1 ∧ CanonicalPerms (block d))

/-- The outcomes of a step of a block loop. -/
inductive BlockStep (w : BlockEdit) (start stop : ℕ) (p : PageTables) (addr : ℕ) :
    Option (ℕ × PageTables) → Prop
  | absent (hs : findL2Entry p addr = none) :
      BlockStep w start stop p addr (some (nextBlock addr, p))
  | empty {s : Slot} (hs : findL2Entry p addr = some s) (hz : p.read s = 0) :
    BlockStep w start stop p addr (some (align2MiBDown addr + block2MiB, p))
  | equal {s : Slot} (hs : findL2Entry p addr = some s) (hm : p.read s % 4 = 1)
      (hp : w.same (p.read s)) :
    BlockStep w start stop p addr (some (align2MiBDown addr + block2MiB, p))
  | whole {s : Slot} (hs : findL2Entry p addr = some s) (hm : p.read s % 4 = 1)
      (hw : WholeBlock start stop addr) :
    BlockStep w start stop p addr (some (align2MiBDown addr + block2MiB,
      (p.write s (w.block (p.read s))).requestRange (align2MiBDown addr)
        (align2MiBDown addr + block2MiB)))
  | part {s : Slot} (hs : findL2Entry p addr = some s) (hm : p.read s % 4 = 1)
      (hw : ¬ WholeBlock start stop addr) :
    BlockStep w start stop p addr (if (splitL2Block p s).1 < 0 then none
      else some (rewriteSplitBlock w.page (splitL2Block p s).2 s stop addr))
  | table {s : Slot} (hs : findL2Entry p addr = some s) (hm : p.read s % 4 = 3) :
    BlockStep w start stop p addr (some (rewriteSplitBlock w.page p s stop addr))

def clearing : BlockEdit :=
  ⟨fun _ _ => 0, fun _ => 0, fun _ => False, fun _ _ => .inl rfl, fun _ => .inl rfl⟩

lemma invalidateStep_cases (h : PtWf p) (start stop addr : ℕ) :
    BlockStep clearing start stop p addr (invalidateStep start stop p addr) := by
  cases hs : findL2Entry p addr with
  | none =>
    rw [invalidateStep_none hs]
    exact .absent hs
  | some s =>
    rcases h.l2_cases hs with hz | hm | hm
    · rw [invalidateStep, hs]
      dsimp only
      rw [hz]
      exact .empty hs hz
    · rw [invalidateStep, hs]
      dsimp only
      rw [isValid_iff.mpr (by omega), isBlock_iff.mpr hm]
      by_cases hw : WholeBlock start stop addr
      · rw [if_pos hw]
        exact .whole hs hm hw
      · rw [if_neg hw, guestSplitBlock_some h ((findL2Entry_align h addr).trans hs)]
        exact .part hs hm hw
    · rw [invalidateStep_table hs hm]
      exact .table hs hm

/-- A step of a block loop: it fails only for want of a pool page, on a block
that the range cuts, and otherwise does what `G` says. -/
def StepSpec (G : ℕ → Bool → Option (ℕ × Perms) → Option (ℕ × Perms)) (start stop : ℕ)
    (step : PageTables → ℕ → Option (ℕ × PageTables)) : Prop :=
  ∀ p addr, PtWf p → Cursor start stop addr →
    (step p addr = none ∧ p.ptPoolEnd < p.ptPoolNext + 4096 ∧ ¬ WholeBlock start stop addr) ∨
    ∃ addr' p', step p addr = some (addr', p') ∧ RangeStep G start stop p addr p' addr'

lemma l2Valid_of_find (hs : findL2Entry p va = none) : l2Valid p va = false := by
  rw [l2Valid, hs]

lemma same_block (hlt : addr < stop) (hva : addr ≤ va ∧ va < blockStop stop addr) :
    va / 2 ^ 21 = addr / 2 ^ 21 := by
  obtain ⟨-, -, hb⟩ := blockStop_bounds hlt
  omega

lemma l2Valid_block (h : PtWf p) (hva : va / 2 ^ 21 = addr / 2 ^ 21) :
    l2Valid p va = l2Valid p addr := by
  rw [l2Valid_eq h, l2Valid_eq h, hva]
  congr 1
  rw [decide_eq_decide]
  omega

lemma l2Valid_some (hs : findL2Entry p addr = some s) : l2Valid p addr = isValid (p.read s) := by
  rw [l2Valid, hs]

lemma walk_of_find (h : PtWf p) (hs : findL2Entry p addr = some s)
    (hva : va / 2 ^ 21 = addr / 2 ^ 21) : ptWalk p va = (viewOf p (p.read s)).leaf va := by
  have := (findL2Entry_some h hs).1
  rw [ptWalk_eq h, if_pos (by omega), hva, blockView_of_find h hs]

lemma RangeStep.absent (h : PtWf p) (hc : Cursor start stop addr)
    (hnext : NextCursor stop addr addr') (hG : ∀ va, G va false none = none)
    (hv : l2Valid p addr = false) : RangeStep G start stop p addr p addr' := by
  refine RangeStep.same h hnext fun va hva => ?_
  have hfalse : l2Valid p va = false := (l2Valid_block h (same_block hc.lt hva)).trans hv
  rw [hfalse, walk_of_not_l2Valid hfalse]
  exact hG va

/-- The part of a block that the range cuts: split it, then rewrite the pages. -/
lemma stepSpec_cut (F : ℕ → ℕ → ℕ) (hF : ∀ pa old, PageEntryOk (F pa old)) (h : PtWf p)
    (hc : Cursor start stop addr) (hs : findL2Entry p addr = some s) (hm : p.read s % 4 = 1)
    (hw : ¬ WholeBlock start stop addr) (hG : ∀ va k, va / 2 ^ 21 = addr / 2 ^ 21 →
      pageLeaf k va = (BlockView.block (p.read s)).leaf va →
      pageLeaf (F (va / 4096 * 4096) k) va = G va true (pageLeaf k va)) :
    ((splitL2Block p s).1 < 0 ∧ p.ptPoolEnd < p.ptPoolNext + 4096) ∨ (¬ (splitL2Block p s).1 < 0 ∧
      RangeStep G start stop p addr (rewriteSplitBlock F (splitL2Block p s).2 s stop addr).2
        (rewriteSplitBlock F (splitL2Block p s).2 s stop addr).1) := by
  rcases split_view h hs hm with ⟨hpool, heq⟩ | ⟨p1, heq, hd⟩
  · rw [heq]
    exact .inl ⟨(by decide : (-1 : ℤ) < 0), hpool⟩
  rw [heq]
  have hleaf : ∀ va, pageLeaf (p1.tables (pageAddr (p1.read s)) (l3Idx va)) va
      = (BlockView.block (p.read s)).leaf va := by
    intro va
    rw [hd.pages]
    exact splitPages_leaf (h.block_canonical hs hm) va
  refine .inr ⟨Int.lt_irrefl 0, RangeStep.rewrite F hF h hd.wf hd.only.edited ?_ hd.find hd.table
    hc ?_ ?_ ?_⟩
  · rw [if_neg hw]
    exact le_of_eq hd.next
  · intro b hb
    rw [hd.view b, if_neg hb]
  · intro va _
    rw [hleaf va, blockView_of_find h hs, viewOf_block p hm]
  intro va hva
  rw [hG va _ hva (hleaf va), l2Valid_block h hva, l2Valid_some hs,
    isValid_iff.mpr (by omega), walk_of_find h hs hva, viewOf_block p hm, hleaf va]

lemma RangeStep.table (F : ℕ → ℕ → ℕ) (hF : ∀ pa old, PageEntryOk (F pa old)) (h : PtWf p)
    (hc : Cursor start stop addr) (hs : findL2Entry p addr = some s) (hm : p.read s % 4 = 3)
    (hG : ∀ va k, pageLeaf (F (va / 4096 * 4096) k) va = G va true (pageLeaf k va)) :
    RangeStep G start stop p addr (rewriteSplitBlock F p s stop addr).2
      (rewriteSplitBlock F p s stop addr).1 := by
  refine RangeStep.rewrite F hF h h (Edited.refl p) (le_add_right _ _) hs
    (isTable_iff.mpr hm) hc (fun _ _ => rfl) (fun va _ => ?_) (fun va hva => ?_)
  · rw [blockView_of_find h hs, viewOf_table p hm]
    rfl
  rw [hG, l2Valid_block h hva, l2Valid_some hs, isValid_iff.mpr (by omega),
    walk_of_find h hs hva, viewOf_table p hm]
  rfl

lemma RangeStep.whole (h : PtWf p) (hc : Cursor start stop addr) (hw : WholeBlock start stop addr)
    (hs : findL2Entry p addr = some s) (hm : p.read s % 4 = 1)
    (hd : d = 0 ∨ (d % 4 = 1 ∧ CanonicalPerms d))
    (hG : ∀ va, (viewOf p d).leaf va = G va true ((BlockView.block (p.read s)).leaf va))
        (lo hi : ℕ) :
    RangeStep G start stop p addr ((p.write s d).requestRange lo hi)
      (align2MiBDown addr + block2MiB) := by
  have hnt : isTable (p.read s) = false := by
    rw [← Bool.not_eq_true, isTable_iff]
    omega
  obtain ⟨hw1, hw2⟩ := hc.whole hw
  obtain ⟨hwf, hview⟩ := writeL2_view h hs hnt hd
  refine RangeStep.of_view (v := viewOf p d) h (hwf.setRegs _ _)
    (.inr (.inl (blockEnd_eq addr)))
    ((onlyTables_write p s d).edited.trans ⟨rfl, le_rfl⟩) (le_add_right _ _)
    hc.lt (findL2Entry_some h hs).1 hview (fun va hva => ?_)
  rw [if_pos (by omega), hG, l2Valid_block h hva, l2Valid_some hs, isValid_iff.mpr (by omega),
    walk_of_find h hs hva, viewOf_block p hm]

lemma BlockStep.spec (w : BlockEdit) (hnone : ∀ va, G va false none = none)
    (hpage : ∀ va k, pageLeaf (w.page (va / 4096 * 4096) k) va = G va true (pageLeaf k va))
    (hblock : ∀ p d va, (viewOf p (w.block d)).leaf va = G va true ((BlockView.block d).leaf va))
    (hsame : ∀ d va, CanonicalPerms d → w.same d →
      G va true ((BlockView.block d).leaf va) = (BlockView.block d).leaf va)
    (hstep : ∀ p addr, PtWf p → BlockStep w start stop p addr (step p addr)) :
    StepSpec G start stop step := by
  intro p addr h hc
  have hcase := hstep p addr h
  generalize step p addr = res at hcase ⊢
  cases hcase with
  | absent hs =>
    exact .inr ⟨_, _, rfl, RangeStep.absent h hc (.inr (.inr rfl)) hnone (l2Valid_of_find hs)⟩
  | empty hs hz =>
    refine .inr ⟨_, _, rfl, RangeStep.absent h hc (.inr (.inl (blockEnd_eq addr))) hnone ?_⟩
    rw [l2Valid_some hs, hz]
    rfl
  | equal hs hm hp =>
    refine .inr ⟨_, _, rfl, RangeStep.same h (.inr (.inl (blockEnd_eq addr))) fun va hva => ?_⟩
    have hblk := same_block hc.lt hva
    rw [l2Valid_block h hblk, l2Valid_some hs, isValid_iff.mpr (by omega),
      walk_of_find h hs hblk, viewOf_block p hm, hsame _ va (h.block_canonical hs hm) hp]
  | whole hs hm hw =>
    exact .inr ⟨_, _, rfl, RangeStep.whole h hc hw hs hm (w.block_ok _) (hblock p _) _ _⟩
  | part hs hm hw =>
    rcases stepSpec_cut (G := G) _ w.page_ok h hc hs hm hw (fun va k _ _ => hpage va k) with
      ⟨hneg, hpool⟩ | ⟨hpos, hrange⟩
    · rw [if_pos hneg]
      exact .inl ⟨rfl, hpool, hw⟩
    · rw [if_neg hpos]
      exact .inr ⟨_, _, rfl, hrange⟩
  | table hs hm => exact .inr ⟨_, _, rfl, RangeStep.table _ w.page_ok h hc hs hm hpage⟩

lemma invalidateStep_spec (start stop : ℕ) :
    StepSpec (fun _ _ _ => none) start stop (invalidateStep start stop) :=
  BlockStep.spec clearing (fun _ => rfl) (fun va _ => pageLeaf_zero va)
    (fun p _ va => (rfl : (viewOf p 0).leaf va = none)) (fun _ _ _ => False.elim)
    fun _ addr h => invalidateStep_cases h start stop addr

/-! ### One block of a permission change -/

section UpdateStep

variable {rs : List GuestRegion} {perms : Perms}

lemma updateStep_none (hs : findL2Entry p addr = none) :
    updateStep rs perms start stop p addr = some (nextBlock addr, p) := by
  rw [updateStep, hs]

lemma updateStep_table (hs : findL2Entry p addr = some s) (hm : p.read s % 4 = 3) :
    updateStep rs perms start stop p addr
      = some (rewriteSplitBlock (updatedPage rs perms) p s stop addr) := by
  rw [updateStep, hs]
  dsimp only
  rw [isValid_iff.mpr (by omega), isBlock_table hm]
  rfl

def updating (rs : List GuestRegion) (perms : Perms) : BlockEdit where
  page := updatedPage rs perms
  block d := makeBlockDesc (blockAddr d) perms
  same d := descToPerms d = perms
  page_ok _ _ := pageEntryOk_makePageDesc _ _
  block_ok d := by
    refine .inr ⟨makeBlockDesc_mod _ _, ?_⟩
    rw [CanonicalPerms, descToPerms_makeBlockDesc, Perms.norm_norm]

/-- A permission change gives the part of the block in the range the new
permissions. -/
lemma updateStep_cases (h : PtWf p) (rs : List GuestRegion) (perms : Perms) (start stop addr : ℕ) :
    BlockStep (updating rs perms) start stop p addr (updateStep rs perms start stop p addr) := by
  cases hs : findL2Entry p addr with
  | none =>
    rw [updateStep_none hs]
    exact .absent hs
  | some s =>
    rcases h.l2_cases hs with hz | hm | hm
    · rw [updateStep, hs]
      dsimp only
      rw [hz]
      exact .empty hs hz
    · rw [updateStep, hs]
      dsimp only
      rw [isValid_iff.mpr (by omega), isBlock_iff.mpr hm]
      by_cases hp : descToPerms (p.read s) = perms
      · rw [if_pos hp, if_pos hp, ite_self]
        exact .equal hs hm hp
      by_cases hw : WholeBlock start stop addr
      · rw [if_pos hw, if_neg hp]
        exact .whole hs hm hw
      · rw [if_neg hw, if_neg hp, guestSplitBlock_some h ((findL2Entry_align h addr).trans hs)]
        exact .part hs hm hw
    · rw [updateStep_table hs hm]
      exact .table hs hm

end UpdateStep

/-- The translation `guest_update_perms` leaves at an address of its range. -/
def updatedLeaf (rs : List GuestRegion) (perms : Perms) (va : ℕ) (valid : Bool)
    (old : Option (ℕ × Perms)) : Option (ℕ × Perms) :=
  if valid then
    some (match old with
      | some x => x.1
      | none => pageAddr (recoveredIpa rs (va / 4096 * 4096)) + va % 4096, perms.norm)
  else none

lemma pageAddr_pageAddr (d : ℕ) : pageAddr (pageAddr d) = pageAddr d := by
  have h := pageAddr_eq d
  exact pageAddr_of_aligned (by omega) (by omega)

lemma updatedPage_leaf (rs : List GuestRegion) (perms : Perms) (va old : ℕ) :
    pageLeaf (updatedPage rs perms (va / 4096 * 4096) old) va
      = updatedLeaf rs perms va true (pageLeaf old va) := by
  have hv : isValid (updatedPage rs perms (va / 4096 * 4096) old) := by
    have := makePageDesc_mod (if isValid old then pageAddr old
      else recoveredIpa rs (va / 4096 * 4096)) perms
    exact isValid_iff.mpr (by rw [updatedPage]; omega)
  rw [pageLeaf, if_pos hv, updatedPage, pageAddr_makePageDesc, descToPerms_makePageDesc, pageLeaf]
  cases isValid old
  · rfl
  · show some (pageAddr (pageAddr old) + _, _) = some (pageAddr old + _, _)
    rw [pageAddr_pageAddr]

lemma blockAddr_blockAddr (d : ℕ) : blockAddr (blockAddr d) = blockAddr d := by
  have h := blockAddr_eq d
  exact blockAddr_of_aligned (by omega) (by omega)

lemma updatedLeaf_block (rs : List GuestRegion) (perms : Perms) (d va : ℕ) :
    updatedLeaf rs perms va true ((BlockView.block d).leaf va)
      = some (blockAddr d + va % block2MiB, perms.norm) := rfl

lemma updateStep_spec (rs : List GuestRegion) (perms : Perms) (start stop : ℕ) :
    StepSpec (updatedLeaf rs perms) start stop (updateStep rs perms start stop) := by
  refine BlockStep.spec (updating rs perms) (fun _ => rfl) (updatedPage_leaf rs perms)
    (fun p d va => ?_) (fun d va hcan hp => ?_)
    fun _ addr h => updateStep_cases h rs perms start stop addr
  · rw [updating, viewOf_block p (makeBlockDesc_mod _ _), updatedLeaf_block]
    show some (blockAddr (makeBlockDesc _ perms) + _, descToPerms (makeBlockDesc _ perms)) = _
    rw [blockAddr_makeBlockDesc, blockAddr_blockAddr, descToPerms_makeBlockDesc]
  · -- the block has the permissions, and they are what the encoding keeps of them
    have hnorm : perms.norm = descToPerms d := (show descToPerms d = perms from hp) ▸ hcan
    rw [updatedLeaf_block, hnorm]
    rfl

/-! ### The loop over the blocks of a range -/

abbrev CutsFirst (start stop : ℕ) : Prop := ¬ WholeBlock start stop start

/-- The range ends inside another block than the one it starts in. -/
abbrev CutsLast (start stop : ℕ) : Prop := stop % 2 ^ 21 ≠ 0 ∧ stop / 2 ^ 21 ≠ start / 2 ^ 21

/-- How many blocks the range cuts: each may have to be split. -/
def cutBlocks (start stop : ℕ) : ℕ :=
  (if CutsFirst start stop then 1 else 0) + if CutsLast start stop then 1 else 0

/-- Where a block loop stands after some steps from `p₀`: the range is done up to
the cursor. -/
structure RangeRun (G : ℕ → Bool → Option (ℕ × Perms) → Option (ℕ × Perms)) (start stop : ℕ)
    (p₀ : PageTables) (addr : ℕ) (p : PageTables) : Prop where
  cursor : addr < stop → Cursor start stop addr
  ge : start ≤ addr
  wf : PtWf p
  edited : Edited p₀ p
  pool : p.ptPoolNext ≤ p₀.ptPoolNext
    + (if addr ≠ start ∧ CutsFirst start stop then 4096 else 0)
    + if stop ≤ addr ∧ CutsLast start stop then 4096 else 0
  walk : ∀ va, ptWalk p va = if start ≤ va ∧ va < addr ∧ va < stop then
    G va (l2Valid p₀ va) (ptWalk p₀ va) else ptWalk p₀ va
  view : ∀ b, addr < stop → addr < (b + 1) * 2 ^ 21 → blockView p b = blockView p₀ b

lemma RangeRun.init (h : PtWf p) (hc : Cursor start stop start) :
    RangeRun G start stop p start p := by
  refine ⟨fun _ => hc, le_rfl, h, Edited.refl p, ?_, fun va => ?_, fun _ _ _ => rfl⟩
  · omega
  · rw [if_neg (by omega)]

/-- The next cursor, away from the top of the address space: past the block, or
at the end of the range. -/
lemma NextCursor.bounds (h : NextCursor stop addr addr') (hlt : addr < stop)
    (htop : stop ≤ 2 ^ 64 - 2 ^ 21) : blockStop stop addr ≤ addr' ∧
      addr' ≤ addr / 2 ^ 21 * 2 ^ 21 + 2 ^ 21 ∧ addr < addr' ∧
      (blockStop stop addr = stop ∨ blockStop stop addr = addr / 2 ^ 21 * 2 ^ 21 + 2 ^ 21) := by
  have hb : block2MiB = 2 ^ 21 := rfl
  have hnext : nextBlock addr = addr / 2 ^ 21 * 2 ^ 21 + 2 ^ 21 := by
    rw [nextBlock, align2MiBUp, alignUp, hb, u64, u64]
    omega
  have hstop : blockStop stop addr = stop ∨
      blockStop stop addr = addr / 2 ^ 21 * 2 ^ 21 + 2 ^ 21 := by
    unfold blockStop
    dsimp only
    rw [blockEnd_eq]
    split
    · exact .inl rfl
    · exact .inr rfl
  obtain ⟨h1, h2, h3⟩ := blockStop_bounds hlt
  rcases h with h | h | h <;> omega

lemma Cursor.wholeBlock (h : Cursor start stop addr) (hge : start ≤ addr) (hne : addr ≠ start)
    (hend : addr / 2 ^ 21 * 2 ^ 21 + 2 ^ 21 ≤ stop) : WholeBlock start stop addr := by
  rcases h.boundary with hc | hc
  · exact absurd hc hne
  refine ⟨?_, ?_⟩
  · rw [align2MiBDown_eq]
    omega
  · rw [blockEnd_eq]
    exact hend

lemma Cursor.cutsLast (h : Cursor start stop addr) (hge : start ≤ addr) (hne : addr ≠ start)
    (hcut : ¬ WholeBlock start stop addr) :
    CutsLast start stop ∧ stop < addr / 2 ^ 21 * 2 ^ 21 + 2 ^ 21 := by
  have hlt := h.lt
  have hend : stop < addr / 2 ^ 21 * 2 ^ 21 + 2 ^ 21 :=
    Nat.lt_of_not_le fun hc => hcut (h.wholeBlock hge hne hc)
  rcases h.boundary with hc | hc
  · exact absurd hc hne
  · exact ⟨by omega, hend⟩

/-- The pool after a step: only the first and the last block can have been cut. -/
lemma RangeRun.step_pool (h : RangeRun G start stop p0 addr p) (hlt : addr < stop)
    (hs : RangeStep G start stop p addr p' addr') (hne : start < addr')
    (hlast : stop < addr / 2 ^ 21 * 2 ^ 21 + 2 ^ 21 → stop ≤ addr') :
    p'.ptPoolNext ≤ p0.ptPoolNext + (if addr' ≠ start ∧ CutsFirst start stop then 4096 else 0)
      + if stop ≤ addr' ∧ CutsLast start stop then 4096 else 0 := by
  have hp := h.pool
  have hp' := hs.pool
  rw [if_neg (fun hc => absurd hc.1 (by omega) : ¬ (stop ≤ addr ∧ CutsLast start stop))] at hp
  by_cases hfirst : addr = start
  · rw [if_neg (fun hc => hc.1 hfirst)] at hp
    by_cases hcut : CutsFirst start stop
    · rw [if_pos ⟨by omega, hcut⟩]
      split at hp' <;> omega
    · rw [hfirst, if_pos (not_not.mp hcut)] at hp'
      omega
  by_cases hcut : WholeBlock start stop addr
  · rw [if_pos hcut] at hp'
    have hmono : (if addr ≠ start ∧ CutsFirst start stop then 4096 else 0)
        = if addr' ≠ start ∧ CutsFirst start stop then 4096 else 0 :=
      if_congr (and_congr_left' (iff_of_true hfirst (by omega))) rfl rfl
    omega
  obtain ⟨hcl, hend⟩ := (h.cursor hlt).cutsLast h.ge hfirst hcut
  have hmono : (if addr ≠ start ∧ CutsFirst start stop then 4096 else 0)
      = if addr' ≠ start ∧ CutsFirst start stop then 4096 else 0 :=
    if_congr (and_congr_left' (iff_of_true hfirst (by omega))) rfl rfl
  rw [if_neg hcut] at hp'
  rw [← hmono, if_pos (⟨hlast hend, hcl⟩ : stop ≤ addr' ∧ CutsLast start stop)]
  omega

lemma RangeRun.step (h0 : PtWf p0) (h : RangeRun G start stop p0 addr p) (hlt : addr < stop)
    (htop : stop ≤ 2 ^ 64 - 2 ^ 21) (hs : RangeStep G start stop p addr p' addr') :
    RangeRun G start stop p0 addr' p' := by
  have hc := h.cursor hlt
  have hal := hc.stop_aligned
  have hge := h.ge
  obtain ⟨hb1, hb2, hb3, hb4⟩ := hs.next.bounds hlt htop
  obtain ⟨hs1, hs2, hs3⟩ := blockStop_bounds hlt
  refine ⟨fun hlt' => ⟨by omega, hal, hlt', .inr (by omega)⟩, by omega, hs.wf,
    h.edited.trans hs.edited, h.step_pool hlt hs (by omega) (by omega), fun va => ?_,
    fun b hb hb' => ?_⟩
  · rw [hs.walk va, h.walk va]
    by_cases hin : addr ≤ va ∧ va < blockStop stop addr
    · have hvalid : l2Valid p va = l2Valid p0 va := by
        rw [l2Valid_eq h.wf, l2Valid_eq h0, h.view _ hlt (by omega)]
      rw [if_pos hin, if_neg (by omega), if_pos (by omega), hvalid]
    rw [if_neg hin]
    split
    · rw [if_pos (by omega)]
    · rw [if_neg (by omega)]
  · rw [hs.view b (by omega), h.view b hlt (by omega)]

/-- A block loop returns. It fails only for want of a pool page at the cursor;
otherwise the whole range is done, and the generation is bumped. -/
lemma blockLoop_run (hstep : StepSpec G start stop step) (htop : stop ≤ 2 ^ 64 - 2 ^ 21)
    (h0 : PtWf p0) : ∀ n addr p, RangeRun G start stop p0 addr p → stop - addr < n →
      (∃ q a, blockLoop step stop n addr p = some (-1, q) ∧ a < stop ∧
        RangeRun G start stop p0 a q ∧ q.ptPoolEnd < q.ptPoolNext + 4096 ∧
        ¬ WholeBlock start stop a) ∨
      ∃ q a, blockLoop step stop n addr p = some (0, q.ptGenBump) ∧ stop ≤ a ∧
        RangeRun G start stop p0 a q := by
  intro n
  induction n with
  | zero =>
    intro addr p _ hfuel
    omega
  | succ n ih =>
    intro addr p h hfuel
    rw [blockLoop]
    by_cases hlt : addr < stop
    · rw [if_pos hlt]
      rcases hstep p addr h.wf (h.cursor hlt) with ⟨hnone, hpool, hw⟩ | ⟨addr', p', hsome, hrs⟩
      · rw [hnone]
        exact .inl ⟨p, addr, rfl, hlt, h, hpool, hw⟩
      rw [hsome]
      have := (hrs.next.bounds hlt htop).2.2.1
      exact ih addr' p' (h.step h0 hlt htop hrs) (by omega)
    · rw [if_neg hlt]
      exact .inr ⟨p, addr, rfl, by omega, h⟩

lemma Cursor.next (h : Cursor start stop addr) (hnext : NextCursor stop addr addr')
    (hlt : addr' < stop) : Cursor start stop addr' := by
  have hb : block2MiB = 2 ^ 21 := rfl
  have hal : addr' % 2 ^ 21 = 0 := by
    rcases hnext with heq | heq | heq
    · have hcase : blockStop stop addr = stop ∨
          blockStop stop addr = addr / 2 ^ 21 * 2 ^ 21 + 2 ^ 21 := by
        unfold blockStop
        dsimp only
        rw [blockEnd_eq]
        split
        · exact .inl rfl
        · exact .inr rfl
      omega
    · omega
    · rw [heq, nextBlock, align2MiBUp, alignUp, hb]
      omega
  exact ⟨by omega, h.stop_aligned, hlt, .inr hal⟩

lemma blockLoop_wf (hstep : StepSpec G start stop step) : ∀ n addr p res, PtWf p →
      (addr < stop → Cursor start stop addr) → blockLoop step stop n addr p = some res →
      PtWf res.2 ∧ Touched p res.2 := by
  intro n
  induction n with
  | zero =>
    intro addr p res _ _ hres
    cases hres
  | succ n ih =>
    intro addr p res h hc hres
    rw [blockLoop] at hres
    by_cases hlt : addr < stop
    · rw [if_pos hlt] at hres
      rcases hstep p addr h (hc hlt) with ⟨hnone, -, -⟩ | ⟨addr', p', hsome, hrs⟩
      · rw [hnone] at hres
        obtain rfl := Option.some_inj.mp hres
        exact ⟨h, (Edited.refl p).touched⟩
      rw [hsome] at hres
      obtain ⟨h1, h2⟩ := ih addr' p' res hrs.wf ((hc hlt).next hrs.next) hres
      exact ⟨h1, hrs.edited.touched.trans h2⟩
    · rw [if_neg hlt] at hres
      obtain rfl := Option.some_inj.mp hres
      exact ⟨h.setRegs p.tlbi (p.ptGen + 1), touched_ptGenBump p⟩

/-! ### The operations on a range -/

structure PageRange (start stop : ℕ) : Prop where
  start_aligned : start % 4096 = 0
  stop_aligned : stop % 4096 = 0
  lt : start < stop
  top : stop ≤ 2 ^ 64 - 2 ^ 21

lemma PageRange.cursor (h : PageRange start stop) : Cursor start stop start :=
  ⟨h.start_aligned, h.stop_aligned, h.lt, .inl rfl⟩

lemma alignDown_page (h : start % 4096 = 0) : alignDown start guestPageSize = start := by
  unfold alignDown guestPageSize
  omega

lemma pageAlignUp_page (h : stop % 4096 = 0) (htop : stop ≤ 2 ^ 64 - 4096) :
    pageAlignUp stop = stop := by
  unfold pageAlignUp alignUp guestPageSize u64
  omega

/-- What a call on a range leaves, whether it fails or not: `G` up to some point
`a` of the range, the end if it succeeds. -/
structure RangeCall (G : ℕ → Bool → Option (ℕ × Perms) → Option (ℕ × Perms)) (start stop : ℕ)
    (p : PageTables) (res : ℤ × PageTables) (a : ℕ) : Prop where
  wf : PtWf res.2
  walk : ∀ va, ptWalk res.2 va = if start ≤ va ∧ va < a then
    G va (l2Valid p va) (ptWalk p va) else ptWalk p va
  le : a ≤ stop
  ret : res.1 = 0 ∧ a = stop ∧ res.2.ptGen = p.ptGen + 1 ∨
    res.1 = -1 ∧ res.2.ptGen = p.ptGen ∧
      p.ptPoolEnd < p.ptPoolNext + cutBlocks start stop * 4096
  frame : Touched p res.2

lemma RangeRun.short (h : RangeRun G start stop p0 addr p) (hlt : addr < stop)
    (hpool : p.ptPoolEnd < p.ptPoolNext + 4096) (hcut : ¬ WholeBlock start stop addr) :
    p0.ptPoolEnd < p0.ptPoolNext + cutBlocks start stop * 4096 := by
  have hp := h.pool
  have hend : p.ptPoolEnd = p0.ptPoolEnd := by rw [h.edited.eq]
  rw [if_neg (fun hc => absurd hc.1 (by omega) : ¬ (stop ≤ addr ∧ CutsLast start stop))] at hp
  unfold cutBlocks
  by_cases hfirst : addr = start
  · rw [if_neg (fun hc => hc.1 hfirst)] at hp
    rw [if_pos (hfirst ▸ hcut)]
    omega
  rw [if_pos ((h.cursor hlt).cutsLast h.ge hfirst hcut).1]
  split at hp
  · rename_i hboth
    rw [if_pos hboth.2]
    omega
  · omega

lemma blockLoop_call (hstep : StepSpec G start stop step) (hr : PageRange start stop) (h : PtWf p) :
    ∃ res a, blockLoop step stop loopFuel start p = some res ∧ RangeCall G start stop p res a := by
  have hfuel : stop - start < loopFuel := by
    have := hr.top
    unfold loopFuel
    omega
  rcases blockLoop_run hstep hr.top h loopFuel start p (RangeRun.init h hr.cursor) hfuel with
    ⟨q, a, heq, ha, hrun, hpool, hcut⟩ | ⟨q, a, heq, ha, hrun⟩
  · refine ⟨_, a, heq, hrun.wf, fun va => ?_, le_of_lt ha,
      .inr ⟨rfl, ?_, hrun.short ha hpool hcut⟩, ?_⟩
    · rw [hrun.walk va]
      exact if_congr (by omega) rfl rfl
    · rw [hrun.edited.eq]
    · exact hrun.edited.touched
  refine ⟨_, stop, heq, hrun.wf.setRegs q.tlbi (q.ptGen + 1), fun va => ?_, le_rfl,
    .inl ⟨rfl, rfl, ?_⟩, ?_⟩
  · show ptWalk q va = _
    rw [hrun.walk va]
    exact if_congr (by omega) rfl rfl
  · show q.ptGen + 1 = _
    rw [hrun.edited.eq]
  · exact hrun.edited.touched.trans (touched_ptGenBump q)

lemma invalidate_call (hr : PageRange start stop) (h : PtWf p) :
    ∃ res a, guestInvalidatePtes p start stop = some res ∧
      RangeCall (fun _ _ _ => none) start stop p res a := by
  have htop := hr.top
  obtain ⟨res, a, heq, hcall⟩ := blockLoop_call (invalidateStep_spec start stop) hr h
  refine ⟨res, a, ?_, hcall⟩
  rw [guestInvalidatePtes, if_neg (by unfold guestPageSize; omega)]
  rw [alignDown_page hr.start_aligned, pageAlignUp_page hr.stop_aligned (by omega),
    if_neg (not_le.mpr hr.lt)]
  exact heq

lemma markIcacheIf_cases (p : PageTables) (x : Bool) :
    ∃ t, p.markIcacheIf x = { p with tlbi := t } := by
  cases x with
  | false => exact ⟨p.tlbi, rfl⟩
  | true => exact ⟨_, rfl⟩

lemma RangeCall.of_markIcacheIf
    (h : RangeCall G start stop (p.markIcacheIf x) res a) : RangeCall G start stop p res a := by
  obtain ⟨t, ht⟩ := markIcacheIf_cases p x
  rw [ht] at h
  exact ⟨h.wf, h.walk, h.le, h.ret, h.frame⟩

lemma PtWf.markIcacheIf (h : PtWf p) (x : Bool) : PtWf (p.markIcacheIf x) := by
  obtain ⟨t, ht⟩ := markIcacheIf_cases p x
  rw [ht]
  exact h.setRegs t p.ptGen

/-- `guest_update_perms` gives the range the new permissions, unless it would make
the kernel buffer's alias executable. -/
lemma update_call (rs : List GuestRegion) (perms : Perms) (hr : PageRange start stop) (h : PtWf p) :
    (perms.x && guestKbufUserVaOverlap start (stop - start)) ∧
      guestUpdatePerms rs p start stop perms = some (-1, p.markIcacheIf perms.x) ∨
    ∃ res a, guestUpdatePerms rs p start stop perms = some res ∧
      RangeCall (updatedLeaf rs perms) start stop p res a := by
  have htop := hr.top
  have hstart : guestUpdatePerms rs p start stop perms
      = if perms.x && guestKbufUserVaOverlap start (stop - start) then
          some (-1, p.markIcacheIf perms.x)
        else blockLoop (updateStep rs perms start stop) stop loopFuel start
          (p.markIcacheIf perms.x) := by
    rw [guestUpdatePerms, if_neg (by unfold guestPageSize; omega)]
    rw [alignDown_page hr.start_aligned, pageAlignUp_page hr.stop_aligned (by omega),
      if_neg (not_le.mpr hr.lt)]
  rw [hstart]
  by_cases hk : (perms.x && guestKbufUserVaOverlap start (stop - start))
  · rw [if_pos hk]
    exact .inl ⟨hk, rfl⟩
  obtain ⟨res, a, heq, hcall⟩ := blockLoop_call (updateStep_spec rs perms start stop) hr
    (h.markIcacheIf perms.x)
  rw [if_neg hk]
  exact .inr ⟨res, a, heq, hcall.of_markIcacheIf⟩

end Elfuse
