/-
What a build of the page tables maps.

The block loop writes one descriptor for every block a region touches, with the
merged permissions of all regions that do (`Built`); the second pass keeps the
blocks that one permission covers and rebuilds the others page by page
(`Finished`). Each block is worked on once for every region that touches it,
and every round leaves it the same:

* `buildRegions_built` — the blocks after the first pass;
* `finalizeBlock_finished` — one round of the second pass;
* `build_walk_none`, `build_walk_some` — the translation of every address after a build: nothing
  on a page no region has, and the regions' permissions elsewhere.
-/
import Elfuse.Core.PageTableBuild

namespace Elfuse

open List

variable {p p' : PageTables} {regions : List MemRegion}

/-! ### The first pass -/

def MemRegion.Touches (r : MemRegion) (b : ℕ) : Prop :=
  r.gpaStart < (b + 1) * 2 ^ 21 ∧ b * 2 ^ 21 < r.gpaEnd

instance (r : MemRegion) (b : ℕ) : Decidable (r.Touches b) :=
  inferInstanceAs (Decidable (_ ∧ _))

/-- The blocks after the writes `W`: block and permissions of each write. Where
all writes to a block agree, the merged descriptor has their permissions. -/
structure Built (W : ℕ → Perms → Prop) (p : PageTables) : Prop where
  absent : ∀ b, (∀ P, ¬ W b P) → blockView p b = .absent
  block : ∀ b P, W b P → ∃ d, blockView p b = .block d ∧
    ∀ Q, (∀ P, W b P → P = Q) → descToPerms d = Q.norm

lemma mergedPerms_norm (h : descToPerms d = Q.norm) : (mergedPerms Q d).norm = Q.norm := by
  rw [mergedPerms]
  split
  swap
  · rfl
  rw [descToPerms] at h
  -- only three facts about the descriptor matter
  generalize decide (d &&& ptUXN = 0) = xd at h
  split at h
  · rename_i hw
    rw [decide_eq_true hw]
    obtain ⟨r, w, x, e⟩ := Q
    cases w <;> cases x <;> cases e <;> cases xd <;> first | rfl | cases h
  rename_i hw
  rw [decide_eq_false hw]
  split at h
  all_goals
    obtain ⟨r, w, x, e⟩ := Q
    cases w <;> cases x <;> cases e <;> cases xd <;> first | rfl | cases h

lemma Built.write (h : PtWf p) (hb : Built W p)
    (hs : findL2Entry p va = some s) (gpa : ℕ) (P : Perms) :
    PtWf (p.write s (makeBlockDesc gpa (mergedPerms P (p.read s)))) ∧
    Built (fun b Q => W b Q ∨ b = va / 2 ^ 21 ∧ Q = P)
      (p.write s (makeBlockDesc gpa (mergedPerms P (p.read s)))) := by
  have hmod := makeBlockDesc_mod gpa (mergedPerms P (p.read s))
  have hcan : CanonicalPerms (makeBlockDesc gpa (mergedPerms P (p.read s))) := by
    rw [CanonicalPerms, descToPerms_makeBlockDesc, Perms.norm_norm]
  have hview := blockView_of_find h hs
  have hnt : isTable (p.read s) = false := by
    rw [← Bool.not_eq_true, isTable_iff]
    intro hm
    rw [viewOf_table p hm] at hview
    by_cases hW : ∃ Q, W (va / 2 ^ 21) Q
    · obtain ⟨Q, hQ⟩ := hW
      obtain ⟨d, hd, -⟩ := hb.block _ Q hQ
      cases hd.symm.trans hview
    · cases (hb.absent _ (not_exists.mp hW)).symm.trans hview
  obtain ⟨hwf, hnew⟩ := writeL2_view h hs hnt (.inr ⟨hmod, hcan⟩)
  rw [viewOf_block p hmod] at hnew
  refine ⟨hwf, ?_, ?_⟩
  · intro b hnone
    rw [hnew, if_neg fun hc => hnone P (.inr ⟨hc, rfl⟩)]
    exact hb.absent b fun Q hQ => hnone Q (.inl hQ)
  intro b Q hQ
  rw [hnew]
  split
  · rename_i hbv
    refine ⟨_, rfl, fun R hR => ?_⟩
    obtain rfl : P = R := hR P (.inr ⟨hbv, rfl⟩)
    rw [descToPerms_makeBlockDesc]
    subst hbv
    by_cases hW : ∃ Q, W (va / 2 ^ 21) Q
    · obtain ⟨Q', hQ'⟩ := hW
      obtain ⟨d, hd, hperm⟩ := hb.block _ Q' hQ'
      rcases h.l2_cases hs with hz | hm | hm
      · rw [hz]
        rfl
      · rw [hview, viewOf_block p hm] at hd
        cases hd
        exact mergedPerms_norm (hperm P fun S hS => hR S (.inl hS))
      · rw [isTable_iff.mpr hm] at hnt
        cases hnt
    have habs := hb.absent _ (not_exists.mp hW)
    rcases h.l2_cases hs with hz | hm | hm
    · rw [hz]
      rfl
    · rw [habs, viewOf_block p hm] at hview
      cases hview
    · rw [habs, viewOf_table p hm] at hview
      cases hview
  · rename_i hbv
    have hold : ∀ S, (W b S ∨ b = va / 2 ^ 21 ∧ S = P) ↔ W b S := by
      intro S
      rw [or_iff_left fun hc => hbv hc.1]
    obtain ⟨d, hd, hperm⟩ := hb.block b Q ((hold Q).mp hQ)
    exact ⟨d, hd, fun R hR => hperm R fun S hS => hR S ((hold S).mpr hS)⟩

lemma Built.congr (h : Built W p) (hW : ∀ b P, W b P ↔ W' b P) : Built W' p := by
  obtain rfl : W = W' := funext fun b => funext fun P => propext (hW b P)
  exact h

lemma buildBlocks_built (P : Perms) : ∀ (n b : ℕ) {p : PageTables} {W : ℕ → Perms → Prop},
    PtWf p → Built W p → b + n ≤ 2 ^ 27 → (buildBlocks 0 P n (b * 2 ^ 21) p).1 →
    PtWf (buildBlocks 0 P n (b * 2 ^ 21) p).2 ∧
    Built (fun b' Q => W b' Q ∨ (b ≤ b' ∧ b' < b + n) ∧ Q = P)
      (buildBlocks 0 P n (b * 2 ^ 21) p).2 := by
  intro n
  induction n with
  | zero =>
    intro b p W h hb _ _
    refine ⟨h, hb.congr fun b' Q => ?_⟩
    constructor
    · exact .inl
    rintro (hW | ⟨hc, -⟩)
    · exact hW
    · omega
  | succ n ih =>
    intro b p W h hb hlim hok
    have hu : u64 (b * 2 ^ 21 + 0) = b * 2 ^ 21 := by
      rw [u64]
      omega
    have hl0 : ¬ 512 ≤ l0Idx (b * 2 ^ 21) := by
      rw [l0Idx]
      omega
    have hnext : b * 2 ^ 21 + block2MiB = (b + 1) * 2 ^ 21 := by
      rw [show block2MiB = 2 ^ 21 from rfl]
      omega
    rw [buildBlocks] at hok ⊢
    rw [hu, if_neg hl0, hnext] at hok ⊢
    obtain ⟨hsame, hfound, -⟩ := ensureL2Slot_view h false (b * 2 ^ 21)
    generalize ensureL2Slot false p (b * 2 ^ 21) = res at hsame hfound hok ⊢
    obtain ⟨slot, p1⟩ := res
    cases slot with
    | none => cases hok
    | some s =>
      have hb1 : Built W p1 := by
        constructor
        · intro b' hnone
          rw [hsame.view]
          exact hb.absent b' hnone
        intro b' Q hQ
        rw [hsame.view]
        exact hb.block b' Q hQ
      obtain ⟨hwf, hwrite⟩ := hb1.write hsame.wf (hfound s rfl) (b * 2 ^ 21) P
      obtain ⟨hwf', hbuilt⟩ := ih (b + 1) hwf hwrite (by omega) hok
      refine ⟨hwf', hbuilt.congr fun b' Q => ?_⟩
      rw [show b * 2 ^ 21 / 2 ^ 21 = b by omega]
      constructor
      · rintro ((hW | ⟨rfl, rfl⟩) | ⟨hr, rfl⟩)
        · exact .inl hW
        · exact .inr ⟨by omega, rfl⟩
        · exact .inr ⟨by omega, rfl⟩
      rintro (hW | ⟨hr, rfl⟩)
      · exact .inl (.inl hW)
      by_cases hbb : b' = b
      · exact .inl (.inr ⟨hbb, rfl⟩)
      · exact .inr ⟨by omega, rfl⟩

/-- Regions the guest is identity-mapped on, inside the 48-bit range. -/
structure BootRegion (r : MemRegion) : Prop where
  identity : r.vaBase = 0
  nonempty : r.gpaStart < r.gpaEnd
  fits : r.gpaEnd ≤ 2 ^ 48

variable {r : MemRegion}

lemma BootRegion.blocks (h : BootRegion r) :
    align2MiBDown r.gpaStart = r.gpaStart / 2 ^ 21 * 2 ^ 21 ∧
    r.gpaStart / 2 ^ 21 + (align2MiBUp r.gpaEnd - align2MiBDown r.gpaStart) / block2MiB ≤ 2 ^ 27 ∧
    ∀ b, r.gpaStart / 2 ^ 21 ≤ b ∧ b < r.gpaStart / 2 ^ 21 +
      (align2MiBUp r.gpaEnd - align2MiBDown r.gpaStart) / block2MiB ↔ r.Touches b := by
  have := h.nonempty
  have := h.fits
  have hblock : block2MiB = 2 ^ 21 := rfl
  rw [align2MiBDown_eq, align2MiBUp_eq (by omega), hblock]
  refine ⟨rfl, by omega, fun b => ?_⟩
  unfold MemRegion.Touches
  omega

def BlockWrites (regions : List MemRegion) (b : ℕ) (P : Perms) : Prop :=
  ∃ r ∈ regions, r.Touches b ∧ r.perms = P

lemma buildRegions_built : ∀ (regions : List MemRegion) {p : PageTables}
    {W : ℕ → Perms → Prop}, PtWf p → Built W p → (∀ r ∈ regions, BootRegion r) →
    (buildRegions regions p).1 → PtWf (buildRegions regions p).2 ∧
      Built (fun b P => W b P ∨ BlockWrites regions b P) (buildRegions regions p).2 := by
  intro regions
  induction regions with
  | nil =>
    intro p W h hb _ _
    exact ⟨h, hb.congr fun b P => by simp [BlockWrites]⟩
  | cons r rest ih =>
    intro p W h hb hreg hok
    have hr := hreg r mem_cons_self
    obtain ⟨hlo, hlim, hblocks⟩ := hr.blocks
    have hoff : r.vaOffset = 0 := by
      rw [MemRegion.vaOffset, if_neg (not_not.mpr hr.identity)]
    rw [buildRegions] at hok ⊢
    split at hok
    · rename_i hok1
      rw [if_pos hok1]
      rw [buildRegion, hoff] at hok1 hok ⊢
      rw [hlo] at hok1 hok hlim hblocks ⊢
      obtain ⟨hwf, hbuilt⟩ := buildBlocks_built r.perms _ _ h hb hlim hok1
      obtain ⟨hwf', hrest⟩ := ih hwf hbuilt (fun q hq => hreg q (mem_cons_of_mem _ hq)) hok
      refine ⟨hwf', hrest.congr fun b P => ?_⟩
      rw [hblocks]
      simp only [BlockWrites, mem_cons, exists_eq_or_imp]
      constructor
      · rintro ((hW | ⟨ht, rfl⟩) | hx)
        · exact .inl hW
        · exact .inr (.inl ⟨ht, rfl⟩)
        · exact .inr (.inr hx)
      rintro (hW | ⟨ht, rfl⟩ | hx)
      · exact .inl (.inl hW)
      · exact .inl (.inr ⟨ht, rfl⟩)
      · exact .inr hx
    · rename_i hok1
      exact absurd hok hok1

/-! ### Editing a split block -/

variable {f : ℕ → ℕ}

lemma find_of_pages (h : PtWf p) (hva : va < 2 ^ 48) (hv : blockView p (va / 2 ^ 21) = .pages f) :
    ∃ s, findL2Entry p va = some s ∧ p.read s % 4 = 3 ∧ p.tables (pageAddr (p.read s)) = f := by
  cases hs : findL2Entry p va with
  | none =>
    rw [blockView_of_find_none h hva hs] at hv
    cases hv
  | some s =>
    rw [blockView_of_find h hs] at hv
    rcases h.l2_cases hs with hz | hm | hm
    · rw [hz, viewOf_zero] at hv
      cases hv
    · rw [viewOf_block p hm] at hv
      cases hv
    rw [viewOf_table p hm] at hv
    cases hv
    exact ⟨s, rfl, hm, rfl⟩

structure PagesSet (p p' : PageTables) (b : ℕ) (f : ℕ → ℕ) : Prop where
  wf : PtWf p'
  here : blockView p' b = .pages f
  other : ∀ b', b' ≠ b → blockView p' b' = blockView p b'

variable {b : ℕ}

/-- A block loop whose range lies in one split block rewrites its pages there and
cannot fail. -/
lemma tableLoop_pages {step : PageTables → ℕ → Option (ℕ × PageTables)} {F : ℕ → ℕ → ℕ}
    {start stop : ℕ} (hF : ∀ pa old, PageEntryOk (F pa old)) (h : PtWf p)
    (hv : blockView p b = .pages f) (hstep : ∀ s, findL2Entry p start = some s → p.read s % 4 = 3 →
      step p start = some (rewriteSplitBlock F p s stop start)) (hstart : start % 4096 = 0)
    (hstop : stop % 4096 = 0) (hlo : b * 2 ^ 21 ≤ start) (hlt : start < stop)
    (hhi : stop ≤ (b + 1) * 2 ^ 21) (htop : stop ≤ 2 ^ 48) :
    ∃ p', blockLoop step stop loopFuel start p = some (0, p') ∧
      PagesSet p p' b (rewritten F start ((stop - start) / 4096) f) := by
  have hb : start / 2 ^ 21 = b := by omega
  obtain ⟨s, hs, hm, hf⟩ := find_of_pages h (by omega) (hb.symm ▸ hv)
  obtain ⟨hend, hwf, -, -, hview⟩ := rewriteSplitBlock_view F hF h hs (isTable_iff.mpr hm) hstart
    hstop hlt
  have hbs : blockStop stop start = stop := by
    have hblock : block2MiB = 2 ^ 21 := rfl
    rw [blockStop, align2MiBDown_eq, hblock]
    split <;> omega
  rw [hbs, hf, hb] at hview
  rw [hbs] at hend
  obtain ⟨n, hn⟩ : ∃ n, loopFuel = n + 2 := ⟨2 ^ 64 - 2, rfl⟩
  refine ⟨(rewriteSplitBlock F p s stop start).2.ptGenBump, ?_, ?_⟩
  · rw [hn, blockLoop, if_pos hlt, hstep s hs hm]
    dsimp only
    rw [hend, blockLoop, if_neg (Nat.lt_irrefl stop)]
  refine ⟨hwf.setRegs _ _, ?_, fun b' hb' => ?_⟩
  · exact (hview b).trans (if_pos rfl)
  · exact (hview b').trans (if_neg hb')

lemma invalidate_pages (h : PtWf p) (hv : blockView p b = .pages f) (hb : b < 2 ^ 27) :
    ∃ p', guestInvalidatePtes p (b * 2 ^ 21) (b * 2 ^ 21 + block2MiB)
      = some (0, p') ∧ PagesSet p p' b (rewritten (fun _ _ => 0) (b * 2 ^ 21) 512 f) := by
  have hblock : block2MiB = 2 ^ 21 := rfl
  rw [hblock, guestInvalidatePtes, if_neg (by unfold guestPageSize; omega)]
  rw [alignDown_page (by omega), pageAlignUp_page (by omega) (by omega), if_neg (by omega)]
  obtain ⟨p', hrun, hset⟩ :=
      @tableLoop_pages p f b (invalidateStep (b * 2 ^ 21) (b * 2 ^ 21 + 2 ^ 21))
    (fun _ _ => 0) (b * 2 ^ 21) (b * 2 ^ 21 + 2 ^ 21) (fun _ _ => .inl rfl) h hv
    (fun s hs hm => invalidateStep_table hs hm)
    (by omega) (by omega) (le_refl _) (by omega) (by omega) (by omega)
  rw [show (b * 2 ^ 21 + 2 ^ 21 - b * 2 ^ 21) / 4096 = 512 by omega] at hset
  exact ⟨p', hrun, hset⟩

lemma update_pages (h : PtWf p) {start stop : ℕ} {P : Perms} (hv : blockView p b = .pages f)
    (hb : b < 2 ^ 27) (hstart : start % 4096 = 0) (hstop : stop % 4096 = 0)
    (hlo : b * 2 ^ 21 ≤ start) (hlt : start < stop) (hhi : stop ≤ (b + 1) * 2 ^ 21)
    (hok : callOk (guestUpdatePerms rs p start stop P) = some (true, p')) :
    PagesSet p p' b (rewritten (updatedPage rs P) start ((stop - start) / 4096) f) := by
  rw [guestUpdatePerms, if_neg (by unfold guestPageSize; omega)] at hok
  rw [alignDown_page hstart, pageAlignUp_page hstop (by omega), if_neg (by omega)] at hok
  split at hok
  · cases hok
  obtain ⟨q, hrun, hset⟩ := @tableLoop_pages (p.markIcacheIf P.x) f b
    (updateStep rs P start stop) (updatedPage rs P) start stop
    (fun _ _ => pageEntryOk_makePageDesc _ _) (h.markIcacheIf P.x)
    ((blockView_markIcacheIf p P.x b).trans hv) (fun s hs hm => updateStep_table hs hm)
    hstart hstop hlo hlt hhi (by omega)
  rw [hrun] at hok
  obtain rfl : q = p' := by
    simpa [callOk] using hok
  refine ⟨hset.wf, hset.here, fun b' hb' => ?_⟩
  rw [hset.other b' hb', blockView_markIcacheIf]

lemma split_pages (h : PtWf p)
    (hok : callOk (some (guestSplitBlock p (b * 2 ^ 21))) = some (true, p')) :
    ∃ f, PagesSet p p' b f := by
  have hdiv : b * 2 ^ 21 / 2 ^ 21 = b := by omega
  have hret : ∀ r : ℤ × PageTables, guestSplitBlock p (b * 2 ^ 21) = r → r.1 = -1 → False := by
    intro r hr hneg
    rw [hr] at hok
    simp [callOk, hneg] at hok
  cases hs : findL2Entry p (b * 2 ^ 21) with
  | none => exact (hret _ (guestSplitBlock_none h hs) rfl).elim
  | some s =>
    have heq := guestSplitBlock_some h hs
    have hview := blockView_of_find h hs
    rw [hdiv] at hview
    rcases h.l2_cases hs with hz | hm | hm
    · refine (hret _ heq ?_).elim
      rw [splitL2Block, hz]
      rfl
    · rcases split_view h hs hm with ⟨-, hsp⟩ | ⟨q, hsp, hd⟩
      · exact (hret _ (heq.trans hsp) rfl).elim
      rw [heq, hsp] at hok
      obtain rfl : q = p' := by
        simpa [callOk] using hok
      have hv := hd.view
      rw [hdiv] at hv
      exact ⟨_, hd.wf, (hv b).trans (if_pos rfl), fun b' hb' => (hv b').trans (if_neg hb')⟩
    have hsp : splitL2Block p s = (0, p) := by
      rw [splitL2Block]
      exact if_pos (isTable_iff.mpr hm)
    rw [heq, hsp] at hok
    obtain rfl : p = p' := by
      simpa [callOk] using hok
    rw [viewOf_table p hm] at hview
    exact ⟨_, h, hview, fun _ _ => rfl⟩

/-! ### Rebuilding a block page by page -/

lemma PagesSet.trans (h : PagesSet p q b f) (h' : PagesSet q p' b g) : PagesSet p p' b g :=
  ⟨h'.wf, h'.here, fun b' hb' => (h'.other b' hb').trans (h.other b' hb')⟩

def PagesUpTo (g : ℕ → Perms) (i : ℕ) (f : ℕ → ℕ) : Prop :=
  ∀ k < 512, if k < i ∧ g k ≠ Perms.none then isValid (f k) ∧ descToPerms (f k) = (g k).norm
    else f k = 0

lemma PagesUpTo.mono (h : PagesUpTo g i f) (hij : i ≤ j)
    (hg : ∀ k, i ≤ k → k < j → k < 512 → g k = Perms.none) : PagesUpTo g j f := by
  intro k hk
  have hold := h k hk
  by_cases hki : k < i
  · rwa [if_congr (show k < j ∧ g k ≠ Perms.none ↔ k < i ∧ g k ≠ Perms.none by
      simp only [hki, show k < j by omega]) rfl rfl]
  rw [if_neg fun hc => hki hc.1] at hold
  rw [if_neg]
  · exact hold
  · rintro ⟨hkj, hne⟩
    exact hne (hg k (by omega) hkj hk)

lemma runEnd_spec (g : ℕ → Perms) (P : Perms) : ∀ n i, i ≤ runEnd g P n i ∧
    runEnd g P n i ≤ i + n ∧ (∀ k, i ≤ k → k < runEnd g P n i → g k = P) ∧
      (0 < n → g i = P → i < runEnd g P n i) := by
  intro n
  induction n with
  | zero =>
    intro i
    rw [runEnd]
    exact ⟨le_refl i, le_refl i, fun k _ _ => by omega, fun h => by omega⟩
  | succ n ih =>
    intro i
    rw [runEnd]
    split
    · rename_i hi
      obtain ⟨h1, h2, h3, -⟩ := ih (i + 1)
      refine ⟨by omega, by omega, fun k hk hlt => ?_, fun _ _ => by omega⟩
      by_cases hki : k = i
      · exact hki ▸ hi
      · exact h3 k (by omega) hlt
    · rename_i hi
      exact ⟨le_refl i, by omega, fun k _ _ => by omega, fun _ h => absurd h hi⟩

lemma PagesUpTo.run (h : PagesUpTo g i f) (hi : i < 512) (hij : i ≤ j)
    (hg : ∀ k, i ≤ k → k < j → g k = g i) (hne : g i ≠ Perms.none) :
    PagesUpTo g j (rewritten (updatedPage rs (g i)) (b * 2 ^ 21 + i * 4096)
      ((b * 2 ^ 21 + j * 4096 - (b * 2 ^ 21 + i * 4096)) / 4096) f) := by
  have hidx : l3Idx (b * 2 ^ 21 + i * 4096) = i := by
    unfold l3Idx guestPageSize block2MiB
    omega
  have hlen : (b * 2 ^ 21 + j * 4096 - (b * 2 ^ 21 + i * 4096)) / 4096 = j - i := by omega
  intro k hk
  have hold := h k hk
  rw [rewritten, hidx, hlen]
  by_cases hin : i ≤ k ∧ k < i + (j - i)
  · rw [if_pos hin]
    have hgk := hg k hin.1 (by omega)
    rw [if_pos ⟨by omega, hgk ▸ hne⟩, hgk]
    refine ⟨?_, descToPerms_makePageDesc _ _⟩
    have := makePageDesc_mod (if isValid (f k) then pageAddr (f k) else recoveredIpa rs
      (b * 2 ^ 21 + i * 4096 + (k - i) * guestPageSize)) (g i)
    exact isValid_iff.mpr (by rw [updatedPage]; omega)
  · rw [if_neg hin]
    rwa [if_congr (show k < j ∧ g k ≠ Perms.none ↔ k < i ∧ g k ≠ Perms.none by
      exact and_congr_left fun _ => by omega) rfl rfl]

lemma updateRuns_pages (hb : b < 2 ^ 27) : ∀ (n i : ℕ) {p : PageTables}
    {f : ℕ → ℕ}, PtWf p → blockView p b = .pages f → PagesUpTo g i f → 512 ≤ i + n →
    updateRuns rs g (b * 2 ^ 21) n i p = some (true, p') →
    ∃ f', PagesSet p p' b f' ∧ PagesUpTo g 512 f' := by
  intro n
  have hstop {i : ℕ} {p : PageTables} {f : ℕ → ℕ} (h : PtWf p) (hv : blockView p b = .pages f)
      (hf : PagesUpTo g i f) (hi : 512 ≤ i) : ∃ f', PagesSet p p b f' ∧ PagesUpTo g 512 f' := by
    refine ⟨f, ⟨h, hv, fun _ _ => rfl⟩, fun k hk => ?_⟩
    have := hf k hk
    rwa [if_congr (show k < 512 ∧ g k ≠ Perms.none ↔ k < i ∧ g k ≠ Perms.none by
      exact and_congr_left fun _ => by omega) rfl rfl]
  induction n with
  | zero =>
    intro i p f h hv hf hi hrun
    rw [updateRuns] at hrun
    cases hrun
    exact hstop h hv hf hi
  | succ n ih =>
    intro i p f h hv hf hi hrun
    rw [updateRuns] at hrun
    split at hrun
    · rename_i hdone
      cases hrun
      exact hstop h hv hf hdone
    obtain ⟨hle, hbound, hrunp, hprog⟩ := runEnd_spec g (g i) (512 - i) i
    have hlt := hprog (by omega) rfl
    dsimp only at hrun
    generalize runEnd g (g i) (512 - i) i = j at *
    split at hrun
    · rename_i hnone
      have hf' := hf.mono hle fun k hk hkj _ => (hrunp k hk hkj).trans hnone
      exact ih j h hv hf' (by omega) hrun
    rename_i hne
    obtain ⟨q, hcall, hrest⟩ := andThen_true hrun
    have hset := update_pages h hv hb (by unfold guestPageSize; omega)
      (by unfold guestPageSize; omega) (by unfold guestPageSize; omega)
      (by unfold guestPageSize; omega) (by unfold guestPageSize; omega) hcall
    obtain ⟨f', hset', hf'⟩ := ih j hset.wf hset.here (hf.run (by omega) hle hrunp hne) (by omega)
      hrest
    exact ⟨f', hset.trans hset', hf'⟩

/-- Does the second pass rebuild the block at `b`? -/
def Mixed (regions : List MemRegion) (b : ℕ) : Bool :=
  !(samePerm (touching regions (b * 2 ^ 21)) &&
    fullCoverage (touchingSorted regions (b * 2 ^ 21)) (b * 2 ^ 21))

def Rebuilt (regions : List MemRegion) (b : ℕ) (v : BlockView) : Prop :=
  ∃ f, v = .pages f ∧
    PagesUpTo (pagePerms (touchingSorted regions (b * 2 ^ 21)) (b * 2 ^ 21)) 512 f

/-- The second pass with the blocks `D` done: those that needed it are rebuilt,
the others are as the first pass left them. -/
structure Finished (regions : List MemRegion) (p₀ : PageTables) (D : ℕ → Prop) (p : PageTables) :
    Prop where
  wf : PtWf p
  rebuilt : ∀ b, D b → Mixed regions b → Rebuilt regions b (blockView p b)
  kept : ∀ b, (D b → Mixed regions b = false) → blockView p b = blockView p₀ b

lemma Finished.congr (h : Finished regions p0 D p) (hD : ∀ b, D b ↔ D' b) :
    Finished regions p0 D' p := by
  obtain rfl : D = D' := funext fun b => propext (hD b)
  exact h

lemma finalizeBlock_finished (h : Finished regions p0 D p) (hb : b < 2 ^ 27)
    (hrun : finalizeBlock rs regions (b * 2 ^ 21) p = some (true, p')) :
    Finished regions p0 (fun b' => D b' ∨ b' = b) p' := by
  rw [finalizeBlock] at hrun
  split at hrun
  · rename_i huni
    cases hrun
    have hmix : Mixed regions b = false := by
      rw [Mixed, huni]
      rfl
    refine ⟨h.wf, fun b' hD hm => ?_, fun b' hm => h.kept b' fun hD => hm (.inl hD)⟩
    rcases hD with hD | rfl
    · exact h.rebuilt b' hD hm
    · rw [hmix] at hm
      cases hm
  rename_i hmixed
  obtain ⟨q, hsplit, hrun⟩ := andThen_true hrun
  obtain ⟨q', hinval, hrun⟩ := andThen_true hrun
  obtain ⟨f, hset⟩ := split_pages h.wf hsplit
  obtain ⟨q2, hinv, hset'⟩ := invalidate_pages hset.wf hset.here hb
  rw [hinv] at hinval
  obtain rfl : q2 = q' := by
    simpa [callOk] using hinval
  have hzero : PagesUpTo (pagePerms (touchingSorted regions (b * 2 ^ 21)) (b * 2 ^ 21)) 0
      (rewritten (fun _ _ => 0) (b * 2 ^ 21) 512 f) := by
    intro k hk
    rw [if_neg fun hc => absurd hc.1 (by omega)]
    have hidx : l3Idx (b * 2 ^ 21) = 0 := by
      unfold l3Idx guestPageSize block2MiB
      omega
    rw [rewritten, hidx, if_pos (by omega)]
  obtain ⟨f', hset'', hf'⟩ := updateRuns_pages hb 512 0 hset'.wf hset'.here hzero (by omega) hrun
  have hall := (hset.trans hset').trans hset''
  refine ⟨hall.wf, fun b' hD hm => ?_, fun b' hm => ?_⟩
  · by_cases hbb : b' = b
    · subst hbb
      exact ⟨f', hall.here, hf'⟩
    · rw [hall.other b' hbb]
      exact h.rebuilt b' (hD.resolve_right hbb) hm
  by_cases hbb : b' = b
  · have hno := hm (.inr hbb)
    rw [hbb, Mixed] at hno
    rw [Bool.not_eq_false'] at hno
    exact absurd hno hmixed
  · rw [hall.other b' hbb]
    exact h.kept b' fun hD => hm (.inl hD)

lemma finalizeBlocks_finished : ∀ (n b : ℕ) {p : PageTables} {D : ℕ → Prop},
    Finished regions p0 D p → b + n ≤ 2 ^ 27 →
    finalizeBlocks rs regions n (b * 2 ^ 21) p = some (true, p') →
    Finished regions p0 (fun b' => D b' ∨ b ≤ b' ∧ b' < b + n) p' := by
  intro n
  induction n with
  | zero =>
    intro b p D h _ hrun
    cases hrun
    exact h.congr fun b' => (or_iff_left (by omega)).symm
  | succ n ih =>
    intro b p D h hlim hrun
    rw [finalizeBlocks] at hrun
    obtain ⟨q, hblock, hrest⟩ := andThen_true hrun
    have hnext : b * 2 ^ 21 + block2MiB = (b + 1) * 2 ^ 21 := by
      rw [show block2MiB = 2 ^ 21 from rfl]
      omega
    rw [hnext] at hrest
    have h1 := finalizeBlock_finished h (by omega) hblock
    refine (ih (b + 1) h1 (by omega) hrest).congr fun b' => ?_
    rw [or_assoc]
    exact or_congr_right (by omega)

lemma finalizeBlockPerms_finished : ∀ (l : List MemRegion) {p : PageTables} {D : ℕ → Prop},
    Finished regions p0 D p → (∀ r ∈ l, BootRegion r) →
    finalizeBlockPerms rs regions l p = some (true, p') →
    Finished regions p0 (fun b => D b ∨ ∃ r ∈ l, r.Touches b) p' := by
  intro l
  induction l with
  | nil =>
    intro p D h _ hrun
    cases hrun
    exact h.congr fun b => by simp
  | cons r rest ih =>
    intro p D h hreg hrun
    have hr := hreg r mem_cons_self
    obtain ⟨hlo, hlim, hblocks⟩ := hr.blocks
    rw [finalizeBlockPerms, if_neg (not_not.mpr hr.identity)] at hrun
    obtain ⟨q, hblock, hrest⟩ := andThen_true hrun
    rw [hlo] at hblock hlim hblocks
    have h1 := finalizeBlocks_finished _ _ h hlim hblock
    refine (ih h1 (fun q hq => hreg q (mem_cons_of_mem _ hq)) hrest).congr fun b => ?_
    rw [hblocks]
    simp only [mem_cons, exists_eq_or_imp, or_assoc]

/-! ### The finished tables -/

lemma blockView_of_empty (h : ∀ i, p.tables p.ttbr0 i = 0) (b : ℕ) : blockView p b = .absent := by
  unfold blockView
  cases hn : p.node (l2Path b) with
  | none => rfl
  | some a =>
    have := (node_of_empty h hn).1
    simp [l2Path] at this

structure BuiltViews (regions : List MemRegion) (p : PageTables) : Prop where
  wf : PtWf p
  absent : ∀ b, (∀ r ∈ regions, ¬ r.Touches b) → blockView p b = .absent
  rebuilt : ∀ b, (∃ r ∈ regions, r.Touches b) → Mixed regions b → Rebuilt regions b (blockView p b)
  block : ∀ b, (∃ r ∈ regions, r.Touches b) → Mixed regions b = false →
    ∃ d, blockView p b = .block d ∧
      ∀ Q, (∀ r ∈ regions, r.Touches b → r.perms = Q) → descToPerms d = Q.norm

lemma build_views (h : PoolOk p) (hreg : ∀ r ∈ regions, BootRegion r)
    (hrun : guestBuildPageTables rs p regions = some (ttbr0, p')) (hok : ttbr0 ≠ 0) :
    BuiltViews regions p' := by
  unfold guestBuildPageTables at hrun
  cases halloc : ptAllocPage p with
  | none =>
    rw [halloc] at hrun
    cases hrun
    exact absurd rfl hok
  | some res =>
    obtain ⟨l0, p1⟩ := res
    rw [halloc] at hrun
    dsimp only at hrun
    have hroot : ptRoot p = some { p1 with ttbr0 := l0 } := by
      rw [ptRoot, halloc]
      rfl
    have hempty : ∀ i, p1.tables l0 i = 0 := by
      unfold ptAllocPage at halloc
      split at halloc
      · cases halloc
      · cases halloc
        exact fun i => if_pos rfl
    have hstart : Built (fun _ _ => False) { p1 with ttbr0 := l0 } :=
      ⟨fun b _ => blockView_of_empty hempty b, fun _ _ hc => hc.elim⟩
    split at hrun
    · cases hrun
      exact absurd rfl hok
    rename_i hbuilt
    obtain ⟨hwf, hviews⟩ := buildRegions_built regions (ptRoot_wf h hroot) hstart hreg
      (by simpa using hbuilt)
    obtain ⟨⟨ok, p3⟩, hfin, heq⟩ := Option.map_eq_some_iff.mp hrun
    cases ok with
    | false =>
      cases heq
      exact absurd rfl hok
    | true =>
      obtain ⟨-, rfl⟩ := Prod.mk.inj heq
      have h0 : Finished regions (buildRegions regions { p1 with ttbr0 := l0 }).2
          (fun _ => False) (buildRegions regions { p1 with ttbr0 := l0 }).2 :=
        ⟨hwf, fun _ hc => hc.elim, fun _ _ => rfl⟩
      have hdone := finalizeBlockPerms_finished regions h0 hreg hfin
      refine ⟨hdone.wf.setRegs p3.tlbi (p3.ptGen + 1), fun b hnone => ?_, fun b ht hm => ?_,
        fun b ht hm => ?_⟩
      · refine (hdone.kept b ?_).trans (hviews.absent b ?_)
        · rintro (hc | ⟨r, hr, ht⟩)
          · exact hc.elim
          · exact absurd ht (hnone r hr)
        rintro P (hc | ⟨r, hr, ht, -⟩)
        · exact hc
        · exact hnone r hr ht
      · exact hdone.rebuilt b (.inr ht) hm
      obtain ⟨r, hr, hrt⟩ := ht
      obtain ⟨d, hd, hperm⟩ := hviews.block b r.perms (.inr ⟨r, hr, hrt, rfl⟩)
      refine ⟨d, (hdone.kept b fun _ => hm).trans hd, fun Q hQ => hperm Q ?_⟩
      rintro P (hc | ⟨q, hq, hqt, rfl⟩)
      · exact hc.elim
      · exact hQ q hq hqt

/-! ### Pages of regions -/

def MemRegion.HasPage (r : MemRegion) (pg : ℕ) : Prop :=
  r.gpaStart / 4096 ≤ pg ∧ pg * 4096 < r.gpaEnd

instance (r : MemRegion) (pg : ℕ) : Decidable (r.HasPage pg) := inferInstanceAs (Decidable (_ ∧ _))

/-- The region leaves its last page to a region that starts on it. -/
def HandsOff (regions : List MemRegion) (r : MemRegion) : Prop :=
  ∃ q ∈ regions, r.gpaEnd ≤ q.gpaStart ∧ q.gpaStart < pageAlignUp r.gpaEnd

lemma mem_insertByStart : ∀ {l : List MemRegion}, q ∈ insertByStart r l ↔ q = r ∨ q ∈ l
  | [] => by simp [insertByStart]
  | x :: xs => by
    rw [insertByStart]
    split
    · rw [mem_cons, mem_insertByStart, mem_cons]
      constructor
      · rintro (h | h | h)
        · exact .inr (.inl h)
        · exact .inl h
        · exact .inr (.inr h)
      rintro (h | h | h)
      · exact .inr (.inl h)
      · exact .inl h
      · exact .inr (.inr h)
    · rw [mem_cons]

lemma mem_touching (hreg : ∀ r ∈ regions, BootRegion r) :
    q ∈ touching regions (b * 2 ^ 21) ↔ q ∈ regions ∧ q.Touches b := by
  rw [touching, mem_filter]
  refine and_congr_right fun hq => ?_
  have hblock : block2MiB = 2 ^ 21 := rfl
  have hid := (hreg q hq).identity
  simp only [hid, hblock, MemRegion.Touches, decide_true, Bool.true_and, Bool.not_eq_true',
    Bool.or_eq_false_iff, decide_eq_false_iff_not]
  omega

lemma mem_touchingSorted (hreg : ∀ r ∈ regions, BootRegion r) :
    q ∈ touchingSorted regions (b * 2 ^ 21) ↔ q ∈ regions ∧ q.Touches b := by
  have hfold : ∀ (l acc : List MemRegion),
      q ∈ l.foldl (fun acc r => insertByStart r acc) acc ↔ q ∈ l ∨ q ∈ acc := by
    intro l
    induction l with
    | nil => simp
    | cons r l ih =>
      intro acc
      rw [foldl_cons, ih, mem_insertByStart, mem_cons, or_left_comm, or_assoc]
  rw [touchingSorted, mem_reverse, hfold, or_iff_left not_mem_nil, mem_touching hreg]

/-- When the page loop of a block counts a region for page `pg`. -/
lemma page_counts (hi : i < 512) (hb : b < 2 ^ 27) (hr : BootRegion r) :
    (alignDown (if b * 2 ^ 21 < r.gpaStart then r.gpaStart else b * 2 ^ 21) guestPageSize
        ≤ b * 2 ^ 21 + i * guestPageSize ∧
      b * 2 ^ 21 + i * guestPageSize < applyEnd l (b * 2 ^ 21) r) ↔
    r.HasPage (b * 512 + i) ∧ (HandsOff l r → b * 512 + i < r.gpaEnd / 4096) := by
  have hfits := hr.fits
  have hblock : block2MiB = 2 ^ 21 := rfl
  have hup : ∀ x, x ≤ 2 ^ 48 → pageAlignUp x = (x + 4095) / 4096 * 4096 := by
    intro x hx
    unfold pageAlignUp alignUp guestPageSize u64
    omega
  have hoff : (l.any fun q => decide (r.gpaEnd ≤ q.gpaStart) &&
      decide (q.gpaStart < pageAlignUp r.gpaEnd)) ↔ HandsOff l r := by
    simp [HandsOff]
  have hstart : alignDown (if b * 2 ^ 21 < r.gpaStart then r.gpaStart else b * 2 ^ 21) guestPageSize
      ≤ b * 2 ^ 21 + i * guestPageSize ↔ r.gpaStart / 4096 ≤ b * 512 + i := by
    unfold alignDown guestPageSize
    split <;> omega
  have hdown : alignDown r.gpaEnd guestPageSize = r.gpaEnd / 4096 * 4096 := by
    unfold alignDown guestPageSize
    omega
  have hcut : pageAlignUp (if r.gpaEnd < b * 2 ^ 21 + block2MiB then r.gpaEnd
      else b * 2 ^ 21 + block2MiB) = if r.gpaEnd < b * 2 ^ 21 + 2 ^ 21 then
        (r.gpaEnd + 4095) / 4096 * 4096 else b * 2 ^ 21 + 2 ^ 21 := by
    rw [hblock]
    split
    · exact hup _ hfits
    · rw [hup _ (by omega)]
      omega
  rw [hstart, applyEnd, hdown, hcut, hblock, MemRegion.HasPage,
    show guestPageSize = 4096 from rfl, and_assoc]
  refine and_congr_right fun _ => ?_
  by_cases hh : HandsOff l r
  · rw [hoff.mpr hh]
    simp only [hh, true_and, forall_const]
    split_ifs <;> omega
  rw [Bool.eq_false_iff.mpr (mt hoff.mp hh)]
  simp only [hh, Bool.false_eq_true, false_and, if_false, false_implies, and_true]
  split_ifs <;> omega

/-! ### The union over a page -/

lemma Perms.or_self (P : Perms) : P.or P = P := by
  obtain ⟨r, w, x, e⟩ := P
  simp [Perms.or]

section Union

variable {C : MemRegion → Prop} [DecidablePred C]

lemma foldl_or_of_none : ∀ {l : List MemRegion} {acc : Perms}, (∀ r ∈ l, ¬ C r) →
    l.foldl (fun acc r => if C r then acc.or r.perms else acc) acc = acc
  | [], _, _ => rfl
  | r :: l, acc, h => by
    rw [foldl_cons, if_neg (h r mem_cons_self)]
    exact foldl_or_of_none fun q hq => h q (mem_cons_of_mem _ hq)

lemma foldl_or_of_same : ∀ {l : List MemRegion} {acc : Perms},
    (∀ r ∈ l, C r → r.perms = P) → (acc = P ∨ acc = Perms.none ∧ ∃ r ∈ l, C r) →
    l.foldl (fun acc r => if C r then acc.or r.perms else acc) acc = P
  | [], acc, _, hacc => by
    rcases hacc with rfl | ⟨-, r, hr, -⟩
    · rfl
    · cases hr
  | r :: l, acc, h, hacc => by
    rw [foldl_cons]
    apply foldl_or_of_same fun q hq => h q (mem_cons_of_mem _ hq)
    by_cases hr : C r
    · left
      rw [if_pos hr, h r mem_cons_self hr]
      rcases hacc with rfl | ⟨rfl, -⟩
      · exact Perms.or_self _
      · rfl
    rw [if_neg hr]
    rcases hacc with rfl | ⟨rfl, q, hq, hC⟩
    · exact .inl rfl
    rcases mem_cons.mp hq with rfl | hq
    · exact absurd hC hr
    · exact .inr ⟨rfl, q, hq, hC⟩

end Union

lemma coveredUntil_sound : ∀ {l : List MemRegion} {u v x : ℕ}, coveredUntil u l = some v →
    u ≤ x → x < v → ∃ r ∈ l, r.gpaStart ≤ x ∧ x < r.gpaEnd
  | [], u, v, x, h, hu, hv => by
    cases h
    omega
  | r :: l, u, v, x, h, hu, hv => by
    rw [coveredUntil] at h
    split at h
    · cases h
    rename_i hstart
    by_cases hx : x < r.gpaEnd
    · exact ⟨r, mem_cons_self, by omega, hx⟩
    · obtain ⟨q, hq, hqx⟩ := coveredUntil_sound h (show _ ≤ x by split <;> omega) hv
      exact ⟨q, mem_cons_of_mem _ hq, hqx⟩

lemma samePerm_eq (h : samePerm l) (hr : r ∈ l) (hq : q ∈ l) : r.perms = q.perms := by
  cases l with
  | nil => cases hr
  | cons a l =>
    have hall : ∀ x ∈ a :: l, x.perms = a.perms :=
      forall_mem_cons.mpr ⟨rfl, fun x hx => of_decide_eq_true (all_eq_true.mp h x hx)⟩
    rw [hall r hr, hall q hq]

/-- A block that is kept is covered everywhere by one permission. -/
lemma kept_uniform (hreg : ∀ r ∈ regions, BootRegion r) (hm : Mixed regions b = false) :
    (∀ r ∈ regions, r.Touches b → ∀ q ∈ regions, q.Touches b → r.perms = q.perms) ∧
    ∀ x, x / 2 ^ 21 = b → ∃ r ∈ regions, r.gpaStart ≤ x ∧ x < r.gpaEnd := by
  rw [Mixed, Bool.not_eq_false', Bool.and_eq_true] at hm
  obtain ⟨hsame, hfull⟩ := hm
  refine ⟨fun r hr hrt q hq hqt => ?_, fun x hx => ?_⟩
  · exact samePerm_eq hsame ((mem_touching hreg).mpr ⟨hr, hrt⟩) ((mem_touching hreg).mpr ⟨hq, hqt⟩)
  have hlo : b * 2 ^ 21 ≤ x := by omega
  have hhi : x < b * 2 ^ 21 + block2MiB := by
    rw [show block2MiB = 2 ^ 21 from rfl]
    omega
  rw [fullCoverage] at hfull
  cases hcov : coveredUntil (b * 2 ^ 21) (touchingSorted regions (b * 2 ^ 21)) with
  | none =>
    rw [hcov] at hfull
    cases hfull
  | some v =>
    rw [hcov] at hfull
    obtain ⟨r, hr, hrx⟩ := coveredUntil_sound hcov hlo
      (Nat.lt_of_lt_of_le hhi (of_decide_eq_true hfull))
    exact ⟨r, ((mem_touchingSorted hreg).mp hr).1, hrx⟩

lemma Rebuilt.leaf (h : Rebuilt regions b v) (hva : va / 2 ^ 21 = b) :
    (pagePerms (touchingSorted regions (b * 2 ^ 21)) (b * 2 ^ 21) (va / 4096 - b * 512)
        = Perms.none → v.leaf va = none) ∧
    (pagePerms (touchingSorted regions (b * 2 ^ 21)) (b * 2 ^ 21) (va / 4096 - b * 512)
        ≠ Perms.none → ∃ o, v.leaf va = some (o, (pagePerms (touchingSorted regions (b * 2 ^ 21))
          (b * 2 ^ 21) (va / 4096 - b * 512)).norm)) := by
  obtain ⟨f, rfl, hf⟩ := h
  have hidx : l3Idx va = va / 4096 - b * 512 := by
    unfold l3Idx guestPageSize block2MiB
    omega
  have hk := hf (va / 4096 - b * 512) (by omega)
  refine ⟨fun hnone => ?_, fun hne => ?_⟩
  · rw [if_neg fun hc => hc.2 hnone] at hk
    change pageLeaf (f (l3Idx va)) va = none
    rw [hidx, hk, pageLeaf_zero]
  rw [if_pos ⟨by omega, hne⟩] at hk
  change ∃ o, pageLeaf (f (l3Idx va)) va = some (o, _)
  rw [hidx, pageLeaf, if_pos hk.1, hk.2]
  exact ⟨_, rfl⟩

lemma hasPage_touches (h : r.HasPage (va / 4096)) : r.Touches (va / 2 ^ 21) := by
  unfold MemRegion.HasPage at h
  unfold MemRegion.Touches
  omega

lemma build_walk_none (h : BuiltViews regions p) (hreg : ∀ r ∈ regions, BootRegion r)
    (hno : ∀ r ∈ regions, ¬ r.HasPage (va / 4096)) : ptWalk p va = none := by
  rw [ptWalk_eq h.wf]
  by_cases hva : va < 2 ^ 48
  swap
  · rw [if_neg hva]
  rw [if_pos hva]
  by_cases ht : ∃ r ∈ regions, r.Touches (va / 2 ^ 21)
  swap
  · rw [h.absent _ (by simpa using ht)]
    rfl
  cases hm : Mixed regions (va / 2 ^ 21) with
  | false =>
    obtain ⟨r, hr, hx⟩ := (kept_uniform hreg hm).2 va rfl
    exact absurd (show r.HasPage (va / 4096) by unfold MemRegion.HasPage; omega) (hno r hr)
  | true =>
    apply ((h.rebuilt _ ht hm).leaf rfl).1
    apply foldl_or_of_none
    intro r hr hc
    obtain ⟨hr, -⟩ := (mem_touchingSorted hreg).mp hr
    have hpage := ((page_counts (by omega) (by omega) (hreg r hr)).mp hc).1
    rw [show va / 2 ^ 21 * 512 + (va / 4096 - va / 2 ^ 21 * 512) = va / 4096 by omega] at hpage
    exact hno r hr hpage

/-- A page whose regions agree, once those that hand it on are left out, has
their permissions. -/
lemma build_walk_some (h : BuiltViews regions p) (hreg : ∀ r ∈ regions, BootRegion r)
    (hs : s ∈ regions) (hpage : s.HasPage (va / 4096))
    (hkeeps : HandsOff regions s → va / 4096 < s.gpaEnd / 4096) (hperms : s.perms ≠ Perms.none)
    (hothers : ∀ r ∈ regions, r.HasPage (va / 4096) → r.perms = s.perms ∨
      r.gpaEnd / 4096 ≤ va / 4096 ∧ ∃ q ∈ regions, q.Touches (va / 2 ^ 21) ∧
        r.gpaEnd ≤ q.gpaStart ∧ q.gpaStart < pageAlignUp r.gpaEnd) :
    ∃ o, ptWalk p va = some (o, s.perms.norm) := by
  have hst := hasPage_touches hpage
  have hfits := (hreg s hs).fits
  have hva : va < 2 ^ 48 := by
    have := hpage.2
    omega
  rw [ptWalk_eq h.wf, if_pos hva]
  cases hm : Mixed regions (va / 2 ^ 21) with
  | false =>
    obtain ⟨d, hd, hperm⟩ := h.block _ ⟨s, hs, hst⟩ hm
    rw [hd]
    refine ⟨_, congrArg (fun P => some (_, P)) (hperm s.perms fun r hr hrt => ?_)⟩
    exact (kept_uniform hreg hm).1 r hr hrt s hs hst
  | true =>
    have hpg : va / 2 ^ 21 * 512 + (va / 4096 - va / 2 ^ 21 * 512) = va / 4096 := by omega
    have hunion : pagePerms (touchingSorted regions (va / 2 ^ 21 * 2 ^ 21)) (va / 2 ^ 21 * 2 ^ 21)
        (va / 4096 - va / 2 ^ 21 * 512) = s.perms := by
      apply foldl_or_of_same
      · intro r hr hc
        obtain ⟨hr, -⟩ := (mem_touchingSorted hreg).mp hr
        have hcount := (page_counts (by omega) (by omega) (hreg r hr)).mp hc
        rw [hpg] at hcount
        rcases hothers r hr hcount.1 with heq | ⟨hlast, q, hq, hqt, hnext⟩
        · exact heq
        · have := hcount.2 ⟨q, (mem_touchingSorted hreg).mpr ⟨hq, hqt⟩, hnext⟩
          omega
      · refine .inr ⟨rfl, s, (mem_touchingSorted hreg).mpr ⟨hs, hst⟩, ?_⟩
        apply (page_counts (by omega) (by omega) (hreg s hs)).mpr
        rw [hpg]
        refine ⟨hpage, fun hoff => hkeeps ?_⟩
        obtain ⟨q, hq, hnext⟩ := hoff
        exact ⟨q, ((mem_touchingSorted hreg).mp hq).1, hnext⟩
    have hleaf := ((h.rebuilt _ ⟨s, hs, hst⟩ hm).leaf rfl).2
    rw [hunion] at hleaf
    exact hleaf hperms

end Elfuse
