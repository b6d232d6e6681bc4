/-
No translation is left stale in the hardware.

Between clearing the thread's invalidation request and emitting it, a syscall
makes any number of page-table calls. What a call changes among the addresses
that translated before it must be in the request afterwards (`Announced`). Each
call keeps its own batch of changed pages (`Noted`) and adds it to the request
when it is done.

* `emitted_covers` — the registers emitted at the end invalidate every page
  that translates differently;
* `failed_install_unannounced` — an installation that stops part way has changed
  pages and asks for nothing.
-/
import Elfuse.Core.PageTableRuns

namespace Elfuse

open Option Bool Nat

variable {p p' q : PageTables} {va addr stop start n gpa pa lo hi : ℕ} {c c' : Changed}
  {perms : Perms}

/-! ### Announced changes -/

/-- The request of `p'` covers what that of `p` did, and every address that
translated in `p` and translates differently in `p'`. -/
structure Announced (p p' : PageTables) : Prop where
  ok : p'.tlbi.Ok
  mono : ∀ va, p.tlbi.Covers va → p'.tlbi.Covers va
  changed : ∀ va, ptWalk p va ≠ none → ptWalk p' va ≠ ptWalk p va → p'.tlbi.Covers va

lemma Announced.trans (h : Announced p p') (h' : Announced p' q) : Announced p q := by
  refine ⟨h'.ok, fun va hc => h'.mono va (h.mono va hc), fun va hv hd => ?_⟩
  by_cases heq : ptWalk p' va = ptWalk p va
  · exact h'.changed va (heq ▸ hv) (heq ▸ hd)
  · exact h'.mono va (h.changed va hv heq)

lemma Announced.of_walk (hok : p.tlbi.Ok) (htlbi : p'.tlbi = p.tlbi)
    (hwalk : ∀ va, ptWalk p va ≠ none → ptWalk p' va = ptWalk p va) : Announced p p' :=
  ⟨htlbi ▸ hok, fun _ hc => htlbi ▸ hc, fun va hv hd => absurd (hwalk va hv) hd⟩

lemma Announced.refl (hok : p.tlbi.Ok) : Announced p p :=
  Announced.of_walk hok rfl fun _ _ => rfl

lemma Announced.ptGenBump (h : Announced p p') : Announced p p'.ptGenBump :=
  ⟨h.ok, h.mono, h.changed⟩

lemma announced_markIcacheIf (hok : p.tlbi.Ok) (x : Bool) : Announced p (p.markIcacheIf x) := by
  cases x with
  | false => exact Announced.refl hok
  | true =>
    exact ⟨⟨hok.aligned, hok.bound, hok.range, hok.large⟩, fun _ hc => hc,
      fun va _ hd => absurd rfl hd⟩

lemma Announced.request (hok : p.tlbi.Ok) (htlbi : q.tlbi = p.tlbi) (hhi : hi ≤ 2 ^ 48)
    (hin : ∀ va, ptWalk p va ≠ none → ptWalk q va ≠ ptWalk p va → lo ≤ va ∧ va < hi) :
    Announced p (q.requestRange lo hi) := by
  have hq : q.tlbi.Ok := htlbi ▸ hok
  refine ⟨(tlbiRequestRange_covers q.tlbiRangeSupported hq hhi).1, fun va hc => ?_,
    fun va hv hd => ?_⟩
  · exact (tlbiRequestRange_covers q.tlbiRangeSupported hq hhi).2.1 va (htlbi ▸ hc)
  · obtain ⟨hlo, hlt⟩ := hin va hv hd
    exact (tlbiRequestRange_covers q.tlbiRangeSupported hq hhi).2.2 va hlo hlt

/-- Changes inside the batch that is then requested. With a broadcast pending no
batch is kept, and none is needed. -/
lemma Announced.flush (hok : p.tlbi.Ok) (htlbi : q.tlbi = p.tlbi)
    (hbatch : p.isBroadcast = false → c.hi ≤ 2 ^ 48 ∧
      ∀ va, ptWalk p va ≠ none → ptWalk q va ≠ ptWalk p va → c.lo ≤ va ∧ va < c.hi) :
    Announced p (flushChanged q p.isBroadcast c) := by
  unfold flushChanged
  cases hb : p.isBroadcast with
  | true =>
    have hkind : q.tlbi.kind = .broadcast := by
      rw [htlbi]
      exact of_decide_eq_true hb
    exact ⟨htlbi ▸ hok, fun _ hc => htlbi ▸ hc, fun _ _ _ => .inl hkind⟩
  | false =>
    obtain ⟨hhi, hin⟩ := hbatch hb
    by_cases hne : c.lo < c.hi
    · rw [if_pos (by simp [hne])]
      exact Announced.request hok htlbi hhi hin
    rw [if_neg (by simp [hne])]
    refine Announced.of_walk hok htlbi fun va hv => ?_
    by_contra hd
    have := hin va hv hd
    omega

/-! ### The batch of changed pages -/

/-- The batch `c'` extends `c` by those of the `n` pages from `pa` on that differ. -/
structure Noted (c c' : Changed) (n pa : ℕ) (differs : ℕ → Prop) : Prop where
  lo : c'.lo ≤ c.lo
  hi : c.hi ≤ c'.hi
  bound : c'.hi ≤ max c.hi (pa + n * 4096)
  pages : ∀ k < n, differs k → c'.lo ≤ pa + k * 4096 ∧ pa + k * 4096 + 4096 ≤ c'.hi

lemma Noted.zero (c : Changed) (pa : ℕ) (differs : ℕ → Prop) : Noted c c 0 pa differs :=
  ⟨le_rfl, le_rfl, by omega, fun k hk => by omega⟩

lemma Noted.mono (h : Noted c c' n pa differs) (hd : ∀ k < n, differs' k → differs k) :
    Noted c c' n pa differs' :=
  ⟨h.lo, h.hi, h.bound, fun k hk hk' => h.pages k hk (hd k hk hk')⟩

lemma Noted.skip (h : Noted c c' n (pa + 4096) fun k => differs (k + 1)) (h0 : ¬ differs 0) :
    Noted c c' (n + 1) pa differs := by
  have hb := h.bound
  refine ⟨h.lo, h.hi, by omega, fun k hk hd => ?_⟩
  cases k with
  | zero => exact absurd hd h0
  | succ k =>
    have := h.pages k (by omega) hd
    omega

lemma Noted.note (h : Noted (c.note false pa (pa + 4096)) c' n (pa + 4096)
    fun k => differs (k + 1)) : Noted c c' (n + 1) pa differs := by
  obtain ⟨hlo, hhi⟩ : (c.note false pa (pa + 4096)).lo = min pa c.lo ∧
      (c.note false pa (pa + 4096)).hi = max c.hi (pa + 4096) := by
    rw [Changed.note, if_neg Bool.false_ne_true]
    dsimp only
    constructor <;> split <;> omega
  have h1 := h.lo
  have h2 := h.hi
  have h3 := h.bound
  rw [hlo] at h1
  rw [hhi] at h2 h3
  refine ⟨by omega, by omega, by omega, fun k hk hd => ?_⟩
  cases k with
  | zero => omega
  | succ k =>
    have := h.pages k (by omega) hd
    omega

lemma rewritePages_noted (F : ℕ → ℕ → ℕ) (l3 : ℕ) :
    ∀ (n pa : ℕ) (p : PageTables) (c : Changed), l3Idx pa + n ≤ 512 →
      Noted c (rewritePages F l3 false n pa p c).2 n pa fun k =>
        F (pa + k * 4096) (p.tables l3 (l3Idx pa + k)) ≠ p.tables l3 (l3Idx pa + k) := by
  have hps : guestPageSize = 4096 := rfl
  intro n
  induction n with
  | zero =>
    intro pa p c _
    exact Noted.zero c pa _
  | succ n ih =>
    intro pa p c hroom
    -- the pages after the first one, in a state that agrees on them
    have hrest : ∀ (p1 : PageTables) (c1 : Changed),
        (∀ k, k ≠ l3Idx pa → p1.tables l3 k = p.tables l3 k) →
        Noted c1 (rewritePages F l3 false n (pa + guestPageSize) p1 c1).2 n (pa + 4096) fun k =>
          F (pa + (k + 1) * 4096) (p.tables l3 (l3Idx pa + (k + 1)))
            ≠ p.tables l3 (l3Idx pa + (k + 1)) := by
      intro p1 c1 hsame
      cases n with
      | zero => exact Noted.zero c1 _ _
      | succ n =>
        have hidx : l3Idx (pa + guestPageSize) = l3Idx pa + 1 := l3Idx_add (by omega)
        refine (ih (pa + guestPageSize) p1 c1 (by omega)).mono fun k hk hd => ?_
        have hk' : l3Idx (pa + guestPageSize) + k = l3Idx pa + (k + 1) := by omega
        have hpa : pa + guestPageSize + k * 4096 = pa + (k + 1) * 4096 := by omega
        rw [hk', hpa, hsame _ (by omega)]
        exact hd
    rw [rewritePages]
    split
    · rename_i hsame
      refine (hrest p c fun _ _ => rfl).skip fun hd => ?_
      rw [zero_mul, add_zero, add_zero] at hd
      exact hd hsame.symm
    · refine (hrest _ _ fun k hk => ?_).note
      exact if_neg fun hc => hk hc.2

/-! ### The calls on a range -/

lemma rewriteSplitBlock_announced (F : ℕ → ℕ → ℕ) (hF : ∀ pa old, PageEntryOk (F pa old))
    (h : PtWf p) (hok : p.tlbi.Ok) (hs : findL2Entry p addr = some s)
    (ht : isTable (p.read s)) (hc : Cursor start stop addr) :
    Announced p (rewriteSplitBlock F p s stop addr).2 := by
  have hps : guestPageSize = 4096 := rfl
  obtain ⟨hb1, -, hb3⟩ := blockStop_bounds hc.lt
  have hal := hc.aligned
  have hstop : blockStop stop addr % 4096 = 0 := blockStop_aligned hc.stop_aligned
  obtain ⟨-, -, hroom⟩ := page_in_range hal hstop hb1 hb3 (rfl : addr / 2 ^ 21 = addr / 2 ^ 21)
  have hlt := (findL2Entry_some h hs).1
  obtain ⟨hwf, honly, -, hview⟩ := rewritePages_view F hF p.isBroadcast
    ((blockStop stop addr - addr) / guestPageSize) (c := Changed.empty) h hs ht hroom
  refine Announced.flush hok (by rw [honly.eq]) fun hb => ?_
  rw [hb] at hwf hview ⊢
  have hnoted := rewritePages_noted F (pageAddr (p.read s))
    ((blockStop stop addr - addr) / guestPageSize) addr p Changed.empty hroom
  have hend : max Changed.empty.hi (addr + (blockStop stop addr - addr) / guestPageSize * 4096)
      ≤ 2 ^ 48 := by
    rw [hps]
    show max 0 _ ≤ _
    omega
  refine ⟨le_trans hnoted.bound hend, fun va hv hd => ?_⟩
  rw [ptWalk_eq hwf, ptWalk_eq h, hview] at hd
  by_cases hblk : va / 2 ^ 21 = addr / 2 ^ 21
  · obtain ⟨hiff, hpa, -⟩ := page_in_range hal hstop hb1 hb3 hblk
    rw [if_pos hblk, if_pos (by omega), if_pos (by omega), hblk, blockView_of_find h hs,
      viewOf_table p (isTable_iff.mp ht)] at hd
    have hin : l3Idx addr ≤ l3Idx va ∧
        l3Idx va < l3Idx addr + (blockStop stop addr - addr) / guestPageSize := by
      by_contra hout
      refine hd ?_
      show pageLeaf (rewritten _ _ _ _ (l3Idx va)) va = pageLeaf _ va
      rw [rewritten, if_neg hout]
    have hle := hiff.mp hin
    have hpage := hpa hle.1
    have hk : l3Idx addr + (l3Idx va - l3Idx addr) = l3Idx va := by omega
    obtain ⟨h1, h2⟩ := hnoted.pages (l3Idx va - l3Idx addr) (by omega) (by
      intro heq
      rw [hk] at heq
      refine hd ?_
      show pageLeaf (rewritten _ _ _ _ (l3Idx va)) va = pageLeaf _ va
      rw [rewritten, if_pos hin, hps, heq])
    rw [hps] at hpage
    rw [hpage] at h1 h2
    omega
  · rw [if_neg hblk] at hd
    exact absurd rfl hd

lemma announced_split (h : PtWf p) (hok : p.tlbi.Ok) (blk : ℕ) :
    Announced p (guestSplitBlock p blk).2 := by
  obtain ⟨-, honly, hwalk⟩ := guestSplitBlock_walk h blk
  exact Announced.of_walk hok (by rw [honly.eq]) fun va _ => hwalk va

def StepAnnounced (start stop : ℕ) (step : PageTables → ℕ → Option (ℕ × PageTables)) : Prop :=
  ∀ p addr addr' p', PtWf p → p.tlbi.Ok → Cursor start stop addr →
    step p addr = some (addr', p') → Announced p p'

lemma cut_announced (F : ℕ → ℕ → ℕ) (hF : ∀ pa old, PageEntryOk (F pa old)) (h : PtWf p)
    (hok : p.tlbi.Ok) (hs : findL2Entry p addr = some s) (hm : p.read s % 4 = 1)
    (hc : Cursor start stop addr) (hres : (if (splitL2Block p s).1 < 0 then none
      else some (rewriteSplitBlock F (splitL2Block p s).2 s stop addr)) = some res) :
    Announced p res.2 := by
  rcases split_view h hs hm with ⟨-, heq⟩ | ⟨p1, heq, hd⟩
  · rw [heq, if_pos (by decide : (-1 : ℤ) < 0)] at hres
    cases hres
  rw [heq, if_neg (Int.lt_irrefl 0)] at hres
  obtain rfl := some_inj.mp hres
  have htlbi : p1.tlbi = p.tlbi := by rw [hd.only.eq]
  exact (Announced.of_walk hok htlbi fun va _ => hd.walk h hs hm va).trans
    (rewriteSplitBlock_announced F hF hd.wf (htlbi ▸ hok) hd.find hd.table hc)

lemma whole_announced (h : PtWf p) (hok : p.tlbi.Ok)
    (hs : findL2Entry p addr = some s) (hm : p.read s % 4 = 1)
    (hd : d = 0 ∨ (d % 4 = 1 ∧ CanonicalPerms d)) :
    Announced p ((p.write s d).requestRange (align2MiBDown addr)
      (align2MiBDown addr + block2MiB)) := by
  have hnt : isTable (p.read s) = false := by
    rw [← not_eq_true, isTable_iff]
    omega
  have hlt := (findL2Entry_some h hs).1
  obtain ⟨hwf, hview⟩ := writeL2_view h hs hnt hd
  rw [blockEnd_eq, align2MiBDown_eq]
  refine Announced.request hok rfl (by omega) fun va hv hdiff => ?_
  rw [ptWalk_eq hwf, ptWalk_eq h, hview] at hdiff
  by_cases hblk : va / 2 ^ 21 = addr / 2 ^ 21
  · omega
  · rw [if_neg hblk] at hdiff
    exact absurd rfl hdiff

lemma BlockStep.announced (hstep : ∀ p addr, PtWf p → BlockStep w start stop p addr (step p addr)) :
    StepAnnounced start stop step := by
  intro p addr addr' p' h hok hc hres
  have hcase := hstep p addr h
  generalize step p addr = res at hcase hres
  cases hcase with
  | absent | empty | equal =>
    cases hres
    exact Announced.refl hok
  | whole hs hm hw =>
    cases hres
    exact whole_announced h hok hs hm (w.block_ok _)
  | part hs hm hw => exact cut_announced _ w.page_ok h hok hs hm hc hres
  | table hs hm =>
    obtain rfl := congrArg Prod.snd (some_inj.mp hres)
    exact rewriteSplitBlock_announced _ w.page_ok h hok hs (isTable_iff.mpr hm) hc

/-- A block loop that returns, whether it fails or not, has announced its changes. -/
lemma blockLoop_announced (hspec : StepSpec G start stop step)
    (hstep : StepAnnounced start stop step) : ∀ n addr p res, PtWf p → p.tlbi.Ok →
      (addr < stop → Cursor start stop addr) → blockLoop step stop n addr p = some res →
      Announced p res.2 := by
  intro n
  induction n with
  | zero =>
    intro addr p res _ _ _ hres
    cases hres
  | succ n ih =>
    intro addr p res h hok hc hres
    rw [blockLoop] at hres
    by_cases hlt : addr < stop
    · rw [if_pos hlt] at hres
      rcases hspec p addr h (hc hlt) with ⟨hnone, -, -⟩ | ⟨addr', p', hsome, hrs⟩
      · rw [hnone] at hres
        obtain rfl := some_inj.mp hres
        exact Announced.refl hok
      have hone := hstep p addr addr' p' h hok (hc hlt) hsome
      rw [hsome] at hres
      exact hone.trans (ih addr' p' res hrs.wf hone.ok ((hc hlt).next hrs.next) hres)
    · rw [if_neg hlt] at hres
      obtain rfl := some_inj.mp hres
      exact (Announced.refl hok).ptGenBump

/-! ### The calls that fill -/

lemma walk_of_pageInstalled (h : PtWf p) (hin : pageInstalled perms p s v gpa) (va : ℕ) :
    ptWalk (installPage perms p s v gpa) va = ptWalk p va := by
  unfold installPage
  unfold pageInstalled at hin
  dsimp only at hin ⊢
  rw [← beq_iff_eq.mp hin, write_read]
  by_cases hb : isBlock (p.read s)
  · rw [if_pos hb]
    exact (guestSplitBlock_walk h _).2.2 va
  · rw [if_neg hb]

lemma installedLeaf_add (gpa : ℕ) (perms : Perms) (k : ℕ) :
    installedLeaf (gpa + guestPageSize) perms k = installedLeaf gpa perms (k + 4096) := by
  have hps : guestPageSize = 4096 := rfl
  have hk : gpa + guestPageSize + k = gpa + (k + 4096) := by omega
  have hmod : k % 4096 = (k + 4096) % 4096 := by omega
  rw [installedLeaf, installedLeaf, hk, ← hmod]

lemma installPages_noted (perms : Perms) :
    ∀ (n v gpa : ℕ) (p : PageTables) (c : Changed), PtWf p → v % 4096 = 0 → gpa % 4096 = 0 →
      (installPages perms false n v gpa p c).1 →
      Noted c (installPages perms false n v gpa p c).2.2 n v fun k => ∃ x < 4096,
        ptWalk p (v + (k * 4096 + x)) ≠ installedLeaf gpa perms (k * 4096 + x) := by
  have hps : guestPageSize = 4096 := rfl
  intro n
  induction n with
  | zero =>
    intro v gpa p c _ _ _ _
    exact Noted.zero c v _
  | succ n ih =>
    intro v gpa p c h hv hg hdone
    cases hs : findL2Entry p v with
    | none =>
      rw [installPages, hs] at hdone
      cases hdone
    | some s =>
      by_cases hval : isValid (p.read s)
      · rcases installPage_step h hs hval gpa perms with ⟨hb, heq, -⟩ | ⟨hnn, hstep, -⟩
        · rw [installPages, hs] at hdone
          dsimp only at hdone
          rw [hval, if_pos hb, heq] at hdone
          cases hdone
        rw [installPages_succ false hs hval hnn] at hdone ⊢
        have hrest := ih (v + guestPageSize) (gpa + guestPageSize) _ _ hstep.wf (by omega)
            (by omega)
          hdone
        -- what differs on a later page differs in the state after the first one
        have hlater : ∀ k < n, (∃ x < 4096, ptWalk p (v + ((k + 1) * 4096 + x))
              ≠ installedLeaf gpa perms ((k + 1) * 4096 + x)) →
            ∃ x < 4096, ptWalk (installPage perms p s v gpa) (v + guestPageSize + (k * 4096 + x))
              ≠ installedLeaf (gpa + guestPageSize) perms (k * 4096 + x) := by
          rintro k - ⟨x, hx, hd⟩
          have ha : v + guestPageSize + (k * 4096 + x) = v + ((k + 1) * 4096 + x) := by omega
          have hk : k * 4096 + x + 4096 = (k + 1) * 4096 + x := by omega
          refine ⟨x, hx, ?_⟩
          rw [ha, hstep.walk, if_neg (by omega), installedLeaf_add, hk]
          exact hd
        have hrest' := hrest.mono hlater
        by_cases hin : pageInstalled perms p s v gpa
        · rw [if_pos hin] at hrest' ⊢
          refine hrest'.skip ?_
          rintro ⟨x, hx, hd⟩
          refine hd ?_
          rw [← walk_of_pageInstalled h hin, hstep.walk, if_pos (by omega), zero_mul, zero_add]
          have h1 := pageAddr_eq gpa
          have h2 := pageAddr_eq (gpa + x)
          show some (pageAddr gpa + _, perms.norm) = some (_, perms.norm)
          congr 2
          omega
        · rw [if_neg hin] at hrest' ⊢
          exact hrest'.note
      · rw [not_eq_true] at hval
        rw [installPages, hs] at hdone
        dsimp only at hdone
        rw [hval] at hdone
        cases hdone

lemma mapBlocks_noted (checkL1 : Bool) (perms : Perms) (bcast : Bool) :
    ∀ (n va gpa : ℕ) (p : PageTables) (c : Changed), PtWf p → va % 2 ^ 21 = 0 →
      gpa % 2 ^ 21 = 0 → c.hi ≤ 2 ^ 48 →
      (mapBlocks checkL1 perms bcast n va gpa p c).2.2.hi ≤ 2 ^ 48 := by
  have hb : block2MiB = 2 ^ 21 := rfl
  intro n
  induction n with
  | zero =>
    intro va gpa p c _ _ _ hc
    exact hc
  | succ n ih =>
    intro va gpa p c h hva hg hc
    obtain ⟨hsame, hfound, -⟩ := ensureL2Slot_view h checkL1 va
    rw [mapBlocks]
    generalize ensureL2Slot checkL1 p va = res at hsame hfound ⊢
    obtain ⟨slot, p1⟩ := res
    cases slot with
    | none => exact hc
    | some s =>
      have hs := hfound s rfl
      have hlt := (findL2Entry_some hsame.wf hs).1
      dsimp only
      split
      · exact ih _ _ p1 c hsame.wf (by omega) (by omega) hc
      rename_i hval
      rw [not_eq_true] at hval
      have hfill : MapRun perms va gpa (va + 2 ^ 21) p (p1.write s (makeBlockDesc gpa perms)) :=
        MapRun.fill h hsame hs hval hva hg
      refine ih _ _ _ _ hfill.wf (by omega) (by omega) ?_
      unfold Changed.note
      split
      · exact hc
      · dsimp only
        split <;> omega

/-- The end of a filling call: on success it announces its batch, on failure
nothing that translated may have changed. -/
lemma Announced.finishMap (hok : p.tlbi.Ok) (honly : OnlyTables (p.markIcacheIf x) r.2.1)
    (hdone : r.1 → p.isBroadcast = false → r.2.2.hi ≤ 2 ^ 48 ∧ ∀ va, ptWalk p va ≠ none →
      ptWalk r.2.1 va ≠ ptWalk p va → r.2.2.lo ≤ va ∧ va < r.2.2.hi)
    (hfail : r.1 = false → ∀ va, ptWalk p va ≠ none → ptWalk r.2.1 va = ptWalk p va) :
    Announced p (finishMap p.isBroadcast r).2 := by
  obtain ⟨ok, q, c⟩ := r
  have hmark := announced_markIcacheIf hok x
  have hbc : (p.markIcacheIf x).isBroadcast = p.isBroadcast := by cases x <;> rfl
  have htlbi : q.tlbi = (p.markIcacheIf x).tlbi := by
    have heq := honly.eq
    dsimp only at heq
    rw [heq]
  cases ok with
  | false =>
    refine hmark.trans (Announced.of_walk hmark.ok htlbi fun va hv => ?_)
    rw [walk_markIcacheIf] at hv ⊢
    exact hfail rfl va hv
  | true =>
    refine hmark.trans (Announced.ptGenBump ?_)
    rw [← hbc]
    refine Announced.flush hmark.ok htlbi fun hb => ?_
    obtain ⟨hhi, hin⟩ := hdone rfl (hbc ▸ hb)
    refine ⟨hhi, fun va hv hd => ?_⟩
    rw [walk_markIcacheIf] at hv hd
    exact hin va hv hd

lemma MapRun.announced (h : PtWf p) (hok : p.tlbi.Ok) (hva : va % 2 ^ 21 = 0)
    (hg : gpa % 2 ^ 21 = 0) :
    Announced p (finishMap p.isBroadcast (mapBlocks checkL1 perms p.isBroadcast n va gpa
      (p.markIcacheIf x) Changed.empty)).2 := by
  obtain ⟨e, hrun, -⟩ := mapBlocks_run checkL1 perms p.isBroadcast n va gpa (p.markIcacheIf x)
    Changed.empty (h.markIcacheIf x) hva hg
  have hkeep : ∀ x', ptWalk p x' ≠ none → ptWalk (mapBlocks checkL1 perms p.isBroadcast n va gpa
      (p.markIcacheIf x) Changed.empty).2.1 x' = ptWalk p x' := by
    intro x' hx'
    rw [hrun.walk, if_neg, walk_markIcacheIf]
    rintro ⟨-, hinv⟩
    rw [l2Valid_markIcacheIf] at hinv
    exact hx' (walk_of_not_l2Valid hinv)
  refine Announced.finishMap hok hrun.only (fun _ _ => ⟨?_, fun x' hx' hd => ?_⟩) (fun _ => hkeep)
  · exact mapBlocks_noted checkL1 perms _ n va gpa _ _ (h.markIcacheIf x) hva hg
      (by decide : (0 : ℕ) ≤ 2 ^ 48)
  · exact absurd (hkeep x' hx') hd

/-! ### Runs -/

/-- The guards of `guest_install_va_pages` refuse the call. -/
def InstallRefused (va length gpa : ℕ) (perms : Perms) : Prop :=
  length = 0 ∨ (va % 4096 ≠ 0 ∨ length % 4096 ≠ 0 ∨ gpa % 4096 ≠ 0) ∨
  (2 ^ 64 - 1 - length < va ∨ 2 ^ 64 - 1 - length < gpa) ∨
  (perms.x && guestKbufUserVaOverlap va length) = true

/-- An installation is refused outright, or finds an L2 entry for every page and
pool pages for the blocks it splits. -/
def PtOp.InstallFunded (p : PageTables) : PtOp → Prop
  | .installVaPages va length gpa perms => InstallRefused va length gpa perms ∨
      (∀ k < length / 4096, l2Valid p (va + k * 4096) = true) ∧
      p.ptPoolNext + installSplits p va (length / 4096) * 4096 ≤ p.ptPoolEnd
  | _ => True

lemma install_announced (h : PtWf p) (hok : p.tlbi.Ok)
    (hf : (PtOp.installVaPages va length gpa perms).InstallFunded p) :
    Announced p (guestInstallVaPages p va length gpa perms).2 := by
  have hps : guestPageSize = 4096 := rfl
  unfold guestInstallVaPages
  by_cases hg1 : length = 0
  · rw [if_pos hg1]
    exact Announced.refl hok
  rw [if_neg hg1]
  split
  · exact Announced.refl hok
  rename_i hg2
  split
  · exact Announced.refl hok
  rename_i hg3
  split
  · exact Announced.refl hok
  rename_i hg4
  obtain ⟨hvalid, hpool⟩ : (∀ k < length / 4096, l2Valid p (va + k * 4096)) ∧
      p.ptPoolNext + installSplits p va (length / 4096) * 4096 ≤ p.ptPoolEnd := by
    rcases hf with (hr | hr | hr | hr) | hf
    · exact absurd hr hg1
    · exact absurd hr hg2
    · exact absurd hr hg3
    · exact absurd hr hg4
    · exact hf
  rw [hps] at hg2 ⊢
  obtain ⟨m, hm, hrun, hres⟩ := installPages_run perms p.isBroadcast (length / 4096) va
    gpa (p.markIcacheIf perms.x) Changed.empty (h.markIcacheIf perms.x) (by omega) (by omega)
  refine Announced.finishMap hok hrun.only (fun hdone hb => ?_) (fun hfail => ?_)
  · rw [hb] at hdone hrun hres ⊢
    obtain rfl : m = length / 4096 := by
      rcases hres with ⟨-, hmn, -⟩ | ⟨hfalse, -, -⟩
      · exact hmn
      · rw [hdone] at hfalse
        cases hfalse
    have hnoted := installPages_noted perms (length / 4096) va gpa (p.markIcacheIf perms.x)
      Changed.empty (h.markIcacheIf perms.x) (by omega) (by omega) hdone
    -- the last page has an L2 entry, so the range ends below 2^48
    have hlast : va + length / 4096 * 4096 ≤ 2 ^ 48 := by
      have hv := hvalid (length / 4096 - 1) (by omega)
      rw [l2Valid_eq h, and_eq_true, decide_eq_true_iff] at hv
      omega
    refine ⟨le_trans hnoted.bound (max_le (by decide) hlast), fun x hx hd => ?_⟩
    rw [hrun.walk] at hd
    split at hd
    · have hk : va + ((x - va) / 4096 * 4096 + (x - va) % 4096) = x := by omega
      have hk' : (x - va) / 4096 * 4096 + (x - va) % 4096 = x - va := by omega
      have := hnoted.pages ((x - va) / 4096) (by omega) ⟨(x - va) % 4096, by omega, by
        rw [hk, hk', walk_markIcacheIf]
        exact hd.symm⟩
      omega
    · rw [walk_markIcacheIf] at hd
      exact absurd rfl hd
  · -- it cannot fail
    rcases hres with ⟨htrue, -, -⟩ | ⟨-, hmn, hwhy⟩
    · rw [htrue] at hfail
      cases hfail
    rw [l2Valid_markIcacheIf, hvalid m hmn] at hwhy
    rcases hwhy with hc | hc
    · cases hc
    obtain ⟨t, ht⟩ := markIcacheIf_cases p perms.x
    rw [ht] at hc
    have hc' : p.ptPoolEnd < p.ptPoolNext + installSplits p va (length / 4096) * 4096 := hc
    omega

/-- Every call announces what it changes, whether it succeeds or not, as long as
an installation does not stop part way. -/
lemma PtOp.announced (op : PtOp) (h : PtWf p) (hok : p.tlbi.Ok) (hf : op.InstallFunded p)
    (hrun : op.run p = some (r, p')) : Announced p p' := by
  cases op with
  | splitBlock blk =>
    obtain rfl := congrArg Prod.snd (some_inj.mp hrun)
    exact announced_split h hok blk
  | invalidatePtes start stop =>
    obtain rfl | ⟨hcursor, hloop⟩ := guestInvalidatePtes_cases hrun
    · exact Announced.refl hok
    · exact blockLoop_announced (invalidateStep_spec _ _)
        (BlockStep.announced fun _ addr h => invalidateStep_cases h _ _ addr) _ _ p _ h
        hok (fun _ => hcursor) hloop
  | updatePerms rs start stop perms =>
    have hmark := announced_markIcacheIf hok perms.x
    obtain rfl | rfl | ⟨hcursor, hloop⟩ := guestUpdatePerms_cases hrun
    · exact Announced.refl hok
    · exact hmark
    exact hmark.trans (blockLoop_announced (updateStep_spec rs perms _ _)
      (BlockStep.announced fun _ addr h => updateStep_cases h rs perms _ _ addr) _ _ _ _
      (h.markIcacheIf perms.x) hmark.ok (fun _ => hcursor) hloop)
  | installVaPages va length gpa perms =>
    obtain rfl := congrArg Prod.snd (some_inj.mp hrun)
    exact install_announced h hok hf
  | mapVaRange vaBase vaLimit gpaStart perms =>
    obtain rfl := congrArg Prod.snd (some_inj.mp hrun)
    have hb : block2MiB = 2 ^ 21 := rfl
    unfold guestMapVaRange
    dsimp only
    split
    · exact Announced.refl hok
    split
    · exact Announced.refl hok
    split
    · exact Announced.refl hok
    rename_i _ hal _
    rw [hb] at hal
    exact MapRun.announced h hok (by omega) (by omega)
  | extendPageTables start stop perms =>
    obtain rfl := congrArg Prod.snd (some_inj.mp hrun)
    have hal : align2MiBDown start % 2 ^ 21 = 0 := by
      rw [align2MiBDown_eq]
      omega
    unfold guestExtendPageTables
    dsimp only
    split
    · exact Announced.refl hok
    split
    · exact Announced.refl hok
    · exact MapRun.announced h hok hal hal

/-- The states a syscall's page-table calls lead to, failing calls included. -/
inductive FundedRun (p : PageTables) : PageTables → Prop
  | start : FundedRun p p
  | step {q r q'} (op : PtOp) : FundedRun p q → op.InstallFunded q → op.run q = some (r, q') →
      FundedRun p q'

lemma FundedRun.announced (h : PtWf p) (hok : p.tlbi.Ok) (hrun : FundedRun p p') :
    PtWf p' ∧ Announced p p' := by
  induction hrun with
  | start => exact ⟨h, Announced.refl hok⟩
  | step op _ hf hop ih =>
    obtain ⟨hwf, han⟩ := ih
    exact ⟨(op.run_wf hwf hop).1, han.trans (op.announced hwf han.ok hf hop)⟩

/-- Between clearing the request and emitting it, any calls whose installations
do not stop part way: what translated before and translates differently after is
invalidated by the registers emitted. -/
theorem emitted_covers (h : PtWf p) (hclear : p.tlbi = tlbiRequestClear) (hrun : FundedRun p p')
    (hv : ptWalk p va ≠ none) (hd : ptWalk p' va ≠ ptWalk p va) :
    (tlbiRequestEmitToVcpu p'.tlbi).1.invalidates va := by
  have hok : p.tlbi.Ok := by
    rw [hclear]
    exact tlbiRequestClear_ok
  obtain ⟨-, han⟩ := hrun.announced h hok
  exact emit_invalidates han.ok (han.changed va hv hd)

def clearedBlock : PageTables := { oneBlock with tlbi := tlbiRequestClear }

lemma clearedBlock_wf : PtWf clearedBlock :=
  oneBlock_reach.wf.setRegs tlbiRequestClear oneBlock.ptGen

/-- Remapping the page at 2 MiB to the one at 0. -/
theorem emitted_covers_install :
    (tlbiRequestEmitToVcpu (guestInstallVaPages clearedBlock 0x200000 0x1000 0
      Perms.rw).2.tlbi).1.invalidates 0x200000 := by
  refine emitted_covers clearedBlock_wf rfl
    (FundedRun.step (.installVaPages 0x200000 0x1000 0 Perms.rw) FundedRun.start
      (.inr ⟨fun k hk => ?_, by decide +kernel⟩) rfl) (by decide +kernel) (by decide +kernel)
  obtain rfl : k = 0 := by omega
  decide +kernel

/-- Two pages are to be remapped, the last of the block and the first of an absent
one. The call fails at the second page; the first translates to another address
now, and the registers emitted invalidate nothing. -/
theorem failed_install_unannounced : PtWf clearedBlock ∧ clearedBlock.tlbi = tlbiRequestClear ∧
    (guestInstallVaPages clearedBlock 0x3ff000 0x2000 0 Perms.rw).1 = -1 ∧
    ptWalk clearedBlock 0x3ff000 = some (0x3ff000, Perms.rw) ∧
    ptWalk (guestInstallVaPages clearedBlock 0x3ff000 0x2000 0 Perms.rw).2 0x3ff000 =
      some (0, Perms.rw) ∧
    (tlbiRequestEmitToVcpu (guestInstallVaPages clearedBlock 0x3ff000 0x2000 0
      Perms.rw).2.tlbi).1 = ⟨0, none, none, none⟩ ∧
    ¬ (tlbiRequestEmitToVcpu (guestInstallVaPages clearedBlock 0x3ff000 0x2000 0
      Perms.rw).2.tlbi).1.invalidates 0x3ff000 := by
  have hregs : (tlbiRequestEmitToVcpu (guestInstallVaPages clearedBlock 0x3ff000 0x2000 0
      Perms.rw).2.tlbi).1 = ⟨0, none, none, none⟩ := by decide +kernel
  refine ⟨clearedBlock_wf, rfl, by decide +kernel, by decide +kernel, by decide +kernel, hregs, ?_⟩
  rw [hregs]
  exact id

end Elfuse
