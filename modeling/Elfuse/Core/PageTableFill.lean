/-
Filling the page tables: installed pages and mapped blocks.

`guest_install_va_pages` works page by page on blocks that are there already,
`guest_map_va_range` and `guest_extend_page_tables` block by block, allocating
the tables they miss. Either loop can stop part way, so each is described by the
number of pages or blocks it got done:

* `installPages_run` — the pages done translate to their backing, the rest is
  unchanged;
* `mapBlocks_run` — a block done is mapped if its L2 entry was invalid, and
  unchanged otherwise.
-/
import Elfuse.Core.PageTableSpec

namespace Elfuse

open Function Nat

variable {p p' : PageTables} {va stop n v gpa : ℕ} {s : Slot} {perms : Perms}

/-! ### Installing pages -/

def installedLeaf (gpa : ℕ) (perms : Perms) (k : ℕ) : Option (ℕ × Perms) :=
  some (pageAddr (gpa + k) + k % 4096, perms.norm)

lemma write_read (p : PageTables) (s : Slot) : p.write s (p.read s) = p := by
  have htables : (fun a i => if a = s.1 ∧ i = s.2 then p.read s else p.tables a i) = p.tables := by
    funext a i
    by_cases hc : a = s.1 ∧ i = s.2
    · rw [if_pos hc, hc.1, hc.2]
      rfl
    · rw [if_neg hc]
  rw [PageTables.write, htables]

/-- The state after one page of `guest_install_va_pages`. -/
def installPage (perms : Perms) (p : PageTables) (s : Slot) (v gpa : ℕ) : PageTables :=
  let split := if isBlock (p.read s) then guestSplitBlock p (align2MiBDown v) else (0, p)
  split.2.write (pageAddr (split.2.read s), l3Idx v) (makePageDesc gpa perms)

def BlockView.isBlock : BlockView → Bool
  | .block _ => true
  | _ => false

structure PageStep (f : Option (ℕ × Perms)) (v : ℕ) (p p' : PageTables) : Prop where
  wf : PtWf p'
  only : OnlyTables p p'
  walk : ∀ va, ptWalk p' va = if va / 4096 = v / 4096 then
    f.map (fun x => (x.1 + va % 4096, x.2)) else ptWalk p va
  valid : ∀ va, l2Valid p' va = l2Valid p va
  view : ∀ b, b ≠ v / 2 ^ 21 → blockView p' b = blockView p b
  split : (blockView p' (v / 2 ^ 21)).isBlock = false

lemma viewOf_isBlock (p : PageTables) (d : ℕ) : (viewOf p d).isBlock = isBlock d := by
  by_cases hm : d % 4 = 1
  · rw [viewOf_block p hm, isBlock_iff.mpr hm]
    rfl
  rw [(Bool.not_eq_true _ ▸ fun hc => hm (isBlock_iff.mp hc) : isBlock d = false), viewOf]
  cases hv : isValid d with
  | false => rfl
  | true =>
    rw [isTable_iff.mpr (by rw [isValid_iff] at hv; omega)]
    rfl

lemma pageStep_write (h : PtWf p) (hs : findL2Entry p v = some s)
    (ht : isTable (p.read s)) (gpa : ℕ) (perms : Perms) :
    PageStep (some (pageAddr gpa, perms.norm)) v p
      (p.write (pageAddr (p.read s), l3Idx v) (makePageDesc gpa perms)) := by
  have hlt := (findL2Entry_some h hs).1
  obtain ⟨hwf, -, -, hview⟩ := writeL3_view h hs ht (k := l3Idx v)
    (pageEntryOk_makePageDesc gpa perms)
  refine ⟨hwf, onlyTables_write p _ _, fun va => ?_, fun va => ?_, fun b hb => ?_, ?_⟩
  · refine walk_of_view (R := fun va => va / 4096 = v / 4096)
      (G := fun va => some (pageAddr gpa + va % 4096, perms.norm)) h hwf hview
      (fun va hva => by omega) (fun va hva => ?_) va
    rw [blockView_of_find h hs, viewOf_table p (isTable_iff.mp ht)]
    show pageLeaf ((update (p.tables (pageAddr (p.read s))) (l3Idx v)
      (makePageDesc gpa perms) : ℕ → ℕ) (l3Idx va)) va = _
    have hidx : l3Idx va = l3Idx v ↔ va / 4096 = v / 4096 := by
      unfold l3Idx guestPageSize block2MiB
      omega
    by_cases hpage : va / 4096 = v / 4096
    · rw [if_pos hpage, hidx.mpr hpage, update_self, pageLeaf,
        if_pos (isValid_iff.mpr (by have := makePageDesc_mod gpa perms; omega)),
        pageAddr_makePageDesc, descToPerms_makePageDesc]
      rfl
    · rw [if_neg hpage, update_of_ne (fun hc => hpage (hidx.mp hc))]
      rfl
  · rw [l2Valid_eq hwf, l2Valid_eq h, hview]
    by_cases hb : va / 2 ^ 21 = v / 2 ^ 21
    · rw [if_pos hb, hb, blockView_of_find h hs, viewOf_table p (isTable_iff.mp ht)]
      rfl
    · rw [if_neg hb]
  · rw [hview, if_neg hb]
  · rw [hview, if_pos rfl]
    rfl

/-- One page: the block is split if need be, then its entry is written. -/
lemma installPage_step (h : PtWf p) (hs : findL2Entry p v = some s)
    (hv : isValid (p.read s)) (gpa : ℕ) (perms : Perms) :
    (isBlock (p.read s) ∧ guestSplitBlock p (align2MiBDown v) = (-1, p) ∧
      p.ptPoolEnd < p.ptPoolNext + 4096) ∨
    (¬ (if isBlock (p.read s) then guestSplitBlock p (align2MiBDown v) else (0, p)).1 < 0 ∧
      PageStep (some (pageAddr gpa, perms.norm)) v p (installPage perms p s v gpa) ∧
      (installPage perms p s v gpa).ptPoolNext
        ≤ p.ptPoolNext + if isBlock (p.read s) then 4096 else 0) := by
  unfold installPage
  by_cases hb : isBlock (p.read s)
  · rw [if_pos hb, guestSplitBlock_some h ((findL2Entry_align h v).trans hs)]
    have hm := isBlock_iff.mp hb
    rcases split_view h hs hm with ⟨hpool, heq⟩ | ⟨p1, heq, hd⟩
    · exact .inl ⟨hb, heq, hpool⟩
    rw [heq]
    have hstep := pageStep_write hd.wf hd.find hd.table gpa perms
    refine .inr ⟨Int.lt_irrefl 0, ⟨hstep.wf, hd.only.trans hstep.only, fun va => ?_, fun va => ?_,
      fun b hb => ?_, hstep.split⟩, ?_⟩
    · rw [hstep.walk va, hd.walk h hs hm]
    · rw [hstep.valid va, l2Valid_eq hd.wf, l2Valid_eq h, hd.view]
      by_cases hblk : va / 2 ^ 21 = v / 2 ^ 21
      · rw [if_pos hblk, hblk, blockView_of_find h hs, viewOf_block p hm]
        rfl
      · rw [if_neg hblk]
    · rw [hstep.view b hb, hd.view b, if_neg hb]
    · rw [if_pos hb]
      exact le_of_eq hd.next
  · have hm : p.read s % 4 = 3 := by
      rw [isBlock_iff] at hb
      rw [isValid_iff] at hv
      omega
    rw [if_neg hb]
    exact .inr ⟨Int.lt_irrefl 0, pageStep_write h hs (isTable_iff.mpr hm) gpa perms,
      le_add_right _ _⟩

/-- Where an installation of `n` pages stands after `m` of them. -/
structure InstallRun (perms : Perms) (v gpa m : ℕ) (p p' : PageTables) : Prop where
  wf : PtWf p'
  only : OnlyTables p p'
  walk : ∀ va, ptWalk p' va = if v ≤ va ∧ va < v + m * 4096 then
    installedLeaf gpa perms (va - v) else ptWalk p va
  valid : ∀ va, l2Valid p' va = l2Valid p va
  view : ∀ b, b < v / 2 ^ 21 ∨ v + m * 4096 ≤ b * 2 ^ 21 → blockView p' b = blockView p b

lemma InstallRun.cons (hv : v % 4096 = 0) (hg : gpa % 4096 = 0)
    (h : PageStep (some (pageAddr gpa, perms.norm)) v p p1)
    (hrun : InstallRun perms (v + guestPageSize) (gpa + guestPageSize) m p1 p') :
    InstallRun perms v gpa (m + 1) p p' := by
  have hps : guestPageSize = 4096 := rfl
  refine ⟨hrun.wf, h.only.trans hrun.only, fun va => ?_, fun va => ?_, fun b hb => ?_⟩
  · rw [hrun.walk va, h.walk va]
    split
    · rw [if_pos (by omega)]
      have hk : gpa + guestPageSize + (va - (v + guestPageSize)) = gpa + (va - v) := by omega
      have hmod : (va - (v + guestPageSize)) % 4096 = (va - v) % 4096 := by omega
      rw [installedLeaf, installedLeaf, hk, hmod]
    split
    · rw [if_pos (by omega)]
      have h1 := pageAddr_eq gpa
      have h2 := pageAddr_eq (gpa + (va - v))
      show some (pageAddr gpa + va % 4096, perms.norm) = some (_, perms.norm)
      congr 2
      omega
    · rw [if_neg (by omega)]
  · rw [hrun.valid va, h.valid va]
  · rw [hrun.view b (by omega), h.view b (by omega)]

/-- How many blocks `n` pages from `v` on may make split: the one they start in,
unless it is split already, and those after it. -/
def installSplits (p : PageTables) (v n : ℕ) : ℕ :=
  (if (blockView p (v / 2 ^ 21)).isBlock then 1 else 0)
    + ((v + n * 4096 - 1) / 2 ^ 21 - v / 2 ^ 21)

lemma installSplits_step (hv : v % 4096 = 0) (hn : 0 < n)
    (hsplit : (blockView p1 (v / 2 ^ 21)).isBlock = false) :
    installSplits p1 (v + 4096) n + (if (blockView p (v / 2 ^ 21)).isBlock then 1 else 0)
      ≤ installSplits p v (n + 1) := by
  unfold installSplits
  by_cases hsame : (v + 4096) / 2 ^ 21 = v / 2 ^ 21
  · rw [hsame, hsplit]
    simp only [Bool.false_eq_true, if_false]
    omega
  have hnext : (v + 4096) / 2 ^ 21 = v / 2 ^ 21 + 1 := by omega
  rw [hnext]
  split <;> split <;> omega

def pageInstalled (perms : Perms) (p : PageTables) (s : Slot) (v gpa : ℕ) : Bool :=
  let split := if isBlock (p.read s) then guestSplitBlock p (align2MiBDown v) else (0, p)
  split.2.read (pageAddr (split.2.read s), l3Idx v) == makePageDesc gpa perms

/-- One turn of the page loop: both branches leave the page as if it had been
written, and only a change is noted. -/
lemma installPages_succ (bcast : Bool) (hs : findL2Entry p v = some s) (hval : isValid (p.read s))
    (hnn : ¬ (if isBlock (p.read s) then guestSplitBlock p (align2MiBDown v) else (0, p)).1 < 0) :
    installPages perms bcast (n + 1) v gpa p c
      = installPages perms bcast n (v + guestPageSize) (gpa + guestPageSize)
        (installPage perms p s v gpa)
        (if pageInstalled perms p s v gpa then c else c.note bcast v (v + guestPageSize)) := by
  rw [installPages, hs]
  dsimp only
  rw [hval, if_neg hnn]
  unfold pageInstalled installPage
  set q := (if isBlock (p.read s) then guestSplitBlock p (align2MiBDown v) else (0, p)).2
  by_cases hsame : q.read (pageAddr (q.read s), l3Idx v) = makePageDesc gpa perms
  · rw [if_pos hsame, if_pos (beq_iff_eq.mpr hsame), ← hsame, write_read]
    rfl
  · rw [if_neg hsame, if_neg (fun hc => hsame (beq_iff_eq.mp hc))]
    rfl

lemma installPages_run (perms : Perms) (bcast : Bool) :
    ∀ (n v gpa : ℕ) (p : PageTables) (c : Changed), PtWf p → v % 4096 = 0 → gpa % 4096 = 0 →
      ∃ m ≤ n, InstallRun perms v gpa m p (installPages perms bcast n v gpa p c).2.1 ∧
        ((installPages perms bcast n v gpa p c).1 ∧ m = n ∧
            (∀ va, v ≤ va → va < v + n * 4096 → l2Valid p va) ∨
          (installPages perms bcast n v gpa p c).1 = false ∧ m < n ∧
            (l2Valid p (v + m * 4096) = false ∨
              p.ptPoolEnd < p.ptPoolNext + installSplits p v n * 4096)) := by
  have hps : guestPageSize = 4096 := rfl
  intro n
  induction n with
  | zero =>
    intro v gpa p c h _ _
    refine ⟨0, le_rfl, ⟨h, OnlyTables.refl p, fun va => ?_, fun _ => rfl, fun _ _ => rfl⟩,
      .inl ⟨rfl, rfl, fun va _ _ => by omega⟩⟩
    rw [if_neg (by omega)]
    rfl
  | succ n ih =>
    intro v gpa p c h hv hg
    -- a page that cannot be installed ends the loop
    have hstop : ∀ res : Bool × PageTables × Changed, res = (false, p, c) →
        (l2Valid p v = false ∨ p.ptPoolEnd < p.ptPoolNext + installSplits p v (n + 1) * 4096) →
        ∃ m ≤ n + 1, InstallRun perms v gpa m p res.2.1 ∧ (res.1 ∧ m = n + 1 ∧
              (∀ va, v ≤ va → va < v + (n + 1) * 4096 → l2Valid p va) ∨
            res.1 = false ∧ m < n + 1 ∧ (l2Valid p (v + m * 4096) = false ∨
              p.ptPoolEnd < p.ptPoolNext + installSplits p v (n + 1) * 4096)) := by
      rintro res rfl hwhy
      refine ⟨0, zero_le _, ⟨h, OnlyTables.refl p, fun va => ?_, fun _ => rfl, fun _ _ => rfl⟩,
        .inr ⟨rfl, succ_pos n, ?_⟩⟩
      · rw [if_neg (by omega)]
      · rw [zero_mul, add_zero]
        exact hwhy
    cases hs : findL2Entry p v with
    | none =>
      refine hstop _ ?_ (.inl (l2Valid_of_find hs))
      rw [installPages, hs]
    | some s =>
      by_cases hval : isValid (p.read s)
      · have hvalid : l2Valid p v := (l2Valid_some hs).trans hval
        have hisb : (blockView p (v / 2 ^ 21)).isBlock = isBlock (p.read s) := by
          rw [blockView_of_find h hs, viewOf_isBlock]
        rcases installPage_step h hs hval gpa perms with ⟨hb, heq, hpool⟩ | ⟨hnn, hstep, hcost⟩
        · refine hstop _ ?_ (.inr ?_)
          swap
          · unfold installSplits
            rw [hisb, if_pos hb]
            omega
          rw [installPages, hs]
          dsimp only
          rw [hval, if_pos hb, heq]
          rfl
        -- both branches leave the page as if it had been written
        rw [installPages_succ bcast hs hval hnn]
        obtain ⟨m, hm, hrun, hres⟩ := ih (v + guestPageSize) (gpa + guestPageSize)
          (installPage perms p s v gpa) _ hstep.wf (by omega) (by omega)
        refine ⟨m + 1, by omega, InstallRun.cons hv hg hstep hrun, ?_⟩
        rcases hres with ⟨hok, hmn, hall⟩ | ⟨hok, hmn, hwhy⟩
        · refine .inl ⟨hok, by omega, fun va hva hva' => ?_⟩
          by_cases hfirst : va < v + 4096
          · exact (l2Valid_block h (by omega)).trans hvalid
          · rw [← hstep.valid va]
            exact hall va (by omega) (by omega)
        refine .inr ⟨hok, by omega, hwhy.imp (fun hl => ?_) (fun hp => ?_)⟩
        · rw [← hstep.valid, ← hl]
          congr 1
          omega
        have hend : (installPage perms p s v gpa).ptPoolEnd = p.ptPoolEnd := by
          rw [hstep.only.eq]
        have hsteps := installSplits_step (p := p) hv (by omega : 0 < n) hstep.split
        rw [hisb] at hsteps
        rw [hend] at hp
        rw [hps] at hp
        split at hcost <;> rename_i hblk
        · rw [if_pos hblk] at hsteps
          omega
        · rw [if_neg hblk] at hsteps
          omega
      · refine hstop _ ?_ (.inl ((l2Valid_some hs).trans (Bool.not_eq_true _ ▸ hval)))
        rw [installPages, hs]
        dsimp only
        rw [Bool.not_eq_true] at hval
        rw [hval]
        rfl

/-! ### Mapping blocks -/

def mappedLeaf (gpa : ℕ) (perms : Perms) (k : ℕ) : Option (ℕ × Perms) :=
  some (blockAddr (gpa + k) + k % 2 ^ 21, perms.norm)

lemma mappedLeaf_eq (gpa : ℕ) (perms : Perms) (k : ℕ) (hal : gpa % 2 ^ 21 = 0)
    (hlt : gpa + k < 2 ^ 48) : mappedLeaf gpa perms k = some (gpa + k, perms.norm) := by
  have := blockAddr_eq (gpa + k)
  unfold mappedLeaf
  congr 2
  omega

structure MapRun (perms : Perms) (va gpa e : ℕ) (p p' : PageTables) : Prop where
  wf : PtWf p'
  only : OnlyTables p p'
  walk : ∀ x, ptWalk p' x = if (va ≤ x ∧ x < e) ∧ l2Valid p x = false then
    mappedLeaf gpa perms (x - va) else ptWalk p x
  valid : ∀ x, l2Valid p' x = (l2Valid p x || decide (va ≤ x ∧ x < e))
  view : ∀ b, (blockView p b).present = true → blockView p' b = blockView p b

lemma SameView.walk (h : PtWf p) (hv : SameView p p') (va : ℕ) : ptWalk p' va = ptWalk p va := by
  rw [ptWalk_eq hv.wf, ptWalk_eq h, hv.view]

lemma SameView.l2Valid (h : PtWf p) (hv : SameView p p') (va : ℕ) :
    l2Valid p' va = l2Valid p va := by
  rw [l2Valid_eq hv.wf, l2Valid_eq h, hv.view]

lemma MapRun.zero (h : PtWf p) (hv : SameView p p') : MapRun perms va gpa va p p' := by
  refine ⟨hv.wf, hv.only, fun x => ?_, fun x => ?_, fun b _ => hv.view b⟩
  · rw [if_neg (by omega), hv.walk h]
  · rw [hv.l2Valid h, decide_eq_false (by omega), Bool.or_false]

lemma MapRun.keep (h : PtWf p) (hv : SameView p p') (hal : va % 2 ^ 21 = 0)
    (hval : l2Valid p' va) : MapRun perms va gpa (va + 2 ^ 21) p p' := by
  have hblock : ∀ x, va ≤ x ∧ x < va + 2 ^ 21 → l2Valid p x := by
    intro x hx
    rw [← hv.l2Valid h]
    exact (l2Valid_block hv.wf (by omega)).trans hval
  refine ⟨hv.wf, hv.only, fun x => ?_, fun x => ?_, fun b _ => hv.view b⟩
  · rw [hv.walk h, if_neg]
    rintro ⟨hx, hx'⟩
    rw [hblock x hx] at hx'
    cases hx'
  rw [hv.l2Valid h]
  by_cases hx : va ≤ x ∧ x < va + 2 ^ 21
  · rw [hblock x hx, Bool.true_or]
  · rw [decide_eq_false hx, Bool.or_false]

lemma MapRun.fill (h : PtWf p) (hv : SameView p p') (hs : findL2Entry p' va = some s)
    (hval : isValid (p'.read s) = false) (hal : va % 2 ^ 21 = 0) (hg : gpa % 2 ^ 21 = 0) :
    MapRun perms va gpa (va + 2 ^ 21) p (p'.write s (makeBlockDesc gpa perms)) := by
  have hlt := (findL2Entry_some hv.wf hs).1
  have hinv : ∀ x, x / 2 ^ 21 = va / 2 ^ 21 → l2Valid p x = false := by
    intro x hx
    rw [← hv.l2Valid h, l2Valid_block hv.wf hx, l2Valid_some hs, hval]
  have hnt : isTable (p'.read s) = false := by
    rw [← Bool.not_eq_true, isTable_iff]
    intro hc
    rw [isValid_iff.mpr (by omega)] at hval
    cases hval
  have hmod := makeBlockDesc_mod gpa perms
  have hcan : CanonicalPerms (makeBlockDesc gpa perms) := by
    rw [CanonicalPerms, descToPerms_makeBlockDesc, Perms.norm_norm]
  obtain ⟨hwf, hview⟩ := writeL2_view hv.wf hs hnt (.inr ⟨hmod, hcan⟩)
  rw [viewOf_block p' hmod] at hview
  refine ⟨hwf, hv.only.trans (onlyTables_write p' s _), fun x => ?_, fun x => ?_, fun b hb => ?_⟩
  · refine (walk_of_view (R := fun x => x / 2 ^ 21 = va / 2 ^ 21)
      (G := fun x => mappedLeaf gpa perms (x - va)) hv.wf hwf hview (fun x hx => by omega)
      (fun x hx => ?_) x).trans ?_
    · rw [if_pos hx]
      show some (blockAddr (makeBlockDesc gpa perms) + x % block2MiB,
        descToPerms (makeBlockDesc gpa perms)) = some (blockAddr (gpa + (x - va)) + _, perms.norm)
      have hb : block2MiB = 2 ^ 21 := rfl
      rw [blockAddr_makeBlockDesc, descToPerms_makeBlockDesc, hb]
      have h1 := blockAddr_eq gpa
      have h2 := blockAddr_eq (gpa + (x - va))
      congr 2
      omega
    · by_cases hx : x / 2 ^ 21 = va / 2 ^ 21
      · rw [if_pos hx, if_pos ⟨by omega, hinv x hx⟩]
      · rw [if_neg hx, if_neg (by omega), hv.walk h]
  · rw [l2Valid_eq hwf, hview]
    by_cases hx : x / 2 ^ 21 = va / 2 ^ 21
    · rw [if_pos hx, decide_eq_true (by omega : x < 2 ^ 48),
        decide_eq_true (by omega : va ≤ x ∧ x < va + 2 ^ 21), Bool.or_true]
      rfl
    · rw [if_neg hx, decide_eq_false (by omega : ¬ (va ≤ x ∧ x < va + 2 ^ 21)), Bool.or_false,
        ← hv.l2Valid h, l2Valid_eq hv.wf]
  · have hne : b ≠ va / 2 ^ 21 := by
      rintro rfl
      have hfalse := hinv va rfl
      rw [l2Valid_eq h, hb, decide_eq_true hlt] at hfalse
      cases hfalse
    rw [hview, if_neg hne, hv.view]

lemma MapRun.cons (h : MapRun perms va gpa (va + 2 ^ 21) p p1)
    (hrun : MapRun perms (va + block2MiB) (gpa + block2MiB) e p1 p') (he : va + 2 ^ 21 ≤ e) :
    MapRun perms va gpa e p p' := by
  have hb : block2MiB = 2 ^ 21 := rfl
  refine ⟨hrun.wf, h.only.trans hrun.only, fun x => ?_, fun x => ?_, fun b hpres => ?_⟩
  · rw [hrun.walk x, h.walk x, h.valid x]
    cases l2Valid p x with
    | true => rw [Bool.true_or, if_neg (by simp), if_neg (by simp), if_neg (by simp)]
    | false =>
      simp only [Bool.false_or, and_true, decide_eq_false_iff_not]
      by_cases hfirst : va ≤ x ∧ x < va + 2 ^ 21
      · have hin : va ≤ x ∧ x < e := by omega
        rw [if_neg (fun hc => hc.2 hfirst), if_pos hfirst, if_pos hin]
      by_cases hin : va + block2MiB ≤ x ∧ x < e
      · have hin' : va ≤ x ∧ x < e := by omega
        have hk : gpa + block2MiB + (x - (va + block2MiB)) = gpa + (x - va) := by omega
        have hmod : (x - (va + block2MiB)) % 2 ^ 21 = (x - va) % 2 ^ 21 := by omega
        rw [if_pos ⟨hin, hfirst⟩, if_pos hin', mappedLeaf, mappedLeaf, hk, hmod]
      · have hin' : ¬ (va ≤ x ∧ x < e) := by omega
        rw [if_neg (fun hc => hin hc.1), if_neg hfirst, if_neg hin']
  · rw [hrun.valid x, h.valid x, Bool.or_assoc]
    congr 1
    rw [← Bool.decide_or, decide_eq_decide]
    omega
  · have hone := h.view b hpres
    rw [hrun.view b (hone ▸ hpres), hone]

/-- Where the loop ends: at `stop`, or before it for want of an address or a pool page. -/
def MapEnd (perms : Perms) (va gpa stop : ℕ) (p : PageTables) (r : Bool × PageTables × Changed) :
    Prop :=
  ∃ e, MapRun perms va gpa e p r.2.1 ∧ va ≤ e ∧ e % 2 ^ 21 = 0 ∧ (r.1 ∧ e = stop ∨
    r.1 = false ∧ e < stop ∧ (2 ^ 48 ≤ e ∨ r.2.1.ptPoolEnd < r.2.1.ptPoolNext + 4096))

/-- The blocks a mapping loop gets done, and why it stops early. -/
lemma mapBlocks_run (checkL1 : Bool) (perms : Perms) (bcast : Bool) :
    ∀ (n va gpa : ℕ) (p : PageTables) (c : Changed), PtWf p → va % 2 ^ 21 = 0 → gpa % 2 ^ 21 = 0 →
      MapEnd perms va gpa (va + n * block2MiB) p (mapBlocks checkL1 perms bcast n va gpa p c) := by
  have hb : block2MiB = 2 ^ 21 := rfl
  intro n
  induction n with
  | zero =>
    intro va gpa p c h hva _
    exact ⟨va, MapRun.zero h (SameView.refl h), le_rfl, hva, .inl ⟨rfl, by omega⟩⟩
  | succ n ih =>
    intro va gpa p c h hva hg
    have hmul : (n + 1) * block2MiB = n * block2MiB + block2MiB := succ_mul n _
    obtain ⟨hsame, hfound, hnone⟩ := ensureL2Slot_view h checkL1 va
    rw [mapBlocks]
    generalize ensureL2Slot checkL1 p va = res at hsame hfound hnone ⊢
    obtain ⟨slot, p1⟩ := res
    cases slot with
    | none =>
      exact ⟨va, MapRun.zero h hsame, le_rfl, hva, .inr ⟨rfl, by omega, hnone rfl⟩⟩
    | some s =>
      have hs := hfound s rfl
      -- the rest of the loop, from either branch
      have hrest : ∀ p2 c', MapRun perms va gpa (va + 2 ^ 21) p p2 →
          MapEnd perms va gpa (va + (n + 1) * block2MiB) p
            (mapBlocks checkL1 perms bcast n (va + block2MiB) (gpa + block2MiB) p2 c') := by
        intro p2 c' hone
        obtain ⟨e, hrun, hle, hal, hres⟩ := ih (va + block2MiB) (gpa + block2MiB) p2 c' hone.wf
          (by omega) (by omega)
        refine ⟨e, hone.cons hrun (by omega), by omega, hal, ?_⟩
        exact hres.imp (fun hr => ⟨hr.1, by omega⟩) (fun hr => ⟨hr.1, by omega, hr.2.2⟩)
      dsimp only
      split
      · rename_i hval
        exact hrest p1 c (MapRun.keep h hsame hva ((l2Valid_some hs).trans hval))
      rename_i hval
      rw [Bool.not_eq_true] at hval
      exact hrest _ _ (MapRun.fill h hsame hs hval hva hg)

/-! ### The calls -/

lemma finishMap_spec (bcast ok : Bool) (q : PageTables) (c : Changed) :
    ∃ t, finishMap bcast (ok, q, c)
      = (if ok then 0 else -1, { q with tlbi := t, ptGen := q.ptGen + if ok then 1 else 0 }) := by
  cases ok with
  | false => exact ⟨q.tlbi, rfl⟩
  | true =>
    obtain ⟨t, ht⟩ := flushChanged_cases q bcast c
    refine ⟨t, ?_⟩
    show ((0 : ℤ), (flushChanged q bcast c).ptGenBump) = _
    rw [ht]
    rfl

/-- What a filling call leaves, whether it fails or not: `walk` is the new
translation, and the blocks of `kept` are as they were. -/
structure FillCall (walk : ℕ → Option (ℕ × Perms)) (kept : ℕ → Prop) (ok : Prop)
    (p : PageTables) (res : ℤ × PageTables) : Prop where
  wf : PtWf res.2
  frame : Touched p res.2
  walk_eq : ∀ va, ptWalk res.2 va = walk va
  view : ∀ b, kept b → blockView res.2 b = blockView p b
  ret : res.1 = 0 ∧ ok ∧ res.2.ptGen = p.ptGen + 1 ∨ res.1 = -1 ∧ ¬ ok ∧ res.2.ptGen = p.ptGen

lemma touched_markIcacheIf (p : PageTables) (x : Bool) : Touched p (p.markIcacheIf x) := by
  obtain ⟨t, ht⟩ := markIcacheIf_cases p x
  rw [ht]
  rfl

lemma blockView_markIcacheIf (p : PageTables) (x : Bool) (b : ℕ) :
    blockView (p.markIcacheIf x) b = blockView p b := by
  obtain ⟨t, ht⟩ := markIcacheIf_cases p x
  rw [ht]
  rfl

lemma FillCall.finish (hwf : PtWf r.2.1)
    (honly : OnlyTables (p.markIcacheIf x) r.2.1) (hwalk : ∀ va, ptWalk r.2.1 va = walk va)
    (hview : ∀ b, kept b → blockView r.2.1 b = blockView (p.markIcacheIf x) b)
    (hret : r.1 ∧ done ∨ r.1 = false ∧ ¬ done) : FillCall walk kept done p (finishMap bcast r) := by
  obtain ⟨ok, q, c⟩ := r
  obtain ⟨t, ht⟩ := finishMap_spec bcast ok q c
  have hq : Touched p q := (touched_markIcacheIf p x).trans honly.edited.touched
  have hgen : q.ptGen = p.ptGen := by
    obtain ⟨t', ht'⟩ := markIcacheIf_cases p x
    have heq : q.ptGen = _ := congrArg PageTables.ptGen honly.eq
    rw [heq, ht']
  rw [ht]
  refine ⟨hwf.setRegs t _, hq.trans rfl, hwalk, fun b hb => ?_, ?_⟩
  · rw [← blockView_markIcacheIf p x]
    exact hview b hb
  rcases hret with ⟨hok, hd⟩ | ⟨hok, hd⟩
  · obtain rfl : ok := hok
    exact .inl ⟨rfl, hd, by rw [← hgen]; rfl⟩
  · obtain rfl : ok = false := hok
    exact .inr ⟨rfl, hd, hgen⟩

lemma walk_markIcacheIf (p : PageTables) (x : Bool) (va : ℕ) :
    ptWalk (p.markIcacheIf x) va = ptWalk p va := by
  obtain ⟨t, ht⟩ := markIcacheIf_cases p x
  rw [ht]
  rfl

lemma l2Valid_markIcacheIf (p : PageTables) (x : Bool) (va : ℕ) :
    l2Valid (p.markIcacheIf x) va = l2Valid p va := by
  obtain ⟨t, ht⟩ := markIcacheIf_cases p x
  rw [ht]
  rfl

/-- `guest_install_va_pages`: refused, or the first `m` pages are installed. -/
lemma install_call (h : PtWf p) (va length gpa : ℕ) (perms : Perms) :
    guestInstallVaPages p va length gpa perms = (-1, p) ∨
    va % 4096 = 0 ∧ length % 4096 = 0 ∧ gpa % 4096 = 0 ∧ ∃ m ≤ length / 4096,
      FillCall (fun x => if va ≤ x ∧ x < va + m * 4096 then installedLeaf gpa perms (x - va)
        else ptWalk p x) (fun b => b < va / 2 ^ 21 ∨ va + m * 4096 ≤ b * 2 ^ 21)
        (m = length / 4096) p (guestInstallVaPages p va length gpa perms) ∧
      (m < length / 4096 → l2Valid p (va + m * 4096) = false ∨
        p.ptPoolEnd < p.ptPoolNext + installSplits p va (length / 4096) * 4096) := by
  have hps : guestPageSize = 4096 := rfl
  unfold guestInstallVaPages
  by_cases hg1 : length = 0
  · rw [if_pos hg1]
    exact .inl rfl
  rw [if_neg hg1]
  split
  · exact .inl rfl
  rename_i hg2
  split
  · exact .inl rfl
  split
  · exact .inl rfl
  rw [hps] at hg2
  obtain ⟨m, hm, hrun, hres⟩ := installPages_run perms p.isBroadcast (length / guestPageSize) va
    gpa (p.markIcacheIf perms.x) Changed.empty (h.markIcacheIf perms.x) (by omega) (by omega)
  refine .inr ⟨by omega, by omega, by omega, m, hm,
    FillCall.finish hrun.wf hrun.only (fun x => ?_) hrun.view ?_, fun hlt => ?_⟩
  · rw [hrun.walk x, walk_markIcacheIf]
  · exact hres.imp (fun hr => ⟨hr.1, hr.2.1⟩) (fun hr => ⟨hr.1, Nat.ne_of_lt hr.2.1⟩)
  rcases hres with ⟨-, hmn, -⟩ | ⟨-, -, hwhy⟩
  · exact absurd hmn (Nat.ne_of_lt hlt)
  rw [l2Valid_markIcacheIf] at hwhy
  obtain ⟨t, ht⟩ := markIcacheIf_cases p perms.x
  rw [ht] at hwhy
  exact hwhy

/-- `guest_map_va_range`: refused, or the absent blocks up to `e` are mapped. -/
lemma map_call (h : PtWf p) (vaBase vaLimit gpaStart : ℕ) (perms : Perms) :
    guestMapVaRange p vaBase vaLimit gpaStart perms = (-1, p) ∨
    vaBase < vaLimit ∧ vaBase % 2 ^ 21 = 0 ∧ vaLimit % 2 ^ 21 = 0 ∧ gpaStart % 2 ^ 21 = 0 ∧
      ∃ e ≤ vaLimit, FillCall (fun x => if (vaBase ≤ x ∧ x < e) ∧ l2Valid p x = false then
        mappedLeaf gpaStart perms (x - vaBase) else ptWalk p x)
        (fun b => (blockView p b).present) (e = vaLimit) p
        (guestMapVaRange p vaBase vaLimit gpaStart perms) := by
  have hb : block2MiB = 2 ^ 21 := rfl
  unfold guestMapVaRange
  split
  · exact .inl rfl
  split
  · exact .inl rfl
  rename_i hg2
  by_cases hg3 : p.ttbr0 = 0
  · rw [if_pos hg3]
    exact .inl rfl
  rw [if_neg hg3]
  rw [hb] at hg2
  have hend : vaBase + (vaLimit - vaBase) / block2MiB * block2MiB = vaLimit := by
    rw [hb]
    omega
  obtain ⟨e, hrun, hle, hal, hres⟩ := mapBlocks_run true perms p.isBroadcast
    ((vaLimit - vaBase) / block2MiB) vaBase gpaStart (p.markIcacheIf perms.x) Changed.empty
    (h.markIcacheIf perms.x) (by omega) (by omega)
  rw [hend] at hres
  refine .inr ⟨by omega, by omega, by omega, by omega, e, by omega,
    FillCall.finish hrun.wf hrun.only (fun x => ?_)
      (fun b hb => hrun.view b ((blockView_markIcacheIf p perms.x b).symm ▸ hb)) ?_⟩
  · rw [hrun.walk x, walk_markIcacheIf, l2Valid_markIcacheIf]
  · exact hres.imp id (fun hr => ⟨hr.1, Nat.ne_of_lt hr.2.1⟩)

/-- `guest_extend_page_tables`: refused, or the absent blocks up to `e` are
mapped to themselves. -/
lemma extend_call (h : PtWf p) (start stop : ℕ) (perms : Perms) :
    guestExtendPageTables p start stop perms = (-1, p) ∨
    start < p.guestSize ∧ stop ≤ p.guestSize ∧ ∃ e,
      FillCall (fun x => if (align2MiBDown start ≤ x ∧ x < e) ∧ l2Valid p x = false then
        mappedLeaf (align2MiBDown start) perms (x - align2MiBDown start) else ptWalk p x)
        (fun b => (blockView p b).present) (e = max (align2MiBDown start) (align2MiBUp stop)) p
        (guestExtendPageTables p start stop perms) ∧
      e ≤ max (align2MiBDown start) (align2MiBUp stop) := by
  have hb : block2MiB = 2 ^ 21 := rfl
  unfold guestExtendPageTables
  split
  · exact .inl rfl
  split
  · exact .inl rfl
  have hlo : align2MiBDown start % 2 ^ 21 = 0 := by
    rw [align2MiBDown_eq]
    omega
  have hhi : align2MiBUp stop % 2 ^ 21 = 0 := by
    unfold align2MiBUp alignUp
    rw [hb]
    omega
  have hend : align2MiBDown start + (align2MiBUp stop - align2MiBDown start) / block2MiB * block2MiB
      = max (align2MiBDown start) (align2MiBUp stop) := by
    rw [hb]
    omega
  obtain ⟨e, hrun, -, -, hres⟩ := mapBlocks_run false perms p.isBroadcast
    ((align2MiBUp stop - align2MiBDown start) / block2MiB) (align2MiBDown start)
    (align2MiBDown start) (p.markIcacheIf perms.x) Changed.empty (h.markIcacheIf perms.x) hlo hlo
  rw [hend] at hres
  refine .inr ⟨by omega, by omega, e, FillCall.finish hrun.wf hrun.only (fun x => ?_)
    (fun b hb => hrun.view b ((blockView_markIcacheIf p perms.x b).symm ▸ hb)) ?_, by omega⟩
  · rw [hrun.walk x, walk_markIcacheIf, l2Valid_markIcacheIf]
  · exact hres.imp id (fun hr => ⟨hr.1, Nat.ne_of_lt hr.2.1⟩)

end Elfuse
