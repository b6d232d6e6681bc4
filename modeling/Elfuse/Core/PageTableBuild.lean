/-
Building the page tables of an image.

`guest_build_page_tables` maps the regions of an image with 2 MiB blocks under a
new root, merging the permissions of regions that share a block, and then
splits the blocks that are not covered by one permission
(`finalize_block_perms`). Everything it does to the new tables is a page-table
operation or a block write, so the result is well formed:

* `guestBuildPageTables_wf` — the tables that a build makes current, even one
  that fails after it has, are well formed.
-/
import Elfuse.Core.PageTableRuns

namespace Elfuse

open Option Prod

structure MemRegion where
  gpaStart : ℕ
  gpaEnd : ℕ
  vaBase : ℕ
  perms : Perms

namespace Perms

def none : Perms := ⟨false, false, false, false⟩

def or (a b : Perms) : Perms := ⟨a.r || b.r, a.w || b.w, a.x || b.x, a.el1Only || b.el1Only⟩

end Perms

/-! ### Blocks of the regions -/

/-- The permissions of a block that may be mapped already: the most permissive. -/
def mergedPerms (perms : Perms) (old : ℕ) : Perms :=
  if isValid old then
    perms.or ⟨true, decide (old &&& (3 <<< 6) = ptApRwEl0), decide (old &&& ptUXN = 0), false⟩
  else perms

/-- The block loop of one region: `n` blocks from `gpa` on, looked up at their
address plus `vaOffset`. An address beyond L0 is skipped. -/
def buildBlocks (vaOffset : ℕ) (perms : Perms) : ℕ → ℕ → PageTables → Bool × PageTables
  | 0, _, p => (true, p)
  | n + 1, gpa, p =>
    let lookup := u64 (gpa + vaOffset)
    if 512 ≤ l0Idx lookup then buildBlocks vaOffset perms n (gpa + block2MiB) p
    else
      match ensureL2Slot false p lookup with
      | (.none, p') => (false, p')
      | (some s, p') => buildBlocks vaOffset perms n (gpa + block2MiB)
          (p'.write s (makeBlockDesc gpa (mergedPerms perms (p'.read s))))

/-- The distance from a region's addresses to where its data is looked up. -/
def MemRegion.vaOffset (r : MemRegion) : ℕ :=
  if r.vaBase ≠ 0 then u64 (r.vaBase + 2 ^ 64 - r.gpaStart) else 0

def buildRegion (r : MemRegion) (p : PageTables) : Bool × PageTables :=
  let gpaStart := align2MiBDown r.gpaStart
  buildBlocks r.vaOffset r.perms ((align2MiBUp r.gpaEnd - gpaStart) / block2MiB) gpaStart p

def buildRegions : List MemRegion → PageTables → Bool × PageTables
  | [], p => (true, p)
  | r :: rs, p =>
    if (buildRegion r p).1 then buildRegions rs (buildRegion r p).2 else buildRegion r p

/-! ### Splitting mixed blocks -/

/-- The insertion step of the sort by start, on the sorted list read from its end. -/
def insertByStart (r : MemRegion) : List MemRegion → List MemRegion
  | [] => [r]
  | x :: xs => if r.gpaStart < x.gpaStart then x :: insertByStart r xs else r :: x :: xs

/-- The identity-mapped regions that touch the block at `b`, in order of index. -/
def touching (regions : List MemRegion) (b : ℕ) : List MemRegion :=
  regions.filter fun r =>
    decide (r.vaBase = 0) && !(decide (r.gpaEnd ≤ b) || decide (b + block2MiB ≤ r.gpaStart))

def touchingSorted (regions : List MemRegion) (b : ℕ) : List MemRegion :=
  ((touching regions b).foldl (fun acc r => insertByStart r acc) []).reverse

def samePerm (l : List MemRegion) : Bool :=
  match l with
  | [] => true
  | r :: rest => rest.all fun s => decide (s.perms = r.perms)

/-- The coverage sweep: `none` when there is a gap, else how far the union goes. -/
def coveredUntil : ℕ → List MemRegion → Option ℕ
  | u, [] => some u
  | u, r :: rest =>
    if u < r.gpaStart then .none else coveredUntil (if u < r.gpaEnd then r.gpaEnd else u) rest

def fullCoverage (l : List MemRegion) (b : ℕ) : Bool :=
  match coveredUntil b l with
  | .none => false
  | some u => decide (b + block2MiB ≤ u)

/-- Where the pages of a region in the block end: its last page goes to a region
that starts on it. -/
def applyEnd (l : List MemRegion) (b : ℕ) (r : MemRegion) : ℕ :=
  let stop := pageAlignUp (if r.gpaEnd < b + block2MiB then r.gpaEnd else b + block2MiB)
  let stop := if b + block2MiB < stop then b + block2MiB else stop
  if (l.any fun q => decide (r.gpaEnd ≤ q.gpaStart) && decide (q.gpaStart < pageAlignUp r.gpaEnd)) ∧
      alignDown r.gpaEnd guestPageSize < stop then alignDown r.gpaEnd guestPageSize
  else stop

/-- `page_perms[i]`: the union of the regions that have page `i` of the block. -/
def pagePerms (l : List MemRegion) (b i : ℕ) : Perms :=
  l.foldl (fun acc r =>
    let start := alignDown (if b < r.gpaStart then r.gpaStart else b) guestPageSize
    if start ≤ b + i * guestPageSize ∧ b + i * guestPageSize < applyEnd l b r then acc.or r.perms
    else acc) Perms.none

def callOk (res : Option (ℤ × PageTables)) : Option (Bool × PageTables) :=
  res.map fun r => (!decide (r.1 < 0), r.2)

/-- Go on with `k` unless the step failed: `if (... < 0) return false`. -/
def andThen (res : Option (Bool × PageTables)) (k : PageTables → Option (Bool × PageTables)) :
    Option (Bool × PageTables) :=
  res.bind fun r => if r.1 then k r.2 else some (false, r.2)

variable {res : Option (Bool × PageTables)}

lemma andThen_true (h : andThen res k = some (true, p')) :
    ∃ q, res = some (true, q) ∧ k q = some (true, p') := by
  obtain ⟨⟨ok, q⟩, hres, hk⟩ := bind_eq_some_iff.mp h
  cases ok with
  | true => exact ⟨q, hres, hk⟩
  | false => cases hk

def runEnd (f : ℕ → Perms) (perms : Perms) : ℕ → ℕ → ℕ
  | 0, i => i
  | n + 1, i => if f i = perms then runEnd f perms n (i + 1) else i

/-- The loop over the runs of equal permissions, one update each. -/
def updateRuns (rs : List GuestRegion) (f : ℕ → Perms) (b : ℕ) :
    ℕ → ℕ → PageTables → Option (Bool × PageTables)
  | 0, _, p => some (true, p)
  | n + 1, i, p =>
    if 512 ≤ i then some (true, p)
    else
      let perms := f i
      let j := runEnd f perms (512 - i) i
      if perms = Perms.none then updateRuns rs f b n j p
      else
        andThen (callOk
            (guestUpdatePerms rs p (b + i * guestPageSize) (b + j * guestPageSize) perms))
          (updateRuns rs f b n j)

/-- One block: kept if one permission covers it, else split and rebuilt. -/
def finalizeBlock (rs : List GuestRegion) (regions : List MemRegion) (b : ℕ) (p : PageTables) :
    Option (Bool × PageTables) :=
  let l := touchingSorted regions b
  if samePerm (touching regions b) && fullCoverage l b then some (true, p)
  else
    andThen (callOk (some (guestSplitBlock p b))) fun p =>
      andThen (callOk (guestInvalidatePtes p b (b + block2MiB)))
        (updateRuns rs (pagePerms l b) b 512 0)

def finalizeBlocks (rs : List GuestRegion) (regions : List MemRegion) :
    ℕ → ℕ → PageTables → Option (Bool × PageTables)
  | 0, _, p => some (true, p)
  | n + 1, b, p =>
    andThen (finalizeBlock rs regions b p) (finalizeBlocks rs regions n (b + block2MiB))

def finalizeBlockPerms (rs : List GuestRegion) (regions : List MemRegion) :
    List MemRegion → PageTables → Option (Bool × PageTables)
  | [], p => some (true, p)
  | r :: rest, p =>
    if r.vaBase ≠ 0 then finalizeBlockPerms rs regions rest p
    else
      let lo := align2MiBDown r.gpaStart
      andThen (finalizeBlocks rs regions ((align2MiBUp r.gpaEnd - lo) / block2MiB) lo p)
        (finalizeBlockPerms rs regions rest)

/-- Model of `guest_build_page_tables`: the new `ttbr0`, or 0 when it fails. The
root becomes current only after the block loop. `rs` is the region tracker. -/
def guestBuildPageTables (rs : List GuestRegion) (p : PageTables) (regions : List MemRegion) :
    Option (ℕ × PageTables) :=
  match ptAllocPage p with
  | .none => some (0, p)
  | some (l0, p₁) =>
    let built := buildRegions regions { p₁ with ttbr0 := l0 }
    if !built.1 then some (0, { built.2 with ttbr0 := p.ttbr0 })
    else
      (finalizeBlockPerms rs regions regions built.2).map fun r =>
        if r.1 then (l0, r.2.ptGenBump) else (0, r.2)

/-! ### The built tables -/

variable {p p' : PageTables}

def NoPages (p : PageTables) : Prop := ∀ b f, blockView p b ≠ .pages f

lemma buildBlocks_wf (vaOffset : ℕ) (perms : Perms) : ∀ (n gpa : ℕ) (p : PageTables), PtWf p →
    NoPages p → PtWf (buildBlocks vaOffset perms n gpa p).2 ∧
      NoPages (buildBlocks vaOffset perms n gpa p).2 ∧
      OnlyTables p (buildBlocks vaOffset perms n gpa p).2 := by
  intro n
  induction n with
  | zero =>
    intro gpa p h hno
    exact ⟨h, hno, OnlyTables.refl p⟩
  | succ n ih =>
    intro gpa p h hno
    rw [buildBlocks]
    split
    · exact ih (gpa + block2MiB) p h hno
    obtain ⟨hsame, hfound, -⟩ := ensureL2Slot_view h false (u64 (gpa + vaOffset))
    generalize ensureL2Slot false p (u64 (gpa + vaOffset)) = res at hsame hfound ⊢
    obtain ⟨slot, p1⟩ := res
    have hno1 : NoPages p1 := fun b f hc => hno b f ((hsame.view b).symm.trans hc)
    cases slot with
    | none => exact ⟨hsame.wf, hno1, hsame.only⟩
    | some s =>
      have hs := hfound s rfl
      have hnt : isTable (p1.read s) = false := by
        rw [← Bool.not_eq_true, isTable_iff]
        intro hm
        exact hno1 _ _ ((blockView_of_find hsame.wf hs).trans (viewOf_table p1 hm))
      have hmod := makeBlockDesc_mod gpa (mergedPerms perms (p1.read s))
      have hcan : CanonicalPerms (makeBlockDesc gpa (mergedPerms perms (p1.read s))) := by
        rw [CanonicalPerms, descToPerms_makeBlockDesc, Perms.norm_norm]
      obtain ⟨hwf, hview⟩ := writeL2_view hsame.wf hs hnt (.inr ⟨hmod, hcan⟩)
      have hno2 : NoPages (p1.write s (makeBlockDesc gpa (mergedPerms perms (p1.read s)))) := by
        intro b f hc
        rw [hview, viewOf_block p1 hmod] at hc
        split at hc
        · cases hc
        · exact hno1 b f hc
      obtain ⟨h1, h2, h3⟩ := ih (gpa + block2MiB) _ hwf hno2
      exact ⟨h1, h2, (hsame.only.trans (onlyTables_write p1 s _)).trans h3⟩

lemma buildRegions_wf : ∀ (regions : List MemRegion) (p : PageTables), PtWf p → NoPages p →
    PtWf (buildRegions regions p).2 ∧ NoPages (buildRegions regions p).2 ∧
      OnlyTables p (buildRegions regions p).2 := by
  intro regions
  induction regions with
  | nil =>
    intro p h hno
    exact ⟨h, hno, OnlyTables.refl p⟩
  | cons r rest ih =>
    intro p h hno
    obtain ⟨h1, h2, h3⟩ := buildBlocks_wf r.vaOffset r.perms
      ((align2MiBUp r.gpaEnd - align2MiBDown r.gpaStart) / block2MiB) (align2MiBDown r.gpaStart)
      p h hno
    rw [buildRegions]
    split
    · obtain ⟨k1, k2, k3⟩ := ih (buildRegion r p).2 h1 h2
      exact ⟨k1, k2, h3.trans k3⟩
    · exact ⟨h1, h2, h3⟩

/-- A result of the second pass: well-formed tables, the root in place. -/
def KeepsWf (p : PageTables) (res : Option (Bool × PageTables)) : Prop :=
  ∀ ok p', res = some (ok, p') → PtWf p' ∧ Touched p p'

lemma keepsWf_some {ok : Bool} (h : PtWf p') (ht : Touched p p') : KeepsWf p (some (ok, p')) := by
  rintro ok p'' ⟨⟩
  exact ⟨h, ht⟩

lemma KeepsWf.andThen (h : KeepsWf p res) (hk : ∀ q, PtWf q → KeepsWf q (k q)) :
    KeepsWf p (andThen res k) := by
  intro ok p' hres
  obtain ⟨⟨ok1, p1⟩, hres1, hnext⟩ := bind_eq_some_iff.mp hres
  obtain ⟨h1, h2⟩ := h ok1 p1 hres1
  cases ok1 with
  | false =>
    obtain ⟨rfl, rfl⟩ := mk.inj (some_inj.mp hnext)
    exact ⟨h1, h2⟩
  | true =>
    obtain ⟨k1, k2⟩ := hk p1 h1 ok p' hnext
    exact ⟨k1, h2.trans k2⟩

lemma keepsWf_call {res : Option (ℤ × PageTables)}
    (h : ∀ r p', res = some (r, p') → PtWf p' ∧ Touched p p') : KeepsWf p (callOk res) := by
  intro ok p' hres
  obtain ⟨⟨r, p1⟩, hres1, heq⟩ := map_eq_some_iff.mp hres
  obtain ⟨-, rfl⟩ := mk.inj heq
  exact h r _ hres1

lemma updateRuns_keepsWf (f : ℕ → Perms) (b : ℕ) : ∀ (n i : ℕ) (p : PageTables), PtWf p →
    KeepsWf p (updateRuns rs f b n i p) := by
  intro n
  induction n with
  | zero =>
    intro i p h
    exact keepsWf_some h (Edited.refl p).touched
  | succ n ih =>
    intro i p h
    rw [updateRuns]
    split
    · exact keepsWf_some h (Edited.refl p).touched
    dsimp only
    split
    · exact ih _ p h
    · exact (keepsWf_call fun r p' hrun => (PtOp.updatePerms _ _ _ _).run_wf h hrun).andThen
        fun q hq => ih _ q hq

lemma finalizeBlock_keepsWf (b : ℕ) (h : PtWf p) : KeepsWf p (finalizeBlock rs regions b p) := by
  unfold finalizeBlock
  dsimp only
  split
  · exact keepsWf_some h (Edited.refl p).touched
  refine KeepsWf.andThen (keepsWf_call ?_) fun q hq => ?_
  · intro r p' heq
    have hp' : (guestSplitBlock p b).2 = p' := congrArg snd (some_inj.mp heq)
    exact hp' ▸ (PtOp.splitBlock b).run_wf h (r := _) rfl
  · exact (keepsWf_call fun r p' hrun => (PtOp.invalidatePtes _ _).run_wf hq hrun).andThen
      fun q' hq' => updateRuns_keepsWf _ b 512 0 q' hq'

lemma finalizeBlocks_keepsWf : ∀ (n b : ℕ) (p : PageTables), PtWf p →
    KeepsWf p (finalizeBlocks rs regions n b p) := by
  intro n
  induction n with
  | zero =>
    intro b p h
    exact keepsWf_some h (Edited.refl p).touched
  | succ n ih =>
    intro b p h
    rw [finalizeBlocks]
    exact (finalizeBlock_keepsWf b h).andThen fun q hq => ih _ q hq

lemma finalizeBlockPerms_keepsWf : ∀ (l : List MemRegion) (p : PageTables), PtWf p →
    KeepsWf p (finalizeBlockPerms rs regions l p) := by
  intro l
  induction l with
  | nil =>
    intro p h
    exact keepsWf_some h (Edited.refl p).touched
  | cons r rest ih =>
    intro p h
    rw [finalizeBlockPerms]
    split
    · exact ih p h
    · exact (finalizeBlocks_keepsWf _ _ p h).andThen ih

lemma noPages_of_empty (h : ∀ i, p.tables p.ttbr0 i = 0) : NoPages p := by
  intro b f hc
  unfold blockView at hc
  cases hn : p.node (l2Path b) with
  | none =>
    rw [hn] at hc
    cases hc
  | some a =>
    have := (node_of_empty h hn).1
    simp [l2Path] at this

/-- A build either leaves the root alone, or makes well-formed tables current. -/
lemma guestBuildPageTables_wf (h : PoolOk p)
    (hrun : guestBuildPageTables rs p regions = some (r, p')) : p'.guestSize = p.guestSize ∧
    ((r = 0 ∧ PoolOk p' ∧ p'.ttbr0 = p.ttbr0) ∨ PtWf p') := by
  unfold guestBuildPageTables at hrun
  cases halloc : ptAllocPage p with
  | none =>
    rw [halloc] at hrun
    obtain ⟨rfl, rfl⟩ := mk.inj (some_inj.mp hrun)
    exact ⟨rfl, .inl ⟨rfl, h, rfl⟩⟩
  | some res =>
    obtain ⟨l0, p1⟩ := res
    rw [halloc] at hrun
    dsimp only at hrun
    have hroot : ptRoot p = some { p1 with ttbr0 := l0 } := by rw [ptRoot, halloc]; rfl
    obtain ⟨hempty, hsize1⟩ : (∀ i, p1.tables l0 i = 0) ∧ p1.guestSize = p.guestSize := by
      unfold ptAllocPage at halloc
      split at halloc
      · cases halloc
      · obtain ⟨rfl, rfl⟩ := mk.inj (some_inj.mp halloc)
        exact ⟨fun i => if_pos rfl, rfl⟩
    obtain ⟨hwf, -, honly⟩ := buildRegions_wf regions { p1 with ttbr0 := l0 }
      (ptRoot_wf h hroot) (noPages_of_empty hempty)
    have hsize : (buildRegions regions { p1 with ttbr0 := l0 }).2.guestSize = p.guestSize := by
      rw [honly.eq]
      exact hsize1
    split at hrun
    · obtain ⟨rfl, rfl⟩ := mk.inj (some_inj.mp hrun)
      exact ⟨hsize, .inl ⟨rfl, ⟨hwf.pool.1, hwf.pool.2, hwf.pool.3, hwf.pool.4, hwf.pool.5,
        hwf.pool.6, hwf.pool.7⟩, rfl⟩⟩
    obtain ⟨⟨ok, p3⟩, hfin, heq⟩ := map_eq_some_iff.mp hrun
    obtain ⟨h1, h2⟩ := finalizeBlockPerms_keepsWf regions _ hwf ok p3 hfin
    have hsize3 : p3.guestSize = p.guestSize := by
      rw [h2]
      exact hsize
    cases ok with
    | true =>
      obtain ⟨-, rfl⟩ := mk.inj heq
      exact ⟨hsize3, .inr (h1.setRegs p3.tlbi (p3.ptGen + 1))⟩
    | false =>
      obtain ⟨-, rfl⟩ := mk.inj heq
      exact ⟨hsize3, .inr h1⟩

end Elfuse
