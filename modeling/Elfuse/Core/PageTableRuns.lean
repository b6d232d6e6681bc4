/-
Runs of page-table operations and what each operation means.

`PtOp` is the interface of the page tables as its callers see it, and
`PtReach` the states it can build from one empty root table of the pool.
Whatever the arguments, and whether a call succeeds or not, the tables stay
well formed (`PtOp.run_wf`, `PtReach.wf`). On those states the operations refine
updates of one partial function, the translation:

* `pageTable_ops_refine` — each successful call updates the translation on its
  own range, and nowhere else;
* `ops_beyond_encoding` — where a caller's arguments exceed what a descriptor
  can hold, the update is of what it can;
* `rangeCalls_stay_iff` — for which ranges the calls on a range return and stay
  inside it, and `rangeLoop_wraps_around`, what happens for the others;
* `ptRun_away` — a run of calls leaves the addresses outside their ranges alone.
-/
import Elfuse.Core.PageTableFill
import Elfuse.Lib.Runs

namespace Elfuse

open Option Nat

variable {p p' : PageTables} {start stop va : ℕ}

/-! ### Operations and reachable states -/

inductive PtOp
  | splitBlock (blockGpa : ℕ)
  | invalidatePtes (start stop : ℕ)
  | updatePerms (regions : List GuestRegion) (start stop : ℕ) (perms : Perms)
  | installVaPages (va length gpa : ℕ) (perms : Perms)
  | mapVaRange (vaBase vaLimit gpaStart : ℕ) (perms : Perms)
  | extendPageTables (start stop : ℕ) (perms : Perms)

/-- The result of a call; `none` when it does not return. -/
def PtOp.run (p : PageTables) : PtOp → Option (ℤ × PageTables)
  | .splitBlock blk => some (guestSplitBlock p blk)
  | .invalidatePtes start stop => guestInvalidatePtes p start stop
  | .updatePerms rs start stop perms => guestUpdatePerms rs p start stop perms
  | .installVaPages va length gpa perms => some (guestInstallVaPages p va length gpa perms)
  | .mapVaRange vaBase vaLimit gpaStart perms =>
      some (guestMapVaRange p vaBase vaLimit gpaStart perms)
  | .extendPageTables start stop perms => some (guestExtendPageTables p start stop perms)

def ptRoot (p : PageTables) : Option PageTables :=
  (ptAllocPage p).map fun r => { r.2 with ttbr0 := r.1 }

/-- The states built from an empty root by calls of the operations. -/
inductive PtReach : PageTables → Prop
  | root {p₀ p} : PoolOk p₀ → ptRoot p₀ = some p → PtReach p
  | step {p r p'} (op : PtOp) : PtReach p → op.run p = some (r, p') → PtReach p'

lemma node_of_empty (h : ∀ i, p.tables p.ttbr0 i = 0) :
    ∀ {q a}, p.node q = some a → q = [] ∧ a = p.ttbr0 := by
  intro q
  induction q with
  | nil =>
    intro a ha
    exact ⟨rfl, (some_inj.mp ha).symm⟩
  | cons i q ih =>
    intro a ha
    obtain ⟨b, hb, hc⟩ := bind_eq_some_iff.mp ha
    obtain ⟨-, rfl⟩ := ih hb
    rw [h i] at hc
    cases hc

lemma ptRoot_wf (h : PoolOk p) (hroot : ptRoot p = some p') : PtWf p' := by
  have hps : guestPageSize = 4096 := rfl
  obtain ⟨⟨a, q⟩, halloc, rfl⟩ := map_eq_some_iff.mp hroot
  unfold ptAllocPage at halloc
  split at halloc
  · cases halloc
  rename_i hroom
  obtain ⟨rfl, rfl⟩ := Prod.mk.inj (some_inj.mp halloc)
  have hal := h.next_aligned
  have hbase := h.base_le
  have hzero : ∀ i, (if p.ptPoolNext = p.ptPoolNext then 0 else p.tables p.ptPoolNext i) = 0 :=
    fun i => if_pos rfl
  refine ⟨⟨h.base_pos, h.base_aligned, ?_, ?_, ?_, h.end_le, h.size_le⟩, ⟨hbase, ?_, hal⟩, ?_, ?_⟩
  · show (p.ptPoolNext + guestPageSize) % 4096 = 0
    omega
  · exact le_trans hbase (le_add_right _ _)
  · exact not_lt.mp hroom
  · show p.ptPoolNext < p.ptPoolNext + guestPageSize
    omega
  · intro r c _ hc i
    obtain ⟨-, rfl⟩ := node_of_empty hzero hc
    exact .inl (hzero i)
  · intro r r' c _ _ hr hr'
    rw [(node_of_empty hzero hr).1, (node_of_empty hzero hr').1]

lemma pageAlignUp_mod (x : ℕ) : pageAlignUp x % 4096 = 0 := by
  unfold pageAlignUp alignUp guestPageSize
  omega

lemma alignDown_mod (x : ℕ) : alignDown x guestPageSize % 4096 = 0 := by
  unfold alignDown guestPageSize
  omega

variable {r : ℤ}

lemma cursor_start (hlt : ¬ pageAlignUp stop ≤ alignDown start guestPageSize) :
    Cursor (alignDown start guestPageSize) (pageAlignUp stop) (alignDown start guestPageSize) :=
  ⟨alignDown_mod start, pageAlignUp_mod stop, not_le.mp hlt, .inl rfl⟩

lemma guestInvalidatePtes_cases (h : guestInvalidatePtes p start stop = some (r, p')) :
    p' = p ∨ Cursor (alignDown start guestPageSize) (pageAlignUp stop)
        (alignDown start guestPageSize) ∧
      blockLoop (invalidateStep (alignDown start guestPageSize) (pageAlignUp stop))
        (pageAlignUp stop) loopFuel (alignDown start guestPageSize) p = some (r, p') := by
  unfold guestInvalidatePtes at h
  dsimp only at h
  split at h
  · cases h
    exact .inl rfl
  split at h
  · cases h
    exact .inl rfl
  · exact .inr ⟨cursor_start ‹_›, h⟩

lemma guestUpdatePerms_cases (h : guestUpdatePerms rs p start stop perms = some (r, p')) :
    p' = p ∨ p' = p.markIcacheIf perms.x ∨
      Cursor (alignDown start guestPageSize) (pageAlignUp stop) (alignDown start guestPageSize) ∧
      blockLoop (updateStep rs perms (alignDown start guestPageSize) (pageAlignUp stop))
        (pageAlignUp stop) loopFuel (alignDown start guestPageSize) (p.markIcacheIf perms.x) =
          some (r, p') := by
  unfold guestUpdatePerms at h
  dsimp only at h
  split at h
  · cases h
    exact .inl rfl
  split at h
  · cases h
    exact .inl rfl
  split at h
  · cases h
    exact .inr (.inl rfl)
  · exact .inr (.inr ⟨cursor_start ‹_›, h⟩)

/-- No call leaves ill-formed tables, and none moves the root or the pool. -/
lemma PtOp.run_wf (op : PtOp) (h : PtWf p) (hrun : op.run p = some (r, p')) :
    PtWf p' ∧ Touched p p' := by
  have hself : PtWf p ∧ Touched p p := ⟨h, (Edited.refl p).touched⟩
  cases op with
  | splitBlock blk =>
    obtain ⟨h1, h2, -⟩ := guestSplitBlock_walk h blk
    have heq := some_inj.mp hrun
    rw [heq] at h1 h2
    exact ⟨h1, h2.edited.touched⟩
  | invalidatePtes start stop =>
    obtain rfl | ⟨hcursor, hloop⟩ := guestInvalidatePtes_cases hrun
    · exact hself
    · exact blockLoop_wf (invalidateStep_spec _ _) _ _ p _ h (fun _ => hcursor) hloop
  | updatePerms rs start stop perms =>
    have hmark : PtWf (p.markIcacheIf perms.x) ∧ Touched p (p.markIcacheIf perms.x) :=
      ⟨h.markIcacheIf perms.x, touched_markIcacheIf p perms.x⟩
    obtain rfl | rfl | ⟨hcursor, hloop⟩ := guestUpdatePerms_cases hrun
    · exact hself
    · exact hmark
    obtain ⟨h1, h2⟩ := blockLoop_wf (updateStep_spec rs perms _ _) _ _ _ _ hmark.1
      (fun _ => hcursor) hloop
    exact ⟨h1, hmark.2.trans h2⟩
  | installVaPages va length gpa perms =>
    have heq := some_inj.mp hrun
    rcases install_call h va length gpa perms with hfail | ⟨-, -, -, m, -, hcall, -⟩
    · cases hfail.symm.trans heq
      exact hself
    · rw [heq] at hcall
      exact ⟨hcall.wf, hcall.frame⟩
  | mapVaRange vaBase vaLimit gpaStart perms =>
    have heq := some_inj.mp hrun
    rcases map_call h vaBase vaLimit gpaStart perms with hfail | ⟨-, -, -, -, e, -, hcall⟩
    · cases hfail.symm.trans heq
      exact hself
    · rw [heq] at hcall
      exact ⟨hcall.wf, hcall.frame⟩
  | extendPageTables start stop perms =>
    have heq := some_inj.mp hrun
    rcases extend_call h start stop perms with hfail | ⟨-, -, e, hcall, -⟩
    · cases hfail.symm.trans heq
      exact hself
    · rw [heq] at hcall
      exact ⟨hcall.wf, hcall.frame⟩

variable {perms : Perms} {rs : List GuestRegion} {gpa : ℕ}

lemma PtReach.wf (h : PtReach p) : PtWf p := by
  induction h with
  | root hpool hroot => exact ptRoot_wf hpool hroot
  | step op _ hrun ih => exact (op.run_wf ih hrun).1

/-! ### Refinement of pointwise updates -/

lemma installedLeaf_mod (perms : Perms) (k : ℕ) (hal : gpa % 4096 = 0) :
    installedLeaf gpa perms k = some ((gpa + k) % 2 ^ 48, perms.norm) := by
  have := pageAddr_eq (gpa + k)
  unfold installedLeaf
  congr 2
  omega

lemma invalidate_empty (hstart : start % 4096 = 0) (hstop : stop % 4096 = 0)
    (htop : stop ≤ 2 ^ 48) (hle : stop ≤ start) :
    guestInvalidatePtes p start stop = some (0, p) := by
  rw [guestInvalidatePtes, if_neg (by unfold guestPageSize; omega)]
  rw [alignDown_page hstart, pageAlignUp_page hstop (by omega), if_pos hle]

lemma update_empty (rs : List GuestRegion) (perms : Perms) (hstart : start % 4096 = 0)
    (hstop : stop % 4096 = 0) (htop : stop ≤ 2 ^ 48) (hle : stop ≤ start) :
    guestUpdatePerms rs p start stop perms = some (0, p) := by
  rw [guestUpdatePerms, if_neg (by unfold guestPageSize; omega)]
  rw [alignDown_page hstart, pageAlignUp_page hstop (by omega), if_pos hle]

variable {res : ℤ × PageTables} {a x : ℕ}

lemma RangeCall.done (h : RangeCall G start stop p res a) (hr : res.1 = 0) (va : ℕ) :
    ptWalk res.2 va = if start ≤ va ∧ va < stop then G va (l2Valid p va) (ptWalk p va)
      else ptWalk p va := by
  rcases h.ret with ⟨-, rfl, -⟩ | ⟨hneg, -, -⟩
  · exact h.walk va
  · rw [hneg] at hr
    cases hr

lemma invalidate_walk (h : PtWf p) (hstart : start % 4096 = 0) (hstop : stop % 4096 = 0)
    (htop : stop ≤ 2 ^ 48) : ∃ r p', guestInvalidatePtes p start stop = some (r, p') ∧
      (r = 0 → ∀ va, ptWalk p' va = if start ≤ va ∧ va < stop then none else ptWalk p va) := by
  by_cases hlt : start < stop
  · obtain ⟨⟨r, p'⟩, a, heq, hcall⟩ := invalidate_call ⟨hstart, hstop, hlt, by omega⟩ h
    exact ⟨r, p', heq, fun hr va => hcall.done hr va⟩
  · refine ⟨0, p, invalidate_empty hstart hstop htop (not_lt.mp hlt), fun _ va => ?_⟩
    rw [if_neg (by omega)]

lemma update_walk (h : PtWf p) (rs : List GuestRegion) (perms : Perms)
    (hstart : start % 4096 = 0) (hstop : stop % 4096 = 0) (htop : stop ≤ 2 ^ 48) :
    ∃ r p', guestUpdatePerms rs p start stop perms = some (r, p') ∧
      (r = 0 → ∀ va, ptWalk p' va = if start ≤ va ∧ va < stop then
        updatedLeaf rs perms va (l2Valid p va) (ptWalk p va) else ptWalk p va) := by
  by_cases hlt : start < stop
  · rcases update_call rs perms ⟨hstart, hstop, hlt, by omega⟩ h with ⟨-, heq⟩ |
      ⟨⟨r, p'⟩, a, heq, hcall⟩
    · exact ⟨-1, _, heq, fun hc => by cases hc⟩
    · exact ⟨r, p', heq, fun hr va => hcall.done hr va⟩
  · refine ⟨0, p, update_empty rs perms hstart hstop htop (not_lt.mp hlt), fun _ va => ?_⟩
    rw [if_neg (by omega)]

lemma FillCall.done (h : FillCall walk kept ok p res) (hr : res.1 = 0) : ok := by
  rcases h.ret with ⟨-, hok, -⟩ | ⟨hneg, -, -⟩
  · exact hok
  · rw [hneg] at hr
    cases hr

lemma install_walk (h : PtWf p)
    (heq : guestInstallVaPages p va length gpa perms = (0, p')) (x : ℕ) :
    ptWalk p' x = if va ≤ x ∧ x < va + length then some ((gpa + (x - va)) % 2 ^ 48, perms.norm)
      else ptWalk p x := by
  rcases install_call h va length gpa perms with hfail | ⟨-, hlen, hg, m, -, hcall, -⟩
  · cases hfail.symm.trans heq
  rw [heq] at hcall
  have hm := hcall.done rfl
  rw [hcall.walk_eq x, installedLeaf_mod perms _ hg]
  exact if_congr (by omega) rfl rfl

lemma map_walk (h : PtWf p) (heq : guestMapVaRange p vaBase vaLimit gpaStart perms = (0, p'))
    (hx : ptWalk p' x ≠ ptWalk p x) : l2Valid p x = false ∧ vaBase ≤ x ∧ x < vaLimit := by
  rcases map_call h vaBase vaLimit gpaStart perms with hfail | ⟨-, -, -, -, e, -, hcall⟩
  · cases hfail.symm.trans heq
  rw [heq] at hcall
  obtain rfl := hcall.done rfl
  rw [hcall.walk_eq x] at hx
  by_cases hin : (vaBase ≤ x ∧ x < e) ∧ l2Valid p x = false
  · exact ⟨hin.2, hin.1⟩
  · rw [if_neg hin] at hx
    exact absurd rfl hx

lemma align2MiBUp_eq (h : stop ≤ 2 ^ 64 - 2 ^ 21) :
    align2MiBUp stop = (stop + (2 ^ 21 - 1)) / 2 ^ 21 * 2 ^ 21 := by
  have hb : block2MiB = 2 ^ 21 := rfl
  rw [align2MiBUp, alignUp, hb, u64]
  omega

lemma extend_walk (h : PtWf p) (hlt : start < stop)
    (heq : guestExtendPageTables p start stop perms = (0, p')) (hx : ptWalk p' x ≠ ptWalk p x) :
    l2Valid p x = false ∧ ∃ y, start ≤ y ∧ y < stop ∧ y / 2 ^ 21 = x / 2 ^ 21 := by
  have hsize := h.pool.size_le
  rcases extend_call h start stop perms with hfail | ⟨-, hstop, e, hcall, -⟩
  · cases hfail.symm.trans heq
  rw [heq] at hcall
  have he := hcall.done rfl
  rw [hcall.walk_eq x] at hx
  by_cases hin : (align2MiBDown start ≤ x ∧ x < e) ∧ l2Valid p x = false
  · refine ⟨hin.2, ?_⟩
    rw [align2MiBUp_eq (by omega), align2MiBDown_eq] at he
    have hlo := hin.1.1
    rw [align2MiBDown_eq] at hlo
    -- the first address of the block, or of the range
    exact ⟨max start (x / 2 ^ 21 * 2 ^ 21), by omega, by omega, by omega⟩
  · rw [if_neg hin] at hx
    exact absurd rfl hx

/-- The operations as updates of the translation, on every state they can build.
A descriptor holds the permissions up to `Perms.norm` and 48 bits of the output
address, and the calls on a range always return. -/
theorem pageTable_ops_refine (h : PtReach p) :
    (∀ blk p', guestSplitBlock p blk = (0, p') → ∀ va, ptWalk p' va = ptWalk p va) ∧
    (∀ start stop, start % 4096 = 0 → stop % 4096 = 0 → stop ≤ 2 ^ 48 →
      ∃ r p', guestInvalidatePtes p start stop = some (r, p') ∧
        (r = 0 → ∀ va, ptWalk p' va = if start ≤ va ∧ va < stop then none else ptWalk p va)) ∧
    (∀ rs perms start stop, start % 4096 = 0 → stop % 4096 = 0 → stop ≤ 2 ^ 48 →
      ∃ r p', guestUpdatePerms rs p start stop perms = some (r, p') ∧ (r = 0 →
        (∀ va, start ≤ va → va < stop → l2Valid p va → ∃ o, ptWalk p' va = some (o, perms.norm) ∧
            ∀ o' old, ptWalk p va = some (o', old) → o = o') ∧
        ∀ va, ¬ (start ≤ va ∧ va < stop) → ptWalk p' va = ptWalk p va)) ∧
    (∀ va length gpa perms p', guestInstallVaPages p va length gpa perms = (0, p') →
      ∀ x, ptWalk p' x = if va ≤ x ∧ x < va + length then
        some ((gpa + (x - va)) % 2 ^ 48, perms.norm) else ptWalk p x) ∧
    (∀ vaBase vaLimit gpaStart perms p', guestMapVaRange p vaBase vaLimit gpaStart perms = (0, p') →
      ∀ x, ptWalk p' x ≠ ptWalk p x → l2Valid p x = false ∧ vaBase ≤ x ∧ x < vaLimit) ∧
    (∀ start stop perms p', start < stop → guestExtendPageTables p start stop perms = (0, p') →
      ∀ x, ptWalk p' x ≠ ptWalk p x →
        l2Valid p x = false ∧ ∃ y, start ≤ y ∧ y < stop ∧ y / 2 ^ 21 = x / 2 ^ 21) := by
  have hwf := h.wf
  refine ⟨fun blk p' heq va => ?_, fun start stop h1 h2 h3 => invalidate_walk hwf h1 h2 h3,
    fun rs perms start stop h1 h2 h3 => ?_,
    fun va length gpa perms p' heq x => install_walk hwf heq x,
    fun vaBase vaLimit gpaStart perms p' heq x => map_walk hwf heq,
    fun start stop perms p' hlt heq x => extend_walk hwf hlt heq⟩
  · have := (guestSplitBlock_walk hwf blk).2.2 va
    rw [heq] at this
    exact this
  obtain ⟨r, p', heq, hwalk⟩ := update_walk hwf rs perms h1 h2 h3
  refine ⟨r, p', heq, fun hr => ⟨fun va hlo hhi hval => ?_, fun va hout => ?_⟩⟩
  · rw [hwalk hr va, if_pos ⟨hlo, hhi⟩, hval]
    refine ⟨_, rfl, fun o' old ho => ?_⟩
    rw [ho]
  · rw [hwalk hr va, if_neg hout]

def emptyPool : PageTables where
  tables := fun _ _ => 0
  ptPoolBase := 0x10000
  ptPoolEnd := 0x20000
  ptPoolNext := 0x10000
  ttbr0 := 0
  guestSize := 2 ^ 30
  ptGen := 0
  tlbi := tlbiRequestClear
  tlbiRangeSupported := true

def oneBlock : PageTables :=
  (guestMapVaRange ((ptRoot emptyPool).getD emptyPool) 0x200000 0x400000 0x200000 Perms.rw).2

lemma oneBlock_reach : PtReach oneBlock := by
  have hpool : PoolOk emptyPool := by
    constructor <;> simp only [emptyPool] <;> omega
  have hsome : (ptRoot emptyPool).isSome := by decide +kernel
  obtain ⟨p, hp⟩ := isSome_iff_exists.mp hsome
  have hroot : (ptRoot emptyPool).getD emptyPool = p := by rw [hp, getD_some]
  rw [oneBlock, hroot]
  exact PtReach.step (.mapVaRange 0x200000 0x400000 0x200000 Perms.rw) (PtReach.root hpool hp) rfl

/-- Invalidating the second page of the block and write-protecting the third. -/
theorem pageTable_ops_refine_oneBlock :
    (∃ p', guestInvalidatePtes oneBlock 0x201000 0x202000 = some (0, p') ∧
      ∀ va, ptWalk p' va
        = if 0x201000 ≤ va ∧ va < 0x202000 then none else ptWalk oneBlock va) ∧
    ∃ p' o, guestUpdatePerms [] oneBlock 0x202000 0x203000 Perms.ro = some (0, p') ∧
      ptWalk p' 0x202000 = some (o, Perms.ro.norm) := by
  constructor
  · obtain ⟨r, p', heq, hres⟩ := (pageTable_ops_refine oneBlock_reach).2.1 0x201000 0x202000
      (by decide) (by decide) (by decide)
    have hret : (guestInvalidatePtes oneBlock 0x201000 0x202000).map Prod.fst = some 0 := by
      decide +kernel
    rw [heq] at hret
    cases hret
    exact ⟨p', heq, hres rfl⟩
  · obtain ⟨r, p', heq, hres⟩ := (pageTable_ops_refine oneBlock_reach).2.2.1 [] Perms.ro 0x202000
      0x203000 (by decide) (by decide) (by decide)
    have hret : (guestUpdatePerms [] oneBlock 0x202000 0x203000 Perms.ro).map Prod.fst =
        some 0 := by
      decide +kernel
    rw [heq] at hret
    cases hret
    obtain ⟨o, ho, -⟩ := (hres rfl).1 0x202000 (by decide) (by decide) (by decide +kernel)
    exact ⟨p', o, heq, ho⟩

/-- A page asked for write-only permissions becomes readable, a page installed at an address of more
than 48 bits is mapped to its low bits, and an empty range maps the block around it. -/
theorem ops_beyond_encoding : PtReach oneBlock ∧ l2Valid oneBlock 0x200000 ∧
    ((guestUpdatePerms [] oneBlock 0x200000 0x400000 ⟨false, true, false, false⟩).map
        fun r => (r.1, ptWalk r.2 0x200000))
      = some (0, some (0x200000, ⟨true, true, false, false⟩)) ∧
    (guestInstallVaPages oneBlock 0x200000 0x1000 (2 ^ 48) Perms.rw).1 = 0 ∧
    ptWalk (guestInstallVaPages oneBlock 0x200000 0x1000 (2 ^ 48) Perms.rw).2 0x200000 =
      some (0, Perms.rw) ∧
    ptWalk oneBlock 0x401000 = none ∧
    (guestExtendPageTables oneBlock 0x401000 0x401000 Perms.rw).1 = 0 ∧
    ptWalk (guestExtendPageTables oneBlock 0x401000 0x401000 Perms.rw).2 0x401000 =
      some (0x401000, Perms.rw) :=
  ⟨oneBlock_reach, by decide +kernel, by decide +kernel, by decide +kernel, by decide +kernel,
    by decide +kernel, by decide +kernel, by decide +kernel⟩

/-! ### The top of the address space -/

/-- A call on a range returns and changes no translation outside `[lo, hi)`. -/
def StaysInRange (p : PageTables) (lo hi : ℕ) (call : Option (ℤ × PageTables)) : Prop :=
  ∃ res, call = some res ∧ ∀ va, ¬ (lo ≤ va ∧ va < hi) → ptWalk res.2 va = ptWalk p va

lemma RangeCall.stays (h : RangeCall G start stop p res a) (heq : call = some res) :
    StaysInRange p start stop call := by
  refine ⟨res, heq, fun va hout => ?_⟩
  have hle := h.le
  rw [h.walk va, if_neg (by omega)]

lemma rounds_up (h : n ≤ 2 ^ 64 - 2 ^ 21) : ¬ 2 ^ 64 - 1 - (guestPageSize - 1) < n := by
  unfold guestPageSize
  omega

section
variable (hlt : start < stop) (htop : stop ≤ 2 ^ 64 - 2 ^ 21)
include hlt htop

lemma alignedRange : PageRange (alignDown start guestPageSize) (pageAlignUp stop) := by
  refine ⟨alignDown_mod start, pageAlignUp_mod stop, ?_, ?_⟩
  · unfold alignDown pageAlignUp alignUp guestPageSize u64
    omega
  · unfold pageAlignUp alignUp guestPageSize u64
    omega

lemma invalidate_aligned : guestInvalidatePtes p start stop
      = guestInvalidatePtes p (alignDown start guestPageSize) (pageAlignUp stop) := by
  have hr := alignedRange hlt htop
  have ht := hr.top
  rw [guestInvalidatePtes, guestInvalidatePtes, if_neg (rounds_up htop), if_neg (rounds_up ht),
    alignDown_page hr.start_aligned, pageAlignUp_page hr.stop_aligned (by omega)]

lemma update_aligned : guestUpdatePerms rs p start stop perms
      = guestUpdatePerms rs p (alignDown start guestPageSize) (pageAlignUp stop) perms := by
  have hr := alignedRange hlt htop
  have ht := hr.top
  rw [guestUpdatePerms, guestUpdatePerms, if_neg (rounds_up htop), if_neg (rounds_up ht),
    alignDown_page hr.start_aligned, pageAlignUp_page hr.stop_aligned (by omega)]

end

/-- Without L2 tables a range that ends in the last 2 MiB is never done: from the
last block the cursor wraps to 0. -/
lemma blockLoop_wraps
    (hstep : ∀ addr, step p addr = some (nextBlock addr, p)) (htop : 2 ^ 64 - 2 ^ 21 < stop)
    (hstop : stop ≤ 2 ^ 64) : ∀ n addr, addr < stop → blockLoop step stop n addr p = none := by
  have hb : block2MiB = 2 ^ 21 := rfl
  intro n
  induction n with
  | zero =>
    intro addr _
    rfl
  | succ n ih =>
    intro addr hlt
    rw [blockLoop, if_pos hlt, hstep]
    refine ih _ ?_
    rw [nextBlock, align2MiBUp, alignUp, hb, u64, u64]
    omega

def emptyRoot : PageTables :=
  { emptyPool with ptPoolNext := 0x11000, ttbr0 := 0x10000 }.writePage 0x10000 fun _ => 0

lemma emptyRoot_wf : PtWf emptyRoot := by
  have hpool : PoolOk emptyPool := by
    constructor <;> simp only [emptyPool] <;> omega
  refine ptRoot_wf hpool ?_
  rw [ptRoot, ptAllocPage, if_neg (by decide)]
  rfl

lemma emptyRoot_find (va : ℕ) : findL2Entry emptyRoot va = none := by
  have hzero : emptyRoot.read (emptyRoot.ttbr0, l0Idx va) = 0 := by
    show (if (0x10000 : ℕ) = 0x10000 then 0 else 0) = 0
    exact ite_self 0
  rw [findL2Entry]
  rw [hzero]
  exact ite_self none

/-- The calls on a range return and stay inside it, on all tables, exactly for the
ranges that end below the last 2 MiB block, those the overflow guard refuses and
those refused because they would make the kernel buffer's alias executable. -/
theorem rangeCalls_stay_iff (rs : List GuestRegion) (perms : Perms) (hlt : start < stop)
    (hstop : stop < 2 ^ 64) :
    ((∀ p, PtWf p → StaysInRange p (alignDown start guestPageSize) (pageAlignUp stop)
        (guestInvalidatePtes p start stop)) ↔
      (stop ≤ 0xFFFFFFFFFFE00000 ∨ 0xFFFFFFFFFFFFF000 < stop)) ∧
    ((∀ p, PtWf p → StaysInRange p (alignDown start guestPageSize) (pageAlignUp stop)
        (guestUpdatePerms rs p start stop perms)) ↔
      (stop ≤ 0xFFFFFFFFFFE00000 ∨ 0xFFFFFFFFFFFFF000 < stop ∨
        (perms.x && guestKbufUserVaOverlap (alignDown start guestPageSize)
          (pageAlignUp stop - alignDown start guestPageSize)))) := by
  have hps : guestPageSize = 4096 := rfl
  -- what is left of a call past the guards
  have hlate : ¬ (stop ≤ 0xFFFFFFFFFFE00000 ∨ 0xFFFFFFFFFFFFF000 < stop) →
      alignDown start guestPageSize < pageAlignUp stop ∧ 2 ^ 64 - 2 ^ 21 < pageAlignUp stop ∧
      pageAlignUp stop ≤ 2 ^ 64 := by
    intro hc
    unfold alignDown pageAlignUp alignUp guestPageSize u64
    omega
  refine ⟨⟨fun hall => ?_, fun hcond p h => ?_⟩, ⟨fun hall => ?_, fun hcond p h => ?_⟩⟩
  · by_contra hc
    obtain ⟨h1, h2, h3⟩ := hlate hc
    obtain ⟨res, hres, -⟩ := hall emptyRoot emptyRoot_wf
    rw [guestInvalidatePtes, if_neg (by omega)] at hres
    rw [if_neg (not_le.mpr h1), blockLoop_wraps (fun addr => invalidateStep_none
      (emptyRoot_find addr)) h2 h3 _ _ h1] at hres
    cases hres
  · rcases hcond with htop | htop
    · obtain ⟨res, a, heq, hcall⟩ := invalidate_call (alignedRange hlt (by omega)) h
      exact hcall.stays ((invalidate_aligned hlt (by omega)).trans heq)
    · refine ⟨(-1, p), ?_, fun _ _ => rfl⟩
      rw [guestInvalidatePtes, if_pos (by omega)]
  · by_contra hc
    have hrange : ¬ (stop ≤ 0xFFFFFFFFFFE00000 ∨ 0xFFFFFFFFFFFFF000 < stop) :=
      fun hr => hc (hr.imp id .inl)
    have hkbuf := fun hk => hc (.inr (.inr hk))
    obtain ⟨h1, h2, h3⟩ := hlate hrange
    obtain ⟨t, ht⟩ := markIcacheIf_cases emptyRoot perms.x
    have hfind : ∀ addr, findL2Entry { emptyRoot with tlbi := t } addr = none := emptyRoot_find
    obtain ⟨res, hres, -⟩ := hall emptyRoot emptyRoot_wf
    rw [guestUpdatePerms, if_neg (by omega)] at hres
    rw [if_neg (not_le.mpr h1), if_neg hkbuf, ht,
      blockLoop_wraps (fun addr => updateStep_none (hfind addr)) h2 h3 _ _ h1] at hres
    cases hres
  rcases hcond with htop | htop | hk
  · rcases update_call rs perms (alignedRange hlt (by omega)) h with
      ⟨-, heq⟩ | ⟨res, a, heq, hcall⟩
    · obtain ⟨t, ht⟩ := markIcacheIf_cases p perms.x
      rw [update_aligned hlt (by omega), heq, ht]
      exact ⟨_, rfl, fun _ _ => rfl⟩
    · exact hcall.stays ((update_aligned hlt (by omega)).trans heq)
  · refine ⟨(-1, p), ?_, fun _ _ => rfl⟩
    rw [guestUpdatePerms, if_pos (by omega)]
  unfold guestUpdatePerms
  dsimp only
  split
  · exact ⟨_, rfl, fun _ _ => rfl⟩
  split
  · exact ⟨_, rfl, fun _ _ => rfl⟩
  obtain ⟨t, ht⟩ := markIcacheIf_cases p perms.x
  rw [ht]
  exact ⟨_, rfl, fun _ _ => rfl⟩

/-- The whole range below the last 2 MiB block, and the pages of that block. -/
theorem rangeCalls_stay_iff_ends :
    (∀ p, PtWf p → StaysInRange p (alignDown 1 guestPageSize) (pageAlignUp 0xFFFFFFFFFFE00000)
      (guestInvalidatePtes p 1 0xFFFFFFFFFFE00000)) ∧
    ¬ ∀ p, PtWf p → StaysInRange p (alignDown 0xFFFFFFFFFFE00000 guestPageSize)
      (pageAlignUp 0xFFFFFFFFFFFFF000)
      (guestUpdatePerms [] p 0xFFFFFFFFFFE00000 0xFFFFFFFFFFFFF000 Perms.ro) := by
  refine ⟨?_, fun hc => ?_⟩
  · exact (rangeCalls_stay_iff [] Perms.ro (by decide) (by decide)).1.mpr (.inl le_rfl)
  · exact absurd ((rangeCalls_stay_iff [] Perms.ro (by decide) (by decide)).2.mp hc) (by decide)

/-- Invalidating the last 2 MiB less a page. Without tables the loop goes on for
ever. With a block at 2 MiB the cursor comes round to it and clears it, far
outside the range. -/
theorem rangeLoop_wraps_around :
    (PtWf emptyRoot ∧ ∀ n, blockLoop (invalidateStep 0xFFFFFFFFFFE00000 0xFFFFFFFFFFFFF000)
      0xFFFFFFFFFFFFF000 n 0xFFFFFFFFFFE00000 emptyRoot = none) ∧
    PtReach oneBlock ∧
    (invalidateStep 0xFFFFFFFFFFE00000 0xFFFFFFFFFFFFF000 oneBlock 0xFFFFFFFFFFE00000).map
      Prod.fst = some 0 ∧
    (invalidateStep 0xFFFFFFFFFFE00000 0xFFFFFFFFFFFFF000 oneBlock 0).map Prod.fst = some 0x200000 ∧
    ptWalk oneBlock 0x200000 = some (0x200000, Perms.rw) ∧
    ∃ addr' p', invalidateStep 0xFFFFFFFFFFE00000 0xFFFFFFFFFFFFF000 oneBlock 0x200000
        = some (addr', p') ∧ ptWalk p' 0x200000 = none := by
  refine ⟨⟨emptyRoot_wf, fun n => ?_⟩, oneBlock_reach, by decide +kernel, by decide +kernel,
    by decide +kernel, ?_⟩
  · exact blockLoop_wraps (fun addr => invalidateStep_none (emptyRoot_find addr)) (by decide)
      (by decide) n _ (by decide)
  rcases invalidateStep_spec 0xFFFFFFFFFFE00000 0xFFFFFFFFFFFFF000 oneBlock 0x200000
    oneBlock_reach.wf ⟨by decide, by decide, by decide, .inr (by decide)⟩ with
    ⟨-, hpool, -⟩ | ⟨addr', p', heq, hstep⟩
  · exact absurd hpool (by decide +kernel)
  · refine ⟨addr', p', heq, ?_⟩
    rw [hstep.walk, if_pos (by decide)]

/-! ### Whole runs -/

def PtOp.next (p : PageTables) (op : PtOp) : Option PageTables := (op.run p).map Prod.snd

/-- The range of a call, rounded as the call rounds it. -/
def PtOp.span : PtOp → ℕ × ℕ
  | .splitBlock _ => (0, 0)
  | .invalidatePtes start stop | .updatePerms _ start stop _ =>
    (alignDown start guestPageSize, pageAlignUp stop)
  | .installVaPages va length _ _ => (va, va + length)
  | .mapVaRange vaBase vaLimit _ _ => (vaBase, vaLimit)
  | .extendPageTables start stop _ => (align2MiBDown start, align2MiBUp stop)

/-- The call keeps away from `va` and from the last 2 MiB. -/
def PtOp.Away (va : ℕ) (op : PtOp) : Prop :=
  op.span.2 ≤ 2 ^ 64 - 2 ^ 21 ∧ (va < op.span.1 ∨ op.span.2 ≤ va)

lemma blockLoop_away (hstep : StepSpec G start stop step) (hc : Cursor start stop start)
    (hva : stop ≤ 2 ^ 64 - 2 ^ 21 ∧ (va < start ∨ stop ≤ va)) (h : PtWf p)
    (hrun : blockLoop step stop loopFuel start p = some (r, p')) : ptWalk p' va = ptWalk p va := by
  obtain ⟨res, a, heq, hcall⟩ := blockLoop_call hstep ⟨hc.aligned, hc.stop_aligned, hc.lt, hva.1⟩ h
  cases heq.symm.trans hrun
  have hle := hcall.le
  rw [hcall.walk, if_neg (by omega)]

lemma FillCall.away (h : FillCall walk kept ok p res) (heq : some res = some (r, p'))
    (hva : walk va = ptWalk p va) : ptWalk p' va = ptWalk p va := by
  rw [some_inj.mp heq] at h
  rw [h.walk_eq, hva]

/-- A call that returns, whether it fails or not, changes translations of its range only. -/
lemma PtOp.run_away (op : PtOp) (h : PtWf p) (hva : op.Away va) (hrun : op.run p = some (r, p')) :
    ptWalk p' va = ptWalk p va := by
  have hout := hva.2
  cases op with
  | splitBlock blk =>
    have hwalk := (guestSplitBlock_walk h blk).2.2 va
    rwa [some_inj.mp hrun] at hwalk
  | invalidatePtes start stop =>
    obtain rfl | ⟨hcursor, hloop⟩ := guestInvalidatePtes_cases hrun
    · rfl
    · exact blockLoop_away (invalidateStep_spec _ _) hcursor hva h hloop
  | updatePerms rs start stop perms =>
    rw [← walk_markIcacheIf p perms.x]
    obtain rfl | rfl | ⟨hcursor, hloop⟩ := guestUpdatePerms_cases hrun
    · rw [walk_markIcacheIf]
    · rfl
    · exact blockLoop_away (updateStep_spec rs perms _ _) hcursor hva (h.markIcacheIf _) hloop
  | installVaPages x length gpa perms =>
    rcases install_call h x length gpa perms with hfail | ⟨-, -, -, m, hm, hcall, -⟩
    · cases hfail.symm.trans (some_inj.mp hrun)
      rfl
    · exact hcall.away hrun (if_neg (by dsimp only [span] at hout; omega))
  | mapVaRange vaBase vaLimit gpaStart perms =>
    rcases map_call h vaBase vaLimit gpaStart perms with hfail | ⟨-, -, -, -, e, he, hcall⟩
    · cases hfail.symm.trans (some_inj.mp hrun)
      rfl
    · exact hcall.away hrun (if_neg (by dsimp only [span] at hout; omega))
  | extendPageTables start stop perms =>
    rcases extend_call h start stop perms with hfail | ⟨-, -, e, hcall, he⟩
    · cases hfail.symm.trans (some_inj.mp hrun)
      rfl
    · exact hcall.away hrun (if_neg (by dsimp only [span] at hout; omega))

/-- No run of calls, whichever of them fail, changes the translation of an address outside their
ranges. -/
theorem ptRun_away {ops : List PtOp} (h : PtReach p) (hva : ∀ op ∈ ops, op.Away va)
    (hrun : Runs.exec PtOp.next p ops = some p') : ptWalk p' va = ptWalk p va := by
  refine (Runs.exec_keeps_of_meets (P := fun q => PtWf q ∧ ptWalk q va = ptWalk p va)
    (fun _ op => op.Away va) ?_ ⟨h.wf, rfl⟩
    (Runs.meets_of_forall fun op hop _ => hva op hop) hrun).2
  rintro q op q' ⟨hwf, hq⟩ haway hn
  obtain ⟨⟨r, q'⟩, hop, rfl⟩ := map_eq_some_iff.mp hn
  exact ⟨(op.run_wf hwf hop).1, (op.run_away hwf haway hop).trans hq⟩

/-- The first call fails, there being no table to install in. -/
theorem ptRun_away_oneBlock : ∃ p', Runs.exec PtOp.next oneBlock
      [.installVaPages 0x400000 4096 0 Perms.rw, .splitBlock 0x200000] = some p' ∧
      ptWalk p' 0x200000 = some (0x200000, Perms.rw) := by
  have hrun : Runs.exec PtOp.next oneBlock
      [.installVaPages 0x400000 4096 0 Perms.rw, .splitBlock 0x200000] = some _ := rfl
  refine ⟨_, hrun, (ptRun_away oneBlock_reach ?_ hrun).trans (by decide +kernel)⟩
  simp [PtOp.Away, PtOp.span]

end Elfuse
