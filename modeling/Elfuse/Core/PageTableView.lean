/-
What the page tables say about each 2 MiB block.

Behind the four levels of tables there is a plain function: every 2 MiB block
is absent, mapped by one block descriptor, or split into 512 page descriptors
(`BlockView`, `blockView`). A state is well formed (`PtWf`) when its tables are
pool pages, each level holds the kinds of descriptor that belong there, and no
two paths share a table. On such states

* `ptWalk_eq` — the walk from `ttbr0` reads the block view and nothing else;
* `ensureL2Slot_view` — allocating missing tables changes no block;
* `writeL2_view`, `split_view`, `writeL3_view` — the three kinds of write
  change one block, in the way their names say.
-/
import Elfuse.Core.PageTable
import Elfuse.Lib.Radix

namespace Elfuse

open List Function Option Nat

/-! ### Well-formed tables -/

def tableChild (d : ℕ) : Option ℕ := if isTable d then some (pageAddr d) else none

/-- The table page reached from `ttbr0` by a path of indices, last one first. -/
def PageTables.node (p : PageTables) (q : List ℕ) : Option ℕ :=
  Radix.node tableChild p.tables p.ttbr0 q

def InPool (p : PageTables) (a : ℕ) : Prop :=
  p.ptPoolBase ≤ a ∧ a < p.ptPoolNext ∧ a % 4096 = 0

def CanonicalPerms (d : ℕ) : Prop := (descToPerms d).norm = descToPerms d

/-- What an entry may hold at a level: pointers at L0 and L1, pointers and blocks
at L2, pages at L3, and nothing anywhere. -/
def EntryOk (p : PageTables) (level d : ℕ) : Prop :=
  d = 0 ∨ (level ≤ 2 ∧ ∃ a, InPool p a ∧ d = makeTableDesc a) ∨
  (level = 2 ∧ d % 4 = 1 ∧ CanonicalPerms d) ∨ (level = 3 ∧ d % 4 = 3 ∧ CanonicalPerms d)

structure PoolOk (p : PageTables) : Prop where
  base_pos : 0 < p.ptPoolBase
  base_aligned : p.ptPoolBase % 4096 = 0
  next_aligned : p.ptPoolNext % 4096 = 0
  base_le : p.ptPoolBase ≤ p.ptPoolNext
  next_le : p.ptPoolNext ≤ p.ptPoolEnd
  end_le : p.ptPoolEnd ≤ p.guestSize
  size_le : p.guestSize ≤ 2 ^ 48

structure PtWf (p : PageTables) : Prop where
  pool : PoolOk p
  root : InPool p p.ttbr0
  entries : ∀ q a, q.length ≤ 3 → p.node q = some a → ∀ i, EntryOk p q.length (p.tables a i)
  separated : Radix.Separated tableChild p.tables p.ttbr0 3

structure OnlyTables (p p' : PageTables) : Prop where
  eq : p' = { p with tables := p'.tables, ptPoolNext := p'.ptPoolNext }
  next : p.ptPoolNext ≤ p'.ptPoolNext

variable {p p' : PageTables} {a b d va : ℕ} {s : Slot}

lemma OnlyTables.refl (p : PageTables) : OnlyTables p p := ⟨rfl, le_rfl⟩

lemma OnlyTables.trans (h : OnlyTables p p') (h' : OnlyTables p' p'') : OnlyTables p p'' := by
  refine ⟨?_, le_trans h.next h'.next⟩
  rw [h'.eq, h.eq]

lemma onlyTables_write (p : PageTables) (s : Slot) (d : ℕ) : OnlyTables p (p.write s d) :=
  ⟨rfl, le_rfl⟩

lemma InPool.lt_size (h : InPool p a) (hp : PoolOk p) : a < 2 ^ 48 := by
  obtain ⟨-, h2, -⟩ := h
  have := hp.next_le
  have := hp.end_le
  have := hp.size_le
  omega

lemma InPool.mono (h : InPool p a) (hbase : p'.ptPoolBase = p.ptPoolBase)
    (hnext : p.ptPoolNext ≤ p'.ptPoolNext) : InPool p' a :=
  ⟨hbase ▸ h.1, lt_of_lt_of_le h.2.1 hnext, h.2.2⟩

lemma EntryOk.mono (h : EntryOk p level d) (hbase : p'.ptPoolBase = p.ptPoolBase)
    (hnext : p.ptPoolNext ≤ p'.ptPoolNext) : EntryOk p' level d := by
  rcases h with h | ⟨hl, a, ha, hd⟩ | h | h
  · exact .inl h
  · exact .inr (.inl ⟨hl, a, ha.mono hbase hnext, hd⟩)
  · exact .inr (.inr (.inl h))
  · exact .inr (.inr (.inr h))

lemma tableChild_makeTableDesc (ha : InPool p a) (hp : PoolOk p) :
    tableChild (makeTableDesc a) = some a := by
  rw [tableChild, if_pos (isTable_iff.mpr (makeTableDesc_mod a ha.2.2)),
    pageAddr_makeTableDesc ha.2.2 (ha.lt_size hp)]

lemma tableChild_of_mod (h : d % 4 ≠ 3) : tableChild d = none := by
  rw [tableChild, if_neg fun hc => h (isTable_iff.mp hc)]

lemma PtWf.node_inPool (h : PtWf p) : ∀ {q a}, q.length ≤ 3 → p.node q = some a → InPool p a := by
  intro q a hq ha
  cases q with
  | nil =>
    obtain rfl : p.ttbr0 = a := some_inj.mp ha
    exact h.root
  | cons i q =>
    rw [length_cons] at hq
    obtain ⟨b, hb, hc⟩ := bind_eq_some_iff.mp ha
    rcases h.entries q b (by omega) hb i with hz | ⟨-, c, hc', hd⟩ | ⟨hl, hm, -⟩ | ⟨hl, -, -⟩
    · rw [hz, tableChild_of_mod (by omega)] at hc
      cases hc
    · rw [hd, tableChild_makeTableDesc hc' h.pool] at hc
      obtain rfl := some_inj.mp hc
      exact hc'
    · rw [tableChild_of_mod (by omega)] at hc
      cases hc
    · omega

lemma PtWf.entry_mod (h : PtWf p) (hq : q.length ≤ 2) (ha : p.node q = some a) (i : ℕ) :
    p.tables a i = 0 ∨ p.tables a i % 4 = 3 ∨ (q.length = 2 ∧ p.tables a i % 4 = 1) := by
  rcases h.entries q a (by omega) ha i with hz | ⟨-, c, hc, hd⟩ | ⟨hl, hm, -⟩ | ⟨hl, -, -⟩
  · exact .inl hz
  · refine .inr (.inl ?_)
    rw [hd]
    exact makeTableDesc_mod c hc.2.2
  · exact .inr (.inr ⟨hl, hm⟩)
  · omega

lemma PtWf.entry_zero (h : PtWf p) (hq : q.length ≤ 3) (ha : p.node q = some a)
    (hi : isValid (p.tables a i) = false) : p.tables a i = 0 := by
  have hodd : p.tables a i % 2 ≠ 1 := fun hc => by
    rw [isValid_iff.mpr hc] at hi
    cases hi
  rcases h.entries q a hq ha i with hz | ⟨-, c, hc, hd⟩ | ⟨-, hm, -⟩ | ⟨-, hm, -⟩
  · exact hz
  · have := makeTableDesc_mod c hc.2.2
    rw [hd] at hodd
    omega
  · omega
  · omega

/-! ### The kinds of write -/

lemma write_tables (p : PageTables) (s : Slot) (d : ℕ) :
    (p.write s d).tables = Radix.set p.tables s.1 s.2 d := rfl

/-- A write that leaves every path where it was, with an entry that suits its
level, keeps the state well formed. -/
lemma PtWf.write_same (h : PtWf p) (hb : p.node q = some b) (hq : q.length ≤ 3)
    (hd : EntryOk p q.length d) (hnode : ∀ r, r.length ≤ 3 → (p.write (b, i) d).node r = p.node r) :
    PtWf (p.write (b, i) d) := by
  refine ⟨⟨h.pool.1, h.pool.2, h.pool.3, h.pool.4, h.pool.5, h.pool.6, h.pool.7⟩, h.root, ?_, ?_⟩
  · intro r c hr hc j
    rw [hnode r hr] at hc
    rw [write_tables, Radix.entry_set h.separated hb hq hc hr]
    by_cases hrj : r = q ∧ j = i
    · rw [if_pos hrj, hrj.1]
      exact hd
    · rw [if_neg hrj]
      exact h.entries r c hr hc j
  · exact h.separated.congr hnode

lemma PtWf.hang (h : PtWf p) (hb : p.node q = some b) (hq : q.length < 3)
    (hi : tableChild (p.tables b i) = none) (ha : InPool p a)
    (hfresh : ∀ r, r.length ≤ 3 → p.node r ≠ some a)
    (hcontent : ∀ j, EntryOk p (q.length + 1) (p.tables a j))
    (hleaf : q.length + 1 < 3 → ∀ j, tableChild (p.tables a j) = none) :
    PtWf (p.write (b, i) (makeTableDesc a)) ∧
    ∀ r, r.length ≤ 3 → (p.write (b, i) (makeTableDesc a)).node r
      = if r = i :: q then some a else p.node r := by
  have hchild := tableChild_makeTableDesc ha h.pool
  have hnode := Radix.node_set_fresh h.separated hb hq hi hchild hfresh hleaf
  refine ⟨⟨⟨h.pool.1, h.pool.2, h.pool.3, h.pool.4, h.pool.5, h.pool.6, h.pool.7⟩, h.root, ?_,
    Radix.separated_set_fresh h.separated hb hq hi hchild hfresh hleaf⟩, hnode⟩
  intro r c hr hc j
  show EntryOk p r.length (Radix.set p.tables b i (makeTableDesc a) c j)
  have hc' : (if r = i :: q then some a else p.node r) = some c := (hnode r hr).symm.trans hc
  by_cases hri : r = i :: q
  · rw [if_pos hri] at hc'
    obtain rfl := some_inj.mp hc'
    have hab : a ≠ b := by
      rintro rfl
      exact hfresh q (by omega) hb
    rw [Radix.set_of_ne fun hx => hab hx.1, hri]
    exact hcontent j
  rw [if_neg hri] at hc'
  rw [Radix.entry_set h.separated hb (by omega) hc' hr]
  by_cases hrj : r = q ∧ j = i
  · rw [if_pos hrj, hrj.1]
    exact .inr (.inl ⟨by omega, a, ha, rfl⟩)
  · rw [if_neg hrj]
    exact h.entries r c hr hc' j

lemma ptAllocPage_spec (h : PtWf p) (halloc : ptAllocPage p = some (a, p')) :
    PtWf p' ∧ OnlyTables p p' ∧ p'.ptPoolNext = p.ptPoolNext + 4096 ∧ a = p.ptPoolNext ∧
    InPool p' a ∧ (∀ r, r.length ≤ 3 → p'.node r = p.node r) ∧
    (∀ r, r.length ≤ 3 → p.node r ≠ some a) ∧ (∀ j, p'.tables a j = 0) ∧
    (∀ b, b ≠ a → p'.tables b = p.tables b) := by
  unfold ptAllocPage at halloc
  split at halloc
  · cases halloc
  rename_i hroom
  obtain ⟨rfl, rfl⟩ := Prod.mk.inj (some_inj.mp halloc)
  have hgps : guestPageSize = 4096 := rfl
  have hal := h.pool.next_aligned
  have hfresh : ∀ r, r.length ≤ 3 → p.node r ≠ some p.ptPoolNext := by
    intro r hr hc
    have := (h.node_inPool hr hc).2.1
    omega
  have hnode : ∀ r, r.length ≤ 3 → Radix.node tableChild
      (Radix.setPage p.tables p.ptPoolNext fun _ => 0) p.ttbr0 r = p.node r :=
    fun r hr => Radix.node_setPage_unreached hfresh _ r hr
  refine ⟨⟨⟨h.pool.1, h.pool.2, ?_, ?_, ?_, h.pool.6, h.pool.7⟩, ?_, ?_, ?_⟩, ⟨rfl, ?_⟩, rfl, rfl,
    ⟨h.pool.base_le, ?_, hal⟩, hnode, hfresh, fun j => if_pos rfl, fun b hb => ?_⟩
  · show (p.ptPoolNext + guestPageSize) % 4096 = 0
    omega
  · exact le_trans h.pool.base_le (le_add_right _ _)
  · exact not_lt.mp hroom
  · exact h.root.mono rfl (le_add_right _ _)
  · intro r c hr hc j
    have hc' : p.node r = some c := (hnode r hr).symm.trans hc
    have hne : c ≠ p.ptPoolNext := by
      rintro rfl
      exact hfresh r hr hc'
    refine EntryOk.mono (p := p) ?_ rfl (le_add_right _ _)
    show EntryOk p r.length (if c = p.ptPoolNext then 0 else p.tables c j)
    rw [if_neg hne]
    exact h.entries r c hr hc' j
  · exact h.separated.congr hnode
  · exact le_add_right _ _
  · show p.ptPoolNext < p.ptPoolNext + guestPageSize
    omega
  · funext j
    exact if_neg hb

lemma PtWf.writePage (h : PtWf p) (hfresh : ∀ r, r.length ≤ 3 → p.node r ≠ some a)
    (f : ℕ → ℕ) : PtWf (p.writePage a f) ∧
      ∀ r, r.length ≤ 3 → (p.writePage a f).node r = p.node r := by
  have hnode : ∀ r, r.length ≤ 3 → (p.writePage a f).node r = p.node r :=
    fun r hr => Radix.node_setPage_unreached hfresh f r hr
  refine ⟨⟨⟨h.pool.1, h.pool.2, h.pool.3, h.pool.4, h.pool.5, h.pool.6, h.pool.7⟩, h.root, ?_,
    h.separated.congr hnode⟩, hnode⟩
  intro r c hr hc j
  rw [hnode r hr] at hc
  have hne : c ≠ a := by
    rintro rfl
    exact hfresh r hr hc
  show EntryOk p r.length (if c = a then f j else p.tables c j)
  rw [if_neg hne]
  exact h.entries r c hr hc j

/-! ### The view of a block -/

/-- One 2 MiB block of the address space. -/
inductive BlockView
  | absent
  | block (d : ℕ)
  | pages (f : ℕ → ℕ)

/-- The indices of the L2 table of block `b`, last one first. -/
def l2Path (b : ℕ) : List ℕ := [b / 512 % 512, b / 2 ^ 18]

lemma l2Path_le : (l2Path b).length ≤ 3 := by
  simp [l2Path]

def viewOf (p : PageTables) (d : ℕ) : BlockView :=
  if !isValid d then .absent
  else if isTable d then .pages (p.tables (pageAddr d))
  else .block d

def blockView (p : PageTables) (b : ℕ) : BlockView :=
  match p.node (l2Path b) with
  | none => .absent
  | some a => viewOf p (p.tables a (b % 512))

lemma l2Path_inj : (l2Path b = l2Path b' ∧ b % 512 = b' % 512) ↔ b = b' := by
  constructor
  · rintro ⟨h1, h2⟩
    simp only [l2Path, cons.injEq, and_true] at h1
    omega
  · rintro rfl
    exact ⟨rfl, rfl⟩

lemma viewOf_zero (p : PageTables) : viewOf p 0 = .absent := rfl

lemma viewOf_block (p : PageTables) (h : d % 4 = 1) : viewOf p d = .block d := by
  rw [viewOf, if_neg, if_neg]
  · rw [isTable_iff]
    omega
  · rw [isValid_iff.mpr (by omega)]
    decide

lemma viewOf_table (p : PageTables) (h : d % 4 = 3) :
    viewOf p d = .pages (p.tables (pageAddr d)) := by
  rw [viewOf, if_neg, if_pos (isTable_iff.mpr h)]
  rw [isValid_iff.mpr (by omega)]
  decide

lemma tableIdx_eq (va : ℕ) : l0Idx va = va / 2 ^ 21 / 2 ^ 18 ∧
    l1Idx va = va / 2 ^ 21 / 512 % 512 ∧ l2Idx va = va / 2 ^ 21 % 512 := by
  unfold l0Idx l1Idx l2Idx block2MiB
  omega

lemma findL2Entry_eq (h : PtWf p) (va : ℕ) : findL2Entry p va
    = if va < 2 ^ 48 then (p.node (l2Path (va / 2 ^ 21))).map fun a => (a, va / 2 ^ 21 % 512)
      else none := by
  obtain ⟨h0, h1, h2⟩ := tableIdx_eq va
  -- at L0 and L1 a valid entry is a pointer
  have hstep : ∀ (r : List ℕ) (c j : ℕ), r.length ≤ 1 → p.node r = some c →
      p.node (j :: r) = if !isValid (p.tables c j) then none else
          some (pageAddr (p.tables c j)) := by
    intro r c j hr hc
    show (p.node r).bind _ = _
    rw [hc]
    show tableChild (p.tables c j) = _
    rcases h.entry_mod (by omega) hc j with hz | hm | ⟨hl, -⟩
    · rw [hz]
      rfl
    · rw [tableChild, if_pos (isTable_iff.mpr hm), isValid_iff.mpr (by omega)]
      rfl
    · omega
  unfold findL2Entry
  by_cases hva : va < 2 ^ 48
  · rw [if_pos hva, if_neg (by rw [h0]; omega)]
    have hroot : p.node [] = some p.ttbr0 := rfl
    have hn0 := hstep [] p.ttbr0 (l0Idx va) (by simp) hroot
    dsimp only [PageTables.read]
    by_cases hv0 : isValid (p.tables p.ttbr0 (l0Idx va))
    · rw [hv0] at hn0 ⊢
      have hn1 := hstep _ _ (l1Idx va) (by simp) hn0
      rw [l2Path, ← h0, ← h1, hn1, h2]
      cases isValid (p.tables (pageAddr (p.tables p.ttbr0 (l0Idx va))) (l1Idx va)) <;> rfl
    rw [Bool.not_eq_true] at hv0
    rw [hv0] at hn0 ⊢
    have hnone : p.node (l2Path (va / 2 ^ 21)) = none := by
      rw [l2Path, ← h0]
      show (p.node [l0Idx va]).bind _ = none
      rw [hn0]
      rfl
    rw [hnone]
    rfl
  · rw [if_neg hva, if_pos (by rw [h0]; omega)]

lemma findL2Entry_some (h : PtWf p) (hs : findL2Entry p va = some s) :
    va < 2 ^ 48 ∧ p.node (l2Path (va / 2 ^ 21)) = some s.1 ∧ s.2 = va / 2 ^ 21 % 512 := by
  rw [findL2Entry_eq h] at hs
  by_cases hva : va < 2 ^ 48
  · rw [if_pos hva] at hs
    obtain ⟨a, ha, rfl⟩ := map_eq_some_iff.mp hs
    exact ⟨hva, ha, rfl⟩
  · rw [if_neg hva] at hs
    cases hs

lemma blockView_of_find (h : PtWf p) (hs : findL2Entry p va = some s) :
    blockView p (va / 2 ^ 21) = viewOf p (p.read s) := by
  obtain ⟨-, hn, hi⟩ := findL2Entry_some h hs
  rw [blockView, hn, PageTables.read, hi]

lemma blockView_of_find_none (h : PtWf p) (hva : va < 2 ^ 48) (hs : findL2Entry p va = none) :
    blockView p (va / 2 ^ 21) = .absent := by
  rw [findL2Entry_eq h, if_pos hva, map_eq_none_iff] at hs
  rw [blockView, hs]

lemma blockView_congr (hnode : p'.node (l2Path b) = p.node (l2Path b))
    (hentry : ∀ a, p.node (l2Path b) = some a → p'.tables a (b % 512) = p.tables a (b % 512))
    (hpages : ∀ c, p.node (b % 512 :: l2Path b) = some c → p'.tables c = p.tables c) :
    blockView p' b = blockView p b := by
  unfold blockView
  rw [hnode]
  cases hn : p.node (l2Path b) with
  | none => rfl
  | some a =>
    dsimp only
    rw [hentry a hn]
    unfold viewOf
    by_cases ht : isTable (p.tables a (b % 512))
    · have hc : p.node (b % 512 :: l2Path b) = some (pageAddr (p.tables a (b % 512))) := by
        show (p.node (l2Path b)).bind _ = _
        rw [hn]
        show tableChild _ = _
        rw [tableChild, if_pos ht]
      rw [hpages _ hc]
    · rw [if_neg ht, if_neg ht]

/-! ### What each write does to the view -/

lemma writeL2_view (h : PtWf p) (hs : findL2Entry p va = some s)
    (hold : isTable (p.read s) = false) (hd : d = 0 ∨ (d % 4 = 1 ∧ CanonicalPerms d)) :
    PtWf (p.write s d) ∧ ∀ b, blockView (p.write s d) b
      = if b = va / 2 ^ 21 then viewOf p d else blockView p b := by
  obtain ⟨-, hn, hi⟩ := findL2Entry_some h hs
  obtain ⟨a, i⟩ := s
  obtain rfl : i = va / 2 ^ 21 % 512 := hi
  have hdmod : d % 4 ≠ 3 := by
    rcases hd with rfl | ⟨hm, -⟩ <;> omega
  have hchild : tableChild d = tableChild (p.tables a (va / 2 ^ 21 % 512)) := by
    rw [tableChild_of_mod hdmod, tableChild, if_neg]
    show ¬ isTable (p.read (a, va / 2 ^ 21 % 512))
    rw [hold]
    decide
  have hnode : ∀ r, (p.write (a, va / 2 ^ 21 % 512) d).node r = p.node r :=
    fun r => Radix.node_set_same hchild r
  refine ⟨h.write_same hn l2Path_le ?_ fun r _ => hnode r, fun b => ?_⟩
  · rcases hd with rfl | ⟨hm, hc⟩
    · exact .inl rfl
    · exact .inr (.inr (.inl ⟨rfl, hm, hc⟩))
  by_cases hb : b = va / 2 ^ 21
  · rw [if_pos hb, hb, blockView, hnode, hn]
    dsimp only
    rw [write_tables, Radix.set_self]
    rcases hd with rfl | ⟨hm, -⟩
    · rfl
    · rw [viewOf_block _ hm, viewOf_block _ hm]
  rw [if_neg hb]
  refine blockView_congr (hnode _) ?_ ?_
  · intro c hc
    rw [write_tables, Radix.entry_set h.separated hn l2Path_le hc l2Path_le,
      if_neg fun hx => hb (l2Path_inj.mp hx)]
  intro c hc
  funext j
  rw [write_tables, Radix.entry_set h.separated hn (by simp [l2Path]) hc (by simp [l2Path]),
    if_neg fun hx => by have := congrArg length hx.1; simp [l2Path] at this]

lemma writeL3_view (h : PtWf p) (hs : findL2Entry p va = some s)
    (htab : isTable (p.read s)) (hd : d = 0 ∨ (d % 4 = 3 ∧ CanonicalPerms d)) :
    PtWf (p.write (pageAddr (p.read s), k) d) ∧
    findL2Entry (p.write (pageAddr (p.read s), k) d) va = some s ∧
    (p.write (pageAddr (p.read s), k) d).read s = p.read s ∧
    ∀ b, blockView (p.write (pageAddr (p.read s), k) d) b = if b = va / 2 ^ 21 then
      .pages (update (p.tables (pageAddr (p.read s))) k d) else blockView p b := by
  obtain ⟨hva, hn, hi⟩ := findL2Entry_some h hs
  obtain ⟨a, i⟩ := s
  obtain rfl : i = va / 2 ^ 21 % 512 := hi
  set c := pageAddr (p.read (a, va / 2 ^ 21 % 512))
  have hpc : p.node (va / 2 ^ 21 % 512 :: l2Path (va / 2 ^ 21)) = some c := by
    show (p.node (l2Path (va / 2 ^ 21))).bind _ = _
    rw [hn]
    show tableChild (p.read (a, va / 2 ^ 21 % 512)) = _
    rw [tableChild, if_pos htab]
  have hnode : ∀ r, r.length ≤ 3 → (p.write (c, k) d).node r = p.node r :=
    fun r hr => Radix.node_set_deepest h.separated hpc rfl r hr
  have hwf : PtWf (p.write (c, k) d) := by
    refine h.write_same hpc le_rfl ?_ hnode
    rcases hd with rfl | ⟨hm, hcan⟩
    · exact .inl rfl
    · exact .inr (.inr (.inr ⟨rfl, hm, hcan⟩))
  have hl2 : ∀ b' a', p.node (l2Path b') = some a' → ∀ j, (p.write (c, k) d).tables a' j
      = p.tables a' j := by
    intro b' a' ha' j
    rw [write_tables, Radix.entry_set h.separated hpc le_rfl ha' l2Path_le,
      if_neg fun hx => by have := congrArg length hx.1; simp [l2Path] at this]
  refine ⟨hwf, ?_, hl2 _ _ hn _, fun b => ?_⟩
  · rw [findL2Entry_eq hwf, if_pos hva, hnode _ l2Path_le, hn]
    rfl
  by_cases hb : b = va / 2 ^ 21
  · rw [if_pos hb, hb, blockView, hnode _ l2Path_le, hn]
    dsimp only
    rw [hl2 _ _ hn]
    show viewOf _ (p.read (a, va / 2 ^ 21 % 512)) = _
    rw [viewOf_table _ (isTable_iff.mp htab)]
    congr 1
    funext j
    show Radix.set p.tables c k d c j = _
    rw [update_apply, Radix.set]
    by_cases hj : j = k
    · rw [if_pos ⟨rfl, hj⟩, if_pos hj]
    · rw [if_neg fun hx => hj hx.2, if_neg hj]
  · rw [if_neg hb]
    refine blockView_congr (hnode _ l2Path_le) (fun a' ha' => hl2 _ _ ha' _) ?_
    intro c' hc'
    funext j
    rw [write_tables, Radix.entry_set h.separated hpc le_rfl hc' (by simp [l2Path]),
      if_neg fun hx => hb (l2Path_inj.mp ?_)]
    obtain ⟨h1, h2⟩ := cons_eq_cons.mp hx.1
    exact ⟨h2, h1⟩

/-- The tables after the block of `va`, whose entry is `s`, has been split. -/
structure SplitDone (p : PageTables) (s : Slot) (va : ℕ) (p' : PageTables) : Prop where
  wf : PtWf p'
  only : OnlyTables p p'
  next : p'.ptPoolNext = p.ptPoolNext + 4096
  find : findL2Entry p' va = some s
  table : isTable (p'.read s)
  pages : p'.tables (pageAddr (p'.read s)) = splitPages (p.read s)
  view : ∀ b, blockView p' b = if b = va / 2 ^ 21 then .pages (splitPages (p.read s))
    else blockView p b

/-- Splitting a block: it fails for want of a pool page and then changes nothing,
or puts the block's pages in its place. -/
lemma split_view (h : PtWf p) (hs : findL2Entry p va = some s) (hblk : p.read s % 4 = 1) :
    (p.ptPoolEnd < p.ptPoolNext + 4096 ∧ splitL2Block p s = (-1, p)) ∨
    ∃ p', splitL2Block p s = (0, p') ∧ SplitDone p s va p' := by
  have hnt : ¬ isTable (p.read s) := by
    rw [isTable_iff]
    omega
  have hv : isValid (p.read s) := isValid_iff.mpr (by omega)
  unfold splitL2Block
  rw [if_neg hnt, hv]
  cases halloc : ptAllocPage p with
  | none =>
    left
    refine ⟨?_, rfl⟩
    unfold ptAllocPage at halloc
    split at halloc
    · assumption
    · cases halloc
  | some res =>
    obtain ⟨l3, p1⟩ := res
    right
    obtain ⟨hwf1, honly, hnext, hl3, hin, hnode1, hfresh, hzero, hother⟩ :=
      ptAllocPage_spec h halloc
    have hfresh1 : ∀ r, r.length ≤ 3 → p1.node r ≠ some l3 := by
      intro r hr
      rw [hnode1 r hr]
      exact hfresh r hr
    obtain ⟨hva, hn, hi⟩ := findL2Entry_some h hs
    obtain ⟨a, i⟩ := s
    have hne : ∀ r c, p.node r = some c → r.length ≤ 3 → c ≠ l3 := by
      rintro r _ hc hr rfl
      exact hfresh r hr hc
    have hal3 := hne _ a hn l2Path_le
    -- the new table is filled before the walk can reach it
    obtain ⟨hwf2, hnode2⟩ := hwf1.writePage hfresh1 (splitPages (p.read (a, i)))
    set p2 := p1.writePage l3 (splitPages (p.read (a, i))) with hp2
    have hn2 : p2.node (l2Path (va / 2 ^ 21)) = some a := by
      rw [hnode2 _ l2Path_le, hnode1 _ l2Path_le]
      exact hn
    have htab2 : ∀ b, b ≠ l3 → p2.tables b = p.tables b := by
      intro b hb
      rw [← hother b hb]
      funext j
      exact if_neg hb
    have hpages : p2.tables l3 = splitPages (p.read (a, i)) := by
      funext j
      exact if_pos rfl
    have hold : tableChild (p2.tables a i) = none := by
      rw [htab2 a hal3]
      exact tableChild_of_mod (d := p.read (a, i)) (by omega)
    -- now it is hung into the place of the block
    obtain ⟨hwf3, hnode3⟩ := hwf2.hang hn2 (by simp [l2Path]) hold (a := l3) hin
      (fun r hr => by rw [hnode2 r hr]; exact hfresh1 r hr)
      (by
        intro j
        rw [hpages]
        unfold splitPages
        by_cases hj : j < 512
        · rw [if_pos hj]
          refine .inr (.inr (.inr ⟨rfl, makePageDesc_mod _ _, ?_⟩))
          rw [CanonicalPerms, descToPerms_makePageDesc, Perms.norm_norm]
        · rw [if_neg hj]
          exact .inl rfl)
      (by simp [l2Path])
    have hread : (p2.write (a, i) (makeTableDesc l3)).read (a, i) = makeTableDesc l3 :=
      Radix.set_self _ _ _ _
    have haddr : pageAddr (makeTableDesc l3) = l3 :=
      pageAddr_makeTableDesc hin.2.2 (hin.lt_size hwf1.pool)
    have hl3tab : (p2.write (a, i) (makeTableDesc l3)).tables l3
        = splitPages (p.read (a, i)) := by
      rw [← hpages]
      funext j
      exact Radix.set_of_ne fun hx => hal3 hx.1.symm
    have hnode4 : ∀ b, (p2.write (a, i) (makeTableDesc l3)).node (l2Path b)
        = p.node (l2Path b) := by
      intro b
      rw [hnode3 _ (by simp [l2Path]), if_neg (by simp [l2Path]), hnode2 _ (by simp [l2Path]),
        hnode1 _ (by simp [l2Path])]
    refine ⟨p2.write (a, i) (makeTableDesc l3), rfl, hwf3, honly.trans ⟨rfl, le_rfl⟩, hnext, ?_,
      ?_, ?_, fun b => ?_⟩
    · rw [findL2Entry_eq hwf3, if_pos hva, hnode4, hn, ← hi]
      rfl
    · rw [hread]
      exact isTable_iff.mpr (makeTableDesc_mod _ hin.2.2)
    · rw [hread, haddr]
      exact hl3tab
    by_cases hb : b = va / 2 ^ 21
    · rw [if_pos hb, hb, blockView, hnode4, hn, ← hi]
      show viewOf _ (PageTables.read _ (a, i)) = _
      rw [hread, viewOf_table _ (makeTableDesc_mod _ hin.2.2), haddr, hl3tab]
    rw [if_neg hb]
    refine blockView_congr (hnode4 b) ?_ ?_
    · intro c hc
      have hcl := hne _ c hc l2Path_le
      have hset := Radix.entry_set h.separated hn l2Path_le hc l2Path_le
        (i := i) (d := makeTableDesc l3) (b % 512)
      rw [if_neg fun hx => hb (l2Path_inj.mp ⟨hx.1, hx.2.trans hi⟩)] at hset
      rw [← hset]
      show Radix.set p2.tables a _ _ c _ = Radix.set p.tables a _ _ c _
      unfold Radix.set
      rw [htab2 c hcl]
    intro c hc
    have hcl := hne _ c hc (by simp [l2Path])
    have hca : c ≠ a := by
      rintro rfl
      have := h.separated _ _ c (by simp [l2Path]) (by simp [l2Path]) hc hn
      simpa [l2Path] using congrArg length this
    funext j
    rw [write_tables, Radix.set_of_ne fun hx => hca hx.1, htab2 c hcl]

/-- What allocating the tables above a block may do: nothing a block shows. -/
structure SameView (p p' : PageTables) : Prop where
  wf : PtWf p'
  only : OnlyTables p p'
  view : ∀ b, blockView p' b = blockView p b

lemma SameView.refl (h : PtWf p) : SameView p p := ⟨h, OnlyTables.refl p, fun _ => rfl⟩

lemma SameView.trans (h : SameView p p') (h' : SameView p' p'') : SameView p p'' :=
  ⟨h'.wf, h.only.trans h'.only, fun b => (h'.view b).trans (h.view b)⟩

/-- Making the entry at an L0 or L1 slot a pointer. -/
lemma ensureTable_view (h : PtWf p) (hq : q.length ≤ 1) (ha : p.node q = some a) (i : ℕ) :
    SameView p (ensureTable p (a, i)).2 ∧
    ((ensureTable p (a, i)).1 = false ∧ p.ptPoolEnd < p.ptPoolNext + 4096 ∨
     (ensureTable p (a, i)).1 ∧ (ensureTable p (a, i)).2.node (i :: q)
      = some (pageAddr ((ensureTable p (a, i)).2.read (a, i)))) := by
  unfold ensureTable
  split
  · rename_i hv
    refine ⟨SameView.refl h, .inr ⟨rfl, ?_⟩⟩
    show (p.node q).bind _ = _
    rw [ha]
    rcases h.entry_mod (by omega) ha i with hz | hm | ⟨hl, -⟩
    · rw [PageTables.read, hz] at hv
      cases hv
    · exact if_pos (isTable_iff.mpr hm)
    · omega
  rename_i hv
  have hz : p.tables a i = 0 := h.entry_zero (by omega) ha (Bool.not_eq_true _ ▸ hv)
  cases halloc : ptAllocPage p with
  | none =>
    refine ⟨SameView.refl h, .inl ⟨rfl, ?_⟩⟩
    unfold ptAllocPage at halloc
    split at halloc
    · assumption
    · cases halloc
  | some res =>
    obtain ⟨t, p1⟩ := res
    obtain ⟨hwf1, honly, -, -, hin, hnode1, hfresh, hzero, hother⟩ := ptAllocPage_spec h halloc
    have hat : a ≠ t := by
      rintro rfl
      exact hfresh q (by omega) ha
    have ha1 : p1.node q = some a := (hnode1 q (by omega)).trans ha
    have hz1 : p1.tables a i = 0 := by
      rw [hother a hat]
      exact hz
    obtain ⟨hwf2, hnode2⟩ := hwf1.hang ha1 (by omega) (by rw [hz1]; rfl) hin
      (fun r hr => by rw [hnode1 r hr]; exact hfresh r hr)
      (fun j => .inl (hzero j)) (fun _ j => by rw [hzero j]; rfl)
    have hread : (p1.write (a, i) (makeTableDesc t)).read (a, i) = makeTableDesc t :=
      Radix.set_self _ _ _ _
    refine ⟨⟨hwf2, honly.trans ⟨rfl, le_rfl⟩, fun b => ?_⟩, .inr ⟨rfl, ?_⟩⟩
    · have hnone : p.node (i :: q) = none := by
        show (p.node q).bind _ = none
        rw [ha]
        show tableChild (p.tables a i) = none
        rw [hz]
        rfl
      by_cases hb : l2Path b = i :: q
      · -- the new table is an empty L2 table
        rw [blockView, blockView, hnode2 _ l2Path_le, if_pos hb, hb, hnone]
        show viewOf _ (Radix.set p1.tables a i _ t _) = _
        rw [Radix.set_of_ne fun hx => hat hx.1.symm, hzero]
        rfl
      refine blockView_congr ?_ ?_ ?_
      · rw [hnode2 _ l2Path_le, if_neg hb, hnode1 _ l2Path_le]
      · intro c hc
        have hct : c ≠ t := by
          rintro rfl
          exact hfresh _ l2Path_le hc
        have hca : c ≠ a := by
          rintro rfl
          have := h.separated _ _ c l2Path_le (by omega) hc ha
          rw [← this] at hq
          simp [l2Path] at hq
        rw [write_tables, Radix.set_of_ne fun hx => hca hx.1, hother c hct]
      intro c hc
      have hct : c ≠ t := by
        rintro rfl
        exact hfresh _ (by simp [l2Path]) hc
      have hca : c ≠ a := by
        rintro rfl
        have := h.separated _ _ c (by simp [l2Path]) (by omega) hc ha
        rw [← this] at hq
        simp [l2Path] at hq
      funext j
      rw [write_tables, Radix.set_of_ne fun hx => hca hx.1, hother c hct]
    · rw [hread, hnode2 _ (by simp; omega), if_pos rfl,
        pageAddr_makeTableDesc hin.2.2 (hin.lt_size hwf1.pool)]

/-- The L2 slot of `va`, with the tables above it in place. It is missing only
beyond the 48-bit range or when the pool has run dry. -/
lemma ensureL2Slot_view (h : PtWf p) (checkL1 : Bool) (va : ℕ) :
    let res := ensureL2Slot checkL1 p va
    SameView p res.2 ∧ (∀ s, res.1 = some s → findL2Entry res.2 va = some s) ∧
    (res.1 = none → 2 ^ 48 ≤ va ∨ res.2.ptPoolEnd < res.2.ptPoolNext + 4096) := by
  obtain ⟨h0, h1, h2⟩ := tableIdx_eq va
  unfold ensureL2Slot
  split
  · exact ⟨SameView.refl h, by simp, fun _ => .inl (by omega)⟩
  dsimp only
  obtain ⟨hsame0, hres0⟩ := ensureTable_view h (q := []) (by simp) rfl (l0Idx va)
  set e0 := ensureTable p (p.ttbr0, l0Idx va)
  rcases hres0 with ⟨hf, hpool⟩ | ⟨ht, hn⟩
  · rw [hf]
    refine ⟨hsame0, by simp, fun _ => .inr ?_⟩
    have := hsame0.only.next
    rw [hsame0.only.eq]
    show p.ptPoolEnd < e0.2.ptPoolNext + 4096
    omega
  rw [ht]
  -- a valid L1 entry is a pointer, so the block check never fires
  have hcheck : (checkL1 && isValid (e0.2.read (pageAddr (e0.2.read (p.ttbr0, l0Idx va)),
      l1Idx va)) && !isTable (e0.2.read (pageAddr (e0.2.read (p.ttbr0, l0Idx va)),
      l1Idx va))) = false := by
    rcases hsame0.wf.entry_mod (by simp) hn (l1Idx va) with hz | hm | ⟨hl, -⟩
    · simp only [PageTables.read] at hz ⊢
      rw [hz]
      cases checkL1 <;> rfl
    · simp only [PageTables.read] at hm ⊢
      rw [isTable_iff.mpr hm]
      simp
    · simp at hl
  simp only [Bool.not_true, Bool.false_eq_true, if_false, hcheck]
  obtain ⟨hsame1, hres1⟩ := ensureTable_view hsame0.wf (by simp) hn (l1Idx va)
  set e1 := ensureTable e0.2 (pageAddr (e0.2.read (p.ttbr0, l0Idx va)), l1Idx va)
  rcases hres1 with ⟨hf, hpool⟩ | ⟨ht1, hn1⟩
  · rw [hf]
    refine ⟨hsame0.trans hsame1, by simp, fun _ => .inr ?_⟩
    have := hsame1.only.next
    rw [hsame1.only.eq]
    show e0.2.ptPoolEnd < e1.2.ptPoolNext + 4096
    omega
  rw [ht1]
  refine ⟨hsame0.trans hsame1, fun s hs => ?_, by simp⟩
  obtain rfl := some_inj.mp hs
  show findL2Entry e1.2 va = _
  rw [findL2Entry_eq hsame1.wf, if_pos (by omega), l2Path, ← h0, ← h1, hn1, h2]
  rfl

/-! ### The walk reads the view -/

def pageLeaf (e va : ℕ) : Option (ℕ × Perms) :=
  if isValid e then some (pageAddr e + va % guestPageSize, descToPerms e) else none

def BlockView.leaf (v : BlockView) (va : ℕ) : Option (ℕ × Perms) :=
  match v with
  | .absent => none
  | .block d => some (blockAddr d + va % block2MiB, descToPerms d)
  | .pages f => pageLeaf (f (l3Idx va)) va

/-- The walk from `ttbr0` sees the block view of the address and nothing else. -/
lemma ptWalk_eq (h : PtWf p) (va : ℕ) :
    ptWalk p va = if va < 2 ^ 48 then (blockView p (va / 2 ^ 21)).leaf va else none := by
  unfold ptWalk
  by_cases hva : va < 2 ^ 48
  · rw [if_pos hva]
    cases hs : findL2Entry p va with
    | none =>
      rw [blockView_of_find_none h hva hs]
      rfl
    | some s =>
      rw [blockView_of_find h hs]
      dsimp only [viewOf]
      by_cases hv : isValid (p.read s)
      · rw [hv]
        by_cases ht : isTable (p.read s)
        · rw [ht]
          show (if !isValid (p.tables (pageAddr (p.read s)) (l3Idx va)) then none else _)
            = pageLeaf (p.tables (pageAddr (p.read s)) (l3Idx va)) va
          show (if !isValid (p.tables (pageAddr (p.read s)) (l3Idx va)) then none else _)
            = if isValid (p.tables (pageAddr (p.read s)) (l3Idx va)) then _ else none
          cases isValid (p.tables (pageAddr (p.read s)) (l3Idx va)) <;> rfl
        · rw [Bool.not_eq_true] at ht
          rw [ht]
          rfl
      · rw [Bool.not_eq_true] at hv
        rw [hv]
        rfl
  · rw [if_neg hva, findL2Entry_eq h, if_neg hva]

def l2Valid (p : PageTables) (va : ℕ) : Bool :=
  match findL2Entry p va with
  | none => false
  | some s => isValid (p.read s)

def BlockView.present : BlockView → Bool
  | .absent => false
  | _ => true

lemma viewOf_present (p : PageTables) (d : ℕ) : (viewOf p d).present = isValid d := by
  rw [viewOf]
  cases isValid d
  · rfl
  · cases isTable d <;> rfl

lemma l2Valid_eq (h : PtWf p) (va : ℕ) :
    l2Valid p va = (decide (va < 2 ^ 48) && (blockView p (va / 2 ^ 21)).present) := by
  unfold l2Valid
  cases hs : findL2Entry p va with
  | none =>
    by_cases hlt : va < 2 ^ 48
    · rw [blockView_of_find_none h hlt hs, decide_eq_true hlt]
      rfl
    · rw [decide_eq_false hlt]
      rfl
  | some s =>
    rw [blockView_of_find h hs, viewOf_present, decide_eq_true (findL2Entry_some h hs).1]
    rfl

lemma walk_of_not_l2Valid (hv : l2Valid p va = false) : ptWalk p va = none := by
  unfold l2Valid at hv
  unfold ptWalk
  cases hs : findL2Entry p va with
  | none => rfl
  | some s =>
    rw [hs] at hv
    dsimp only at hv ⊢
    rw [hv]
    rfl

end Elfuse
