/-
Whole histories of the region table.

`TableStep` lists every way the memory code edits the table: insertion of a
range nothing tracked meets, removal, protection changes, the boundary splits
with their undo, and the heap update of `sys_brk`. Splits are undone newest
first and before any other edit, which is how the two callers use them; the
pending undo records are part of the state.

* `reachable_regions_exact` — every table reachable from the empty one is
  sorted, disjoint and within capacity, and both searches are exact on it.
-/
import Elfuse.Core.RegionOrder

namespace Elfuse

open Intervals List Nat

variable {t : RegionTable} {r : GuestRegion}

/-! ### Boundary splits -/

/-- All a boundary split can do: leave the list alone, or cut one record in two. -/
lemma splitRegionsAtBoundary_cases (t : RegionTable) (boundary : ℕ) :
    ((splitRegionsAtBoundary t boundary).2.1 = none ∧
      (splitRegionsAtBoundary t boundary).2.2.regions = t.regions) ∨
    ∃ i r fd, i = guestRegionFirstEndAbove t.regions boundary ∧ t.regions[i]? = some r ∧
      r.start < boundary ∧ t.regions.length < guestMaxRegions ∧
      (splitRegionsAtBoundary t boundary).1 = 0 ∧
      (splitRegionsAtBoundary t boundary).2.1 = some { index := i, orig := r } ∧
      (splitRegionsAtBoundary t boundary).2.2.regions = t.regions.take i ++
        regionClipOverlay t.hostPageSize (r.below boundary) ::
        regionClipOverlay t.hostPageSize ({ r with backingFd := fd }.above boundary) ::
        t.regions.drop (i + 1) := by
  unfold splitRegionsAtBoundary
  by_cases h0 : boundary = 0
  · rw [if_pos h0]
    exact .inl ⟨rfl, rfl⟩
  rw [if_neg h0]
  dsimp only
  split
  · exact .inl ⟨rfl, rfl⟩
  rename_i r hr
  split
  · exact .inl ⟨rfl, rfl⟩
  rename_i h1
  split
  · exact .inl ⟨rfl, rfl⟩
  rename_i h2
  generalize (if 0 ≤ r.backingFd then t.fds.dup else (r.backingFd, t.fds)) = d
  split
  · exact .inl ⟨rfl, rfl⟩
  · exact .inr ⟨_, r, _, rfl, hr, not_le.mp h1, not_le.mp h2, rfl, rfl, rfl⟩

lemma splitAtBoundary_ok (h : RegionsOk t.regions) (boundary : ℕ) :
    RegionsOk (splitRegionsAtBoundary t boundary).2.2.regions := by
  rcases splitRegionsAtBoundary_cases t boundary with
    ⟨-, heq⟩ | ⟨i, r, fd, hi, hr, hlt, hroom, -, -, heq⟩
  · rw [heq]
    exact h
  have habove : boundary < r.stop := by
    refine (firstEndAbove_spec h.ordered boundary).2.2 r ?_
    rw [← hi]
    exact mem_of_getElem? (i := 0) (by rw [getElem?_drop, Nat.add_zero, hr])
  have hsplit : LoopOk (t.regions.take i) (r :: t.regions.drop (i + 1)) := by
    rw [LoopOk, ← take_append_cons_drop hr]
    exact h
  have hlen := congrArg length (take_append_cons_drop hr)
  rw [heq]
  refine hsplit.split (x := boundary) ?_ (by simp) (by simp) ⟨hlt, habove⟩
  simp only [length_append, length_cons] at hlen
  omega

lemma undoRegionSplit_split (t : RegionTable) (boundary : ℕ) (u : RegionTable)
    (hu : u.regions = (splitRegionsAtBoundary t boundary).2.2.regions) :
    (undoRegionSplit u (splitRegionsAtBoundary t boundary).2.1).regions = t.regions := by
  rcases splitRegionsAtBoundary_cases t boundary with
    ⟨hn, heq⟩ | ⟨i, r, fd, -, hr, -, -, -, hsome, heq⟩
  · rw [hn, undoRegionSplit, hu, heq]
  have hi : (t.regions.take i).length = i := by
    rw [List.length_take]
    have := (List.getElem?_eq_some_iff.mp hr).1
    omega
  have hdrop : ∀ l : List GuestRegion, (t.regions.take i ++ l).drop (i + 2) = l.drop 2 := by
    intro l
    rw [List.drop_append, hi, List.drop_eq_nil_of_le (by omega), List.nil_append]
    congr 1
    omega
  rw [hsome]
  simp only [undoRegionSplit, hu, heq]
  rw [List.take_left' hi, hdrop]
  exact (take_append_cons_drop hr).symm

lemma splitAtBounds_ok (h : RegionsOk t.regions) (start stop : ℕ) :
    RegionsOk (splitRegionsAtBounds t start stop).2.2.regions := by
  unfold splitRegionsAtBounds
  dsimp only
  split
  · exact splitAtBoundary_ok h start
  split
  · -- the second split failed, so the table is the first one's, undone
    rcases splitRegionsAtBoundary_cases (splitRegionsAtBoundary t start).2.2 stop with
      ⟨-, heq⟩ | ⟨_, _, _, -, -, -, -, hz, -, -⟩
    · rw [undoRegionSplit_split t start _ heq]
      exact h
    · omega
  · exact splitAtBoundary_ok (splitAtBoundary_ok h start) stop

lemma undoRegionSplits_split (t : RegionTable) (start stop : ℕ)
    (hok : ¬ (splitRegionsAtBounds t start stop).1 < 0) :
    (undoRegionSplits (splitRegionsAtBounds t start stop).2.2
      (splitRegionsAtBounds t start stop).2.1).regions = t.regions := by
  unfold splitRegionsAtBounds at hok ⊢
  by_cases h1 : (splitRegionsAtBoundary t start).1 < 0
  · rw [if_pos h1] at hok
    exact absurd h1 hok
  rw [if_neg h1] at hok ⊢
  by_cases h2 : (splitRegionsAtBoundary (splitRegionsAtBoundary t start).2.2 stop).1 < 0
  · rw [if_pos h2] at hok
    exact absurd h2 hok
  · rw [if_neg h2]
    exact undoRegionSplit_split t start _ (undoRegionSplit_split _ stop _ rfl)

/-! ### The heap update -/

lemma brkLimitRegion_le_start (hstop : fromOff < stop)
    (h : fromOff < brkLimitRegion fromOff limit start stop) :
    brkLimitRegion fromOff limit start stop ≤ start := by
  unfold brkLimitRegion at h ⊢
  by_cases h1 : limit ≤ start ∨ stop ≤ fromOff
  · rw [if_pos h1]
    omega
  rw [if_neg h1] at h ⊢
  by_cases h2 : start ≤ fromOff
  · rw [if_pos h2] at h
    omega
  · rw [if_neg h2]

lemma brkGrowLimit_addRange (h : RegionsOrdered t.regions) {stackBase oldBrk newOff : ℕ}
    (hgrow : oldBrk < newOff) (hlim : newOff < (brkGrowLimit t stackBase oldBrk).1) :
    AddRange t oldBrk newOff := by
  refine ⟨hgrow, fun r hr => ?_⟩
  obtain ⟨-, hbefore, habove⟩ := firstEndAbove_spec h oldBrk
  rw [← take_append_drop (guestRegionFirstEndAbove t.regions oldBrk) t.regions] at hr
  rcases mem_append.mp hr with hr | hr
  · exact .inl (hbefore r hr)
  right
  unfold brkGrowLimit at hlim
  split at hlim
  · omega
  dsimp only at hlim
  set i := guestRegionFirstEndAbove t.regions oldBrk
  -- the first region ending above the old break bounds all the later ones
  cases hd : t.regions.drop i with
  | nil => rw [hd] at hr; simp at hr
  | cons q rest =>
    have hq : t.regions[i]? = some q := by
      have := congrArg (fun l => l[0]?) hd
      simpa [getElem?_drop] using this
    have hqstop : oldBrk < q.stop := habove q (by rw [hd]; exact mem_cons_self)
    rw [hq] at hlim
    have hbound : newOff ≤ q.start :=
      le_of_lt (lt_of_lt_of_le hlim (brkLimitRegion_le_start hqstop (lt_trans hgrow hlim)))
    have hordered : RegionsOrdered (q :: rest) := by
      rw [← hd]
      exact Ordered.drop h i
    rw [hd] at hr
    rcases mem_cons.mp hr with rfl | hr
    · exact hbound
    have h1 := (Ordered.cons_iff.mp hordered).1
    have h2 := (Ordered.cons_iff.mp hordered).2.2 r hr
    omega

lemma brkGrowLimit_adjoining {stackBase oldBrk i : ℕ}
    (h : (brkGrowLimit t stackBase oldBrk).2 = some i) :
    ∃ r, t.regions[i]? = some r ∧ r.stop = oldBrk := by
  unfold brkGrowLimit at h
  split at h
  · simp at h
  dsimp only at h
  split at h
  · obtain ⟨r, hr, h⟩ := Option.bind_eq_some_iff.mp h
    split at h
    · rename_i hc
      obtain rfl := Option.some_inj.mp h
      exact ⟨r, hr, hc.1⟩
    · simp at h
  · simp at h

lemma widen_ok (h : RegionsOk t.regions) {i oldBrk newOff : ℕ} (hr : t.regions[i]? = some r)
    (hstop : r.stop = oldBrk) (hx : AddRange t oldBrk newOff) :
    RegionsOk (t.regions.modify i fun r => { r with stop := newOff }) := by
  have hsplit := take_append_cons_drop hr
  have hmod : t.regions.modify i (fun r => { r with stop := newOff })
      = t.regions.take i ++ { r with stop := newOff } :: t.regions.drop (i + 1) := by
    obtain ⟨hi, rfl⟩ := List.getElem?_eq_some_iff.mp hr
    rw [List.modify_eq_take_cons_drop hi]
  refine ⟨?_, by rw [List.length_modify]; exact h.bounded⟩
  have hord := h.ordered
  rw [RegionsOrdered, hsplit] at hord
  obtain ⟨h1, h2, hcross⟩ := Ordered.append_iff.mp hord
  obtain ⟨hne, h2, hlater⟩ := Ordered.cons_iff.mp h2
  have hgrow := hx.nonempty
  rw [RegionsOrdered, hmod]
  refine Ordered.append_iff.mpr ⟨h1, Ordered.cons_iff.mpr ⟨?_, h2, fun s hs => ?_⟩,
    fun a ha => List.forall_mem_cons.mpr (List.forall_mem_cons.mp (hcross a ha))⟩
  · change r.start < newOff
    omega
  · have hs1 := hlater s hs
    have hs2 := h2.1 s hs
    have hs3 := hx.disjoint s (List.mem_of_mem_drop hs)
    change newOff ≤ s.start
    omega

lemma brkRegions_ok (h : RegionsOk t.regions) (brkBase stackBase oldBrk newOff : ℕ) :
    RegionsOk (brkRegions t brkBase stackBase oldBrk newOff).regions := by
  unfold brkRegions
  dsimp only
  split
  · exact h
  by_cases hgrow : oldBrk < newOff
  · have hx : AddRange t oldBrk newOff :=
      @brkGrowLimit_addRange t h.ordered stackBase _ _ hgrow (by omega)
    simp only [hgrow, if_true, if_neg (by omega : ¬ newOff < oldBrk), Int.lt_irrefl, if_false,
      brkUpdateRegions]
    split
    · split
      · rename_i i hadj
        obtain ⟨r, hr, hstop⟩ := brkGrowLimit_adjoining hadj
        exact widen_ok h hr hstop hx
      have hadd : RegionsOk
          (guestRegionAddExOwned t (heapArgs t brkBase oldBrk newOff)).2.regions := add_ok h hx
      split
      · exact hadd
      · exact hadd
    · exact remove_ok h _ _
  · by_cases hshrink : newOff < oldBrk
    · have hp := removePrepare_regions t newOff oldBrk
      simp only [if_pos hshrink, brkUpdateRegions]
      split
      · exact hp ▸ h
      · exact removeReserved_ok (hp ▸ h) _ _ _
    simp only [hgrow, if_false, if_neg hshrink, Int.lt_irrefl, brkUpdateRegions]
    split
    · exact h
    · exact remove_ok h _ _

/-! ### Histories -/

/-- The table together with the undo records of the splits still pending,
newest first. -/
structure TableState where
  table : RegionTable
  pending : List (Option RegionSplitUndo × Option RegionSplitUndo)

/-- One edit of the table by the memory code. -/
inductive TableStep : TableState → TableState → Prop
  | add (s : TableState) (x : RegionArgs) (hx : AddRange s.table x.start x.stop) :
      TableStep s ⟨(guestRegionAddExOwnedGpa s.table x).2, []⟩
  | remove (s : TableState) (start stop : ℕ) :
      TableStep s ⟨(guestRegionRemove s.table start stop).2, []⟩
  | removeReserved (s : TableState) (start stop : ℕ) (fd : ℤ) :
      TableStep s ⟨guestRegionRemoveReserved s.table start stop fd, []⟩
  | setProt (s : TableState) (start stop prot : ℕ) (hrange : SetProtRange s.table start stop) :
      TableStep s ⟨guestRegionSetProt s.table start stop prot, []⟩
  | split (s : TableState) (start stop : ℕ)
      (hok : ¬ (splitRegionsAtBounds s.table start stop).1 < 0) :
      TableStep s ⟨(splitRegionsAtBounds s.table start stop).2.2,
        (splitRegionsAtBounds s.table start stop).2.1 :: s.pending⟩
  | splitFailed (s : TableState) (start stop : ℕ)
      (hfail : (splitRegionsAtBounds s.table start stop).1 < 0) :
      TableStep s ⟨(splitRegionsAtBounds s.table start stop).2.2, s.pending⟩
  | undo (s : TableState) (u : Option RegionSplitUndo × Option RegionSplitUndo)
      (us : List (Option RegionSplitUndo × Option RegionSplitUndo)) (hu : s.pending = u :: us) :
      TableStep s ⟨undoRegionSplits s.table u, us⟩
  | brk (s : TableState) (brkBase stackBase oldBrk newOff : ℕ) :
      TableStep s ⟨brkRegions s.table brkBase stackBase oldBrk newOff, []⟩

/-- Undoing the pending splits one after the other only visits tables that meet
the invariant. -/
def UndoOk : List GuestRegion → List (Option RegionSplitUndo × Option RegionSplitUndo) → Prop
  | rs, [] => RegionsOk rs
  | rs, u :: us => RegionsOk rs ∧
      ∀ t : RegionTable, t.regions = rs → UndoOk (undoRegionSplits t u).regions us

lemma UndoOk.ok :
    ∀ {us : List (Option RegionSplitUndo × Option RegionSplitUndo)}, UndoOk rs us → RegionsOk rs
  | [], h => h
  | _ :: _, h => h.1

lemma undoRegionSplits_regions (h : t.regions = t'.regions) :
    (undoRegionSplits t u).regions = (undoRegionSplits t' u).regions := by
  have hone : ∀ (o : Option RegionSplitUndo) (a b : RegionTable), a.regions = b.regions →
      (undoRegionSplit a o).regions = (undoRegionSplit b o).regions := by
    intro o a b hab
    cases o with
    | none => exact hab
    | some o => simp only [undoRegionSplit, hab]
  exact hone _ _ _ (hone _ _ _ h)

lemma splitFailed_regions (h : (splitRegionsAtBounds t start stop).1 < 0) :
    (splitRegionsAtBounds t start stop).2.2.regions = t.regions := by
  unfold splitRegionsAtBounds at h ⊢
  by_cases h1 : (splitRegionsAtBoundary t start).1 < 0
  · rw [if_pos h1]
    rcases splitRegionsAtBoundary_cases t start with ⟨-, heq⟩ | ⟨_, _, _, -, -, -, -, hz, -, -⟩
    · exact heq
    · omega
  rw [if_neg h1] at h ⊢
  by_cases h2 : (splitRegionsAtBoundary (splitRegionsAtBoundary t start).2.2 stop).1 < 0
  · rw [if_pos h2]
    rcases splitRegionsAtBoundary_cases (splitRegionsAtBoundary t start).2.2 stop with
      ⟨-, heq⟩ | ⟨_, _, _, -, -, -, -, hz, -, -⟩
    · exact undoRegionSplit_split t start _ heq
    · omega
  · rw [if_neg h2] at h
    exact absurd h h2

/-- One edit keeps the invariant, for the table and for every table an undo of
the pending splits can bring back. -/
lemma tableStep_ok (hstep : TableStep s s')
    (h : UndoOk s.table.regions s.pending) : UndoOk s'.table.regions s'.pending := by
  cases hstep with
  | add x hx => exact add_ok h.ok hx
  | remove start stop => exact remove_ok h.ok _ _
  | removeReserved start stop fd => exact removeReserved_ok h.ok _ _ _
  | setProt start stop prot hrange => exact setProt_ok h.ok hrange _
  | split start stop hok =>
    refine ⟨splitAtBounds_ok h.ok _ _, fun t ht => ?_⟩
    rw [undoRegionSplits_regions ht, undoRegionSplits_split _ _ _ hok]
    exact h
  | splitFailed start stop hfail =>
    rw [splitFailed_regions hfail]
    exact h
  | undo u us hu =>
    rw [hu] at h
    exact h.2 _ rfl
  | brk brkBase stackBase oldBrk newOff => exact brkRegions_ok h.ok _ _ _ _

lemma tableRun_ok (hrun : Relation.ReflTransGen TableStep s s')
    (h : UndoOk s.table.regions s.pending) : UndoOk s'.table.regions s'.pending := by
  induction hrun with
  | refl => exact h
  | tail _ hstep ih => exact tableStep_ok hstep ih

/-- Every table reachable from the empty one is strictly sorted, free of empty
and overlapping entries and within its capacity; so both searches are exact. -/
theorem reachable_regions_exact (hps : ℕ) (fds : HostFds) {s : TableState}
    (hrun : Relation.ReflTransGen TableStep ⟨RegionTable.empty hps fds, []⟩ s) :
    (s.table.regions.Pairwise fun a b => a.start < b.start ∧ a.stop ≤ b.start) ∧
    (∀ r ∈ s.table.regions, r.start < r.stop) ∧
    s.table.regions.length ≤ guestMaxRegions ∧
    (∀ addr, (∀ r ∈ s.table.regions.take (guestRegionFirstEndAbove s.table.regions addr),
        r.stop ≤ addr) ∧
      ∀ r, s.table.regions[guestRegionFirstEndAbove s.table.regions addr]? = some r →
        addr < r.stop) ∧
    (∀ addr r, guestRegionFind s.table.regions addr = some r ↔
      r ∈ s.table.regions ∧ r.start ≤ addr ∧ addr < r.stop) := by
  have hok : RegionsOk s.table.regions :=
    (tableRun_ok hrun ⟨ordered_nil, Nat.zero_le _⟩).ok
  refine ⟨?_, hok.ordered.1, hok.bounded, fun addr => ?_,
    fun addr r => guestRegionFind_eq_some_iff hok.ordered⟩
  · refine hok.ordered.2.imp_of_mem fun ha _ hab => ⟨?_, hab⟩
    have := hok.ordered.1 _ ha
    omega
  obtain ⟨-, hbefore, habove⟩ := firstEndAbove_spec hok.ordered addr
  refine ⟨hbefore, fun r hr => habove r ?_⟩
  exact mem_of_getElem? (i := 0) (by rw [getElem?_drop, Nat.add_zero, hr])

/-- A run that maps four pages and protects the two in the middle. -/
theorem reachable_regions_exact_mprotect :
    ∃ s, Relation.ReflTransGen TableStep ⟨RegionTable.empty 16384 noFds, []⟩ s ∧
      s.table.regions.length = 3 ∧ s.table.regions.length ≤ guestMaxRegions := by
  refine ⟨_, (Relation.ReflTransGen.single
    (TableStep.add _ fourPages ⟨by decide, by simp [RegionTable.empty]⟩)).tail
    (TableStep.setProt _ 0x2000 0x4000 1 (.inl (by decide))), by decide, ?_⟩
  exact (reachable_regions_exact 16384 noFds ((Relation.ReflTransGen.single
    (TableStep.add _ fourPages ⟨by decide, by simp [RegionTable.empty]⟩)).tail
    (TableStep.setProt _ 0x2000 0x4000 1 (.inl (by decide))))).2.2.1

def lowPage : RegionArgs := { fourPages with start := 0x200, stop := 0x300, gpaBase := 0x200 }

/-- Neither the range of a protection change nor the discipline of the undo can
be dropped: an inverted range inside a region leaves an empty entry behind, and
an undo record used after an insertion below it resurrects the wrong slot. -/
theorem setProt_inverted_and_stale_undo :
    RegionsOrdered (guestRegionAddExOwnedGpa (RegionTable.empty 16384 noFds) fourPages).2.regions ∧
    ¬ RegionsOrdered (guestRegionSetProt
      (guestRegionAddExOwnedGpa (RegionTable.empty 16384 noFds) fourPages).2
      0x3000 0x2000 1).regions ∧
    ¬ RegionsOrdered (undoRegionSplits (guestRegionAddExOwnedGpa (splitRegionsAtBounds
        (guestRegionAddExOwnedGpa (RegionTable.empty 16384 noFds) fourPages).2
        0x2000 0x3000).2.2 lowPage).2
      (splitRegionsAtBounds (guestRegionAddExOwnedGpa (RegionTable.empty 16384 noFds) fourPages).2
        0x2000 0x3000).2.1).regions := by
  decide

end Elfuse
