/-
The order invariant of the region table.

Every edit of the table keeps it sorted, free of empty and overlapping
entries, and within its capacity (`RegionsOk`). On such a table the binary
searches are exact:

* `firstEndAbove_spec` — the split of the table at
  `guestRegionFirstEndAbove`;
* `guestRegionFind_eq_some_iff` — the finder returns the one region covering
  the address;
* `add_ok`, `removeReserved_ok`, `setProt_ok`, `splitAtBoundary_ok`,
  `brkRegions_ok` — one lemma per edit.

The loops are handled the same way throughout: the slots already written and
the slots still to be read form one ordered list, and each iteration replaces
one slot by an ordered list inside its bounds (`Intervals.Ordered.replace`).
-/
import Elfuse.Syscall.TableEdits

namespace Elfuse

open Intervals List Option Bool Nat

/-- Sorted, non-empty, pairwise disjoint entries. -/
def RegionsOrdered (rs : List GuestRegion) : Prop :=
  Ordered GuestRegion.start GuestRegion.stop rs

instance (rs : List GuestRegion) : Decidable (RegionsOrdered rs) :=
  inferInstanceAs (Decidable (Ordered _ _ rs))

/-- The table invariant: in order, and within the capacity of the array. -/
structure RegionsOk (rs : List GuestRegion) : Prop where
  ordered : RegionsOrdered rs
  bounded : rs.length ≤ guestMaxRegions

/-! ### Overlay clipping touches only the overlay fields -/

lemma clip_shape (r : GuestRegion) (c d : Prop) [Decidable c] [Decidable d] (x y : ℕ) :
    ∃ act lo hi, (if c then guestRegionClearOverlay r else if d then guestRegionClearOverlay r
        else { r with overlayStart := x, overlayEnd := y })
      = { r with overlayActive := act, overlayStart := lo, overlayEnd := hi } := by
  by_cases hc : c
  · exact ⟨_, _, _, if_pos hc⟩
  by_cases hd : d
  · exact ⟨_, _, _, by rw [if_neg hc, if_pos hd]; rfl⟩
  · exact ⟨_, _, _, by rw [if_neg hc, if_neg hd]⟩

section
variable (hps : ℕ) (r : GuestRegion)
include hps r

lemma guestRegionClipOverlay_cases : ∃ act lo hi, guestRegionClipOverlay hps r
      = { r with overlayActive := act, overlayStart := lo, overlayEnd := hi } :=
  clip_shape r _ _ _ _

lemma regionClipOverlay_cases : ∃ act lo hi, regionClipOverlay hps r
      = { r with overlayActive := act, overlayStart := lo, overlayEnd := hi } :=
  clip_shape r _ _ _ _

@[simp] lemma guestRegionClipOverlay_start : (guestRegionClipOverlay hps r).start = r.start := by
  obtain ⟨_, _, _, h⟩ := guestRegionClipOverlay_cases hps r
  rw [h]

@[simp] lemma guestRegionClipOverlay_stop : (guestRegionClipOverlay hps r).stop = r.stop := by
  obtain ⟨_, _, _, h⟩ := guestRegionClipOverlay_cases hps r
  rw [h]

@[simp] lemma clipOverlay_backingFd : (guestRegionClipOverlay hps r).backingFd = r.backingFd := by
  obtain ⟨_, _, _, h⟩ := guestRegionClipOverlay_cases hps r
  rw [h]

@[simp] lemma regionClipOverlay_start : (regionClipOverlay hps r).start = r.start := by
  obtain ⟨_, _, _, h⟩ := regionClipOverlay_cases hps r
  rw [h]

@[simp] lemma regionClipOverlay_stop : (regionClipOverlay hps r).stop = r.stop := by
  obtain ⟨_, _, _, h⟩ := regionClipOverlay_cases hps r
  rw [h]

end

section
variable (r : GuestRegion) (x : ℕ)
include r x

@[simp] lemma below_start : (r.below x).start = r.start := rfl

@[simp] lemma below_stop : (r.below x).stop = x := rfl

@[simp] lemma above_start : (r.above x).start = x := rfl

@[simp] lemma above_stop : (r.above x).stop = r.stop := rfl

end

/-! ### Searches -/

variable {rs rest : List GuestRegion} {r : GuestRegion} {t : RegionTable}

/-- A halving search over the table splits it into the records that pass the
test and those that do not, whenever the test is monotone along the table. -/
lemma partitionPoint_split (below : GuestRegion → Bool)
    (hmono : ∀ (i j : ℕ) (a b : GuestRegion), i < j → rs[i]? = some a → rs[j]? = some b →
      below b = true → below a = true) :
    let i := Search.partitionPoint (fun i => rs[i]?.elim false below) rs.length 0 rs.length
    i ≤ rs.length ∧ (∀ r ∈ rs.take i, below r = true) ∧ (∀ r ∈ rs.drop i, below r = false) := by
  intro i
  have hm : ∀ i j, i ≤ j → j < rs.length → (rs[j]?.elim false below) = true →
      (rs[i]?.elim false below) = true := by
    intro i j hij hj hb
    rcases lt_or_eq_of_le hij with hlt | rfl
    swap
    · exact hb
    rw [List.getElem?_eq_getElem hj] at hb
    rw [List.getElem?_eq_getElem (by omega)]
    exact hmono i j _ _ hlt (List.getElem?_eq_getElem _) (List.getElem?_eq_getElem hj) hb
  obtain ⟨-, hle, hbelow, habove⟩ :=
    Search.partitionPoint_spec hm rs.length 0 rs.length (zero_le _) le_rfl (by omega)
  refine ⟨hle, fun r hr => ?_, fun r hr => ?_⟩
  · obtain ⟨k, hk⟩ := List.mem_iff_getElem?.mp hr
    rw [List.getElem?_take] at hk
    split at hk
    · have := hbelow k (zero_le _) (by assumption)
      rwa [hk] at this
    · simp at hk
  obtain ⟨k, hk⟩ := List.mem_iff_getElem?.mp hr
  rw [List.getElem?_drop] at hk
  have hlt : i + k < rs.length := (List.getElem?_eq_some_iff.mp hk).1
  have := habove (i + k) (le_add_right _ _) hlt
  rwa [hk] at this

lemma firstEndAbove_spec (h : RegionsOrdered rs) (addr : ℕ) :
    guestRegionFirstEndAbove rs addr ≤ rs.length ∧
    (∀ r ∈ rs.take (guestRegionFirstEndAbove rs addr), r.stop ≤ addr) ∧
    (∀ r ∈ rs.drop (guestRegionFirstEndAbove rs addr), addr < r.stop) := by
  obtain ⟨h1, h2, h3⟩ := @partitionPoint_split rs (fun r => decide (r.stop ≤ addr)) (by
    intro i j a b hlt ha hb hd
    have := Ordered.getElem?_le h hlt ha hb
    have := Ordered.nonempty h hb
    simp only [decide_eq_true_eq] at hd ⊢
    omega)
  exact ⟨h1, fun r hr => by simpa using h2 r hr, fun r hr => by simpa using h3 r hr⟩

lemma lowerBoundStart_spec (h : RegionsOrdered rs) (start : ℕ) :
    regionLowerBoundStart rs start ≤ rs.length ∧
    (∀ r ∈ rs.take (regionLowerBoundStart rs start), r.start < start) ∧
    (∀ r ∈ rs.drop (regionLowerBoundStart rs start), start ≤ r.start) := by
  obtain ⟨h1, h2, h3⟩ := @partitionPoint_split rs (fun r => decide (r.start < start)) (by
    intro i j a b hlt ha hb hd
    have := Ordered.getElem?_le h hlt ha hb
    have := Ordered.nonempty h ha
    simp only [decide_eq_true_eq] at hd ⊢
    omega)
  exact ⟨h1, fun r hr => by simpa using h2 r hr, fun r hr => by simpa using h3 r hr⟩

variable {i : ℕ}

lemma findProbe_of_getElem? (h : rs[i]? = some r) : findProbe rs addr i =
    if addr < r.start then .lt else if r.stop ≤ addr then .gt else .eq := by
  simp only [findProbe, h]

lemma findProbe_eq_iff : findProbe rs addr i = .eq ↔
    ∃ r, rs[i]? = some r ∧ r.start ≤ addr ∧ addr < r.stop := by
  unfold findProbe
  cases hi : rs[i]? with
  | none => simp
  | some r =>
    by_cases h1 : addr < r.start
    · simp [h1, not_le.mpr h1]
    by_cases h2 : r.stop ≤ addr
    · simp [h1, h2]
    · simp [h1, h2, not_lt.mp h1, not_le.mp h2]

/-- Along an ordered table the probes go from `gt` through `eq` to `lt`. -/
lemma findProbe_mono (h : RegionsOrdered rs) (hij : i ≤ j) (hj : j < rs.length) :
    (findProbe rs addr i = .lt → findProbe rs addr j = .lt) ∧
    (findProbe rs addr j = .gt → findProbe rs addr i = .gt) := by
  rcases lt_or_eq_of_le hij with hlt | rfl
  · have hi' := getElem?_eq_getElem (lt_trans hlt hj)
    have hj' := getElem?_eq_getElem hj
    have hx := Ordered.getElem?_le h hlt hi' hj'
    have hni := Ordered.nonempty h hi'
    rw [findProbe_of_getElem? hi', findProbe_of_getElem? hj']
    constructor
    · intro hp
      have hlt' : addr < rs[i].start := by
        by_contra hc
        rw [if_neg hc] at hp
        split at hp <;> simp at hp
      rw [if_pos (by omega)]
    intro hp
    have hge : rs[j].stop ≤ addr ∧ ¬ addr < rs[j].start := by
      by_cases h1 : addr < rs[j].start
      · simp [h1] at hp
      by_cases h2 : rs[j].stop ≤ addr
      · exact ⟨h2, h1⟩
      · simp [h1, h2] at hp
    rw [if_neg (by omega), if_pos (by omega)]
  · exact ⟨id, id⟩

lemma guestRegionFind_eq_some_iff (h : RegionsOrdered rs) :
    guestRegionFind rs addr = some r ↔ r ∈ rs ∧ r.start ≤ addr ∧ addr < r.stop := by
  unfold guestRegionFind
  constructor
  · intro hf
    obtain ⟨i, hb, hr⟩ := bind_eq_some_iff.mp hf
    obtain ⟨-, -, heq⟩ := Search.bisect_eq_some hb
    obtain ⟨r', hr', hcov⟩ := findProbe_eq_iff.mp heq
    obtain rfl := some_inj.mp (hr.symm.trans hr')
    exact ⟨List.mem_of_getElem? hr, hcov⟩
  rintro ⟨hmem, hcov⟩
  obtain ⟨k, hk⟩ := List.mem_iff_getElem?.mp hmem
  have hklt : k < rs.length := (List.getElem?_eq_some_iff.mp hk).1
  cases hb : Search.bisect (findProbe rs addr) rs.length 0 rs.length with
  | none =>
    exfalso
    exact Search.bisect_eq_none (N := rs.length) (fun i j hij hj => (findProbe_mono h hij hj).1)
      (fun i j hij hj => (findProbe_mono h hij hj).2) le_rfl (by omega) hb k (zero_le _)
      hklt (findProbe_eq_iff.mpr ⟨r, hk, hcov⟩)
  | some i =>
    obtain ⟨-, -, heq⟩ := Search.bisect_eq_some hb
    obtain ⟨r', hr', hcov'⟩ := findProbe_eq_iff.mp heq
    have hik : i = k := Ordered.covers_unique h hr' hk (covers_iff.mpr hcov') (covers_iff.mpr hcov)
    rw [hik]
    exact hk

/-! ### Coalescing -/

lemma take_append_cons_drop (h : rs[i]? = some r) : rs = rs.take i ++ r :: rs.drop (i + 1) := by
  obtain ⟨hi, rfl⟩ := List.getElem?_eq_some_iff.mp h
  rw [← List.drop_eq_getElem_cons hi, List.take_append_drop]

lemma tryMergeRight_cases (rs : List GuestRegion) (i : ℕ) :
    tryMergeRight rs i = rs ∨ ∃ a b, regionsMergeable a b ∧
      rs = rs.take i ++ a :: b :: rs.drop (i + 2) ∧
      tryMergeRight rs i = rs.take i ++ { a with stop := b.stop } :: rs.drop (i + 2) := by
  unfold tryMergeRight
  split
  · rename_i a b ha hb
    by_cases hm : regionsMergeable a b
    · refine .inr ⟨a, b, hm, ?_, if_pos hm⟩
      have hdrop : rs.drop (i + 1) = b :: rs.drop (i + 2) := by
        obtain ⟨hi, rfl⟩ := List.getElem?_eq_some_iff.mp hb
        exact List.drop_eq_getElem_cons hi
      rw [← hdrop]
      exact take_append_cons_drop ha
    · exact .inl (if_neg hm)
  · exact .inl rfl

variable {P : List GuestRegion → Prop} {x : RegionArgs}

section
variable (hstep : ∀ rs i, P rs → P (tryMergeRight rs i))
include hstep

lemma tryMergeLeft_induct (rs : List GuestRegion) (i : ℕ) (h : P rs) : P (tryMergeLeft rs i) := by
  cases i with
  | zero => exact h
  | succ i => exact hstep rs i h

lemma mergeLeftDown_induct :
    ∀ (n i : ℕ) (rs : List GuestRegion), P rs → P (mergeLeftDown n i rs) := by
  intro n
  induction n with
  | zero => exact fun _ _ h => h
  | succ n ih => exact fun i rs h => ih _ _ (tryMergeLeft_induct hstep rs i h)

lemma setProtMerge_induct (s : SetProtSt) (h : P s.done) : P (setProtMerge s) := by
  unfold setProtMerge
  split
  · exact h
  · exact tryMergeLeft_induct hstep _ _ (mergeLeftDown_induct hstep _ _ _ (hstep _ _ h))

end

lemma tryMergeRight_ordered (i : ℕ) (h : RegionsOrdered rs) :
    RegionsOrdered (tryMergeRight rs i) := by
  rcases tryMergeRight_cases rs i with heq | ⟨a, b, -, hrs, heq⟩
  · rw [heq]
    exact h
  rw [heq]
  rw [RegionsOrdered, hrs] at h
  exact Ordered.merge h rfl rfl

lemma tryMergeRight_length_le (rs : List GuestRegion) (i : ℕ) :
    (tryMergeRight rs i).length ≤ rs.length := by
  rcases tryMergeRight_cases rs i with heq | ⟨a, b, -, hrs, heq⟩
  · rw [heq]
  have := congrArg length hrs
  rw [heq]
  simp only [length_append, length_cons] at this ⊢
  omega

lemma tryMergeRight_ok (rs : List GuestRegion) (i : ℕ) (h : RegionsOk rs) :
    RegionsOk (tryMergeRight rs i) :=
  ⟨tryMergeRight_ordered i h.ordered, le_trans (tryMergeRight_length_le rs i) h.bounded⟩

lemma regionsMergeableLayout_facts {a b : GuestRegion} (h : regionsMergeableLayout a b) :
    a.stop = b.start ∧ u64 (a.gpaBase + (a.stop - a.start)) = b.gpaBase ∧ a.prot = b.prot ∧
    a.flags = b.flags ∧ a.backingFd = b.backingFd ∧ a.noreserve = b.noreserve ∧
    a.backingRo = b.backingRo ∧ a.inheritedAtFork = b.inheritedAtFork ∧ a.name = b.name ∧
    (hasFlag a.flags linuxMapAnonymous ∨ u64 (a.offset + (a.stop - a.start)) = b.offset) := by
  simp only [regionsMergeableLayout, and_eq_true, or_eq_true, decide_eq_true_eq, beq_iff_eq] at h
  obtain ⟨⟨⟨⟨⟨⟨⟨⟨⟨⟨h1, h2⟩, h3⟩, h4⟩, h5⟩, h6⟩, h7⟩, h8⟩, -⟩, h10⟩, h11⟩ := h
  exact ⟨h1, h2, h3, h4, h5, h6, h7, h8, h10, h11.imp_left And.left⟩

/-! ### Insertion -/

lemma adoptVmaId_cases (left right : Option GuestRegion) (r : GuestRegion) :
    adoptVmaId left right r = r ∨ ∃ n, (left = some n ∧ regionsMergeableLayout n r ∨
        right = some n ∧ regionsMergeableLayout r n) ∧
      adoptVmaId left right r = { r with vmaId := n.vmaId } := by
  unfold adoptVmaId
  split
  · rename_i n hn
    obtain ⟨hl, hm⟩ := filter_eq_some_iff.mp hn
    exact .inr ⟨n, .inl ⟨hl, hm⟩, rfl⟩
  split
  · rename_i n hn
    obtain ⟨hr, hm⟩ := filter_eq_some_iff.mp hn
    exact .inr ⟨n, .inr ⟨hr, hm⟩, rfl⟩
  · exact .inl rfl

/-- Where a new lineage comes from: the caller, the counter, or a record that
adjoins the new one. -/
def VmaIdSource (t : RegionTable) (x : RegionArgs) (v : ℕ) : Prop :=
  if x.vmaId = 0 then
    v = t.nextVmaId + 1 ∨ ∃ n ∈ t.regions, (n.stop = x.start ∨ n.start = x.stop) ∧ v = n.vmaId
  else v = x.vmaId

/-- All an insertion can do: refuse on a full table, or write the caller's
record in its place and coalesce it. -/
lemma add_cases (t : RegionTable) (x : RegionArgs) :
    (guestMaxRegions ≤ t.regions.length ∧ guestRegionAddExOwnedGpa t x
        = (-1, { t with fds := t.fds.closeIfOpen x.ownedBackingFd })) ∨
    (t.regions.length < guestMaxRegions ∧ ∃ v next, VmaIdSource t x v ∧
      guestRegionAddExOwnedGpa t x = (0, { t with
        regions := tryMergeLeft (tryMergeRight
          (t.regions.take (regionLowerBoundStart t.regions x.start) ++ x.toRegion v ::
            t.regions.drop (regionLowerBoundStart t.regions x.start))
          (regionLowerBoundStart t.regions x.start)) (regionLowerBoundStart t.regions x.start)
        nextVmaId := next })) := by
  by_cases hfull : guestMaxRegions ≤ t.regions.length
  · exact .inl ⟨hfull, if_pos hfull⟩
  refine .inr ⟨not_le.mp hfull, ?_⟩
  unfold guestRegionAddExOwnedGpa
  rw [if_neg hfull]
  by_cases hnew : x.vmaId = 0
  · simp only [hnew, decide_true, if_true]
    set i := regionLowerBoundStart t.regions x.start
    set left := if 0 < i then t.regions[i - 1]? else none with hleft
    rcases adoptVmaId_cases left t.regions[i]? (x.toRegion (t.nextVmaId + 1)) with
      heq | ⟨n, hn, heq⟩
    · refine ⟨t.nextVmaId + 1, _, ?_, by rw [heq]⟩
      rw [VmaIdSource, if_pos hnew]
      exact .inl rfl
    refine ⟨n.vmaId, _, ?_, by rw [heq]; rfl⟩
    rw [VmaIdSource, if_pos hnew]
    refine .inr ⟨n, ?_, ?_, rfl⟩
    · rcases hn with ⟨hn, -⟩ | ⟨hn, -⟩
      · rw [hleft] at hn
        split at hn
        · exact mem_of_getElem? hn
        · simp at hn
      · exact mem_of_getElem? hn
    · rcases hn with ⟨-, hm⟩ | ⟨-, hm⟩
      · exact .inl (regionsMergeableLayout_facts hm).1
      · exact .inr (regionsMergeableLayout_facts hm).1.symm
  · refine ⟨x.vmaId, _, ?_, by simp only [hnew, decide_false]; rfl⟩
    rw [VmaIdSource, if_neg hnew]

/-- The caller's contract: a non-empty range no tracked region meets. -/
structure AddRange (t : RegionTable) (start stop : ℕ) : Prop where
  nonempty : start < stop
  disjoint : ∀ r ∈ t.regions, r.stop ≤ start ∨ stop ≤ r.start

lemma insert_ordered (h : RegionsOrdered t.regions) (hx : AddRange t x.start x.stop) (v : ℕ) :
    RegionsOrdered (t.regions.take (regionLowerBoundStart t.regions x.start) ++ x.toRegion v ::
      t.regions.drop (regionLowerBoundStart t.regions x.start)) := by
  obtain ⟨-, hbefore, hafter⟩ := lowerBoundStart_spec h x.start
  refine Ordered.insert (r := x.toRegion v) ?_ hx.nonempty (fun s hs => ?_) (fun s hs => ?_)
  · rw [take_append_drop]
    exact h
  · have hlt := hbefore s hs
    rcases hx.disjoint s (mem_of_mem_take hs) with hd | hd
    · exact hd
    · have := hx.nonempty
      omega
  have hge := hafter s hs
  have hne := h.1 s (mem_of_mem_drop hs)
  rcases hx.disjoint s (mem_of_mem_drop hs) with hd | hd
  · omega
  · exact hd

lemma add_ok (h : RegionsOk t.regions) (hx : AddRange t x.start x.stop) :
    RegionsOk (guestRegionAddExOwnedGpa t x).2.regions := by
  rcases add_cases t x with ⟨-, heq⟩ | ⟨hroom, v, next, -, heq⟩
  · rw [heq]
    exact h
  rw [heq]
  refine tryMergeLeft_induct tryMergeRight_ok _ _ (tryMergeRight_ok _ _ ⟨?_, ?_⟩)
  · exact insert_ordered h.ordered hx v
  · simp only [length_append, length_cons, length_take, length_drop]
    omega

/-! ### Removal -/

variable {start stop : ℕ}

lemma removeLoop_ordered (hps : ℕ) (hlt : start < stop) (full : Bool) :
    ∀ (rest pre : List GuestRegion) (s : RemoveSt), RegionsOrdered (pre ++ rest) →
      (∀ r ∈ rest, start < r.stop) →
      RegionsOrdered (pre ++ (removeLoop hps start stop full rest s).1) := by
  intro rest
  induction rest with
  | nil => exact fun _ _ h _ => h
  | cons r rest ih =>
    intro pre s h habove
    have hr : start < r.stop := habove r mem_cons_self
    have hrest : ∀ r ∈ rest, start < r.stop := fun r hr => habove r (mem_cons_of_mem _ hr)
    -- one surviving piece takes the slot of `r`, and the loop goes on behind it
    have htrim : ∀ (p : GuestRegion) (s' : RemoveSt), r.start ≤ p.start → p.start < p.stop →
        p.stop ≤ r.stop →
        RegionsOrdered (pre ++ p :: (removeLoop hps start stop full rest s').1) := by
      intro p s' h1 h2 h3
      have hp : RegionsOrdered (pre ++ ([p] ++ rest)) :=
        Ordered.replace h (ordered_singleton h2) (by simp [h1, h3])
      rw [← append_assoc] at hp
      have := ih (pre ++ [p]) s' hp hrest
      rwa [append_assoc] at this
    rw [removeLoop]
    split
    · exact h
    split
    · rename_i h2
      split
      · rename_i h3
        have h4 : stop < r.stop := by
          simp only [and_eq_true, decide_eq_true_eq] at h3
          exact h3.1
        refine Ordered.replace h (ordered_pair (a := guestRegionClipOverlay hps (r.below start))
          ?_ ?_ ?_) ?_
        · simpa using h2
        · split <;> simpa using h4
        · split <;> simp <;> omega
        intro q hq
        rcases mem_pair.mp hq with rfl | rfl
        · simp; omega
        · split <;> simp <;> omega
      · exact htrim _ _ (by simp) (by simpa using h2) (by simpa using le_of_lt hr)
    · by_cases h3 : stop < r.stop
      · rw [if_pos h3]
        exact htrim _ _ (by simp; omega) (by simpa using h3) (by simp)
      · rw [if_neg h3]
        exact ih pre _ (Ordered.replace h ordered_nil (by simp)) hrest

lemma removeLoop_length (hps start stop : ℕ) (full : Bool) : ∀ (rest : List GuestRegion)
    (s : RemoveSt), (removeLoop hps start stop full rest s).1.length
      ≤ rest.length + if full then 0 else 1 := by
  intro rest
  induction rest with
  | nil => intro s; simp [removeLoop]
  | cons r rest ih =>
    intro s
    rw [removeLoop]
    split
    · simp
    split
    · split
      · rename_i h3
        have : full = false := by
          simp only [and_eq_true, not_eq_true'] at h3
          exact h3.2
        simp [this]
      · have := ih { s with stale := s.stale || decide (stop < r.stop) }
        simp only [length_cons]
        omega
    · split
      · have := ih s
        simp only [length_cons]
        omega
      have := ih { s with fds := s.fds.closeIfOpen r.backingFd }
      simp only [length_cons]
      omega

lemma removeReserved_ok (h : RegionsOk t.regions) (start stop : ℕ) (fd : ℤ) :
    RegionsOk (guestRegionRemoveReserved t start stop fd).regions := by
  unfold guestRegionRemoveReserved
  by_cases hlt : stop ≤ start
  · rw [if_pos hlt]
    exact h
  rw [if_neg hlt]
  obtain ⟨hle, -, habove⟩ := firstEndAbove_spec h.ordered start
  refine ⟨?_, ?_⟩
  · refine removeLoop_ordered _ (not_le.mp hlt) _ _ _ _ ?_ habove
    rw [take_append_drop]
    exact h.ordered
  have hlen := removeLoop_length t.hostPageSize start stop
    (decide (guestMaxRegions ≤ t.regions.length))
    (t.regions.drop (guestRegionFirstEndAbove t.regions start))
    { stale := t.regionsTrackerStale, fds := t.fds, reserved := fd }
  have hb := h.bounded
  simp only [length_append, length_take, length_drop] at hlen ⊢
  by_cases hfull : guestMaxRegions ≤ t.regions.length
  · simp only [hfull, decide_true, if_true] at hlen ⊢
    omega
  simp only [hfull, decide_false] at hlen ⊢
  simp only [false_eq_true, if_false] at hlen
  omega

lemma removePrepare_regions (t : RegionTable) (start stop : ℕ) :
    (guestRegionRemovePrepare t start stop).2.2.regions = t.regions := by
  unfold guestRegionRemovePrepare
  split <;> rfl

lemma remove_ok (h : RegionsOk t.regions) (start stop : ℕ) :
    RegionsOk (guestRegionRemove t start stop).2.regions := by
  have hp := removePrepare_regions t start stop
  unfold guestRegionRemove
  dsimp only
  split
  · exact hp ▸ h
  · exact removeReserved_ok (hp ▸ h) _ _ _

/-! ### Protection changes -/

@[simp]
lemma dupBacking_start (s : SetProtSt) (r : GuestRegion) : (s.dupBacking r).1.start = r.start := by
  unfold SetProtSt.dupBacking
  split <;> rfl

@[simp]
lemma dupBacking_stop (s : SetProtSt) (r : GuestRegion) : (s.dupBacking r).1.stop = r.stop := by
  unfold SetProtSt.dupBacking
  split <;> rfl

@[simp]
lemma dupBacking_done (s : SetProtSt) (r : GuestRegion) : (s.dupBacking r).2.done = s.done := by
  unfold SetProtSt.dupBacking
  split <;> rfl

/-- Invariant of the loop: written and unread slots together are in order, and
there are no more of them than the array has room for. -/
def LoopOk (done rest : List GuestRegion) : Prop :=
  RegionsOk (done ++ rest)

variable {done : List GuestRegion}

section
variable (h : LoopOk done (r :: rest))
include h

lemma LoopOk.pass : LoopOk (done ++ [r]) rest := by
  rw [LoopOk, append_assoc]
  exact h

lemma LoopOk.rewrite (hstart : q.start = r.start) (hstop : q.stop = r.stop) :
    LoopOk done (q :: rest) := by
  refine ⟨Ordered.replace h.ordered (ordered_singleton ?_) (by simp [hstart, hstop]), ?_⟩
  · rw [hstart, hstop]
    exact h.ordered.1 r (by simp)
  · simpa using h.bounded

lemma LoopOk.split (hroom : ¬ guestMaxRegions ≤ done.length + 1 + rest.length) {p : GuestRegion}
    {x : ℕ} (hp : p.start = r.start ∧ p.stop = x) (hq : q.start = x ∧ q.stop = r.stop)
    (hx : r.start < x ∧ x < r.stop) : LoopOk done (p :: q :: rest) := by
  refine ⟨Ordered.replace (m := [p, q]) h.ordered (ordered_pair ?_ ?_ ?_) ?_, ?_⟩
  · omega
  · omega
  · omega
  · intro s hs
    rcases mem_pair.mp hs with rfl | rfl <;> omega
  · simp only [length_append, length_cons]
    omega

end

lemma setProtSlot_ok (hps : ℕ) (prot : ℕ) {s : SetProtSt} (hin : r.start < stop)
    (h : LoopOk s.done (r :: rest)) : match setProtSlot hps stop prot r rest s with
    | .inl s' => RegionsOk s'.done
    | .inr s' => LoopOk s'.done rest := by
  unfold setProtSlot
  by_cases h1 : stop < r.stop
  · rw [if_pos h1]
    by_cases h2 : guestMaxRegions ≤ s.done.length + 1 + rest.length
    · rw [if_pos h2]
      exact (h.rewrite (q := { r with prot := prot }) rfl rfl).pass
    rw [if_neg h2]
    have hsplit := h.split h2 (x := stop)
      (p := guestRegionClipOverlay hps { r.below stop with prot := prot })
      (q := guestRegionClipOverlay hps (s.dupBacking (r.above stop)).1)
      (by simp) (by simp) ⟨hin, h1⟩
    simpa [LoopOk, SetProtSt.modify] using hsplit
  · rw [if_neg h1]
    exact (h.rewrite (q := { r with prot := prot }) rfl rfl).pass

lemma setProtLoop_ok (hps : ℕ) (prot : ℕ) (hlt : start < stop) :
    ∀ (rest : List GuestRegion) (s : SetProtSt), LoopOk s.done rest →
      (∀ r ∈ rest, start < r.stop) → RegionsOk (setProtLoop hps start stop prot rest s).done := by
  intro rest
  induction rest with
  | nil =>
    intro s h _
    simpa [LoopOk, setProtLoop] using h
  | cons r rest ih =>
    intro s h habove
    have hr : start < r.stop := habove r mem_cons_self
    have hrest : ∀ r ∈ rest, start < r.stop := fun r hr => habove r (mem_cons_of_mem _ hr)
    have hslot : ∀ (q : GuestRegion) (s' : SetProtSt), q.start < stop → LoopOk s'.done (q :: rest) →
        RegionsOk (match setProtSlot hps stop prot q rest s' with
          | .inl s'' => s''
          | .inr s'' => setProtLoop hps start stop prot rest s'').done := by
      intro q s' hq hok
      have := setProtSlot_ok hps prot hq hok
      split
      · rename_i heq
        rw [heq] at this
        exact this
      rename_i heq
      rw [heq] at this
      exact ih _ this hrest
    rw [setProtLoop]
    split
    · exact h
    rename_i h1
    split
    · rename_i h2
      split
      · exact ih _ h.pass hrest
      rename_i h3
      refine hslot _ _ (by simpa using hlt) ?_
      have hsplit := h.split h3 (x := start) (p := guestRegionClipOverlay hps (r.below start))
        (q := guestRegionClipOverlay hps (s.dupBacking (r.above start)).1)
        (by simp) (by simp) ⟨h2, hr⟩
      simpa [LoopOk, SetProtSt.pass] using hsplit
    · exact hslot r s (not_le.mp h1) h

lemma setProtLoop_of_head_above (hps start : ℕ) (prot : ℕ) (s : SetProtSt)
    (h : ∀ r ∈ rest, stop ≤ r.start) :
    setProtLoop hps start stop prot rest s = { s with done := s.done ++ rest } := by
  cases rest with
  | nil => simp [setProtLoop]
  | cons r rest => rw [setProtLoop, if_pos (h r mem_cons_self)]

/-- The range a protection change may be given: proper, or away from every
tracked region. -/
def SetProtRange (t : RegionTable) (start stop : ℕ) : Prop :=
  start < stop ∨ ∀ r ∈ t.regions, r.stop ≤ start ∨ stop ≤ r.start

lemma setProt_ok (h : RegionsOk t.regions) (hrange : SetProtRange t start stop) (prot : ℕ) :
    RegionsOk (guestRegionSetProt t start stop prot).regions := by
  obtain ⟨-, -, habove⟩ := firstEndAbove_spec h.ordered start
  have hall : LoopOk (t.regions.take (guestRegionFirstEndAbove t.regions start))
      (t.regions.drop (guestRegionFirstEndAbove t.regions start)) := by
    rw [LoopOk, take_append_drop]
    exact h
  have hloop : ∀ s : SetProtSt, s.done = t.regions.take (guestRegionFirstEndAbove t.regions start) →
      RegionsOk (setProtLoop t.hostPageSize start stop prot
        (t.regions.drop (guestRegionFirstEndAbove t.regions start)) s).done := by
    intro s hs
    rcases hrange with hlt | hfar
    · exact setProtLoop_ok _ _ hlt _ _ (hs ▸ hall) habove
    rw [setProtLoop_of_head_above]
    · exact hs ▸ hall
    intro r hr
    have := habove r hr
    rcases hfar r (mem_of_mem_drop hr) with hc | hc
    · omega
    · exact hc
  exact setProtMerge_induct tryMergeRight_ok _ (hloop _ rfl)

/-! ### A sample table -/

def fourPages : RegionArgs :=
  { start := 0x1000, stop := 0x5000, gpaBase := 0x1000, prot := 3, flags := 0x22, offset := 0
    name := none, ownedBackingFd := -1, inheritedAtFork := false, vmaId := 0 }

def noFds : HostFds := { dupAnswer := fun _ => -1, dupCalls := 0, closed := [] }

end Elfuse
