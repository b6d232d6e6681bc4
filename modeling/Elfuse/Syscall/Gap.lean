/-
Free address ranges between the tracked regions.

`findFreeGapInner` walks the regions of a window from the bottom up and stops
at the first aligned address with enough room in front of the next region;
`findFreeGap` asks it first from where the last allocation ended. A `Gap` is an
address the search may answer with.

* `findFreeGap_lowest` — the walk answers with the lowest gap or there is none,
  and the hint hides no gap.
-/
import Elfuse.Core.RegionOrder
import Mathlib.Order.Bounds.Basic

namespace Elfuse

open Intervals List Option

/-! ### The search -/

/-- Model of `align_up_ok`; `none` is its 0. -/
def alignUpOk (x align : ℕ) : Option ℕ :=
  if x / align * align ≠ x then
    if (2 ^ 64 - 1) / align ≤ x / align then none else some ((x / align + 1) * align)
  else some (x / align * align)

def windowFits (start length limit : ℕ) : Bool :=
  decide (start ≤ limit) && decide (length ≤ limit - start)

/-- The loop over the regions from here on, with the check behind it. `none` is `UINT64_MAX`,
where no range of one byte or more can start. -/
def gapLoop (length maxAddr align : ℕ) : ℕ → List GuestRegion → Option ℕ
  | gap, [] => if windowFits gap length maxAddr then some gap else none
  | gap, r :: rest =>
    if r.stop ≤ gap then gapLoop length maxAddr align gap rest
    else if maxAddr ≤ r.start then if windowFits gap length maxAddr then some gap else none
    else if windowFits gap length maxAddr ∧ gap + length ≤ r.start then some gap
    else (alignUpOk r.stop align).bind fun gap => gapLoop length maxAddr align gap rest

def findFreeGapInner (rs : List GuestRegion) (length minAddr maxAddr align : ℕ) : Option ℕ :=
  (alignUpOk minAddr align).bind fun gap =>
    gapLoop length maxAddr align gap (rs.drop (guestRegionFirstEndAbove rs gap))

/-- `mmap_rx_gap_hint` and `mmap_rw_gap_hint`. -/
structure GapHints where
  rx : ℕ
  rw : ℕ

def findFreeGap (t : RegionTable) (hints : GapHints) (length minAddr maxAddr align : ℕ) :
    Option ℕ × GapHints :=
  let hint := if minAddr < mmapBase then hints.rx else hints.rw
  let first := if minAddr ≤ hint ∧ hint < maxAddr then
    findFreeGapInner t.regions length hint maxAddr align else none
  let res := first.or (findFreeGapInner t.regions length minAddr maxAddr align)
  (res, res.elim hints fun gap =>
    let next := alignUp (gap + length) t.hostPageSize
    if minAddr < mmapBase then { hints with rx := next } else { hints with rw := next })

/-! ### Gaps -/

/-- A range of `length` bytes at `x` is aligned, inside the window, and meets no region. -/
structure Gap (rs : List GuestRegion) (length minAddr maxAddr align x : ℕ) : Prop where
  aligned : align ∣ x
  above : minAddr ≤ x
  below : x + length ≤ maxAddr
  free : ∀ r ∈ rs, x + length ≤ r.start ∨ r.stop ≤ x

def Finds (S : Set ℕ) : Option ℕ → Prop
  | some r => IsLeast S r
  | none => S = ∅

variable {r : GuestRegion} {x length gap maxAddr align : ℕ}

/-- The next multiple is the first one that is not below `x`; there is none only past the end of
the address space. -/
lemma alignUpOk_cases (x : ℕ) (halign : 0 < align) :
    (∃ y, alignUpOk x align = some y ∧ IsLeast {y | align ∣ y ∧ x ≤ y} y) ∨
      alignUpOk x align = none ∧ ∀ y, align ∣ y → x ≤ y → 2 ^ 64 ≤ y := by
  have hdiv : align * (x / align) + x % align = x := Nat.div_add_mod x align
  have hmod : x % align < align := Nat.mod_lt x halign
  by_cases heq : x / align * align = x
  · refine .inl ⟨x / align * align, if_neg (not_not.mpr heq), ⟨Nat.dvd_mul_left _ _, heq.ge⟩, ?_⟩
    exact fun y hy => heq.trans_le hy.2
  -- `x` is no multiple, so those above it have a larger quotient
  have hnext : ∀ y, align ∣ y → x ≤ y → (x / align + 1) * align ≤ y := by
    rintro _ ⟨k, rfl⟩ hle
    rw [Nat.mul_comm align k]
    refine Nat.mul_le_mul_right align (Nat.lt_of_not_le fun hk => heq ?_)
    have := Nat.mul_le_mul_left align hk
    rw [Nat.mul_comm (x / align)]
    omega
  rw [alignUpOk, if_pos heq]
  -- the source's guard against a wrap of the product
  by_cases htop : (2 ^ 64 - 1) / align ≤ x / align
  · refine .inr ⟨if_pos htop, fun y hy hle => ?_⟩
    have hlt : 2 ^ 64 - 1 < align * (x / align + 1) :=
      (Nat.lt_mul_div_succ _ halign).trans_le (Nat.mul_le_mul_left align (Nat.succ_le_succ htop))
    rw [Nat.mul_comm] at hlt
    exact Nat.le_of_pred_lt (hlt.trans_le (hnext y hy hle))
  · refine .inl ⟨_, if_neg htop, ⟨Nat.dvd_mul_left _ _, ?_⟩, fun y hy => hnext y hy.1 hy.2⟩
    rw [Nat.add_mul, Nat.mul_comm (x / align)]
    omega

lemma windowFits_iff : windowFits gap length maxAddr = true ↔ gap + length ≤ maxAddr := by
  rw [windowFits, Bool.and_eq_true, decide_eq_true_eq, decide_eq_true_eq]
  omega

lemma finds_window (hgap : align ∣ gap) (hfree : ∀ r ∈ rs, maxAddr ≤ r.start) :
    Finds {x | Gap rs length gap maxAddr align x}
      (if windowFits gap length maxAddr then some gap else none) := by
  split
  · rename_i hfits
    have hfits' := windowFits_iff.mp hfits
    refine ⟨⟨hgap, Nat.le_refl gap, hfits', fun r hr => ?_⟩, fun x hx => hx.above⟩
    exact .inl (hfits'.trans (hfree r hr))
  · rename_i hfits
    refine Set.eq_empty_of_forall_notMem fun x hx => hfits (windowFits_iff.mpr ?_)
    exact (Nat.add_le_add_right hx.above length).trans hx.below

lemma gap_cons_iff (h : r.stop ≤ gap) :
    Gap (r :: rest) length gap maxAddr align x ↔ Gap rest length gap maxAddr align x := by
  constructor
  · intro hx
    exact ⟨hx.aligned, hx.above, hx.below, fun s hs => hx.free s (mem_cons_of_mem r hs)⟩
  intro hx
  exact ⟨hx.aligned, hx.above, hx.below,
    forall_mem_cons.mpr ⟨.inr (h.trans hx.above), hx.free⟩⟩

lemma gap_past (hr : gap < r.stop) (hfull : ¬ (gap + length ≤ maxAddr ∧ gap + length ≤ r.start))
    (hin : r.start < maxAddr) (hleast : IsLeast {y | align ∣ y ∧ r.stop ≤ y} gap') :
    Gap (r :: rest) length gap maxAddr align x ↔ Gap rest length gap' maxAddr align x := by
  have hstop : r.stop ≤ gap' := hleast.1.2
  constructor
  · intro hx
    have hpast : r.stop ≤ x := by
      rcases hx.free r mem_cons_self with h | h
      · have := hx.above
        omega
      · exact h
    exact ⟨hx.aligned, hleast.2 ⟨hx.aligned, hpast⟩, hx.below, fun s hs =>
      hx.free s (mem_cons_of_mem r hs)⟩
  · intro hx
    have hwider := (gap_cons_iff hstop).mpr hx
    exact ⟨hx.aligned, (hr.trans_le hstop).le.trans hx.above, hx.below, hwider.free⟩

section

variable (halign : 0 < align) (hmax : maxAddr < 2 ^ 64)

include halign hmax

lemma finds_bind (x : ℕ) (hS : ∀ y ∈ S, align ∣ y ∧ x ≤ y ∧ y ≤ maxAddr)
    (hf : ∀ g, IsLeast {y | align ∣ y ∧ x ≤ y} g → Finds S (f g)) :
    Finds S ((alignUpOk x align).bind f) := by
  rcases alignUpOk_cases x halign with ⟨g, heq, hg⟩ | ⟨heq, hnone⟩
  · rw [heq]
    exact hf g hg
  rw [heq]
  refine Set.eq_empty_of_forall_notMem fun y hy => ?_
  obtain ⟨hdvd, hle, hy⟩ := hS y hy
  exact absurd (hnone y hdvd hle) (by omega)

lemma gapLoop_finds (h : RegionsOrdered rs) (hgap : align ∣ gap) :
    Finds {x | Gap rs length gap maxAddr align x} (gapLoop length maxAddr align gap rs) := by
  -- the candidate moves up with the walk: what is behind it can be forgotten
  induction rs generalizing gap with
  | nil => exact finds_window hgap nofun
  | cons r rest ih =>
    obtain ⟨hr, hrest, hafter⟩ := Ordered.cons_iff.mp h
    rw [gapLoop]
    split
    · rename_i hbelow
      rw [Set.ext fun x => gap_cons_iff hbelow]
      exact ih hrest hgap
    rename_i habove
    split
    · -- the regions from here on are above the window
      rename_i hout
      refine finds_window hgap (forall_mem_cons.mpr ⟨hout, fun s hs => ?_⟩)
      have := hafter s hs
      omega
    rename_i hin
    split
    · -- there is room in front of the region, and no later one starts before it
      rename_i hfits
      refine ⟨⟨hgap, Nat.le_refl gap, windowFits_iff.mp hfits.1,
        forall_mem_cons.mpr ⟨.inl hfits.2, fun s hs => .inl ?_⟩⟩, fun x hx => hx.above⟩
      have := hafter s hs
      omega
    -- too little room: a gap lies behind the region, or nowhere
    rename_i hfull
    rw [windowFits_iff] at hfull
    have hpast : ∀ g, IsLeast {y | align ∣ y ∧ r.stop ≤ y} g → ∀ x,
        Gap (r :: rest) length gap maxAddr align x ↔ Gap rest length g maxAddr align x :=
      fun g hg x => gap_past (Nat.lt_of_not_le habove) hfull (Nat.lt_of_not_le hin) hg
    refine finds_bind halign hmax r.stop (fun x hx => ?_) fun g hg => ?_
    · rcases hx.free r mem_cons_self with hbefore | hbehind
      · have := hx.above
        have := hx.below
        omega
      · exact ⟨hx.aligned, hbehind, by have := hx.below; omega⟩
    · rw [Set.ext (hpast g hg)]
      exact ih hrest hg.1.1

lemma findFreeGapInner_finds (h : RegionsOrdered rs) (length minAddr : ℕ) :
    Finds {x | Gap rs length minAddr maxAddr align x}
      (findFreeGapInner rs length minAddr maxAddr align) := by
  refine finds_bind halign hmax minAddr (fun x hx => ?_) fun g hg => ?_
  · exact ⟨hx.aligned, hx.above, by have := hx.below; omega⟩
  -- the regions that are skipped end below the first multiple
  obtain ⟨-, hbefore, -⟩ := firstEndAbove_spec h g
  have hsame : ∀ x, Gap rs length minAddr maxAddr align x ↔
      Gap (rs.drop (guestRegionFirstEndAbove rs g)) length g maxAddr align x := by
    intro x
    constructor
    · intro hx
      exact ⟨hx.aligned, hg.2 ⟨hx.aligned, hx.above⟩, hx.below, fun r hr =>
        hx.free r (mem_of_mem_drop hr)⟩
    intro hx
    refine ⟨hx.aligned, hg.1.2.trans hx.above, hx.below, fun r hr => ?_⟩
    rw [← take_append_drop (guestRegionFirstEndAbove rs g) rs] at hr
    rcases mem_append.mp hr with hr | hr
    · exact .inr ((hbefore r hr).trans hx.above)
    · exact hx.free r hr
  rw [Set.ext hsame]
  exact gapLoop_finds halign hmax (h.drop _) hg.1.1

end

/-- The search from the bottom of the window answers with the lowest gap, and fails only if there
is none. With any hint, a gap is found if there is one. -/
theorem findFreeGap_lowest {t : RegionTable} {length align maxAddr : ℕ}
    (h : RegionsOrdered t.regions) (halign : 0 < align) (hmax : maxAddr < 2 ^ 64)
    (minAddr : ℕ) (hints : GapHints) :
    (∀ r, findFreeGapInner t.regions length minAddr maxAddr align = some r →
        IsLeast {x | Gap t.regions length minAddr maxAddr align x} r) ∧
      (findFreeGapInner t.regions length minAddr maxAddr align = none →
        ∀ x, ¬ Gap t.regions length minAddr maxAddr align x) ∧
      (∀ r, (findFreeGap t hints length minAddr maxAddr align).1 = some r →
        Gap t.regions length minAddr maxAddr align r) ∧
      ((findFreeGap t hints length minAddr maxAddr align).1 = none →
        ∀ x, ¬ Gap t.regions length minAddr maxAddr align x) := by
  have hinner : ∀ {lo r}, findFreeGapInner t.regions length lo maxAddr align = some r →
      IsLeast {x | Gap t.regions length lo maxAddr align x} r := by
    intro lo r hr
    have hfinds := findFreeGapInner_finds halign hmax h length lo
    rwa [hr] at hfinds
  have hnone : findFreeGapInner t.regions length minAddr maxAddr align = none →
      ∀ x, ¬ Gap t.regions length minAddr maxAddr align x := by
    intro hr x hx
    have hfinds := findFreeGapInner_finds halign hmax h length minAddr
    rw [hr] at hfinds
    exact (Set.eq_empty_iff_forall_notMem.mp hfinds) x hx
  refine ⟨fun r => hinner, hnone, fun r hr => ?_, fun hr => hnone (or_eq_none_iff.mp hr).2⟩
  rcases or_eq_some_iff.mp hr with hfirst | ⟨-, hfull⟩
  · -- the gap above the hint is in the window
    obtain ⟨hhint, hfirst⟩ := ite_none_right_eq_some.mp hfirst
    have hx := (hinner hfirst).1
    exact ⟨hx.aligned, hhint.1.trans hx.above, hx.below, hx.free⟩
  · exact (hinner hfull).1

def twoPages : RegionTable :=
  { RegionTable.empty 16384 ⟨fun _ => -1, 0, []⟩ with
    regions := [0x3000, 0x8000].map fun start =>
      { start := start, stop := start + 4096, gpaBase := start, vmaId := 1, prot := 3, flags := 34
        offset := 0, backingFd := -1, shared := false, noreserve := false, backingRo := false
        inheritedAtFork := false, overlayActive := false, overlayStart := 0, overlayEnd := 0
        name := [] } }

/-- Three pages find room at 0x4000 only, also from a hint above them. -/
theorem findFreeGap_lowest_twoPages :
    findFreeGapInner twoPages.regions 0x3000 0x1000 0xa000 0x4000 = some 0x4000 ∧
      IsLeast {x | Gap twoPages.regions 0x3000 0x1000 0xa000 0x4000 x} 0x4000 ∧
      Gap twoPages.regions 0x3000 0x1000 0xa000 0x4000 0x4000 :=
  have hrun : findFreeGapInner twoPages.regions 0x3000 0x1000 0xa000 0x4000 = some 0x4000 := by
    decide +kernel
  have hall := @findFreeGap_lowest twoPages 0x3000 0x4000 0xa000 (by decide) (by decide)
    (by decide) 0x1000 ⟨0x9000, 0⟩
  ⟨hrun, hall.1 _ hrun, hall.2.2.1 _ (by decide +kernel)⟩

end Elfuse
