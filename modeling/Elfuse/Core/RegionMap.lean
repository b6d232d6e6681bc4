/-
The region table as a partial map from addresses to attributes.

The abstract state is a function: an address has the attributes of the region
covering it, with the backing address and the file offset moved along to the
address (`attrsAt`). Splits, trims and coalescing change the list but not this
function, except where an operation means to.

* `tracker_refines_map` — what each operation does to it, with one way out: on
  a full table a split is dropped and the tracker marked stale.
-/
import Elfuse.Core.RegionOrder

namespace Elfuse

open Intervals List Nat

/-- What the tracker says about one address. -/
structure RegionAttrs where
  prot : ℕ
  flags : ℕ
  name : List UInt8
  vmaId : ℕ
  gpa : ℕ
  /-- File offset; an anonymous mapping has none. -/
  offset : Option ℕ
  noreserve : Bool
  backingRo : Bool
  inheritedAtFork : Bool

def GuestRegion.attrs (r : GuestRegion) (a : ℕ) : RegionAttrs :=
  { prot := r.prot, flags := r.flags, name := r.name, vmaId := r.vmaId
    gpa := u64 (r.gpaBase + (a - r.start))
    offset := if hasFlag r.flags linuxMapAnonymous then none
      else some (u64 (r.offset + (a - r.start)))
    noreserve := r.noreserve, backingRo := r.backingRo
    inheritedAtFork := r.inheritedAtFork }

/-- The partial map a table stands for. -/
def attrsAt (rs : List GuestRegion) (a : ℕ) : Option RegionAttrs :=
  view GuestRegion.start GuestRegion.stop GuestRegion.attrs rs a

variable {rs rest all : List GuestRegion} {r q : GuestRegion} {t t' : RegionTable}
  {a start stop x : ℕ}

/-! ### The attributes of pieces -/

lemma attrsAt_cons : attrsAt (r :: rs) a
    = if r.start ≤ a ∧ a < r.stop then some (r.attrs a) else attrsAt rs a :=
  view_cons

lemma attrsAt_append : attrsAt (l1 ++ l2) a = (attrsAt l1 a).or (attrsAt l2 a) :=
  view_append

@[simp]
lemma clipOverlay_attrs (hps : ℕ) (r : GuestRegion) :
    (guestRegionClipOverlay hps r).attrs a = r.attrs a := by
  obtain ⟨_, _, _, h⟩ := guestRegionClipOverlay_cases hps r
  rw [h]
  rfl

lemma above_attrs (h1 : r.start ≤ x) (h2 : x ≤ a) : (r.above x).attrs a = r.attrs a := by
  have hsum : ∀ n, u64 (u64 (n + (x + 2 ^ 64 - r.start)) + (a - x)) = u64 (n + (a - r.start)) := by
    intro n
    rw [u64_add_u64]
    unfold u64
    omega
  simp only [GuestRegion.attrs, GuestRegion.above, hsum]

def IsPiece (r q : GuestRegion) : Prop :=
  ∀ a, q.start ≤ a → q.attrs a = r.attrs a

lemma isPiece_above (h : r.start ≤ x) : IsPiece r (r.above x) :=
  fun _ ha => above_attrs h ha

lemma IsPiece.clip (h : IsPiece r q) (hps : ℕ) : IsPiece r (guestRegionClipOverlay hps q) := by
  intro a ha
  rw [clipOverlay_attrs]
  rw [guestRegionClipOverlay_start] at ha
  exact h a ha

lemma IsPiece.attrsAt_cons (h : IsPiece r q) :
    attrsAt (q :: rs) a = if q.start ≤ a ∧ a < q.stop then some (r.attrs a) else attrsAt rs a := by
  rw [Elfuse.attrsAt_cons]
  by_cases hin : q.start ≤ a ∧ a < q.stop
  · rw [if_pos hin, if_pos hin, h a hin.1]
  · rw [if_neg hin, if_neg hin]

lemma IsPiece.clip_cons (h : IsPiece r q) (hps : ℕ) :
    attrsAt (guestRegionClipOverlay hps q :: rs) a = if q.start ≤ a ∧ a < q.stop then
      some (r.attrs a) else attrsAt rs a := by
  rw [(h.clip hps).attrsAt_cons, guestRegionClipOverlay_start, guestRegionClipOverlay_stop]

lemma attrsAt_below_cons (hps : ℕ) : attrsAt (guestRegionClipOverlay hps (r.below x) :: rs) a =
    if r.start ≤ a ∧ a < x then some (r.attrs a) else attrsAt rs a :=
  (show IsPiece r (r.below x) from fun _ _ => rfl).clip_cons hps

/-! ### Coalescing leaves the map alone -/

def Proper (rs : List GuestRegion) : Prop := ∀ r ∈ rs, r.start ≤ r.stop

lemma mergeable_attrs (h : regionsMergeable r q) (hr : r.start ≤ r.stop) (ha : q.start ≤ a) :
    q.attrs a = r.attrs a := by
  simp only [regionsMergeable, Bool.and_eq_true, decide_eq_true_eq] at h
  obtain ⟨hvma, hlayout⟩ := h
  obtain ⟨hadj, hgpa, hprot, hflags, -, hnr, hro, hinh, hname, hoff⟩ :=
    regionsMergeableLayout_facts hlayout
  have hmove : ∀ m n, u64 (m + (r.stop - r.start)) = n →
      u64 (n + (a - q.start)) = u64 (m + (a - r.start)) := by
    rintro m n rfl
    rw [u64_add_u64]
    congr 1
    omega
  simp only [GuestRegion.attrs, hvma, hprot, hflags, hnr, hro, hinh, hname, hmove _ _ hgpa]
  rw [hflags] at hoff
  rcases hoff with hanon | hoff
  · simp only [hanon, if_true]
  · rw [hmove _ _ hoff]

lemma tryMergeRight_attrsAt (i : ℕ) (hp : Proper rs) :
    attrsAt (tryMergeRight rs i) a = attrsAt rs a := by
  rcases tryMergeRight_cases rs i with heq | ⟨p, q, hm, hrs, heq⟩
  · rw [heq]
  obtain ⟨-, hpq⟩ := forall_mem_append.mp (hrs ▸ hp)
  obtain ⟨h1, h2, -⟩ := (forall_mem_cons.mp hpq).imp_right forall_mem_cons.mp
  have hadj : p.stop = q.start := by
    simp only [regionsMergeable, Bool.and_eq_true] at hm
    exact (regionsMergeableLayout_facts hm.2).1
  have hpiece : ∀ l, attrsAt ({ p with stop := q.stop } :: l) a = attrsAt (p :: q :: l) a := by
    intro l
    rw [attrsAt_cons, attrsAt_cons, attrsAt_cons]
    change (if p.start ≤ a ∧ a < q.stop then some (p.attrs a) else _) = _
    by_cases hin : p.start ≤ a ∧ a < p.stop
    · rw [if_pos (by omega), if_pos hin]
    rw [if_neg hin]
    by_cases hin2 : q.start ≤ a ∧ a < q.stop
    · rw [if_pos (by omega), if_pos hin2, mergeable_attrs hm h1 hin2.1]
    · rw [if_neg (by omega), if_neg hin2]
  rw [heq, attrsAt_append, hpiece]
  conv_rhs => rw [hrs]
  rw [attrsAt_append]

lemma tryMergeRight_proper (i : ℕ) (hp : Proper rs) : Proper (tryMergeRight rs i) := by
  rcases tryMergeRight_cases rs i with heq | ⟨p, q, hm, hrs, heq⟩
  · rw [heq]
    exact hp
  obtain ⟨hbelow, hpq⟩ := forall_mem_append.mp (hrs ▸ hp)
  obtain ⟨h1, h2, habove⟩ := (forall_mem_cons.mp hpq).imp_right forall_mem_cons.mp
  simp only [regionsMergeable, Bool.and_eq_true] at hm
  have hadj := (regionsMergeableLayout_facts hm.2).1
  rw [heq]
  refine forall_mem_append.mpr ⟨hbelow, forall_mem_cons.mpr ⟨?_, habove⟩⟩
  show p.start ≤ q.stop
  omega

def SameMap (rs rs' : List GuestRegion) : Prop :=
  Proper rs' ∧ ∀ a, attrsAt rs' a = attrsAt rs a

lemma sameMap_refl (hp : Proper rs) : SameMap rs rs := ⟨hp, fun _ => rfl⟩

lemma tryMergeRight_sameMap (l l' : List GuestRegion) (i : ℕ) (h : SameMap l l') :
    SameMap l (tryMergeRight l' i) :=
  ⟨tryMergeRight_proper i h.1, fun a => (tryMergeRight_attrsAt i h.1).trans (h.2 a)⟩

lemma ordered_proper (h : RegionsOrdered rs) : Proper rs :=
  fun r hr => le_of_lt (h.1 r hr)

lemma attrsAt_eq_none (h : ∀ r ∈ rs, a < r.start ∨ r.stop ≤ a) : attrsAt rs a = none :=
  view_eq_none h

lemma attrsAt_tail (h : ∀ q ∈ rest, x ≤ q.start) (ha : a < x) : attrsAt rest a = none :=
  attrsAt_eq_none fun q hq => .inl (lt_of_lt_of_le ha (h q hq))

/-! ### Removal -/

def Straddles (start stop : ℕ) (r : GuestRegion) : Prop :=
  r.start < start ∧ stop < r.stop

lemma tail_above (h : RegionsOrdered (r :: rest)) : ∀ q ∈ rest, r.stop ≤ q.start :=
  (Ordered.cons_iff.mp h).2.2

lemma removeLoop_of_head_above (hps start : ℕ) (full : Bool) (s : RemoveSt)
    (h : ∀ q ∈ rest, stop ≤ q.start) : removeLoop hps start stop full rest s = (rest, s) := by
  cases rest with
  | nil => rfl
  | cons q rest => rw [removeLoop, if_pos (h q mem_cons_self)]

lemma isPiece_right (h : r.start ≤ x) (fd : ℤ) :
    IsPiece r (if 0 ≤ r.backingFd then { r.above x with backingFd := fd } else r.above x) ∧
    (if 0 ≤ r.backingFd then { r.above x with backingFd := fd } else r.above x).start = x ∧
    (if 0 ≤ r.backingFd then { r.above x with backingFd := fd } else r.above x).stop = r.stop := by
  split
  · exact ⟨fun _ ha => isPiece_above h _ ha, rfl, rfl⟩
  · exact ⟨isPiece_above h, rfl, rfl⟩

/-- With room for the split, the loop clears exactly the range. -/
lemma removeLoop_refines (hps : ℕ) (hlt : start < stop) (full : Bool) :
    ∀ (rest : List GuestRegion) (s : RemoveSt), RegionsOrdered rest →
      (∀ r ∈ rest, start < r.stop) → (full → ∀ r ∈ rest, ¬ Straddles start stop r) →
      (removeLoop hps start stop full rest s).2.stale = s.stale ∧
      ∀ a, attrsAt (removeLoop hps start stop full rest s).1 a
        = if start ≤ a ∧ a < stop then none else attrsAt rest a := by
  intro rest
  induction rest with
  | nil =>
    intro s _ _ _
    exact ⟨rfl, fun a => by split <;> rfl⟩
  | cons r rest ih =>
    intro s hord habove hroom
    have hr : start < r.stop := habove r mem_cons_self
    have hne : r.start < r.stop := hord.1 r mem_cons_self
    have htail := tail_above hord
    have ih' := fun s => ih s (Ordered.cons_iff.mp hord).2.1
        (fun q hq => habove q (mem_cons_of_mem _ hq))
      (fun hf q hq => hroom hf q (mem_cons_of_mem _ hq))
    rw [removeLoop]
    split
    · -- the region starts above the range, and so do the rest
      refine ⟨rfl, fun a => ?_⟩
      rw [attrsAt_cons]
      split_ifs with hin hcut <;> first | rfl | omega | exact attrsAt_tail htail (by omega)
    split
    · -- it starts below: a head stays, and a tail where it straddles the range
      rename_i h2
      by_cases h3 : stop < r.stop
      · have hf : full = false := by
          by_contra hc
          exact hroom (by simpa using hc) r mem_cons_self ⟨h2, h3⟩
        rw [if_pos (by simp [h3, hf])]
        refine ⟨rfl, fun a => ?_⟩
        obtain ⟨hq, hqs, hqe⟩ := isPiece_right (r := r) (x := stop) (by omega) s.reserved
        rw [attrsAt_below_cons, hq.clip_cons, attrsAt_cons, hqs, hqe]
        split_ifs <;> first | rfl | omega | exact attrsAt_tail htail (by omega)
      rw [if_neg (by simp [h3])]
      have hs : (s.stale || decide (stop < r.stop)) = s.stale := by simp [h3]
      obtain ⟨hst, hview⟩ := ih' { s with stale := s.stale || decide (stop < r.stop) }
      refine ⟨hst.trans hs, fun a => ?_⟩
      rw [attrsAt_below_cons, attrsAt_cons, hview]
      split_ifs <;> first | rfl | omega
    · -- it starts inside: only a tail can stay
      by_cases h3 : stop < r.stop
      · rw [if_pos h3]
        obtain ⟨hst, hview⟩ := ih' s
        have hright := isPiece_above (r := r) (x := stop) (by omega)
        refine ⟨hst, fun a => ?_⟩
        rw [hright.clip_cons, attrsAt_cons, hview, above_start, above_stop]
        split_ifs <;> first | rfl | omega
      · rw [if_neg h3]
        obtain ⟨hst, hview⟩ := ih' { s with fds := s.fds.closeIfOpen r.backingFd }
        refine ⟨hst, fun a => ?_⟩
        rw [attrsAt_cons, hview]
        split_ifs <;> first | rfl | omega

lemma removeLoop_full (hps : ℕ) (s : RemoveSt) (hord : RegionsOrdered (r :: rest))
    (hr : Straddles start stop r) (hlt : start < stop) :
    (removeLoop hps start stop true (r :: rest) s).2.stale ∧
    ∀ a, attrsAt (removeLoop hps start stop true (r :: rest) s).1 a
      = if start ≤ a ∧ a < r.stop then none else attrsAt (r :: rest) a := by
  obtain ⟨h2, h3⟩ := hr
  have htail := tail_above hord
  rw [removeLoop, if_neg (by omega), if_pos h2, if_neg (by simp)]
  rw [removeLoop_of_head_above hps start true _ fun q hq => by have := htail q hq; omega]
  refine ⟨by simp [h3], fun a => ?_⟩
  rw [attrsAt_below_cons, attrsAt_cons]
  split_ifs <;> first | rfl | omega | exact attrsAt_tail htail (by omega)

/-- What a removal does to the map: it clears the range; on a full table that
would need a split it clears up to the end of the straddling region instead and
marks the tracker stale. -/
def RemoveRefines (t t' : RegionTable) (start stop : ℕ) : Prop :=
  (t'.regionsTrackerStale = t.regionsTrackerStale ∧ ∀ a, attrsAt t'.regions a
    = if start ≤ a ∧ a < stop then none else attrsAt t.regions a) ∨
  (t.regions.length = guestMaxRegions ∧ t'.regionsTrackerStale = true ∧
    ∃ r ∈ t.regions, Straddles start stop r ∧ ∀ a, attrsAt t'.regions a
      = if start ≤ a ∧ a < r.stop then none else attrsAt t.regions a)

lemma removeReserved_refines (h : RegionsOk t.regions) (start stop : ℕ) (fd : ℤ) :
    RemoveRefines t (guestRegionRemoveReserved t start stop fd) start stop := by
  unfold guestRegionRemoveReserved
  by_cases hlt : stop ≤ start
  · rw [if_pos hlt]
    exact .inl ⟨rfl, fun a => by rw [if_neg (by omega)]⟩
  rw [if_neg hlt]
  obtain ⟨-, hbefore, habove⟩ := firstEndAbove_spec h.ordered start
  set i := guestRegionFirstEndAbove t.regions start
  have hsplit : t.regions = t.regions.take i ++ t.regions.drop i :=
    (take_append_drop i t.regions).symm
  have hord : RegionsOrdered (t.regions.drop i) := Ordered.drop h.ordered i
  -- the slots before `i` end below the range, so they see nothing of it
  have hpre : ∀ a, start ≤ a → attrsAt (t.regions.take i) a = none := fun a ha =>
    attrsAt_eq_none fun q hq => .inr (le_trans (hbefore q hq) ha)
  have hglue : ∀ (out : List GuestRegion) (e : ℕ),
      (∀ a, attrsAt out a = if start ≤ a ∧ a < e then none else attrsAt (t.regions.drop i) a) →
      ∀ a, attrsAt (t.regions.take i ++ out) a
        = if start ≤ a ∧ a < e then none else attrsAt t.regions a := by
    intro out e hout a
    conv_rhs => rw [hsplit]
    rw [attrsAt_append, attrsAt_append, hout]
    split_ifs with hin
    · rw [hpre a hin.1]
      rfl
    · rfl
  by_cases hdrop : guestMaxRegions ≤ t.regions.length ∧
      ∃ r ∈ t.regions.drop i, Straddles start stop r
  · obtain ⟨hfull, r, hr, hstr⟩ := hdrop
    -- a straddling region is the first one that ends above `start`
    obtain ⟨rest, hd⟩ : ∃ rest, t.regions.drop i = r :: rest := by
      cases hd : t.regions.drop i with
      | nil => rw [hd] at hr; simp at hr
      | cons q rest =>
        rw [hd] at hr hord habove
        rcases mem_cons.mp hr with rfl | hr
        · exact ⟨rest, rfl⟩
        have h1 := tail_above hord r hr
        have h2 := habove q mem_cons_self
        have h3 := hstr.1
        omega
    have hlen : t.regions.length = guestMaxRegions := le_antisymm h.bounded hfull
    rw [hd] at hord
    obtain ⟨hst, hview⟩ := removeLoop_full t.hostPageSize
      { stale := t.regionsTrackerStale, fds := t.fds, reserved := fd } hord hstr
      (not_le.mp hlt)
    refine .inr ⟨hlen, ?_, r, mem_of_mem_drop (hd ▸ mem_cons_self), hstr, ?_⟩
    · simp only [hfull, decide_true, hd]
      exact hst
    simp only [hfull, decide_true]
    refine hglue _ _ ?_
    rw [hd]
    exact hview
  · obtain ⟨hst, hview⟩ := removeLoop_refines t.hostPageSize (not_le.mp hlt)
      (decide (guestMaxRegions ≤ t.regions.length)) (t.regions.drop i)
      { stale := t.regionsTrackerStale, fds := t.fds, reserved := fd } hord habove
      (fun hf r hr hstr => hdrop ⟨by simpa using hf, r, hr, hstr⟩)
    exact .inl ⟨hst, hglue _ _ hview⟩

lemma removePrepare_stale (t : RegionTable) (start stop : ℕ) :
    (guestRegionRemovePrepare t start stop).2.2.regionsTrackerStale = t.regionsTrackerStale := by
  unfold guestRegionRemovePrepare
  split <;> rfl

/-- A removal clears its range; one that fails for want of a descriptor changes
nothing. -/
lemma remove_refines (h : RegionsOk t.regions) (start stop : ℕ) :
    (guestRegionRemove t start stop).1 = 0 ∧
      RemoveRefines t (guestRegionRemove t start stop).2 start stop ∨
    (guestRegionRemove t start stop).1 = -1 ∧
      (guestRegionRemove t start stop).2.regions = t.regions := by
  have hp := removePrepare_regions t start stop
  have hs := removePrepare_stale t start stop
  unfold guestRegionRemove
  dsimp only
  split
  · exact .inr ⟨rfl, hp⟩
  left
  refine ⟨rfl, ?_⟩
  have := removeReserved_refines (t := (guestRegionRemovePrepare t start stop).2.2)
    (hp ▸ h) start stop (guestRegionRemovePrepare t start stop).2.1
  unfold RemoveRefines at this ⊢
  rwa [hp, hs] at this

/-! ### Protection changes -/

def Reprot (start stop prot : ℕ) (before after : List GuestRegion) : Prop :=
  ∀ a, attrsAt after a = (attrsAt before a).map fun x =>
    if start ≤ a ∧ a < stop then { x with prot := prot } else x

/-- A split a protection change needs finds the table full: at the start of the
range, or at its end, possibly because the split at the start took the last
slot. -/
def SplitDropped (rs : List GuestRegion) (start stop : ℕ) : Prop :=
  (rs.length = guestMaxRegions ∧ ∃ r ∈ rs, r.start < start ∧ start < r.stop) ∨
  ((rs.length = guestMaxRegions ∨ rs.length + 1 = guestMaxRegions ∧
      ∃ q ∈ rs, q.start < start ∧ start < q.stop) ∧
    ∃ r ∈ rs, r.start < stop ∧ stop < r.stop)

lemma dupBacking_isPiece (s : SetProtSt) (h : IsPiece r q) : IsPiece r (s.dupBacking q).1 := by
  unfold SetProtSt.dupBacking
  split
  · exact fun a ha => h a ha
  · exact h

@[simp]
lemma dupBacking_stale (s : SetProtSt) (r : GuestRegion) : (s.dupBacking r).2.stale = s.stale := by
  unfold SetProtSt.dupBacking
  split <;> rfl

lemma setProtSlot_cases (hps stop prot : ℕ) (q : GuestRegion) (rest : List GuestRegion)
    (s : SetProtSt) : (∃ s', setProtSlot hps stop prot q rest s = .inr s' ∧
      s'.done = s.done ++ [{ q with prot := prot }] ∧
      (q.stop ≤ stop ∧ s'.stale = s.stale ∨ stop < q.stop ∧ s'.stale ∧
        guestMaxRegions ≤ s.done.length + 1 + rest.length)) ∨
    (∃ s' right, setProtSlot hps stop prot q rest s = .inl s' ∧ stop < q.stop ∧ s'.done = s.done ++
        guestRegionClipOverlay hps { q.below stop with prot := prot } ::
        guestRegionClipOverlay hps right :: rest ∧
      s'.stale = s.stale ∧ (q.start ≤ stop → IsPiece q right) ∧ right.start = stop ∧
      right.stop = q.stop) := by
  unfold setProtSlot
  by_cases h1 : stop < q.stop
  · rw [if_pos h1]
    split
    · rename_i h2
      exact .inl ⟨_, rfl, rfl, .inr ⟨h1, rfl, h2⟩⟩
    refine .inr ⟨_, _, rfl, h1, ?_, ?_, fun hq => dupBacking_isPiece s (isPiece_above hq),
      by simp, by simp⟩
    · simp [SetProtSt.modify]
    · simp [SetProtSt.modify]
  · rw [if_neg h1]
    exact .inl ⟨_, rfl, rfl, .inl ⟨not_lt.mp h1, rfl⟩⟩

def LoopRefines (all : List GuestRegion) (start stop prot : ℕ) (rest : List GuestRegion)
    (s s' : SetProtSt) : Prop :=
  ∃ out, s'.done = s.done ++ out ∧ Proper out ∧
    (s'.stale = s.stale ∧ Reprot start stop prot rest out ∨
      s'.stale = true ∧ SplitDropped all start stop)

/-- How many slots there are while the loop runs: as many as at the start, or
one more once the split at the start of the range is made. -/
def LoopLen (all : List GuestRegion) (start : ℕ) (n : ℕ) : Prop :=
  n = all.length ∨ n = all.length + 1 ∧ ∃ q ∈ all, q.start < start ∧ start < q.stop

lemma attrs_setProt (q : GuestRegion) (prot a : ℕ) :
    ({ q with prot := prot } : GuestRegion).attrs a = { q.attrs a with prot := prot } := rfl

/-- One slot from the start of the range on, and then the slots behind it. The
slot is `q`, a piece of the table's `r` that begins no earlier than the range. -/
lemma setProtSlot_refines (hps prot : ℕ) {s : SetProtSt} (hbound : all.length ≤ guestMaxRegions)
    (hmem : r ∈ all) (hrstop : r.start < stop) (hpiece : IsPiece r q)
    (hq : start ≤ q.start ∧ q.start ≤ stop) (hqstop : q.stop = r.stop) (hqne : q.start ≤ q.stop)
    (htail : ∀ p ∈ rest, r.stop ≤ p.start) (hproper : Proper rest)
    (hlen : LoopLen all start (s.done.length + 1 + rest.length))
    (ih : ∀ s', LoopLen all start (s'.done.length + rest.length) →
      LoopRefines all start stop prot rest s' (setProtLoop hps start stop prot rest s'))
    {s1 : SetProtSt} (hs1 : (match setProtSlot hps stop prot q rest s with
        | .inl s' => s'
        | .inr s' => setProtLoop hps start stop prot rest s') = s1) :
    ∃ out, s1.done = s.done ++ out ∧ Proper out ∧ (s1.stale = s.stale ∧
        (∀ a, attrsAt out a = if q.start ≤ a ∧ a < q.stop then
            some (if a < stop then { r.attrs a with prot := prot } else r.attrs a)
          else (attrsAt rest a).map fun x =>
            if start ≤ a ∧ a < stop then { x with prot := prot } else x) ∨
      s1.stale ∧ SplitDropped all start stop) := by
  subst hs1
  rcases setProtSlot_cases hps stop prot q rest s with
    ⟨s', hslot, hdone, hcase⟩ | ⟨s', right, hslot, hend, hdone, hst, hright, hrs, hre⟩
  · rw [hslot]
    have hlen' : LoopLen all start (s'.done.length + rest.length) := by
      rw [hdone, length_append]
      exact hlen
    obtain ⟨out, hout, hp, hres⟩ := ih s' hlen'
    refine ⟨{ q with prot := prot } :: out, ?_, forall_mem_cons.mpr ⟨hqne, hp⟩, ?_⟩
    · rw [hout, hdone, append_assoc]
      rfl
    rcases hcase with ⟨hle, hst⟩ | ⟨hgt, hst, hfull⟩
    · rcases hres with ⟨hst', hview⟩ | hdrop
      · refine .inl ⟨hst'.trans hst, fun a => ?_⟩
        rw [attrsAt_cons, hview a, attrs_setProt]
        by_cases hin : q.start ≤ a ∧ a < q.stop
        · rw [if_pos hin, if_pos hin, if_pos (by omega), hpiece a hin.1]
        · rw [if_neg hin, if_neg hin]
      · exact .inr hdrop
    -- the split at the end was dropped: the table was full
    have hdropped : SplitDropped all start stop := by
      refine .inr ⟨?_, r, hmem, hrstop, by omega⟩
      rcases hlen with h | ⟨h, hq'⟩
      · exact .inl (by omega)
      by_cases hmax : all.length = guestMaxRegions
      · exact .inl hmax
      · exact .inr ⟨by omega, hq'⟩
    refine .inr ⟨?_, hdropped⟩
    rcases hres with ⟨hst', -⟩ | ⟨hst', -⟩
    · exact hst'.trans hst
    · exact hst'
  · rw [hslot]
    refine ⟨_, hdone, ?_, .inl ⟨hst, fun a => ?_⟩⟩
    · refine forall_mem_cons.mpr ⟨by simpa using hq.2, forall_mem_cons.mpr ⟨?_, hproper⟩⟩
      simp [hrs, hre]
      omega
    have hl : ({ q.below stop with prot := prot } : GuestRegion).attrs a
        = { q.attrs a with prot := prot } := rfl
    rw [attrsAt_cons, (hright hq.2).clip_cons, clipOverlay_attrs, hl]
    simp only [guestRegionClipOverlay_start, guestRegionClipOverlay_stop, below_start,
      below_stop, hrs, hre]
    by_cases hin : q.start ≤ a ∧ a < q.stop
    · rw [if_pos hin, hpiece a hin.1]
      split_ifs <;> first | rfl | omega
    rw [if_neg hin, if_neg (by omega), if_neg (by omega)]
    by_cases hrange : start ≤ a ∧ a < stop
    · rw [attrsAt_tail htail (by omega)]
      rfl
    · simp only [if_neg hrange, Option.map_id']

lemma setProtLoop_refines (hps prot : ℕ) (hle : start ≤ stop)
    (hbound : all.length ≤ guestMaxRegions) :
    ∀ (rest : List GuestRegion) (s : SetProtSt), RegionsOrdered rest → rest ⊆ all →
      (∀ r ∈ rest, start < r.stop) → LoopLen all start (s.done.length + rest.length) →
      -- the split at the start is still to come
      ((∃ r ∈ rest, r.start < start) → s.done.length + rest.length = all.length) →
      LoopRefines all start stop prot rest s (setProtLoop hps start stop prot rest s) := by
  intro rest
  induction rest with
  | nil =>
    intro s _ _ _ _ _
    exact ⟨[], by simp [setProtLoop], by simp [Proper], .inl ⟨rfl, fun a => rfl⟩⟩
  | cons r rest ih =>
    intro s hord hsub habove hlen hfirst
    have hr : start < r.stop := habove r mem_cons_self
    have hne : r.start < r.stop := hord.1 r mem_cons_self
    have hmem : r ∈ all := hsub mem_cons_self
    have htail := tail_above hord
    have hrest : RegionsOrdered rest := (Ordered.cons_iff.mp hord).2.1
    have hlen1 : LoopLen all start (s.done.length + 1 + rest.length) := by
      rwa [length_cons, Nat.add_comm rest.length, ← Nat.add_assoc] at hlen
    have ih' := fun s' hl => ih s' hrest (fun _ hp => hsub (mem_cons_of_mem _ hp))
      (fun p hp => habove p (mem_cons_of_mem _ hp)) hl
      (by rintro ⟨p, hp, hlt⟩; have := htail p hp; omega)
    rw [setProtLoop]
    split
    · refine ⟨r :: rest, rfl, ordered_proper hord, .inl ⟨rfl, fun a => ?_⟩⟩
      by_cases hin : start ≤ a ∧ a < stop
      · rw [attrsAt_eq_none fun p hp => .inl ?_]
        · rfl
        rcases mem_cons.mp hp with rfl | hp
        · omega
        · have := htail p hp
          omega
      · simp only [if_neg hin, Option.map_id']
    rename_i h1
    split
    · rename_i h2
      by_cases h3 : guestMaxRegions ≤ s.done.length + 1 + rest.length
      · -- the split at the start was dropped: the table was full from the beginning
        rw [if_pos h3]
        obtain ⟨out, hout, hp, hres⟩ := ih' { s.pass r with stale := true } (by
          simpa [SetProtSt.pass] using hlen1)
        refine ⟨r :: out, ?_, forall_mem_cons.mpr ⟨by omega, hp⟩, .inr ⟨?_, ?_⟩⟩
        · rw [hout]
          simp [SetProtSt.pass]
        · rcases hres with ⟨hst, -⟩ | ⟨hst, -⟩ <;> exact hst
        · have := hfirst ⟨r, mem_cons_self, h2⟩
          rw [length_cons] at this
          exact .inl ⟨by omega, r, hmem, h2, hr⟩
      rw [if_neg h3]
      have hall := hfirst ⟨r, mem_cons_self, h2⟩
      rw [length_cons] at hall
      have hpiece : IsPiece r (guestRegionClipOverlay hps (s.dupBacking (r.above start)).1) :=
        (dupBacking_isPiece s (isPiece_above (Nat.le_of_lt h2))).clip hps
      obtain ⟨out, hout, hp, hres⟩ := setProtSlot_refines hps prot
        (s := (s.dupBacking (r.above start)).2.pass (guestRegionClipOverlay hps (r.below start)))
        hbound hmem (Nat.not_le.mp h1) hpiece (by simp [hle]) (by simp)
        (by simpa using Nat.le_of_lt hr) htail (ordered_proper hrest)
        (.inr ⟨by simp [SetProtSt.pass]; omega, r, hmem, h2, hr⟩) ih' rfl
      refine ⟨guestRegionClipOverlay hps (r.below start) :: out, ?_, ?_, ?_⟩
      · refine hout.trans ?_
        simp [SetProtSt.pass]
      · exact forall_mem_cons.mpr ⟨by simpa using Nat.le_of_lt h2, hp⟩
      refine hres.imp (fun h => ⟨?_, fun a => ?_⟩) id
      · exact h.1.trans (by simp [SetProtSt.pass])
      rw [attrsAt_below_cons, h.2 a, attrsAt_cons]
      simp only [guestRegionClipOverlay_start, guestRegionClipOverlay_stop, dupBacking_start,
        dupBacking_stop, above_start, above_stop]
      split_ifs <;> first | rfl | omega
    · obtain ⟨out, hout, hp, hres⟩ := setProtSlot_refines hps prot hbound hmem (by omega)
        (fun _ _ => rfl) ⟨by omega, by omega⟩ rfl (by omega) htail (ordered_proper hrest) hlen1
        ih' rfl
      refine ⟨out, hout, hp, hres.imp (fun h => ⟨h.1, fun a => ?_⟩) id⟩
      rw [h.2 a, attrsAt_cons]
      split_ifs <;> first | rfl | omega

/-- A protection change rewrites `prot` on the covered part of its range; a
dropped split leaves the tracker marked stale. -/
lemma setProt_refines (h : RegionsOk t.regions) (hle : start ≤ stop) (prot : ℕ) :
    ((guestRegionSetProt t start stop prot).regionsTrackerStale = t.regionsTrackerStale ∧
      Reprot start stop prot t.regions (guestRegionSetProt t start stop prot).regions) ∨
    ((guestRegionSetProt t start stop prot).regionsTrackerStale ∧
      SplitDropped t.regions start stop) := by
  obtain ⟨-, hbefore, habove⟩ := firstEndAbove_spec h.ordered start
  have hsplit := take_append_drop (guestRegionFirstEndAbove t.regions start) t.regions
  unfold guestRegionSetProt
  set i := guestRegionFirstEndAbove t.regions start
  set s0 : SetProtSt := ⟨t.regions.take i, none, 0, t.regionsTrackerStale, t.fds⟩
  have hlen : s0.done.length + (t.regions.drop i).length = t.regions.length := by
    rw [← length_append]
    exact congrArg length hsplit
  obtain ⟨out, hout, hp, hres⟩ := setProtLoop_refines t.hostPageSize prot hle h.bounded
    (t.regions.drop i) s0 (Ordered.drop h.ordered i) (drop_subset _ _) habove (.inl hlen)
    (fun _ => hlen)
  set s := setProtLoop t.hostPageSize start stop prot (t.regions.drop i) s0
  -- whatever is coalesced afterwards stands for the same map
  have hmerged : SameMap s.done (setProtMerge s) := by
    have hdone : Proper s.done := by
      rw [hout]
      exact forall_mem_append.mpr
        ⟨fun r hr => ordered_proper h.ordered r (mem_of_mem_take hr), hp⟩
    exact setProtMerge_induct (tryMergeRight_sameMap _) _ (sameMap_refl hdone)
  rcases hres with ⟨hst, hview⟩ | hdrop
  · refine .inl ⟨hst, fun a => ?_⟩
    rw [hmerged.2 a, hout, attrsAt_append, hview a]
    conv_rhs => rw [← hsplit, attrsAt_append]
    by_cases hin : start ≤ a
    · have hnone : attrsAt s0.done a = none := attrsAt_eq_none fun q hq =>
        .inr (le_trans (hbefore q hq) hin)
      rw [hnone, Option.none_or, Option.none_or]
    · simp only [hin, false_and, if_false, Option.map_id']
      rfl
  · exact .inr hdrop

/-! ### Insertion -/

/-- The attributes an insertion gives to the addresses of its range. -/
def RegionArgs.attrs (x : RegionArgs) (vmaId a : ℕ) : RegionAttrs :=
  { prot := x.prot, flags := x.flags, name := ((x.name.getD []).take 63), vmaId := vmaId
    gpa := u64 (x.gpaBase + (a - x.start))
    offset := if hasFlag x.flags linuxMapAnonymous then none
      else some (u64 (x.offset + (a - x.start)))
    noreserve := hasFlag x.flags linuxMapNoreserve, backingRo := false
    inheritedAtFork := x.inheritedAtFork }

lemma toRegion_attrs (x : RegionArgs) (v : ℕ) : (x.toRegion v).attrs a = x.attrs v a := by
  have hname : ((x.name.map strCopyTrunc).getD []) = (x.name.getD []).take 63 := by
    cases x.name <;> rfl
  simp only [GuestRegion.attrs, RegionArgs.attrs, RegionArgs.toRegion, hname]

/-- An insertion gives its range the caller's attributes and leaves every other
address alone; a full table refuses it and stays as it is. -/
lemma add_refines {x : RegionArgs} (h : RegionsOk t.regions) (hx : AddRange t x.start x.stop) :
    ((guestRegionAddExOwnedGpa t x).1 = 0 ∧ ∃ v, VmaIdSource t x v ∧
      ∀ a, attrsAt (guestRegionAddExOwnedGpa t x).2.regions a
        = if x.start ≤ a ∧ a < x.stop then some (x.attrs v a) else attrsAt t.regions a) ∨
    ((guestRegionAddExOwnedGpa t x).1 = -1 ∧ t.regions.length = guestMaxRegions ∧
      (guestRegionAddExOwnedGpa t x).2.regions = t.regions) := by
  rcases add_cases t x with ⟨hfull, heq⟩ | ⟨-, v, next, hv, heq⟩
  · rw [heq]
    exact .inr ⟨rfl, le_antisymm h.bounded hfull, rfl⟩
  rw [heq]
  refine .inl ⟨rfl, v, hv, fun a => ?_⟩
  have hins := insert_ordered h.ordered hx v
  have hsame : SameMap _ _ := tryMergeLeft_induct (tryMergeRight_sameMap _) _
    (regionLowerBoundStart t.regions x.start) (tryMergeRight_sameMap _ _
      (regionLowerBoundStart t.regions x.start) (sameMap_refl (ordered_proper hins)))
  rw [hsame.2 a]
  by_cases hin : x.start ≤ a ∧ a < x.stop
  · rw [if_pos hin, ← toRegion_attrs]
    exact Ordered.view_of_mem hins (by simp) hin
  rw [if_neg hin, attrsAt_append, attrsAt_cons,
    if_neg (show ¬ ((x.toRegion v).start ≤ a ∧ a < (x.toRegion v).stop) from hin)]
  conv_rhs => rw [← take_append_drop (regionLowerBoundStart t.regions x.start) t.regions,
    attrsAt_append]

/-- The tracker refines the partial map: removal clears its range, a protection
change rewrites `prot` on the covered part of its range, an insertion gives its
range the caller's attributes (label cut to 63 bytes, lineage possibly a
neighbour's), and no other address changes. The one deviation is a split that a
full table drops, which leaves the tracker marked stale. -/
theorem tracker_refines_map (t : RegionTable) (h : RegionsOk t.regions) :
    (∀ start stop, (guestRegionRemove t start stop).1 = 0 ∧
        RemoveRefines t (guestRegionRemove t start stop).2 start stop ∨
      (guestRegionRemove t start stop).1 = -1 ∧
        (guestRegionRemove t start stop).2.regions = t.regions) ∧
    (∀ start stop prot, start ≤ stop →
      (∀ a, attrsAt (guestRegionSetProt t start stop prot).regions a
        = (attrsAt t.regions a).map fun x =>
          if start ≤ a ∧ a < stop then { x with prot := prot } else x) ∨
      (guestRegionSetProt t start stop prot).regionsTrackerStale ∧
        SplitDropped t.regions start stop) ∧
    (∀ x : RegionArgs, AddRange t x.start x.stop →
      ((guestRegionAddExOwnedGpa t x).1 = 0 ∧ ∃ v, VmaIdSource t x v ∧
        ∀ a, attrsAt (guestRegionAddExOwnedGpa t x).2.regions a
          = if x.start ≤ a ∧ a < x.stop then some (x.attrs v a) else attrsAt t.regions a) ∨
      ((guestRegionAddExOwnedGpa t x).1 = -1 ∧ t.regions.length = guestMaxRegions ∧
        (guestRegionAddExOwnedGpa t x).2.regions = t.regions)) :=
  ⟨fun start stop => remove_refines h start stop,
    fun _ _ prot hle => (setProt_refines h hle prot).imp_left And.right,
    fun _ hx => add_refines h hx⟩

/-- The middle page of a four-page mapping is removed. -/
theorem tracker_refines_map_hole :
    RegionsOk (guestRegionAddExOwnedGpa (RegionTable.empty 16384 noFds) fourPages).2.regions ∧
    RemoveRefines (guestRegionAddExOwnedGpa (RegionTable.empty 16384 noFds) fourPages).2
      (guestRegionRemove (guestRegionAddExOwnedGpa (RegionTable.empty 16384 noFds) fourPages).2
        0x2000 0x3000).2 0x2000 0x3000 := by
  have hok : RegionsOk
      (guestRegionAddExOwnedGpa (RegionTable.empty 16384 noFds) fourPages).2.regions :=
    ⟨by decide, by decide⟩
  refine ⟨hok, ?_⟩
  rcases (tracker_refines_map _ hok).1 0x2000 0x3000 with ⟨-, h⟩ | ⟨h, -⟩
  · exact h
  · exact absurd h (by decide)

def fileTable : RegionTable :=
  (guestRegionAddExOwnedGpa (RegionTable.empty 16384 noFds)
    { fourPages with ownedBackingFd := 5 }).2

/-- So many pages, every other one from 0x10000 on. -/
def everyOther (n : ℕ) : List GuestRegion :=
  (List.range n).map fun i =>
    { fourPages.toRegion 1 with start := 0x10000 + 0x2000 * i, stop := 0x11000 + 0x2000 * i }

lemma everyOther_ok (n : ℕ) : RegionsOrdered (everyOther n) ∧ (everyOther n).length = n ∧
    ∀ r ∈ everyOther n, 0x10000 ≤ r.start := by
  refine ⟨⟨fun r hr => ?_, pairwise_map.mpr (pairwise_lt_range.imp fun hij => ?_)⟩,
    by simp [everyOther], fun r hr => ?_⟩
  · obtain ⟨i, -, rfl⟩ := mem_map.mp hr
    dsimp only
    omega
  · dsimp only
    omega
  · obtain ⟨i, -, rfl⟩ := mem_map.mp hr
    dsimp only
    omega

def everyOtherTable (n : ℕ) : RegionTable :=
  { RegionTable.empty 16384 noFds with regions := everyOther n }

lemma everyOther_full (n : ℕ) (hn : n = guestMaxRegions) :
    RegionsOk (everyOtherTable n).regions ∧
    AddRange (everyOtherTable n) fourPages.start fourPages.stop ∧
    (guestRegionAddExOwnedGpa (everyOtherTable n) fourPages).1 = -1 ∧
    attrsAt (guestRegionAddExOwnedGpa (everyOtherTable n) fourPages).2.regions 0x1000 = none := by
  obtain ⟨hord, hlen, habove⟩ := everyOther_ok n
  have hout : ∀ r ∈ everyOther n, fourPages.stop ≤ r.start :=
    fun r hr => le_trans (by decide) (habove r hr)
  have hmax : guestMaxRegions ≤ (everyOtherTable n).regions.length := (hlen.trans hn).ge
  rw [guestRegionAddExOwnedGpa, if_pos hmax]
  exact ⟨⟨hord, (hlen.trans hn).le⟩, ⟨by decide, fun r hr => .inr (hout r hr)⟩, rfl,
    attrsAt_eq_none fun r hr => .inl (lt_of_lt_of_le (by decide) (hout r hr))⟩

/-- A label of 64 bytes loses its last one; a hole in a file mapping is not made when the descriptor
cannot be duplicated; and a full table takes no new range. -/
theorem add_cuts_label :
    (attrsAt (guestRegionAddExOwnedGpa (RegionTable.empty 16384 noFds)
      { fourPages with name := some (replicate 64 0x61) }).2.regions 0x1000).map
        RegionAttrs.name ≠ some (replicate 64 0x61) ∧
    (guestRegionRemove fileTable 0x2000 0x3000).1 = -1 ∧
      attrsAt (guestRegionRemove fileTable 0x2000 0x3000).2.regions 0x2000 ≠ none ∧
    RegionsOk (everyOtherTable guestMaxRegions).regions ∧
      AddRange (everyOtherTable guestMaxRegions) fourPages.start fourPages.stop ∧
      (guestRegionAddExOwnedGpa (everyOtherTable guestMaxRegions) fourPages).1 = -1 ∧
      attrsAt (guestRegionAddExOwnedGpa (everyOtherTable guestMaxRegions) fourPages).2.regions
        0x1000 = none :=
  ⟨by decide, by decide, by decide, everyOther_full guestMaxRegions rfl⟩

end Elfuse
