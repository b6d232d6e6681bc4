/-
The segments of an ELF image at boot.

The loader records the PT_LOAD headers, sorts them by address and refuses
images whose segments share bytes; the boot path then describes the image
twice, once to the page-table builder (`appendElfSegmentRegions`) and once to
the region tracker (`registerElfSegmentRegions`). Segments may share a page.
The tracker gives it to the last of them because each registration removes
what it covers; the builder because a region leaves its last page to the one
that starts there.

* `boot_views_agree` — both views agree on every page of the image, and a page
  of no region is not mapped.
-/
import Elfuse.Core.BuildSpec
import Elfuse.Core.RegionMap

namespace Elfuse

open List

/-! ### The segments -/

/-- Model of `elf_segment_t`; also the fields of a PT_LOAD header it is made from. -/
structure ElfSegment where
  gpa : ℕ
  offset : ℕ
  filesz : ℕ
  memsz : ℕ
  flags : ℕ
  deriving DecidableEq, Repr

def elfMaxSegments : ℕ := 16

def pfX : ℕ := 1
def pfW : ℕ := 2

/-- Model of `elf_pf_to_prot`: always readable. -/
def elfPfToProt (pf : ℕ) : ℕ :=
  1 ||| (if hasFlag pf pfW then 2 else 0) ||| (if hasFlag pf pfX then 4 else 0)

/-- Model of `elf_record_load`: `none` refuses the image, a header that maps no
bytes is ignored. -/
def elfRecordLoad (fileSize : ℕ) (segs : List ElfSegment) (ph : ElfSegment) :
    Option (List ElfSegment) :=
  if ph.memsz = 0 then some segs
  else if ph.memsz < ph.filesz then none
  else if ph.filesz ≠ 0 ∧ (2 ^ 64 ≤ ph.offset + ph.filesz ∨ fileSize < ph.offset + ph.filesz) then
    none
  else if elfMaxSegments ≤ segs.length then none
  else if 2 ^ 64 ≤ ph.gpa + ph.memsz then none
  else some (segs ++ [ph])

/-- The insertion step of `elf_sort_segments`, on the sorted part read from its end. -/
def insertSegment (seg : ElfSegment) : List ElfSegment → List ElfSegment
  | [] => [seg]
  | x :: xs => if seg.gpa < x.gpa then x :: insertSegment seg xs else seg :: x :: xs

def elfSortSegments (segs : List ElfSegment) : List ElfSegment :=
  (segs.foldl (fun sorted seg => insertSegment seg sorted) []).reverse

/-- The loop of `elf_first_overlap`, from index `i` on. -/
def overlapFrom (i : ℕ) : List ElfSegment → Option ℕ
  | a :: b :: rest =>
    if b.gpa < u64 (a.gpa + a.memsz) then some i else overlapFrom (i + 1) (b :: rest)
  | _ => none

/-- Model of `elf_first_overlap`; its `-1` is `none`. -/
def elfFirstOverlap (segs : List ElfSegment) : Option ℕ := overlapFrom 1 segs

/-- The part of `elf_load_fd` that decides about the PT_LOAD headers. -/
def elfLoadSegments (fileSize : ℕ) (phs : List ElfSegment) : Option (List ElfSegment) :=
  (phs.foldlM (elfRecordLoad fileSize) []).bind fun segs =>
    if segs = [] then none
    else if (elfFirstOverlap (elfSortSegments segs)).isSome then none
    else some (elfSortSegments segs)

/-! ### The two descriptions of an image -/

/-- `MEM_PERM_*` bits as flags. -/
def Perms.ofBits (n : ℕ) : Perms := ⟨hasFlag n 1, hasFlag n 2, hasFlag n 4, hasFlag n 8⟩

def maxBootRegions : ℕ := 8 + 2 * elfMaxSegments

/-- Model of `append_boot_region`; its `false` is `none`. -/
def appendBootRegion (regions : List MemRegion) (gpaStart gpaEnd : ℕ) (perms : Perms) :
    Option (List MemRegion) :=
  if maxBootRegions ≤ regions.length then none
  else some (regions ++ [{ gpaStart := gpaStart, gpaEnd := gpaEnd, vaBase := 0, perms := perms }])

def appendElfSegmentRegions (regions : List MemRegion) (segs : List ElfSegment) (loadBase : ℕ) :
    Option (List MemRegion) :=
  segs.foldlM (fun regions s =>
    appendBootRegion regions (u64 (s.gpa + loadBase)) (u64 (u64 (s.gpa + loadBase) + s.memsz))
      (Perms.ofBits (elfPfToProt s.flags))) regions

def guestRegionAddElfSegment (t : RegionTable) (start stop gpaBase prot offset : ℕ)
    (name : List UInt8) : ℤ × RegionTable :=
  let lead := start % guestPageSize
  let start := start - lead
  let stop := pageAlignUp stop
  let removed := guestRegionRemove t start stop
  if removed.1 < 0 then (-1, removed.2)
  else guestRegionAddExOwnedGpa removed.2
    { start := start, stop := stop, gpaBase := u64 (gpaBase + 2 ^ 64 - lead), prot := prot
      flags := linuxMapPrivate, offset := if lead ≤ offset then offset - lead else 0
      name := some name, ownedBackingFd := -1, inheritedAtFork := false, vmaId := 0 }

/-- Model of `register_elf_segment_regions`; the status of a registration is not
looked at. -/
def registerElfSegmentRegions (t : RegionTable) (segs : List ElfSegment)
    (vaLoadBase gpaLoadBase : ℕ) (path : List UInt8) : RegionTable :=
  segs.foldl (fun t s => (guestRegionAddElfSegment t (u64 (s.gpa + vaLoadBase))
    (u64 (u64 (s.gpa + vaLoadBase) + s.memsz)) (u64 (s.gpa + gpaLoadBase)) (elfPfToProt s.flags)
    s.offset path).2) t

/-! ### What the loader accepts -/

/-- Segments in order of address, with bytes of their own. -/
def SegmentsApart (segs : List ElfSegment) : Prop :=
  segs.Pairwise fun a b => a.gpa + a.memsz ≤ b.gpa

variable {s : ElfSegment} {segs : List ElfSegment}

lemma SegmentsApart.apart (h : SegmentsApart segs) {q : ElfSegment} (hq : q ∈ segs)
    (hs : s ∈ segs) (hne : q ≠ s) : q.gpa + q.memsz ≤ s.gpa ∨ s.gpa + s.memsz ≤ q.gpa := by
  have hsymm : Std.Symm fun a b : ElfSegment =>
    a.gpa + a.memsz ≤ b.gpa ∨ b.gpa + b.memsz ≤ a.gpa := ⟨fun _ _ h => h.symm⟩
  have hboth : segs.Pairwise fun a b => a.gpa + a.memsz ≤ b.gpa ∨ b.gpa + b.memsz ≤ a.gpa :=
    h.imp fun hle => .inl hle
  exact hboth.forall hq hs hne

structure SegmentOk (s : ElfSegment) : Prop where
  pos : 0 < s.memsz
  fits : s.gpa + s.memsz < 2 ^ 64

variable {fileSize : ℕ}

lemma elfRecordLoad_ok
    (h : elfRecordLoad fileSize segs ph = some segs') (hok : ∀ s ∈ segs, SegmentOk s) :
    ∀ s ∈ segs', SegmentOk s := by
  unfold elfRecordLoad at h
  split at h
  · cases h
    exact hok
  split at h
  · cases h
  split at h
  · cases h
  split at h
  · cases h
  split at h
  · cases h
  cases h
  exact forall_mem_append.mpr ⟨hok, forall_mem_singleton.mpr ⟨by omega, by omega⟩⟩

lemma records_ok : ∀ (phs : List ElfSegment) {segs segs' : List ElfSegment},
    phs.foldlM (elfRecordLoad fileSize) segs = some segs' → (∀ s ∈ segs, SegmentOk s) →
    ∀ s ∈ segs', SegmentOk s := by
  intro phs
  induction phs with
  | nil =>
    intro segs segs' h hok
    cases h
    exact hok
  | cons ph phs ih =>
    intro segs segs' h hok
    obtain ⟨mid, hmid, hrest⟩ := Option.bind_eq_some_iff.mp h
    exact ih hrest (elfRecordLoad_ok hmid hok)

lemma mem_insertSegment : ∀ {l : List ElfSegment}, s ∈ insertSegment seg l → s = seg ∨ s ∈ l
  | [], h => .inl (mem_singleton.mp h)
  | x :: xs, h => by
    rw [insertSegment] at h
    split at h
    · rcases mem_cons.mp h with rfl | h
      · exact .inr mem_cons_self
      · exact (mem_insertSegment h).imp id (mem_cons_of_mem _)
    · exact mem_cons.mp h

lemma mem_elfSortSegments (h : s ∈ elfSortSegments segs) : s ∈ segs := by
  have hfold : ∀ (l acc : List ElfSegment),
      s ∈ l.foldl (fun sorted seg => insertSegment seg sorted) acc → s ∈ l ∨ s ∈ acc := by
    intro l
    induction l with
    | nil => exact fun acc h => .inr h
    | cons x l ih =>
      intro acc h
      rcases ih _ h with h | h
      · exact .inl (mem_cons_of_mem _ h)
      rcases mem_insertSegment h with rfl | h
      · exact .inl mem_cons_self
      · exact .inr h
  rcases hfold segs [] (mem_reverse.mp h) with h | h
  · exact h
  · cases h

lemma overlapFrom_none : ∀ {i : ℕ} {segs : List ElfSegment}, overlapFrom i segs = none →
    (∀ s ∈ segs, SegmentOk s) → SegmentsApart segs
  | _, [], _, _ => List.Pairwise.nil
  | _, [_], _, _ => pairwise_singleton _ _
  | i, a :: b :: rest, h, hok => by
    rw [overlapFrom] at h
    split at h
    · cases h
    rename_i hab
    have hrest := overlapFrom_none h fun s hs => hok s (mem_cons_of_mem _ hs)
    have ha := (hok a mem_cons_self).fits
    rw [u64_of_lt ha] at hab
    refine pairwise_cons.mpr ⟨fun s hs => ?_, hrest⟩
    rcases mem_cons.mp hs with rfl | hs
    · omega
    · have := rel_of_pairwise_cons hrest hs
      omega

lemma elfLoadSegments_ordered
    (h : elfLoadSegments fileSize phs = some segs) :
    SegmentsApart segs ∧ ∀ s ∈ segs, SegmentOk s := by
  obtain ⟨recs, hrecs, h⟩ := Option.bind_eq_some_iff.mp h
  split at h
  · cases h
  split at h
  · cases h
  rename_i hover
  cases h
  have hok : ∀ s ∈ elfSortSegments recs, SegmentOk s := fun s hs =>
    records_ok phs hrecs (by simp) s (mem_elfSortSegments hs)
  exact ⟨overlapFrom_none (Option.not_isSome_iff_eq_none.mp hover) hok, hok⟩

/-! ### The tracker's view -/

/-- A table of the boot path: nothing in it is backed by a descriptor, and `k`
slots are free. -/
structure BootTable (t : RegionTable) (k : ℕ) : Prop where
  ok : RegionsOk t.regions
  unbacked : ∀ r ∈ t.regions, r.backingFd < 0
  room : t.regions.length + k ≤ guestMaxRegions

lemma removePrepareLoop_unbacked (start stop : ℕ) (full : Bool) (fds : HostFds) :
    ∀ {rest : List GuestRegion}, (∀ r ∈ rest, r.backingFd < 0) →
      removePrepareLoop start stop full rest fds = (0, -1, fds)
  | [], _ => rfl
  | r :: rest, h => by
    rw [removePrepareLoop]
    split
    · rfl
    split
    · rw [decide_eq_true (h r mem_cons_self), Bool.or_true]
      rfl
    · exact removePrepareLoop_unbacked start stop full fds
        fun q hq => h q (mem_cons_of_mem _ hq)

lemma removeLoop_unbacked (hps start stop : ℕ) (full : Bool) : ∀ {rest : List GuestRegion}
    {s : RemoveSt}, (∀ r ∈ rest, r.backingFd < 0) →
      ∀ r ∈ (removeLoop hps start stop full rest s).1, r.backingFd < 0
  | [], s, _ => by simp [removeLoop]
  | q :: rest, s, h => by
    have hq := h q mem_cons_self
    have hrest := fun r hr => h r (mem_cons_of_mem _ hr)
    rw [removeLoop]
    split
    · exact h
    split
    · split
      · rw [if_neg (by omega)]
        exact forall_mem_cons.mpr ⟨by rwa [clipOverlay_backingFd],
          forall_mem_cons.mpr ⟨by rwa [clipOverlay_backingFd], hrest⟩⟩
      · exact forall_mem_cons.mpr ⟨by rwa [clipOverlay_backingFd],
          removeLoop_unbacked hps start stop full hrest⟩
    split
    · exact forall_mem_cons.mpr ⟨by rwa [clipOverlay_backingFd],
        removeLoop_unbacked hps start stop full hrest⟩
    · exact removeLoop_unbacked hps start stop full hrest

variable {t : RegionTable} {k loadBase pg : ℕ}

lemma BootTable.remove (h : BootTable t (k + 1)) (start stop : ℕ) :
    (guestRegionRemove t start stop).1 = 0 ∧ BootTable (guestRegionRemove t start stop).2 k := by
  have hprep : guestRegionRemovePrepare t start stop = (0, -1, t) := by
    rw [guestRegionRemovePrepare]
    split
    · rfl
    dsimp only
    rw [removePrepareLoop_unbacked start stop _ t.fds
      fun r hr => h.unbacked r (mem_of_mem_drop hr)]
  have hok := remove_ok h.ok start stop
  rw [guestRegionRemove, hprep] at hok ⊢
  dsimp only at hok ⊢
  rw [if_neg (by decide)] at hok ⊢
  refine ⟨rfl, hok, ?_, ?_⟩
  · rw [guestRegionRemoveReserved]
    split
    · exact h.unbacked
    exact forall_mem_append.mpr ⟨fun r hr => h.unbacked r (mem_of_mem_take hr),
      removeLoop_unbacked _ _ _ _ fun q hq => h.unbacked q (mem_of_mem_drop hq)⟩
  have hroom := h.room
  rw [guestRegionRemoveReserved]
  split
  · dsimp only
    omega
  have hlen := removeLoop_length t.hostPageSize start stop
    (decide (guestMaxRegions ≤ t.regions.length))
    (t.regions.drop (guestRegionFirstEndAbove t.regions start))
    { stale := t.regionsTrackerStale, fds := t.fds, reserved := -1 }
  simp only [length_append, length_take, length_drop] at hlen ⊢
  split at hlen <;> omega

lemma tryMergeRight_unbacked (rs : List GuestRegion) (i : ℕ)
    (h : (∀ r ∈ rs, r.backingFd < 0)) : ∀ r ∈ tryMergeRight rs i, r.backingFd < 0 := by
  rcases tryMergeRight_cases rs i with heq | ⟨a, b, -, hrs, heq⟩
  · rwa [heq]
  rw [heq]
  rw [hrs, forall_mem_append, forall_mem_cons, forall_mem_cons] at h
  exact forall_mem_append.mpr ⟨h.1, forall_mem_cons.mpr ⟨h.2.1, h.2.2.2⟩⟩

lemma BootTable.add (h : BootTable t (k + 1)) {x : RegionArgs} (hx : AddRange t x.start x.stop)
    (hfd : x.ownedBackingFd < 0) : BootTable (guestRegionAddExOwnedGpa t x).2 k ∧
    ∀ a, (attrsAt (guestRegionAddExOwnedGpa t x).2.regions a).map RegionAttrs.prot =
      if x.start ≤ a ∧ a < x.stop then some x.prot
      else (attrsAt t.regions a).map RegionAttrs.prot := by
  have hroom := h.room
  have hok := add_ok h.ok hx
  refine ⟨⟨hok, ?_, ?_⟩, fun a => ?_⟩
  · rcases add_cases t x with ⟨hfull, -⟩ | ⟨-, v, next, -, heq⟩
    · omega
    rw [heq]
    refine tryMergeLeft_induct tryMergeRight_unbacked _ _ (tryMergeRight_unbacked _ _ ?_)
    exact forall_mem_append.mpr ⟨fun r hr => h.unbacked r (mem_of_mem_take hr),
      forall_mem_cons.mpr ⟨hfd, fun r hr => h.unbacked r (mem_of_mem_drop hr)⟩⟩
  · rcases add_cases t x with ⟨hfull, -⟩ | ⟨-, v, next, -, heq⟩
    · omega
    rw [heq]
    refine tryMergeLeft_induct (P := fun l => l.length + k ≤ guestMaxRegions)
      (fun rs i hl => ?_) _ _ ?_
    · have := tryMergeRight_length_le rs i
      omega
    have := tryMergeRight_length_le (t.regions.take (regionLowerBoundStart t.regions x.start) ++
      x.toRegion v :: t.regions.drop (regionLowerBoundStart t.regions x.start))
      (regionLowerBoundStart t.regions x.start)
    simp only [length_append, length_cons, length_take, length_drop] at this
    omega
  · rcases add_refines h.ok hx with ⟨-, v, -, hview⟩ | ⟨-, hfull, -⟩
    · rw [hview]
      split <;> rfl
    · omega

lemma addRange_of_free (h : RegionsOk t.regions) (hlt : start < stop)
    (hfree : ∀ a, start ≤ a → a < stop → attrsAt t.regions a = none) : AddRange t start stop := by
  refine ⟨hlt, fun r hr => ?_⟩
  by_contra hc
  have hne := h.ordered.1 r hr
  have hsome : attrsAt t.regions (max start r.start) ≠ none := by
    intro hnone
    have hcov := find?_eq_none.mp (Option.map_eq_none_iff.mp hnone) r hr
    exact hcov (Intervals.covers_iff.mpr (by omega))
  exact hsome (hfree _ (by omega) (by omega))

/-- What one registration leaves: the pages of the segment get its protection. -/
lemma addElfSegment_prot (gpaBase prot offset : ℕ) (name : List UInt8) (h : BootTable t (k + 2))
    (hlt : start < stop) (htop : stop ≤ 2 ^ 48) :
    BootTable (guestRegionAddElfSegment t start stop gpaBase prot offset name).2 k ∧
    ∀ a, (attrsAt (guestRegionAddElfSegment t start stop gpaBase prot offset name).2.regions
        a).map RegionAttrs.prot = if start / 4096 ≤ a / 4096 ∧ a / 4096 * 4096 < stop then some prot
      else (attrsAt t.regions a).map RegionAttrs.prot := by
  have hlead : start - start % guestPageSize = start / 4096 * 4096 := by
    unfold guestPageSize
    omega
  have hup : pageAlignUp stop = (stop + 4095) / 4096 * 4096 := by
    unfold pageAlignUp alignUp guestPageSize u64
    omega
  rw [guestRegionAddElfSegment]
  rw [hlead, hup]
  obtain ⟨hret, hboot⟩ := h.remove (start / 4096 * 4096) ((stop + 4095) / 4096 * 4096)
  have hmap : ∀ a, attrsAt (guestRegionRemove t (start / 4096 * 4096)
      ((stop + 4095) / 4096 * 4096)).2.regions a =
      if start / 4096 * 4096 ≤ a ∧ a < (stop + 4095) / 4096 * 4096 then none
      else attrsAt t.regions a := by
    have hroom := h.room
    rcases remove_refines h.ok (start / 4096 * 4096) ((stop + 4095) / 4096 * 4096) with
      ⟨-, ⟨-, hview⟩ | ⟨hfull, -⟩⟩ | ⟨hneg, -⟩
    · exact hview
    · omega
    · rw [hret] at hneg
      cases hneg
  rw [hret, if_neg (by decide)]
  generalize guestRegionRemove t (start / 4096 * 4096) ((stop + 4095) / 4096 * 4096) = removed
    at hboot hmap
  have hrange : AddRange removed.2 (start / 4096 * 4096) ((stop + 4095) / 4096 * 4096) :=
    addRange_of_free hboot.ok (by omega) fun a h1 h2 => by rw [hmap, if_pos ⟨h1, h2⟩]
  obtain ⟨hafter, hview⟩ := @BootTable.add removed.2 k hboot
    { start := start / 4096 * 4096, stop := (stop + 4095) / 4096 * 4096
      gpaBase := u64 (gpaBase + 2 ^ 64 - start % guestPageSize), prot := prot
      flags := linuxMapPrivate
      offset := if start % guestPageSize ≤ offset then offset - start % guestPageSize else 0
      name := some name, ownedBackingFd := -1, inheritedAtFork := false, vmaId := 0 }
    hrange (show (-1 : ℤ) < 0 by decide)
  refine ⟨hafter, fun a => ?_⟩
  rw [hview, hmap]
  dsimp only
  by_cases hin : start / 4096 * 4096 ≤ a ∧ a < (stop + 4095) / 4096 * 4096
  · rw [if_pos hin, if_pos (by omega)]
  · rw [if_neg hin, if_neg hin, if_neg (by omega)]

def ElfSegment.region (s : ElfSegment) (loadBase : ℕ) : MemRegion :=
  { gpaStart := s.gpa + loadBase, gpaEnd := s.gpa + loadBase + s.memsz, vaBase := 0
    perms := Perms.ofBits (elfPfToProt s.flags) }

def lastSegmentOn (segs : List ElfSegment) (loadBase pg : ℕ) : Option ElfSegment :=
  segs.reverse.find? fun s => decide ((s.region loadBase).HasPage pg)

lemma lastSegmentOn_cons (s : ElfSegment) (segs : List ElfSegment) (loadBase pg : ℕ) :
    lastSegmentOn (s :: segs) loadBase pg = (lastSegmentOn segs loadBase pg).or
      (if (s.region loadBase).HasPage pg then some s else none) := by
  rw [lastSegmentOn, reverse_cons, find?_append, lastSegmentOn, find?_singleton]
  congr 1
  by_cases hp : (s.region loadBase).HasPage pg <;> simp [hp]

lemma lastSegmentOn_eq (h : SegmentsApart segs) (hpos : ∀ s ∈ segs, 0 < s.memsz) (hs : s ∈ segs)
    (hpage : (s.region loadBase).HasPage pg)
    (hlast : ∀ q ∈ segs, (q.region loadBase).HasPage pg → q.gpa ≤ s.gpa) :
    lastSegmentOn segs loadBase pg = some s := by
  have hsome : (lastSegmentOn segs loadBase pg).isSome :=
    find?_isSome.mpr ⟨s, mem_reverse.mpr hs, decide_eq_true hpage⟩
  obtain ⟨q, hq⟩ := Option.isSome_iff_exists.mp hsome
  rw [hq]
  obtain ⟨hqp, as, bs, hsplit, has⟩ := find?_eq_some_iff_append.mp hq
  have hmem : s ∈ as ++ q :: bs := hsplit ▸ mem_reverse.mpr hs
  rcases mem_append.mp hmem with hsa | hsb
  · have := has s hsa
    simp [hpage] at this
  rcases mem_cons.mp hsb with rfl | hsb
  · rfl
  -- a segment before `q` lies below it
  have hbelow : s.gpa + s.memsz ≤ q.gpa := by
    have hrev := pairwise_reverse.mpr h
    rw [hsplit] at hrev
    exact (pairwise_cons.mp (pairwise_append.mp hrev).2.1).1 s hsb
  have hqs := hlast q (mem_reverse.mp (hsplit ▸ by simp)) (of_decide_eq_true hqp)
  have := hpos s hs
  omega

/-- The protection the tracker ends with is that of the last segment on the page. -/
lemma register_prot (loadBase gpaLoadBase : ℕ) (path : List UInt8) :
    ∀ {segs : List ElfSegment} {t : RegionTable} {k : ℕ}, BootTable t (2 * segs.length + k) →
      (∀ s ∈ segs, 0 < s.memsz ∧ s.gpa + loadBase + s.memsz ≤ 2 ^ 48) →
      RegionsOk (registerElfSegmentRegions t segs loadBase gpaLoadBase path).regions ∧
      ∀ a, (attrsAt (registerElfSegmentRegions t segs loadBase gpaLoadBase path).regions
          a).map RegionAttrs.prot =
        ((lastSegmentOn segs loadBase (a / 4096)).map fun s => elfPfToProt s.flags).or
          ((attrsAt t.regions a).map RegionAttrs.prot)
  | [], t, k, h, _ => ⟨h.ok, fun a => rfl⟩
  | s :: segs, t, k, h, hfit => by
    obtain ⟨hpos, hle⟩ := hfit s mem_cons_self
    have hva : u64 (s.gpa + loadBase) = s.gpa + loadBase := by
      unfold u64
      omega
    have hend : u64 (s.gpa + loadBase + s.memsz) = s.gpa + loadBase + s.memsz := by
      unfold u64
      omega
    rw [length_cons, show 2 * (segs.length + 1) + k = 2 * segs.length + k + 2 by omega] at h
    rw [registerElfSegmentRegions, foldl_cons, hva, hend, ← registerElfSegmentRegions]
    obtain ⟨hboot, hprot⟩ := addElfSegment_prot (u64 (s.gpa + gpaLoadBase)) (elfPfToProt s.flags)
      s.offset path h (show s.gpa + loadBase < s.gpa + loadBase + s.memsz by omega) hle
    obtain ⟨hok, hview⟩ := register_prot loadBase gpaLoadBase path hboot
      fun q hq => hfit q (mem_cons_of_mem _ hq)
    refine ⟨hok, fun a => ?_⟩
    rw [hview, hprot, lastSegmentOn_cons]
    -- the segments after `s` come first; `s` decides where they do not have the page
    cases lastSegmentOn segs loadBase (a / 4096) with
    | some q => rfl
    | none =>
      have hiff : (s.region loadBase).HasPage (a / 4096) ↔ (s.gpa + loadBase) / 4096 ≤ a / 4096 ∧
        a / 4096 * 4096 < s.gpa + loadBase + s.memsz := Iff.rfl
      by_cases hp : (s.region loadBase).HasPage (a / 4096)
      · rw [if_pos (hiff.mp hp), if_pos hp]
        rfl
      · rw [if_neg (mt hiff.mpr hp), if_neg hp]
        rfl

/-! ### Both views -/

/-- What a translation lets EL0 do, as protection bits. -/
def el0Prot (perms : Perms) : ℕ :=
  if perms.el1Only then 0
  else (if perms.r then 1 else 0) ||| (if perms.w then 2 else 0) ||| (if perms.x then 4 else 0)

lemma ofBits_elfPfToProt (pf : ℕ) :
    Perms.ofBits (elfPfToProt pf) = ⟨true, hasFlag pf pfW, hasFlag pf pfX, false⟩ := by
  unfold elfPfToProt
  cases hasFlag pf pfW <;> cases hasFlag pf pfX <;> decide

lemma el0Prot_segment (s : ElfSegment) (loadBase : ℕ) :
    el0Prot (s.region loadBase).perms.norm = elfPfToProt s.flags := by
  unfold ElfSegment.region
  rw [ofBits_elfPfToProt, elfPfToProt]
  cases hasFlag s.flags pfW <;> cases hasFlag s.flags pfX <;> rfl

lemma appendElfSegmentRegions_eq : ∀ {segs : List ElfSegment} {pre regions : List MemRegion},
    (∀ s ∈ segs, s.gpa + loadBase + s.memsz ≤ 2 ^ 48) →
    appendElfSegmentRegions pre segs loadBase = some regions →
    regions = pre ++ segs.map fun s => s.region loadBase
  | [], pre, regions, _, h => by
    cases h
    simp
  | s :: segs, pre, regions, hfit, h => by
    obtain ⟨mid, hmid, hrest⟩ := Option.bind_eq_some_iff.mp h
    have hle := hfit s mem_cons_self
    have hva : u64 (s.gpa + loadBase) = s.gpa + loadBase := by
      unfold u64
      omega
    have hend : u64 (s.gpa + loadBase + s.memsz) = s.gpa + loadBase + s.memsz := by
      unfold u64
      omega
    dsimp only at hmid
    rw [hva, hend, appendBootRegion] at hmid
    split at hmid
    · cases hmid
    cases hmid
    rw [appendElfSegmentRegions_eq (fun q hq => hfit q (mem_cons_of_mem _ hq)) hrest]
    simp [ElfSegment.region]

lemma handsOff_hasPage {s q : MemRegion} (hpage : s.HasPage pg) (hlast : s.gpaEnd / 4096 ≤ pg)
    (hq : q.gpaStart < q.gpaEnd) (hle : s.gpaEnd ≤ q.gpaStart)
    (hlt : q.gpaStart < pageAlignUp s.gpaEnd) : q.HasPage pg := by
  unfold pageAlignUp alignUp guestPageSize u64 at hlt
  unfold MemRegion.HasPage at hpage ⊢
  omega

/-- The page tables built at boot and the region tracker agree on the pages of an
image whose pages are its own. -/
theorem boot_views_agree (fileSize loadBase gpaLoadBase : ℕ) (path : List UInt8)
    (phs : List ElfSegment) (pre post : List MemRegion) {segs : List ElfSegment}
    {mid : List MemRegion} {rs : List GuestRegion} {p p' : PageTables} {t : RegionTable} {ttbr0 : ℕ}
    (hload : elfLoadSegments fileSize phs = some segs) (hpool : PoolOk p)
    (hfit : ∀ s ∈ segs, s.gpa + loadBase + s.memsz ≤ p.guestSize)
    (happend : appendElfSegmentRegions pre segs loadBase = some mid)
    (hother : ∀ r ∈ pre ++ post, BootRegion r)
    (hown : ∀ s ∈ segs, ∀ r ∈ pre ++ post, ∀ pg, (s.region loadBase).HasPage pg → ¬ r.HasPage pg)
    (hbuild : guestBuildPageTables rs p (mid ++ post) = some (ttbr0, p')) (hok : ttbr0 ≠ 0)
    (htable : BootTable t (2 * segs.length)) :
    (∀ va, ∀ s ∈ segs, (s.region loadBase).HasPage (va / 4096) →
      (∀ q ∈ segs, (q.region loadBase).HasPage (va / 4096) → q.gpa ≤ s.gpa) →
      ∃ o perms r, ptWalk p' va = some (o, perms) ∧
        guestRegionFind (registerElfSegmentRegions t segs loadBase gpaLoadBase path).regions va
          = some r ∧
        el0Prot perms = r.prot ∧ r.prot = elfPfToProt s.flags) ∧
    ∀ va, (∀ r ∈ mid ++ post, ¬ r.HasPage (va / 4096)) → ptWalk p' va = none := by
  obtain ⟨hapart, hsegs⟩ := elfLoadSegments_ordered hload
  have hsize := hpool.size_le
  have hfit48 : ∀ s ∈ segs, s.gpa + loadBase + s.memsz ≤ 2 ^ 48 := fun s hs =>
    (hfit s hs).trans hsize
  obtain rfl := appendElfSegmentRegions_eq hfit48 happend
  have hmem : ∀ {r}, r ∈ (pre ++ segs.map fun s => s.region loadBase) ++ post ↔
      r ∈ pre ++ post ∨ ∃ s ∈ segs, s.region loadBase = r := by
    intro r
    simp only [mem_append, mem_map]
    exact or_right_comm
  have hreg : ∀ r ∈ (pre ++ segs.map fun s => s.region loadBase) ++ post, BootRegion r := by
    intro r hr
    rcases hmem.mp hr with hr | ⟨s, hs, rfl⟩
    · exact hother r hr
    refine ⟨rfl, ?_, hfit48 s hs⟩
    have := (hsegs s hs).pos
    show s.gpa + loadBase < s.gpa + loadBase + s.memsz
    omega
  have hviews := build_views hpool hreg hbuild hok
  refine ⟨fun va s hs hpage hlast => ?_, fun va hno => build_walk_none hviews hreg hno⟩
  have hsmem := hmem.mpr (.inr ⟨s, hs, rfl⟩)
  have hwalk : ∃ o, ptWalk p' va = some (o, (s.region loadBase).perms.norm) := by
    apply build_walk_some hviews hreg hsmem hpage
    · -- a region that takes the last page of `s` has this page and lies behind `s`
      rintro ⟨q, hq, hle, hlt⟩
      by_contra hc
      have hqpage := handsOff_hasPage hpage (by omega) (hreg q hq).nonempty hle hlt
      rcases hmem.mp hq with hother | ⟨s', hs', rfl⟩
      · exact hown s hs q hother _ hpage hqpage
      have h1 := hlast s' hs' hqpage
      have h2 := (hsegs s hs).pos
      change s.gpa + loadBase + s.memsz ≤ s'.gpa + loadBase at hle
      omega
    · unfold ElfSegment.region
      rw [ofBits_elfPfToProt]
      intro hnone
      cases hnone
    intro r hr hrpage
    rcases hmem.mp hr with hr | ⟨q, hq, rfl⟩
    · exact absurd hrpage (hown s hs r hr _ hpage)
    by_cases heq : q = s
    · exact .inl (by rw [heq])
    -- an earlier segment ends on this page and hands it on, to `s` at the latest
    right
    have hbelow : q.gpa + q.memsz ≤ s.gpa := by
      rcases hapart.apart hq hs heq with h | h
      · exact h
      have h1 := hlast q hq hrpage
      have h2 := (hsegs s hs).pos
      omega
    have hqs : (q.region loadBase).gpaEnd ≤ (s.region loadBase).gpaStart := by
      show q.gpa + loadBase + q.memsz ≤ s.gpa + loadBase
      omega
    have h1 := hpage.1
    have h2 := hrpage.2
    refine ⟨by omega, s.region loadBase, hsmem, hasPage_touches hpage, hqs, ?_⟩
    have hfitq := (hreg _ hr).fits
    unfold pageAlignUp alignUp guestPageSize u64
    omega
  obtain ⟨o, ho⟩ := hwalk
  obtain ⟨htok, hprot⟩ := register_prot loadBase gpaLoadBase path (k := 0) htable
    fun q hq => ⟨(hsegs q hq).pos, hfit48 q hq⟩
  have hseen := hprot va
  rw [lastSegmentOn_eq hapart (fun q hq => (hsegs q hq).pos) hs hpage hlast] at hseen
  obtain ⟨attrs, hattrs, hp⟩ := Option.map_eq_some_iff.mp hseen
  obtain ⟨r, hr, hval⟩ := Option.map_eq_some_iff.mp hattrs
  have hcov := Intervals.covers_iff.mp (find?_some hr)
  have hrprot : r.prot = elfPfToProt s.flags := by
    subst hval
    exact hp
  refine ⟨o, _, r, ho, ?_, (el0Prot_segment s loadBase).trans hrprot.symm, hrprot⟩
  exact (guestRegionFind_eq_some_iff htok.ordered).mpr ⟨mem_of_find?_eq_some hr, hcov⟩

def textSegment : ElfSegment := ⟨0x400000, 0, 0, 0x1FF800, 5⟩

def rodataSegment : ElfSegment := ⟨0x5FF800, 0x800, 0x800, 0x800, 5⟩

/-- Another boot region. -/
def heapRegion : MemRegion := ⟨0x600000, 0x800000, 0, Perms.rw⟩

/-- Text and read-only data meet on the page at 0x5FF000 and fill their block; the block behind the
heap is not mapped. -/
theorem boot_views_agree_shared : ∃ p', guestBuildPageTables [] emptyPool
      [textSegment.region 0, rodataSegment.region 0, heapRegion] = some (0x10000, p') ∧
    (∃ o perms r, ptWalk p' 0x5FF000 = some (o, perms) ∧
      guestRegionFind (registerElfSegmentRegions (RegionTable.empty 16384 noFds)
        [textSegment, rodataSegment] 0 0 []).regions 0x5FF000 = some r ∧
      el0Prot perms = r.prot ∧ r.prot = 5) ∧ ptWalk p' 0x800000 = none := by
  have hrun : (guestBuildPageTables [] emptyPool
      [textSegment.region 0, rodataSegment.region 0, heapRegion]).map Prod.fst = some 0x10000 := by
    decide +kernel
  obtain ⟨⟨ttbr0, p'⟩, hbuild, hroot⟩ := Option.map_eq_some_iff.mp hrun
  obtain rfl : ttbr0 = 0x10000 := hroot
  have hpool : PoolOk emptyPool := by
    constructor <;> simp only [emptyPool] <;> omega
  have htable : BootTable (RegionTable.empty 16384 noFds)
      (2 * [textSegment, rodataSegment].length) :=
    ⟨⟨⟨by simp [RegionTable.empty], by simp [RegionTable.empty]⟩, by decide⟩,
      by simp [RegionTable.empty], by decide⟩
  have hload : elfLoadSegments 0x2000 [textSegment, rodataSegment] =
      some [textSegment, rodataSegment] := by decide
  have happend : appendElfSegmentRegions [] [textSegment, rodataSegment] 0 =
      some [textSegment.region 0, rodataSegment.region 0] := rfl
  have hown : ∀ s ∈ [textSegment, rodataSegment], ∀ r ∈ [heapRegion], ∀ pg,
      (s.region 0).HasPage pg → ¬ r.HasPage pg := by
    intro s hs r hr pg hpage hother
    obtain rfl := mem_singleton.mp hr
    obtain rfl | rfl : s = textSegment ∨ s = rodataSegment := by simpa using hs
    all_goals
      have hlow : pg * 4096 < 0x600000 := hpage.2.trans_le (by decide)
      have hhigh : 0x600000 / 4096 ≤ pg := hother.1
      omega
  obtain ⟨hviews, hnone⟩ :=
      boot_views_agree 0x2000 0 0 [] [textSegment, rodataSegment] [] [heapRegion]
    hload hpool (by decide) happend (by simp; exact ⟨rfl, by decide, by decide⟩) hown hbuild
    (by decide) htable
  exact ⟨p', hbuild, hviews 0x5FF000 rodataSegment (by simp) (by decide) (by decide),
    hnone 0x800000 (by decide)⟩

end Elfuse
