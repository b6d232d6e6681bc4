/-
Boundary splits and snapshots of the region table, and how they are taken back.

A call that replaces a range splits the table at the ends of the range and
copies the records in between, each with a descriptor of its own
(`captureRegionSnapshots`). What is taken back must leave the table as it was
and no descriptor behind: `Holding t u es` says that `u` is `t` again, with the
descriptors `es` on top.

* `splits_restore` — splits and captures are undone exactly, newest first.
-/
import Elfuse.Syscall.TableRuns
import Mathlib.Algebra.Order.Group.Multiset
import Mathlib.Tactic.Abel

namespace Elfuse

open List

/-! ### Snapshots -/

structure RegionSnapshot where
  start : ℕ
  stop : ℕ
  gpaBase : ℕ
  vmaId : ℕ
  prot : ℕ
  flags : ℕ
  offset : ℕ
  backingFd : ℤ
  overlayActive : Bool
  overlayStart : ℕ
  overlayEnd : ℕ
  backingRo : Bool
  inheritedAtFork : Bool
  name : List UInt8

/-- The copy of a record, with a descriptor of its own. -/
def GuestRegion.snapshot (r : GuestRegion) (fd : ℤ) : RegionSnapshot :=
  { start := r.start, stop := r.stop, gpaBase := r.gpaBase, vmaId := r.vmaId, prot := r.prot
    flags := r.flags, offset := r.offset, backingFd := fd, overlayActive := r.overlayActive
    overlayStart := r.overlayStart, overlayEnd := r.overlayEnd, backingRo := r.backingRo
    inheritedAtFork := r.inheritedAtFork, name := strCopyTrunc r.name }

def closeRegionSnapshots (h : HostFds) (snaps : List RegionSnapshot) :
    HostFds × List RegionSnapshot :=
  (snaps.foldl (fun h s => h.closeIfOpen s.backingFd) h,
    snaps.map fun s => { s with backingFd := if 0 ≤ s.backingFd then -1 else s.backingFd })

/-- The loop of `capture_region_snapshots`, with its early exits; a negative status is an error. -/
def captureLoop (start stop maxSnaps : ℕ) : HostFds → List RegionSnapshot → List GuestRegion →
    ℤ × HostFds × List RegionSnapshot
  | fds, taken, [] => (taken.length, fds, taken)
  | fds, taken, r :: rest =>
    if stop ≤ r.start then (taken.length, fds, taken)
    else if r.stop ≤ start then captureLoop start stop maxSnaps fds taken rest
    else if maxSnaps ≤ taken.length then (-linuxEnomem, closeRegionSnapshots fds taken)
    else
      let dup := if 0 ≤ r.backingFd then fds.dup else (-1, fds)
      let taken := taken ++ [r.snapshot dup.1]
      if 0 ≤ r.backingFd ∧ dup.1 < 0 then (-linuxEnomem, closeRegionSnapshots dup.2 taken)
      else captureLoop start stop maxSnaps dup.2 taken rest

structure Capture where
  status : ℤ
  snaps : List RegionSnapshot
  splits : Option RegionSplitUndo × Option RegionSplitUndo
  table : RegionTable

/-- Model of `capture_region_snapshots`; records the caller did not get are the -1 it set. -/
def captureRegionSnapshots (t : RegionTable) (start stop maxSnaps : ℕ) : Capture :=
  let s := splitRegionsAtBounds t start stop
  if s.1 < 0 then ⟨s.1, [], (none, none), s.2.2⟩
  else
    let c := captureLoop start stop maxSnaps s.2.2.fds []
      (s.2.2.regions.drop (guestRegionFirstEndAbove s.2.2.regions start))
    let u := { s.2.2 with fds := c.2.1 }
    if c.1 < 0 then ⟨c.1, c.2.2, (none, none), undoRegionSplits u s.2.1⟩
    else ⟨c.1, c.2.2, s.2.1, u⟩

def mremapMoveUndoSplits (t : RegionTable)
    (source dest : Option RegionSplitUndo × Option RegionSplitUndo) : RegionTable :=
  undoRegionSplits (undoRegionSplits t dest) source

def disposeRegionSnapshots (t : RegionTable) (snaps : List RegionSnapshot) : RegionTable :=
  { t with fds := (closeRegionSnapshots t.fds snaps).1 }

/-! ### Descriptors held -/

/-- The descriptors that `dup` has given out. -/
def HostFds.opened (h : HostFds) : List ℤ :=
  ((List.range h.dupCalls).map h.dupAnswer).filter (0 ≤ ·)

/-- `h'` comes from `h` by opening and closing, and `es` are open on top. -/
structure HostFds.Keeps (h h' : HostFds) (es : Multiset ℤ) : Prop where
  answers : h'.dupAnswer = h.dupAnswer
  balance : (h'.opened + h.closed : Multiset ℤ) = h.opened + h'.closed + es

structure Holding (t u : RegionTable) (es : Multiset ℤ) : Prop where
  same : u = { t with fds := u.fds }
  fds : t.fds.Keeps u.fds es

/-- What a record or a snapshot owns. -/
def owned (fd : ℤ) : Multiset ℤ := if 0 ≤ fd then {fd} else 0

def ownedAll (snaps : List RegionSnapshot) : Multiset ℤ :=
    (snaps.map fun s => owned s.backingFd).sum

namespace HostFds

variable {h h' h'' : HostFds} {es es' : Multiset ℤ}

lemma Keeps.refl (h : HostFds) : h.Keeps h 0 :=
  ⟨rfl, by rw [add_zero]⟩

lemma Keeps.trans (hk : h.Keeps h' es) (hk' : h'.Keeps h'' es') : h.Keeps h'' (es + es') := by
  refine ⟨hk'.answers.trans hk.answers, ?_⟩
  have h1 := hk.balance
  have h2 := hk'.balance
  refine add_right_cancel (b := (h'.opened + h'.closed : Multiset ℤ)) ?_
  calc (h''.opened + h.closed + (h'.opened + h'.closed) : Multiset ℤ)
      = (h''.opened + h'.closed) + (h'.opened + h.closed) := by abel
    _ = (h'.opened + h''.closed + es') + (h.opened + h'.closed + es) := by rw [h1, h2]
    _ = h.opened + h''.closed + (es + es') + (h'.opened + h'.closed) := by abel

lemma keeps_dup (h : HostFds) : h.Keeps h.dup.2 (owned h.dup.1) := by
  refine ⟨rfl, ?_⟩
  have hopen : h.dup.2.opened = h.opened ++ ([h.dup.1].filter (0 ≤ ·)) := by
    simp [opened, dup, range_succ]
  have hone : (([h.dup.1].filter (0 ≤ ·) : List ℤ) : Multiset ℤ) = owned h.dup.1 := by
    by_cases hfd : 0 ≤ h.dup.1 <;> simp [owned, hfd]
  rw [hopen, ← Multiset.coe_add, hone]
  exact add_right_comm _ _ _

lemma Keeps.close (hk : h.Keeps h' (owned fd + es)) : h.Keeps (h'.closeIfOpen fd) es := by
  rw [closeIfOpen]
  split
  · rename_i hfd
    refine ⟨hk.answers, hk.balance.trans ?_⟩
    simp only [owned, if_pos hfd, ← Multiset.coe_add, ← Multiset.coe_singleton]
    abel
  · rename_i hfd
    rwa [owned, if_neg hfd, zero_add] at hk

lemma Keeps.closeAll {snaps : List RegionSnapshot} (hk : h.Keeps h' (ownedAll snaps + es)) :
    h.Keeps (closeRegionSnapshots h' snaps).1 es := by
  induction snaps generalizing h' with
  | nil => exact (by simpa [ownedAll] using hk : h.Keeps h' es)
  | cons s snaps ih =>
    rw [ownedAll, map_cons, sum_cons, add_assoc] at hk
    exact ih hk.close

end HostFds

/-! ### Undoing a split -/

variable {t u : RegionTable} {es es' : Multiset ℤ}

lemma Holding.refl (t : RegionTable) : Holding t t 0 := ⟨rfl, .refl _⟩

lemma Holding.trans {v : RegionTable} (h : Holding t u es) (h' : Holding u v es') :
    Holding t v (es + es') := by
  refine ⟨h'.same.trans ?_, h.fds.trans h'.fds⟩
  rw [h.same]

lemma Holding.dispose (h : Holding t u (ownedAll snaps + es)) :
    Holding t (disposeRegionSnapshots u snaps) es := by
  refine ⟨?_, h.fds.closeAll⟩
  rw [disposeRegionSnapshots, h.same]

def splitFd (t : RegionTable) : Option RegionSplitUndo → Multiset ℤ
  | none => 0
  | some o => t.regions[o.index + 1]?.elim 0 fun r => owned r.backingFd

/-- A split changes the records and the descriptors only, and opens the one of its right half. -/
lemma splitRegionsAtBoundary_fds (t : RegionTable) (boundary : ℕ) :
    (splitRegionsAtBoundary t boundary).2.2 =
        { t with regions := (splitRegionsAtBoundary t boundary).2.2.regions
                 fds := (splitRegionsAtBoundary t boundary).2.2.fds } ∧
      t.fds.Keeps (splitRegionsAtBoundary t boundary).2.2.fds
        (splitFd (splitRegionsAtBoundary t boundary).2.2
          (splitRegionsAtBoundary t boundary).2.1) := by
  rw [splitRegionsAtBoundary]
  by_cases h0 : boundary = 0
  · rw [if_pos h0]
    exact ⟨rfl, .refl _⟩
  rw [if_neg h0]
  dsimp only
  split
  · exact ⟨rfl, .refl _⟩
  rename_i r hr
  split
  · exact ⟨rfl, .refl _⟩
  split
  · exact ⟨rfl, .refl _⟩
  -- the right half gets a descriptor of its own, unless the region has none
  have hkeeps : t.fds.Keeps (if 0 ≤ r.backingFd then t.fds.dup else (r.backingFd, t.fds)).2
      (owned (if 0 ≤ r.backingFd then t.fds.dup else (r.backingFd, t.fds)).1) := by
    split
    · exact t.fds.keeps_dup
    rename_i hfd
    rw [owned, if_neg hfd]
    exact .refl _
  generalize (if 0 ≤ r.backingFd then t.fds.dup else (r.backingFd, t.fds)) = d at hkeeps ⊢
  by_cases h3 : 0 ≤ r.backingFd ∧ d.1 < 0
  · -- a `dup` that fails opens nothing
    rw [if_pos h3]
    rw [owned, if_neg (Int.not_le.mpr h3.2)] at hkeeps
    exact ⟨rfl, hkeeps⟩
  rw [if_neg h3]
  refine ⟨rfl, ?_⟩
  have hlen : (t.regions.take (guestRegionFirstEndAbove t.regions boundary)).length =
      guestRegionFirstEndAbove t.regions boundary := by
    have := (List.getElem?_eq_some_iff.mp hr).1
    rw [List.length_take]
    omega
  obtain ⟨_, _, _, hclip⟩ := regionClipOverlay_cases t.hostPageSize
    ({ r with backingFd := d.1 }.above boundary)
  have hright : (regionClipOverlay t.hostPageSize
      ({ r with backingFd := d.1 }.above boundary)).backingFd = d.1 := by
    rw [hclip]
    rfl
  -- it stands right behind the left half, and clipping its overlay leaves the descriptor alone
  simp only [splitFd]
  rw [List.getElem?_append_right (by omega), hlen, Nat.add_sub_cancel_left]
  simpa [hright] using hkeeps

lemma Holding.undo (h : Holding (splitRegionsAtBoundary t boundary).2.2 u es) :
    Holding t (undoRegionSplit u (splitRegionsAtBoundary t boundary).2.1) es := by
  obtain ⟨hsame, hfds⟩ := splitRegionsAtBoundary_fds t boundary
  have hregions : u.regions = (splitRegionsAtBoundary t boundary).2.2.regions := by
    rw [h.same]
  have hback := undoRegionSplit_split t boundary u hregions
  have hrest : u = { t with regions := u.regions, fds := u.fds } := by
    rw [hregions]
    refine h.same.trans ?_
    rw [hsame]
  -- what `u` holds on top of `t`: the right half's descriptor, then `es`
  have hheld := hfds.trans h.fds
  generalize (splitRegionsAtBoundary t boundary).2.1 = o at hback hheld ⊢
  cases o with
  | none =>
    rw [undoRegionSplit] at hback ⊢
    refine ⟨?_, by simpa [splitFd] using hheld⟩
    rwa [hback] at hrest
  | some o =>
    refine ⟨?_, ?_⟩
    · rw [undoRegionSplit] at hback ⊢
      dsimp only at hback ⊢
      rw [hback, hrest]
    rw [undoRegionSplit, hregions]
    rw [splitFd] at hheld
    cases hr : (splitRegionsAtBoundary t boundary).2.2.regions[o.index + 1]? with
    | none => simpa [hr] using hheld
    | some r =>
      rw [hr] at hheld
      exact hheld.close

lemma splitRegionsAtBoundary_failed (h : (splitRegionsAtBoundary t boundary).1 < 0) :
    Holding t (splitRegionsAtBoundary t boundary).2.2 0 := by
  -- a split that fails has nothing to undo
  have hundo := (Holding.refl (splitRegionsAtBoundary t boundary).2.2).undo
  rcases splitRegionsAtBoundary_cases t boundary with ⟨hnone, -⟩ | ⟨_, _, _, -, -, -, -, hz, -⟩
  · rwa [hnone] at hundo
  · omega

/-! ### Both ends, and the snapshots -/

lemma splitRegionsAtBounds_failed {start stop : ℕ} (h : (splitRegionsAtBounds t start stop).1 < 0) :
    Holding t (splitRegionsAtBounds t start stop).2.2 0 := by
  rw [splitRegionsAtBounds] at h ⊢
  dsimp only at h ⊢
  split at h
  · rename_i h0
    rw [if_pos h0]
    exact splitRegionsAtBoundary_failed h0
  rename_i h0
  rw [if_neg h0]
  split at h
  · -- the second boundary failed, so the first split is taken back
    rename_i h1
    rw [if_pos h1]
    exact (splitRegionsAtBoundary_failed h1).undo
  · rename_i h1
    exact absurd h h1

lemma Holding.undoSplits {start stop : ℕ} (hok : ¬ (splitRegionsAtBounds t start stop).1 < 0)
    (h : Holding (splitRegionsAtBounds t start stop).2.2 u es) :
    Holding t (undoRegionSplits u (splitRegionsAtBounds t start stop).2.1) es := by
  rw [splitRegionsAtBounds] at hok h ⊢
  dsimp only at hok h ⊢
  split at hok
  · rename_i h0
    exact absurd h0 hok
  rename_i h0
  rw [if_neg h0] at h ⊢
  split at hok
  · rename_i h1
    exact absurd h1 hok
  rename_i h1
  rw [if_neg h1] at h ⊢
  exact h.undo.undo

lemma ownedAll_closed (h : HostFds) (snaps : List RegionSnapshot) :
    ownedAll (closeRegionSnapshots h snaps).2 = 0 := by
  have hnone : ∀ fd : ℤ, owned (if 0 ≤ fd then -1 else fd) = 0 := by
    intro fd
    by_cases hfd : 0 ≤ fd <;> simp [owned, hfd]
  induction snaps with
  | nil => rfl
  | cons s snaps ih =>
    rw [ownedAll] at ih
    simp only [ownedAll, closeRegionSnapshots, map_cons, sum_cons, hnone, zero_add] at ih ⊢
    exact ih

/-- The snapshots the loop returns are all it holds, and after an error it holds nothing. -/
lemma captureLoop_keeps (start stop maxSnaps : ℕ) {h h' : HostFds} (taken : List RegionSnapshot)
    (rs : List GuestRegion) (hk : h.Keeps h' (ownedAll taken)) :
    let c := captureLoop start stop maxSnaps h' taken rs
    h.Keeps c.2.1 (ownedAll c.2.2) ∧ (c.1 < 0 → ownedAll c.2.2 = 0) := by
  have hfail : ∀ {h' : HostFds} {taken : List RegionSnapshot}, h.Keeps h' (ownedAll taken) →
      h.Keeps (closeRegionSnapshots h' taken).1 (ownedAll (closeRegionSnapshots h' taken).2) := by
    intro h' taken hk
    rw [ownedAll_closed]
    exact HostFds.Keeps.closeAll (by rwa [add_zero])
  -- the snapshots taken so far own exactly what was opened since `h`
  induction rs generalizing h' taken with
  | nil => exact ⟨hk, fun hneg => absurd hneg (Int.not_lt.mpr (Int.natCast_nonneg _))⟩
  | cons r rest ih =>
    rw [captureLoop]
    split
    · exact ⟨hk, fun hneg => absurd hneg (Int.not_lt.mpr (Int.natCast_nonneg _))⟩
    split
    · exact ih taken hk
    split
    · exact ⟨hfail hk, fun _ => ownedAll_closed _ _⟩
    have hnext : h.Keeps (if 0 ≤ r.backingFd then h'.dup else (-1, h')).2
        (ownedAll (taken ++ [r.snapshot (if 0 ≤ r.backingFd then h'.dup else (-1, h')).1])) := by
      rw [ownedAll, map_append, sum_append, map_singleton, sum_singleton]
      split
      · exact hk.trans h'.keeps_dup
      · exact hk.trans (.refl h')
    generalize (if 0 ≤ r.backingFd then h'.dup else (-1, h')) = d at hnext ⊢
    dsimp only
    split
    · exact ⟨hfail hnext, fun _ => ownedAll_closed _ _⟩
    · exact ih _ hnext

/-- With its splits undone a capture holds its snapshots, and after an error nothing. -/
lemma capture_holding (t : RegionTable) (start stop maxSnaps : ℕ) :
    let c := captureRegionSnapshots t start stop maxSnaps
    (c.status < 0 → Holding t c.table 0) ∧ ∀ {u es}, Holding c.table u es →
      Holding t (undoRegionSplits u c.splits) (ownedAll c.snaps + es) := by
  rw [captureRegionSnapshots]
  split
  · rename_i hs
    exact ⟨splitRegionsAtBounds_failed, (splitRegionsAtBounds_failed hs).trans⟩
  rename_i hs
  obtain ⟨hkeeps, hnone⟩ := captureLoop_keeps start stop maxSnaps []
    ((splitRegionsAtBounds t start stop).2.2.regions.drop
      (guestRegionFirstEndAbove (splitRegionsAtBounds t start stop).2.2.regions start))
    (HostFds.Keeps.refl (splitRegionsAtBounds t start stop).2.2.fds)
  dsimp only
  split
  · -- a failed capture undoes its own splits and returns none
    rename_i hc
    have hback := Holding.undoSplits hs
      (u := { (splitRegionsAtBounds t start stop).2.2 with fds := _ }) ⟨rfl, hkeeps⟩
    refine ⟨fun _ => hnone hc ▸ hback, fun hu => ?_⟩
    exact hback.trans hu
  · rename_i hc
    refine ⟨fun hneg => absurd hneg hc, fun hu => ?_⟩
    exact Holding.undoSplits hs (Holding.trans ⟨rfl, hkeeps⟩ hu)

/-- Splits that fail leave the table and its descriptors as they were, and so does undoing those
that do not. A capture that fails leaves them as they were, too. After a second capture, failed or
not, undoing the splits of both, newest first, and disposing of the snapshots restores them. -/
theorem splits_restore (t : RegionTable) (start stop maxSnaps start' stop' maxSnaps' : ℕ) :
    ((splitRegionsAtBounds t start stop).1 < 0 →
      Holding t (splitRegionsAtBounds t start stop).2.2 0) ∧
    (¬ (splitRegionsAtBounds t start stop).1 < 0 →
      Holding t (undoRegionSplits (splitRegionsAtBounds t start stop).2.2
        (splitRegionsAtBounds t start stop).2.1) 0) ∧
    ∀ source dest, source = captureRegionSnapshots t start stop maxSnaps →
      dest = captureRegionSnapshots source.table start' stop' maxSnaps' →
      (source.status < 0 → Holding t source.table 0) ∧
        Holding t (disposeRegionSnapshots (disposeRegionSnapshots
          (mremapMoveUndoSplits dest.table source.splits dest.splits) dest.snaps)
          source.snaps) 0 := by
  refine ⟨splitRegionsAtBounds_failed, fun hok => Holding.undoSplits hok (.refl _), ?_⟩
  rintro source dest rfl rfl
  obtain ⟨hfailed, hundo⟩ := capture_holding t start stop maxSnaps
  refine ⟨hfailed, Holding.dispose (Holding.dispose ?_)⟩
  -- the second capture's splits come off first, then those of the first
  have hboth := hundo ((capture_holding _ start' stop' maxSnaps').2 (.refl _))
  rw [add_left_comm] at hboth
  exact hboth

def mappedFile : RegionTable :=
  { RegionTable.empty 4096 ⟨fun n => 100 + n, 0, []⟩ with
    regions := [{ start := 0, stop := 0x4000, gpaBase := 0, vmaId := 1, prot := 3, flags := 1
                  offset := 0, backingFd := 5, shared := true, noreserve := false
                  backingRo := false, inheritedAtFork := false, overlayActive := false
                  overlayStart := 0, overlayEnd := 0, name := [] }] }

/-- A capture of two pages cuts the record in three; one with no room for a snapshot gives back
what its splits took. -/
theorem splits_restore_oneFile :
    (captureRegionSnapshots mappedFile 0x1000 0x3000 8).table.regions.length = 3 ∧
      Holding mappedFile (captureRegionSnapshots mappedFile 0x1000 0x3000 0).table 0 :=
  ⟨by decide +kernel,
    ((splits_restore mappedFile 0x1000 0x3000 0 0x3000 0x4000 0).2.2 _ _ rfl rfl).1
      (by decide +kernel)⟩

end Elfuse
