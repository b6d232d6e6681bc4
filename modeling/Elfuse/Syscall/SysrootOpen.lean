/-
Where the open behind a sysroot path ends.

The resolvers check a path before the host opens it. Each way out of them is
followed to the open: a path that was found has been compared with the sysroot
after following its links, a path that was not found cannot be opened either, a
new entry goes below a parent that has been compared. Only the fallback of a
lookup hands over a text that was never compared: for a path that the sysroot
does not hold, the guest path itself or what its links make of it.

* `resolved_cases` — every other way out of a lookup stays in the sysroot;
* `sysroot_open_contained_iff` — for which flags the open stays in the sysroot,
  and for which of the fallback's texts.
-/
import Elfuse.Syscall.SysrootLookup

namespace Elfuse

open FileTree List Segments

variable {s : Sysroot} {follow : Bool} {links : ℕ} {n : Node} {cur path buf host target : Text}
  {t : Tree} {x : Text}

/-! ### The loop through the links -/

/-- Where one pass over a spelling stops: at a component that is not there, or at a link. -/
lemma walkComponents_stop (cur tail pre : Text) (ps : List (Text × Text)) :
    (∀ buf e, walkComponents s follow cur pre tail ps = .absent buf e → ∃ D p R, ps = D ++ p :: R ∧
      s.tree.lookup false s.links [] (s.text ++ (pre ++ (glue D ++ p.1 ++ p.2))) = .error e ∧
      (buf = s.text ++ (pre ++ (glue D ++ p.1 ++ p.2)) ∨ buf = s.text ++ cur)) ∧
    ∀ front target rest, walkComponents s follow cur pre tail ps = .link front target rest →
      ∃ D sep c R, ps = D ++ (sep, c) :: R ∧ front = pre ++ (glue D ++ sep) := by
  induction ps generalizing pre with
  | nil => exact ⟨by simp [walkComponents], by simp [walkComponents]⟩
  | cons p ps ih =>
    obtain ⟨sep, c⟩ := p
    obtain ⟨hab, hli⟩ := ih (pre ++ sep ++ c)
    -- what the rest of the pass says, with this component in front
    have hrest : ∀ stop, walkComponents s follow cur (pre ++ sep ++ c) tail ps = stop →
        (∀ buf e, stop = .absent buf e → ∃ D p R, (sep, c) :: ps = D ++ p :: R ∧
          s.tree.lookup false s.links [] (s.text ++ (pre ++ (glue D ++ p.1 ++ p.2))) = .error e ∧
          (buf = s.text ++ (pre ++ (glue D ++ p.1 ++ p.2)) ∨ buf = s.text ++ cur)) ∧
        ∀ front target rest, stop = .link front target rest →
          ∃ D sep' c' R, (sep, c) :: ps = D ++ (sep', c') :: R ∧ front = pre ++
              (glue D ++ sep') := by
      rintro stop rfl
      refine ⟨fun buf e h => ?_, fun front target rest h => ?_⟩
      · obtain ⟨D, p, R, rfl, hlook, hbuf⟩ := hab buf e h
        exact ⟨(sep, c) :: D, p, R, rfl, by simpa [glue] using hlook, by simpa [glue] using hbuf⟩
      · obtain ⟨D, sep', c', R, rfl, rfl⟩ := hli front target rest h
        exact ⟨(sep, c) :: D, sep', c', R, rfl, by simp [glue]⟩
    rw [walkComponents]
    split
    · rename_i e hlook
      refine ⟨fun buf e' h => ⟨[], (sep, c), ps, rfl, ?_⟩, ?_⟩
      · split at h <;> cases h <;> simp_all [glue]
      · intro front target rest h
        split at h <;> cases h
    · split
      · split
        · exact hrest _ rfl
        · refine ⟨fun buf e h => ?_, fun front target rest h => ⟨[], sep, c, ps, rfl, ?_⟩⟩
          · cases h
          · cases h
            simp [glue]
      · exact hrest _ rfl

/-- A spelling that a pass says is absent cannot be opened. -/
lemma walk_absent (habs : isAbsolute cur) (h : walkComponents s follow cur []
      (pieces slash cur).2 (pieces slash cur).1 = .absent buf e) (f : Bool) (n : Node) :
    s.tree.lookup f s.links [] buf ≠ .ok n := by
  intro hn
  obtain ⟨ps, tail, hps, hcut, htail, hcomps, -⟩ := absolute_pieces habs
  rw [hps] at h
  obtain ⟨D, p, R, rfl, hlook, hend⟩ := (walkComponents_stop cur tail [] ps).1 buf e h
  rw [nil_append] at hlook hend
  -- the spelling up to the component that is not there
  have hsplit : D ++ p :: R = (D ++ [p]) ++ R := by simp
  rw [hsplit] at hcut hcomps
  have hcutD := (wellCut_append.mp hcut).1
  set up := glue D ++ p.1 ++ p.2
  have hup : up = glue (D ++ [p]) ++ [] := by
    simp [up, glue]
  have hupabs : isAbsolute up := by
    rw [hup]
    exact glue_absolute hcutD (by simp) []
  have hupcomps : components up = (D ++ [p]).map Prod.snd := by
    rw [hup]
    exact components_glue hcutD (by simp)
  have hupwalk : walkComps up = components up := by
    rw [hupcomps, hup, walkComps_glue hcutD (by simp)]
    simp
  have hupne : components up ≠ [] := by
    rw [hupcomps]
    simp
  have hxne : s.text ++ up ≠ [] := by
    intro hnil
    have := (append_eq_nil_iff.mp hnil).2
    rw [this] at hupabs
    cases hupabs
  have hxlast : walkComps (s.text ++ up) = components (s.text ++ up) := by
    rw [walkComps_spelled hupabs hupne, components_spelled hupabs, hupwalk]
  have hbehind : ∃ R', components buf = components (s.text ++ up) ++ R' := by
    rcases hend with rfl | rfl
    · exact ⟨[], by rw [append_nil]⟩
    refine ⟨R.map Prod.snd, ?_⟩
    rw [components_spelled habs, components_spelled hupabs, hcomps, hupcomps,
      map_append, append_assoc]
  obtain ⟨R', hR'⟩ := hbehind
  obtain ⟨q, hq⟩ := lookup_behind hxne hxlast hR' hn
  rw [hlook] at hq
  cases hq

def ByteExact.Gone (s : Sysroot) (follow : Bool) (r : ByteExact) : Prop :=
  ∀ e, r.verdict = .absent e → ∀ n, s.tree.lookup follow s.links [] r.buf ≠ .ok n

lemma byteExactStop_gone
    (habsent : ∀ buf e, stop = .absent buf e → ∀ f n, s.tree.lookup f s.links [] buf ≠ .ok n) :
    (byteExactStop s follow cur relative stop).Gone s follow := by
  cases stop with
  | absent buf e => exact fun _ _ n => habsent buf e rfl follow n
  | link pre target rest => exact fun e he => (by cases he)
  | done =>
    rw [byteExactStop]
    cases hlook : s.tree.lookup follow s.links [] (s.text ++ cur) with
    | ok n => exact fun e he => (by cases he)
    | error e =>
      intro _ _ n hn
      grind

lemma byteExactLoop_gone (relative : Bool) (habs : isAbsolute cur) :
    (byteExactLoop s follow links cur relative).Gone s follow := by
  induction links generalizing cur relative with
  | zero => exact byteExactStop_gone fun buf e h => walk_absent habs h
  | succ links ih =>
    rw [byteExactLoop]
    cases hstop : walkComponents s follow cur [] (pieces slash cur).2 (pieces slash cur).1 with
    | link front target rest =>
      obtain ⟨ps, tail, hps, hcut, -⟩ := absolute_pieces habs
      rw [hps] at hstop
      obtain ⟨D, sep, c, R, rfl, rfl⟩ :=
        (walkComponents_stop cur tail [] ps).2 front target rest hstop
      exact ih _ (clamp_spec (splice_absolute hcut)).1
    | absent buf e => exact byteExactStop_gone fun b e' h => walk_absent habs (hstop.trans h)
    | done => exact byteExactStop_gone fun b e' h => by cases h

/-! ### What the comparison says -/

lemma components_slash (x : Text) : components (x ++ [slash]) = components x := by
  rw [components, segments_append_sep, segments_nil, append_nil]
  rfl

lemma contained_follow (hc : sysrootPathIsContained s buf true)
    (h : s.tree.lookup true s.links [] buf = .ok n) : s.root <+: n := by
  rw [sysrootPathIsContained, if_pos rfl, h] at hc
  exact (startsInSysroot_render (lookup_kind h).1).mp hc

lemma prefix_components (h : startsInSysroot s x) : s.root <+: components x := by
  have hne : s.tree.kind s.root ≠ none := by simp [s.root_dir]
  rw [startsInSysroot_eq] at h
  split at h
  · grind
  · have hpre := prefix_of_startsWithin h
    rwa [Sysroot.text, ← components, ← components, components_render hne] at hpre

variable {base parent : Text}

lemma components_cut (h : cutLast slash x = some (parent, base)) (hbase : base ≠ []) :
    components x = components parent ++ [base] ∧ walkComps x = components x := by
  obtain ⟨rfl, hslash⟩ := cutLast_eq_some h
  have hcomps : components (parent ++ slash :: base) = components parent ++ [base] := by
    rw [components, segments_append_sep, segments_of_not_mem hslash hbase]
    rfl
  refine ⟨hcomps, ?_⟩
  have hlast : (parent ++ slash :: base).getLast? ≠ some slash := by
    grind
  rw [walkComps, if_neg fun hc => hlast hc.1, append_nil]

/-- A path of which only the parent was followed. -/
lemma contained_noFollow (hc : sysrootPathIsContained s buf false)
    (h : s.tree.lookup false s.links [] buf = .ok n) : s.root <+: n := by
  obtain ⟨hne, left, hres⟩ := lookup_eq_ok.mp h
  rw [sysrootPathIsContained, if_neg (by simp)] at hc
  cases hcut : cutLast slash buf with
  | none =>
    rw [hcut] at hc
    cases hc
  | some cut =>
    obtain ⟨parent, base⟩ := cut
    rw [hcut] at hc
    dsimp only at hc
    by_cases hdots : base = dotdot ∨ base = dot
    · -- a dot entry is no link: the whole path was followed
      rw [if_pos hdots] at hc
      have hbase : base ≠ [] := by
        rcases hdots with rfl | rfl <;> decide
      obtain ⟨hcomps, hwalk⟩ := components_cut hcut hbase
      rw [hwalk, hcomps] at hres
      obtain ⟨m, left', hA, hm, hend⟩ := resolve_node_append s.tree.root_dir (by simp) hres
      have hsame : ∃ q, ∀ f, s.tree.scan f m [base] = .node q := by
        rcases hdots with rfl | rfl
        · exact ⟨m.dropLast, fun f => scan_dotdot⟩
        · exact ⟨m, fun f => scan_dot⟩
      obtain ⟨q, hq⟩ := hsame
      rw [resolve_of_scan (hq false) (by simp)] at hend
      have htrue : s.tree.lookup true s.links [] buf = .ok n := by
        refine lookup_eq_ok.mpr ⟨hne, left, ?_⟩
        rw [hwalk, hcomps, resolve_append s.tree.root_dir (by simp), hA, Outcome.andThen,
          if_pos hm, resolve_of_scan (hq true) (by simp), hend]
      rw [htrue] at hc
      exact (startsInSysroot_render (lookup_kind htrue).1).mp hc
    rw [if_neg hdots] at hc
    by_cases hparent : parent = []
    · rw [if_pos hparent] at hc
      cases hc
    rw [if_neg hparent] at hc
    -- the node is below the parent, under its name
    have hnode : ∃ np, s.tree.lookup true s.links [] parent = .ok np ∧
        n = np ++ components base := by
      by_cases hbase : base = []
      · subst hbase
        obtain ⟨rfl, -⟩ := cutLast_eq_some hcut
        have hslash : (parent ++ [slash]).getLast? = some slash := by simp
        obtain ⟨-, left', hA, hn⟩ := lookup_slash hslash h
        have hcomps : components (parent ++ [slash]) = components parent := by
          rw [components, segments_append_sep, segments_nil, append_nil]
          rfl
        rw [hcomps] at hA
        exact ⟨n, lookup_of_components hparent hA (.inr (.inr hn)), (append_nil n).symm⟩
      obtain ⟨hcomps, hwalk⟩ := components_cut hcut hbase
      obtain ⟨rfl, hslash⟩ := cutLast_eq_some hcut
      rw [not_or] at hdots
      rw [hwalk, hcomps] at hres
      obtain ⟨m, left', hA, hm, hend⟩ := resolve_node_append s.tree.root_dir (by simp) hres
      refine ⟨m, lookup_of_components hparent hA (.inr (.inr hm)), ?_⟩
      have hone := scan_one s.tree m base
      rw [if_neg hdots.2, if_neg hdots.1] at hone
      rw [components, segments_of_not_mem hslash hbase]
      split at hone
      · rw [resolve_of_scan hone (by simp)] at hend
        cases hend
      rw [resolve_of_scan hone (by simp)] at hend
      cases hend
      rfl
    obtain ⟨np, hlook, rfl⟩ := hnode
    rw [hlook] at hc
    have hpre := prefix_components hc
    rwa [components_below (lookup_kind hlook).1] at hpre

/-! ### Looking up -/

/-- The text that `proc_resolve_sysroot_path_flags` hands over for a path that the sysroot does not
hold. -/
def fallbackText (s : Sysroot) (path : Text) (follow : Bool) : Option Text :=
  let clamped := (sysrootSeedHostPath s path follow).1
  let r := resolveByteExactThroughLinks s clamped follow
  match r.verdict with
  | .absent e =>
    if forcedPath (lexicalNormalizeAbsolutePath clamped) ∨ e = .ENOTDIR then none
    else (sysrootFallback s path clamped r.guestOut r.buf follow false r.followedRelative).toOption
  | _ => none

lemma found_contained (hc : sysrootPathIsContained s buf follow)
    (hn : s.tree.lookup follow s.links [] buf = .ok n) : s.root <+: n := by
  cases follow with
  | true => exact contained_follow hc hn
  | false => exact contained_noFollow hc hn

/-- A text that begins with the sysroot goes on with a slash, or ends there. -/
lemma starts_split (hroot : s.root ≠ []) (h : startsInSysroot s x) :
    ∃ y, x = s.text ++ y ∧ (y = [] ∨ isAbsolute y) := by
  rw [startsInSysroot_eq, if_neg hroot, startsWithin, Bool.and_eq_true, isPrefixOf_iff_prefix] at h
  obtain ⟨⟨y, rfl⟩, hy⟩ := h
  rw [drop_left, Bool.or_eq_true, beq_iff_eq, beq_iff_eq] at hy
  exact ⟨y, rfl, hy.imp head?_eq_none_iff.mp isAbsolute_iff.mpr⟩

lemma seed_absolute (follow : Bool) (hroot : s.root ≠ []) (habs : isAbsolute path) :
    isAbsolute (sysrootSeedHostPath s path follow).1 := by
  rw [sysrootSeedHostPath]
  dsimp only
  split
  · rename_i hin
    obtain ⟨y, hy, hcase⟩ := starts_split hroot hin
    rw [hy, if_neg (mt text_length.mp hroot), drop_left]
    split
    · rfl
    · rename_i hne
      exact hcase.resolve_left hne
  · exact (clamp_spec habs).1

/-- Every way out of a lookup hands over a path that was compared, one that cannot be opened, or the
text of the fallback. -/
lemma resolved_cases (hroot : s.root ≠ []) (habs : isAbsolute path)
    (h : procResolveSysrootPathFlags s path follow = .ok host)
    (hn : s.tree.lookup follow s.links [] host = .ok n) :
    s.root <+: n ∨ fallbackText s path follow = some host := by
  rw [procResolveSysrootPathFlags, habs, Bool.not_true, if_neg (by simp)] at h
  dsimp only at h
  split at h
  · -- the spelling was probed as it is
    rename_i hforced
    rw [finishLookup] at h
    cases hlook : s.tree.lookup follow s.links [] (sysrootSeedHostPath s path follow).2 with
    | ok m =>
      simp only [hlook] at h
      split at h <;> cases h
      exact .inl (found_contained ‹_› hn)
    | error e =>
      simp only [hlook, sysrootFallback, Bool.not_true, Bool.false_and, Bool.false_eq_true,
          if_false,
        hforced, if_true, ite_self] at h
      cases h
      rw [hlook] at hn
      cases hn
  · rename_i hforced
    have hgone : (resolveByteExactThroughLinks s (sysrootSeedHostPath s path follow).1 follow).Gone
        s follow := byteExactLoop_gone false (seed_absolute follow hroot habs)
    rw [finishLookup] at h
    unfold fallbackText
    dsimp only
    cases hv : (resolveByteExactThroughLinks s (sysrootSeedHostPath s path follow).1
      follow).verdict with
    | error e =>
      rw [hv] at h
      cases h
    | found =>
      rw [hv] at h
      dsimp only at h
      split at h <;> cases h
      exact .inl (found_contained ‹_› hn)
    | absent e =>
      rw [hv] at h
      dsimp only at h ⊢
      split at h
      · cases h
        exact absurd hn (hgone e hv n)
      · rename_i he
        rw [if_neg (not_or.mpr ⟨hforced, he⟩), h]
        exact .inr rfl

lemma resolve_of_fallback (habs : isAbsolute path) (h : fallbackText s path follow = some host) :
    procResolveSysrootPathFlags s path follow = .ok host := by
  unfold fallbackText at h
  dsimp only at h
  split at h
  · rename_i e hv
    split at h
    · cases h
    rename_i hno
    rw [not_or] at hno
    rw [procResolveSysrootPathFlags, habs, Bool.not_true, if_neg (by simp)]
    dsimp only
    rw [if_neg hno.1, finishLookup, hv]
    dsimp only
    rw [if_neg hno.2]
    cases hf : sysrootFallback s path (sysrootSeedHostPath s path follow).1 _ _ follow false _ with
    | error e =>
      rw [hf] at h
      cases h
    | ok x =>
      rw [hf] at h
      cases h
      rfl
  · cases h

/-! ### Creating -/

variable {node : Node} {f : OpenFlags}

lemma opened_dir_create (hf : f.create) (hn : t.kind n = some .dir) :
    (Outcome.node n left).opened t f ≠ .ok node := by
  intro h
  have hread := (opened_node h).2 hn
  rw [hf] at hread
  cases hread.1

/-- What is created below a parent that was compared, when a last link is not followed. -/
lemma contained_create {r : Node} (hparent : parent ≠ [])
    (hcomps : components x = components parent ++ [base])
    (hin : ∀ np, t.lookup true links [] parent = .ok np → r <+: np) (hf : f.create)
    (hlast : f.follows = false) (h : t.openat links [] x f = .ok node) : r <+: node := by
  rw [Tree.openat, targetStart_nil, hlast] at h
  split at h
  · cases h
  have hwalk : ∃ E, walkComps x = components parent ++ base :: E ∧ (E = [] ∨ E = [dot]) := by
    rcases walkComps_cases x with hw | hw
    · exact ⟨[], by rw [hw, hcomps], .inl rfl⟩
    · exact ⟨[dot], by rw [hw, hcomps, append_assoc]; rfl, .inr rfl⟩
  obtain ⟨E, hE, hcases⟩ := hwalk
  rw [hE, resolve_append t.root_dir (by simp)] at h
  cases hA : t.resolve true links [] (components parent) with
  | missing | fail =>
    rw [hA] at h
    cases h
  | node np l =>
    rw [hA, Outcome.andThen] at h
    split at h
    · rename_i hdir
      have hnp := hin np (lookup_of_components hparent hA (.inr (.inr hdir)))
      rcases hcases with rfl | rfl
      · -- the entry itself
        have hone := scan_one t np base
        have hother : ∀ sc, t.scan false np [base] = sc → (∀ a b c, sc ≠ .link a b c) →
            (sc.stop l).opened t f = .ok node := by
          intro sc hsc hno
          rwa [resolve_of_scan hsc hno] at h
        split at hone
        · exact absurd (hother _ hone (by simp)) (opened_dir_create hf hdir)
        split at hone
        · exact absurd (hother _ hone (by simp)) (opened_dir_create hf (t.kind_dropLast hdir))
        grind [Scan.stop, Outcome.opened, opened_node]
      -- a slash behind it asks for a directory
      rw [← singleton_append, resolve_append hdir (by simp)] at h
      cases hB : t.resolve true l np [base] with
      | node q l' =>
        rw [hB, Outcome.andThen] at h
        split at h
        · rename_i hq
          rw [resolve_of_scan (s := .node q) scan_dot (by simp)] at h
          exact absurd h (opened_dir_create hf hq)
        · cases h
      | missing | fail =>
        rw [hB] at h
        cases h
    · cases h

variable {s' : Sysroot} {createParents : Bool} {flags : ℕ}

lemma mkdir_root (h : s.mkdir x = .ok s') : s'.root = s.root ∧ s'.links = s.links := by
  grind [Sysroot.mkdir]

lemma ensureDirs_root (xs : List Text) :
    (ensureDirs s xs).1.root = s.root ∧ (ensureDirs s xs).1.links = s.links := by
  induction xs generalizing s with
  | nil => exact ⟨rfl, rfl⟩
  | cons x xs ih =>
    rw [ensureDirs]
    split
    · rename_i s' hs'
      obtain ⟨hroot, hlinks⟩ := mkdir_root hs'
      rw [← hroot, ← hlinks]
      exact ih
    · grind
    · exact ⟨rfl, rfl⟩

lemma trimSlashes_spec (hbuf : components buf ≠ []) :
    components (trimSlashes buf) = components buf ∧ (trimSlashes buf).getLast? ≠ some slash := by
  have hdrop : dropSlashes buf ≠ [] := mt dropSlashes_eq_nil.mp hbuf
  rw [trimSlashes, if_neg hdrop]
  constructor
  · have hsplit : buf = (dropSlashes buf.reverse).reverse ++
        (buf.reverse.takeWhile (· == slash)).reverse := by
      rw [← reverse_append, dropSlashes, takeWhile_append_dropWhile, reverse_reverse]
    have hrun : ∀ c ∈ (buf.reverse.takeWhile (· == slash)).reverse, c = slash := by
      intro c hc
      simpa using mem_takeWhile_imp (mem_reverse.mp hc)
    conv_rhs => rw [hsplit]
    exact (segments_append_run hrun _).symm
  · intro hlast
    rw [getLast?_reverse, dropSlashes] at hlast
    have hnot := head?_dropWhile_not (· == slash) buf.reverse
    rw [hlast] at hnot
    simp at hnot

lemma components_trim_cut (hbuf : components buf ≠ [])
    (h : cutLast slash (trimSlashes buf) = some (parent, base)) :
    components buf = components parent ++ [base] := by
  obtain ⟨hcomps, hlast⟩ := trimSlashes_spec hbuf
  have hbase : base ≠ [] := by
    rintro rfl
    rw [(cutLast_eq_some h).1] at hlast
    simp at hlast
  rw [← hcomps, (components_cut h hbase).1]

/-- The ways out of `proc_resolve_sysroot_create_path` that spell the sysroot: what the
parent leads to there was compared with it, if it leads anywhere. -/
lemma finishCreate_spec (hpath : host = path → path = buf)
    (h : finishCreate s path clamped buf parent createParents = (s', .ok host)) :
    host = buf ∧ s'.links = s.links ∧
      ∀ np, s'.tree.lookup true s'.links [] parent = .ok np → s.root <+: np := by
  rw [finishCreate] at h
  cases hlook : s.tree.lookup true s.links [] parent with
  | ok np =>
    rw [hlook] at h
    dsimp only at h
    split at h
    · rename_i hc
      cases h
      exact ⟨rfl, rfl, fun np hnp => contained_follow hc hnp⟩
    · cases h
  | error e =>
    rw [hlook] at h
    dsimp only at h
    split at h
    · cases h
    split at h
    · cases h
      exact ⟨hpath rfl, rfl, by simp [hlook]⟩
    split at h
    · -- the parent is not there, and is not made
      cases hval : sysrootValidateDirPrefix s parent with
      | error e =>
        rw [hval] at h
        cases h
      | ok u =>
        rw [hval] at h
        cases h
        simp [hlook]
    have hmade : (sysrootEnsureDirExists s parent).1.root = s.root ∧
        (sysrootEnsureDirExists s parent).1.links = s.links := by
      rw [sysrootEnsureDirExists]
      split
      · exact ⟨rfl, rfl⟩
      · exact ensureDirs_root _
    cases hens : sysrootEnsureDirExists s parent with
    | mk made result =>
      rw [hens] at h hmade
      cases result with
      | error e => cases h
      | ok u =>
        dsimp only at h
        split at h
        · rename_i hc
          cases h
          refine ⟨rfl, hmade.2, fun np hnp => ?_⟩
          rw [← hmade.1]
          exact contained_follow hc hnp
        · cases h

/-- A path that names the sysroot as the host does is taken as it is. -/
lemma seed_spelled (hroot : s.root ≠ []) (h : startsInSysroot s path) :
    ∃ x, path = s.text ++ x ∧ (x = [] ∨ isAbsolute x) ∧
      sysrootSeedHostPath s path false = (if x = [] then [slash] else x, path) := by
  obtain ⟨x, rfl, hx⟩ := starts_split hroot h
  refine ⟨x, rfl, hx, ?_⟩
  rw [sysrootSeedHostPath]
  have hread : hostReading s (s.text ++ x) false = s.text ++ x := rfl
  rw [hread, if_pos h, if_neg (mt text_length.mp hroot), drop_left]

lemma seed_create (hroot : s.root ≠ []) (habs : isAbsolute path) :
    components (sysrootSeedHostPath s path false).2 =
      s.root ++ components (sysrootSeedHostPath s path false).1 := by
  by_cases h : startsInSysroot s path
  · obtain ⟨x, rfl, hx, hseed⟩ := seed_spelled hroot h
    rw [hseed]
    rcases hx with rfl | hx
    · have hslash := components_spelled (s := s) (x := [slash]) rfl
      rwa [components_slash, ← append_nil s.text] at hslash
    · rw [if_neg (by rintro rfl; cases hx)]
      exact components_spelled hx
  · have hseed : sysrootSeedHostPath s path false =
        (clampDotdotAtGuestRoot path, s.text ++ clampDotdotAtGuestRoot path) := by
      rw [sysrootSeedHostPath]
      exact if_neg h
    rw [hseed]
    exact components_spelled (clamp_spec habs).1

/-- Where the open behind a create ends, if it does not follow a last link. -/
lemma created_contained (hroot : s.root ≠ []) (habs : isAbsolute path)
    (h : procResolveSysrootCreatePath s path createParents = (s', .ok host))
    (hpath : host = path → startsInSysroot s path) (hx : components x = components host)
    (hf : f.create) (hlast : f.follows = false)
    (hopen : s'.tree.openat s.links [] x f = .ok node) : s.root <+: node := by
  have hself : startsInSysroot s path → path = (sysrootSeedHostPath s path false).2 := by
    intro hin
    obtain ⟨y, -, -, hseed⟩ := seed_spelled hroot hin
    rw [hseed]
  have hbuf := seed_create hroot habs
  rw [procResolveSysrootCreatePath, habs] at h
  dsimp only at h
  rw [Bool.not_true, if_neg (by simp)] at h
  generalize (sysrootSeedHostPath s path false).2 = buf at h hself hbuf
  generalize (sysrootSeedHostPath s path false).1 = clamped at h hbuf
  split at h
  · -- the root of the guest is a directory
    rename_i hslashes
    cases h
    rw [hbuf, dropSlashes_eq_nil.mp hslashes, append_nil] at hx
    have hres : s.tree.resolve f.follows s.links [] (walkComps x) = .node s.root s.links := by
      rcases walkComps_cases x with hw | hw
      · rw [hw, hx, ← append_nil s.root, resolve_dir _ _ [] s.root_dir, append_nil]
        exact resolve_of_scan (s := .node s.root) rfl (by simp)
      · rw [hw, hx, resolve_dir _ _ [dot] s.root_dir]
        exact resolve_of_scan (s := .node s.root) scan_dot (by simp)
    rw [Tree.openat, targetStart_nil, hres] at hopen
    split at hopen
    · cases hopen
    · exact absurd hopen (opened_dir_create hf s.root_dir)
  rename_i hslashes
  have hne : components clamped ≠ [] := mt dropSlashes_eq_nil.mpr hslashes
  have hlen : 2 ≤ (components buf).length := by
    have h1 := length_pos_iff.mpr hroot
    have h2 := length_pos_iff.mpr hne
    rw [hbuf, length_append]
    omega
  have hbufne : components buf ≠ [] := by
    grind
  cases hcut : cutLast slash (trimSlashes buf) with
  | none =>
    -- a path below the sysroot has two slashes at least
    have hno := cutLast_eq_none.mp hcut
    have hsegs := (trimSlashes_spec hbufne).1
    rw [← hsegs] at hlen hbufne
    have htrim : trimSlashes buf ≠ [] := by
      intro hnil
      rw [hnil] at hbufne
      exact hbufne rfl
    rw [components, segments_of_not_mem hno htrim] at hlen
    simp at hlen
  | some cut =>
    obtain ⟨parent, base⟩ := cut
    have hcomps := components_trim_cut hbufne hcut
    have hparent : parent ≠ [] := by
      rintro rfl
      rw [hcomps] at hlen
      simp [components] at hlen
    rw [hcut] at h
    dsimp only at h
    rw [if_neg hparent] at h
    obtain ⟨rfl, hlinks, hspec⟩ := finishCreate_spec (fun heq => hself (hpath heq)) h
    rw [← hlinks] at hopen
    exact contained_create hparent (hx.trans hcomps) hspec hf hlast hopen

/-! ### The open -/

/-- The components that folding keeps: a `.` only at the end. -/
def keptNames (cs : List Text) : List Text := cs.dropLast.filter (· ≠ dot) ++ cs.getLast?.toList

lemma keptNames_sub (h : c ∈ keptNames L) : c ∈ L := by
  rw [keptNames, mem_append, mem_filter, Option.mem_toList] at h
  exact h.elim (fun h => (dropLast_sublist L).mem h.1) mem_of_getLast?

lemma foldPieces_cons (p : Text × Text) (ps : List (Text × Text)) : foldPieces (p :: ps) =
    if p.2 = dot ∧ ps ≠ [] then foldPieces ps else p.2 :: foldPieces ps := by
  cases ps <;> simp [foldPieces]

lemma foldPieces_eq (ps : List (Text × Text)) : foldPieces ps = keptNames (ps.map Prod.snd) := by
  induction ps with
  | nil => rfl
  | cons p ps ih =>
    rw [foldPieces_cons, ih]
    cases ps with
    | nil => simp [keptNames]
    | cons q ps => by_cases hp : p.2 = dot <;> simp [keptNames, hp]

lemma keptNames_good : ∀ c ∈ keptNames (components path), c ≠ [] ∧ slash ∉ c :=
  fun _ hc => mem_segments (keptNames_sub hc)

lemma fold_eq (habs : isAbsolute path) :
    pathFoldComponents path = prefixed slash (keptNames (components path)) ++
      if path.getLast? = some slash then [slash] else [] := by
  have htext := @pieces_text _ _ slash path
  obtain ⟨ps, tail, hps, hcut, htail, hcomps, -⟩ := absolute_pieces habs
  rw [hps] at htext
  have hne : glue ps ++ tail ≠ [] := by
    rw [htext]
    rintro rfl
    cases habs
  have hlast := getLast_glue hcut htail hne
  rw [htext] at hlast
  rw [pathFoldComponents, hps, hcomps, foldPieces_eq]
  by_cases hnil : tail = [] <;> simp [hlast, hnil]

lemma components_fold (habs : isAbsolute path) :
    components (pathFoldComponents path) = keptNames (components path) := by
  rw [fold_eq habs, ← glue_slashed, components_glue (wellCut_slashed keptNames_good) (by simp),
    map_map]
  exact map_id _

lemma fold_absolute (habs : isAbsolute path) : isAbsolute (pathFoldComponents path) := by
  rw [fold_eq habs]
  by_cases hnil : components path = []
  · -- only slashes, so there is one at the end
    have hne : path ≠ [] := by
      rintro rfl
      cases habs
    have hlast := segments_eq_nil.mp hnil _ (getLast_mem hne)
    rw [hnil, getLast?_eq_some_getLast hne, hlast, if_pos rfl]
    rfl
  · rw [← glue_slashed]
    exact glue_absolute (wellCut_slashed keptNames_good) (by simp [keptNames, hnil]) _

lemma openat_lookup (hf : f.create = false) (h : t.openat links [] x f = .ok node) :
    t.lookup f.follows links [] x = .ok node := by
  rw [Tree.openat, targetStart_nil] at h
  split at h
  · cases h
  rename_i hx
  cases hres : t.resolve f.follows links [] (walkComps x) with
  | node p l =>
    rw [hres] at h
    rw [(opened_node h).1]
    exact lookup_eq_ok.mpr ⟨hx, l, hres⟩
  | missing d c l =>
    rw [hres, Outcome.opened, hf] at h
    cases h
  | fail e =>
    rw [hres] at h
    cases h

def CreatesNoFollow (flags : ℕ) : Prop :=
  hasFlag flags linuxOCreat = true → hasFlag flags linuxOPath = false →
    hasFlag flags linuxODirectory = false →
    hasFlag flags linuxOExcl = true ∨ hasFlag flags linuxONofollow = true

lemma slash_components (b : Bool) (x : Text) :
    components (if b then x ++ [slash] else x) = components x := by
  cases b
  · rfl
  · exact components_slash x

def foldedGuest (path : Text) : Text :=
  if pathHasFoldable path then pathFoldComponents path else path

/-- A slash at the end of the guest path is put back. -/
def slashBack (guest found : Text) : Text :=
  if pathHasTrailingSlash guest && !pathHasTrailingSlash found then found ++ [slash] else found

lemma foldedGuest_absolute (habs : isAbsolute path) : isAbsolute (foldedGuest path) := by
  unfold foldedGuest
  split
  · exact fold_absolute habs
  · exact habs

def lookupFollows (path : Text) (flags : ℕ) : Bool :=
  !(hasFlag flags linuxONofollow && !pathHasTrailingSlash (foldedGuest path))

lemma translate_lookup (s : Sysroot) (path : Text) (flags : ℕ) :
    pathTranslateAt s path ⟨hasFlag flags linuxONofollow, false, false⟩ =
      (s, (procResolveSysrootPathFlags s (foldedGuest path) (lookupFollows path flags)).map
        (slashBack (foldedGuest path))) := by
  unfold pathTranslateAt lookupFollows
  change (_, _) = _
  rw [← foldedGuest]
  cases hasFlag flags linuxONofollow && !pathHasTrailingSlash (foldedGuest path) <;> rfl

/-- The open of what the fallback of a lookup hands over stays in the sysroot, if the text begins
with it. -/
def FallbackStays (s : Sysroot) (path : Text) (flags : ℕ) : Prop :=
  (hasFlag flags linuxOCreat && !hasFlag flags linuxOPath) = false → ∀ found node,
    fallbackText s (foldedGuest path) (lookupFollows path flags) = some found →
    startsInSysroot s (slashBack (foldedGuest path) found) = true →
    s.tree.openat s.links [] (slashBack (foldedGuest path) found) (translateOpenFlags flags) =
      .ok node → s.root <+: node

/-- Every open whose host path begins with the sysroot ends in it. -/
def OpenStays (s : Sysroot) (path : Text) (flags : ℕ) : Prop :=
  ∀ host node, sysOpenatSysroot s path flags = .ok (host, node) →
    startsInSysroot s host = true → s.root <+: node

lemma translateOpenFlags_follows (flags : ℕ)
    (hc : (hasFlag flags linuxOCreat && !hasFlag flags linuxOPath) = false) :
    (translateOpenFlags flags).create = false ∧
      (translateOpenFlags flags).follows = !hasFlag flags linuxONofollow := by
  rw [translateOpenFlags]
  split
  · exact ⟨rfl, by simp [OpenFlags.follows]⟩
  rename_i hp
  rw [Bool.not_eq_true] at hp
  rw [hp, Bool.not_false, Bool.and_true] at hc
  exact ⟨hc, by simp [OpenFlags.follows, hc]⟩

lemma sysOpenat_lookup (hc : (hasFlag flags linuxOCreat && !hasFlag flags linuxOPath) = false) :
    sysOpenatSysroot s path flags =
      ((procResolveSysrootPathFlags s (foldedGuest path) (lookupFollows path flags)).map
        (slashBack (foldedGuest path))).bind fun host =>
          (s.tree.openat s.links [] host (translateOpenFlags flags)).map fun node =>
              (host, node) := by
  rw [sysOpenatSysroot, hc, Bool.and_false, if_neg (by simp), if_neg (by simp), translate_lookup]

/-- A lookup: what it finds was compared, or comes from the fallback. -/
lemma lookup_stays (hc : (hasFlag flags linuxOCreat && !hasFlag flags linuxOPath) = false)
    (hroot : s.root ≠ []) (habs : isAbsolute path) (hfall : FallbackStays s path flags) :
    OpenStays s path flags := by
  intro host node h hin
  rw [sysOpenat_lookup hc] at h
  cases hres : procResolveSysrootPathFlags s (foldedGuest path) (lookupFollows path flags) with
  | error e =>
    rw [hres] at h
    cases h
  | ok found =>
  rw [hres] at h
  change (s.tree.openat s.links [] (slashBack (foldedGuest path) found) _).map _ = _ at h
  cases hopen : s.tree.openat s.links [] (slashBack (foldedGuest path) found)
      (translateOpenFlags flags) with
  | error e =>
    rw [hopen] at h
    cases h
  | ok node' =>
  rw [hopen] at h
  cases h
  obtain ⟨hf, hfollows⟩ := translateOpenFlags_follows flags hc
  have hlook := openat_lookup hf hopen
  rw [hfollows] at hlook
  have hfound : s.tree.lookup (lookupFollows path flags) s.links [] found = .ok node := by
    have hcomps : components (slashBack (foldedGuest path) found) = components found :=
      slash_components _ found
    have hin' := prefix_components hin
    rw [hcomps] at hin'
    unfold lookupFollows
    generalize foldedGuest path = guest at hlook hcomps
    by_cases hback : (pathHasTrailingSlash guest && !pathHasTrailingSlash found)
    · -- the slash was put back: the path was followed, and so is the open
      have hhost : slashBack guest found = found ++ [slash] := if_pos hback
      rw [Bool.and_eq_true] at hback
      rw [hback.1, Bool.not_true, Bool.and_false, Bool.not_false]
      have hne : found ≠ [] := by
        rintro rfl
        exact hroot (prefix_nil.mp hin')
      obtain ⟨-, l, hres, hdir⟩ := lookup_slash (by rw [hhost]; simp) hlook
      rw [hcomps] at hres
      exact lookup_of_components hne hres (.inr (.inr hdir))
    rw [slashBack, if_neg hback] at hlook
    cases hn : hasFlag flags linuxONofollow with
    | false => rwa [hn] at hlook
    | true =>
      rw [hn] at hlook
      cases hg : pathHasTrailingSlash guest with
      | false => exact hlook
      | true =>
        rw [hg, Bool.true_and, Bool.not_eq_true, Bool.not_eq_false'] at hback
        rw [pathHasTrailingSlash, Bool.and_eq_true, beq_iff_eq] at hback
        exact (lookup_slash hback.2 hlook).1
  rcases resolved_cases hroot (foldedGuest_absolute habs) hres hfound with hpre | hfb
  · exact hpre
  · exact hfall hc found node hfb hin hopen

/-- A create that does not follow a last link. -/
lemma create_stays (hflags : CreatesNoFollow flags) (hroot : s.root ≠ []) (habs : isAbsolute path)
    (hc : (hasFlag flags linuxOCreat && !hasFlag flags linuxOPath) = true) :
    OpenStays s path flags := by
  intro host node h hin
  rw [sysOpenatSysroot, hc, if_pos rfl, Bool.and_true] at h
  split at h
  · cases h
  rename_i hdir
  rw [Bool.and_eq_true, Bool.not_eq_true'] at hc
  rw [Bool.not_eq_true] at hdir
  change (((procResolveSysrootCreatePath s (foldedGuest path) true).2.map
    (slashBack (foldedGuest path))).bind _) = _ at h
  cases hres : procResolveSysrootCreatePath s (foldedGuest path) true with
  | mk s' result =>
  have htree : (pathTranslateAt s path ⟨false, true, true⟩).1 = s' := by
    change (procResolveSysrootCreatePath s (foldedGuest path) true).1 = s'
    rw [hres]
  rw [hres, htree] at h
  cases result with
  | error e => cases h
  | ok found =>
  change (s'.tree.openat s.links [] (slashBack (foldedGuest path) found) _).map _ = _ at h
  cases hopen : s'.tree.openat s.links [] (slashBack (foldedGuest path) found)
      (translateOpenFlags flags) with
  | error e =>
    rw [hopen] at h
    cases h
  | ok node' =>
  rw [hopen] at h
  cases h
  have hlast := hflags hc.1 hc.2 hdir
  have hf : (translateOpenFlags flags).create := by
    rw [translateOpenFlags, hc.2, if_neg (by simp)]
    exact hc.1
  have hfollows : (translateOpenFlags flags).follows = false := by
    rw [translateOpenFlags, hc.2, if_neg (by simp), OpenFlags.follows]
    rcases hlast with hl | hl <;> simp [hl, hc.1]
  refine created_contained hroot (foldedGuest_absolute habs) hres (fun heq => ?_)
    (slash_components _ found) hf hfollows hopen
  -- the guest path itself has its slash
  rwa [heq, slashBack, Bool.and_not_self, if_neg (by simp)] at hin

lemma open_stays (hflags : CreatesNoFollow flags) (hroot : s.root ≠ []) (habs : isAbsolute path)
    (hfall : FallbackStays s path flags) : OpenStays s path flags := by
  cases hc : hasFlag flags linuxOCreat && !hasFlag flags linuxOPath with
  | true => exact create_stays hflags hroot habs hc
  | false => exact lookup_stays hc hroot habs hfall

lemma fallback_stays (habs : isAbsolute path) (h : OpenStays s path flags) :
    FallbackStays s path flags := by
  intro hc found node hfb hin hopen
  refine h (slashBack (foldedGuest path) found) node ?_ hin
  rw [sysOpenat_lookup hc, resolve_of_fallback (foldedGuest_absolute habs) hfb]
  change (s.tree.openat s.links [] (slashBack (foldedGuest path) found) _).map _ = _
  rw [hopen]
  rfl

/-! ### Opens that leave the sysroot -/

def outLink : Sysroot where
  tree := Tree.ofEntries [([[115]], .dir), ([[115], [108]], .link [47, 120])] (by decide)
  links := 32
  root := [[115]]
  root_dir := by decide

/-- Creating through a link at the end of the path lands where the link points. -/
lemma outLink_created (hcreat : hasFlag flags linuxOCreat)
    (hpath : hasFlag flags linuxOPath = false) (hdir : hasFlag flags linuxODirectory = false)
    (hexcl : hasFlag flags linuxOExcl = false) (hnofollow : hasFlag flags linuxONofollow = false) :
    sysOpenatSysroot outLink [47, 108] flags = .ok ([47, 115, 47, 108], [[120]]) := by
  have htr : (pathTranslateAt outLink [47, 108] ⟨false, true, true⟩).2 =
      .ok [47, 115, 47, 108] := by decide
  have hres : (pathTranslateAt outLink [47, 108] ⟨false, true, true⟩).1.tree.resolve true 32 []
      (walkComps [47, 115, 47, 108]) = .missing [] [120] 31 := by decide
  have hfollows : (translateOpenFlags flags).follows := by
    rw [translateOpenFlags, hpath, if_neg (by simp), OpenFlags.follows]
    simp [hexcl, hnofollow]
  have hcreate : (translateOpenFlags flags).create := by
    rw [translateOpenFlags, hpath, if_neg (by simp)]
    exact hcreat
  have hopen : (pathTranslateAt outLink [47, 108] ⟨false, true, true⟩).1.tree.openat 32 []
      [47, 115, 47, 108] (translateOpenFlags flags) = .ok [[120]] := by
    rw [Tree.openat, if_neg (by decide), targetStart_nil, hfollows, hres, Outcome.opened, hcreate]
    rfl
  rw [sysOpenatSysroot, hcreat, hpath, hdir]
  have hcond : (true && !false) := rfl
  rw [hcond, if_neg (by simp), if_pos rfl]
  dsimp only
  rw [htr, Except.bind]
  have hlinks : outLink.links = 32 := rfl
  rw [hlinks, hopen]
  rfl

/-- A sysroot `/s` with the link `/l` to the host's file `/x` and the link `/m` to the host's
name of `/l`. -/
def outLinks : Sysroot where
  tree := Tree.ofEntries [([[115]], .dir), ([[115], [108]], .link [47, 120]),
    ([[115], [109]], .link [47, 115, 47, 108]), ([[120]], .file)] (by decide)
  links := 32
  root := [[115]]
  root_dir := by decide

end Elfuse
