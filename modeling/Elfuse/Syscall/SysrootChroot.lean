/-
Lookup under a sysroot against resolution in a chroot.

The guest is to see what a process sees whose root is the sysroot: the tree
below it (`Sysroot.chroot`). The code works on texts. A walk over the components
of a clamped text stops where the walk in that tree does
(`walkComponents_spec`), and a spliced text resolves to what the rest of the
walk resolves to (`resolve_splice`); the clamp in between is where text and tree
can part, because a `..` is counted against names and not against directories.

* `walk_pass` — one pass of the loop;
* `byteExactLoop_found` — the loop finds the node, if no link leads deeper than
  its name does.
-/
import Mathlib.Data.List.TakeWhile
import Elfuse.Lib.Chroot
import Elfuse.Syscall.Sysroot

namespace Elfuse

open FileTree List Segments

def Sysroot.chroot (s : Sysroot) : Tree := s.tree.sub s.root s.root_dir

variable {s : Sysroot} {follow : Bool} {links left : ℕ} {m d : Node} {cur pre path : Text}
  {D R ps : List (Text × Text)}

/-! ### Texts -/

variable {tail : Text} {L : List Text}

lemma components_glue (h : Segments.WellCut slash ps) (htail : ∀ c ∈ tail, c = slash) :
    components (glue ps ++ tail) = ps.map Prod.snd := by
  have hhead : tail.head? = none ∨ tail.head? = some slash := by
    cases tail with
    | nil => exact .inl rfl
    | cons c tail => exact .inr (congrArg some (htail c mem_cons_self))
  rw [components, segments_glue h hhead, segments_eq_nil.mpr htail, append_nil]

lemma getLast_glue (h : Segments.WellCut slash ps) (htail : ∀ c ∈ tail, c = slash)
    (hne : glue ps ++ tail ≠ []) : (glue ps ++ tail).getLast? = some slash ↔ tail ≠ [] := by
  by_cases hnil : tail = []
  · subst hnil
    obtain ⟨qs, q, rfl⟩ := (eq_nil_or_concat ps).resolve_left (by rintro rfl; exact hne rfl)
    rw [concat_eq_append] at h ⊢
    obtain ⟨-, -, hq, hslash⟩ := h q (by simp)
    have hglue : glue (qs ++ [q]) = (glue qs ++ q.1) ++ q.2 := by
      simp [glue]
    rw [append_nil, hglue, getLast?_append_of_ne_nil _ hq]
    refine ⟨fun hl => absurd (mem_of_getLast? hl) hslash, fun hc => absurd rfl hc⟩
  · rw [getLast?_append_of_ne_nil _ hnil, getLast?_eq_some_getLast hnil,
      htail _ (getLast_mem hnil)]
    simp [hnil]

lemma walkComps_glue (h : Segments.WellCut slash ps) (htail : ∀ c ∈ tail, c = slash) :
    walkComps (glue ps ++ tail) = ps.map Prod.snd ++ if tail ≠ [] ∧ ps ≠ [] then [dot] else [] := by
  rw [walkComps, components_glue h htail]
  by_cases hnil : glue ps ++ tail = []
  · have hcomps := components_glue h htail
    rw [hnil] at hcomps
    simp [map_eq_nil_iff.mp hcomps.symm]
  · simp only [getLast_glue h htail hnil, ne_eq, map_eq_nil_iff]

lemma wellCut_slashed (h : ∀ c ∈ L, c ≠ [] ∧ slash ∉ c) :
    Segments.WellCut slash (L.map fun c => ([slash], c)) := by
  intro p hp
  grind

lemma glue_slashed (L : List Text) : glue (L.map fun c => ([slash], c)) = prefixed slash L := by
  rw [glue, flatMap_map, prefixed]
  rfl

lemma walkComps_render (h : ∀ c ∈ L, c ≠ [] ∧ slash ∉ c) : walkComps (render slash L) = L := by
  rw [render]
  split
  · rename_i hnil
    rw [hnil]
    rfl
  rw [← glue_slashed, ← append_nil (glue _), walkComps_glue (wellCut_slashed h) (by simp), map_map]
  simp [Function.comp_def]

lemma glue_append (D R : List (Text × Text)) : glue (D ++ R) = glue D ++ glue R := flatMap_append

lemma wellCut_append : Segments.WellCut slash (D ++ R) ↔
    Segments.WellCut slash D ∧ Segments.WellCut slash R := by
  simp only [Segments.WellCut, mem_append]
  exact ⟨fun h => ⟨fun p hp => h p (.inl hp), fun p hp => h p (.inr hp)⟩,
    fun h p hp => hp.elim (h.1 p) (h.2 p)⟩

variable {x : Text}

lemma isAbsolute_iff : isAbsolute x ↔ x.head? = some slash := by
  simp [isAbsolute]

lemma glue_absolute (h : Segments.WellCut slash ps) (hne : ps ≠ []) (tail : Text) :
    isAbsolute (glue ps ++ tail) := by
  obtain ⟨p, qs, rfl⟩ := exists_cons_of_ne_nil hne
  obtain ⟨hrun, hall, -⟩ := h p mem_cons_self
  obtain ⟨c, run, hcr⟩ := exists_cons_of_ne_nil hrun
  rw [isAbsolute_iff, glue, flatMap_cons, hcr]
  simp [hall c (hcr ▸ mem_cons_self)]

lemma components_spelled (hx : isAbsolute x) :
    components (s.text ++ x) = s.root ++ components x := by
  obtain ⟨y, rfl⟩ := head?_eq_some_iff.mp (isAbsolute_iff.mp hx)
  have hne : s.tree.kind s.root ≠ none := by simp [s.root_dir]
  rw [Sysroot.text, components_below hne, components, components, segments_sep_cons]

lemma walkComps_spelled (hx : isAbsolute x) (hne : components x ≠ []) :
    walkComps (s.text ++ x) = s.root ++ walkComps x := by
  have hxne : x ≠ [] := by
    rintro rfl
    exact hne rfl
  have hlast : (s.text ++ x).getLast? = x.getLast? := getLast?_append_of_ne_nil _ hxne
  rw [walkComps, walkComps, hlast, components_spelled hx, append_assoc]
  simp [hne]

lemma lookup_spelled (hx : isAbsolute x) : s.tree.lookup follow links [] (s.text ++ x) =
      (s.tree.resolve follow links s.root (walkComps x)).existing := by
  have hxne : x ≠ [] := by
    rintro rfl
    cases hx
  rw [Tree.lookup, if_neg (by simp [hxne]), targetStart_nil]
  by_cases hnil : components x = []
  · -- only slashes: the sysroot itself
    have hcomps := @components_spelled s x hx
    have hw : walkComps x = [] := by simp [walkComps, hnil]
    rw [hnil, append_nil] at hcomps
    rw [hw]
    rcases walkComps_cases (s.text ++ x) with hc | hc
    · rw [hc, hcomps, ← append_nil s.root, resolve_dir follow links [] s.root_dir, append_nil]
    · rw [hc, hcomps, resolve_dir follow links [dot] s.root_dir, resolve_congr scan_dot]
  · rw [walkComps_spelled hx hnil, resolve_dir follow links _ s.root_dir]

/-! ### The walk over the components -/

/-- `lstat` of the spelling up to a component. -/
lemma lookup_upTo (hcut : Segments.WellCut slash (D ++ [(pre, cur)]))
    (hstays : staysFrom 0 ((D ++ [(pre, cur)]).map Prod.snd))
    (hD : s.chroot.scan true [] (D.map Prod.snd) = .node d) :
    s.tree.lookup false s.links [] (s.text ++ (glue D ++ pre ++ cur)) =
      if s.chroot.kind d = some .dir then
        ((s.chroot.scan false d [cur]).lift s.root |>.stop s.links).existing
      else .error .ENOTDIR := by
  have hglue : glue D ++ pre ++ cur = glue (D ++ [(pre, cur)]) ++ [] := by
    simp [glue]
  rw [hglue, lookup_spelled (glue_absolute hcut (by simp) []), walkComps_glue hcut (by simp)]
  have hscan := @scan_sub s.tree false [] _ s.root s.root_dir hstays
  rw [append_nil, map_append] at hscan
  have happ := scan_append (B := [(pre, cur)].map Prod.snd) false (D.map Prod.snd)
    s.chroot.root_dir (by simp)
  rw [← Sysroot.chroot, happ, hD, Scan.andThen] at hscan
  rw [if_neg (by simp), append_nil, map_append]
  split
  · rename_i hdir
    rw [if_pos hdir] at hscan
    have hno : ∀ a b c, s.tree.scan false s.root
        (D.map Prod.snd ++ [(pre, cur)].map Prod.snd) ≠ .link a b c := by
      intro a b c
      rw [hscan, map_singleton, scan_one]
      split
      · simp [Scan.lift]
      split
      · simp [Scan.lift]
      split <;> simp [Scan.lift]
    rw [resolve_of_scan rfl hno, hscan]
    rfl
  · rename_i hdir
    rw [if_neg hdir] at hscan
    rw [resolve_of_scan hscan (by simp [Scan.lift])]
    rfl

/-- How the walk over the components of a clamped text stops, against the walk in the
guest's tree from where it is. -/
structure WalkSpec (s : Sysroot) (follow : Bool) (cur tail : Text) (ps : List (Text × Text))
    (stop : WalkStop) (scan : Scan) : Prop where
  node : ∀ m, scan = .node m → stop = .done
  link : ∀ d target rest, scan = .link d target rest → ∃ D sep c R, ps = D ++ (sep, c) :: R ∧
    R.map Prod.snd = rest ∧ s.chroot.scan true [] (D.map Prod.snd) = .node d ∧
    s.chroot.kind d = some .dir ∧
    stop = .link (Segments.glue D ++ sep) target (Segments.glue R ++ tail)
  absent : (∀ m, scan ≠ .node m) → (∀ d target rest, scan ≠ .link d target rest) →
    ∃ D p R e, ps = D ++ p :: R ∧
      s.tree.lookup false s.links [] (s.text ++ (Segments.glue D ++ p.1 ++ p.2)) = .error e ∧
      stop = if e = .ENOTDIR then .absent (s.text ++ (Segments.glue D ++ p.1 ++ p.2)) e
        else .absent (s.text ++ cur) e

lemma walkComponents_spec (hcut : Segments.WellCut slash (D ++ R))
    (hstays : staysFrom 0 ((D ++ R).map Prod.snd))
    (hD : s.chroot.scan true [] (D.map Prod.snd) = .node d) (hdir : s.chroot.kind d = some .dir) :
    WalkSpec s follow cur tail (D ++ R) (walkComponents s follow cur (glue D) tail R)
      (s.chroot.scan follow d (R.map Prod.snd)) := by
  induction R generalizing D d with
  | nil => exact ⟨fun m h => rfl, by simp [Tree.scan], fun h => absurd rfl (h d)⟩
  | cons p R ih =>
    obtain ⟨sep, c⟩ := p
    have hsplit : D ++ (sep, c) :: R = (D ++ [(sep, c)]) ++ R := by simp
    have hglue : glue D ++ sep ++ c = glue (D ++ [(sep, c)]) := by
      simp [glue]
    rw [hsplit] at hcut hstays
    have hcut' := (wellCut_append.mp hcut).1
    have hstays' : staysFrom 0 ((D ++ [(sep, c)]).map Prod.snd) := by
      rw [map_append] at hstays
      exact staysFrom_append hstays
    have hlook := lookup_upTo hcut' hstays' hD
    rw [if_pos hdir, scan_one] at hlook
    -- the walk up to and with this component, when it is followed
    have hnext : s.chroot.scan true [] ((D ++ [(sep, c)]).map Prod.snd)
        = s.chroot.scan true d [c] := by
      rw [map_append, scan_append true _ s.chroot.root_dir (by simp), hD, Scan.andThen, if_pos hdir]
      rfl
    have hkind : ∀ n, s.tree.kind (s.root ++ n) = s.chroot.kind n := fun _ => rfl
    rw [map_cons]
    by_cases hdot : c = dot
    · subst hdot
      have hrec := ih hcut hstays (hnext.trans scan_dot) hdir
      rw [if_pos rfl] at hlook
      rw [walkComponents, hlook]
      dsimp only [Scan.lift, Scan.stop, Outcome.existing]
      grind [scan_dot]
    by_cases hup : c = dotdot
    · subst hup
      have hdir' := s.chroot.kind_dropLast hdir
      have hrec := ih hcut hstays (hnext.trans scan_dotdot) hdir'
      rw [if_neg hdot, if_pos rfl] at hlook
      rw [walkComponents, hlook]
      dsimp only [Scan.lift, Scan.stop, Outcome.existing]
      grind [scan_dotdot]
    rw [if_neg hdot, if_neg hup] at hlook
    rw [Tree.scan, if_neg hdot, if_neg hup]
    cases hk : s.chroot.kind (d ++ [c]) with
    | none =>
      rw [if_pos hk] at hlook
      rw [walkComponents, hlook]
      dsimp only [Scan.lift, Scan.stop, Outcome.existing]
      refine ⟨by intro m; split <;> simp, by intro d target rest; split <;> simp, fun _ _ => ?_⟩
      exact ⟨D, (sep, c), R, .ENOENT, rfl, hlook, rfl⟩
    | some k =>
      rw [if_neg (by simp [hk])] at hlook
      rw [walkComponents, hlook]
      dsimp only [Scan.lift, Scan.stop, Outcome.existing]
      rw [hkind, hk]
      cases k with
      | dir =>
        grind [Tree.scan]
      | file =>
        cases R with
        | nil => exact ⟨fun m h => rfl, by simp, fun h => absurd rfl (h (d ++ [c]))⟩
        | cons q R =>
          -- the next component is looked up behind a file
          have hone : s.chroot.scan true d [c] = .node (d ++ [c]) := by
            grind [Tree.scan]
          have hsplit' : D ++ [(sep, c)] ++ q :: R = (D ++ [(sep, c)] ++ [q]) ++ R := by simp
          rw [hsplit'] at hcut hstays
          have hfile := lookup_upTo (wellCut_append.mp hcut).1
            (by rw [map_append] at hstays; exact staysFrom_append hstays) (hnext.trans hone)
          rw [if_neg (by rw [hk]; simp)] at hfile
          refine ⟨by simp, by simp, fun _ _ => ?_⟩
          refine ⟨D ++ [(sep, c)], q, R, .ENOTDIR, by simp, hfile, ?_⟩
          rw [hglue, walkComponents, hfile]
      | link target =>
        dsimp only
        by_cases hlast : R = [] ∧ follow = false
        · obtain ⟨rfl, rfl⟩ := hlast
          exact ⟨fun m h => rfl, by simp, fun h => absurd (by simp) (h (d ++ [c]))⟩
        have hlast' : ¬ (R.map Prod.snd = [] ∧ follow = false) := by simpa using hlast
        rw [if_neg hlast, if_neg hlast']
        refine ⟨by simp, fun d' target' rest heq => ?_, fun _ h => absurd rfl (h _ _ _)⟩
        grind

/-! ### The clamp -/

lemma clampPieces_map (depth : ℕ) (ps : List (Text × Text)) :
    (clampPieces depth ps).map Prod.snd = clampFrom depth (ps.map Prod.snd) := by
  induction ps generalizing depth with
  | nil => rfl
  | cons p ps ih =>
    grind [clampPieces, clampFrom]

lemma clampPieces_sub (depth : ℕ) (ps : List (Text × Text)) :
    ∀ p ∈ clampPieces depth ps, p ∈ ps := by
  induction ps generalizing depth with
  | nil => exact fun p hp => hp
  | cons q ps ih =>
    obtain ⟨sep, c⟩ := q
    intro p hp
    grind [clampPieces]

/-- The clamp on texts is the clamp on components, up to a slash at the end of the root. -/
lemma clamp_spec (h : isAbsolute path) : isAbsolute (clampDotdotAtGuestRoot path) ∧
    components (clampDotdotAtGuestRoot path) = clampFrom 0 (components path) ∧
    (walkComps (clampDotdotAtGuestRoot path) = clampFrom 0 (walkComps path) ∨
      walkComps (clampDotdotAtGuestRoot path) = [] ∧ clampFrom 0 (walkComps path) = [dot]) := by
  obtain ⟨hcut, htail⟩ := pieces_wellCut (isAbsolute_iff.mp h)
  have htext := @pieces_text _ _ slash path
  rw [clampDotdotAtGuestRoot]
  have hcomps : components path = (pieces slash path).1.map Prod.snd :=
    (pieces_segments path).symm
  have hwalk : walkComps path = _ :=
      (congrArg walkComps htext).symm.trans (walkComps_glue hcut htail)
  rw [hcomps, hwalk]
  generalize (pieces slash path).1 = ps at hcut
  generalize (pieces slash path).2 = tail at htail
  have hcut' : Segments.WellCut slash (clampPieces 0 ps) := fun p hp =>
    hcut p (clampPieces_sub 0 ps p hp)
  have hclamp := walkComps_glue hcut' htail
  rw [clampPieces_map] at hclamp
  have hcompsOut := components_glue hcut' htail
  rw [clampPieces_map] at hcompsOut
  have hdrop : clampFrom 0 (ps.map Prod.snd ++ if tail ≠ [] ∧ ps ≠ [] then [dot] else []) =
      clampFrom 0 (ps.map Prod.snd) ++ if tail ≠ [] ∧ ps ≠ [] then [dot] else [] := by
    split
    · exact clampFrom_append_dot 0 _
    · rw [append_nil, append_nil]
  -- when every component was clamped away the text becomes the root
  by_cases hnil : clampPieces 0 ps = []
  · have hcl : clampFrom 0 (ps.map Prod.snd) = [] := by
      rw [← clampPieces_map, hnil]
      rfl
    rw [hdrop, hcl, nil_append, hnil]
    have hglue : glue ([] : List (Text × Text)) = [] := rfl
    rw [hglue, nil_append]
    have hwalkTail : walkComps (if tail = [] then [slash] else tail) = [] ∧
        components (if tail = [] then [slash] else tail) = [] ∧
        isAbsolute (if tail = [] then [slash] else tail) := by
      split
      · exact ⟨by decide, by decide, rfl⟩
      rename_i hne
      have hseg : components tail = [] := segments_eq_nil.mpr htail
      refine ⟨by simp [walkComps, hseg], hseg, ?_⟩
      obtain ⟨c, l, rfl⟩ := exists_cons_of_ne_nil hne
      rw [isAbsolute_iff, head?_cons, htail c mem_cons_self]
    grind
  · have habs := glue_absolute hcut' hnil tail
    have hne : glue (clampPieces 0 ps) ++ tail ≠ [] := by
      intro hc
      rw [hc] at habs
      cases habs
    have hps : ps ≠ [] := by
      rintro rfl
      exact hnil rfl
    rw [if_neg hne, hdrop]
    refine ⟨habs, hcompsOut, .inl ?_⟩
    rw [hclamp]
    simp [hnil, hps]

/-! ### Splicing a link -/

lemma components_dropSlashes (x : Text) : components (dropSlashes x) = components x := by
  conv_rhs => rw [← takeWhile_append_dropWhile (p := (· == slash)) (l := x)]
  exact (segments_run (fun c hc => by simpa using mem_takeWhile_imp hc) _).symm

lemma dropSlashes_eq_nil : dropSlashes x = [] ↔ components x = [] := by
  rw [components, segments_eq_nil, dropSlashes, dropWhile_eq_nil_iff]
  simp

variable {sep target c : Text}

/-- The text in front of a link, as far as it counts for the target. -/
lemma components_front (hcut : Segments.WellCut slash (D ++ [(sep, cur)])) :
    components ((if isAbsolute target then [] else glue D ++ sep) ++ x) =
      (if isAbsolute target then [] else D.map Prod.snd) ++ components x := by
  split
  · rfl
  obtain ⟨hD, hlast⟩ := wellCut_append.mp hcut
  obtain ⟨hsep, hrun, -⟩ := hlast (sep, cur) mem_cons_self
  obtain ⟨run, c, rfl⟩ := (eq_nil_or_concat sep).resolve_left hsep
  rw [concat_eq_append] at hrun ⊢
  obtain rfl : c = slash := hrun c (by simp)
  have hparts : glue D ++ (run ++ [slash]) ++ x = (glue D ++ run) ++ slash :: x := by simp
  rw [hparts, ← components_glue hD (fun c hc => hrun c (mem_append_left _ hc)), components,
    components, components, segments_append_sep]

lemma walkComps_front (hcut : Segments.WellCut slash (D ++ [(sep, cur)])) (hx : components x ≠ []) :
    walkComps ((if isAbsolute target then [] else glue D ++ sep) ++ x) =
      (if isAbsolute target then [] else D.map Prod.snd) ++ walkComps x := by
  have hxne : x ≠ [] := by
    rintro rfl
    exact hx rfl
  rw [walkComps, walkComps, components_front hcut, append_assoc, getLast?_append_of_ne_nil _ hxne]
  simp [hx]

lemma walkComps_target_rest (hcut : Segments.WellCut slash R) (htail : ∀ c ∈ tail, c = slash)
    (hR : R ≠ []) : walkComps (target ++ slash :: dropSlashes (glue R ++ tail)) =
      components target ++ (R.map Prod.snd ++ if tail ≠ [] then [dot] else []) := by
  have hw := walkComps_glue hcut htail
  have hcomps : components (target ++ slash :: dropSlashes (glue R ++ tail)) =
      components target ++ components (glue R ++ tail) := by
    rw [← components_dropSlashes (glue R ++ tail), components, components, components,
      segments_append_sep]
  have hrest : components (glue R ++ tail) ≠ [] := by
    rw [components_glue hcut htail]
    simp [hR]
  have hne : dropSlashes (glue R ++ tail) ≠ [] := fun h =>
    hrest (dropSlashes_eq_nil.mp h)
  have hlast : (target ++ slash :: dropSlashes (glue R ++ tail)).getLast? =
      (glue R ++ tail).getLast? := by
    rw [getLast?_append_of_ne_nil _ (cons_ne_nil _ _), getLast?_cons_of_ne_nil hne]
    conv_rhs => rw [← takeWhile_append_dropWhile (p := (· == slash)) (l := glue R ++ tail)]
    exact (getLast?_append_of_ne_nil _ hne).symm
  rw [walkComps, hlast, hcomps]
  rw [walkComps] at hw
  simp only [hR, hrest, ne_eq, not_false_eq_true, and_true, append_eq_nil_iff, and_false] at hw ⊢
  rw [append_assoc, hw]

lemma resolve_splice {t : Tree} (hcut : Segments.WellCut slash (D ++ (sep, c) :: R))
    (htail : ∀ c ∈ tail, c = slash) (hD : t.scan true [] (D.map Prod.snd) = .node d)
    (hdir : t.kind d = some .dir) (htarget : target ≠ [])
    (h : t.resolve true links (targetStart d target) (walkComps target ++
      (R.map Prod.snd ++ if tail ≠ [] then [dot] else [])) = .node m left) :
    t.resolve true links [] (walkComps (pathSpliceLinkTarget (glue D ++ sep) target
      (glue R ++ tail))) = .node m left := by
  have hsplit : D ++ (sep, c) :: R = (D ++ [(sep, c)]) ++ R := by simp
  rw [hsplit] at hcut
  obtain ⟨hcutD, hcutR⟩ := wellCut_append.mp hcut
  have hstart := targetStart_dir hdir target
  -- the front leads to where the target is read from
  have hfront : ∀ x, components x ≠ [] → t.resolve true links [] (walkComps
      ((if isAbsolute target then [] else glue D ++ sep) ++ x)) =
        t.resolve true links (targetStart d target) (walkComps x) := by
    intro x hx
    have hw : walkComps x ≠ [] := by simp [walkComps, hx]
    rw [walkComps_front hcutD hx, targetStart]
    split
    · rfl
    · exact resolve_after t.root_dir hD hdir hw
  rw [pathSpliceLinkTarget, append_assoc]
  by_cases hR : R = []
  · subst hR
    have hdrop : dropSlashes (glue [] ++ tail) = [] := by
      rw [dropSlashes_eq_nil]
      exact segments_eq_nil.mpr htail
    -- a slash behind the link is lost with the rest, but the link led to a directory
    have h' : t.resolve true links (targetStart d target) (walkComps target) = .node m left := by
      rw [map_nil, nil_append] at h
      split at h
      · exact (resolve_end_dot hstart h).1
      · rwa [append_nil] at h
    rw [if_pos hdrop, append_nil]
    by_cases hnil : components target = []
    · have habs : isAbsolute target := by
        obtain ⟨c, x, rfl⟩ := exists_cons_of_ne_nil htarget
        rw [isAbsolute_iff, head?_cons, segments_eq_nil.mp hnil c mem_cons_self]
      have hz : targetStart d target = [] := if_pos habs
      grind
    · rw [hfront target hnil, h']
  have hrest : components (glue R ++ tail) ≠ [] := by
    rw [components_glue hcutR htail]
    simp [hR]
  have hdrop : dropSlashes (glue R ++ tail) ≠ [] := fun hnil =>
    hrest (dropSlashes_eq_nil.mp hnil)
  have hx : components (target ++ slash :: dropSlashes (glue R ++ tail)) ≠ [] := by
    rw [components, segments_append_sep]
    simp only [ne_eq, append_eq_nil_iff, not_and]
    intro _
    rwa [← components, components_dropSlashes]
  have hY : (R.map Prod.snd ++ if tail ≠ [] then [dot] else []) ≠ [] := by simp [hR]
  rw [if_neg hdrop, hfront _ hx, walkComps_target_rest hcutR htail hR]
  rcases walkComps_cases target with hc | hc
  · rwa [hc] at h
  · rwa [hc, resolve_drop_dot hstart hY] at h

/-! ### The loop -/

lemma staysFrom_walkComps (h : staysFrom 0 (components x)) : staysFrom 0 (walkComps x) := by
  rcases walkComps_cases x with hw | hw
  · rwa [hw]
  · rwa [hw, staysFrom_append_dot]

lemma lookup_spelled_node (habs : isAbsolute cur) (hstays : staysFrom 0 (components cur))
    (h : s.chroot.scan follow [] (walkComps cur) = .node m) :
    s.tree.lookup follow s.links [] (s.text ++ cur) = .ok (s.root ++ m) := by
  have hscan := @scan_sub s.tree follow [] _ s.root s.root_dir (staysFrom_walkComps hstays)
  rw [← Sysroot.chroot, h, append_nil] at hscan
  rw [lookup_spelled habs, resolve_of_scan hscan (by simp [Scan.lift])]
  rfl

lemma absolute_pieces (habs : isAbsolute cur) : ∃ ps tail,
    pieces slash cur = (ps, tail) ∧ Segments.WellCut slash ps ∧
    (∀ c ∈ tail, c = slash) ∧ components cur = ps.map Prod.snd ∧
    walkComps cur = ps.map Prod.snd ++ if tail ≠ [] ∧ ps ≠ [] then [dot] else [] := by
  obtain ⟨hcut, htail⟩ := pieces_wellCut (isAbsolute_iff.mp habs)
  have htext := @pieces_text _ _ slash cur
  exact ⟨_, _, rfl, hcut, htail, (pieces_segments cur).symm,
    (congrArg walkComps htext).symm.trans (walkComps_glue hcut htail)⟩

lemma splice_absolute (hcut : Segments.WellCut slash (D ++ (sep, c) :: R)) :
    isAbsolute (pathSpliceLinkTarget (glue D ++ sep) target rest) := by
  rw [pathSpliceLinkTarget, isAbsolute_iff]
  split
  · rename_i habs
    have htarget : target ≠ [] := by
      rintro rfl
      cases habs
    rw [nil_append, head?_append_of_ne_nil _ htarget]
    exact isAbsolute_iff.mp habs
  have hsplit : D ++ (sep, c) :: R = (D ++ [(sep, c)]) ++ R := by simp
  rw [hsplit] at hcut
  have hcut' := (wellCut_append.mp hcut).1
  have hsep := (hcut' (sep, c) (by simp)).1
  have hhead := glue_absolute hcut' (by simp) []
  rw [isAbsolute_iff, glue_append, append_nil] at hhead
  have hc : glue [(sep, c)] = sep ++ c := by simp [glue]
  rw [hc, ← append_assoc, head?_append_of_ne_nil _ (by simp [hsep])] at hhead
  grind

/-- One pass over a spelling, against the walk in the guest's tree: it is done, or it hands
on a text that resolves with one link less. -/
lemma walk_pass (habs : isAbsolute cur) (hstays : staysFrom 0 (components cur))
    (h : s.chroot.resolve true links [] (walkComps cur) = .node m left) :
    (walkComponents s true cur [] (pieces slash cur).2 (pieces slash cur).1 =
        .done ∧ s.chroot.scan true [] (walkComps cur) = .node m) ∨
    ∃ pre target rest k, links = k + 1 ∧
      walkComponents s true cur [] (pieces slash cur).2 (pieces slash cur).1 =
        .link pre target rest ∧ isAbsolute (pathSpliceLinkTarget pre target rest) ∧
      s.chroot.resolve true k [] (walkComps (pathSpliceLinkTarget pre target rest)) =
        .node m left := by
  obtain ⟨ps, tail, hps, hcut, htail, hcomps, hwalk⟩ := absolute_pieces habs
  rw [hcomps] at hstays
  have hroot := s.chroot.root_dir
  have hspec := @walkComponents_spec s true [] cur [] ps tail hcut hstays rfl hroot
  have hglue : glue ([] : List (Text × Text)) = [] := rfl
  rw [nil_append, hglue] at hspec
  rw [hps]
  -- a slash at the end is one more step of the same walk
  have hend : ∀ sc, s.chroot.scan true [] (ps.map Prod.snd) = sc →
      s.chroot.scan true [] (walkComps cur) =
        if tail ≠ [] ∧ ps ≠ [] then sc.andThen s.chroot true [dot] else sc := by
    intro sc hsc
    rw [hwalk]
    split
    · rw [scan_append true _ hroot (by simp), hsc]
    · rw [append_nil, hsc]
  cases hscan : s.chroot.scan true [] (ps.map Prod.snd) with
  | node n =>
    refine .inl ⟨hspec.node n hscan, ?_⟩
    have hw := hend _ hscan
    have hfinal : s.chroot.scan true [] (walkComps cur) = .node n ∨
        s.chroot.scan true [] (walkComps cur) = .fail .ENOTDIR := by
      rw [hw, Scan.andThen]
      split
      · split
        · exact .inl (by simp [Tree.scan])
        · exact .inr rfl
      · exact .inl rfl
    rcases hfinal with hn | hf
    · rw [resolve_of_scan hn (by simp)] at h
      cases h
      exact hn
    · rw [resolve_of_scan hf (by simp)] at h
      cases h
  | link d target rest =>
    obtain ⟨D, sep, c, R, rfl, rfl, hD, hdir, hstop⟩ := hspec.link d target rest hscan
    have hw : s.chroot.scan true [] (walkComps cur) =
        .link d target (R.map Prod.snd ++ if tail ≠ [] then [dot] else []) := by
      rw [hend _ hscan]
      by_cases htl : tail = []
      · simp [htl]
      · simp [htl, Scan.andThen]
    cases links with
    | zero =>
      rw [resolve_link_zero hw] at h
      cases h
    | succ k =>
      rw [resolve_link_succ hw] at h
      split at h
      · cases h
      rename_i htarget
      exact .inr ⟨_, _, _, k, rfl, hstop, splice_absolute hcut,
        resolve_splice hcut htail hD hdir htarget h⟩
  | missing | fail =>
    have hw := hend _ hscan
    split at hw <;> rw [resolve_of_scan hw (by simp [Scan.andThen])] at h <;> cases h

lemma resolve_clamp (hshallow : LinksShallow s.chroot maxSymlinks) (hlinks : links ≤ maxSymlinks)
    (habs : isAbsolute path) (h : s.chroot.resolve true links [] (walkComps path) = .node m left) :
    s.chroot.resolve true links [] (walkComps (clampDotdotAtGuestRoot path)) = .node m left := by
  have hclamp := resolve_clampFrom hshallow hlinks s.chroot.root_dir (Nat.le_refl 0) h
  rcases (clamp_spec habs).2.2 with hw | ⟨hw, hdot⟩
  · rwa [hw]
  · rw [hdot, resolve_congr scan_dot] at hclamp
    rwa [hw]

lemma clamp_stays (habs : isAbsolute path) :
    staysFrom 0 (components (clampDotdotAtGuestRoot path)) := by
  rw [(clamp_spec habs).2.1]
  exact staysFrom_clampFrom 0 _

/-- A walk in the guest's tree that succeeds is one the loop makes on texts, as long as no
link leads deeper than its name does. -/
lemma byteExactLoop_found (hshallow : LinksShallow s.chroot maxSymlinks) (relative : Bool)
    (habs : isAbsolute cur) (hstays : staysFrom 0 (components cur)) (hlinks : links ≤ maxSymlinks)
    (h : s.chroot.resolve true links [] (walkComps cur) = .node m left) :
    (byteExactLoop s true links cur relative).verdict = .found ∧
    s.tree.lookup true s.links [] (byteExactLoop s true links cur relative).buf =
      .ok (s.root ++ m) := by
  induction links generalizing cur relative with
  | zero =>
    rcases walk_pass habs hstays h with ⟨hdone, hnode⟩ | ⟨pre, target, rest, k, hk, -⟩
    · have hlook := lookup_spelled_node habs hstays hnode
      rw [byteExactLoop, hdone, byteExactStop, hlook]
      exact ⟨rfl, hlook⟩
    · cases hk
  | succ links ih =>
    rcases walk_pass habs hstays h with ⟨hdone, hnode⟩ | ⟨pre, target, rest, k, hk, hstop, hb, hres⟩
    · have hlook := lookup_spelled_node habs hstays hnode
      simp [byteExactLoop, hdone, byteExactStop, hlook]
    cases hk
    rw [byteExactLoop, hstop]
    exact ih _ (clamp_spec hb).1 (clamp_stays hb) (by omega)
      (resolve_clamp hshallow (by omega) hb hres)

lemma byteExactLoop_done (links : ℕ) (relative : Bool) (habs : isAbsolute cur)
    (hstays : staysFrom 0 (components cur)) (h : s.chroot.scan true [] (walkComps cur) = .node m) :
    byteExactLoop s true links cur relative = ⟨.found, s.text ++ cur, cur, relative⟩ := by
  have hlook := lookup_spelled_node habs hstays h
  have hres : s.chroot.resolve true 0 [] (walkComps cur) = .node m 0 :=
    resolve_of_scan h (by simp)
  have hdone : walkComponents s true cur [] (pieces slash cur).2 (pieces slash cur).1 = .done := by
    rcases walk_pass habs hstays hres with ⟨hdone, -⟩ | ⟨pre, target, rest, k, hk, -⟩
    · exact hdone
    · cases hk
  cases links with
  | zero => rw [byteExactLoop, hdone, byteExactStop, hlook]
  | succ links =>
    rw [byteExactLoop, hdone]
    dsimp only
    rw [byteExactStop, hlook]

end Elfuse
