/-
`openat2` with RESOLVE_BENEATH or RESOLVE_IN_ROOT.

The containment check is made before the open: the text must not climb above
its start, and the resolved path must begin with the resolved directory. With
O_NOFOLLOW or O_CREAT only the parent is resolved, and the last component is
taken as it is spelled. The host file system is a tree (`FileTree`) that does
not change between the check and the open.

* `openat2_contained_iff` — for which flags every open stays in the directory,
  and for which directories no path that exists below them is refused.
-/
import Elfuse.Lib.FileTree
import Elfuse.Core.Layout

namespace Elfuse

open FileTree List Segments

/-! ### Flags -/

def linuxOAccmode : ℕ := 0x0003
def linuxOCreat : ℕ := 0x0040
def linuxOExcl : ℕ := 0x0080
def linuxONoctty : ℕ := 0x0100
def linuxOTrunc : ℕ := 0x0200
def linuxOAppend : ℕ := 0x0400
def linuxONonblock : ℕ := 0x0800
def linuxODsync : ℕ := 0x1000
def linuxOAsync : ℕ := 0x2000
def linuxODirectory : ℕ := 0x4000
def linuxONofollow : ℕ := 0x8000
def linuxODirect : ℕ := 0x10000
def linuxOLargefile : ℕ := 0x20000
def linuxONoatime : ℕ := 0x40000
def linuxOCloexec : ℕ := 0x80000
def linuxOSync : ℕ := 0x101000
def linuxOPath : ℕ := 0x200000
def linuxOTmpfileBit : ℕ := 0x400000

def openat2KnownFlags : ℕ :=
  linuxOAccmode ||| linuxOCreat ||| linuxOExcl ||| linuxONoctty ||| linuxOTrunc |||
    linuxOAppend ||| linuxONonblock ||| linuxODsync ||| linuxOAsync ||| linuxODirectory |||
    linuxONofollow ||| linuxODirect ||| linuxOLargefile ||| linuxONoatime ||| linuxOCloexec |||
    linuxOSync ||| linuxOPath ||| linuxOTmpfileBit

def openat2FlagsValid (flags mode : ℕ) : Bool :=
  if flags &&& openat2KnownFlags ≠ flags then false
  else if hasFlag flags linuxOPath &&
      decide (flags &&& (linuxOPath ||| linuxOCloexec ||| linuxODirectory ||| linuxONofollow)
        ≠ flags) then false
  else if hasFlag flags linuxOTmpfileBit then false
  else if hasFlag flags linuxODirectory && hasFlag flags linuxOCreat then false
  else if mode &&& 0o7777 ≠ mode then false
  else if mode ≠ 0 ∧ hasFlag flags linuxOCreat = false then false
  else true

/-- Does a non-O_PATH open write or truncate? -/
def opensToWrite (flags : ℕ) : Bool :=
  flags &&& linuxOAccmode == 1 || flags &&& linuxOAccmode == 2 || hasFlag flags linuxOTrunc

/-- The part of `translate_open_flags` that decides which node is opened. -/
def translateOpenFlags (flags : ℕ) : OpenFlags :=
  if hasFlag flags linuxOPath then
    { create := false, excl := false, noFollow := false
      linkItself := hasFlag flags linuxONofollow
      directory := hasFlag flags linuxODirectory, write := false }
  else
    { create := hasFlag flags linuxOCreat, excl := hasFlag flags linuxOExcl
      noFollow := hasFlag flags linuxONofollow, linkItself := false
      directory := hasFlag flags linuxODirectory, write := opensToWrite flags }

/-! ### The check -/

/-- The loop of `path_openat2_stays_beneath`. -/
def staysBeneathLoop (clampAtRoot : Bool) : ℕ → List Text → Bool
  | _, [] => true
  | depth, c :: rest =>
    if c = dot then staysBeneathLoop clampAtRoot depth rest
    else if c = dotdot then
      if depth = 0 then (if !clampAtRoot then false else staysBeneathLoop clampAtRoot depth rest)
      else staysBeneathLoop clampAtRoot (depth - 1) rest
    else staysBeneathLoop clampAtRoot (depth + 1) rest

def pathOpenat2StaysBeneath (path : Text) (clampAtRoot : Bool) : Bool :=
  staysBeneathLoop clampAtRoot 0 (components path)

/-- Model of `path_openat2_normalize_in_root`; the text is never longer than the
path, so its buffer suffices. -/
def pathOpenat2NormalizeInRoot (path : Text) : Text :=
  if normalizeFrom [] (components path) = [] then dot
  else Segments.join slash (normalizeFrom [] (components path))

def linuxPathMax : ℕ := 4096

/-- The path whose beginning is compared: resolved in full, or, with O_NOFOLLOW or
O_CREAT, its parent resolved and the last component as it is spelled. -/
def openat2RealPath (t : Tree) (links : ℕ) (joined : Text) (oflags : ℕ) : Except Errno Text :=
  if hasFlag oflags linuxONofollow || hasFlag oflags linuxOCreat then
    match Segments.cutLast slash joined with
    | none => .error .ENOENT
    | some (parent, tail) =>
      (t.lookup true links [] (if parent = [] then [slash] else parent)).bind fun real =>
        if linuxPathMax ≤ (Segments.render slash real ++ slash :: tail).length then
          .error .ENAMETOOLONG
        else .ok (Segments.render slash real ++ slash :: tail)
  else (t.lookup true links [] joined).map (Segments.render slash)

/-- Model of `path_openat2_resolved_within_root`, `root` being what F_GETPATH or
`getcwd` say about the directory. -/
def pathOpenat2ResolvedWithinRoot (t : Tree) (links : ℕ) (root : Node) (path : Text)
    (oflags : ℕ) (inRoot : Bool) : Except Errno Unit :=
  (t.lookup true links [] (Segments.render slash root)).bind fun real =>
    let rel := if inRoot then pathOpenat2NormalizeInRoot path else path
    if !inRoot && isAbsolute path then .error .EXDEV
    else
      let joined := Segments.render slash real ++ slash :: (if rel = [] then dot else rel)
      if linuxPathMax ≤ joined.length then .error .ENAMETOOLONG
      else
        (openat2RealPath t links joined oflags).bind fun realPath =>
          if Segments.startsWithin slash (Segments.render slash real) realPath then .ok ()
          else .error .EXDEV

/-- The open of `sys_openat_path` for a path that is handed to the host as it is. -/
def sysOpenatPath (t : Tree) (links : ℕ) (dir : Node) (path : Text) (flags : ℕ) :
    Except Errno Node :=
  if hasFlag flags linuxODirectory && hasFlag flags linuxOCreat && !hasFlag flags linuxOPath then
    .error .EINVAL
  else t.openat links dir path (translateOpenFlags flags)

/-- Model of `sc_openat2` with one of RESOLVE_BENEATH and RESOLVE_IN_ROOT, and of
the node its descriptor refers to. -/
def scOpenat2 (t : Tree) (links : ℕ) (dir : Node) (path : Text) (flags mode : ℕ)
    (inRoot : Bool) : Except Errno Node :=
  if !openat2FlagsValid flags mode then .error .EINVAL
  else if path = [] then .error .ENOENT
  else if !inRoot && isAbsolute path then .error .EXDEV
  else if !pathOpenat2StaysBeneath path inRoot then .error .EXDEV
  else
    (pathOpenat2ResolvedWithinRoot t links dir path flags inRoot).bind fun _ =>
      sysOpenatPath t links dir (if inRoot then pathOpenat2NormalizeInRoot path else path) flags

/-! ### The lexical part -/

variable {t : Tree} {links : ℕ} {dir node p : Node} {path : Text} {flags mode : ℕ} {inRoot : Bool}

lemma staysBeneathLoop_eq (depth : ℕ) (comps : List Text) :
    staysBeneathLoop false depth comps = staysFrom depth comps := by
  induction comps generalizing depth with
  | nil => rfl
  | cons c comps ih =>
    simp [staysBeneathLoop, staysFrom, ih, Nat.pos_iff_ne_zero]

lemma staysBeneathLoop_clamped (depth : ℕ) (comps : List Text) :
    staysBeneathLoop true depth comps := by
  induction comps generalizing depth with
  | nil => rfl
  | cons c comps ih => simp [staysBeneathLoop, ih]

def openat2Rel (path : Text) (inRoot : Bool) : Text :=
  if inRoot then pathOpenat2NormalizeInRoot path else path

lemma normalized_good (path : Text) : ∀ s ∈ normalizeFrom [] (components path),
    s ≠ [] ∧ slash ∉ s ∧ s ≠ dot ∧ s ≠ dotdot := by
  intro s hs
  rcases mem_normalizeFrom hs with hs | ⟨hs, hdot, hdotdot⟩
  · cases hs
  · obtain ⟨hne, hslash⟩ := mem_segments hs
    exact ⟨hne, hslash, hdot, hdotdot⟩

lemma components_normalized (path : Text) : components (pathOpenat2NormalizeInRoot path) =
    if normalizeFrom [] (components path) = [] then [dot]
    else normalizeFrom [] (components path) := by
  rw [pathOpenat2NormalizeInRoot]
  split
  · decide
  · exact segments_join fun s hs =>
      ⟨(normalized_good path s hs).1, (normalized_good path s hs).2.1⟩

lemma openat2Rel_relative (hne : path ≠ []) (habs : (!inRoot && isAbsolute path) = false) :
    Relative (openat2Rel path inRoot) := by
  rw [openat2Rel]
  cases inRoot with
  | false => exact ⟨hne, by simpa using habs⟩
  | true =>
    rw [if_pos rfl, pathOpenat2NormalizeInRoot]
    split
    · exact ⟨by decide, by decide⟩
    rename_i hstack
    obtain ⟨s, ss, hss⟩ := exists_cons_of_ne_nil hstack
    obtain ⟨hs, hslash, -⟩ := normalized_good path s (hss ▸ mem_cons_self)
    obtain ⟨c, l, rfl⟩ := exists_cons_of_ne_nil hs
    have hc : c ≠ slash := fun heq => hslash (heq ▸ mem_cons_self)
    rw [hss]
    cases ss with
    | nil | cons => exact ⟨by simp [join], by simp [join, isAbsolute, hc]⟩

/-! ### What the check establishes -/

lemma within_spec (hdir : t.kind dir = some .dir) (hrel : Relative (openat2Rel path inRoot))
    (h : pathOpenat2ResolvedWithinRoot t links dir path flags inRoot = .ok ()) :
    ∃ realPath, openat2RealPath t links
        (render slash dir ++ slash :: openat2Rel path inRoot) flags = .ok realPath ∧
      startsWithin slash (render slash dir) realPath := by
  have hroot := lookup_render links hdir
  rw [pathOpenat2ResolvedWithinRoot, hroot] at h
  dsimp only [Except.bind] at h
  split at h
  · cases h
  rw [← openat2Rel, if_neg hrel.nonempty] at h
  split at h
  · cases h
  cases hreal : openat2RealPath t links
      (render slash dir ++ slash :: openat2Rel path inRoot) flags with
  | error e =>
    rw [hreal] at h
    cases h
  | ok realPath =>
    grind

/-- Does the check take the last component as it is spelled? -/
def keepsLast (flags : ℕ) : Bool := hasFlag flags linuxONofollow || hasFlag flags linuxOCreat

section
variable (hdir : t.kind dir = some .dir)
include hdir

/-- A check that follows the last link has looked at the node itself. -/
lemma within_follow (hrel : Relative (openat2Rel path inRoot)) (hkeep : keepsLast flags = false)
    (h : pathOpenat2ResolvedWithinRoot t links dir path flags inRoot = .ok ())
    (hres : t.resolve true links dir (walkComps (openat2Rel path inRoot)) = .node m left) :
    dir <+: m := by
  obtain ⟨realPath, hreal, hstarts⟩ := within_spec hdir hrel h
  rw [openat2RealPath, if_neg (by rw [← keepsLast, hkeep]; decide), lookup_below hdir hrel, hres]
    at hreal
  cases hreal
  have hm := (resolve_node_kind hdir hres).1
  have hpre := prefix_of_startsWithin hstarts
  grind [components, components_render]

/-- The components of a joined path up to its last slash, and after it. -/
lemma cut_joined (hrel : Relative rel) {tail : Text}
    (hcut : cutLast slash (render slash dir ++ slash :: rel) = some (parent, tail)) :
    parent ≠ [] ∧ ∃ A x, walkComps rel = A ++ [x] ∧ components parent = dir ++ A ∧
      (x = tail ∨ x = dot ∧ tail = []) := by
  have hne : t.kind dir ≠ none := by simp [hdir]
  obtain ⟨hjoined, htail⟩ := cutLast_eq_some hcut
  have hcomps : dir ++ components rel = components parent ++ components tail := by
    rw [← components_below hne, hjoined, components, segments_append_sep]
    rfl
  have hrellast : rel.getLast? = (slash :: tail).getLast? := by
    obtain ⟨c, l, rfl⟩ := List.exists_cons_of_ne_nil hrel.nonempty
    have := congrArg List.getLast? hjoined
    grind
  constructor
  · -- the joined path has a slash at its start and one before `rel`
    rintro rfl
    rw [render] at hjoined
    split at hjoined
    · grind
    obtain ⟨n, p, rfl⟩ := List.exists_cons_of_ne_nil (by assumption : dir ≠ [])
    have := congrArg List.tail hjoined
    exact htail (by simp [prefixed] at this; simp [← this])
  by_cases hnil : tail = []
  · subst hnil
    refine ⟨components rel, dot, ?_, by simpa [components] using hcomps.symm, .inr ⟨rfl, rfl⟩⟩
    rw [walkComps, if_pos ⟨by rw [hrellast]; rfl, hrel.components_ne⟩]
  have htails : components tail = [tail] := segments_of_not_mem htail hnil
  obtain ⟨A, x, hAx⟩ := List.eq_nil_or_concat (components rel) |>.resolve_left hrel.components_ne
  rw [List.concat_eq_append] at hAx
  rw [htails, hAx, ← List.append_assoc] at hcomps
  obtain ⟨hparent, hx⟩ := List.append_inj' hcomps rfl
  grind [walkComps]

lemma lookup_parent (hparent : components parent = dir ++ A)
    (h : t.lookup true links [] parent = .ok m) :
    ∃ left, t.resolve true links dir A = .node m left := by
  rw [Tree.lookup] at h
  split at h
  · cases h
  rw [targetStart_nil] at h
  obtain ⟨left, hleft⟩ := existing_eq_ok h
  -- the parent may end in a slash, which asks for a directory
  rcases walkComps_cases parent with hw | hw
  · grind [resolve_dir]
  rw [hw, hparent, append_assoc, resolve_dir true links _ hdir,
    resolve_append hdir (by simp)] at hleft
  cases hA : t.resolve true links dir A with
  | node m' left' =>
    rw [hA, Outcome.andThen] at hleft
    split at hleft
    · rw [resolve_of_scan (s := .node m') (by simp [Tree.scan]) (by simp)] at hleft
      cases hleft
      exact ⟨_, rfl⟩
    · cases hleft
  | _ =>
    rw [hA] at hleft
    cases hleft

/-- A check that keeps the last component has resolved what is before it. -/
lemma within_noFollow (hrel : Relative (openat2Rel path inRoot)) (hkeep : keepsLast flags)
    (h : pathOpenat2ResolvedWithinRoot t links dir path flags inRoot = .ok ()) :
    ∃ A x m left, walkComps (openat2Rel path inRoot) = A ++ [x] ∧
      t.resolve true links dir A = .node m left ∧ (dir <+: m ∨ dir = m ++ [x]) := by
  have hne : t.kind dir ≠ none := by simp [hdir]
  obtain ⟨realPath, hreal, hstarts⟩ := within_spec hdir hrel h
  rw [openat2RealPath, if_pos (by rw [← keepsLast, hkeep])] at hreal
  split at hreal
  · cases hreal
  rename_i parent tail hcut
  obtain ⟨hpne, A, x, hwalk, hparent, hx⟩ := cut_joined hdir hrel hcut
  rw [if_neg hpne] at hreal
  cases hlook : t.lookup true links [] parent with
  | error e =>
    rw [hlook] at hreal
    cases hreal
  | ok m =>
    rw [hlook] at hreal
    dsimp only [Except.bind] at hreal
    split at hreal
    · cases hreal
    cases hreal
    obtain ⟨left, hleft⟩ := lookup_parent hdir hparent hlook
    refine ⟨A, x, m, left, hwalk, hleft, ?_⟩
    have hm := (resolve_node_kind hdir hleft).1
    have hpre := prefix_of_startsWithin hstarts
    rw [← components, ← components, components_render hne, components_below hm] at hpre
    by_cases htail : tail = []
    · rw [htail] at hpre
      exact .inl (by simpa [components] using hpre)
    obtain ⟨hjoined, hslash⟩ := cutLast_eq_some hcut
    rw [components, segments_of_not_mem hslash htail] at hpre
    rcases prefix_concat_iff.mp hpre with heq | hpre
    · grind
    · exact .inl hpre

end

/-! ### The open -/

lemma hasFlag_of_masked (h : flags &&& mask = flags) (hb : mask &&& b = 0) : flags &&& b = 0 := by
  rw [← h, Nat.and_assoc, hb, Nat.and_zero]

lemma valid_path (h : openat2FlagsValid flags mode) (hpath : hasFlag flags linuxOPath) :
    hasFlag flags linuxOCreat = false ∧ opensToWrite flags = false := by
  have hmask : flags &&& (linuxOPath ||| linuxOCloexec ||| linuxODirectory ||| linuxONofollow)
      = flags := by
    by_contra hne
    rw [openat2FlagsValid, hpath, decide_eq_true hne] at h
    simp at h
  have hacc := hasFlag_of_masked (b := linuxOAccmode) hmask (by decide)
  have hcreat := hasFlag_of_masked (b := linuxOCreat) hmask (by decide)
  have htrunc := hasFlag_of_masked (b := linuxOTrunc) hmask (by decide)
  constructor
  · simp [hasFlag, hcreat]
  · simp [opensToWrite, hasFlag, hacc, htrunc]

/-- The flags that keep every open in the directory: a link at the end is not
followed unless the check has followed it, and a directory reached by a last
`..` is not opened unless the check has resolved it. -/
def LastChecked (flags : ℕ) (inRoot : Bool) : Prop :=
  (hasFlag flags linuxOCreat = true →
    hasFlag flags linuxOExcl = true ∨ hasFlag flags linuxONofollow = true) ∧
  (inRoot = false → hasFlag flags linuxONofollow = true →
    hasFlag flags linuxOCreat = true ∨ opensToWrite flags = true)

lemma follows_of_not_keepsLast (hkeep : keepsLast flags = false) :
    (translateOpenFlags flags).follows ∧ (translateOpenFlags flags).create = false := by
  rw [keepsLast, Bool.or_eq_false_iff] at hkeep
  rw [translateOpenFlags]
  split <;> simp [OpenFlags.follows, hkeep.1, hkeep.2]

lemma follows_of_keepsLast (hvalid : openat2FlagsValid flags mode)
    (hlast : LastChecked flags inRoot) (hkeep : keepsLast flags) :
    (translateOpenFlags flags).follows = false := by
  rw [keepsLast, Bool.or_eq_true] at hkeep
  by_cases hpath : hasFlag flags linuxOPath
  · have hno := (valid_path hvalid hpath).1
    grind [translateOpenFlags, OpenFlags.follows]
  rw [translateOpenFlags, if_neg hpath, OpenFlags.follows]
  cases hnofollow : hasFlag flags linuxONofollow with
  | true => simp
  | false =>
    have hcreat : hasFlag flags linuxOCreat := by
      grind
    have hexcl : hasFlag flags linuxOExcl := by
      rcases hlast.1 hcreat with h | h
      · exact h
      · rw [hnofollow] at h
        cases h
    simp [hcreat, hexcl]

/-- The last component of a path with `..` resolved lexically is no `..`. -/
lemma walkComps_normalized_ne
    (h : walkComps (pathOpenat2NormalizeInRoot path) = A ++ [x]) : x ≠ dotdot := by
  have hx : x ∈ walkComps (pathOpenat2NormalizeInRoot path) := by
    rw [h]
    simp
  have hdot : dot ≠ dotdot := by decide
  have hcomps : ∀ y ∈ components (pathOpenat2NormalizeInRoot path), y ≠ dotdot := by
    intro y hy
    rw [components_normalized] at hy
    split at hy
    · grind
    · exact (normalized_good path y hy).2.2.2
  rcases walkComps_cases (pathOpenat2NormalizeInRoot path) with hw | hw
  · exact hcomps x (hw ▸ hx)
  grind

lemma resolve_last (m : Node) (x : Text) : t.resolve false left m [x] =
    if x = dot then .node m left else if x = dotdot then .node m.dropLast left
    else if t.kind (m ++ [x]) = none then .missing m x left else .node (m ++ [x]) left := by
  have hscan : ∀ d target rest, t.scan false m [x] ≠ .link d target rest := by
    grind [Tree.scan]
  rw [resolve_of_scan rfl hscan, Tree.scan, Tree.scan, Tree.scan]
  grind [Scan.stop, Tree.scan]

lemma scOpenat2_ok (h : scOpenat2 t links dir path flags mode inRoot = .ok node) :
    openat2FlagsValid flags mode ∧ Relative (openat2Rel path inRoot) ∧
      pathOpenat2ResolvedWithinRoot t links dir path flags inRoot = .ok () ∧
      t.openat links dir (openat2Rel path inRoot) (translateOpenFlags flags) = .ok node := by
  rw [scOpenat2] at h
  split at h
  · cases h
  rename_i hvalid
  split at h
  · cases h
  rename_i hne
  split at h
  · cases h
  rename_i habs
  split at h
  · cases h
  cases hwithin : pathOpenat2ResolvedWithinRoot t links dir path flags inRoot with
  | error e =>
    rw [hwithin] at h
    cases h
  | ok u =>
    rw [hwithin] at h
    rw [sysOpenatPath] at h
    split at h
    · cases h
    · exact ⟨by simpa using hvalid, openat2Rel_relative hne (by simpa using habs), rfl, h⟩

/-- With these flags an open ends in the directory. -/
lemma openat2_contained (hdir : t.kind dir = some .dir) (hlast : LastChecked flags inRoot)
    (h : scOpenat2 t links dir path flags mode inRoot = .ok node) : dir <+: node := by
  obtain ⟨hvalid, hrel, hwithin, hopen⟩ := scOpenat2_ok h
  cases hkeep : keepsLast flags with
  | false =>
    obtain ⟨hfollows, hcreate⟩ := follows_of_not_keepsLast hkeep
    cases hres : t.resolve true links dir (walkComps (openat2Rel path inRoot)) with
    | node p left =>
      obtain ⟨rfl, -⟩ := opened_node (by rwa [openat_relative hrel, hfollows, hres] at hopen)
      exact within_follow hdir hrel hkeep hwithin hres
    | missing d n left =>
      grind [openat_relative, Outcome.opened]
    | fail e =>
      rw [openat_relative hrel, hfollows, hres] at hopen
      cases hopen
  | true =>
    have hfollows := follows_of_keepsLast hvalid hlast hkeep
    obtain ⟨A, x, m, left, hwalk, hA, hwhere⟩ := within_noFollow hdir hrel hkeep hwithin
    have hne : t.kind dir ≠ none := by simp [hdir]
    have hentry : dir <+: m ++ [x] := by
      grind
    -- `.` and `..` are no names, so they are not the directory's own last name
    have hbelow : x = dot ∨ x = dotdot → dir <+: m := by
      intro hx
      rcases hwhere with hpre | rfl
      · exact hpre
      have hname := t.names_ok hne x (by simp)
      rcases hx with rfl | rfl
      · exact absurd rfl hname.notDot
      · exact absurd rfl hname.notDotdot
    have hres : t.resolve (translateOpenFlags flags).follows links dir
        (walkComps (openat2Rel path inRoot)) =
          if t.kind m = some .dir then t.resolve false left m [x] else .fail .ENOTDIR := by
      rw [hwalk, resolve_append hdir (by simp), hA, Outcome.andThen, hfollows]
    split at hres
    swap
    · rw [openat_relative hrel, hres] at hopen
      cases hopen
    rename_i hm
    rw [resolve_last] at hres
    split at hres
    · obtain ⟨rfl, -⟩ := opened_node (by rwa [openat_relative hrel, hres] at hopen)
      exact hbelow (.inl (by assumption))
    split at hres
    · -- a last `..` leads to a directory, which these flags do not open
      rename_i hx
      obtain ⟨-, hread⟩ := opened_node (by rwa [openat_relative hrel, hres] at hopen)
      obtain ⟨hcreate, hwrite⟩ := hread (t.kind_dropLast hm)
      cases inRoot with
      | true => exact absurd hx (walkComps_normalized_ne hwalk)
      | false =>
        obtain ⟨hc, hw⟩ : hasFlag flags linuxOCreat = false ∧ opensToWrite flags = false := by
          by_cases hpath : hasFlag flags linuxOPath
          · exact valid_path hvalid hpath
          · rw [translateOpenFlags, if_neg hpath] at hcreate hwrite
            exact ⟨hcreate, hwrite⟩
        rw [keepsLast, hc, Bool.or_false] at hkeep
        rcases hlast.2 rfl hkeep with hc' | hw'
        · rw [hc] at hc'
          cases hc'
        · rw [hw] at hw'
          cases hw'
    split at hres
    · grind [openat_relative, Outcome.opened]
    · obtain ⟨rfl, -⟩ := opened_node (by rwa [openat_relative hrel, hres] at hopen)
      exact hentry

/-! ### What is not refused -/

/-- The compared path of a text without links begins with the directory, unless that
is the root. -/
lemma realPath_starts (hdir : t.kind dir = some .dir) (hroot : dir ≠ []) (hrel : Relative rel)
    (hscan : t.scan true dir (walkComps rel) = .node p) (hstays : staysFrom 0 (walkComps rel))
    (h : openat2RealPath t links (render slash dir ++ slash :: rel) flags = .ok realPath) :
    startsWithin slash (render slash dir) realPath := by
  rw [openat2RealPath] at h
  split at h
  · split at h
    · cases h
    rename_i parent tail hcut
    obtain ⟨hpne, A, x, hwalk, hparent, -⟩ := cut_joined hdir hrel hcut
    rw [if_neg hpne] at h
    cases hlook : t.lookup true links [] parent with
    | error e =>
      rw [hlook] at h
      cases h
    | ok m =>
      rw [hlook] at h
      dsimp only [Except.bind] at h
      split at h
      · cases h
      cases h
      obtain ⟨left, hleft⟩ := lookup_parent hdir hparent hlook
      rw [hwalk] at hscan hstays
      exact startsWithin_render hroot (resolve_linkFree hdir hscan hstays hleft) _ (.inr rfl)
  · have hres : t.resolve true links dir (walkComps rel) = .node p links :=
      resolve_of_scan hscan (by simp)
    rw [lookup_below hdir hrel, hres] at h
    cases h
    rw [← append_nil (walkComps rel)] at hscan hstays
    have hpre := resolve_linkFree hdir hscan hstays hres
    rw [← append_nil (render slash p)]
    exact startsWithin_render hroot hpre [] (.inl rfl)

lemma realPath_error (h : openat2RealPath t links joined flags = .error .EXDEV) : False := by
  have hno : ∀ {x}, t.lookup true links [] x ≠ .error .EXDEV := by
    intro x hx
    rcases lookup_error hx with h | h | h <;> cases h
  rw [openat2RealPath] at h
  split at h
  · split at h
    · cases h
    rename_i parent tail hcut
    cases hlook : t.lookup true links [] (if parent = [] then [slash] else parent) with
    | error e =>
      rw [hlook] at h
      cases h
      exact hno hlook
    | ok m =>
      grind [Except.bind]
  cases hlook : t.lookup true links [] joined with
  | error e =>
    rw [hlook] at h
    cases h
    exact hno hlook
  | ok m =>
    rw [hlook] at h
    cases h

lemma staysFrom_names : ∀ {comps : List Text}, (∀ c ∈ comps, c ≠ dotdot) → staysFrom depth comps
  | [], _ => rfl
  | c :: comps, h => by
    have ih : ∀ depth, staysFrom depth comps := fun _ =>
      staysFrom_names fun q hq => h q (mem_cons_of_mem _ hq)
    rw [staysFrom, if_neg (h c mem_cons_self), ih, ih]
    exact ite_self true

/-- The text that is opened is free of links and does not climb, if the path is so. -/
lemma openat2Rel_linkFree (inRoot : Bool) (hdir : t.kind dir = some .dir)
    (hstays : staysFrom 0 (components path)) (hscan : t.scan true dir (walkComps path) = .node p) :
    ∃ q, t.scan true dir (walkComps (openat2Rel path inRoot)) = .node q ∧
      staysFrom 0 (walkComps (openat2Rel path inRoot)) := by
  have hcomps : ∃ q, t.scan true dir (components path) = .node q := by
    rcases walkComps_cases path with hw | hw
    · exact ⟨p, hw ▸ hscan⟩
    rw [hw, scan_append true _ hdir (by simp)] at hscan
    cases hs : t.scan true dir (components path) with
    | node q => exact ⟨q, rfl⟩
    | _ =>
      rw [hs] at hscan
      cases hscan
  rw [openat2Rel]
  cases inRoot with
  | false =>
    refine ⟨p, hscan, ?_⟩
    rcases walkComps_cases path with hw | hw
    · grind
    grind [staysFrom_append_dot]
  | true =>
    obtain ⟨q, hq⟩ := hcomps
    have hlex : q = dir ++ normalizeFrom [] (components path) :=
      scan_lexical (s := []) (by rwa [append_nil]) fun _ => hstays
    obtain ⟨hsome, hnolink⟩ := scan_node_kind hdir hq
    have hwalk : walkComps (pathOpenat2NormalizeInRoot path)
        = components (pathOpenat2NormalizeInRoot path) := by
      rw [walkComps, if_neg, append_nil]
      rintro ⟨hlast, -⟩
      rw [pathOpenat2NormalizeInRoot] at hlast
      split at hlast
      · cases hlast
      · exact join_getLast (fun s hs =>
          ⟨(normalized_good path s hs).1, (normalized_good path s hs).2.1⟩) hlast
    rw [if_pos rfl, hwalk, components_normalized]
    split
    · exact ⟨dir, by simp [Tree.scan], rfl⟩
    refine ⟨q, ?_, staysFrom_names fun c hc => (normalized_good path c hc).2.2.2⟩
    rw [hlex]
    exact scan_entry (hlex ▸ hsome) fun hf => hlex ▸ hnolink hf

/-- Below a directory that is not the root, a path without links that exists and
does not climb is not refused. -/
lemma openat2_not_refused (hdir : t.kind dir = some .dir) (hroot : dir ≠ [])
    (habs : (!inRoot && isAbsolute path) = false) (hstays : staysFrom 0 (components path))
    (hres : t.resolve true 0 dir (walkComps path) = .node p 0) :
    scOpenat2 t links dir path flags mode inRoot ≠ .error .EXDEV := by
  have hscan : t.scan true dir (walkComps path) = .node p := by
    rw [Tree.resolve] at hres
    cases hs : t.scan true dir (walkComps path) with
    | node q =>
      rw [hs] at hres
      cases hres
      rfl
    | _ =>
      rw [hs] at hres
      cases hres
  intro h
  rw [scOpenat2] at h
  split at h
  · cases h
  split at h
  · cases h
  rename_i hne
  have hrel := openat2Rel_relative hne habs
  rw [if_neg (by simpa using habs)] at h
  have hbeneath : pathOpenat2StaysBeneath path inRoot := by
    cases inRoot with
    | false => rw [pathOpenat2StaysBeneath, staysBeneathLoop_eq, hstays]
    | true => exact staysBeneathLoop_clamped 0 _
  rw [hbeneath] at h
  obtain ⟨q, hq, hqstays⟩ := openat2Rel_linkFree inRoot hdir hstays hscan
  have hwithin : pathOpenat2ResolvedWithinRoot t links dir path flags inRoot ≠ .error .EXDEV := by
    intro hw
    rw [pathOpenat2ResolvedWithinRoot, lookup_render links hdir] at hw
    dsimp only [Except.bind] at hw
    rw [if_neg (by simpa using habs), ← openat2Rel, if_neg hrel.nonempty] at hw
    split at hw
    · cases hw
    cases hreal : openat2RealPath t links
        (render slash dir ++ slash :: openat2Rel path inRoot) flags with
    | error e =>
      rw [hreal] at hw
      cases hw
      exact realPath_error hreal
    | ok realPath =>
      rw [hreal] at hw
      dsimp only [Except.bind] at hw
      rw [if_pos (realPath_starts hdir hroot hrel hq hqstays hreal)] at hw
      cases hw
  cases hcheck : pathOpenat2ResolvedWithinRoot t links dir path flags inRoot with
  | error e =>
    rw [hcheck] at h
    cases h
    exact hwithin hcheck
  | ok u =>
    rw [hcheck, ← openat2Rel] at h
    simp only [Except.bind, Bool.not_true, Bool.false_eq_true, if_false, sysOpenatPath] at h
    split at h
    · cases h
    rw [openat_relative hrel] at h
    rcases resolve_fail (opened_error h) with he | he | he <;> cases he

/-! ### Both statements -/

/-- A directory `/a` that holds one link, called `l`. -/
def oneLink (target : Text) : Tree where
  kind := fun p =>
    if p = [] then some .dir else if p = [[97]] then some .dir
    else if p = [[97], [108]] then some (.link target) else none
  root_dir := rfl
  parent_dir := by
    intro p n h
    rcases p with _ | ⟨a, _ | ⟨b, p⟩⟩
    · rfl
    · by_cases ha : a = [97]
      · simp [ha]
      · simp [ha] at h
    · simp at h
  name_ok := by
    have hgood : NameOk [97] ∧ NameOk [108] :=
      ⟨⟨by decide, by decide, by decide, by decide⟩, ⟨by decide, by decide, by decide, by decide⟩⟩
    intro p n h
    rcases p with _ | ⟨a, _ | ⟨b, p⟩⟩
    · by_cases hn : n = [97]
      · exact hn ▸ hgood.1
      · simp [hn] at h
    · by_cases hn : n = [108]
      · exact hn ▸ hgood.2
      · simp [hn] at h
    · simp at h

/-- Creating through a link at the end of the path lands where the link points. -/
lemma openat2_create_escapes (hvalid : openat2FlagsValid flags mode)
    (hcreat : hasFlag flags linuxOCreat) (hexcl : hasFlag flags linuxOExcl = false)
    (hnofollow : hasFlag flags linuxONofollow = false) (inRoot : Bool) :
    scOpenat2 (oneLink [47, 120]) 40 [[97]] [108] flags mode inRoot = .ok [[120]] := by
  have hpath : hasFlag flags linuxOPath = false := by
    by_contra hp
    grind [valid_path]
  have hrel : (if inRoot then pathOpenat2NormalizeInRoot [108] else [108]) = [108] := by
    cases inRoot <;> decide
  have habs : (!inRoot && isAbsolute [108]) = false := by cases inRoot <;> decide
  have hstays : pathOpenat2StaysBeneath [108] inRoot := by cases inRoot <;> decide
  have hroot : (oneLink [47, 120]).lookup true 40 [] (render slash [[97]]) = .ok [[97]] := by decide
  have hreal : openat2RealPath (oneLink [47, 120]) 40 [47, 97, 47, 108] flags
      = .ok [47, 97, 47, 108] := by
    rw [openat2RealPath, hcreat, Bool.or_true]
    decide
  have hres : (oneLink [47, 120]).resolve true 40 [[97]] (walkComps [108])
      = .missing [] [120] 39 := by decide
  have hflags : (translateOpenFlags flags).follows ∧ (translateOpenFlags flags).create := by
    simp [translateOpenFlags, hpath, OpenFlags.follows, hcreat, hexcl, hnofollow]
  have hopen : sysOpenatPath (oneLink [47, 120]) 40 [[97]] [108] flags = .ok [[120]] := by
    have hdirectory : hasFlag flags linuxODirectory = false := by
      by_contra hd
      have hd : hasFlag flags linuxODirectory := by simpa using hd
      simp [openat2FlagsValid, hd, hcreat] at hvalid
    rw [sysOpenatPath, hdirectory, Bool.false_and, Bool.false_and, if_neg (by decide),
      openat_relative ⟨by decide, by decide⟩, hflags.1, hres, Outcome.opened, hflags.2]
    rfl
  have hwithin : pathOpenat2ResolvedWithinRoot (oneLink [47, 120]) 40 [[97]] [108] flags inRoot
      = .ok () := by
    rw [pathOpenat2ResolvedWithinRoot, hroot]
    dsimp only [Except.bind]
    rw [habs, hrel, if_neg (by decide), if_neg (by decide)]
    rw [show render slash [[97]] ++ slash :: (if ([108] : Text) = [] then dot else [108])
      = [47, 97, 47, 108] by decide, hreal]
    decide
  rw [scOpenat2, hvalid, habs, hstays, hwithin, hrel]
  simpa [Except.bind] using hopen

/-- A last `..` behind a link back to the directory opens the parent. -/
lemma openat2_dotdot_escapes (hvalid : openat2FlagsValid flags mode)
    (hnofollow : hasFlag flags linuxONofollow)
    (hcreat : hasFlag flags linuxOCreat = false) (hwrite : opensToWrite flags = false) :
    scOpenat2 (oneLink dot) 40 [[97]] [108, 47, 46, 46] flags mode false = .ok [] := by
  have hroot : (oneLink dot).lookup true 40 [] (render slash [[97]]) = .ok [[97]] := by
    decide
  have hreal : openat2RealPath (oneLink dot) 40 [47, 97, 47, 108, 47, 46, 46] flags
      = .ok [47, 97, 47, 46, 46] := by
    rw [openat2RealPath, hnofollow, Bool.true_or]
    decide
  have hres : ∀ follow, (oneLink dot).resolve follow 40 [[97]] (walkComps [108, 47, 46, 46])
      = .node [] 39 := by decide
  have hflags : (translateOpenFlags flags).create = false ∧
      (translateOpenFlags flags).write = false := by
    rw [translateOpenFlags]
    split
    · exact ⟨rfl, rfl⟩
    · exact ⟨hcreat, hwrite⟩
  have hopen : sysOpenatPath (oneLink dot) 40 [[97]] [108, 47, 46, 46] flags = .ok [] := by
    rw [sysOpenatPath, hcreat, Bool.and_false, Bool.false_and, if_neg (by decide),
      openat_relative ⟨by decide, by decide⟩, hres, Outcome.opened, hflags.1, hflags.2]
    rfl
  have hwithin : pathOpenat2ResolvedWithinRoot (oneLink dot) 40 [[97]] [108, 47, 46, 46] flags
      false = .ok () := by
    rw [pathOpenat2ResolvedWithinRoot, hroot]
    dsimp only [Except.bind]
    rw [if_neg (by decide), if_neg (by decide)]
    rw [show render slash [[97]] ++ slash :: (if (if false = true then
        pathOpenat2NormalizeInRoot [108, 47, 46, 46] else [108, 47, 46, 46]) = [] then dot
        else (if false = true then pathOpenat2NormalizeInRoot [108, 47, 46, 46]
          else [108, 47, 46, 46])) = [47, 97, 47, 108, 47, 46, 46] by decide, hreal]
    decide
  rw [scOpenat2, hvalid, hwithin]
  have hstays : pathOpenat2StaysBeneath [108, 47, 46, 46] false := by decide
  rw [hstays]
  simpa [Except.bind, isAbsolute, slash] using hopen

def oneFile : Tree where
  kind := fun p => if p = [] then some .dir else if p = [[97]] then some .file else none
  root_dir := rfl
  parent_dir := by
    intro p n h
    rcases p with _ | ⟨a, p⟩
    · rfl
    · simp at h
  name_ok := by
    intro p n h
    rcases p with _ | ⟨a, p⟩
    · by_cases hn : n = [97]
      · exact hn ▸ ⟨by decide, by decide, by decide, by decide⟩
      · simp [hn] at h
    · simp at h

/-- The three failures on fixed requests: O_CREAT | O_WRONLY through a link to `/x`,
O_NOFOLLOW of `l/..`, and a file of the root directory. -/
theorem openat2_escapes_and_refuses :
    scOpenat2 (oneLink [47, 120]) 40 [[97]] [108] 0x41 0o600 false = .ok [[120]] ∧
    scOpenat2 (oneLink dot) 40 [[97]] [108, 47, 46, 46] 0x8000 0 false = .ok [] ∧
    scOpenat2 oneFile 40 [] [97] 0 0 false = .error .EXDEV := by decide

/-- For which flags an open stays in its directory, whatever the tree and the path,
and for which directories a path without links that exists and does not climb is
not refused. -/
theorem openat2_contained_iff (flags mode : ℕ) (inRoot : Bool) (dir : Node) :
    ((∀ t links dir path node, t.kind dir = some .dir →
        scOpenat2 t links dir path flags mode inRoot = .ok node → dir <+: node) ↔
      (openat2FlagsValid flags mode → LastChecked flags inRoot)) ∧
    ((∀ (t : Tree) links path p flags mode inRoot, t.kind dir = some .dir →
        (!inRoot && isAbsolute path) = false → staysFrom 0 (components path) →
        t.resolve true 0 dir (walkComps path) = .node p 0 →
        scOpenat2 t links dir path flags mode inRoot ≠ .error .EXDEV) ↔
      dir ≠ []) := by
  refine ⟨⟨fun hall hvalid => ?_, fun hlast t links dir path node hdir h =>
    openat2_contained hdir (hlast (scOpenat2_ok h).1) h⟩, ⟨fun hall => ?_,
    fun hroot t links path p flags mode inRoot hdir habs hstays hres =>
      openat2_not_refused hdir hroot habs hstays hres⟩⟩
  · refine ⟨fun hcreat => ?_, fun hin hnofollow => ?_⟩
    · by_contra hno
      rw [not_or, Bool.not_eq_true, Bool.not_eq_true] at hno
      have hpre := hall _ _ _ _ _ rfl (openat2_create_escapes hvalid hcreat hno.1 hno.2 inRoot)
      exact absurd hpre (by decide)
    by_contra hno
    rw [not_or, Bool.not_eq_true, Bool.not_eq_true] at hno
    subst hin
    have hpre := hall _ _ _ _ _ rfl (openat2_dotdot_escapes hvalid hnofollow hno.1 hno.2)
    exact absurd hpre (by decide)
  · rintro rfl
    exact hall oneFile 40 [97] [[97]] 0 0 false rfl rfl rfl (by decide) (by decide)

end Elfuse
