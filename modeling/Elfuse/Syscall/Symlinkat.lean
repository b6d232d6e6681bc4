/-
Symbolic links with absolute targets, under a sysroot.

The host would read an absolute target from its own root, so `sys_symlinkat`
stores a relative text: one `..` for each directory between the sysroot and the
link, then the target with its `..` resolved. The directories are counted in the
spelling of the link's location; the link lands in the directory that spelling
leads to.

* `symlinkRewriteTarget`, `sysSymlinkat` — the calls, behind the translation of
  the link's path to a host path;
* `symlink_stored_iff` — what is stored is right for every target if and only if
  the link lands in the sysroot, as deep as it is spelled.
-/
import Elfuse.Syscall.SysrootLookup

namespace Elfuse

open FileTree List Segments

/-- Model of `symlink_host_location`; `dir` is the directory a relative name starts from. -/
def symlinkHostLocation (dir : Node) (host : Text) : Except Errno Text :=
  let location :=
    if isAbsolute host then host else Segments.render slash dir ++ slash :: host
  if linuxPathMax ≤ location.length then .error .ENAMETOOLONG else .ok location

def spelledDepth (s : Sysroot) (location : Text) : ℕ :=
  (components (location.drop s.text.length)).length - 1

/-- `SYMLINK_TARGET_VERBATIM`, `_REWRITTEN` and `_FAILED`. -/
inductive SymlinkTarget
  | verbatim
  | rewritten (text : Text)
  | failed (e : Errno)
  deriving DecidableEq

/-- `../` as many times as said, in front of a text. -/
def climbText : ℕ → Text → Text
  | 0, text => text
  | k + 1, text => dotdot ++ slash :: climbText k text

def symlinkRewriteTarget (s : Sysroot) (dir : Node) (host target : Text) : SymlinkTarget :=
  if !isAbsolute target then .verbatim
  else
    match symlinkHostLocation dir host with
    | .error e => .failed e
    | .ok location =>
      if !(s.text ++ [slash]).isPrefixOf location then .verbatim
      else
        let norm := pathOpenat2NormalizeInRoot target
        if linuxPathMax < spelledDepth s location * 3 + norm.length + 1 then .failed .ENAMETOOLONG
        else .rewritten (climbText (spelledDepth s location) norm)

/-- The host's `symlinkat`: the directory that gets the link, its name and its text. -/
def hostSymlinkat (s : Sysroot) (dir : Node) (host text : Text) :
    Except Errno (Node × Text × Text) :=
  match s.tree.resolve false s.links (targetStart dir host) (walkComps host) with
  | .missing d n _ => .ok (d, n, text)
  | .node _ _ => .error .EEXIST
  | .fail e => .error e

/-- Model of `sys_symlinkat`, `host` being what the link's path was translated to. -/
def sysSymlinkat (s : Sysroot) (dir : Node) (host target : Text) :
    Except Errno (Node × Text × Text) :=
  match symlinkRewriteTarget s dir host target with
  | .verbatim => hostSymlinkat s dir host target
  | .rewritten text => hostSymlinkat s dir host text
  | .failed e => .error e

/-- Read from the directory `d`, the text stays in the sysroot while it climbs, and leads
to the node that the target names for the guest, if it names one without a link. -/
structure StoredWell (s : Sysroot) (d : Node) (target text : Text) : Prop where
  climbs : ∀ k ≤ ((walkComps text).takeWhile (· = dotdot)).length,
    s.root <+: (targetStart d text).take ((targetStart d text).length - k)
  reaches : ∀ m, s.chroot.scan true [] (walkComps target) = .node m →
    s.tree.resolve true s.links (targetStart d text) (walkComps text) = .node (s.root ++ m) s.links

/-! ### The text that is stored -/

variable {s after : Sysroot} {dir d m : Node} {host target text n location : Text}

def targetNames (target : Text) : List Text :=
  if normalizeFrom [] (components target) = [] then [dot] else normalizeFrom [] (components target)

lemma targetNames_ok (target : Text) : targetNames target ≠ [] ∧
    ∀ c ∈ targetNames target, (c ≠ [] ∧ slash ∉ c) ∧ c ≠ dotdot := by
  rw [targetNames]
  split
  · exact ⟨by simp, by simp; decide⟩
  rename_i hne
  refine ⟨hne, fun c hc => ?_⟩
  obtain ⟨hnil, hslash, -, hup⟩ := normalized_good target c hc
  exact ⟨⟨hnil, hslash⟩, hup⟩

lemma climbText_join (k : ℕ) (target : Text) : climbText k (pathOpenat2NormalizeInRoot target) =
      join slash (replicate k dotdot ++ targetNames target) := by
  induction k with
  | zero =>
    rw [climbText, pathOpenat2NormalizeInRoot, targetNames]
    split <;> rfl
  | succ k ih =>
    obtain ⟨c, L, hL⟩ : ∃ c L, replicate k dotdot ++ targetNames target = c :: L :=
      exists_cons_of_ne_nil (by simp [targetNames_ok])
    rw [climbText, ih, replicate_succ, cons_append, hL]
    rfl

lemma walkComps_climbText (k : ℕ) (target : Text) :
    walkComps (climbText k (pathOpenat2NormalizeInRoot target)) =
      replicate k dotdot ++ targetNames target := by
  have hgood : ∀ c ∈ replicate k dotdot ++ targetNames target, c ≠ [] ∧ slash ∉ c := by
    refine forall_mem_append.mpr ⟨fun c hc => ?_, fun c hc => ((targetNames_ok target).2 c hc).1⟩
    rw [eq_of_mem_replicate hc]
    decide
  rw [walkComps, climbText_join, if_neg fun h => join_getLast hgood h.1, append_nil]
  exact segments_join hgood

lemma climbText_relative (k : ℕ) (target : Text) :
    isAbsolute (climbText k (pathOpenat2NormalizeInRoot target)) = false := by
  cases k with
  | succ k => rfl
  | zero =>
    by_cases hne : target = []
    · rw [hne]
      decide
    · have hrel : Relative (openat2Rel target true) := openat2Rel_relative hne rfl
      exact hrel.notAbsolute

lemma takeWhile_climb (k : ℕ) (target : Text) :
    ((replicate k dotdot ++ targetNames target).takeWhile (· = dotdot)).length = k := by
  obtain ⟨hne, hgood⟩ := targetNames_ok target
  obtain ⟨c, L, hL⟩ := exists_cons_of_ne_nil hne
  have hc : c ≠ dotdot := (hgood c (by simp [hL])).2
  induction k with
  | zero => simp [hL, hc]
  | succ k ih => simpa [replicate_succ] using ih

lemma normalizeFrom_dot (stack : Node) (comps : List Text) :
    normalizeFrom stack (comps ++ [dot]) = normalizeFrom stack comps := by
  induction comps generalizing stack with
  | nil => rfl
  | cons c comps ih => simp only [cons_append, normalizeFrom, ih]

lemma scan_targetNames (h : s.chroot.scan true [] (walkComps target) = .node m) :
    s.tree.scan true s.root (targetNames target) = .node (s.root ++ m) := by
  obtain ⟨hkind, hlink⟩ := scan_node_kind s.chroot.root_dir h
  have hm : m = normalizeFrom [] (components target) := by
    have hlex : m = [] ++ normalizeFrom [] (walkComps target) := scan_lexical h (by simp)
    rcases walkComps_cases target with hw | hw <;>
      simpa [hw, normalizeFrom_dot] using hlex
  rw [targetNames, ← hm]
  split
  · rename_i hnil
    simp [hnil, Tree.scan]
  · exact scan_entry hkind hlink

lemma scan_climbText (k : ℕ) (target : Text) (hd : s.tree.kind d = some .dir) :
    s.tree.scan true d (walkComps (climbText k (pathOpenat2NormalizeInRoot target))) =
      s.tree.scan true (d.take (d.length - k)) (targetNames target) := by
  have hup : s.tree.kind (d.take (d.length - k)) = some .dir := by
    have hall := take_append_drop (d.length - k) d
    by_cases hk : d.drop (d.length - k) = []
    · rw [hk, append_nil] at hall
      rwa [hall]
    · exact s.tree.kind_above (by rw [hall, hd]; simp) hk
  rw [walkComps_climbText, scan_append true _ hd (targetNames_ok target).1, scan_climb,
    Scan.andThen, if_pos hup]

lemma sysSymlinkat_text (hloc : symlinkHostLocation dir host = .ok location)
    (hin : s.text ++ [slash] <+: location) (habs : isAbsolute target)
    (h : sysSymlinkat s dir host target = .ok (d, n, text)) :
    text = climbText (spelledDepth s location) (pathOpenat2NormalizeInRoot target) := by
  have hin' := isPrefixOf_iff_prefix.mpr hin
  rw [sysSymlinkat, symlinkRewriteTarget] at h
  simp only [habs, hloc, hin', Bool.not_true, Bool.false_eq_true, if_false] at h
  by_cases hlong : linuxPathMax < spelledDepth s location * 3 +
      (pathOpenat2NormalizeInRoot target).length + 1
  · rw [if_pos hlong] at h
    cases h
  simp only [if_neg hlong, hostSymlinkat] at h
  split at h <;> cases h
  rfl

/-! ### Where the links land -/

/-- Links that are stored at a location in the sysroot lead the guest where it said, for every
absolute target, if and only if they land in the sysroot, as deep as the location is spelled.
The tree may have changed when they are read. That a link to `/` can be made says that the
location is not too long for any. -/
theorem symlink_stored_iff {link : Text} (hroot : s.root ≠ [])
    (hloc : symlinkHostLocation dir host = .ok location) (hin : s.text ++ [slash] <+: location)
    (hok : sysSymlinkat s dir host [slash] = .ok (d, n, link)) (hsame : after.root = s.root)
    (hd : after.tree.kind d = some .dir) :
    (∀ target text, isAbsolute target →
        sysSymlinkat s dir host target = .ok (d, n, text) → StoredWell after d target text) ↔
      s.root <+: d ∧ d.length = s.root.length + spelledDepth s location := by
  set depth := spelledDepth s location
  have hstart : ∀ target, targetStart d (climbText depth (pathOpenat2NormalizeInRoot target)) = d :=
    fun target => by rw [targetStart, climbText_relative, if_neg (by simp)]
  constructor
  · intro h
    -- the text stored for `/` climbs to where the spelling puts the sysroot
    have hreach := (h [slash] link rfl hok).reaches [] rfl
    have hscan : after.tree.scan true d
        (walkComps (climbText depth (pathOpenat2NormalizeInRoot [slash]))) =
          .node (d.take (d.length - depth)) := scan_climbText depth [slash] hd
    rw [sysSymlinkat_text hloc hin rfl hok, hstart, resolve_of_scan hscan (by simp)] at hreach
    have htake : d.take (d.length - depth) = s.root := by
      simpa [Scan.stop, hsame] using hreach
    have hpos : s.root.length ≠ 0 := by simpa using hroot
    have hlen := congrArg length htake
    rw [length_take] at hlen
    exact ⟨htake ▸ take_prefix _ _, by omega⟩
  rintro ⟨⟨q, rfl⟩, hlen⟩ target text habs hs
  obtain rfl := sysSymlinkat_text hloc hin habs hs
  rw [length_append] at hlen
  refine ⟨fun k hk => ?_, fun m hm => ?_⟩
  · rw [walkComps_climbText, takeWhile_climb] at hk
    rw [hstart, hsame, prefix_take_iff, length_append]
    exact ⟨prefix_append _ _, by omega⟩
  have hup : (s.root ++ q).take ((s.root ++ q).length - depth) = s.root := by
    rw [length_append, hlen, Nat.add_sub_cancel, take_left]
  have hscan := scan_climbText depth target hd
  rw [hup, ← hsame, scan_targetNames hm] at hscan
  rw [hstart, ← hsame, resolve_of_scan hscan (by simp)]
  rfl

/-! ### A spelling that goes back -/

/-- A sysroot `/s` that holds the directory `/a`. -/
def symlinkSysroot : Sysroot where
  tree := Tree.ofEntries [([[115]], .dir), ([[115], [97]], .dir)] (by decide)
  links := 32
  root := [[115]]
  root_dir := by decide

/-- `symlink("/e", "/a/x")`: the link is as deep as it is spelled, and `../e` reaches `/e`. -/
theorem symlink_stored_plain : sysSymlinkat symlinkSysroot [] [47, 115, 47, 97, 47, 120] [47, 101] =
        .ok ([[115], [97]], [120], [46, 46, 47, 101]) ∧
      StoredWell symlinkSysroot [[115], [97]] [47, 101] [46, 46, 47, 101] := by
  have hstored : sysSymlinkat symlinkSysroot [] [47, 115, 47, 97, 47, 120] [47, 101] =
      .ok ([[115], [97]], [120], [46, 46, 47, 101]) := by decide
  have hloc : symlinkHostLocation [] [47, 115, 47, 97, 47, 120] =
      .ok [47, 115, 47, 97, 47, 120] := rfl
  exact ⟨hstored, (symlink_stored_iff (by decide) hloc (by decide) rfl rfl rfl).mpr (by decide) _ _
    rfl hstored⟩

/-- `symlink("/e", "/a/../x")`: the link lands in `/s`, and its text `../../e` leaves it. -/
theorem symlink_climbs_out :
    (pathTranslateAt symlinkSysroot [47, 97, 47, 46, 46, 47, 120] ⟨false, true, true⟩).2 =
        .ok [47, 115, 47, 97, 47, 46, 46, 47, 120] ∧
      sysSymlinkat symlinkSysroot [] [47, 115, 47, 97, 47, 46, 46, 47, 120] [47, 101] =
        .ok ([[115]], [120], [46, 46, 47, 46, 46, 47, 101]) ∧
      ¬ StoredWell symlinkSysroot [[115]] [47, 101] [46, 46, 47, 46, 46, 47, 101] :=
  ⟨by decide, by decide, fun h => absurd (h.climbs 1 (by decide)) (by decide)⟩

end Elfuse
