/-
What `proc_resolve_sysroot_path` answers for a guest path that names something.

`GuestPath s path m` says that a process whose root is the sysroot reaches `m`
under `path`; the answer `Agrees` if the host reaches the same node under it. A
path that the host reads as one of the sysroot is passed through as it is
(`passThrough`), all others go through the loop of `SysrootChroot`.

* `sysroot_lookup_iff` — the answers agree if no link leads deeper than its name,
  and what becomes of the paths that are passed through.
-/
import Elfuse.Syscall.SysrootChroot

namespace Elfuse

open FileTree List Segments Nat

variable {s : Sysroot} {follow : Bool} {links left : ℕ} {m q n d : Node} {path host : Text}
  {t : Tree}

/-- An absolute path outside the forced directories under which the guest is to reach `m`. -/
structure GuestPath (s : Sysroot) (path : Text) (m : Node) : Prop where
  absolute : isAbsolute path = true
  free : forcedPath (lexicalNormalizeAbsolutePath path) = false
  reaches : s.chroot.lookup true maxSymlinks [] path = .ok m

def Agrees (s : Sysroot) (path : Text) (m : Node) : Prop :=
  ∃ host, procResolveSysrootPath s path = .ok host ∧
    s.tree.lookup true s.links [] host = .ok (s.root ++ m)

def HostSpelled (s : Sysroot) (path : Text) : Prop :=
  startsInSysroot s (hostReading s path true) = true

/-! ### Texts of the sysroot -/

lemma text_length : s.text.length = 1 ↔ s.root = [] := by
  have hne : s.tree.kind s.root ≠ none := by simp [s.root_dir]
  have hgood := good_names hne
  rw [Sysroot.text, render]
  split
  · rename_i hnil
    simp [hnil]
  rename_i hroot
  obtain ⟨n, p, hp⟩ := exists_cons_of_ne_nil hroot
  obtain ⟨c, l, hn⟩ := exists_cons_of_ne_nil (hgood n (hp ▸ mem_cons_self)).1
  rw [hp, hn, prefixed]
  simp

lemma startsInSysroot_eq (p : Text) : startsInSysroot s p =
    if s.root = [] then isAbsolute p else startsWithin slash s.text p := by
  rw [startsInSysroot]
  split
  · rename_i hnil
    have hlen := text_length.mpr hnil
    have htext : s.text = [slash] := by
      rw [Sysroot.text, hnil]
      rfl
    rw [hlen, htext, isAbsolute]
    cases p with
    | nil => rfl
    | cons c p => simp [isPrefixOf, eq_comm]
  · rename_i hne
    have hlen : (s.text.length == 1) = false := by
      rw [beq_eq_false_iff_ne]
      exact mt text_length.mp hne
    rw [hlen, Bool.false_or, startsWithin, ← Bool.and_assoc, Bool.and_self]

lemma startsInSysroot_render (hn : s.tree.kind n ≠ none) :
    startsInSysroot s (render slash n) ↔ s.root <+: n := by
  have hne : s.tree.kind s.root ≠ none := by simp [s.root_dir]
  rw [startsInSysroot_eq]
  split
  · rename_i hnil
    have habs := isAbsolute_render n []
    rw [append_nil] at habs
    simp [habs, hnil]
  rename_i hroot
  constructor
  · intro h
    have hpre := prefix_of_startsWithin h
    rwa [Sysroot.text, ← components, ← components, components_render hne,
      components_render hn] at hpre
  · intro h
    have hstart := @startsWithin_render _ _ slash _ _ hroot h [] (Or.inl rfl)
    rwa [append_nil] at hstart

lemma render_ne_nil (n : Node) : render slash n ≠ [] := by
  intro hnil
  have habs := isAbsolute_render n []
  rw [hnil] at habs
  cases habs

lemma lookup_entry (hn : t.kind n ≠ none) (hlink : ∀ target, t.kind n ≠ some (.link target)) :
    t.lookup true links [] (render slash n) = .ok n := by
  have hscan : t.scan true [] n = .node n := @scan_entry t true n [] hn fun _ => hlink
  rw [Tree.lookup, if_neg (render_ne_nil n), targetStart_nil, walkComps_render (good_names hn),
    resolve_of_scan hscan (by simp)]
  rfl

lemma lookup_kind (h : t.lookup true links [] path = .ok n) :
    t.kind n ≠ none ∧ ∀ target, t.kind n ≠ some (.link target) := by
  rw [Tree.lookup] at h
  split at h
  · cases h
  obtain ⟨left, hleft⟩ := existing_eq_ok h
  rw [targetStart_nil] at hleft
  obtain ⟨hn, hlink⟩ := resolve_node_kind t.root_dir hleft
  exact ⟨hn, hlink rfl⟩

/-! ### Paths that are passed through -/

lemma seed_passThrough (h : s.tree.lookup true s.links [] path = .ok (s.root ++ q)) :
    sysrootSeedHostPath s path true = (render slash q, render slash (s.root ++ q)) := by
  obtain ⟨hn, -⟩ := lookup_kind h
  have hread : hostReading s path true = render slash (s.root ++ q) := by
    rw [hostReading, if_pos rfl, h]
  have hin : startsInSysroot s (render slash (s.root ++ q)) :=
    (startsInSysroot_render hn).mpr (prefix_append _ _)
  rw [sysrootSeedHostPath, hread, if_pos hin]
  dsimp only
  by_cases hroot : s.root = []
  · rw [if_pos (text_length.mpr hroot), hroot, nil_append, if_neg (render_ne_nil q)]
  have hdrop : (render slash (s.root ++ q)).drop s.text.length = prefixed slash q := by
    rw [render_append hroot, Sysroot.text, drop_left]
  have hguest : (if prefixed slash q = [] then [slash]
      else prefixed slash q) = render slash q := by
    rw [render]
    cases q with
    | nil => rfl
    | cons n q => simp [prefixed]
  rw [if_neg (mt text_length.mp hroot), hdrop, hguest]

lemma contained_of_lookup (h : s.tree.lookup true s.links [] x = .ok (s.root ++ q)) :
    sysrootPathIsContained s x true := by
  rw [sysrootPathIsContained, if_pos rfl, h]
  exact (startsInSysroot_render (lookup_kind h).1).mpr (prefix_append _ _)

/-- A path that the host follows into the sysroot is answered with a path of that node. -/
lemma passThrough (habs : isAbsolute path)
    (h : s.tree.lookup true s.links [] path = .ok (s.root ++ q)) :
    ∃ host, procResolveSysrootPath s path = .ok host ∧
      s.tree.lookup true s.links [] host = .ok (s.root ++ q) := by
  obtain ⟨hn, hlink⟩ := lookup_kind h
  have hself : s.tree.lookup true s.links [] (render slash (s.root ++ q)) =
      .ok (s.root ++ q) := lookup_entry hn hlink
  have hn' : s.chroot.kind q ≠ none := hn
  rw [procResolveSysrootPath, procResolveSysrootPathFlags, seed_passThrough h, habs]
  dsimp only
  rw [Bool.not_true, if_neg (by simp)]
  split
  · refine ⟨_, ?_, hself⟩
    rw [hself, finishLookup]
    rw [contained_of_lookup hself, if_pos rfl]
  -- the rest of the canonical path has no links to follow
  have hscan : s.chroot.scan true [] (walkComps (render slash q)) = .node q := by
    rw [walkComps_render (good_names hn')]
    exact @scan_entry s.chroot true q [] hn' fun _ => hlink
  have habs' := isAbsolute_render q []
  rw [append_nil] at habs'
  have hstays : staysFrom 0 (components (render slash q)) := by
    rw [components_render hn']
    exact staysFrom_names fun c hc => (s.chroot.names_ok hn' c hc).notDotdot
  have hlook := lookup_spelled_node habs' hstays hscan
  refine ⟨_, ?_, hlook⟩
  rw [resolveByteExactThroughLinks, byteExactLoop_done maxSymlinks false habs' hstays hscan,
    finishLookup]
  rw [contained_of_lookup hlook, if_pos rfl]

/-! ### Paths that go through the loop -/

lemma seed_clamped (h : ¬ HostSpelled s path) : sysrootSeedHostPath s path true =
      (clampDotdotAtGuestRoot path, s.text ++ clampDotdotAtGuestRoot path) := by
  rw [sysrootSeedHostPath]
  exact if_neg h

lemma normalize_clamp (habs : isAbsolute path) :
    lexicalNormalizeAbsolutePath (clampDotdotAtGuestRoot path) =
      lexicalNormalizeAbsolutePath path := by
  rw [lexicalNormalizeAbsolutePath, (clamp_spec habs).2.1]
  exact normalizeFrom_clampFrom [] _

lemma resolve_clamped (habs : isAbsolute path)
    (hfree : forcedPath (lexicalNormalizeAbsolutePath path) = false) (h : ¬ HostSpelled s path) :
    procResolveSysrootPath s path = finishLookup s path (clampDotdotAtGuestRoot path) true false
      (resolveByteExactThroughLinks s (clampDotdotAtGuestRoot path) true) := by
  rw [procResolveSysrootPath, procResolveSysrootPathFlags, seed_clamped h, habs]
  dsimp only
  rw [Bool.not_true, if_neg (by simp), normalize_clamp habs, hfree, if_neg (by simp)]

/-- The answers agree if no link leads deeper than its name does. -/
lemma agrees_of_shallow (hshallow : LinksShallow s.chroot maxSymlinks) (hp : GuestPath s path m)
    (h : ¬ HostSpelled s path) : Agrees s path m := by
  have habs := hp.absolute
  have hreach := hp.reaches
  have hne : path ≠ [] := by
    rintro rfl
    cases habs
  rw [Tree.lookup, if_neg hne, targetStart_nil] at hreach
  obtain ⟨left, hleft⟩ := existing_eq_ok hreach
  have hclamp := resolve_clamp hshallow (le_refl _) habs hleft
  obtain ⟨hfound, hlook⟩ := byteExactLoop_found hshallow false (clamp_spec habs).1
    (clamp_stays habs) (le_refl _) hclamp
  refine ⟨_, ?_, hlook⟩
  rw [resolve_clamped habs hp.free h, resolveByteExactThroughLinks, finishLookup, hfound]
  rw [contained_of_lookup hlook, if_pos rfl]

/-! ### A link that leads deeper -/

lemma sysrootFallback_path {lookup buf : Text} {relative : Bool}
    (h : sysrootFallback s path clamped lookup buf follow false relative = .ok host)
    (hne : host ≠ path) :
    sysrootFallback s [] clamped lookup buf follow false relative = .ok host := by
  have hnone : realpathOutside s [] = false := rfl
  rw [sysrootFallback] at h ⊢
  rw [hnone, Bool.and_false, if_neg (by simp)]
  split at h
  · cases h
    exact absurd rfl hne
  by_cases hforced : forcedPath (lexicalNormalizeAbsolutePath lookup)
  · rw [if_pos hforced] at h ⊢
    exact h
  rw [if_neg hforced] at h ⊢
  by_cases hlook : lookup ≠ clamped
  · rw [if_pos hlook] at h ⊢
    exact h
  rw [if_neg hlook] at h
  cases h
  exact absurd rfl hne

/-- The answer to a path that goes through the loop is the path itself, or depends on the
clamped text only. -/
lemma finishLookup_path
    (h : finishLookup s path clamped follow false r = .ok host) (hne : host ≠ path) :
    finishLookup s [] clamped follow false r = .ok host := by
  rw [finishLookup] at h ⊢
  cases hv : r.verdict with
  | found | error =>
    rw [hv] at h
    exact h
  | absent e =>
    rw [hv] at h
    dsimp only at h ⊢
    by_cases he : e = .ENOTDIR
    · rw [if_pos he] at h ⊢
      exact h
    · rw [if_neg he] at h ⊢
      exact sysrootFallback_path h hne

def climbing (d : Node) (k : ℕ) : Text := Segments.render slash (d ++ List.replicate k dotdot)

lemma clampPieces_slashed (depth : ℕ) (L : List Text) :
    clampPieces depth (L.map fun c => ([slash], c)) =
      (clampFrom depth L).map fun c => ([slash], c) := by
  induction L generalizing depth with
  | nil => rfl
  | cons c L ih =>
    rw [map_cons, clampPieces, clampFrom]
    split
    · exact ih depth
    split
    · rw [map_cons, ih]
    split <;> rw [map_cons, ih]

lemma clamp_render {L : List Text} (h : ∀ c ∈ L, c ≠ [] ∧ slash ∉ c) (hne : L ≠ []) :
    clampDotdotAtGuestRoot (render slash L) = render slash (clampFrom 0 L) := by
  rw [render, if_neg hne, clampDotdotAtGuestRoot, ← glue_slashed, pieces_glue (wellCut_slashed h)]
  rw [clampPieces_slashed, glue_slashed, append_nil, render]
  cases clampFrom 0 L with
  | nil => rfl
  | cons c L => simp [prefixed]

lemma clampFrom_names (h : ∀ n ∈ d, NameOk n) (depth : ℕ) (rest : List Text) :
    clampFrom depth (d ++ rest) = d ++ clampFrom (depth + d.length) rest := by
  induction d generalizing depth with
  | nil => rfl
  | cons n d ih =>
    have hn := h n mem_cons_self
    rw [cons_append, clampFrom, if_neg fun hc => hn.notDotdot hc.1, if_neg hn.notDotdot,
      if_neg hn.notDot, ih fun m hm => h m (mem_cons_of_mem _ hm), cons_append,
      length_cons, Nat.add_assoc, Nat.add_comm 1]

lemma clampFrom_climb (depth k : ℕ) :
    clampFrom depth (replicate (depth + k) dotdot) = replicate depth dotdot := by
  induction depth with
  | zero =>
    induction k with
    | zero => rfl
    | succ k ih =>
      rw [← Nat.add_assoc, replicate_succ, clampFrom, if_pos ⟨rfl, rfl⟩, ih]
  | succ depth ih =>
    rw [Nat.add_right_comm, replicate_succ, clampFrom, if_neg (by simp), if_pos rfl,
      Nat.add_sub_cancel, ih, replicate_succ]

lemma normalizeFrom_names {stack : Node} (h : ∀ n ∈ d, NameOk n) (rest : List Text) :
    normalizeFrom stack (d ++ rest) = normalizeFrom (stack ++ d) rest := by
  induction d generalizing stack with
  | nil => simp
  | cons n d ih =>
    have hn := h n mem_cons_self
    rw [cons_append, normalizeFrom, if_neg hn.notDot, if_neg hn.notDotdot,
      ih fun m hm => h m (mem_cons_of_mem _ hm), append_assoc, singleton_append]

lemma normalizeFrom_climb (k : ℕ) (stack : Node) :
    normalizeFrom stack (replicate k dotdot) = stack.take (stack.length - k) := by
  induction k generalizing stack with
  | zero => simp [normalizeFrom]
  | succ k ih =>
    rw [replicate_succ, normalizeFrom, if_neg (by decide), if_pos rfl, ih,
      dropLast_eq_take, take_take, length_take]
    congr 1
    omega

lemma scan_climb (k : ℕ) (m : Node) :
    t.scan true m (replicate k dotdot) = .node (m.take (m.length - k)) := by
  induction k generalizing m with
  | zero => simp [Tree.scan]
  | succ k ih =>
    rw [replicate_succ, scan_dotdot, ih, dropLast_eq_take, take_take, length_take]
    congr 2
    omega

/-- A path that climbs from a link to the root by its text, but not in the tree. -/
lemma climbing_spec {n target : Text} (hlink : s.chroot.kind (d ++ [n]) = some (.link target))
    (hres : s.chroot.resolve true maxSymlinks d [n] = .node m left)
    (hm : s.chroot.kind m = some .dir) (k : ℕ) :
    GuestPath s (climbing (d ++ [n]) (d.length + 1 + k)) (m.take (m.length - (d.length + 1 + k))) ∧
    clampDotdotAtGuestRoot (climbing (d ++ [n]) (d.length + 1 + k)) =
      climbing (d ++ [n]) (d.length + 1) := by
  have hne : s.chroot.kind (d ++ [n]) ≠ none := by simp [hlink]
  have hnames := s.chroot.names_ok hne
  have hdir : s.chroot.kind d = some .dir := s.chroot.kind_above hne (by simp)
  have hgood : ∀ c ∈ (d ++ [n]) ++ replicate (d.length + 1 + k) dotdot, c ≠ [] ∧ slash ∉ c := by
    refine forall_mem_append.mpr ⟨good_names hne, fun c hc => ?_⟩
    rw [eq_of_mem_replicate hc]
    decide
  have hlen : (d ++ [n]).length = d.length + 1 := by simp
  refine ⟨⟨?_, ?_, ?_⟩, ?_⟩
  · have := isAbsolute_render ((d ++ [n]) ++ replicate (d.length + 1 + k) dotdot) []
    rwa [append_nil] at this
  · rw [climbing, lexicalNormalizeAbsolutePath, components, segments_render hgood,
      normalizeFrom_names hnames, normalizeFrom_climb, nil_append, hlen,
      Nat.sub_eq_zero_of_le (Nat.le_add_right _ _), take_zero]
    rfl
  · have hclimb : replicate (d.length + 1 + k) dotdot ≠ [] := by simp
    rw [climbing, Tree.lookup, if_neg (render_ne_nil _), targetStart_nil, walkComps_render hgood,
      append_assoc, resolve_dir true _ _ hdir, resolve_append hdir hclimb, hres,
      Outcome.andThen, if_pos hm, resolve_of_scan (scan_climb _ m) (by simp)]
    rfl
  · rw [climbing, clamp_render hgood (by simp), clampFrom_names hnames, Nat.zero_add, hlen,
      clampFrom_climb, climbing]

/-- One link that leads deeper than its name is enough: two paths that the guest tells apart
get one answer. -/
lemma shallow_of_agrees (hapart : ∀ path m, GuestPath s path m → ¬ HostSpelled s path)
    (hall : ∀ path m, GuestPath s path m → Agrees s path m) :
    LinksShallow s.chroot maxSymlinks := by
  intro d n target m left hlink hres hm
  by_contra hdeep
  obtain ⟨hp, hclamp⟩ := climbing_spec hlink hres hm 0
  obtain ⟨hp', hclamp'⟩ := climbing_spec hlink hres hm 1
  -- an answer the guest agrees with does not depend on how often the path climbs
  have hanswer : ∀ {path m}, GuestPath s path m →
      clampDotdotAtGuestRoot path = climbing (d ++ [n]) (d.length + 1) → ∃ host,
      finishLookup s [] (climbing (d ++ [n]) (d.length + 1)) true false
        (resolveByteExactThroughLinks s (climbing (d ++ [n]) (d.length + 1)) true) = .ok host ∧
      s.tree.lookup true s.links [] host = .ok (s.root ++ m) := by
    intro path m hp hclamp
    have hspelled := hapart path m hp
    obtain ⟨host, hhost, hlook⟩ := hall path m hp
    rw [resolve_clamped hp.absolute hp.free hspelled, hclamp] at hhost
    refine ⟨host, finishLookup_path hhost ?_, hlook⟩
    rintro rfl
    apply hspelled
    rw [HostSpelled, hostReading, if_pos rfl, hlook]
    exact (startsInSysroot_render (lookup_kind hlook).1).mpr (prefix_append _ _)
  obtain ⟨host, hhost, hlook⟩ := hanswer hp hclamp
  obtain ⟨host', hhost', hlook'⟩ := hanswer hp' hclamp'
  rw [hhost] at hhost'
  cases hhost'
  rw [hlook] at hlook'
  have hsame := append_cancel_left (Except.ok.inj hlook')
  have hlen := congrArg length hsame
  rw [length_take, length_take] at hlen
  omega

/-! ### All paths of a sysroot -/

/-- A sysroot `/s` with the directories `/a` and `/a/b` and the link `/l` to `a/b`. -/
def deepLink : Sysroot where
  tree := Tree.ofEntries [([[115]], .dir), ([[115], [97]], .dir), ([[115], [97], [98]], .dir),
    ([[115], [108]], .link [97, 47, 98])] (by decide)
  links := 32
  root := [[115]]
  root_dir := by decide

/-- `/l/../..` is the root of the guest, but the answer is `/s/a`. -/
theorem deepLink_climbs : GuestPath deepLink [47, 108, 47, 46, 46, 47, 46, 46] [] ∧
    ¬ HostSpelled deepLink [47, 108, 47, 46, 46, 47, 46, 46] ∧
    procResolveSysrootPath deepLink [47, 108, 47, 46, 46, 47, 46, 46] =
      .ok [47, 115, 47, 97, 47, 98, 47, 46, 46] ∧
    ¬ Agrees deepLink [47, 108, 47, 46, 46, 47, 46, 46] [] := by
  have hanswer : procResolveSysrootPath deepLink [47, 108, 47, 46, 46, 47, 46, 46] =
      .ok [47, 115, 47, 97, 47, 98, 47, 46, 46] := by decide
  refine ⟨⟨by decide, by decide, by decide⟩, ?_, hanswer, ?_⟩
  · rw [HostSpelled]
    decide
  rintro ⟨host, hhost, hlook⟩
  rw [hanswer] at hhost
  cases hhost
  exact absurd hlook (by decide)

/-- When the answers to all paths of a guest agree: a path that the host reads as one of the
sysroot has to name there what it names for the guest, and the others agree as long as no
link leads deeper than its name does, and, where there are only these, not otherwise. -/
theorem sysroot_lookup_iff (s : Sysroot) :
    (∀ path m q, GuestPath s path m → s.tree.lookup true s.links [] path = .ok (s.root ++ q) →
      (Agrees s path m ↔ q = m)) ∧
    (LinksShallow s.chroot maxSymlinks →
      ∀ path m, GuestPath s path m → ¬ HostSpelled s path → Agrees s path m) ∧
    ((∀ path m, GuestPath s path m → ¬ HostSpelled s path) →
      ((∀ path m, GuestPath s path m → Agrees s path m) ↔ LinksShallow s.chroot maxSymlinks)) := by
  refine ⟨fun path m q hp hhost => ?_, fun hshallow path m hp h => agrees_of_shallow hshallow hp h,
    fun hapart => ⟨shallow_of_agrees hapart, fun hshallow path m hp =>
      agrees_of_shallow hshallow hp (hapart path m hp)⟩⟩
  obtain ⟨host, hanswer, hlook⟩ := passThrough hp.absolute hhost
  constructor
  · rintro ⟨host', hanswer', hlook'⟩
    rw [hanswer] at hanswer'
    cases hanswer'
    rw [hlook] at hlook'
    exact append_cancel_left (Except.ok.inj hlook')
  · rintro rfl
    exact ⟨host, hanswer, hlook⟩

end Elfuse
