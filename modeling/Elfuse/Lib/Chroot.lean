/-
Resolution in the tree rooted at a directory.

`Tree.sub` is the tree below a directory, with that directory as its root: what
a process resolves in that has its root there. `..` stops at the new root and
absolute links start at it. A walk from outside that meets no link and does not
climb sees the same (`scan_sub`). `clampFrom` is the attempt to have the rule
for `..` by text alone: it drops the `..` that a text has too many. That is
right as long as no link leads deeper than its name does (`resolve_clampFrom`).
-/
import Elfuse.Lib.FileTree

namespace FileTree

open List

variable {t : Tree} {follow : Bool} {p q cur dir : Node} {comps rest A B : List Text} {n : Text}

/-! ### The tree below a directory -/

def Tree.sub (t : Tree) (r : Node) (h : t.kind r = some .dir) : Tree where
  kind := fun p => t.kind (r ++ p)
  root_dir := by simpa using h
  parent_dir := by
    intro p n hne
    exact t.parent_dir (r ++ p) n (by rwa [List.append_assoc])
  name_ok := by
    intro p n hne
    exact t.name_ok (r ++ p) n (by rwa [List.append_assoc])

/-- The same stop, seen from outside. -/
def Scan.lift (r : Node) : Scan → Scan
  | .node p => .node (r ++ p)
  | .missing d n => .missing (r ++ d) n
  | .link d target rest => .link (r ++ d) target rest
  | .fail e => .fail e

variable {r : Node} (hr : t.kind r = some .dir) {left : ℕ}

/-- As long as the text does not climb, the walk below `r` is the walk of the tree
rooted there. -/
lemma scan_sub (h : staysFrom cur.length comps) :
    t.scan follow (r ++ cur) comps = ((t.sub r hr).scan follow cur comps).lift r := by
  induction comps generalizing cur with
  | nil => rfl
  | cons c comps ih =>
    rw [staysFrom] at h
    rw [Tree.scan, Tree.scan]
    split at h
    · rename_i hc
      rw [if_pos hc, if_pos hc]
      exact ih h
    rename_i hc
    rw [if_neg hc, if_neg hc]
    split at h
    · rename_i hcc
      rw [if_pos hcc, if_pos hcc]
      rw [Bool.and_eq_true, decide_eq_true_eq] at h
      have hne : cur ≠ [] := ne_nil_of_length_pos h.1
      rw [dropLast_append_of_ne_nil hne]
      exact ih (by rw [length_dropLast]; exact h.2)
    rename_i hcc
    rw [if_neg hcc, if_neg hcc]
    have hkind : (t.sub r hr).kind (cur ++ [c]) = t.kind (r ++ cur ++ [c]) := by
      rw [append_assoc]
      rfl
    rw [hkind]
    cases hk : t.kind (r ++ cur ++ [c]) with
    | none => by_cases hnil : comps = [] <;> simp [hnil, Scan.lift]
    | some k =>
      cases k with
      | dir =>
        rw [append_assoc]
        exact ih (by simpa using h)
      | file => by_cases hnil : comps = [] <;> simp [hnil, Scan.lift]
      | link target =>
        by_cases hlast : comps = [] ∧ follow = false <;> simp [hlast, Scan.lift]

/-! ### Parts that change nothing -/

section
variable (hcur : t.kind cur = some .dir)
include hcur

/-- A `.` inside a path asks for what its rest asks for anyway. -/
lemma resolve_drop_dot (hB : B ≠ []) :
    t.resolve follow links cur (A ++ [dot] ++ B) = t.resolve follow links cur (A ++ B) := by
  rw [append_assoc, resolve_append hcur (by simp), resolve_append hcur hB]
  cases t.resolve true links cur A with
  | node m left =>
    rw [Outcome.andThen, Outcome.andThen, singleton_append, resolve_congr scan_dot]
  | _ => rfl

lemma resolve_after (hA : t.scan true cur A = .node p) (hp : t.kind p = some .dir) (hB : B ≠ []) :
    t.resolve follow links cur (A ++ B) = t.resolve follow links p B := by
  apply resolve_congr
  rw [scan_append follow A hcur hB, hA, Scan.andThen, if_pos hp]

/-- Where a path leads, its beginning leads to a directory. -/
lemma resolve_node_append (hB : B ≠ []) (h : t.resolve follow links cur (A ++ B) = .node p left) :
    ∃ m left', t.resolve true links cur A = .node m left' ∧ t.kind m = some .dir ∧
      t.resolve follow left' m B = .node p left := by
  rw [resolve_append hcur hB] at h
  cases hA : t.resolve true links cur A with
  | node m left' =>
    rw [hA, Outcome.andThen] at h
    split at h
    · exact ⟨m, left', rfl, by assumption, h⟩
    · cases h
  | _ =>
    rw [hA] at h
    cases h

lemma resolve_end_dot (h : t.resolve follow links cur (A ++ [dot]) = .node p left) :
    t.resolve true links cur A = .node p left ∧ t.kind p = some .dir := by
  obtain ⟨m, left', hA, hm, hend⟩ := resolve_node_append hcur (by simp) h
  rw [resolve_of_scan (s := .node m) (by simp [Tree.scan]) (by simp)] at hend
  cases hend
  exact ⟨hA, hm⟩

end

/-- A component that is not followed. -/
lemma scan_one (t : Tree) (d : Node) (c : Text) : t.scan false d [c] =
    if c = dot then .node d else if c = dotdot then .node d.dropLast
    else if t.kind (d ++ [c]) = none then .missing d c else .node (d ++ [c]) := by
  rw [Tree.scan, Tree.scan, Tree.scan]
  split
  · rfl
  split
  · rfl
  cases hk : t.kind (d ++ [c]) with
  | none => simp
  | some k => cases k <;> simp [Tree.scan]

/-- What a path leads to is there when the last link is not followed, too. -/
lemma resolve_false_of_true (hcur : t.kind cur = some .dir)
    (h : t.resolve true links cur comps = .node p left) :
    ∃ q left', t.resolve false links cur comps = .node q left' := by
  rcases eq_nil_or_concat comps with rfl | ⟨A, c, rfl⟩
  · exact ⟨cur, links, resolve_of_scan (s := .node cur) rfl (by simp)⟩
  rw [concat_eq_append] at h ⊢
  obtain ⟨m, left', hA, hm, hend⟩ := resolve_node_append hcur (by simp) h
  rw [resolve_append hcur (by simp), hA, Outcome.andThen, if_pos hm]
  have hone := scan_one t m c
  by_cases hnone : t.kind (m ++ [c]) = none
  · by_cases hc : c = dot ∨ c = dotdot
    · rcases hc with rfl | rfl
      · exact ⟨m, left', resolve_of_scan (s := .node m) scan_dot (by simp)⟩
      · exact ⟨m.dropLast, left', resolve_of_scan (s := .node m.dropLast) scan_dotdot (by simp)⟩
    -- a missing entry is missing for both
    rw [not_or] at hc
    have hmiss : t.scan true m [c] = .missing m c := by
      rw [Tree.scan, if_neg hc.1, if_neg hc.2, hnone]
      simp
    rw [resolve_of_scan hmiss (by simp)] at hend
    cases hend
  · rw [if_neg hnone] at hone
    have hnode : ∃ q, t.scan false m [c] = .node q := by
      rw [hone]
      split
      · exact ⟨_, rfl⟩
      split <;> exact ⟨_, rfl⟩
    obtain ⟨q, hq⟩ := hnode
    exact ⟨q, left', resolve_of_scan hq (by simp)⟩

/-! ### Looking up texts -/

variable {links depth : ℕ} {x y : Text}

lemma lookup_eq_ok : t.lookup follow links [] x = .ok p ↔
    x ≠ [] ∧ ∃ left, t.resolve follow links [] (walkComps x) = .node p left := by
  rw [Tree.lookup, targetStart_nil]
  split
  · rename_i hx
    simp [hx]
  rename_i hx
  refine ⟨fun h => ⟨hx, existing_eq_ok h⟩, ?_⟩
  rintro ⟨-, left, h⟩
  rw [h, Outcome.existing]

lemma lookup_false_of_true (h : t.lookup true links [] x = .ok p) :
    ∃ q, t.lookup false links [] x = .ok q := by
  obtain ⟨hx, left, hres⟩ := lookup_eq_ok.mp h
  obtain ⟨q, left', hq⟩ := resolve_false_of_true t.root_dir hres
  exact ⟨q, lookup_eq_ok.mpr ⟨hx, left', hq⟩⟩

/-- What a path leads to through its components, also if a slash is asked for. -/
lemma lookup_of_components (hx : x ≠ []) (h : t.resolve true links [] (components x) = .node p left)
    (hdir : components x = [] ∨ x.getLast? ≠ some slash ∨ t.kind p = some .dir) :
    t.lookup true links [] x = .ok p := by
  refine lookup_eq_ok.mpr ⟨hx, left, ?_⟩
  rw [walkComps]
  split
  · rename_i hslash
    have hp : t.kind p = some .dir := by
      rcases hdir with hd | hd | hd
      · exact absurd hd hslash.2
      · exact absurd hslash.1 hd
      · exact hd
    rw [resolve_append t.root_dir (by simp), h, Outcome.andThen, if_pos hp]
    exact resolve_of_scan (s := .node p) (by simp [Tree.scan]) (by simp)
  · rwa [append_nil]

/-- A slash at the end has a last link followed, and takes away nothing. -/
lemma lookup_slash (hx : x.getLast? = some slash) (h : t.lookup follow links [] x = .ok p) :
    t.lookup true links [] x = .ok p ∧
      ∃ left, t.resolve true links [] (components x) = .node p left ∧ t.kind p = some .dir := by
  obtain ⟨hne, left, hres⟩ := lookup_eq_ok.mp h
  by_cases hnil : components x = []
  · have hw : walkComps x = [] := by simp [walkComps, hnil]
    have hroot : ∀ f, t.resolve f links [] [] = .node [] links := fun f =>
      resolve_of_scan (s := .node []) rfl (by simp)
    rw [hw, hroot] at hres
    cases hres
    have hcomps : t.resolve true links [] (components x) = .node [] links := by
      rw [hnil, hroot]
    exact ⟨lookup_of_components hne hcomps (Or.inl hnil), links, hcomps, t.root_dir⟩
  · have hw : walkComps x = components x ++ [dot] := by simp [walkComps, hx, hnil]
    rw [hw] at hres
    obtain ⟨hA, hp⟩ := resolve_end_dot t.root_dir hres
    exact ⟨lookup_of_components hne hA (Or.inr (Or.inr hp)), left, hA, hp⟩

/-- Nothing is found behind a beginning that is not there. -/
lemma lookup_behind (hx : x ≠ []) (hlast : walkComps x = components x)
    (hy : components y = components x ++ R) (h : t.lookup follow links [] y = .ok p) :
    ∃ q, t.lookup false links [] x = .ok q := by
  obtain ⟨-, left, hres⟩ := lookup_eq_ok.mp h
  have hfull : ∀ q l, t.resolve true links [] (components x) = .node q l →
      ∃ q, t.lookup false links [] x = .ok q := by
    intro q l hq
    rw [← hlast] at hq
    exact lookup_false_of_true (lookup_eq_ok.mpr ⟨hx, l, hq⟩)
  have hsplit : ∃ R', walkComps y = components x ++ R' := by
    rcases walkComps_cases y with hw | hw
    · exact ⟨R, by rw [hw, hy]⟩
    · exact ⟨R ++ [dot], by rw [hw, hy, append_assoc]⟩
  obtain ⟨R', hR'⟩ := hsplit
  rw [hR'] at hres
  by_cases hnil : R' = []
  · rw [hnil, append_nil] at hres
    cases follow with
    | true => exact hfull _ _ hres
    | false =>
      rw [← hlast] at hres
      exact ⟨p, lookup_eq_ok.mpr ⟨hx, left, hres⟩⟩
  · obtain ⟨m, left', hA, -, -⟩ := resolve_node_append t.root_dir hnil hres
    exact hfull _ _ hA

/-! ### More links never hurt -/

lemma resolve_mono (k : ℕ) (h : t.resolve follow links cur comps = .node p left) :
    t.resolve follow (links + k) cur comps = .node p (left + k) := by
  refine resolve_node_rec (P := fun links cur comps =>
    t.resolve follow (links + k) cur comps = .node p (left + k)) ?_ ?_ h
  · intro cur comps hs
    exact resolve_of_scan hs (by simp)
  · intro links cur comps d target rest hs hne ih
    rw [Nat.add_right_comm, resolve_link_succ hs, if_neg hne]
    exact ih

lemma resolve_left_le (h : t.resolve follow links cur comps = .node p left) : left ≤ links :=
  resolve_node_rec (P := fun links _ _ => left ≤ links) (fun _ _ _ => Nat.le_refl _)
    (fun _ _ _ _ _ _ _ _ => Nat.le_succ_of_le) h

/-! ### Dropping what would climb above the root -/

/-- The text without the `..` that would climb above its start. -/
def clampFrom : ℕ → List Text → List Text
  | _, [] => []
  | depth, c :: rest =>
    if c = dotdot ∧ depth = 0 then clampFrom depth rest
    else if c = dotdot then c :: clampFrom (depth - 1) rest
    else if c = dot then c :: clampFrom depth rest
    else c :: clampFrom (depth + 1) rest

lemma staysFrom_clampFrom (depth : ℕ) (comps : List Text) :
    staysFrom depth (clampFrom depth comps) := by
  induction comps generalizing depth with
  | nil => rfl
  | cons c comps ih =>
    rw [clampFrom]
    split
    · exact ih depth
    rename_i hdrop
    split
    · rename_i hc
      have hne : c ≠ dot := by
        rw [hc]
        decide
      have hpos : 0 < depth := Nat.pos_of_ne_zero fun hz => hdrop ⟨hc, hz⟩
      rw [staysFrom, if_neg hne, if_pos hc, ih, decide_eq_true hpos]
      rfl
    rename_i hc
    split
    · rename_i hdot
      rw [staysFrom, if_pos hdot, ih]
    · rename_i hdot
      rw [staysFrom, if_neg hdot, if_neg hc, ih]

lemma normalizeFrom_clampFrom (stack : Node) (comps : List Text) :
    normalizeFrom stack (clampFrom stack.length comps) = normalizeFrom stack comps := by
  induction comps generalizing stack with
  | nil => rfl
  | cons c comps ih =>
    have hup : dotdot ≠ dot := by decide
    rw [clampFrom]
    split
    · rename_i hc
      obtain ⟨rfl, hnil⟩ := hc
      rw [ih, normalizeFrom, if_neg hup, if_pos rfl, length_eq_zero_iff.mp hnil]
      rfl
    split
    · rename_i hc
      subst hc
      rw [normalizeFrom, normalizeFrom, if_neg hup, if_pos rfl, if_neg hup, if_pos rfl,
        ← length_dropLast, ih]
    rename_i hc
    split
    · rename_i hdot
      rw [normalizeFrom, normalizeFrom, if_pos hdot, if_pos hdot, ih]
    rename_i hdot
    have hlen : stack.length + 1 = (stack ++ [c]).length := by simp
    rw [normalizeFrom, normalizeFrom, if_neg hdot, if_neg hc, if_neg hdot, if_neg hc, hlen, ih]

lemma clampFrom_append_dot (depth : ℕ) (comps : List Text) :
    clampFrom depth (comps ++ [dot]) = clampFrom depth comps ++ [dot] := by
  induction comps generalizing depth with
  | nil => rfl
  | cons c comps ih =>
    rw [cons_append, clampFrom, clampFrom]
    split
    · exact ih depth
    split
    · rw [ih]
      rfl
    split <;> rw [ih] <;> rfl

/-- Below the start nothing is dropped first. -/
lemma clampFrom_eq_nil (h : 0 < depth) : clampFrom depth comps = [] ↔ comps = [] := by
  cases comps with
  | nil => simp [clampFrom]
  | cons c comps =>
    rw [clampFrom, if_neg fun hz => by omega]
    split
    · simp
    split <;> simp

/-- Every link to a directory leads at most one level below the directory it is in. -/
def LinksShallow (t : Tree) (links : ℕ) : Prop :=
  ∀ d n target m left, t.kind (d ++ [n]) = some (.link target) →
    t.resolve true links d [n] = .node m left → t.kind m = some .dir → m.length ≤ d.length + 1

/-- If no link leads deeper than its name does, what is dropped would have stayed at
the root: the text counts at least as many levels as there are. -/
lemma resolve_clampFrom (hshallow : LinksShallow t links) (hk : k ≤ links)
    (hcur : t.kind cur = some .dir) (hdepth : cur.length ≤ depth)
    (h : t.resolve true k cur comps = .node p left) :
    t.resolve true k cur (clampFrom depth comps) = .node p left := by
  induction comps generalizing k cur depth with
  | nil => exact h
  | cons c comps ih =>
    rw [clampFrom]
    split
    · rename_i hc
      obtain ⟨rfl, rfl⟩ := hc
      have hnil : cur = [] := length_eq_zero_iff.mp (Nat.le_zero.mp hdepth)
      subst hnil
      rw [resolve_congr scan_dotdot] at h
      exact ih hk hcur hdepth h
    split
    · rename_i hc
      subst hc
      rw [resolve_congr scan_dotdot] at h ⊢
      exact ih hk (t.kind_dropLast hcur) (by rw [length_dropLast]; omega) h
    rename_i hc
    split
    · rename_i hdot
      subst hdot
      rw [resolve_congr scan_dot] at h ⊢
      exact ih hk hcur hdepth h
    rename_i hdot
    by_cases hnil : comps = []
    · rw [hnil] at h ⊢
      exact h
    have hclamp : clampFrom (depth + 1) comps ≠ [] :=
      mt (clampFrom_eq_nil (Nat.succ_pos depth)).mp hnil
    -- first the component, then the rest
    rw [← singleton_append, resolve_append hcur hnil] at h
    rw [← singleton_append, resolve_append hcur hclamp]
    cases hfirst : t.resolve true k cur [c] with
    | node m left' =>
      rw [hfirst, Outcome.andThen] at h
      rw [Outcome.andThen]
      split at h
      · rename_i hm
        rw [if_pos hm]
        have hle := resolve_left_le hfirst
        refine ih (Nat.le_trans hle hk) hm ?_ h
        cases hkind : t.kind (cur ++ [c]) with
        | none =>
          have hs : t.scan true cur [c] = .missing cur c := by
            rw [Tree.scan, if_neg hdot, if_neg hc, hkind]
            rfl
          rw [resolve_of_scan hs (by simp)] at hfirst
          cases hfirst
        | some kd =>
          cases kd with
          | dir | file =>
            have hs : t.scan true cur [c] = .node (cur ++ [c]) := by
              rw [Tree.scan, if_neg hdot, if_neg hc, hkind]
              rfl
            rw [resolve_of_scan hs (by simp)] at hfirst
            cases hfirst
            rw [length_append, length_singleton]
            omega
          | link target =>
            have hmono := resolve_mono (links - k) hfirst
            rw [Nat.add_sub_cancel' hk] at hmono
            have := hshallow cur c target m _ hkind hmono hm
            omega
      · cases h
    | _ =>
      rw [hfirst] at h
      cases h

end FileTree
