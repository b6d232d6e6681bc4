/-
A file tree with symbolic links, and how POSIX resolves names in it.

A node is the list of names that leads to it from the root, so a directory's
descendants are the lists it is a prefix of. `scan` walks components up to the
first link it has to follow, `resolve` splices the target in and goes on, with a
bound on the links. Resolution is compositional: what a path resolves to is
what its rest resolves to from where its beginning led (`resolve_append`).

* `scan_append`, `resolve_append` — resolution in two parts;
* `scan_dir` — a canonical path leads to its directory;
* `scan_lexical` — without links, and as long as it does not climb, a walk ends
  where its text says;
* `scan_sub` — a walk below a directory is the walk in the tree rooted there.
-/
import Elfuse.Lib.Segments

namespace FileTree

open List Segments

abbrev Text := List UInt8
abbrev Node := List Text

def slash : UInt8 := 47
def dot : Text := [46]
def dotdot : Text := [46, 46]

inductive Errno
  | ENOENT | ENOTDIR | ELOOP | EEXIST | EISDIR | EINVAL | EXDEV | ENAMETOOLONG
  deriving DecidableEq, Repr

inductive Kind
  | dir
  | file
  | link (target : Text)
  deriving DecidableEq, Repr

/-- A name an entry can have. -/
structure NameOk (n : Text) : Prop where
  nonempty : n ≠ []
  noSlash : slash ∉ n
  notDot : n ≠ dot
  notDotdot : n ≠ dotdot

structure Tree where
  kind : Node → Option Kind
  root_dir : kind [] = some .dir
  parent_dir : ∀ p n, kind (p ++ [n]) ≠ none → kind p = some .dir
  name_ok : ∀ p n, kind (p ++ [n]) ≠ none → NameOk n

/-! ### Trees from their entries -/

instance (n : Text) : Decidable (NameOk n) :=
  decidable_of_iff (n ≠ [] ∧ slash ∉ n ∧ n ≠ dot ∧ n ≠ dotdot)
    ⟨fun h => ⟨h.1, h.2.1, h.2.2.1, h.2.2.2⟩,
      fun h => ⟨h.nonempty, h.noSlash, h.notDot, h.notDotdot⟩⟩

def entryKind (es : List (Node × Kind)) (p : Node) : Option Kind :=
  if p = [] then some .dir else es.lookup p

def EntriesOk (es : List (Node × Kind)) : Prop :=
  ∀ e ∈ es, entryKind es e.1.dropLast = some .dir ∧ ∀ n ∈ e.1.getLast?, NameOk n

instance (es : List (Node × Kind)) : Decidable (EntriesOk es) :=
  inferInstanceAs (Decidable (∀ e ∈ es, _))

lemma mem_of_entryKind (hp : p ≠ []) (h : entryKind es p = some k) : (p, k) ∈ es := by
  rw [entryKind, if_neg hp, lookup_eq_some_iff] at h
  obtain ⟨l1, l2, rfl, -⟩ := h
  simp

def Tree.ofEntries (es : List (Node × Kind)) (h : EntriesOk es) : Tree where
  kind := entryKind es
  root_dir := rfl
  parent_dir := by
    intro p n hn
    obtain ⟨k, hk⟩ := Option.ne_none_iff_exists'.mp hn
    have hdir := (h _ (mem_of_entryKind (by simp) hk)).1
    rwa [List.dropLast_concat] at hdir
  name_ok := by
    intro p n hn
    obtain ⟨k, hk⟩ := Option.ne_none_iff_exists'.mp hn
    exact (h _ (mem_of_entryKind (by simp) hk)).2 n (by simp)

/-! ### Texts -/

def components (p : Text) : List Text := Segments.segments slash p

/-- The components to walk: a slash at the end asks for a directory. -/
def walkComps (p : Text) : List Text :=
  components p ++ if p.getLast? = some slash ∧ components p ≠ [] then [dot] else []

def isAbsolute (p : Text) : Bool := p.head? == some slash

/-! ### Resolution -/

/-- Where a walk stops. -/
inductive Scan
  | node (p : Node)
  | missing (dir : Node) (name : Text)
  | link (dir : Node) (target : Text) (rest : List Text)
  | fail (e : Errno)
  deriving DecidableEq

/-- What a path resolves to, with the number of links that could still be followed. -/
inductive Outcome
  | node (p : Node) (left : ℕ)
  | missing (dir : Node) (name : Text) (left : ℕ)
  | fail (e : Errno)
  deriving DecidableEq

def Tree.scan (t : Tree) (follow : Bool) (cur : Node) : List Text → Scan
  | [] => .node cur
  | c :: rest =>
    if c = dot then t.scan follow cur rest
    else if c = dotdot then t.scan follow cur.dropLast rest
    else
      match t.kind (cur ++ [c]) with
      | none => if rest = [] then .missing cur c else .fail .ENOENT
      | some .dir => t.scan follow (cur ++ [c]) rest
      | some .file => if rest = [] then .node (cur ++ [c]) else .fail .ENOTDIR
      | some (.link target) =>
        if rest = [] ∧ follow = false then .node (cur ++ [c]) else .link cur target rest

/-- The outcome of a walk whose links are not followed any more. -/
def Scan.stop (left : ℕ) : Scan → Outcome
  | .node p => .node p left
  | .missing d n => .missing d n left
  | .link _ _ _ => .fail .ELOOP
  | .fail e => .fail e

def targetStart (dir : Node) (target : Text) : Node := if isAbsolute target then [] else dir

/-- Resolve components from a directory, following at most `links` links. -/
def Tree.resolve (t : Tree) (follow : Bool) : ℕ → Node → List Text → Outcome
  | 0, cur, comps => (t.scan follow cur comps).stop 0
  | links + 1, cur, comps =>
    match t.scan follow cur comps with
    | .link dir target rest =>
      if target = [] then .fail .ENOENT
      else t.resolve follow links (targetStart dir target) (walkComps target ++ rest)
    | s => s.stop (links + 1)

def Outcome.existing : Outcome → Except Errno Node
  | .node p _ => .ok p
  | .missing _ _ _ => .error .ENOENT
  | .fail e => .error e

def Tree.lookup (t : Tree) (follow : Bool) (links : ℕ) (dir : Node) (path : Text) :
    Except Errno Node :=
  if path = [] then .error .ENOENT
  else (t.resolve follow links (targetStart dir path) (walkComps path)).existing

structure OpenFlags where
  create : Bool
  excl : Bool
  noFollow : Bool
  /-- Open a link instead of following it. -/
  linkItself : Bool
  directory : Bool
  write : Bool
  deriving DecidableEq

def OpenFlags.follows (f : OpenFlags) : Bool :=
  !(f.noFollow || f.linkItself || (f.create && f.excl))

def Outcome.opened (t : Tree) (f : OpenFlags) : Outcome → Except Errno Node
  | .fail e => .error e
  | .missing d n _ => if f.create then .ok (d ++ [n]) else .error .ENOENT
  | .node p _ =>
    if f.create && f.excl then .error .EEXIST
    else
      match t.kind p with
      | some .dir => if f.create || f.write then .error .EISDIR else .ok p
      | some .file => if f.directory then .error .ENOTDIR else .ok p
      | some (.link _) =>
        if f.linkItself then (if f.directory then .error .ENOTDIR else .ok p)
        else .error .ELOOP
      | none => .error .ENOENT

def Tree.openat (t : Tree) (links : ℕ) (dir : Node) (path : Text) (f : OpenFlags) :
    Except Errno Node :=
  if path = [] then .error .ENOENT
  else (t.resolve f.follows links (targetStart dir path) (walkComps path)).opened t f

def Tree.addDir (t : Tree) (d : Node) (n : Text) (hd : t.kind d = some .dir) (hn : NameOk n) :
    Tree where
  kind := fun p => if p = d ++ [n] then some .dir else t.kind p
  root_dir := by rw [if_neg (by simp), t.root_dir]
  parent_dir := by
    intro p m h
    split at h
    · rename_i heq
      obtain ⟨rfl, -⟩ := List.append_inj' heq rfl
      split
      · rfl
      · exact hd
    · split
      · rfl
      · exact t.parent_dir p m h
  name_ok := by
    intro p m h
    split at h
    · rename_i heq
      obtain ⟨-, hm⟩ := List.append_inj' heq rfl
      rwa [List.singleton_inj.mp hm]
    · exact t.name_ok p m h

def Tree.mkdir (t : Tree) (links : ℕ) (path : Text) : Except Errno Tree :=
  match t.resolve false links [] (components path) with
  | .node _ _ => .error .EEXIST
  | .missing d n _ =>
    if h : t.kind d = some .dir ∧ NameOk n then .ok (t.addDir d n h.1 h.2) else .error .ENOENT
  | .fail e => .error e

variable {links : ℕ}

lemma Tree.mkdir_dir {t t' : Tree} (h : t.mkdir links path = .ok t')
    (hr : t.kind r = some .dir) : t'.kind r = some .dir := by
  rw [Tree.mkdir] at h
  split at h
  · cases h
  · split at h
    · cases h
      rw [Tree.addDir]
      grind
    · cases h
  · cases h

/-! ### The tree -/

variable {t : Tree} {follow : Bool} {p q cur d : Node} {comps rest B : List Text}
  {n rel target : Text} {f : OpenFlags} {o : Outcome} {e : Errno} {left : ℕ}

lemma Tree.kind_dropLast (h : t.kind p = some .dir) : t.kind p.dropLast = some .dir := by
  rcases eq_nil_or_concat p with rfl | ⟨q, n, rfl⟩
  · exact h
  rw [concat_eq_append] at h ⊢
  rw [dropLast_concat]
  exact t.parent_dir q n (by simp [h])

lemma Tree.kind_above (h : t.kind (p ++ q) ≠ none) (hq : q ≠ []) : t.kind p = some .dir := by
  induction q generalizing p with
  | nil => exact absurd rfl hq
  | cons n q ih =>
    rw [show p ++ n :: q = (p ++ [n]) ++ q by simp] at h
    by_cases hnil : q = []
    · rw [hnil, append_nil] at h
      exact t.parent_dir p n h
    · exact t.parent_dir p n (by rw [ih h hnil]; simp)

lemma Tree.names_ok (h : t.kind p ≠ none) : ∀ n ∈ p, NameOk n := by
  intro n hn
  obtain ⟨a, b, rfl⟩ := append_of_mem hn
  have hdir : t.kind (a ++ [n]) ≠ none := by
    by_cases hb : b = []
    · rwa [hb] at h
    rw [show a ++ n :: b = (a ++ [n]) ++ b by simp] at h
    rw [t.kind_above h hb]
    simp
  exact t.name_ok a n hdir

lemma scan_name (h : NameOk n) : t.scan follow cur (n :: rest) = match t.kind (cur ++ [n]) with
    | none => if rest = [] then .missing cur n else .fail .ENOENT
    | some .dir => t.scan follow (cur ++ [n]) rest
    | some .file => if rest = [] then .node (cur ++ [n]) else .fail .ENOTDIR
    | some (.link target) =>
      if rest = [] ∧ follow = false then .node (cur ++ [n]) else .link cur target rest := by
  rw [Tree.scan, if_neg h.notDot, if_neg h.notDotdot]

@[simp] lemma scan_dot : t.scan follow cur (dot :: rest) = t.scan follow cur rest := by
  rw [Tree.scan, if_pos rfl]

@[simp] lemma scan_dotdot :
    t.scan follow cur (dotdot :: rest) = t.scan follow cur.dropLast rest := by
  rw [Tree.scan, if_neg (by decide), if_pos rfl]

/-- A canonical path leads to its directory. -/
lemma scan_dir (h : t.kind (cur ++ p) = some .dir) :
    t.scan follow cur (p ++ rest) = t.scan follow (cur ++ p) rest := by
  induction p generalizing cur with
  | nil => simp
  | cons n p ih =>
    have hstep : cur ++ n :: p = (cur ++ [n]) ++ p := by simp
    rw [hstep] at h
    have hn : t.kind (cur ++ [n]) = some .dir := by
      by_cases hp : p = []
      · rwa [hp, append_nil] at h
      · exact t.kind_above (by rw [h]; simp) hp
    rw [cons_append, scan_name (t.name_ok cur n (by simp [hn])), hn, hstep]
    exact ih h

/-! ### Resolution in two parts -/

/-- A walk goes on from where its beginning led. -/
def Scan.andThen (t : Tree) (follow : Bool) (B : List Text) : Scan → Scan
  | .node m => if t.kind m = some .dir then t.scan follow m B else .fail .ENOTDIR
  | .missing _ _ => .fail .ENOENT
  | .link d target rest => .link d target (rest ++ B)
  | .fail e => .fail e

lemma scan_append (follow : Bool) (A : List Text) (hcur : t.kind cur = some .dir) (hB : B ≠ []) :
    t.scan follow cur (A ++ B) = (t.scan true cur A).andThen t follow B := by
  induction A generalizing cur with
  | nil => simp [Tree.scan, Scan.andThen, hcur]
  | cons c A ih =>
    rw [cons_append, Tree.scan, Tree.scan]
    split
    · exact ih hcur
    split
    · exact ih (t.kind_dropLast hcur)
    cases hk : t.kind (cur ++ [c]) with
    | none => by_cases hA : A = [] <;> simp [hA, hB, Scan.andThen]
    | some k =>
      cases k with
      | dir => exact ih hk
      | file => by_cases hA : A = [] <;> simp [hA, hB, hk, Scan.andThen]
      | link target => simp [hB, Scan.andThen]

/-- Resolution goes on from where its beginning led, with the links that are left. -/
def Outcome.andThen (t : Tree) (follow : Bool) (B : List Text) : Outcome → Outcome
  | .node m left => if t.kind m = some .dir then t.resolve follow left m B else .fail .ENOTDIR
  | .missing _ _ _ => .fail .ENOENT
  | .fail e => .fail e

lemma resolve_of_scan {s : Scan} (hs : t.scan follow cur comps = s)
    (h : ∀ d target rest, s ≠ .link d target rest) :
    t.resolve follow links cur comps = s.stop links := by
  cases links with
  | zero => rw [Tree.resolve, hs]
  | succ links =>
    simp [Tree.resolve, hs]

lemma resolve_link_succ (hs : t.scan follow cur comps = .link d target rest) :
    t.resolve follow (links + 1) cur comps = if target = [] then .fail .ENOENT
      else t.resolve follow links (targetStart d target) (walkComps target ++ rest) := by
  rw [Tree.resolve, hs]

lemma resolve_link_zero (hs : t.scan follow cur comps = .link d target rest) :
    t.resolve follow 0 cur comps = .fail .ELOOP := by
  rw [Tree.resolve, hs, Scan.stop]

lemma resolve_congr (h : t.scan follow cur comps = t.scan follow cur' comps') :
    t.resolve follow links cur comps = t.resolve follow links cur' comps' := by
  cases links with
  | zero | succ => rw [Tree.resolve, Tree.resolve, h]

/-- A resolution that ends at a node has followed one link after the other. -/
lemma resolve_node_rec {P : ℕ → Node → List Text → Prop} {left : ℕ}
    (hnode : ∀ cur comps, t.scan follow cur comps = .node p → P left cur comps)
    (hlink : ∀ links cur comps d target rest, t.scan follow cur comps = .link d target rest →
      target ≠ [] → P links (targetStart d target) (walkComps target ++ rest) →
      P (links + 1) cur comps)
    (h : t.resolve follow links cur comps = .node p left) : P links cur comps := by
  induction links generalizing cur comps with
  | zero =>
    cases hs : t.scan follow cur comps with
    | link d target rest =>
      rw [resolve_link_zero hs] at h
      cases h
    | node q =>
      rw [resolve_of_scan hs (by simp)] at h
      cases h
      exact hnode _ _ hs
    | _ =>
      rw [resolve_of_scan hs (by simp)] at h
      cases h
  | succ links ih =>
    cases hs : t.scan follow cur comps with
    | link d target rest =>
      rw [resolve_link_succ hs] at h
      split at h
      · cases h
      · exact hlink _ _ _ _ _ _ hs ‹_› (ih h)
    | node q =>
      rw [resolve_of_scan hs (by simp)] at h
      cases h
      exact hnode _ _ hs
    | _ =>
      rw [resolve_of_scan hs (by simp)] at h
      cases h

lemma scan_link_dir (hcur : t.kind cur = some .dir)
    (h : t.scan follow cur comps = .link d target rest) : t.kind d = some .dir := by
  induction comps generalizing cur with
  | nil => cases h
  | cons c comps ih =>
    rw [Tree.scan] at h
    split at h
    · exact ih hcur h
    split at h
    · exact ih (t.kind_dropLast hcur) h
    split at h
    · split at h <;> cases h
    · exact ih (by assumption) h
    · split at h <;> cases h
    grind

lemma targetStart_dir (h : t.kind d = some .dir) (target : Text) :
    t.kind (targetStart d target) = some .dir := by
  rw [targetStart]
  split
  · exact t.root_dir
  · exact h

lemma resolve_append_stop (hcur : t.kind cur = some .dir) (hB : B ≠ [])
    (hno : ∀ d target rest, t.scan true cur A ≠ .link d target rest) :
    t.resolve follow links cur (A ++ B) = ((t.scan true cur A).stop links).andThen t follow B := by
  have happ := scan_append follow A hcur hB
  cases hs : t.scan true cur A with
  | node m =>
    rw [hs, Scan.andThen] at happ
    by_cases hk : t.kind m = some .dir
    · grind [resolve_congr, Scan.stop, Outcome.andThen]
    rw [if_neg hk] at happ
    rw [resolve_of_scan happ (by simp)]
    simp [Scan.stop, Outcome.andThen, hk]
  | missing d n =>
    rw [hs] at happ
    exact resolve_of_scan happ (by simp [Scan.andThen])
  | link d target rest => exact absurd hs (hno d target rest)
  | fail e =>
    rw [hs] at happ
    exact resolve_of_scan happ (by simp [Scan.andThen])

lemma resolve_append (hcur : t.kind cur = some .dir) (hB : B ≠ []) :
    t.resolve follow links cur (A ++ B) = (t.resolve true links cur A).andThen t follow B := by
  induction links generalizing cur A with
  | zero =>
    by_cases hlink : ∃ d target rest, t.scan true cur A = .link d target rest
    · obtain ⟨d, target, rest, hs⟩ := hlink
      have happ := scan_append follow A hcur hB
      rw [hs] at happ
      rw [resolve_link_zero happ, resolve_link_zero hs]
      rfl
    grind [resolve_append_stop, resolve_of_scan]
  | succ links ih =>
    by_cases hlink : ∃ d target rest, t.scan true cur A = .link d target rest
    · obtain ⟨d, target, rest, hs⟩ := hlink
      have happ := scan_append follow A hcur hB
      rw [hs] at happ
      rw [resolve_link_succ happ, resolve_link_succ hs]
      split
      · rfl
      · rw [← append_assoc]
        exact ih (targetStart_dir (scan_link_dir hcur hs) target)
    grind [resolve_append_stop, resolve_of_scan]

lemma resolve_dir (follow : Bool) (links : ℕ) (rest : List Text) (h : t.kind p = some .dir) :
    t.resolve follow links [] (p ++ rest) = t.resolve follow links p rest :=
  resolve_congr (@scan_dir t follow p [] rest h)

/-- A walk stops at an entry, and at no link it should have followed. -/
lemma scan_node_kind (hcur : t.kind cur = some .dir) (h : t.scan follow cur comps = .node p) :
    t.kind p ≠ none ∧ (follow → ∀ target, t.kind p ≠ some (.link target)) := by
  induction comps generalizing cur with
  | nil =>
    cases h
    simp [hcur]
  | cons c comps ih =>
    rw [Tree.scan] at h
    split at h
    · exact ih hcur h
    split at h
    · exact ih (t.kind_dropLast hcur) h
    split at h
    · split at h <;> cases h
    · exact ih (by assumption) h
    · grind
    grind

lemma resolve_node_kind (hcur : t.kind cur = some .dir)
    (h : t.resolve follow links cur comps = .node p left) :
    t.kind p ≠ none ∧ (follow → ∀ target, t.kind p ≠ some (.link target)) := by
  refine resolve_node_rec (P := fun _ cur _ => t.kind cur = some .dir → _)
    (fun cur comps hs hcur => scan_node_kind hcur hs) ?_ h hcur
  intro links cur comps d target rest hs _ ih hcur
  exact ih (targetStart_dir (scan_link_dir hcur hs) target)

/-! ### What the text alone says -/

/-- The text never climbs above its start, from `depth` levels below it. -/
def staysFrom : ℕ → List Text → Bool
  | _, [] => true
  | depth, c :: rest =>
    if c = dot then staysFrom depth rest
    else if c = dotdot then decide (0 < depth) && staysFrom (depth - 1) rest
    else staysFrom (depth + 1) rest

/-- The names that are left when every `..` takes back the name before it. -/
def normalizeFrom (stack : Node) : List Text → Node
  | [] => stack
  | c :: rest =>
    if c = dot then normalizeFrom stack rest
    else if c = dotdot then normalizeFrom stack.dropLast rest
    else normalizeFrom (stack ++ [c]) rest

lemma staysFrom_append (h : staysFrom depth (A ++ B)) : staysFrom depth A := by
  induction A generalizing depth with
  | nil => rfl
  | cons c A ih =>
    rw [cons_append, staysFrom] at h
    rw [staysFrom]
    split at h
    · grind
    rename_i hc
    rw [if_neg hc]
    split at h
    · grind
    grind

@[simp] lemma staysFrom_append_dot (depth : ℕ) (comps : List Text) :
    staysFrom depth (comps ++ [dot]) = staysFrom depth comps := by
  induction comps generalizing depth with
  | nil => rfl
  | cons c comps ih => rw [cons_append, staysFrom, staysFrom, ih, ih, ih]

lemma mem_normalizeFrom (h : n ∈ normalizeFrom stack comps) :
    n ∈ stack ∨ n ∈ comps ∧ n ≠ dot ∧ n ≠ dotdot := by
  induction comps generalizing stack with
  | nil => exact .inl h
  | cons c comps ih =>
    rw [normalizeFrom] at h
    split at h
    · grind
    split at h
    · exact (ih h).imp (dropLast_subset _ ·) fun ⟨hm, hn⟩ => ⟨mem_cons_of_mem _ hm, hn⟩
    grind

/-- A walk that meets no link ends where the text says, from the root of the tree or if the text
does not climb. -/
lemma scan_lexical (h : t.scan follow (dir ++ s) comps = .node p)
    (hstays : dir ≠ [] → staysFrom s.length comps) : p = dir ++ normalizeFrom s comps := by
  induction comps generalizing s with
  | nil =>
    cases h
    rfl
  | cons c comps ih =>
    rw [Tree.scan] at h
    rw [staysFrom] at hstays
    rw [normalizeFrom]
    split at h
    · grind
    rename_i hc
    rw [if_neg hc] at hstays ⊢
    split at h
    · rename_i hcc
      have hup : (dir ++ s).dropLast = dir ++ s.dropLast := by
        cases s with
        | nil =>
          -- only the root is its own parent
          by_cases hd : dir = []
          · simp [hd]
          · simp [hcc] at hstays
            exact absurd hstays hd
        | cons n s => rw [dropLast_append_of_ne_nil (by simp)]
      rw [hup] at h
      rw [if_pos hcc]
      refine ih h fun hd => ?_
      have := hstays hd
      grind
    rename_i hcc
    rw [if_neg hcc] at hstays ⊢
    have hnil : ∀ {k : Scan}, comps = [] → k = .node (dir ++ s ++ [c]) → k = .node p →
        p = dir ++ normalizeFrom (s ++ [c]) comps := by
      intro k hnil hk hp
      rw [hk] at hp
      cases hp
      rw [hnil]
      simp [normalizeFrom]
    split at h
    · split at h <;> cases h
    · grind
    · grind
    grind

lemma scan_entry (h : t.kind (cur ++ p) ≠ none)
    (hlink : follow → ∀ target, t.kind (cur ++ p) ≠ some (.link target)) :
    t.scan follow cur p = .node (cur ++ p) := by
  rcases eq_nil_or_concat p with rfl | ⟨q, n, rfl⟩
  · simp [Tree.scan]
  rw [concat_eq_append] at h hlink ⊢
  rw [← append_assoc] at h hlink ⊢
  rw [scan_dir (t.parent_dir _ n h), scan_name (t.name_ok _ n h)]
  cases hk : t.kind (cur ++ q ++ [n]) with
  | none => exact absurd hk h
  | some k =>
    cases k with
    | dir => rfl
    | file => simp
    | link target =>
      grind

/-! ### Texts of canonical paths -/

lemma good_names (h : t.kind p ≠ none) : ∀ s ∈ p, s ≠ [] ∧ slash ∉ s := fun s hs =>
  ⟨(t.names_ok h s hs).nonempty, (t.names_ok h s hs).noSlash⟩

lemma components_render (h : t.kind p ≠ none) : components (render slash p) = p :=
  segments_render (good_names h)

lemma components_below (h : t.kind p ≠ none) (rel : Text) :
    components (render slash p ++ slash :: rel) = p ++ components rel := by
  rw [components, segments_append_sep, ← components, components_render h]
  rfl

lemma isAbsolute_render (p : Node) (l : Text) : isAbsolute (render slash p ++ l) := by
  rw [isAbsolute, render]
  split
  · rfl
  cases p with
  | nil => contradiction
  | cons n p => rfl

lemma walkComps_cases (x : Text) :
    walkComps x = components x ∨ walkComps x = components x ++ [dot] := by
  grind [walkComps]

structure Relative (rel : Text) : Prop where
  nonempty : rel ≠ []
  notAbsolute : isAbsolute rel = false

lemma Relative.components_ne (h : Relative rel) : components rel ≠ [] := by
  intro hnil
  obtain ⟨c, l, rfl⟩ := exists_cons_of_ne_nil h.nonempty
  have hc := segments_eq_nil.mp hnil c mem_cons_self
  have habs := h.notAbsolute
  rw [isAbsolute, hc] at habs
  cases habs

lemma walkComps_below (hrel : Relative rel) (h : t.kind p ≠ none) :
    walkComps (render slash p ++ slash :: rel) = p ++ walkComps rel := by
  have hlast : (render slash p ++ slash :: rel).getLast? = rel.getLast? := by
    obtain ⟨c, l, rfl⟩ := exists_cons_of_ne_nil hrel.nonempty
    grind
  rw [walkComps, walkComps, hlast, components_below h, append_assoc]
  simp [hrel.components_ne]

@[simp] lemma targetStart_nil (x : Text) : targetStart [] x = [] := by
  rw [targetStart]
  split <;> rfl

lemma existing_eq_ok (h : o.existing = .ok p) : ∃ left, o = .node p left := by
  cases o with
  | node q left =>
    cases h
    exact ⟨left, rfl⟩
  | _ => cases h

lemma lookup_below (hdir : t.kind p = some .dir) (hrel : Relative rel) :
    t.lookup follow links [] (render slash p ++ slash :: rel) =
      (t.resolve follow links p (walkComps rel)).existing := by
  have hne : t.kind p ≠ none := by simp [hdir]
  rw [Tree.lookup, if_neg (by simp), targetStart_nil, walkComps_below hrel hne,
    resolve_dir follow links _ hdir]

/-- The canonical path of a directory leads to it, also with a slash at its end. -/
lemma lookup_dir (hx : x ≠ []) (h : t.kind (components x) = some .dir) :
    t.lookup true links [] x = .ok (components x) := by
  have hres : t.resolve true links [] (walkComps x) = .node (components x) links := by
    rcases walkComps_cases x with hw | hw
    · rw [hw, ← append_nil (components x), resolve_dir true links [] h, append_nil]
      exact resolve_of_scan rfl (by simp [Tree.scan])
    · rw [hw, resolve_dir true links [dot] h]
      exact resolve_of_scan (s := .node (components x)) (by simp [Tree.scan]) (by simp)
  rw [Tree.lookup, if_neg hx, targetStart_nil, hres, Outcome.existing]

lemma lookup_render (links : ℕ) (h : t.kind p = some .dir) :
    t.lookup true links [] (render slash p) = .ok p := by
  have hsome : t.kind p ≠ none := by simp [h]
  have hcomps : components (render slash p) = p := components_render hsome
  have hne : render slash p ≠ [] := by
    intro hnil
    have := isAbsolute_render p []
    rw [hnil] at this
    cases this
  grind [lookup_dir]

lemma resolve_fail (h : t.resolve follow links cur comps = .fail e) :
    e = .ENOENT ∨ e = .ENOTDIR ∨ e = .ELOOP := by
  have hscan : ∀ {cur : Node} {comps : List Text} {e : Errno},
      t.scan follow cur comps = .fail e → e = .ENOENT ∨ e = .ENOTDIR := by
    intro cur comps e h
    induction comps generalizing cur with
    | nil => cases h
    | cons c comps ih =>
      rw [Tree.scan] at h
      split at h
      · exact ih h
      split at h
      · exact ih h
      split at h
      · split at h <;> cases h
        exact .inl rfl
      · exact ih h
      · split at h <;> cases h
        exact .inr rfl
      · split at h <;> cases h
  induction links generalizing cur comps with
  | zero =>
    rw [Tree.resolve] at h
    cases hs : t.scan follow cur comps with
    | fail e' =>
      rw [hs] at h
      cases h
      exact (hscan hs).imp_right .inl
    | link d target rest =>
      rw [hs] at h
      cases h
      exact .inr (.inr rfl)
    | _ =>
      rw [hs] at h
      cases h
  | succ links ih =>
    cases hs : t.scan follow cur comps with
    | fail e' =>
      rw [resolve_of_scan hs (by simp)] at h
      cases h
      exact (hscan hs).imp_right .inl
    | link d target rest =>
      rw [resolve_link_succ hs] at h
      grind
    | _ =>
      rw [resolve_of_scan hs (by simp)] at h
      cases h

lemma lookup_error (h : t.lookup follow links dir x = .error e) :
    e = .ENOENT ∨ e = .ENOTDIR ∨ e = .ELOOP := by
  rw [Tree.lookup] at h
  split at h
  · cases h
    exact .inl rfl
  cases hres : t.resolve follow links (targetStart dir x) (walkComps x) with
  | fail e' =>
    rw [hres] at h
    cases h
    exact resolve_fail hres
  | missing d n left =>
    rw [hres] at h
    cases h
    exact .inl rfl
  | node q left =>
    rw [hres] at h
    cases h

/-- A path free of links leads, and its beginnings lead, to where the text says. -/
lemma resolve_linkFree (hdir : t.kind dir = some .dir)
    (h : t.scan true dir (A ++ B) = .node p) (hstays : staysFrom 0 (A ++ B))
    (hA : t.resolve true links dir A = .node m left) : dir <+: m := by
  have hscan : ∃ q, t.scan true dir A = .node q := by
    by_cases hB : B = []
    · grind
    rw [scan_append true A hdir hB] at h
    cases hs : t.scan true dir A with
    | node q => exact ⟨q, rfl⟩
    | _ =>
      rw [hs] at h
      cases h
  obtain ⟨q, hq⟩ := hscan
  rw [resolve_of_scan hq (by simp)] at hA
  cases hA
  have hend : m = dir ++ normalizeFrom [] A :=
    scan_lexical (s := []) (by rwa [append_nil]) fun _ => staysFrom_append hstays
  rw [hend]
  exact prefix_append _ _

/-! ### Opening -/

lemma openat_relative (hrel : Relative rel) :
    t.openat links dir rel f = (t.resolve f.follows links dir (walkComps rel)).opened t f := by
  have hstart : targetStart dir rel = dir := by
    rw [targetStart, hrel.notAbsolute]
    rfl
  rw [Tree.openat, if_neg hrel.nonempty, hstart]

lemma opened_node (h : (Outcome.node p left).opened t f = .ok node) :
    node = p ∧ (t.kind p = some .dir → f.create = false ∧ f.write = false) := by
  rw [Outcome.opened] at h
  split at h
  · cases h
  cases hk : t.kind p with
  | none =>
    rw [hk] at h
    cases h
  | some k =>
    rw [hk] at h
    cases k with
    | dir | file | link =>
      grind

lemma opened_error (h : o.opened t f = .error .EXDEV) : o = .fail .EXDEV := by
  cases o with
  | fail e =>
    cases h
    rfl
  | missing d n left =>
    rw [Outcome.opened] at h
    split at h <;> cases h
  | node p left =>
    rw [Outcome.opened] at h
    split at h
    · cases h
    grind

end FileTree
