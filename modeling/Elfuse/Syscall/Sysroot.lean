/-
Absolute guest paths under a sysroot, on a volume that keeps names byte for byte.

The guest's root is a directory of the host. A guest path is spelled as a host
path below it: `..` that would climb above the guest root is dropped from the
text, links are read and spliced into the guest path one at a time, so that
their targets are read in the guest's namespace, and each spelling is clamped
again. A path the sysroot does not hold may fall back to the host. Texts are as
long as they need to be: the exits for names longer than LINUX_PATH_MAX are not
modelled.

* `clampDotdotAtGuestRoot`, `pathSpliceLinkTarget` — the two rewrites;
* `byteExactLoop` — `resolve_byte_exact_through_links`;
* `procResolveSysrootPathFlags`, `procResolveSysrootCreatePath` — the resolvers;
* `pathTranslateAt` — the part of `path_translate_at` for absolute names of
  plain files.
-/
import Elfuse.Syscall.Openat2

namespace Elfuse

open FileTree

/-- A host tree with the sysroot's directory in it; `links` is the number of links
the host follows in one path. -/
structure Sysroot where
  tree : Tree
  links : ℕ
  root : Node
  root_dir : tree.kind root = some .dir

def Sysroot.text (s : Sysroot) : Text := Segments.render slash s.root

/-! ### Texts -/

def clampPieces : ℕ → List (Text × Text) → List (Text × Text)
  | _, [] => []
  | depth, (sep, comp) :: rest =>
    if comp = dotdot ∧ depth = 0 then clampPieces depth rest
    else if comp = dotdot then (sep, comp) :: clampPieces (depth - 1) rest
    else if comp = dot then (sep, comp) :: clampPieces depth rest
    else (sep, comp) :: clampPieces (depth + 1) rest

/-- Model of `clamp_dotdot_at_guest_root`: a dropped `..` goes with the separators
before it, everything else is copied. -/
def clampDotdotAtGuestRoot (src : Text) : Text :=
  let out := Segments.glue (clampPieces 0 (Segments.pieces slash src).1) ++
    (Segments.pieces slash src).2
  if out = [] then [slash] else out

def lexicalNormalizeAbsolutePath (src : Text) : Node := normalizeFrom [] (components src)

/-- `usr`, `bin`, `sbin`, `lib`, `lib64`, `run`, `opt`, `boot`, `srv`, `root`, `home`. -/
def guestSystemDirs : List Text :=
  [[117, 115, 114], [98, 105, 110], [115, 98, 105, 110], [108, 105, 98], [108, 105, 98, 54, 52],
    [114, 117, 110], [111, 112, 116], [98, 111, 111, 116], [115, 114, 118], [114, 111, 111, 116],
    [104, 111, 109, 101]]

def nameVar : Text := [118, 97, 114]
def nameTmp : Text := [116, 109, 112]
def nameFolders : Text := [102, 111, 108, 100, 101, 114, 115]
def nameEtc : Text := [101, 116, 99]
def nameHosts : Text := [104, 111, 115, 116, 115]
def nameResolvConf : Text := [114, 101, 115, 111, 108, 118, 46, 99, 111, 110, 102]
def nameCcache : Text := [46, 99, 99, 97, 99, 104, 101]

-- the membership tests below share this instance instead of each deriving it
instance : LawfulBEq Text := inferInstance

/-- Model of `is_guest_system_path` on a normalized path. -/
def isGuestSystemPath : Node → Bool
  | [] => false
  | n :: rest =>
    if n ∈ guestSystemDirs then true
    else if n = nameVar then decide (rest.head? ≠ some nameFolders)
    else if n = nameEtc then decide (rest ≠ [nameResolvConf]) && decide (rest ≠ [nameHosts])
    else false

/-- Model of `is_sysroot_backed_temp_path` on a normalized path. -/
def isSysrootBackedTempPath (p : Node) : Bool :=
  p.head? == some nameTmp || [nameVar, nameTmp].isPrefixOf p || decide (nameCcache ∈ p)

def forcedPath (p : Node) : Bool := isSysrootBackedTempPath p || isGuestSystemPath p

def dropSlashes (p : Text) : Text := p.dropWhile (· == slash)

def pathSpliceLinkTarget (pre target rest : Text) : Text :=
  (if isAbsolute target then [] else pre) ++ target ++
    (if dropSlashes rest = [] then [] else slash :: dropSlashes rest)

/-! ### Following links in the guest's namespace -/

inductive WalkStop
  | link (pre target rest : Text)
  | absent (buf : Text) (e : Errno)
  | done
  deriving DecidableEq

/-- The component loop of `resolve_byte_exact_through_links`, `pre` being the part of
`cur` that is behind it. -/
def walkComponents (s : Sysroot) (follow : Bool) (cur : Text) (pre : Text) (tail : Text) :
    List (Text × Text) → WalkStop
  | [] => .done
  | (sep, comp) :: rest =>
    match s.tree.lookup false s.links [] (s.text ++ (pre ++ sep ++ comp)) with
    | .error e =>
      if e = .ENOTDIR then .absent (s.text ++ (pre ++ sep ++ comp)) e
      else .absent (s.text ++ cur) e
    | .ok n =>
      match s.tree.kind n with
      | some (.link target) =>
        if rest = [] ∧ follow = false then
          walkComponents s follow cur (pre ++ sep ++ comp) tail rest
        else .link (pre ++ sep) target (Segments.glue rest ++ tail)
      | _ => walkComponents s follow cur (pre ++ sep ++ comp) tail rest

/-- `CASEFOLD_FOUND`, `CASEFOLD_ABSENT` with its errno, `CASEFOLD_ERROR`. -/
inductive Verdict
  | found
  | absent (e : Errno)
  | error (e : Errno)
  deriving DecidableEq

structure ByteExact where
  verdict : Verdict
  buf : Text
  guestOut : Text
  followedRelative : Bool
  deriving DecidableEq

def maxSymlinks : ℕ := 40

/-- One pass over a spelling that needs no further link. -/
def byteExactStop (s : Sysroot) (follow : Bool) (cur : Text) (relative : Bool) :
    WalkStop → ByteExact
  | .absent buf e => ⟨.absent e, buf, cur, relative⟩
  | .link pre _ _ => ⟨.error .ELOOP, s.text ++ pre, cur, relative⟩
  | .done =>
    match s.tree.lookup follow s.links [] (s.text ++ cur) with
    | .ok _ => ⟨.found, s.text ++ cur, cur, relative⟩
    | .error e => ⟨.absent e, s.text ++ cur, cur, relative⟩

/-- The loop of `resolve_byte_exact_through_links`, with the links it may still follow. -/
def byteExactLoop (s : Sysroot) (follow : Bool) : ℕ → Text → Bool → ByteExact
  | 0, cur, relative =>
    byteExactStop s follow cur relative
      (walkComponents s follow cur [] (Segments.pieces slash cur).2 (Segments.pieces slash cur).1)
  | links + 1, cur, relative =>
    match walkComponents s follow cur [] (Segments.pieces slash cur).2
      (Segments.pieces slash cur).1 with
    | .link pre target rest =>
      byteExactLoop s follow links
        (clampDotdotAtGuestRoot (pathSpliceLinkTarget pre target rest))
        (relative || !isAbsolute target)
    | stop => byteExactStop s follow cur relative stop

def resolveByteExactThroughLinks (s : Sysroot) (path : Text) (follow : Bool) : ByteExact :=
  byteExactLoop s follow maxSymlinks path false

/-! ### The resolvers -/

/-- A realpath that failed because the path stopped resolving. -/
def realpathVanished (e : Errno) : Bool := e == .ENOENT || e == .ENOTDIR

def startsInSysroot (s : Sysroot) (p : Text) : Bool :=
  s.text.isPrefixOf p && (s.text.length == 1 || Segments.startsWithin slash s.text p)

def sysrootPathIsContained (s : Sysroot) (resolved : Text) (follow : Bool) : Bool :=
  let full := match s.tree.lookup true s.links [] resolved with
    | .ok n => startsInSysroot s (Segments.render slash n)
    | .error e => realpathVanished e
  if follow then full
  else
    match Segments.cutLast slash resolved with
    | none => false
    | some (parent, base) =>
      if base = dotdot ∨ base = dot then full
      else if parent = [] then false
      else
        match s.tree.lookup true s.links [] parent with
        | .ok n => startsInSysroot s (Segments.render slash n ++ slash :: base)
        | .error e => realpathVanished e

/-- The guest path taken as a host path: where it leads, if a last link is to be followed. -/
def hostReading (s : Sysroot) (path : Text) (follow : Bool) : Text :=
  if follow then
    match s.tree.lookup true s.links [] path with
    | .ok n => Segments.render slash n
    | .error _ => path
  else path

/-- Model of `sysroot_seed_host_path` for an absolute path: the clamped guest path and
the host path it is spelled as. -/
def sysrootSeedHostPath (s : Sysroot) (path : Text) (follow : Bool) : Text × Text :=
  let hostPath := hostReading s path follow
  if startsInSysroot s hostPath then
    let guest := if s.text.length = 1 then hostPath else hostPath.drop s.text.length
    (if guest = [] then [slash] else guest, hostPath)
  else (clampDotdotAtGuestRoot path, s.text ++ clampDotdotAtGuestRoot path)

def realpathOutside (s : Sysroot) (path : Text) : Bool :=
  match s.tree.lookup true s.links [] path with
  | .ok n => !startsInSysroot s (Segments.render slash n)
  | .error _ => false

/-- What `proc_resolve_sysroot_path_flags` answers for a path the sysroot does not hold:
`lookup` is the guest path after the links, `buf` its spelling. -/
def sysrootFallback (s : Sysroot) (path clamped lookup buf : Text) (follow forced relative : Bool) :
    Except Errno Text :=
  if !forced && realpathOutside s path then .ok path
  else
    let toCheck := lexicalNormalizeAbsolutePath lookup
    if forcedPath toCheck then .ok buf
    else if lookup ≠ clamped then
      match s.tree.lookup follow s.links [] (Segments.render slash toCheck) with
      | .ok _ => if relative then .error .ELOOP else .ok (Segments.render slash toCheck)
      | .error _ => .ok buf
    else .ok path

/-- The end of `proc_resolve_sysroot_path_flags`, after the walk through the links. -/
def finishLookup (s : Sysroot) (path clamped : Text) (follow forced : Bool) (r : ByteExact) :
    Except Errno Text :=
  match r.verdict with
  | .error e => .error e
  | .found => if sysrootPathIsContained s r.buf follow then .ok r.buf else .error .ELOOP
  | .absent e =>
    if e = .ENOTDIR then .ok r.buf
    else sysrootFallback s path clamped r.guestOut r.buf follow forced r.followedRelative

def procResolveSysrootPathFlags (s : Sysroot) (path : Text) (follow : Bool) : Except Errno Text :=
  if !isAbsolute path then .ok path
  else
    let clamped := (sysrootSeedHostPath s path follow).1
    let buf := (sysrootSeedHostPath s path follow).2
    if forcedPath (lexicalNormalizeAbsolutePath clamped) then
      -- no link is followed here: the spelling is probed as it is
      finishLookup s path clamped follow true
        ⟨match s.tree.lookup follow s.links [] buf with
          | .ok _ => .found
          | .error e => .absent e, buf, clamped, false⟩
    else finishLookup s path clamped follow false (resolveByteExactThroughLinks s clamped follow)

def procResolveSysrootPath (s : Sysroot) (path : Text) : Except Errno Text :=
  procResolveSysrootPathFlags s path true

def procResolveSysrootNofollowPath (s : Sysroot) (path : Text) : Except Errno Text :=
  procResolveSysrootPathFlags s path false

/-! ### Creating -/

def validateExistingDir (t : Tree) (links : ℕ) (path : Text) : Except Errno Unit :=
  (t.lookup false links [] path).bind fun n =>
    match t.kind n with
    | some (.link _) => .error .ELOOP
    | some .dir => .ok ()
    | _ => .error .ENOTDIR

/-- The texts in front of each slash but the first, and the whole text. -/
def dirPrefixes (path : Text) : List Text :=
  ((List.range path.length).filter fun i => decide (0 < i) && path[i]? == some slash).map
    (path.take ·) ++ [path]

def Sysroot.mkdir (s : Sysroot) (path : Text) : Except Errno Sysroot :=
  match h : s.tree.mkdir s.links path with
  | .ok t => .ok { s with tree := t, root_dir := Tree.mkdir_dir h s.root_dir }
  | .error e => .error e

/-- The loop of `sysroot_ensure_dir_exists`, with the tree it leaves. -/
def ensureDirs (s : Sysroot) : List Text → Sysroot × Except Errno Unit
  | [] => (s, .ok ())
  | p :: rest =>
    match s.mkdir p with
    | .ok s' => ensureDirs s' rest
    | .error .EEXIST =>
      match validateExistingDir s.tree s.links p with
      | .ok _ => ensureDirs s rest
      | .error e => (s, .error e)
    | .error e => (s, .error e)

def sysrootEnsureDirExists (s : Sysroot) (path : Text) : Sysroot × Except Errno Unit :=
  if path = [] then (s, .error .EINVAL) else ensureDirs s (dirPrefixes path)

/-- The loop of `sysroot_validate_dir_prefix`: what does not exist yet is no obstacle. -/
def validateDirs (s : Sysroot) : List Text → Except Errno Unit
  | [] => .ok ()
  | p :: rest =>
    match validateExistingDir s.tree s.links p with
    | .ok _ => validateDirs s rest
    | .error .ENOENT => .ok ()
    | .error e => .error e

def sysrootValidateDirPrefix (s : Sysroot) (path : Text) : Except Errno Unit :=
  if path = [] then .error .EINVAL else validateDirs s (dirPrefixes path)

/-- Slashes at the end go, but one at the start stays. -/
def trimSlashes (path : Text) : Text :=
  if dropSlashes path = [] then path.take 1 else (dropSlashes path.reverse).reverse

/-- The end of `proc_resolve_sysroot_create_path`: the entry goes below `parent`. -/
def finishCreate (s : Sysroot) (path clamped buf parent : Text) (createParents : Bool) :
    Sysroot × Except Errno Text :=
  match s.tree.lookup true s.links [] parent with
  | .ok _ => (s, if sysrootPathIsContained s parent true then .ok buf else .error .ELOOP)
  | .error e =>
    if !realpathVanished e then (s, .error e)
    else if !forcedPath (lexicalNormalizeAbsolutePath clamped) then (s, .ok path)
    else if !createParents then (s, (sysrootValidateDirPrefix s parent).map fun _ => buf)
    else
      match sysrootEnsureDirExists s parent with
      | (made, .error e) => (made, .error e)
      | (made, .ok _) =>
        (made, if sysrootPathIsContained made parent true then .ok buf else .error .ELOOP)

/-- Model of `proc_resolve_sysroot_create_path`, with the directories it makes. -/
def procResolveSysrootCreatePath (s : Sysroot) (path : Text) (createParents : Bool) :
    Sysroot × Except Errno Text :=
  if !isAbsolute path then (s, .ok path)
  else
    let clamped := (sysrootSeedHostPath s path false).1
    let buf := (sysrootSeedHostPath s path false).2
    if dropSlashes clamped = [] then (s, .ok buf)
    else
      match Segments.cutLast slash (trimSlashes buf) with
      | none => (s, .ok buf)
      | some (parent, _) =>
        if parent = [] then (s, .ok buf)
        else finishCreate s path clamped buf parent createParents

/-! ### From the guest's path to the open -/

def pathHasFoldable (p : Text) : Bool :=
  p.tails.any fun l => [slash, slash].isPrefixOf l || [slash, 46, slash].isPrefixOf l

/-- The components `path_fold_components` keeps: a `.` only at the end. -/
def foldPieces : List (Text × Text) → List Text
  | [] => []
  | [p] => [p.2]
  | p :: rest => if p.2 = dot then foldPieces rest else p.2 :: foldPieces rest

def pathFoldComponents (path : Text) : Text :=
  Segments.prefixed slash (foldPieces (Segments.pieces slash path).1) ++
    if (Segments.pieces slash path).2 = [] then [] else [slash]

def pathHasTrailingSlash (path : Text) : Bool :=
  decide (1 < path.length) && path.getLast? == some slash

/-- `PATH_TR_NOFOLLOW`, `PATH_TR_CREATE` and `PATH_TR_CREATE_PARENTS`. -/
structure PathTr where
  noFollow : Bool
  create : Bool
  createParents : Bool

/-- The part of `path_translate_at` for an absolute path that none of its special
cases takes: /proc, FUSE, USB, /dev/shm and descriptor links. -/
def pathTranslateAt (s : Sysroot) (path : Text) (f : PathTr) : Sysroot × Except Errno Text :=
  let guest := if pathHasFoldable path then pathFoldComponents path else path
  let noFollow := f.noFollow && !pathHasTrailingSlash guest
  let r :=
    if f.create then procResolveSysrootCreatePath s guest f.createParents
    else if noFollow then (s, procResolveSysrootNofollowPath s guest)
    else (s, procResolveSysrootPath s guest)
  (r.1, r.2.map fun host =>
    if pathHasTrailingSlash guest && !pathHasTrailingSlash host then host ++ [slash] else host)

/-- The host path that `sys_openat_path` opens for an absolute guest path, and the node
this open reaches or creates. -/
def sysOpenatSysroot (s : Sysroot) (path : Text) (flags : ℕ) : Except Errno (Text × Node) :=
  let create := hasFlag flags linuxOCreat && !hasFlag flags linuxOPath
  if hasFlag flags linuxODirectory && create then .error .EINVAL
  else
    let r := pathTranslateAt s path
      (if create then ⟨false, true, true⟩ else ⟨hasFlag flags linuxONofollow, false, false⟩)
    r.2.bind fun host =>
      (r.1.tree.openat s.links [] host (translateOpenFlags flags)).map fun node => (host, node)

end Elfuse
