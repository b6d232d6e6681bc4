/-
The argument vector of a script (`syscall/exec.c`).

`execve` copies the guest's strings into one buffer, one behind the other, and
keeps the vector as pointers into it. Each `#!` line that is followed puts the
interpreter, its argument and the path of the script in front of the vector. The
new strings go behind the end of the *last* string of the vector, and a buffer
that has to grow is copied only up to there.

* `shebang_argv` — one line is always followed rightly, and two are when
  the guest gave at most one string;
* `shebang_overwrites` — a second line overwrites the script's path.
-/
import Elfuse.Core.Layout
import Mathlib.Algebra.GroupWithZero.Nat
import Mathlib.Data.List.Forall2

namespace Elfuse

open List Option Nat

/-! ### Strings in a buffer -/

/-- A string without its terminator. -/
structure CStr where
  bytes : List ℕ
  noNul : 0 ∉ bytes

def CStr.size (s : CStr) : ℕ := s.bytes.length + 1

def argBytes (strs : List CStr) : ℕ := (strs.map CStr.size).sum

def memcpy (buf : List ℕ) (off : ℕ) (bs : List ℕ) : List ℕ :=
  buf.take off ++ bs ++ buf.drop (off + bs.length)

/-- The string at `off`; reading stops at the end of the buffer at the latest. -/
def strAt (buf : List ℕ) (off : ℕ) : List ℕ := (buf.drop off).takeWhile (· ≠ 0)

/-- What the allocator answers: whether there is memory, and what is in it. -/
structure Heap where
  ok : Bool
  fill : ℕ → ℕ

/-- A new buffer of `n` bytes with the first `keep` of the old one. -/
def growBuf (h : Heap) (buf : List ℕ) (keep n : ℕ) : List ℕ :=
  buf.take keep ++ (List.range (n - keep)).map h.fill

def linuxE2big : ℤ := 7
def linuxEloop : ℤ := 40
def elfuseMaxArgStrings : ℕ := 131072
def elfuseMaxArgBytes : ℕ := 2048 * 1024
def elfShebangMaxDepth : ℕ := 5

/-- What `guest_read_str` finds at a pointer of the guest's array. -/
inductive GuestStr
  | str (s : CStr)
  | tooLong
  | fault

/-- The vector of `exec_ctx_t`, as offsets into its buffer, and the bytes charged so far. -/
structure ExecArgs where
  argv : List ℕ
  buf : List ℕ
  running : ℕ

def ExecArgs.strings (c : ExecArgs) : List (List ℕ) := c.argv.map (strAt c.buf)

/-- The buffer, grown if `n` bytes do not fit at `off`. A `realloc` keeps the whole of it. -/
def argvRoom (realloc : Bool) (h : Heap) (buf : List ℕ) (off n : ℕ) : List ℕ :=
  if buf.length < off + n then
    growBuf h buf (if realloc then buf.length else off) ((off + n + 4095) / 4096 * 4096)
  else buf

def placeString (realloc : Bool) (h : Heap) (s : CStr) (off : ℕ) (c : ExecArgs) :
    Except ℤ ExecArgs :=
  if elfuseMaxArgBytes < c.running + s.size then .error linuxE2big
  else if c.buf.length < off + s.size ∧ !h.ok then .error linuxEnomem
  else .ok
    { argv := c.argv ++ [off]
      buf := memcpy (argvRoom realloc h c.buf off s.size) off (s.bytes ++ [0])
      running := c.running + s.size }

/-- The loop over the strings in `read_string_array` and in `exec_shebang_rebuild_argv`. -/
def placeStrings (realloc : Bool) (heap : ℕ → Heap) :
    List GuestStr → ℕ → ExecArgs → Except ℤ ExecArgs
  | [], _, c => .ok c
  | .fault :: _, _, _ => .error linuxEfault
  | .tooLong :: _, _, _ => .error linuxE2big
  | .str s :: gs, off, c =>
    match placeString realloc (heap c.argv.length) s off c with
    | .error err => .error err
    | .ok c => placeStrings realloc heap gs (off + s.size) c

/-- Model of `read_string_array`; the array itself may be unreadable. -/
def readStringArray (heap : ℕ → Heap) (first : Heap) (array : Option (List GuestStr))
    (running : ℕ) : Except ℤ ExecArgs :=
  match array with
  | none => .error linuxEfault
  | some gs =>
    if elfuseMaxArgStrings < gs.length then .error linuxE2big
    else if !first.ok then .error linuxEnomem
    else placeStrings true heap gs 0 ⟨[], growBuf first [] 0 4096, running⟩

/-! ### Following `#!` lines -/

/-- The strings that a line puts in front. -/
def shebangPrefix (interp arg path : CStr) : List CStr :=
  if arg.bytes = [] then [interp, path] else [interp, arg, path]

def endAt (buf : List ℕ) (argv : List ℕ) : ℕ :=
  match argv.getLast? with
  | none => 0
  | some off => off + (strAt buf off).length + 1

def execShebangRebuildArgv (heap : ℕ → Heap) (newArgv : Bool) (interp arg path : CStr)
    (c : ExecArgs) : Except ℤ ExecArgs :=
  let pre := shebangPrefix interp arg path
  if elfuseMaxArgStrings < c.argv.length + pre.length - 1 then .error linuxE2big
  else if !newArgv then .error linuxEnomem
  else match placeStrings false heap (pre.map .str) (endAt c.buf c.argv) { c with argv := [] } with
    | .error err => .error err
    | .ok c' => .ok { c' with argv := c'.argv ++ c.argv.tail }

/-- What one round of `exec_follow_shebangs` finds: the `#!` line of the file, if it has one, the
allocator, and whether the interpreter can be opened and executed. -/
structure HopEnv where
  shebang : Except ℤ (Option (CStr × CStr))
  newArgv : Bool
  heap : ℕ → Heap
  opened : Except ℤ Unit

/-- Model of `exec_follow_shebangs`; `none` when the rounds given do not end it. -/
def execFollowShebangs : List HopEnv → ℕ → CStr → ExecArgs → Option (Except ℤ ExecArgs)
  | [], _, _, _ => none
  | e :: es, depth, path, c =>
    match e.shebang with
    | .error err => some (.error err)
    | .ok none => some (.ok c)
    | .ok (some (interp, arg)) =>
      if elfShebangMaxDepth ≤ depth then some (.error linuxEloop)
      else match execShebangRebuildArgv e.heap e.newArgv interp arg path c with
        | .error err => some (.error err)
        | .ok c' => match e.opened with
          | .error err => some (.error err)
          | .ok () => execFollowShebangs es (depth + 1) interp c'

/-- The `#!` lines that are followed. -/
def hopsOf : List HopEnv → List (CStr × CStr)
  | [] => []
  | e :: es => match e.shebang with
    | .ok (some hop) => hop :: hopsOf es
    | _ => []

/-- The vector that should result. -/
def linuxArgv : List (CStr × CStr) → CStr → List CStr → List CStr
  | [], _, argv => argv
  | (interp, arg) :: hops, path, argv =>
    linuxArgv hops interp (shebangPrefix interp arg path ++ argv.tail)

/-- The strings in the guest's array, when all can be read. -/
def guestStrs (gs : List GuestStr) : List CStr :=
  gs.filterMap fun
    | .str s => some s
    | _ => none

/-- An array of strings in guest memory, with the allocator's answers while it is read. -/
structure GuestArray where
  heap : ℕ → Heap
  first : Heap
  array : Option (List GuestStr)

def GuestArray.strs (a : GuestArray) : List CStr := guestStrs (a.array.getD [])

/-- The start of `sys_execve`: both vectors are read, and charged to one account. -/
def execReadArgs (argv : GuestArray) (envp : Option GuestArray) : Except ℤ ExecArgs :=
  match readStringArray argv.heap argv.first argv.array 0 with
  | .error err => .error err
  | .ok c => match envp with
    | none => .ok c
    | some env => match readStringArray env.heap env.first env.array c.running with
      | .error err => .error err
      | .ok e => .ok { c with running := e.running }

/-! ### Reading back -/

variable {buf : List ℕ} {off hi : ℕ} {s arg : CStr} {strs : List CStr} {c c' : ExecArgs}

/-- The string lies at `off`, terminator included. -/
def StoredAt (buf : List ℕ) (off : ℕ) (s : CStr) : Prop :=
  (buf.drop off).take s.size = s.bytes ++ [0]

lemma StoredAt.strAt_eq (h : StoredAt buf off s) : strAt buf off = s.bytes := by
  rw [strAt, ← take_append_drop s.size (buf.drop off), h, append_assoc, takeWhile_append_of_pos]
  · simp
  · intro b hb
    simpa using ne_of_mem_of_not_mem hb s.noNul

lemma StoredAt.of_take (h : StoredAt buf off s) (hle : off + s.size ≤ n)
    (htake : buf'.take n = buf.take n) : StoredAt buf' off s := by
  have hcut : ∀ b : List ℕ,
      (b.drop off).take s.size = ((b.take n).take (off + s.size)).drop off := by
    intro b
    rw [take_take, min_eq_left hle, take_drop]
  rw [StoredAt, hcut, htake, ← hcut]
  exact h

lemma take_memcpy (h : off ≤ buf.length) (bs : List ℕ) :
    (memcpy buf off bs).take off = buf.take off := by
  rw [memcpy, append_assoc, take_append_of_le_length (by simp [h]), take_take, min_self]

lemma storedAt_memcpy (h : off ≤ buf.length) (s : CStr) :
    StoredAt (memcpy buf off (s.bytes ++ [0])) off s := by
  have hlen : (buf.take off).length = off := by simp [h]
  have hsize : s.size = (s.bytes ++ [0]).length := by simp [CStr.size]
  rw [StoredAt, memcpy, append_assoc, drop_append_of_le_length (by omega),
    drop_eq_nil_of_le (by omega), nil_append, hsize, take_left]

lemma length_memcpy (s : CStr) (h : off + s.size ≤ buf.length) :
    (memcpy buf off (s.bytes ++ [0])).length = buf.length := by
  simp only [CStr.size] at h
  simp [memcpy]
  omega

lemma take_growBuf (h : Heap) (hle : off ≤ keep) (hkeep : keep ≤ buf.length) :
    (growBuf h buf keep n).take off = buf.take off := by
  rw [growBuf, take_append_of_le_length (by simp; omega), take_take, min_eq_left hle]

lemma length_growBuf (h : Heap) (hkeep : keep ≤ buf.length) (hn : keep ≤ n) :
    (growBuf h buf keep n).length = n := by
  simp [growBuf]
  omega

/-! ### Placing strings -/

/-- The strings of the vector, none of which ends behind `hi`. -/
def Laid (buf : List ℕ) (hi : ℕ) : List ℕ → List CStr → Prop :=
  List.Forall₂ fun off s => StoredAt buf off s ∧ off + s.size ≤ hi

lemma Laid.of_take (h : Laid buf hi offs strs) (hle : hi ≤ n) (htake : buf'.take n = buf.take n) :
    Laid buf' n offs strs :=
  h.imp fun _ _ hs => ⟨hs.1.of_take (le_trans hs.2 hle) htake, le_trans hs.2 hle⟩

lemma Laid.tail (h : Laid buf hi offs strs) : Laid buf hi offs.tail strs.tail := by
  cases h with
  | nil => exact .nil
  | cons _ hrest => exact hrest

lemma Laid.map_strAt (h : Laid buf hi offs strs) : offs.map (strAt buf) = strs.map CStr.bytes := by
  induction h with
  | nil => rfl
  | cons hs _ ih => rw [map_cons, map_cons, hs.1.strAt_eq, ih]

lemma argvRoom_spec (h : Heap) (hoff : off ≤ buf.length) :
    off + n ≤ (argvRoom realloc h buf off n).length ∧
      (argvRoom realloc h buf off n).take off = buf.take off := by
  unfold argvRoom
  split
  · have hkeep : off ≤ (if realloc = true then buf.length else off) ∧
        (if realloc = true then buf.length else off) ≤ buf.length := by
      split <;> omega
    refine ⟨?_, take_growBuf h hkeep.1 hkeep.2⟩
    rw [length_growBuf h hkeep.2 (by omega)]
    omega
  · exact ⟨by omega, rfl⟩

lemma placeString_ok (hok : placeString realloc h s off c = .ok c') :
    c.running + s.size ≤ elfuseMaxArgBytes ∧
    c' = ⟨c.argv ++ [off], memcpy (argvRoom realloc h c.buf off s.size) off (s.bytes ++ [0]),
      c.running + s.size⟩ := by
  unfold placeString at hok
  split at hok
  · cases hok
  rename_i hle
  split at hok
  · cases hok
  · cases hok
    exact ⟨not_lt.mp hle, rfl⟩

lemma argBytes_cons (s : CStr) (strs : List CStr) :
    argBytes (s :: strs) = s.size + argBytes strs := by
  simp [argBytes]

@[simp] lemma guestStrs_str (strs : List CStr) : guestStrs (strs.map .str) = strs := by
  simp [guestStrs, filterMap_map]

lemma argBytes_append (strs strs' : List CStr) :
    argBytes (strs ++ strs') = argBytes strs + argBytes strs' := by
  simp [argBytes]

lemma placeStrings_running (hle : c.running ≤ elfuseMaxArgBytes)
    (hok : placeStrings realloc heap gs off c = .ok c') :
    c'.running = c.running + argBytes (guestStrs gs) ∧ c'.running ≤ elfuseMaxArgBytes := by
  induction gs generalizing off c with
  | nil =>
    cases hok
    exact ⟨rfl, hle⟩
  | cons g gs ih =>
    cases g with
    | fault => cases hok
    | tooLong => cases hok
    | str s =>
      rw [placeStrings] at hok
      split at hok
      · cases hok
      rename_i c1 hone
      obtain ⟨hle1, rfl⟩ := placeString_ok hone
      obtain ⟨hrun, hle'⟩ := ih hle1 hok
      refine ⟨?_, hle'⟩
      have hstrs : guestStrs (.str s :: gs) = s :: guestStrs gs := rfl
      rw [hrun, hstrs, argBytes_cons, ← Nat.add_assoc]

/-- The loop places the strings one behind the other, and keeps what is before them. -/
lemma placeStrings_spec (hoff : off ≤ c.buf.length)
    (hok : placeStrings realloc heap gs off c = .ok c') : ∃ offs, c'.argv = c.argv ++ offs ∧
      Laid c'.buf (off + argBytes (guestStrs gs)) offs (guestStrs gs) ∧
      c'.buf.take off = c.buf.take off ∧ off + argBytes (guestStrs gs) ≤ c'.buf.length ∧
      (offs = [] ∨ endAt c'.buf offs = off + argBytes (guestStrs gs)) := by
  induction gs generalizing off c with
  | nil =>
    cases hok
    exact ⟨[], by simp, .nil, rfl, hoff, .inl rfl⟩
  | cons g gs ih =>
    cases g with
    | fault => cases hok
    | tooLong => cases hok
    | str s =>
      rw [placeStrings] at hok
      split at hok
      · cases hok
      rename_i c1 hone
      obtain ⟨-, rfl⟩ := placeString_ok hone
      have hspec : off + s.size ≤ (argvRoom realloc (heap c.argv.length) c.buf off s.size).length ∧
          _ :=
        argvRoom_spec (heap c.argv.length) hoff
      obtain ⟨hroom, hkeep⟩ := hspec
      generalize argvRoom realloc (heap c.argv.length) c.buf off s.size = b at hroom hkeep hok
      have hlen : off + s.size ≤ (memcpy b off (s.bytes ++ [0])).length := by
        rw [length_memcpy s hroom]
        exact hroom
      obtain ⟨offs, hargv, hlaid, htake, hlen', hlast⟩ := ih hlen hok
      have hb : off ≤ b.length := by omega
      have hstrs : guestStrs (.str s :: gs) = s :: guestStrs gs := rfl
      rw [hstrs, argBytes_cons, ← Nat.add_assoc]
      have hstored := (storedAt_memcpy hb s).of_take le_rfl htake
      refine ⟨off :: offs, ?_, .cons ⟨hstored, Nat.le_add_right _ _⟩ hlaid, ?_, hlen', .inr ?_⟩
      · simp [hargv]
      · have hcut : ∀ b : List ℕ, b.take off = (b.take (off + s.size)).take off := by
          intro b
          rw [take_take, min_eq_left (Nat.le_add_right _ _)]
        rw [hcut, htake, ← hcut, take_memcpy hb, hkeep]
      cases offs with
      | nil =>
        have hnil : guestStrs gs = [] := length_eq_zero_iff.mp hlaid.length_eq.symm
        simp [endAt, hstored.strAt_eq, hnil, argBytes, CStr.size, Nat.add_assoc]
      | cons o os => simpa [endAt] using hlast

/-! ### One line -/

/-- The vector is laid out, and its last string is the last in the buffer. -/
structure Ready (c : ExecArgs) (strs : List CStr) (hi : ℕ) : Prop where
  laid : Laid c.buf hi c.argv strs
  fits : hi ≤ c.buf.length
  last : endAt c.buf c.argv = hi

lemma rebuild_ok (hok : execShebangRebuildArgv heap newArgv interp arg path c = .ok c') :
    ∃ c1, placeStrings false heap ((shebangPrefix interp arg path).map .str) (endAt c.buf c.argv)
        { c with argv := [] } = .ok c1 ∧ c' = { c1 with argv := c1.argv ++ c.argv.tail } := by
  unfold execShebangRebuildArgv at hok
  dsimp only at hok
  split at hok
  · cases hok
  split at hok
  · cases hok
  split at hok
  · cases hok
  rename_i c1 hplace
  cases hok
  exact ⟨c1, hplace, rfl⟩

/-- A `#!` line, when the last string of the vector is the last in the buffer. -/
lemma rebuild_spec (h : Ready c strs hi)
    (hok : execShebangRebuildArgv heap newArgv interp arg path c = .ok c') :
    Laid c'.buf (hi + argBytes (shebangPrefix interp arg path)) c'.argv
      (shebangPrefix interp arg path ++ strs.tail) ∧
    (strs.tail = [] → Ready c' (shebangPrefix interp arg path ++ strs.tail)
      (hi + argBytes (shebangPrefix interp arg path))) := by
  obtain ⟨c1, hplace, rfl⟩ := rebuild_ok hok
  have hne : shebangPrefix interp arg path ≠ [] := by
    unfold shebangPrefix
    split <;> simp
  generalize shebangPrefix interp arg path = pre at hplace hne ⊢
  rw [h.last] at hplace
  obtain ⟨offs, hargv, hlaid, htake, hlen, hlast⟩ :=
    placeStrings_spec (c := { c with argv := [] }) h.fits hplace
  rw [guestStrs_str] at hlaid hlen hlast
  have htail : Laid c1.buf hi c.argv.tail strs.tail := h.laid.tail.of_take le_rfl htake
  have hboth : Laid c1.buf (hi + argBytes pre) (c1.argv ++ c.argv.tail) (pre ++ strs.tail) := by
    refine rel_append ?_ ?_
    · rw [hargv]
      exact hlaid
    · exact htail.imp fun _ _ hs => ⟨hs.1, le_trans hs.2 (le_add_right _ _)⟩
  refine ⟨hboth, fun hnil => ⟨hboth, hlen, ?_⟩⟩
  have hnone : c.argv.tail = [] := by
    rw [hnil] at htail
    exact length_eq_zero_iff.mp htail.length_eq
  rw [hnone, append_nil, hargv]
  refine hlast.resolve_left fun hempty => hne ?_
  rw [hempty] at hlaid
  exact length_eq_zero_iff.mp hlaid.length_eq.symm

/-! ### Whole chains -/

lemma rebuild_running (hle : c.running ≤ elfuseMaxArgBytes)
    (hok : execShebangRebuildArgv heap newArgv interp arg path c = .ok c') :
    c'.running = c.running + argBytes (shebangPrefix interp arg path) ∧
      c'.running ≤ elfuseMaxArgBytes := by
  obtain ⟨c1, hplace, rfl⟩ := rebuild_ok hok
  have hrun := placeStrings_running (c := { c with argv := [] }) hle hplace
  rwa [guestStrs_str] at hrun

variable {es : List HopEnv} {e : HopEnv} {k : ℕ} {path : CStr}

/-- A round of a chain that succeeds: it is the last one, or it follows a line. -/
lemma follow_cases {fs} (hok : execFollowShebangs fs depth path c = some (.ok c')) :
    hopsOf fs = [] ∧ c' = c ∨
    ∃ e es interp arg c1, fs = e :: es ∧ hopsOf fs = (interp, arg) :: hopsOf es ∧
      execShebangRebuildArgv e.heap e.newArgv interp arg path c = .ok c1 ∧
      execFollowShebangs es (depth + 1) interp c1 = some (.ok c') := by
  cases fs with
  | nil => cases hok
  | cons e es
  rw [execFollowShebangs] at hok
  rw [hopsOf]
  split at hok
  · cases hok
  · rename_i hnone
    cases hok
    rw [hnone]
    exact .inl ⟨rfl, rfl⟩
  rename_i interp arg hline
  rw [hline]
  split at hok
  · cases hok
  split at hok
  · cases hok
  rename_i c1 hre
  split at hok
  · cases hok
  · exact .inr ⟨e, es, interp, arg, c1, rfl, rfl, hre, hok⟩

lemma follow_running (hle : c.running ≤ elfuseMaxArgBytes)
    (hok : execFollowShebangs es depth path c = some (.ok c')) :
      c'.running ≤ elfuseMaxArgBytes := by
  induction es generalizing depth path c with
  | nil => cases hok
  | cons e es ih =>
    obtain ⟨-, rfl⟩ | ⟨_, _, interp, arg, c1, ⟨⟩, -, hre, hrest⟩ := follow_cases hok
    · exact hle
    · exact ih (rebuild_running hle hre).2 hrest

/-- The vector is the one given, and it and `k` more bytes have been charged for. -/
structure Answers (c : ExecArgs) (strs : List CStr) (k : ℕ) : Prop where
  strings : c.strings = strs.map CStr.bytes
  charged : argBytes strs + k ≤ c.running

lemma Answers.rebuild (hready : Ready c strs hi) (h : Answers c strs k)
    (hle : c.running ≤ elfuseMaxArgBytes)
    (hok : execShebangRebuildArgv heap newArgv interp arg path c = .ok c') :
    Answers c' (shebangPrefix interp arg path ++ strs.tail) k := by
  refine ⟨(rebuild_spec hready hok).1.map_strAt, ?_⟩
  have hcharged := h.charged
  have htail : argBytes strs.tail ≤ argBytes strs := by
    cases strs with
    | nil => exact le_rfl
    | cons s strs => simp [argBytes_cons]
  rw [(rebuild_running hle hok).1, argBytes_append]
  omega

lemma follow_none (hhops : hopsOf es = [])
    (hok : execFollowShebangs es depth path c = some (.ok c')) : c' = c := by
  obtain ⟨-, rfl⟩ | ⟨_, _, _, _, _, -, hcons, -⟩ := follow_cases hok
  · rfl
  · simp [hhops] at hcons

lemma Answers.follow_one (hready : Ready c strs hi) (h : Answers c strs k)
    (hle : c.running ≤ elfuseMaxArgBytes) (hhops : (hopsOf es).length ≤ 1)
    (hok : execFollowShebangs es depth path c = some (.ok c')) :
    Answers c' (linuxArgv (hopsOf es) path strs) k := by
  obtain ⟨hnil, rfl⟩ | ⟨e, es, interp, arg, c1, -, hcons, hre, hrest⟩ := follow_cases hok
  · rw [hnil]
    exact h
  rw [hcons] at hhops ⊢
  have hnil : hopsOf es = [] := by simpa using hhops
  rw [hnil, follow_none hnil hrest]
  exact h.rebuild hready hle hre

lemma Answers.follow_two (hready : Ready c strs hi) (h : Answers c strs k)
    (hle : c.running ≤ elfuseMaxArgBytes) (htail : strs.tail = []) (hhops : (hopsOf es).length ≤ 2)
    (hok : execFollowShebangs es depth path c = some (.ok c')) :
    Answers c' (linuxArgv (hopsOf es) path strs) k := by
  obtain ⟨hnil, rfl⟩ | ⟨e, es, interp, arg, c1, -, hcons, hre, hrest⟩ := follow_cases hok
  · rw [hnil]
    exact h
  rw [hcons] at hhops ⊢
  exact (h.rebuild hready hle hre).follow_one ((rebuild_spec hready hre).2 htail)
    (rebuild_running hle hre).2 (le_of_succ_le_succ hhops) hrest

/-! ### From the guest's arrays -/

lemma readStringArray_spec {a : GuestArray} (hle : n ≤ elfuseMaxArgBytes)
    (hok : readStringArray a.heap a.first a.array n = .ok c) :
    Ready c a.strs (argBytes a.strs) ∧ c.running = n + argBytes a.strs ∧
      c.running ≤ elfuseMaxArgBytes := by
  unfold readStringArray at hok
  rw [GuestArray.strs]
  split at hok
  · cases hok
  rename_i gs harray
  rw [harray, getD_some]
  split at hok
  · cases hok
  split at hok
  · cases hok
  obtain ⟨offs, hargv, hlaid, -, hlen, hlast⟩ := placeStrings_spec (Nat.zero_le _) hok
  rw [Nat.zero_add] at hlaid hlen hlast
  refine ⟨⟨hargv ▸ hlaid, hlen, ?_⟩, placeStrings_running hle hok⟩
  rw [hargv]
  obtain rfl | hlast := hlast
  · have hnil : guestStrs gs = [] := length_eq_zero_iff.mp hlaid.length_eq.symm
    rw [hnil]
    rfl
  · exact hlast

/-- Every `execve` whose chain of `#!` lines succeeds: the limit holds; and when at most one
line was followed, or at most two from a vector of at most one string, the vector is what it
should be. -/
theorem shebang_argv {argv : GuestArray} {envp : Option GuestArray}
    (hread : execReadArgs argv envp = .ok c)
    (hok : execFollowShebangs es 0 path c = some (.ok c')) :
    c'.running ≤ elfuseMaxArgBytes ∧
    ((hopsOf es).length ≤ 1 ∨ argv.strs.length ≤ 1 ∧ (hopsOf es).length ≤ 2 →
      Answers c' (linuxArgv (hopsOf es) path argv.strs)
        (argBytes ((envp.map GuestArray.strs).getD []))) := by
  have hstart : Ready c argv.strs (argBytes argv.strs) ∧ c.running ≤ elfuseMaxArgBytes ∧
      Answers c argv.strs (argBytes ((envp.map GuestArray.strs).getD [])) := by
    unfold execReadArgs at hread
    split at hread
    · cases hread
    rename_i c₀ hargv
    obtain ⟨hready, hrun, hle⟩ := readStringArray_spec (zero_le _) hargv
    have hstrings := hready.laid.map_strAt
    split at hread
    · cases hread
      exact ⟨hready, hle, hstrings, by simp [hrun, argBytes]⟩
    rename_i env
    split at hread
    · cases hread
    rename_i e henv
    cases hread
    obtain ⟨-, hrun', hle'⟩ := readStringArray_spec (a := env) hle henv
    refine ⟨⟨hready.laid, hready.fits, hready.last⟩, hle', hstrings, ?_⟩
    simp only [map_some, getD_some, hrun', hrun]
    omega
  obtain ⟨hready, hle, hans⟩ := hstart
  refine ⟨follow_running hle hok, ?_⟩
  rintro (hone | ⟨hshort, htwo⟩)
  · exact hans.follow_one hready hle hone hok
  have htail : argv.strs.tail = [] := by
    refine length_eq_zero_iff.mp ?_
    simp
    omega
  exact hans.follow_two hready hle htail htwo hok

def sampleHeap : Heap := ⟨true, fun _ => 0⟩

def sampleScript : CStr := ⟨[115], by decide⟩

def sampleInterp (b : ℕ) (h : b ≠ 0) : CStr := ⟨[47, b], by simpa using h.symm⟩

/-- The vector of the script, with an argument `x` or without. -/
def sampleArgs (arg : Bool) : GuestArray :=
  ⟨fun _ => sampleHeap, sampleHeap,
    some (.str sampleScript :: if arg then [.str ⟨[120], by decide⟩] else [])⟩

/-- `s` begins with `#!/a`, which begins with `#!/b`. -/
def sampleChain : List HopEnv :=
  [some (sampleInterp 97 (by decide), ⟨[], by decide⟩),
    some (sampleInterp 98 (by decide), ⟨[], by decide⟩), none].map
      fun line => ⟨.ok line, true, fun _ => sampleHeap, .ok ()⟩

def sampleRun (arg : Bool) : Option ExecArgs :=
  (execReadArgs (sampleArgs arg) none).toOption.bind fun c =>
    (execFollowShebangs sampleChain 0 sampleScript c).bind Except.toOption

theorem shebang_argv_alone :
    ∃ c, sampleRun false = some c ∧ c.strings = [[47, 98], [47, 97], [115]] := by
  have hsome : (sampleRun false).isSome = true := by decide +kernel
  obtain ⟨c, hc⟩ := isSome_iff_exists.mp hsome
  obtain ⟨c₀, hread, hrun⟩ := bind_eq_some_iff.mp hc
  obtain ⟨res, hfollow, hres⟩ := bind_eq_some_iff.mp hrun
  cases res with
  | error _ => cases hres
  | ok c' =>
    cases hres
    cases hr : execReadArgs (sampleArgs false) none with
    | error _ =>
      rw [hr] at hread
      cases hread
    | ok c₁ =>
      rw [hr] at hread
      cases hread
      exact ⟨c, hc, ((shebang_argv hr hfollow).2 (.inr ⟨by decide, by decide⟩)).strings⟩

/-- With an argument, the second line overwrites the path of the script. -/
theorem shebang_overwrites :
    (sampleRun true).map ExecArgs.strings = some [[47, 98], [47, 97], [47, 97], [120]] ∧
    (linuxArgv (hopsOf sampleChain) sampleScript (sampleArgs true).strs).map CStr.bytes =
      [[47, 98], [47, 97], [115], [120]] := by
  decide +kernel

end Elfuse
