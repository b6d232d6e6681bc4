/-
The life of a host descriptor.

A host descriptor that the guest has open belongs to its slot; once a slot has
been borrowed it belongs to a counted lifetime, and that of a directory belongs
to a counted stream which the aliases of the directory share. A slot is taken
out of the table under `fd_lock`, and what it had is released after, outside
the lock, when the slot may already hold something else. Here any number of
threads take these steps in any order; a thread that holds several references
at a time counts as several.

* `LifeSystem.next` — the critical sections and the releases between them;
* `hostFd_kept` — slots and borrowers find their descriptors open, a descriptor
  is closed when nobody refers to it any more, and none is lost, in every run in
  which no `fd_retire_published` meets a directory;
* `retire_closes_alias` — there it closes a descriptor that an alias has open.
-/
import Elfuse.Lib.Counted
import Elfuse.Syscall.FdTable

namespace Elfuse

open Function Runs Counted List Option Nat

/-! ### Slots, lifetimes, streams -/

/-- The fields of a slot that say who owns its descriptor. -/
structure LifeEntry where
  type : FdType
  hostFd : ℤ
  lifetime : Option ℕ
  dir : Option ℕ
  deriving DecidableEq, Repr

/-- Model of `fd_lifetime_t`. -/
structure Lifetime where
  refs : ℕ
  hostFd : ℤ
  type : FdType
  dir : Option ℕ
  deriving DecidableEq, Repr

/-- The fields of `dir_stream_t` that matter to its descriptor. -/
structure DirStream where
  refcount : ℕ
  hostFd : ℤ
  deriving DecidableEq, Repr

inductive LifeTask
  /-- The second pass of `fd_host_ref_acquire`, with a lifetime to spare. -/
  | again (fd : ℕ)
  /-- `fd_lifetime_release`; until it runs the thread has the reference, and uses the descriptor. -/
  | release (lifetime : ℕ) (hostFd : ℤ)
  | close (hostFd : ℤ)
  /-- `dir_stream_release` of a stream on this descriptor. -/
  | dirRelease (dir : ℕ) (hostFd : ℤ)
  /-- `closedir` and `free`, after the last reference to a stream. -/
  | closedir (dir : ℕ) (hostFd : ℤ)
  /-- `free`, after the last reference to a lifetime that had this descriptor. -/
  | free (lifetime : ℕ) (hostFd : ℤ)
  | install (hostFd : ℤ)
  | publish (dir : ℕ) (hostFd : ℤ)
  /-- `fd_retire_published` of a slot the thread has published, if it gets to that. -/
  | retire (fd : ℕ) (hostFd : ℤ)
  deriving DecidableEq, Repr

structure LifeSystem where
  slot : ℕ → Option LifeEntry
  life : ℕ → Option Lifetime
  stream : ℕ → Option DirStream
  /-- The host's descriptors beyond the standard ones. -/
  opened : ℤ → Bool
  todo : ℕ → List LifeTask

inductive LifeAct
  /-- `fd_host_ref_acquire`, its first pass. -/
  | acquire (fd : ℕ)
  /-- Its second pass, or `fd_lifetime_pin_locked`; a new lifetime is placed at `spare`. -/
  | pin (fd spare : ℕ)
  | openHost (hostFd : ℤ)
  /-- `fd_alloc` of a type that has no host descriptor. -/
  | allocBare (fd : ℕ) (type : FdType)
  /-- `fd_alloc` or `fd_alloc_at` of the descriptor in hand. -/
  | alloc (fd : ℕ) (type : FdType)
  /-- `dir_stream_open` of the descriptor in hand, and `fd_alloc_dir` or `fd_alloc_dir_at`. -/
  | allocDir (fd dir : ℕ)
  | fail
  /-- `fd_snapshot_and_close`. -/
  | close (fd : ℕ)
  /-- `fd_snapshot_and_dup_or_share_dir` of a directory. -/
  | share (fd : ℕ)
  /-- `dir_stream_acquire`. -/
  | walk (fd : ℕ)
  /-- `fd_alloc_alias_dir` of the stream in hand. -/
  | allocAlias (fd : ℕ)
  /-- Do the first thing that is left to do. -/
  | run
  /-- The slot that was published stays. -/
  | keep
  deriving DecidableEq, Repr

/-! ### Steps -/

def fdCleanupEntry (e : LifeEntry) : List LifeTask :=
  (match e.lifetime with
    | some l => [.release l e.hostFd]
    | none => if e.dir = none ∧ e.type ≠ .stdio then [.close e.hostFd] else []) ++
  match e.dir with
  | some d => [.dirRelease d e.hostFd]
  | none => []

/-- The destructor in `fd_lifetime_release`. -/
def fdLifetimeDestroy (l : ℕ) (x : Lifetime) : List LifeTask :=
  (match x.dir with
    | some d => [.dirRelease d x.hostFd]
    | none => if x.type ≠ .stdio then [.close x.hostFd] else []) ++ [.free l x.hostFd]

def LifeSystem.replaced (s : LifeSystem) (fd : ℕ) : List LifeTask :=
  match s.slot fd with
  | some e => fdCleanupEntry e
  | none => []

namespace LifeSystem

def goto (s : LifeSystem) (t : ℕ) (todo : List LifeTask) : LifeSystem :=
  { s with todo := update s.todo t todo }

def setSlot (s : LifeSystem) (fd : ℕ) (e : Option LifeEntry) : LifeSystem :=
  { s with slot := update s.slot fd e }

def setLife (s : LifeSystem) (l : ℕ) (x : Option Lifetime) : LifeSystem :=
  { s with life := update s.life l x }

def setStream (s : LifeSystem) (d : ℕ) (x : Option DirStream) : LifeSystem :=
  { s with stream := update s.stream d x }

/-- `close(2)` and `closedir`; a negative number is refused. -/
def closeHost (s : LifeSystem) (h : ℤ) : LifeSystem :=
  if 0 ≤ h then { s with opened := update s.opened h false } else s

/-- Model of `dir_stream_ref_locked`. -/
def dirRef (s : LifeSystem) (d : ℕ) : Option LifeSystem :=
  (s.stream d).map fun x => s.setStream d (some { x with refcount := x.refcount + 1 })

def birth (s : LifeSystem) (fd spare : ℕ) (e : LifeEntry) : Option LifeSystem :=
  if s.life spare = none then
    let s' := (s.setLife spare (some ⟨1, e.hostFd, e.type, e.dir⟩)).setSlot fd
      (some { e with lifetime := some spare })
    match e.dir with
    | some d => s'.dirRef d
    | none => some s'
  else none

/-- Model of the share of an existing lifetime in `fd_lifetime_pin_spare`. -/
def lifeRef (s : LifeSystem) (l : ℕ) : Option LifeSystem :=
  (s.life l).map fun x => s.setLife l (some { x with refs := x.refs + 1 })

/-- Model of `fd_lifetime_pin_spare` and of the pass of `fd_host_ref_acquire` that commits. -/
def pinSpare (s : LifeSystem) (t fd spare : ℕ) : Option LifeSystem :=
  match s.slot fd with
  | none => some (s.goto t [])
  | some e =>
    if e.hostFd < 0 then some (s.goto t [])
    else match e.lifetime with
      | some l => (s.lifeRef l).map fun s' => s'.goto t [.release l e.hostFd]
      | none =>
        ((s.birth fd spare e).bind fun s' => s'.lifeRef spare).map fun s' =>
          s'.goto t [.release spare e.hostFd]

/-- Model of `fd_retire_published`. -/
def retirePublished (s : LifeSystem) (t fd : ℕ) (h : ℤ) (rest : List LifeTask) : LifeSystem :=
  match s.slot fd with
  | none => s.goto t rest
  | some e =>
    if e.hostFd = h then
      let s' := s.setSlot fd none
      match e.lifetime with
      | some l => s'.goto t (.release l h :: rest)
      | none => if 0 ≤ h then s'.goto t (.close h :: rest) else s'.goto t rest
    else s.goto t rest

/-- The first thing that is left to do. -/
def run (s : LifeSystem) (t : ℕ) : Option LifeSystem :=
  match s.todo t with
  | .release l _ :: rest =>
    match s.life l with
    | some x =>
      if x.refs = 1 then
        some ((s.setLife l (some { x with refs := 0 })).goto t (fdLifetimeDestroy l x ++ rest))
      else some ((s.setLife l (some { x with refs := x.refs - 1 })).goto t rest)
    | none => none
  | .close h :: rest => some ((s.closeHost h).goto t rest)
  | .dirRelease d _ :: rest =>
    match s.stream d with
    | some x =>
      if x.refcount = 1 then
        some ((s.setStream d (some { x with refcount := 0 })).goto t (.closedir d x.hostFd :: rest))
      else some ((s.setStream d (some { x with refcount := x.refcount - 1 })).goto t rest)
    | none => none
  | .closedir d h :: rest => some (((s.closeHost h).setStream d none).goto t rest)
  | .free l _ :: rest => some ((s.setLife l none).goto t rest)
  | .retire fd h :: rest => some (s.retirePublished t fd h rest)
  | _ => none

def next (s : LifeSystem) (l : ℕ × LifeAct) : Option LifeSystem :=
  let t := l.1
  match s.todo t, l.2 with
  | [], .acquire fd =>
    match s.slot fd with
    | none => some s
    | some e =>
      if e.hostFd < 0 then some s
      else match e.lifetime with
        | some _ => s.pinSpare t fd 0
        | none => some (s.goto t [.again fd])
  | [.again fd'], .pin fd spare => if fd' = fd then s.pinSpare t fd spare else none
  | [], .pin fd spare => s.pinSpare t fd spare
  | [], .openHost h =>
    if 3 ≤ h ∧ s.opened h = false then
      some ({ s with opened := update s.opened h true }.goto t [.install h])
    else none
  | [], .allocBare fd type =>
    if s.slot fd = none ∧ type ≠ .closed ∧ type ≠ .stdio ∧ type ≠ .dir then
      some ((s.setSlot fd (some ⟨type, -1, none, none⟩)).goto t [.retire fd (-1)])
    else none
  | .install h :: rest, .alloc fd type =>
    if type ≠ .closed ∧ type ≠ .stdio ∧ type ≠ .dir then
      some ((s.setSlot fd (some ⟨type, h, none, none⟩)).goto t
        (s.replaced fd ++ .retire fd h :: rest))
    else none
  | .install h :: rest, .allocDir fd d =>
    if s.stream d = none then
      some (((s.setStream d (some ⟨1, h⟩)).setSlot fd (some ⟨.dir, h, none, some d⟩)).goto t
        (s.replaced fd ++ rest))
    else none
  | .install h :: rest, .fail => some (s.goto t (.close h :: rest))
  | [], .close fd => some ((s.setSlot fd none).goto t (s.replaced fd))
  | [], .share fd =>
    match s.slot fd with
    | some e =>
      match e.dir with
      | some d => (s.dirRef d).map fun s' => s'.goto t [.publish d e.hostFd]
      | none => none
    | none => none
  | [], .walk fd =>
    match s.slot fd with
    | some e =>
      match e.dir with
      | some d => (s.dirRef d).map fun s' => s'.goto t [.dirRelease d e.hostFd]
      | none => none
    | none => none
  | .publish d h :: rest, .allocAlias fd =>
    some ((s.setSlot fd (some ⟨.dir, h, none, some d⟩)).goto t (s.replaced fd ++ rest))
  | .publish d h :: rest, .fail => some (s.goto t (.dirRelease d h :: rest))
  | .retire _ _ :: rest, .keep => some (s.goto t rest)
  | _ :: _, .run => s.run t
  | _, _ => none

def init : LifeSystem :=
  { slot := fun fd => if fd < 3 then some ⟨.stdio, fd, none, none⟩ else none
    life := fun _ => none
    stream := fun _ => none
    opened := fun _ => false
    todo := fun _ => [] }

end LifeSystem

/-! ### Who has what -/

/-- The counted objects, by where they are and the descriptor they are for. -/
inductive LifeKey
  | life (l : ℕ) (h : ℤ)
  | stream (d : ℕ) (h : ℤ)
  deriving DecidableEq

inductive LifeParty
  | slot (fd : ℕ)
  | thread (t : ℕ)
  deriving DecidableEq

abbrev LifeAsset := Asset ℤ LifeKey

def LifeEntry.assets (e : LifeEntry) : List LifeAsset :=
  (match e.lifetime with
    | some l => [.ref (.life l e.hostFd)]
    | none => if e.dir = none ∧ e.type ≠ .stdio ∧ 0 ≤ e.hostFd then [.res e.hostFd] else []) ++
  match e.dir with
  | some d => [.ref (.stream d e.hostFd)]
  | none => []

def Lifetime.keeps (x : Lifetime) : List LifeAsset :=
  match x.dir with
  | some d => [.ref (.stream d x.hostFd)]
  | none => if x.type ≠ .stdio then [.res x.hostFd] else []

/-- What a thread has that is going to do this. -/
def LifeTask.assets : LifeTask → List LifeAsset
  | .again _ => []
  | .release l h => [.ref (.life l h)]
  | .close h => if 0 ≤ h then [.res h] else []
  | .dirRelease d h => [.ref (.stream d h)]
  | .closedir d h => [.res h, .mem (.stream d h)]
  | .free l h => [.mem (.life l h)]
  | .install h => [.res h]
  | .publish d h => [.ref (.stream d h)]
  | .retire _ _ => []

def Lifetime.obj (h : ℤ) (x : Lifetime) : Option (Obj ℤ LifeKey) :=
  if x.hostFd = h then some ⟨x.refs, x.keeps⟩ else none

def DirStream.obj (h : ℤ) (x : DirStream) : Option (Obj ℤ LifeKey) :=
  if x.hostFd = h then some ⟨x.refcount, [.res x.hostFd]⟩ else none

def LifeSystem.view (s : LifeSystem) : Counted.State ℤ LifeKey LifeParty where
  present := s.opened
  obj
    | .life l h => (s.life l).bind (Lifetime.obj h)
    | .stream d h => (s.stream d).bind (DirStream.obj h)
  party
    | .slot fd => (s.slot fd).elim [] LifeEntry.assets
    | .thread t => (s.todo t).flatMap LifeTask.assets

/-- A slot of a standard descriptor has one of the three; any other slot has none or a later one,
and a directory has a stream. -/
structure LifeEntry.Shape (e : LifeEntry) : Prop where
  stdio : e.type = .stdio → 0 ≤ e.hostFd ∧ e.hostFd < 3 ∧ e.dir = none
  other : e.type ≠ .stdio → e.hostFd = -1 ∨ 3 ≤ e.hostFd
  pinned : e.lifetime ≠ none → 0 ≤ e.hostFd

structure Lifetime.Shape (x : Lifetime) : Prop where
  host : 0 ≤ x.hostFd
  stdio : x.type = .stdio → x.hostFd < 3

/-- The descriptors that a thread deals with are not the standard ones. -/
def LifeTask.Shape : LifeTask → Prop
  | .install h => 3 ≤ h
  | .publish _ h => 3 ≤ h
  | .retire _ h => h = -1 ∨ 3 ≤ h
  | .closedir _ h => 0 ≤ h
  | _ => True

structure LifeSystem.Shape (s : LifeSystem) : Prop where
  slots : ∀ fd e, s.slot fd = some e → e.Shape
  lives : ∀ l x, s.life l = some x → x.Shape
  streams : ∀ d x, s.stream d = some x → 3 ≤ x.hostFd
  tasks : ∀ t, ∀ k ∈ s.todo t, k.Shape

structure LifeInv (s : LifeSystem) : Prop where
  books : Balanced s.view
  shape : s.Shape

lemma LifeInv.init : LifeInv LifeSystem.init := by
  refine ⟨?_, ?_, nofun, nofun, nofun⟩
  · intro a
    refine ⟨∅, ?_, ?_⟩
    · rintro ((⟨l, h⟩ | ⟨d, h⟩) | (fd | t)) ha
      · cases ha
      · cases ha
      · simp only [State.has, LifeSystem.view, LifeSystem.init] at ha
        grind [LifeEntry.assets]
      · cases ha
    rcases a with h | ⟨l, h⟩ | ⟨l, h⟩
    · rfl
    · rfl
    · rfl
    · rfl
    · rfl
  · intro fd e he
    obtain ⟨hfd, ⟨⟩⟩ := guarded he
    refine ⟨fun _ => ⟨Int.natCast_nonneg fd, ?_, rfl⟩, fun h => absurd rfl h,
      fun h => absurd rfl h⟩
    show (fd : ℤ) < 3
    omega

/-! ### Assets of what is handed on -/

lemma LifeEntry.cleanup_assets (e : LifeEntry) :
    (fdCleanupEntry e).flatMap LifeTask.assets = e.assets := by
  unfold fdCleanupEntry LifeEntry.assets
  cases e.lifetime with
  | some l =>
    cases e.dir with
    | some d => rfl
    | none => rfl
  | none =>
    cases e.dir with
    | some d => rfl
    | none =>
      by_cases ht : e.type = .stdio
      · simp [ht]
      · simp only [ht, ne_eq, not_false_eq_true, and_self, true_and, if_true]
        rfl

lemma replaced_assets (s : LifeSystem) (fd : ℕ) :
    (s.replaced fd).flatMap LifeTask.assets = s.view.party (.slot fd) := by
  show _ = (s.slot fd).elim [] LifeEntry.assets
  unfold LifeSystem.replaced
  cases s.slot fd with
  | none => rfl
  | some e => exact e.cleanup_assets

variable {x : Lifetime}

lemma Lifetime.Shape.destroy_assets (h : x.Shape) (l : ℕ) :
    (fdLifetimeDestroy l x).flatMap LifeTask.assets = x.keeps ++ [.mem (.life l x.hostFd)] := by
  unfold fdLifetimeDestroy Lifetime.keeps
  cases x.dir with
  | some d => rfl
  | none =>
    by_cases ht : x.type = .stdio
    · simp [ht, LifeTask.assets]
    · simp [ht, LifeTask.assets, h.host]

variable {s : LifeSystem} {t fd l d : ℕ}

/-! ### The books after a change -/

lemma view_setSlot (s : LifeSystem) (fd : ℕ) (e : Option LifeEntry) :
    (s.setSlot fd e).view = s.view.give (.slot fd) (e.elim [] LifeEntry.assets) := by
  refine congrArg (State.mk _ _) (funext fun p => ?_)
  cases p with
  | slot fd' => by_cases h : fd' = fd <;> simp [LifeSystem.setSlot, LifeSystem.view, h]
  | thread u => simp [LifeSystem.setSlot, LifeSystem.view]

lemma view_goto (s : LifeSystem) (t : ℕ) (T : List LifeTask) :
    (s.goto t T).view = s.view.give (.thread t) (T.flatMap LifeTask.assets) := by
  refine congrArg (State.mk _ _) (funext fun p => ?_)
  cases p with
  | slot fd => simp [LifeSystem.goto, LifeSystem.view]
  | thread u => by_cases h : u = t <;> simp [LifeSystem.goto, LifeSystem.view, h]

variable {β : Type} {h : ℤ} {y : Option DirStream}

/-- A table whose entries are looked up by place and descriptor: an entry changes and stays on its
descriptor. -/
lemma keyed_update {γ : Type} (heap : ℕ → Option β) (host : β → ℤ) (mk : β → γ) {y : Option β}
    (hold : ∀ x, heap l = some x → host x = h) (hnew : ∀ x, y = some x → host x = h) (l' : ℕ)
    (h' : ℤ) : (update heap l y l').bind (fun x => if host x = h' then some (mk x) else none) =
      if l' = l ∧ h' = h then y.map mk
      else (heap l').bind fun x => if host x = h' then some (mk x) else none := by
  by_cases hl : l' = l
  · subst hl
    rw [update_self]
    by_cases hh : h' = h
    · subst hh
      rw [if_pos ⟨rfl, rfl⟩]
      cases hy : y with
      | none => rfl
      | some x => exact if_pos (hnew x hy)
    -- neither the old nor the new entry is for this descriptor
    have hnone : ∀ z : Option β, (∀ x, z = some x → host x = h) →
        z.bind (fun x => if host x = h' then some (mk x) else none) = none := by
      intro z hz
      cases hz' : z with
      | none => rfl
      | some x => exact if_neg fun heq => hh (heq.symm.trans (hz x hz'))
    grind
  grind

lemma view_setLife (s : LifeSystem) {y : Option Lifetime}
    (hold : ∀ x, s.life l = some x → x.hostFd = h) (hnew : ∀ x, y = some x → x.hostFd = h) :
    (s.setLife l y).view = s.view.setObj (.life l h) (y.map fun x => ⟨x.refs, x.keeps⟩) := by
  refine congrArg (State.mk _ · _) (funext fun k => ?_)
  cases k with
  | life l' h' =>
    refine (keyed_update s.life Lifetime.hostFd _ hold hnew l' h').trans ?_
    by_cases hk : l' = l ∧ h' = h
    · rw [if_pos hk, hk.1, hk.2, update_self]
    · rw [if_neg hk, update_of_ne fun heq => hk (LifeKey.life.inj heq)]
      rfl
  | stream d h' => simp [LifeSystem.setLife, LifeSystem.view]

lemma view_setStream (s : LifeSystem) (hold : ∀ x, s.stream d = some x → x.hostFd = h)
    (hnew : ∀ x, y = some x → x.hostFd = h) : (s.setStream d y).view =
      s.view.setObj (.stream d h) (y.map fun x => ⟨x.refcount, [.res x.hostFd]⟩) := by
  refine congrArg (State.mk _ · _) (funext fun k => ?_)
  cases k with
  | stream d' h' =>
    refine (keyed_update s.stream DirStream.hostFd _ hold hnew d' h').trans ?_
    by_cases hk : d' = d ∧ h' = h
    · rw [if_pos hk, hk.1, hk.2, update_self]
    · rw [if_neg hk, update_of_ne fun heq => hk (LifeKey.stream.inj heq)]
      rfl
  | life l h' => simp [LifeSystem.setStream, LifeSystem.view]

lemma view_closeHost (hh : 0 ≤ h) : (s.closeHost h).view = s.view.setRes h false := by
  rw [LifeSystem.closeHost, if_pos hh]
  rfl

lemma update_all {f : ℕ → Option β} {P : β → Prop} {y : Option β}
    (h : ∀ i x, f i = some x → P x) (hy : ∀ x, y = some x → P x) :
    ∀ i x, update f l y i = some x → P x := by
  exact (forall_update_iff f fun _ y => ∀ x, y = some x → P x).mpr ⟨hy, fun i _ => h i⟩

lemma LifeSystem.Shape.setSlot (h : s.Shape) {e : Option LifeEntry}
    (he : ∀ e', e = some e' → e'.Shape) : (s.setSlot fd e).Shape :=
  ⟨update_all h.slots he, h.lives, h.streams, h.tasks⟩

lemma LifeSystem.Shape.goto (h : s.Shape) (hT : ∀ k ∈ T, k.Shape) : (s.goto t T).Shape :=
  ⟨h.slots, h.lives, h.streams,
    (forall_update_iff _ fun _ T => ∀ k ∈ T, LifeTask.Shape k).mpr ⟨hT, fun u _ => h.tasks u⟩⟩

lemma LifeSystem.Shape.setLife (h : s.Shape) {y : Option Lifetime}
    (hy : ∀ x, y = some x → x.Shape) : (s.setLife l y).Shape :=
  ⟨h.slots, update_all h.lives hy, h.streams, h.tasks⟩

lemma LifeSystem.Shape.setStream (h : s.Shape) (hy : ∀ x, y = some x → 3 ≤ x.hostFd) :
    (s.setStream d y).Shape :=
  ⟨h.slots, h.lives, update_all h.streams hy, h.tasks⟩

lemma LifeSystem.Shape.closeHost (h : s.Shape) (h' : ℤ) : (s.closeHost h').Shape := by
  unfold LifeSystem.closeHost
  split
  · exact ⟨h.slots, h.lives, h.streams, h.tasks⟩
  · exact h

/-! ### Effects -/

lemma party_thread (s : LifeSystem) (t : ℕ) :
    s.view.party (.thread t) = (s.todo t).flatMap LifeTask.assets := rfl

lemma LifeInv.goto (h : LifeInv s)
    (hperm : (s.view.party (.thread t)).Perm (T.flatMap LifeTask.assets))
    (hT : ∀ k ∈ T, k.Shape) : LifeInv (s.goto t T) :=
  ⟨view_goto s t T ▸ h.books.rearrange hperm, h.shape.goto hT⟩

lemma LifeInv.exchange (h : LifeInv s) {e : Option LifeEntry}
    (hperm : (s.view.party (.slot fd) ++ s.view.party (.thread t)).Perm
      (e.elim [] LifeEntry.assets ++ T.flatMap LifeTask.assets))
    (he : ∀ e', e = some e' → e'.Shape) (hT : ∀ k ∈ T, k.Shape) :
    LifeInv ((s.setSlot fd e).goto t T) := by
  refine ⟨?_, (h.shape.setSlot he).goto hT⟩
  rw [view_goto, view_setSlot]
  exact h.books.hand (by simp) hperm

lemma obj_life (hx : s.life l = some x) :
    s.view.obj (.life l x.hostFd) = some ⟨x.refs, x.keeps⟩ := by
  show (s.life l).bind (Lifetime.obj x.hostFd) = _
  rw [hx]
  exact if_pos rfl

lemma obj_stream {x : DirStream} (hx : s.stream d = some x) :
    s.view.obj (.stream d x.hostFd) = some ⟨x.refcount, [.res x.hostFd]⟩ := by
  show (s.stream d).bind (DirStream.obj x.hostFd) = _
  rw [hx]
  exact if_pos rfl

lemma life_of_obj {y : Obj ℤ LifeKey} (hy : s.view.obj (.life l h) = some y) :
    ∃ x, s.life l = some x ∧ x.hostFd = h ∧ y = ⟨x.refs, x.keeps⟩ := by
  obtain ⟨x, hx, hobj⟩ := bind_eq_some_iff.mp hy
  grind [Lifetime.obj]

lemma stream_of_obj {y : Obj ℤ LifeKey} (hy : s.view.obj (.stream d h) = some y) :
    ∃ x, s.stream d = some x ∧ x.hostFd = h ∧ y = ⟨x.refcount, [.res x.hostFd]⟩ := by
  obtain ⟨x, hx, hobj⟩ := bind_eq_some_iff.mp hy
  grind [DirStream.obj]

variable {h' : ℤ} {p : LifeParty}

lemma LifeInv.referred_life (h : LifeInv s) (hp : .ref (.life l h') ∈ s.view.party p) :
    ∃ x, s.life l = some x ∧ x.hostFd = h' ∧ 0 < x.refs := by
  obtain ⟨y, hy, hpos, -⟩ := h.books.referred (j := .other p) hp
  obtain ⟨x, hx, hh, rfl⟩ := life_of_obj hy
  exact ⟨x, hx, hh, hpos⟩

lemma LifeInv.referred_stream (h : LifeInv s) (hp : .ref (.stream d h') ∈ s.view.party p) :
    ∃ x, s.stream d = some x ∧ x.hostFd = h' ∧ 0 < x.refcount := by
  obtain ⟨y, hy, hpos, -⟩ := h.books.referred (j := .other p) hp
  obtain ⟨x, hx, hh, rfl⟩ := stream_of_obj hy
  exact ⟨x, hx, hh, hpos⟩

/-- The system after the count of an object has changed, in the books and in its shape. -/
structure Recounts (s s' : LifeSystem) (κ : LifeKey) (y : Obj ℤ LifeKey) : Prop where
  view : s'.view = s.view.setObj κ (some y)
  shape : s.Shape → s'.Shape

lemma recounts_life (hx : s.life l = some x) (n : ℕ) :
    Recounts s (s.setLife l (some { x with refs := n })) (.life l x.hostFd) ⟨n, x.keeps⟩ := by
  refine ⟨view_setLife s (fun y hy => ?_) (fun y hy => ?_), fun h => h.setLife fun y hy => ?_⟩
  · rw [hx] at hy
    cases hy
    rfl
  · cases hy
    rfl
  · cases hy
    exact ⟨(h.lives l x hx).host, (h.lives l x hx).stdio⟩

lemma recounts_stream {x : DirStream} (hx : s.stream d = some x) (n : ℕ) :
    Recounts s (s.setStream d (some { x with refcount := n })) (.stream d x.hostFd)
      ⟨n, [.res x.hostFd]⟩ := by
  refine ⟨view_setStream s (fun y hy => ?_) (fun y hy => ?_), fun h => h.setStream fun y hy => ?_⟩
  · rw [hx] at hy
    cases hy
    rfl
  · cases hy
    rfl
  · cases hy
    exact h.streams d x hx

lemma LifeInv.pin (h : LifeInv s) (hκ : s.view.obj κ = some ⟨n, K⟩)
    (hr : Recounts s s' κ ⟨n + 1, K⟩) (hpos : 0 < n)
    (hperm : (T.flatMap LifeTask.assets).Perm (.ref κ :: s.view.party (.thread t)))
    (hT : ∀ k ∈ T, k.Shape) : LifeInv (s'.goto t T) := by
  refine ⟨?_, (hr.shape h.shape).goto hT⟩
  rw [view_goto, hr.view]
  exact h.books.retain hκ hpos hperm

lemma LifeInv.drop (h : LifeInv s) (hκ : s.view.obj κ = some ⟨n, K⟩)
    (hr : Recounts s s' κ ⟨n - 1, K⟩) (hmore : 1 < n)
    (hperm : (s.view.party (.thread t)).Perm (.ref κ :: T.flatMap LifeTask.assets))
    (hT : ∀ k ∈ T, k.Shape) : LifeInv (s'.goto t T) := by
  refine ⟨?_, (hr.shape h.shape).goto hT⟩
  rw [view_goto, hr.view]
  exact h.books.release hκ hmore hperm

lemma LifeInv.dropLast (h : LifeInv s) (hκ : s.view.obj κ = some ⟨1, K⟩)
    (hr : Recounts s s' κ ⟨0, K⟩) {rest : List LifeTask}
    (hperm : s.view.party (.thread t) = .ref κ :: rest.flatMap LifeTask.assets)
    (hT : T.flatMap LifeTask.assets = K ++ .mem κ :: rest.flatMap LifeTask.assets)
    (hshape : ∀ k ∈ T, k.Shape) : LifeInv (s'.goto t T) := by
  refine ⟨?_, (hr.shape h.shape).goto hshape⟩
  rw [view_goto, hr.view]
  exact h.books.last hκ rfl (.of_eq hperm) (.of_eq hT)

variable {k : LifeTask}

lemma LifeSystem.Shape.rest (h : s.Shape) {rest : List LifeTask} (htodo : s.todo t = k :: rest) :
    ∀ k ∈ rest, k.Shape :=
  fun k hk => h.tasks t k (by rw [htodo]; exact mem_cons_of_mem _ hk)

variable {rest : List LifeTask}

lemma party_cons (htodo : s.todo t = k :: rest) :
    s.view.party (.thread t) = k.assets ++ rest.flatMap LifeTask.assets := by
  rw [party_thread, htodo]
  rfl

lemma LifeSystem.Shape.head (h : s.Shape) (htodo : s.todo t = k :: rest) : k.Shape :=
  h.tasks t k (by rw [htodo]; exact mem_cons_self)

lemma destroy_shape (l : ℕ) (x : Lifetime) : ∀ k ∈ fdLifetimeDestroy l x, k.Shape := by
  intro k hk
  rw [fdLifetimeDestroy] at hk
  grind [LifeTask.Shape]

lemma LifeInv.closeHost (h : LifeInv s) (htodo : s.todo t = .close h' :: rest) :
    LifeInv ((s.closeHost h').goto t rest) := by
  have hparty : _ = (if 0 ≤ h' then [Asset.res h'] else []) ++ _ := party_cons htodo
  refine ⟨?_, (h.shape.closeHost h').goto (h.shape.rest htodo)⟩
  by_cases hh : 0 ≤ h'
  · rw [view_goto, view_closeHost hh]
    exact h.books.vanish (.of_eq (by rw [hparty, if_pos hh]; rfl))
  -- the host refuses a negative number
  rw [LifeSystem.closeHost, if_neg hh]
  exact (h.goto (.of_eq (by rw [hparty, if_neg hh]; rfl)) (h.shape.rest htodo)).books

lemma LifeInv.freeLife (h : LifeInv s) (htodo : s.todo t = .free l h' :: rest) :
    LifeInv ((s.setLife l none).goto t rest) := by
  have hparty : _ = Asset.mem (LifeKey.life l h') :: _ := party_cons htodo
  obtain ⟨y, hy, -⟩ := h.books.mem_dead (hparty ▸ mem_cons_self)
  obtain ⟨x, hx, hh, -⟩ := life_of_obj hy
  refine ⟨?_, (h.shape.setLife (y := none) nofun).goto (h.shape.rest htodo)⟩
  rw [view_goto, view_setLife s (fun y hy => by rw [hx] at hy; cases hy; exact hh)
    (y := none) nofun]
  exact h.books.destroy (.of_eq hparty)

lemma LifeInv.closedir (h : LifeInv s) (htodo : s.todo t = .closedir d h' :: rest) :
    LifeInv (((s.closeHost h').setStream d none).goto t rest) := by
  have hh : 0 ≤ h' := h.shape.head htodo
  have hparty : _ = Asset.res h' :: .mem (LifeKey.stream d h') :: _ := party_cons htodo
  obtain ⟨y, hy, -⟩ := h.books.mem_dead (k := .stream d h') (p := .thread t) (by simp [hparty])
  obtain ⟨x, hx, hx', -⟩ := stream_of_obj hy
  have hclose : (s.closeHost h').stream = s.stream := by
    rw [LifeSystem.closeHost, if_pos hh]
  refine ⟨?_, ((h.shape.closeHost h').setStream (y := none) nofun).goto (h.shape.rest htodo)⟩
  rw [view_goto, view_setStream _ (y := none)
      (fun y hy => by rw [hclose, hx] at hy; cases hy; exact hx') nofun,
    view_closeHost hh]
  -- first the descriptor, then the memory
  have hmid := h.books.vanish (.of_eq hparty)
  have hend := hmid.destroy (.of_eq has_give_self)
  simpa [State.give, State.setObj, State.setRes] using hend

lemma LifeInv.openHost (h : LifeInv s) (hh : 3 ≤ h') (hfree : s.opened h' = false)
    (htodo : s.todo t = []) :
    LifeInv ({ s with opened := update s.opened h' true }.goto t [.install h']) := by
  have hs : ({ s with opened := update s.opened h' true } : LifeSystem).Shape :=
    ⟨h.shape.slots, h.shape.lives, h.shape.streams, h.shape.tasks⟩
  refine ⟨?_, hs.goto (forall_mem_singleton.mpr hh)⟩
  rw [view_goto]
  refine h.books.appear hfree (.of_eq ?_)
  rw [party_thread, htodo]
  rfl

lemma LifeInv.allocDir (h : LifeInv s) (htodo : s.todo t = .install h' :: rest)
    (hfree : s.stream d = none) (hT : ∀ k ∈ s.replaced fd ++ rest, k.Shape) :
    LifeInv (((s.setStream d (some ⟨1, h'⟩)).setSlot fd (some ⟨.dir, h', none, some d⟩)).goto t
      (s.replaced fd ++ rest)) := by
  have hh : 3 ≤ h' := h.shape.head htodo
  -- the thread makes the stream, and then hands its reference to the slot
  have hmid : LifeInv ((s.setStream d (some ⟨1, h'⟩)).goto t (.publish d h' :: rest)) := by
    refine ⟨?_, (h.shape.setStream fun y hy => ?_).goto
      (forall_mem_cons.mpr ⟨hh, h.shape.rest htodo⟩)⟩
    · rw [view_goto, view_setStream s (h := h') (fun y hy => by rw [hfree] at hy; cases hy)
        (fun y hy => by cases hy; rfl)]
      refine h.books.create (M := rest.flatMap LifeTask.assets) ?_ one_ne_zero ?_ (List.Perm.refl _)
      · show (s.stream d).bind _ = none
        rw [hfree]
        rfl
      · exact .of_eq (party_cons htodo)
    · cases hy
      exact hh
  have hend : LifeInv ((((s.setStream d (some ⟨1, h'⟩)).goto t (.publish d h' :: rest)).setSlot fd
      (some ⟨.dir, h', none, some d⟩)).goto t (s.replaced fd ++ rest)) := hmid.exchange ?_ ?_ hT
  · grind [LifeSystem.goto, LifeSystem.setSlot, update_idem]
  · rw [party_thread, flatMap_append, replaced_assets]
    show (s.view.party (.slot fd) ++ (update s.todo t _ t).flatMap LifeTask.assets).Perm
      ([Asset.ref (LifeKey.stream d h')] ++ (s.view.party (.slot fd) ++ _))
    rw [update_self]
    show (s.view.party (.slot fd) ++ ([Asset.ref (LifeKey.stream d h')] ++ _)).Perm _
    grind
  · intro e he
    cases he
    exact ⟨nofun, fun _ => .inr hh, fun h => absurd rfl h⟩

/-- The stream of a slot, among what the slot has. -/
def LifeEntry.dirAssets (e : LifeEntry) : List LifeAsset :=
  match e.dir with
  | some d => [.ref (.stream d e.hostFd)]
  | none => []

/-- The lifetime that the first borrow of a slot makes. -/
def LifeEntry.newLife (e : LifeEntry) : Lifetime := ⟨2, e.hostFd, e.type, e.dir⟩

variable {e : LifeEntry}

lemma LifeEntry.newLife_keeps (hnone : e.lifetime = none) (hh : 0 ≤ e.hostFd) :
    e.newLife.keeps = e.assets := by
  unfold LifeEntry.newLife Lifetime.keeps LifeEntry.assets
  grind

/-- The first borrow of a slot makes a lifetime, with a reference for the slot and one for the
thread. -/
lemma LifeInv.birth (hs : s.Shape) (hshape : e.Shape) (hh : 0 ≤ e.hostFd)
    (hfree : s.life spare = none)
    (hbooks : Balanced (s.view.give (.slot fd) (e.newLife.keeps ++ e.dirAssets)))
    (hT : s.view.party (.thread t) = []) : LifeInv (((s.setLife spare (some e.newLife)).setSlot fd
      (some { e with lifetime := some spare })).goto t [.release spare e.hostFd]) := by
  refine ⟨?_, ((hs.setLife fun y hy => ?_).setSlot fun e' he' => ?_).goto
    (forall_mem_singleton.mpr trivial)⟩
  · rw [view_goto, view_setSlot, view_setLife s (h := e.hostFd)
      (fun y hy => by rw [hfree] at hy; cases hy) (fun y hy => by cases hy; rfl)]
    have hnone : s.view.obj (.life spare e.hostFd) = none := by
      show (s.life spare).bind _ = none
      rw [hfree]
      rfl
    have hmid := hbooks.create (k := LifeKey.life spare e.hostFd) (x := ⟨2, e.newLife.keeps⟩) hnone
      (succ_ne_zero 1) (.of_eq has_give_self) (List.Perm.refl _)
    -- one of the two references goes to the thread
    have hend := hmid.hand (p := .slot fd) (q := .thread t)
      (L := .ref (.life spare e.hostFd) :: e.dirAssets) (M := [.ref (.life spare e.hostFd)])
      (by simp) (by simp [State.give, State.setObj, hT]; grind)
    simp only [State.give, State.setObj, update_idem] at hend
    exact hend
  · cases hy
    exact ⟨hh, fun ht => (hshape.stdio ht).2.1⟩
  · cases he'
    exact ⟨hshape.stdio, hshape.other, fun _ => hh⟩

/-! ### Every step -/

lemma party_slot (he : s.slot fd = some e) : s.view.party (.slot fd) = e.assets := by
  show (s.slot fd).elim [] LifeEntry.assets = _
  rw [he]
  rfl

lemma LifeEntry.ref_life (hl : e.lifetime = some l) : .ref (.life l e.hostFd) ∈ e.assets := by
  unfold LifeEntry.assets
  rw [hl]
  exact mem_cons_self

lemma LifeEntry.ref_stream (hd : e.dir = some d) : .ref (.stream d e.hostFd) ∈ e.assets := by
  simp [hd, LifeEntry.assets]

variable {ls : List (ℕ × LifeAct)} {act : ℕ × LifeAct} {α : Type}

lemma LifeInv.pinSpare (h : LifeInv s) (hT : s.view.party (.thread t) = [])
    (hs : s.pinSpare t fd spare = some s') : LifeInv s' := by
  have hrefuse : LifeInv (s.goto t []) :=
    h.goto (by rw [hT]; exact List.Perm.refl _) nofun
  have hone : ∀ l h', ∀ k ∈ [LifeTask.release l h'], k.Shape := fun _ _ =>
    forall_mem_singleton.mpr trivial
  unfold LifeSystem.pinSpare at hs
  split at hs
  · cases hs
    exact hrefuse
  rename_i e he
  have hslot := party_slot he
  split at hs
  · cases hs
    exact hrefuse
  rename_i hneg
  split at hs
  · -- the slot's lifetime is shared
    rename_i l hl
    have href : .ref (.life l e.hostFd) ∈ s.view.party (.slot fd) := by
      rw [hslot]
      exact e.ref_life hl
    obtain ⟨x, hx, hh, hpos⟩ := h.referred_life href
    rw [LifeSystem.lifeRef, hx] at hs
    cases hs
    refine h.pin (obj_life hx) (recounts_life hx _) hpos ?_ (hone _ _)
    rw [hT, hh]
    exact List.Perm.refl _
  -- the slot gets a lifetime
  rename_i hl
  have hh : 0 ≤ e.hostFd := Int.not_lt.mp hneg
  have hshape := h.shape.slots fd e he
  have hkeeps := LifeEntry.newLife_keeps hl hh
  unfold LifeSystem.birth at hs
  split at hs
  · rename_i hfree
    cases hd : e.dir with
    | none =>
      have heq : s' = ((s.setLife spare (some e.newLife)).setSlot fd
          (some { e with lifetime := some spare })).goto t [.release spare e.hostFd] := by
        simp only [hd, LifeSystem.lifeRef, LifeSystem.setLife, LifeSystem.setSlot,
          update_self, update_idem, bind_some, map_some,
          some.injEq] at hs
        rw [← hs, LifeEntry.newLife, hd]
        rfl
      rw [heq]
      refine LifeInv.birth h.shape hshape hh hfree ?_ hT
      rw [LifeEntry.dirAssets, hd, append_nil, hkeeps, ← hslot]
      exact h.books.rearrange (List.Perm.refl _)
    | some d =>
      -- the new lifetime has a reference to the stream of its own
      have href : .ref (.stream d e.hostFd) ∈ s.view.party (.slot fd) := by
        rw [hslot]
        exact e.ref_stream hd
      obtain ⟨y, hy, hhost, hpos⟩ := h.referred_stream href
      have heq : s' = (((s.setStream d (some { y with refcount := y.refcount + 1 })).setLife spare
          (some e.newLife)).setSlot fd
          (some { e with lifetime := some spare })).goto t [.release spare e.hostFd] := by
        simp only [hd, LifeSystem.dirRef, LifeSystem.lifeRef, LifeSystem.setLife,
          LifeSystem.setSlot, LifeSystem.setStream, hy, update_self,
          update_idem, bind_some, map_some, some.injEq] at hs
        rw [← hs, LifeEntry.newLife, hd]
        rfl
      rw [heq]
      have hr := recounts_stream hy (y.refcount + 1)
      refine LifeInv.birth (hr.shape h.shape) hshape hh hfree ?_ hT
      rw [hr.view]
      refine h.books.retain (obj_stream hy) hpos ?_
      grind [LifeEntry.dirAssets]
  · cases hs

/-- No `fd_retire_published` finds a directory with a stream in its slot. -/
def LifeQuiet (s : LifeSystem) (l : ℕ × LifeAct) : Prop :=
  l.2 = .run → ∀ fd h rest, s.todo l.1 = .retire fd h :: rest →
    ∀ e, s.slot fd = some e → e.hostFd = h → e.dir = none

lemma LifeInv.retirePublished (h : LifeInv s) {rest : List LifeTask}
    (htodo : s.todo t = .retire fd h' :: rest)
    (hquiet : ∀ e, s.slot fd = some e → e.hostFd = h' → e.dir = none) :
    LifeInv (s.retirePublished t fd h' rest) := by
  have hrest := h.shape.rest htodo
  have hparty : s.view.party (.thread t) = rest.flatMap LifeTask.assets := party_cons htodo
  have hleft : LifeInv (s.goto t rest) := h.goto (by rw [hparty]) hrest
  unfold LifeSystem.retirePublished
  split
  · exact hleft
  rename_i e he
  split
  · rename_i hh
    have hd := hquiet e he hh
    have hshape := h.shape.slots fd e he
    have hnot : e.type ≠ .stdio := by
      intro ht
      have hstd := hshape.stdio ht
      obtain hneg | hbig := (h.shape.head htodo : h' = -1 ∨ 3 ≤ h')
      · omega
      · omega
    have hslot := party_slot he
    split
    · rename_i l hl
      refine h.exchange (e := none) ?_ (nofun) ?_
      · have hassets : e.assets = [.ref (.life l h')] := by
          rw [LifeEntry.assets, hl, hd, hh]
          rfl
        rw [hslot, hassets, hparty]
        exact List.Perm.refl _
      · exact forall_mem_cons.mpr ⟨trivial, hrest⟩
    split
    · refine h.exchange (e := none) ?_ (nofun) ?_
      · have hassets : e.assets = [.res h'] := by
          grind [LifeEntry.assets]
        grind [LifeTask.assets]
      · exact forall_mem_cons.mpr ⟨trivial, hrest⟩
    · refine h.exchange (e := none) ?_ (nofun) hrest
      grind [LifeEntry.assets]
  · exact hleft

lemma LifeInv.run (h : LifeInv s) (hquiet : LifeQuiet s (t, .run)) (hs : s.run t = some s') :
    LifeInv s' := by
  unfold LifeSystem.run at hs
  split at hs
  · -- fd_lifetime_release
    rename_i l h' rest htodo
    have hthread : _ = Asset.ref (LifeKey.life l h') :: _ := party_cons htodo
    obtain ⟨x, hx, rfl, hpos⟩ := h.referred_life (hthread ▸ mem_cons_self)
    rw [hx] at hs
    dsimp only at hs
    split at hs
    · rename_i hone
      cases hs
      refine h.dropLast (hone ▸ obj_life hx) (recounts_life hx 0) hthread ?_
        (forall_mem_append.mpr ⟨destroy_shape l x, h.shape.rest htodo⟩)
      rw [flatMap_append, (h.shape.lives l x hx).destroy_assets, append_assoc]
      rfl
    · cases hs
      exact h.drop (obj_life hx) (recounts_life hx _) (by omega) (.of_eq hthread)
        (h.shape.rest htodo)
  · rename_i htodo
    cases hs
    exact h.closeHost htodo
  · -- dir_stream_release
    rename_i d h' rest htodo
    have hthread : _ = Asset.ref (LifeKey.stream d h') :: _ := party_cons htodo
    obtain ⟨x, hx, rfl, hpos⟩ := h.referred_stream (hthread ▸ mem_cons_self)
    have hbig := h.shape.streams d x hx
    rw [hx] at hs
    dsimp only at hs
    split at hs
    · rename_i hone
      cases hs
      exact h.dropLast (hone ▸ obj_stream hx) (recounts_stream hx 0) hthread rfl
        (forall_mem_cons.mpr ⟨Int.le_trans (by decide) hbig, h.shape.rest htodo⟩)
    · cases hs
      exact h.drop (obj_stream hx) (recounts_stream hx _) (by omega) (.of_eq hthread)
        (h.shape.rest htodo)
  · rename_i htodo
    cases hs
    exact h.closedir htodo
  · rename_i htodo
    cases hs
    exact h.freeLife htodo
  · rename_i htodo
    cases hs
    exact h.retirePublished htodo (hquiet rfl _ _ _ htodo)
  · cases hs

lemma LifeEntry.assets_bare (type : FdType) : LifeEntry.assets ⟨type, -1, none, none⟩ = [] := by
  simp [LifeEntry.assets]

lemma LifeEntry.assets_host {type : FdType} (ht : type ≠ .stdio) (hh : 3 ≤ h) :
    LifeEntry.assets ⟨type, h, none, none⟩ = [.res h] := by
  grind [LifeEntry.assets]

lemma LifeEntry.assets_dir (h : ℤ) (d : ℕ) :
    LifeEntry.assets ⟨.dir, h, none, some d⟩ = [.ref (.stream d h)] := by
  simp [LifeEntry.assets]

lemma replaced_shape (s : LifeSystem) (fd : ℕ) : ∀ k ∈ s.replaced fd, k.Shape := by
  intro k hk
  rw [LifeSystem.replaced] at hk
  grind [fdCleanupEntry, LifeTask.Shape]

lemma replaced_append_shape (h : ∀ k ∈ T, k.Shape) : ∀ k ∈ s.replaced fd ++ T, k.Shape :=
  forall_mem_append.mpr ⟨replaced_shape s fd, h⟩

lemma LifeInv.replace (h : LifeInv s)
    (hassets : s.view.party (.thread t) = e.assets ++ T.flatMap LifeTask.assets) (he : e.Shape)
    (hT : ∀ k ∈ T, k.Shape) : LifeInv ((s.setSlot fd (some e)).goto t (s.replaced fd ++ T)) := by
  refine h.exchange (e := some e) ?_ ?_ (replaced_append_shape hT)
  · grind [replaced_assets]
  intro e' he'
  cases he'
  exact he

lemma LifeInv.dirRef (h : LifeInv s) (he : s.slot fd = some e) (hd : e.dir = some d)
    (htodo : s.todo t = []) (hk : k.assets = [.ref (.stream d e.hostFd)])
    (hshape : 3 ≤ e.hostFd → k.Shape) (hs : ((s.dirRef d).map fun s' => s'.goto t [k]) = some s') :
    LifeInv s' := by
  have href : .ref (.stream d e.hostFd) ∈ s.view.party (.slot fd) := by
    rw [party_slot he]
    exact e.ref_stream hd
  obtain ⟨x, hx, hh, hpos⟩ := h.referred_stream href
  rw [LifeSystem.dirRef, hx] at hs
  cases hs
  refine h.pin (obj_stream hx) (recounts_stream hx _) hpos ?_
    (forall_mem_singleton.mpr (hshape (hh ▸ h.shape.streams d x hx)))
  simp [party_thread, htodo, hh, hk]

lemma LifeInv.step (h : LifeInv s) (hquiet : LifeQuiet s act) (hs : s.next act = some s') :
    LifeInv s' := by
  obtain ⟨t, act⟩ := act
  have hidle : s.todo t = [] → s.view.party (.thread t) = [] := by
    intro htodo
    rw [party_thread, htodo]
    rfl
  unfold LifeSystem.next at hs
  dsimp only at hs
  split at hs
  · -- fd_host_ref_acquire
    rename_i fd htodo
    split at hs
    · cases hs
      exact h
    split at hs
    · cases hs
      exact h
    split at hs
    · exact h.pinSpare (hidle htodo) hs
    · cases hs
      exact h.goto (.of_eq (hidle htodo)) (forall_mem_singleton.mpr trivial)
  · rename_i fd' fd spare htodo
    obtain ⟨-, hs⟩ := guarded hs
    exact h.pinSpare (party_cons htodo) hs
  · rename_i fd spare htodo
    exact h.pinSpare (hidle htodo) hs
  · rename_i h' htodo
    obtain ⟨hc, ⟨⟩⟩ := guarded hs
    exact h.openHost hc.1 hc.2 htodo
  · -- fd_alloc without a descriptor
    rename_i fd type htodo
    obtain ⟨hc, ⟨⟩⟩ := guarded hs
    refine h.exchange (e := some _) ?_ ?_ ?_
    · have hslot : s.view.party (.slot fd) = [] := by
        show (s.slot fd).elim [] LifeEntry.assets = _
        rw [hc.1]
        rfl
      rw [hslot, hidle htodo, elim_some, LifeEntry.assets_bare]
      exact List.Perm.refl _
    · intro e he
      cases he
      exact ⟨fun ht => absurd ht hc.2.2.1, fun _ => .inl rfl, fun hl => absurd rfl hl⟩
    · exact forall_mem_singleton.mpr (.inl rfl)
  · -- fd_alloc
    rename_i h' rest fd type htodo
    obtain ⟨hc, ⟨⟩⟩ := guarded hs
    have hh : 3 ≤ h' := h.shape.head htodo
    refine h.replace ?_ ⟨fun ht => absurd ht hc.2.1, fun _ => .inr hh, fun hl => absurd rfl hl⟩
      (forall_mem_cons.mpr ⟨.inr hh, h.shape.rest htodo⟩)
    rw [party_cons htodo, LifeEntry.assets_host hc.2.1 hh]
    rfl
  · rename_i h' rest fd d htodo
    obtain ⟨hfree, ⟨⟩⟩ := guarded hs
    exact h.allocDir htodo hfree (replaced_append_shape (h.shape.rest htodo))
  · rename_i h' rest htodo
    cases hs
    have hh : 3 ≤ h' := h.shape.head htodo
    refine h.goto ?_ (forall_mem_cons.mpr ⟨trivial, h.shape.rest htodo⟩)
    rw [party_cons htodo, flatMap_cons, LifeTask.assets, LifeTask.assets, if_pos (by omega)]
  · -- fd_snapshot_and_close
    rename_i fd htodo
    cases hs
    refine h.exchange (e := none) (.of_eq ?_) nofun (replaced_shape s fd)
    rw [hidle htodo, replaced_assets, append_nil]
    rfl
  · rename_i fd htodo
    split at hs
    · rename_i e he
      split at hs
      · rename_i d hd
        exact h.dirRef (k := .publish d e.hostFd) he hd htodo rfl (fun hh => hh) hs
      · cases hs
    · cases hs
  · rename_i fd htodo
    split at hs
    · rename_i e he
      split at hs
      · rename_i d hd
        exact h.dirRef (k := .dirRelease d e.hostFd) he hd htodo rfl (fun _ => trivial) hs
      · cases hs
    · cases hs
  · -- fd_alloc_alias_dir
    rename_i d h' rest fd htodo
    cases hs
    have hh : 3 ≤ h' := h.shape.head htodo
    refine h.replace ?_ ⟨nofun, fun _ => .inr hh, fun hl => absurd rfl hl⟩ (h.shape.rest htodo)
    rw [party_cons htodo, LifeEntry.assets_dir]
    rfl
  · rename_i d h' rest htodo
    cases hs
    exact h.goto (.of_eq (party_cons htodo :)) (forall_mem_cons.mpr ⟨trivial, h.shape.rest htodo⟩)
  · rename_i rest htodo
    cases hs
    exact h.goto (.of_eq (party_cons htodo)) (h.shape.rest htodo)
  · exact h.run hquiet hs
  · cases hs

lemma lifeRun_inv (hquiet : Meets LifeSystem.next LifeQuiet LifeSystem.init ls)
    (hrun : exec LifeSystem.next LifeSystem.init ls = some s) : LifeInv s := by
  refine exec_keeps_of_meets (P := LifeInv) LifeQuiet ?_ LifeInv.init hquiet hrun
  intro s act s' h hok hn
  exact h.step hok hn

/-! ### What the books say -/

/-- The thread has a reference through which it may use the descriptor. -/
def LifeTask.uses (h : ℤ) : LifeTask → Bool
  | .release _ h' | .dirRelease _ h' | .install h' | .publish _ h' => h' = h
  | _ => false

def LifeTask.closes (h : ℤ) : LifeTask → Bool
  | .close h' | .closedir _ h' => h' = h
  | _ => false

def LifeTask.frees (l : ℕ) : LifeTask → Bool
  | .free l' _ => l' = l
  | _ => false

def LifeSystem.Uses (s : LifeSystem) (h : ℤ) : Prop :=
  (∃ fd e, s.slot fd = some e ∧ e.hostFd = h) ∨ ∃ t, ∃ k ∈ s.todo t, k.uses h = true

def LifeSystem.Pins (s : LifeSystem) (l : ℕ) : Prop :=
  (∃ fd e, s.slot fd = some e ∧ e.lifetime = some l) ∨ ∃ t h, .release l h ∈ s.todo t

/-- Exactly one task of exactly one thread is of this kind. -/
def LifeSystem.Once (s : LifeSystem) (p : LifeTask → Bool) : Prop :=
  ∃ t, (s.todo t).countP p = 1 ∧ ∀ u, u ≠ t → (s.todo u).countP p = 0

/-- A descriptor beyond the standard ones is open as long as it is used, and when it is not used any
more one thread closes it; a lifetime is there as long as it is referred to, and then one thread
frees it. -/
structure HostFdsKept (s : LifeSystem) : Prop where
  slots : ∀ fd e, s.slot fd = some e → e.type ≠ .stdio → e.hostFd = -1 ∨ 3 ≤ e.hostFd
  standard : ∀ t k h, k ∈ s.todo t → k.closes h = true → h < 0 ∨ 3 ≤ h
  used : ∀ h, 3 ≤ h → s.Uses h →
    s.opened h = true ∧ ∀ t, ∀ k ∈ s.todo t, k.closes h = false
  unused : ∀ h, s.opened h = true → ¬ s.Uses h → s.Once (LifeTask.closes h)
  closing : ∀ h, 3 ≤ h → ∀ t, ∀ k ∈ s.todo t, k.closes h = true →
    s.opened h = true ∧ ¬ s.Uses h ∧ s.Once (LifeTask.closes h)
  pinned : ∀ l, s.Pins l →
    (∃ x, s.life l = some x ∧ 0 < x.refs) ∧ ∀ t, ∀ k ∈ s.todo t, k.frees l = false
  unpinned : ∀ l, s.life l ≠ none → ¬ s.Pins l → s.Once (LifeTask.frees l)
  freeing : ∀ l t, ∀ k ∈ s.todo t, k.frees l = true →
    s.life l ≠ none ∧ ¬ s.Pins l ∧ s.Once (LifeTask.frees l)

lemma countP_le_count [DecidableEq β] {f : α → List β} {p : α → Bool} {b : β} {L : List α}
    (h : ∀ a ∈ L, p a → b ∈ f a) : L.countP p ≤ (L.flatMap f).count b := by
  induction L with
  | nil => exact le_refl _
  | cons a L ih =>
    grind

variable {a : LifeAsset} {j : Party LifeKey LifeParty}

lemma LifeInv.once (h : LifeInv s) {p : LifeTask → Bool}
    (hp : ∀ u, ∀ k ∈ s.todo u, p k → a ∈ k.assets) (hone : s.view.size a ≤ 1)
    (hk : k ∈ s.todo t) (hpk : p k) : s.Once p := by
  have hmem : ∀ u k, k ∈ s.todo u → p k → a ∈ s.view.has (.other (.thread u)) := by
    intro u k hk hpk
    exact mem_flatMap.mpr ⟨k, hk, hp u k hk hpk⟩
  refine ⟨t, ?_, ?_⟩
  · have hpos : 0 < (s.todo t).countP p := countP_pos_iff.mpr ⟨k, hk, hpk⟩
    have hle := countP_le_count (hp t)
    have hcount : ((s.todo t).flatMap LifeTask.assets).count a ≤ _ :=
      h.books.count_le (.other (.thread t)) a
    omega
  intro u hu
  refine countP_eq_zero.mpr ?_
  intro k' hk' hpk'
  have heq := h.books.unique hone (hmem t k hk hpk) (hmem u k' hk' hpk')
  cases heq
  exact hu rfl

lemma LifeTask.closes_assets (hh : 0 ≤ h) (k : LifeTask) (hk : k.closes h) : .res h ∈ k.assets := by
  cases k with
  | close h' =>
    obtain rfl : h' = h := of_decide_eq_true hk
    grind [LifeTask.assets]
  | closedir d h' =>
    obtain rfl : h' = h := of_decide_eq_true hk
    exact mem_cons_self
  | _ => cases hk

lemma LifeTask.res_assets (hk : .res h ∈ k.assets) : k = .install h ∨ k.closes h := by
  cases k with
  | close h' =>
    rw [LifeTask.assets] at hk
    split at hk
    · cases mem_singleton.mp hk
      exact .inr (decide_eq_true rfl)
    · cases hk
  | closedir d h' =>
    obtain heq | hk := mem_cons.mp hk
    · cases heq
      exact .inr (decide_eq_true rfl)
    · cases mem_singleton.mp hk
  | install h' =>
    cases mem_singleton.mp hk
    exact .inl rfl
  | again | retire => cases hk
  | _ => cases mem_singleton.mp hk

lemma LifeTask.ref_uses {κ : LifeKey} (hk : .ref κ ∈ k.assets) :
    (∃ l h, κ = .life l h ∧ k = .release l h) ∨ ∃ d h, κ = .stream d h ∧ k.uses h := by
  cases k with
  | release l h =>
    cases mem_singleton.mp hk
    exact .inl ⟨l, h, rfl, rfl⟩
  | dirRelease d h | publish d h =>
    cases mem_singleton.mp hk
    exact .inr ⟨d, h, rfl, decide_eq_true rfl⟩
  | close h' =>
    grind [LifeTask.assets]
  | closedir d h' =>
    obtain heq | hk := mem_cons.mp hk
    · cases heq
    · cases mem_singleton.mp hk
  | again | retire => cases hk
  | _ => cases mem_singleton.mp hk

lemma LifeEntry.mem_assets (ha : a ∈ e.assets) :
    a = .res e.hostFd ∧ e.type ≠ .stdio ∨ (∃ l, e.lifetime = some l ∧ a = .ref (.life l e.hostFd)) ∨
      ∃ d, e.dir = some d ∧ a = .ref (.stream d e.hostFd) := by
  obtain ha | ha := mem_append.mp ha
  · grind
  grind

/-- Who has an asset: a counted lifetime or stream, a slot, or a thread. -/
inductive LifeSystem.Held (s : LifeSystem) (a : LifeAsset) : Prop
  | life {l : ℕ} {x : Lifetime} (hx : s.life l = some x) (hlive : 0 < x.refs)
    (ha : a ∈ x.keeps ∨ a = .mem (.life l x.hostFd))
  | stream {d : ℕ} {x : DirStream} (hx : s.stream d = some x) (hlive : 0 < x.refcount)
    (ha : a = .res x.hostFd ∨ a = .mem (.stream d x.hostFd))
  | slot {fd : ℕ} {e : LifeEntry} (he : s.slot fd = some e) (ha : a ∈ e.assets)
  | task {t : ℕ} {k : LifeTask} (hk : k ∈ s.todo t) (ha : a ∈ k.assets)

lemma LifeInv.held (h : LifeInv s) (ha : 0 < s.view.size a) : s.Held a := by
  obtain ⟨κ | fd | t, hj⟩ := h.books.of_pos ha
  · rw [State.has] at hj
    cases hy : s.view.obj κ with
    | none =>
      rw [hy] at hj
      cases hj
    | some y =>
      rw [hy, elim_some, Obj.has] at hj
      split at hj
      · cases hj
      rename_i hpos
      have hmem : a ∈ y.keeps ∨ a = .mem κ := by
        simpa using hj
      cases κ with
      | life l h =>
        obtain ⟨x, hx, rfl, rfl⟩ := life_of_obj hy
        exact .life hx (pos_of_ne_zero hpos) hmem
      | stream d h =>
        obtain ⟨x, hx, rfl, rfl⟩ := stream_of_obj hy
        exact .stream hx (pos_of_ne_zero hpos) (by simpa using hmem)
  · replace hj : a ∈ (s.slot fd).elim [] LifeEntry.assets := hj
    cases he : s.slot fd with
    | none =>
      rw [he] at hj
      cases hj
    | some e =>
      rw [he] at hj
      exact .slot he hj
  · obtain ⟨k, hk, ha⟩ := mem_flatMap.mp hj
    exact .task hk ha

lemma LifeInv.life_pinned (h : LifeInv s) (hx : s.life l = some x) (hpos : 0 < x.refs) :
    s.Pins l ∧ s.Uses x.hostFd := by
  have hsize : 0 < s.view.size (.ref (.life l x.hostFd)) := by
    rw [State.size, obj_life hx]
    exact hpos
  obtain ⟨-, -, hk⟩ | ⟨-, -, hk⟩ | ⟨he, hk⟩ | ⟨ht, hk⟩ := h.held hsize
  · grind [Lifetime.keeps]
  · simp at hk
  · obtain ⟨hk, -⟩ | ⟨l', hl, hk⟩ | ⟨d, -, hk⟩ := LifeEntry.mem_assets hk
    · cases hk
    · injection hk with hk
      injection hk with hk hh
      exact ⟨.inl ⟨_, _, he, hk ▸ hl⟩, .inl ⟨_, _, he, hh.symm⟩⟩
    · cases hk
  · obtain ⟨l', h', heq, rfl⟩ | ⟨d, h', heq, -⟩ := LifeTask.ref_uses hk
    · cases heq
      exact ⟨.inr ⟨_, _, ht⟩, .inr ⟨_, _, ht, decide_eq_true rfl⟩⟩
    · cases heq

lemma LifeInv.stream_used (h : LifeInv s) {x : DirStream} (hx : s.stream d = some x)
    (hpos : 0 < x.refcount) : s.Uses x.hostFd := by
  have hsize : 0 < s.view.size (.ref (.stream d x.hostFd)) := by
    rw [State.size, obj_stream hx]
    exact hpos
  obtain ⟨hy, hlive, hk⟩ | ⟨-, -, hk⟩ | ⟨he, hk⟩ | ⟨ht, hk⟩ := h.held hsize
  · have hused := (h.life_pinned hy hlive).2
    grind [Lifetime.keeps]
  · simp at hk
  · obtain ⟨hk, -⟩ | ⟨l', -, hk⟩ | ⟨d', -, hk⟩ := LifeEntry.mem_assets hk
    · cases hk
    · cases hk
    injection hk with hk
    injection hk with _ hh
    exact .inl ⟨_, _, he, hh.symm⟩
  · obtain ⟨l', h', heq, -⟩ | ⟨d', h', heq, huse⟩ := LifeTask.ref_uses hk
    · cases heq
    · cases heq
      exact .inr ⟨_, _, ht, huse⟩

lemma LifeInv.opened_used (h : LifeInv s) (hopen : s.opened h') :
    s.Uses h' ∨ ∃ t, ∃ k ∈ s.todo t, k.closes h' := by
  have hsize : 0 < s.view.size (.res h') := by
    show 0 < (s.opened h').toNat
    rw [hopen]
    exact one_pos
  obtain ⟨hy, hlive, hk⟩ | ⟨hy, hlive, hk⟩ | ⟨he, hk⟩ | ⟨ht, hk⟩ := h.held hsize
  · have hused := (h.life_pinned hy hlive).2
    grind [Lifetime.keeps]
  · have hused := h.stream_used hy hlive
    grind
  · obtain ⟨hk, -⟩ | ⟨l', -, hk⟩ | ⟨d', -, hk⟩ := LifeEntry.mem_assets hk
    · cases hk
      exact .inl (.inl ⟨_, _, he, rfl⟩)
    · cases hk
    · cases hk
  · obtain rfl | hclose := LifeTask.res_assets hk
    · exact .inl (.inr ⟨_, _, ht, decide_eq_true rfl⟩)
    · exact .inr ⟨_, _, ht, hclose⟩

/-- The descriptor belongs to an object, a slot, or a thread that is going to install it. -/
def LifeSystem.Owned (s : LifeSystem) (h : ℤ) : Prop :=
  ∃ j, .res h ∈ s.view.has j ∧ ∀ t, j = .other (.thread t) → .install h ∈ s.todo t

lemma LifeInv.stream_owned (h : LifeInv s) (hj : .ref (.stream d h') ∈ s.view.has j) :
    s.Owned h' := by
  obtain ⟨y, hy, -, hhas⟩ := h.books.referred hj
  obtain ⟨x, hx, rfl, rfl⟩ := stream_of_obj hy
  refine ⟨.obj (.stream d x.hostFd), ?_, nofun⟩
  rw [hhas]
  exact mem_cons_self

lemma LifeInv.life_owned (h : LifeInv s) (hh : 3 ≤ h') (hj : .ref (.life l h') ∈ s.view.has j) :
    s.Owned h' := by
  obtain ⟨y, hy, -, hhas⟩ := h.books.referred hj
  obtain ⟨x, hx, rfl, rfl⟩ := life_of_obj hy
  cases hd : x.dir with
  | some d =>
    refine h.stream_owned (d := d) (j := .obj (.life l x.hostFd)) ?_
    simp [hhas, Lifetime.keeps, hd]
  | none =>
    refine ⟨.obj (.life l x.hostFd), ?_, nofun⟩
    rw [hhas]
    refine mem_append_left _ ?_
    rw [Lifetime.keeps, hd]
    rw [if_pos]
    · exact mem_cons_self
    intro ht
    have hlt := (h.shape.lives l x hx).stdio ht
    omega

lemma LifeInv.used_owned (h : LifeInv s) (hh : 3 ≤ h') (hu : s.Uses h') : s.Owned h' := by
  obtain ⟨fd, e, he, rfl⟩ | ⟨t, k, hk, huse⟩ := hu
  · have hslot : s.view.has (.other (.slot fd)) = e.assets := party_slot he
    cases hl : e.lifetime with
    | some l => exact h.life_owned hh (hslot ▸ e.ref_life hl)
    | none =>
      cases hd : e.dir with
      | some d => exact h.stream_owned (hslot ▸ e.ref_stream hd)
      | none =>
        refine ⟨.other (.slot fd), ?_, nofun⟩
        have hnot : e.type ≠ .stdio := by
          intro ht
          have hlt := (h.shape.slots fd e he).stdio ht
          omega
        grind [LifeEntry.assets]
  have hmem : ∀ a ∈ k.assets, a ∈ s.view.has (.other (.thread t)) :=
    fun a ha => mem_flatMap.mpr ⟨k, hk, ha⟩
  cases k with
  | release l h'' =>
    obtain rfl : h'' = h' := of_decide_eq_true huse
    exact h.life_owned hh (hmem _ mem_cons_self)
  | dirRelease d h'' | publish d h'' =>
    obtain rfl : h'' = h' := of_decide_eq_true huse
    exact h.stream_owned (hmem _ mem_cons_self)
  | install h'' =>
    obtain rfl : h'' = h' := of_decide_eq_true huse
    refine ⟨.other (.thread t), hmem _ mem_cons_self, ?_⟩
    intro t' ht'
    cases ht'
    exact hk
  | _ => cases huse

lemma two_le_count [DecidableEq α] [DecidableEq β] {f : α → List β} {L : List α} {a b : α} {x : β}
    (ha : a ∈ L) (hb : b ∈ L) (hne : b ≠ a) (hxa : x ∈ f a) (hxb : x ∈ f b) :
    2 ≤ (L.flatMap f).count x := by
  have hrest : b ∈ L.erase a := (mem_erase_of_ne hne).mpr hb
  have h1 := count_pos_iff.mpr hxa
  have h2 := count_pos_iff.mpr (mem_flatMap.mpr ⟨b, hrest, hxb⟩)
  rw [((perm_cons_erase ha).flatMap_right f).count_eq, flatMap_cons, count_append]
  omega

lemma LifeInv.used_not_closing (h : LifeInv s) (hh : 3 ≤ h') (hu : s.Uses h') (hk : k ∈ s.todo t) :
    k.closes h' = false := by
  obtain ⟨j, hj, hinst⟩ := h.used_owned hh hu
  by_contra hclose
  have hclose : k.closes h' := Bool.eq_true_of_not_eq_false hclose
  have hres := k.closes_assets (by omega) hclose
  have hmine : .res h' ∈ s.view.has (.other (.thread t)) := mem_flatMap.mpr ⟨k, hk, hres⟩
  have heq := h.books.holder_eq hj hmine
  have hinst := hinst t heq
  have hne : LifeTask.install h' ≠ k := by
    rintro rfl
    cases hclose
  -- the thread would have the descriptor twice
  have htwo := two_le_count hk hinst hne hres mem_cons_self
  have hcount : ((s.todo t).flatMap LifeTask.assets).count (.res h') ≤ _ :=
    h.books.count_le (.other (.thread t)) (.res h')
  have hone : s.view.size (.res h') ≤ 1 := Bool.toNat_le _
  omega

lemma LifeInv.life_freed (h : LifeInv s) (hx : s.life l = some x) (hzero : x.refs = 0) :
    ∃ t, ∃ k ∈ s.todo t, k.frees l := by
  have hsize : 0 < s.view.size (.mem (.life l x.hostFd)) := by
    rw [State.size, obj_life hx]
    exact one_pos
  obtain ⟨hy, hlive, hk⟩ | ⟨-, -, hk⟩ | ⟨-, hk⟩ | @⟨t, k, ht, hk⟩ := h.held hsize
  · grind [Lifetime.keeps]
  · simp at hk
  · obtain ⟨hk, -⟩ | ⟨l', -, hk⟩ | ⟨d', -, hk⟩ := LifeEntry.mem_assets hk <;> cases hk
  refine ⟨t, k, ht, ?_⟩
  cases k with
  | free l' h' =>
    cases mem_singleton.mp hk
    exact decide_eq_true rfl
  | _ => grind [LifeTask.assets]

lemma LifeInv.pins_live (h : LifeInv s) (hp : s.Pins l) : ∃ x, s.life l = some x ∧ 0 < x.refs := by
  obtain ⟨fd, e, he, hl⟩ | ⟨t, h', hk⟩ := hp
  · obtain ⟨x, hx, -, hpos⟩ := h.referred_life (p := .slot fd) (by
      rw [party_slot he]
      exact e.ref_life hl)
    exact ⟨x, hx, hpos⟩
  have href : .ref (.life l h') ∈ s.view.party (.thread t) :=
    mem_flatMap.mpr ⟨_, hk, mem_cons_self⟩
  obtain ⟨x, hx, -, hpos⟩ := h.referred_life href
  exact ⟨x, hx, hpos⟩

lemma LifeInv.freeing_dead (h : LifeInv s) (hk : k ∈ s.todo t) (hfree : k.frees l) :
    ∃ x, s.life l = some x ∧ x.refs = 0 ∧ .mem (.life l x.hostFd) ∈ k.assets := by
  cases k with
  | free l' h' =>
    obtain rfl : l' = l := of_decide_eq_true hfree
    obtain ⟨y, hy, hzero⟩ := h.books.mem_dead (k := .life l' h') (p := .thread t)
      (mem_flatMap.mpr ⟨_, hk, mem_cons_self⟩)
    obtain ⟨x, hx, rfl, rfl⟩ := life_of_obj hy
    exact ⟨x, hx, hzero, mem_cons_self⟩
  | _ => cases hfree

lemma lifeRef_opened (hs : s.lifeRef l = some s') : s'.opened = s.opened := by
  obtain ⟨x, -, rfl⟩ := map_eq_some_iff.mp hs
  rfl

lemma dirRef_opened (hs : s.dirRef d = some s') : s'.opened = s.opened := by
  obtain ⟨x, -, rfl⟩ := map_eq_some_iff.mp hs
  rfl

lemma dirRef_goto_opened (hs : ((s.dirRef d).map fun s' => s'.goto t T) = some s') :
    s'.opened = s.opened := by
  obtain ⟨s1, h1, rfl⟩ := map_eq_some_iff.mp hs
  have hsame := dirRef_opened h1
  exact hsame

lemma birth_opened (hs : s.birth fd spare e = some s') : s'.opened = s.opened := by
  obtain ⟨-, hs⟩ := guarded hs
  split at hs
  · have hsame := dirRef_opened hs
    exact hsame
  · cases hs
    rfl

lemma pinSpare_opened (hs : s.pinSpare t fd spare = some s') : s'.opened = s.opened := by
  unfold LifeSystem.pinSpare at hs
  split at hs
  · cases hs
    rfl
  split at hs
  · cases hs
    rfl
  split at hs
  · obtain ⟨s1, h1, rfl⟩ := map_eq_some_iff.mp hs
    have hsame := lifeRef_opened h1
    exact hsame
  obtain ⟨s2, h2, rfl⟩ := map_eq_some_iff.mp hs
  obtain ⟨s1, h1, h2⟩ := bind_eq_some_iff.mp h2
  have hsame := (lifeRef_opened h2).trans (birth_opened h1)
  exact hsame

lemma closeHost_opened (hopen : (s.closeHost h').opened h) : s.opened h := by
  unfold LifeSystem.closeHost at hopen
  split at hopen
  · grind
  · exact hopen

lemma run_opened (hs : s.run t = some s') (hopen : s'.opened h) : s.opened h := by
  unfold LifeSystem.run at hs
  split at hs
  · split at hs
    · split at hs
      · cases hs
        exact hopen
      · cases hs
        exact hopen
    · cases hs
  · cases hs
    exact closeHost_opened hopen
  · split at hs
    · split at hs
      · cases hs
        exact hopen
      · cases hs
        exact hopen
    · cases hs
  · cases hs
    exact closeHost_opened hopen
  · cases hs
    exact hopen
  · cases hs
    unfold LifeSystem.retirePublished at hopen
    grind [LifeSystem.goto, LifeSystem.setSlot]
  · cases hs

lemma next_opened (hs : s.next act = some s') (hopen : s'.opened h) : s.opened h ∨ 3 ≤ h := by
  unfold LifeSystem.next at hs
  dsimp only at hs
  split at hs
  case h_4 =>
    split at hs
    · rename_i h' _ _ hc
      cases hs
      by_cases heq : h = h'
      · exact .inr (heq ▸ hc.1)
      replace hopen : update s.opened h' true h := hopen
      rw [update_of_ne heq] at hopen
      exact .inl hopen
    · cases hs
  case h_10 | h_11 =>
    split at hs
    · split at hs
      · exact .inl (dirRef_goto_opened hs ▸ hopen)
      · cases hs
    · cases hs
  case h_15 => exact .inl (run_opened hs hopen)
  all_goals
    refine .inl ?_
    grind [pinSpare_opened, LifeSystem.goto, LifeSystem.setSlot, LifeSystem.setStream]

lemma lifeRun_opened (hrun : exec LifeSystem.next LifeSystem.init ls = some s)
    (hopen : s.opened h) : 3 ≤ h := by
  refine exec_keeps (P := fun s => ∀ h, s.opened h → 3 ≤ h) ?_ ?_ hrun h hopen
  · intro s act s' hs hn h hopen
    obtain hold | hnew := next_opened hn hopen
    · exact hs h hold
    · exact hnew
  · intro h hopen
    cases hopen

lemma LifeInv.closing_opened (h : LifeInv s) (hpos : 0 ≤ h') (hk : k ∈ s.todo t)
    (hclose : k.closes h') : s.opened h' := by
  refine h.books.present (j := .other (.thread t)) (mem_flatMap.mpr ⟨k, hk, ?_⟩)
  exact k.closes_assets hpos hclose

/-- In every interleaving of the threads in which no `fd_retire_published` finds a directory with
a stream, descriptors are kept while they are used, and closed once. -/
theorem hostFd_kept {ls : List (ℕ × LifeAct)}
    (hquiet : Meets LifeSystem.next LifeQuiet LifeSystem.init ls)
    (hrun : exec LifeSystem.next LifeSystem.init ls = some s) : HostFdsKept s := by
  have h := lifeRun_inv hquiet hrun
  -- a descriptor is one asset of the books, so only one task can own its close
  have honce : ∀ {h' : ℤ}, 3 ≤ h' → ∀ {t k}, k ∈ s.todo t → k.closes h' →
      s.Once (LifeTask.closes h') := by
    intro h' hh t k hk hclose
    exact h.once (a := .res h') (fun _ k _ => k.closes_assets (by omega)) (Bool.toNat_le _) hk
        hclose
  have hfree : ∀ {l t k}, k ∈ s.todo t → k.frees l → s.Once (LifeTask.frees l) := by
    intro l t k hk hfrees
    obtain ⟨x, hx, -, -⟩ := h.freeing_dead hk hfrees
    refine h.once (a := .mem (.life l x.hostFd)) ?_ ?_ hk hfrees
    · intro u k' hk' hfrees'
      obtain ⟨y, hy, -, hmem⟩ := h.freeing_dead hk' hfrees'
      rw [hx] at hy
      cases hy
      exact hmem
    · rw [State.size, obj_life hx]
      exact le_refl 1
  have hpinned : ∀ l, s.Pins l → ∀ t, ∀ k ∈ s.todo t, k.frees l = false := by
    intro l hp t k hk
    obtain ⟨x, hx, hpos⟩ := h.pins_live hp
    by_contra hfrees
    obtain ⟨y, hy, hzero, -⟩ := h.freeing_dead hk (Bool.eq_true_of_not_eq_false hfrees)
    rw [hx] at hy
    cases hy
    omega
  refine ⟨fun fd e he ht => (h.shape.slots fd e he).other ht, ?_, ?_, ?_, ?_, ?_, ?_, ?_⟩
  · intro t k h' hk hclose
    by_cases hneg : h' < 0
    · exact .inl hneg
    · exact .inr (lifeRun_opened hrun (h.closing_opened (by omega) hk hclose))
  · intro h' hh hu
    obtain ⟨j, hj, -⟩ := h.used_owned hh hu
    exact ⟨h.books.present hj, fun t k hk => h.used_not_closing hh hu hk⟩
  · intro h' hopen hunused
    obtain hu | ⟨t, k, hk, hclose⟩ := h.opened_used hopen
    · exact absurd hu hunused
    · exact honce (lifeRun_opened hrun hopen) hk hclose
  · intro h' hh t k hk hclose
    refine ⟨h.closing_opened (by omega) hk hclose, fun hu => ?_, honce hh hk hclose⟩
    rw [h.used_not_closing hh hu hk] at hclose
    cases hclose
  · intro l hp
    exact ⟨h.pins_live hp, hpinned l hp⟩
  · intro l hlive hp
    cases hx : s.life l with
    | none => exact absurd hx hlive
    | some x =>
      by_cases hzero : x.refs = 0
      · obtain ⟨t, k, hk, hfrees⟩ := h.life_freed hx hzero
        exact hfree hk hfrees
      · exact absurd (h.life_pinned hx (pos_of_ne_zero hzero)).1 hp
  intro l t k hk hfrees
  obtain ⟨x, hx, -, -⟩ := h.freeing_dead hk hfrees
  refine ⟨fun hnone => ?_, fun hp => ?_, hfree hk hfrees⟩
  · rw [hx] at hnone
    cases hnone
  · rw [hpinned l hp t k hk] at hfrees
    cases hfrees

/-- Thread 0 borrows descriptor 5 at slot 3; thread 1 closes the slot, and the descriptor stays open
until the borrow ends. -/
def borrowRun : List (ℕ × LifeAct) :=
  [(1, .openHost 5), (1, .alloc 3 .pipe), (1, .keep), (0, .acquire 3), (0, .pin 3 0), (1, .close 3),
    (1, .run), (0, .run)]

theorem hostFd_kept_borrow :
    ∃ s, exec LifeSystem.next LifeSystem.init borrowRun = some s ∧ s.slot 3 = none ∧
      s.todo 0 = [.close 5, .free 0 5] ∧ s.opened 5 ∧ HostFdsKept s := by
  have hrun : exec LifeSystem.next LifeSystem.init borrowRun = some _ := rfl
  refine ⟨_, hrun, rfl, rfl, rfl, hostFd_kept ?_ hrun⟩
  have hnot : ∀ {s : LifeSystem} {t act}, act ≠ LifeAct.run → LifeQuiet s (t, act) :=
    fun hne heq => absurd heq hne
  have hruns : ∀ {s : LifeSystem} {t k rest}, s.todo t = k :: rest →
      (∀ fd h, k ≠ .retire fd h) → LifeQuiet s (t, .run) := by
    intro s t k rest htodo hk _ fd h rest' htodo'
    rw [htodo] at htodo'
    cases htodo'
    exact absurd rfl (hk fd h)
  refine meets_cons (hnot (by decide)) rfl (meets_cons (hnot (by decide)) rfl
    (meets_cons (hnot (by decide)) rfl (meets_cons (hnot (by decide)) rfl
    (meets_cons (hnot (by decide)) rfl (meets_cons (hnot (by decide)) rfl
    (meets_cons (hruns rfl nofun) rfl
    (meets_cons (hruns rfl nofun) rfl trivial)))))))

/-- Thread 0 has published a pipe's end at slot 3 and is going to retire it. Meanwhile thread 1
closes the slot, opens a directory that gets the same two numbers, and duplicates it to slot 4. -/
def retireRun : List (ℕ × LifeAct) :=
  [(0, .openHost 5), (0, .alloc 3 .pipe), (1, .close 3), (1, .run), (1, .openHost 5),
    (1, .allocDir 3 0), (1, .share 3), (1, .allocAlias 4), (0, .run), (0, .run)]

/-- The retirement closes the descriptor of the duplicate. -/
theorem retire_closes_alias : ∃ s, exec LifeSystem.next LifeSystem.init retireRun = some s ∧
      s.slot 4 = some ⟨.dir, 5, none, some 0⟩ ∧ s.opened 5 = false :=
  ⟨_, rfl, rfl, rfl⟩

end Elfuse
