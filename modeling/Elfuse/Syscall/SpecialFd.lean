/-
Special descriptors and their side tables.

The state of an eventfd, a timerfd or a signalfd is kept beside the descriptor
table and found by the guest's descriptor number. Creating one publishes the
descriptor first and installs the state after; closing one takes the descriptor
out of the table first and releases the state after, under another lock. Here
any number of threads take these steps in any order. A descriptor remembers the
slot that was installed for it, and a slot which installation it holds, what
that put there and who refers to it; the code has none of these, they only serve
to say what the descriptor's own state is.

* `SfdAct`, `SfdSystem.next` — the critical sections under `fd_lock` and
  `sfd_lock`;
* `specialFd_kept` — while a descriptor is open its state is not released, in
  every run in which no number is given out between another thread's removal of
  a descriptor of that kind and its cleanup;
* `eventfd_reused_number` — in that window a close releases the state of the
  descriptor that took over the number.
-/
import Elfuse.Syscall.FdTable

namespace Elfuse

open Function Runs List Option Nat

/-! ### The tables -/

def eventfdMax : ℕ := 32

def timerfdMax : ℕ := 32

def signalfdMax : ℕ := 16

inductive SpecialKind
  | event
  | timer
  | signal
  deriving DecidableEq, Repr

/-- What `fd_table` says of a descriptor. -/
structure SpecialEntry where
  /-- The kind of a special descriptor; none for any other type. -/
  kind : Option SpecialKind
  hostFd : ℤ
  generation : ℕ
  /-- The slot installed for this descriptor, and which installation it was. -/
  bound : Option (ℕ × ℕ)
  deriving DecidableEq, Repr

/-- A slot of `timerfd_state` or `signalfd_state`; `guestFd` is none where the source has -1. -/
structure SideSlot (π : Type) where
  guestFd : Option ℕ
  data : π
  /-- Which installation the slot holds, and what the calls on its descriptor gave it. -/
  inc : ℕ
  given : π

structure TimerData where
  kqFd : ℤ
  clockid : ℕ
  expirations : ℕ
  armed : Bool
  deriving DecidableEq, Repr

structure SignalData where
  pipeRd : ℤ
  pipeWr : ℤ
  mask : BitVec 64
  deriving DecidableEq, Repr

/-- Who holds a reference on an eventfd slot: a descriptor number, or a thread that is making one
its alias. -/
inductive RefHolder
  | fd (n : ℕ)
  | dup (t : ℕ)
  deriving DecidableEq, Repr

/-- A slot of `eventfd_state`. -/
structure EventSlot where
  guestFd : Option ℕ
  refcount : ℤ
  pipeRd : ℤ
  pipeWr : ℤ
  counter : ℕ
  semaphore : Bool
  inc : ℕ
  given : ℤ × ℤ × ℕ × Bool
  holders : List RefHolder

/-- What a create installs. -/
inductive SpecialData
  | event (stateRd pipeWr : ℤ) (initval : ℕ) (semaphore : Bool)
  | timer (clockid : ℕ)
  | signal (pipeWr : ℤ) (mask : BitVec 64)
  deriving DecidableEq, Repr

def SpecialData.kind : SpecialData → SpecialKind
  | .event _ _ _ _ => .event
  | .timer _ => .timer
  | .signal _ _ => .signal

/-- What a thread does after a cleanup: nothing more, or it goes on with `eventfd_dup_fd`. -/
inductive SfdAfter
  | done
  | commit (slot : ℕ) (pipeRd : ℤ) (n : ℕ) (host : ℤ) (generation : ℕ)
  | release (slot : ℕ)
  deriving DecidableEq, Repr

/-- Where a thread is, between its critical sections. -/
inductive SfdPc
  | idle
  | creating (data : SpecialData) (n : ℕ) (host : ℤ) (generation : ℕ)
  /-- A create has found no slot. -/
  | retiring (n : ℕ) (host : ℤ)
  /-- A descriptor is out of the table and its cleanup is due. -/
  | cleaning (n : ℕ) (kind : Option SpecialKind) (rest : SfdAfter)
  /-- `eventfd_dup_fd` has taken a reference. -/
  | dupReserved (slot : ℕ) (pipeRd : ℤ)
  /-- It has published the alias. -/
  | dupCommitting (slot : ℕ) (pipeRd : ℤ) (n : ℕ) (host : ℤ) (generation : ℕ)
  /-- It has found the alias or the source gone. -/
  | dupBailing (slot n : ℕ)
  /-- It gives its reference back. -/
  | dupReleasing (slot : ℕ)
  deriving DecidableEq, Repr

def SfdAfter.pc : SfdAfter → SfdPc
  | .done => .idle
  | .commit slot pipeRd n host generation => .dupCommitting slot pipeRd n host generation
  | .release slot => .dupReleasing slot

structure SpecialFds where
  table : ℕ → Option SpecialEntry
  events : ℕ → EventSlot
  owner : ℕ → Option ℕ
  timers : ℕ → SideSlot TimerData
  signals : ℕ → SideSlot SignalData
  nextGeneration : ℕ
  nextInc : ℕ

/-- The tables and the threads. -/
structure SfdSystem where
  fds : SpecialFds
  pc : ℕ → SfdPc

/-! ### The side tables' functions -/

/-- Model of `sfd_find_slot`, and of `sfd_alloc_slot` when asked for no descriptor. -/
def sfdFindSlot {π : Type} (slots : ℕ → SideSlot π) (count : ℕ) (guestFd : Option ℕ) : Option ℕ :=
  (List.range count).find? fun i => decide ((slots i).guestFd = guestFd)

def eventfdSlotAlloc (s : SpecialFds) : Option ℕ :=
  (List.range eventfdMax).find? fun i => decide ((s.events i).guestFd = none)

/-- Model of `eventfd_release_ref_locked`, of a reference that `h` holds. -/
def EventSlot.releaseRef (e : EventSlot) (h : RefHolder) : EventSlot :=
  if e.refcount - 1 ≤ 0 then
    { e with guestFd := none, counter := 0, refcount := 0, pipeRd := -1, pipeWr := -1
             holders := e.holders.erase h }
  else { e with refcount := e.refcount - 1, holders := e.holders.erase h }

def eventfdClose (s : SpecialFds) (n : ℕ) : SpecialFds :=
  match s.owner n with
  | none => s
  | some slot =>
    { s with
      owner := update s.owner n none
      events := update s.events slot ((s.events slot).releaseRef (.fd n)) }

def timerfdClose (s : SpecialFds) (n : ℕ) : SpecialFds :=
  match sfdFindSlot s.timers timerfdMax (some n) with
  | none => s
  | some i =>
    { s with timers := update s.timers i { s.timers i with
        guestFd := none, data := { (s.timers i).data with expirations := 0, armed := false } } }

def signalfdClose (s : SpecialFds) (n : ℕ) : SpecialFds :=
  match sfdFindSlot s.signals signalfdMax (some n) with
  | none => s
  | some i =>
    { s with signals := update s.signals i { s.signals i with
        guestFd := none, data := { (s.signals i).data with mask := 0 } } }

/-- The type-specific part of `fd_cleanup_entry`. -/
def specialCleanup (s : SpecialFds) (n : ℕ) : Option SpecialKind → SpecialFds
  | none => s
  | some .event => eventfdClose s n
  | some .timer => timerfdClose s n
  | some .signal => signalfdClose s n

/-- The descriptor `n` is still the one of this generation, and now has its state. -/
def bindEntry (s : SpecialFds) (n generation slot inc : ℕ) : ℕ → Option SpecialEntry :=
  match s.table n with
  | none => s.table
  | some e =>
    if e.generation = generation then
      update s.table n (some { e with bound := some (slot, inc) })
    else s.table

/-- The part of a create under `sfd_lock`; none where the side table is full. -/
def sfdInstall (s : SpecialFds) (data : SpecialData) (n : ℕ) (host : ℤ) (generation : ℕ) :
    Option SpecialFds :=
  match data with
  | .event stateRd pipeWr initval semaphore =>
    (eventfdSlotAlloc s).map fun slot =>
      { s with
        events := update s.events slot
          ⟨some n, 1, stateRd, pipeWr, initval, semaphore, s.nextInc,
            (stateRd, pipeWr, initval, semaphore), [.fd n]⟩
        owner := update s.owner n (some slot)
        table := bindEntry s n generation slot s.nextInc
        nextInc := s.nextInc + 1 }
  | .timer clockid =>
    (sfdFindSlot s.timers timerfdMax none).map fun slot =>
      { s with
        timers := update s.timers slot
          ⟨some n, ⟨host, clockid, 0, false⟩, s.nextInc, ⟨host, clockid, 0, false⟩⟩
        table := bindEntry s n generation slot s.nextInc
        nextInc := s.nextInc + 1 }
  | .signal pipeWr mask =>
    (sfdFindSlot s.signals signalfdMax none).map fun slot =>
      { s with
        signals := update s.signals slot
          ⟨some n, ⟨host, pipeWr, mask⟩, s.nextInc, ⟨host, pipeWr, mask⟩⟩
        table := bindEntry s n generation slot s.nextInc
        nextInc := s.nextInc + 1 }

/-! ### Critical sections -/

def SpecialFds.lowestFree (s : SpecialFds) (minfd n : ℕ) : Bool :=
  decide (n < fdTableSize ∧ minfd ≤ n ∧ s.table n = none ∧
    ∀ k < n, minfd ≤ k → s.table k ≠ none)

/-- A thread's next critical section. -/
inductive SfdAct
  /-- `sys_eventfd2`, `sys_timerfd_create` or `sys_signalfd4` publishes its descriptor. -/
  | alloc (data : SpecialData) (n : ℕ) (host : ℤ)
  /-- It installs its state, or finds the side table full. -/
  | install
  /-- It takes its descriptor back with `fd_retire_published`. -/
  | retire
  /-- A descriptor of another type is opened. -/
  | openPlain (n : ℕ) (host : ℤ)
  /-- `fd_snapshot_and_close`. -/
  | remove (n : ℕ)
  /-- `fd_cleanup_entry`. -/
  | cleanup
  /-- `eventfd_dup_fd` checks its source against the caller's snapshot and takes a reference. -/
  | reserve (src : ℕ) (host : ℤ) (generation : ℕ)
  | publish (minfd n : ℕ) (host : ℤ)
  /-- It publishes the alias at a given number. -/
  | publishAt (n : ℕ) (host : ℤ)
  /-- It gets no number. -/
  | publishFails
  /-- It makes the reference the alias's own, or finds that it cannot. -/
  | commit
  /-- It takes back what is at the alias's number. -/
  | bail
  /-- It gives its reference back. -/
  | release
  /-- `sys_signalfd4` on a signalfd changes its mask. -/
  | setMask (n : ℕ) (mask : BitVec 64)
  deriving DecidableEq, Repr

/-- Put a new descriptor at `n`. -/
def SpecialFds.publish (s : SpecialFds) (n : ℕ) (kind : Option SpecialKind) (host : ℤ) :
    SpecialFds :=
  { s with
    table := update s.table n (some ⟨kind, host, s.nextGeneration, none⟩)
    nextGeneration := s.nextGeneration + 1 }

def SpecialFds.remove (s : SpecialFds) (n : ℕ) : SpecialFds :=
  { s with table := update s.table n none }

/-- The check of `eventfd_dup_fd` on its source. -/
def SpecialFds.dupSource (s : SpecialFds) (src : ℕ) (host : ℤ) (generation : ℕ) : Option ℕ :=
  match s.owner src, s.table src with
  | some slot, some e =>
    if e.kind = some .event ∧ e.hostFd = host ∧ e.generation = generation ∧
        0 < (s.events slot).refcount then some slot
    else none
  | _, _ => none

/-- The reference `eventfd_dup_fd` takes. -/
def SpecialFds.dupReserve (s : SpecialFds) (t slot : ℕ) : SpecialFds :=
  let e := s.events slot
  { s with
    events := update s.events slot
      { e with refcount := e.refcount + 1, holders := .dup t :: e.holders } }

/-- The reference `eventfd_dup_fd` gives back. -/
def SpecialFds.dupRelease (s : SpecialFds) (t slot : ℕ) : SpecialFds :=
  { s with
    events := update s.events slot ((s.events slot).releaseRef (.dup t)) }

/-- The check of `eventfd_dup_fd` before it commits. -/
def SpecialFds.dupIntact (s : SpecialFds) (slot : ℕ) (pipeRd : ℤ) (n : ℕ) (host : ℤ) : Bool :=
  match s.table n with
  | some e => decide (e.kind = some .event ∧ e.hostFd = host ∧ 0 < (s.events slot).refcount ∧
      (s.events slot).pipeRd = pipeRd)
  | none => false

/-- The commit of `eventfd_dup_fd`. -/
def SpecialFds.dupBind (s : SpecialFds) (t slot n generation : ℕ) : SpecialFds :=
  let e := s.events slot
  { s with
    owner := update s.owner n (some slot)
    events := update s.events slot
      { e with holders := .fd n :: e.holders.erase (.dup t) }
    table := bindEntry s n generation slot e.inc }

def SpecialFds.setMask (s : SpecialFds) (i : ℕ) (mask : BitVec 64) : SpecialFds :=
  { s with
    signals := update s.signals i
      { s.signals i with
        data := { (s.signals i).data with mask := mask }
        given := { (s.signals i).given with mask := mask } } }

/-- Thread `t` has changed the tables and goes on. -/
def SfdSystem.goto (s : SfdSystem) (t : ℕ) (fds : SpecialFds) (pc : SfdPc) : SfdSystem :=
  ⟨fds, update s.pc t pc⟩

/-- One critical section of thread `t`. -/
def SfdSystem.next (s : SfdSystem) (l : ℕ × SfdAct) : Option SfdSystem :=
  let t := l.1
  let fds := s.fds
  match s.pc t, l.2 with
  | .idle, .alloc data n host =>
    if fds.lowestFree 0 n then
      some (s.goto t (fds.publish n (some data.kind) host)
        (.creating data n host fds.nextGeneration))
    else none
  | .creating data n host generation, .install =>
    match sfdInstall fds data n host generation with
    | some fds' => some (s.goto t fds' .idle)
    | none => some (s.goto t fds (.retiring n host))
  | .retiring n host, .retire =>
    match fds.table n with
    | some e => some (s.goto t (if e.hostFd = host then fds.remove n else fds) .idle)
    | none => some (s.goto t fds .idle)
  | .idle, .openPlain n host =>
    if fds.lowestFree 0 n then some (s.goto t (fds.publish n none host) .idle) else none
  | .idle, .remove n =>
    match fds.table n with
    | some e => some (s.goto t (fds.remove n) (.cleaning n e.kind .done))
    | none => none
  | .cleaning n kind rest, .cleanup => some (s.goto t (specialCleanup fds n kind) rest.pc)
  | .idle, .reserve src host generation =>
    match fds.dupSource src host generation with
    | some slot =>
      some (s.goto t (fds.dupReserve t slot) (.dupReserved slot (fds.events slot).pipeRd))
    | none => none
  | .dupReserved slot pipeRd, .publish minfd n host =>
    if fds.lowestFree minfd n then
      some (s.goto t (fds.publish n (some .event) host)
        (.dupCommitting slot pipeRd n host fds.nextGeneration))
    else none
  | .dupReserved slot pipeRd, .publishAt n host =>
    if n < fdTableSize then
      let rest := SfdAfter.commit slot pipeRd n host fds.nextGeneration
      match fds.table n with
      | some old => some (s.goto t (fds.publish n (some .event) host) (.cleaning n old.kind rest))
      | none => some (s.goto t (fds.publish n (some .event) host) rest.pc)
    else none
  | .dupReserved slot _, .publishFails => some (s.goto t fds (.dupReleasing slot))
  | .dupCommitting slot pipeRd n host generation, .commit =>
    if fds.dupIntact slot pipeRd n host then
      some (s.goto t (fds.dupBind t slot n generation) .idle)
    else some (s.goto t fds (.dupBailing slot n))
  | .dupBailing slot n, .bail =>
    match fds.table n with
    | some e => some (s.goto t (fds.remove n) (.cleaning n e.kind (.release slot)))
    | none => some (s.goto t fds (.dupReleasing slot))
  | .dupReleasing slot, .release => some (s.goto t (fds.dupRelease t slot) .idle)
  | .idle, .setMask n mask =>
    match sfdFindSlot fds.signals signalfdMax (some n) with
    | some i => some (s.goto t (fds.setMask i mask) .idle)
    | none => none
  | _, _ => none

/-- The standard streams are open and the side tables are empty. -/
def SpecialFds.init : SpecialFds :=
  { table := fun n => if n < 3 then some ⟨none, n, n + 1, none⟩ else none
    events := fun _ => ⟨none, 0, -1, -1, 0, false, 0, (-1, -1, 0, false), []⟩
    owner := fun _ => none
    timers := fun _ => ⟨none, ⟨-1, 0, 0, false⟩, 0, ⟨-1, 0, 0, false⟩⟩
    signals := fun _ => ⟨none, ⟨-1, -1, 0⟩, 0, ⟨-1, -1, 0⟩⟩
    nextGeneration := 4
    nextInc := 0 }

def SfdSystem.init : SfdSystem := ⟨SpecialFds.init, fun _ => .idle⟩

/-! ### The invariant -/

def SfdAfter.holds : SfdAfter → Option ℕ
  | .done => none
  | .commit slot _ _ _ _ => some slot
  | .release slot => some slot

def SfdPc.holds : SfdPc → Option ℕ
  | .cleaning _ _ rest => rest.holds
  | .dupReserved slot _ => some slot
  | .dupCommitting slot _ _ _ _ => some slot
  | .dupBailing slot _ => some slot
  | .dupReleasing slot => some slot
  | _ => none

/-- The generation of the descriptor a thread has published and not yet given its state. -/
def SfdAfter.generation : SfdAfter → Option ℕ
  | .commit _ _ _ _ generation => some generation
  | _ => none

def SfdPc.generation : SfdPc → Option ℕ
  | .creating _ _ _ generation => some generation
  | .cleaning _ _ rest => rest.generation
  | .dupCommitting _ _ _ _ generation => some generation
  | _ => none

def SfdPc.kind : SfdPc → SpecialKind
  | .creating data _ _ _ => data.kind
  | _ => .event

@[simp]
lemma SfdAfter.holds_pc (rest : SfdAfter) : rest.pc.holds = rest.holds := by
  cases rest <;> rfl

@[simp]
lemma SfdAfter.generation_pc (rest : SfdAfter) : rest.pc.generation = rest.generation := by
  cases rest <;> rfl

lemma SfdAfter.kind_pc (rest : SfdAfter) : rest.pc.kind = .event := by
  cases rest <;> rfl

lemma SfdAfter.pc_ne_cleaning (rest rest' : SfdAfter) (n : ℕ) (kind : Option SpecialKind) :
    rest.pc ≠ .cleaning n kind rest' := by
  cases rest <;> exact SfdPc.noConfusion

/-- The references of an eventfd slot are counted, a slot without any is free, and a slot in use
holds what its create gave it. -/
structure EventSlot.Counted (e : EventSlot) : Prop where
  refcount : e.refcount = e.holders.length
  free : e.guestFd = none ↔ e.holders = []
  intact : e.holders ≠ [] → e.given = (e.pipeRd, e.pipeWr, e.counter, e.semaphore)

def SideSlot.Intact {π : Type} (slot : SideSlot π) : Prop :=
  slot.guestFd ≠ none → slot.data = slot.given

def SpecialFds.Live (s : SpecialFds) (n slot inc : ℕ) : Option SpecialKind → Prop
  | none => False
  | some .event => (s.events slot).inc = inc ∧ .fd n ∈ (s.events slot).holders
  | some .timer => (s.timers slot).inc = inc ∧ (s.timers slot).guestFd = some n
  | some .signal => (s.signals slot).inc = inc ∧ (s.signals slot).guestFd = some n

structure SfdInv (s : SpecialFds) (pc : ℕ → SfdPc) : Prop where
  counted : ∀ slot, (s.events slot).Counted
  timer_intact : ∀ slot, (s.timers slot).Intact
  signal_intact : ∀ slot, (s.signals slot).Intact
  owner_holds : ∀ n slot, s.owner n = some slot → .fd n ∈ (s.events slot).holders
  dup_holds : ∀ t slot, (pc t).holds = some slot → .dup t ∈ (s.events slot).holders
  /-- A descriptor's own state is there while it is open. -/
  kept : ∀ n e slot inc, s.table n = some e → e.bound = some (slot, inc) → s.Live n slot inc e.kind
  /-- A cleanup that would find an open descriptor's state belongs to the thread that has just
  published this descriptor over another one. -/
  pending : ∀ t n k rest e, pc t = .cleaning n (some k) rest → s.table n = some e →
    e.kind = some k → rest.generation = some e.generation
  /-- A descriptor whose thread is still at work on it has no state yet. -/
  unbound : ∀ t n e, s.table n = some e → (pc t).generation = some e.generation →
    e.bound = none ∧ e.kind = some (pc t).kind
  pc_lt : ∀ t g, (pc t).generation = some g → g < s.nextGeneration
  table_lt : ∀ n e, s.table n = some e → e.generation < s.nextGeneration
  pc_inj : ∀ t t' g, (pc t).generation = some g → (pc t').generation = some g → t = t'

lemma SfdInv.init : SfdInv SpecialFds.init fun _ => .idle := by
  have htable : ∀ n e, SpecialFds.init.table n = some e → n < 3 ∧ e = ⟨none, n, n + 1, none⟩ := by
    intro n e h
    by_cases hn : n < 3
    · exact ⟨hn, (some.inj ((if_pos hn).symm.trans h)).symm⟩
    · exact absurd ((if_neg hn).symm.trans h) (by simp)
  constructor
  case counted => exact fun _ => ⟨rfl, ⟨fun _ => rfl, fun _ => rfl⟩, fun h => absurd rfl h⟩
  case timer_intact => exact fun _ h => absurd rfl h
  case signal_intact => exact fun _ h => absurd rfl h
  case owner_holds => exact nofun
  case dup_holds => exact nofun
  case kept =>
    intro n e slot inc he hb
    rw [(htable n e he).2] at hb
    cases hb
  case pending => exact nofun
  case unbound => exact nofun
  case pc_lt => exact nofun
  case table_lt =>
    intro n e he
    obtain ⟨hn, rfl⟩ := htable n e he
    show n + 1 < 4
    omega
  case pc_inj => exact nofun

/-! ### Threads going on -/

structure PcOk (s : SpecialFds) (pc : ℕ → SfdPc) (t : ℕ) (p : SfdPc) : Prop where
  holds : ∀ slot, p.holds = some slot → .dup t ∈ (s.events slot).holders
  pending : ∀ n k rest e, p = .cleaning n (some k) rest → s.table n = some e →
    e.kind = some k → rest.generation = some e.generation
  unbound : ∀ n e, s.table n = some e → p.generation = some e.generation →
    e.bound = none ∧ e.kind = some p.kind
  lt : ∀ g, p.generation = some g → g < s.nextGeneration
  own : ∀ g t', p.generation = some g → t' ≠ t → (pc t').generation ≠ some g

variable {s : SpecialFds} {pc : ℕ → SfdPc}

variable {p : SfdPc} {t : ℕ}

lemma SfdInv.goto (hi : SfdInv s pc) (hp : PcOk s pc t p) : SfdInv s (update pc t p) := by
  have hself : update pc t p t = p := update_self _ _ _
  have hother : ∀ t', t' ≠ t → update pc t p t' = pc t' := fun t' h =>
    update_of_ne h _ _
  refine { hi with dup_holds := ?_, pending := ?_, unbound := ?_, pc_lt := ?_, pc_inj := ?_ }
  · intro t' slot h
    by_cases ht : t' = t
    · rw [ht] at h ⊢
      rw [hself] at h
      exact hp.holds slot h
    · rw [hother t' ht] at h
      exact hi.dup_holds t' slot h
  · exact (forall_update_iff _ fun _ q => ∀ n k rest e, q = SfdPc.cleaning n (some k) rest →
      s.table n = some e → e.kind = some k → rest.generation = some e.generation).mpr
      ⟨hp.pending, fun t' _ => hi.pending t'⟩
  · exact (forall_update_iff _ fun _ q => ∀ n e, s.table n = some e →
      SfdPc.generation q = some e.generation → e.bound = none ∧ e.kind = some q.kind).mpr
      ⟨hp.unbound, fun t' _ => hi.unbound t'⟩
  · exact (forall_update_iff _ fun _ q => ∀ g, SfdPc.generation q = some g →
      g < s.nextGeneration).mpr ⟨hp.lt, fun t' _ => hi.pc_lt t'⟩
  intro t1 t2 g h1 h2
  by_cases ht1 : t1 = t
  · by_cases ht2 : t2 = t
    · rw [ht1, ht2]
    rw [ht1, hself] at h1
    rw [hother t2 ht2] at h2
    exact absurd h2 (hp.own g t2 h1 ht2)
  by_cases ht2 : t2 = t
  · rw [ht2, hself] at h2
    rw [hother t1 ht1] at h1
    exact absurd h1 (hp.own g t1 h2 ht1)
  rw [hother t1 ht1] at h1
  rw [hother t2 ht2] at h2
  exact hi.pc_inj t1 t2 g h1 h2

lemma PcOk.idle (s : SpecialFds) (pc : ℕ → SfdPc) (t : ℕ) : PcOk s pc t .idle :=
  ⟨nofun, nofun, nofun, nofun, nofun⟩

variable {slot : ℕ}

lemma PcOk.of_none (hg : p.generation = none)
    (hh : ∀ slot, p.holds = some slot → .dup t ∈ (s.events slot).holders)
    (hc : ∀ n k rest e, p = .cleaning n (some k) rest → s.table n = some e →
      e.kind = some k → rest.generation = some e.generation) : PcOk s pc t p := by
  refine ⟨hh, hc, ?_, ?_, ?_⟩ <;> simp [hg]

lemma PcOk.of_holds (hh : p.holds = some slot) (hg : p.generation = none)
    (hc : ∀ n k rest, p ≠ .cleaning n k rest) (hd : .dup t ∈ (s.events slot).holders) :
    PcOk s pc t p := by
  refine .of_none hg (fun slot' h => ?_) fun n k rest _ h => absurd h (hc n (some k) rest)
  rw [hh] at h
  cases h
  exact hd

lemma SfdInv.resume (hi : SfdInv s (update pc t .idle)) (hp : PcOk s pc t p) :
    SfdInv s (update pc t p) := by
  have hp' : PcOk s (update pc t .idle) t p := by
    refine ⟨hp.holds, hp.pending, hp.unbound, hp.lt, ?_⟩
    intro g t' h ht
    rw [update_of_ne ht]
    exact hp.own g t' h ht
  have h := hi.goto hp'
  rw [update_idem] at h
  exact h

/-! ### The tables under each operation -/

lemma SpecialFds.publish_self (n : ℕ) (kind : Option SpecialKind) (host : ℤ) :
    (s.publish n kind host).table n = some ⟨kind, host, s.nextGeneration, none⟩ :=
  update_self _ _ _

variable {m n : ℕ}

lemma SpecialFds.publish_other (h : m ≠ n) (kind : Option SpecialKind) (host : ℤ) :
    (s.publish n kind host).table m = s.table m :=
  update_of_ne h _ _

variable {k : SpecialKind}

/-- A new descriptor, unless a cleanup of that kind is still due at its number. -/
lemma SfdInv.publish (hi : SfdInv s pc) (host : ℤ)
    (hq : ∀ t k rest, kind = some k → pc t ≠ .cleaning n (some k) rest) :
    SfdInv (s.publish n kind host) pc := by
  have hold : ∀ t, (pc t).generation ≠ some s.nextGeneration := fun t h =>
    absurd (hi.pc_lt t _ h) (lt_irrefl _)
  -- the new entry, or an old one
  have hentry : ∀ {m e}, (s.publish n kind host).table m = some e →
      m = n ∧ e = ⟨kind, host, s.nextGeneration, none⟩ ∨ s.table m = some e := by
    intro m e he
    by_cases hm : m = n
    · rw [hm, SpecialFds.publish_self] at he
      cases he
      exact .inl ⟨hm, rfl⟩
    · exact .inr (SpecialFds.publish_other hm kind host ▸ he)
  refine { hi with kept := ?_, pending := ?_, unbound := ?_, pc_lt := ?_, table_lt := ?_ }
  · intro m e slot inc he hb
    obtain ⟨-, rfl⟩ | he := hentry he
    · cases hb
    · exact hi.kept m e slot inc he hb
  · intro t m k rest e h he hk
    obtain ⟨rfl, rfl⟩ | he := hentry he
    · exact absurd h (hq t k rest hk)
    · exact hi.pending t m k rest e h he hk
  · intro t m e he h
    obtain ⟨-, rfl⟩ | he := hentry he
    · exact absurd h (hold t)
    · exact hi.unbound t m e he h
  · exact fun t g h => lt_succ_of_lt (hi.pc_lt t g h)
  intro m e he
  obtain ⟨-, rfl⟩ | he := hentry he
  · exact lt_succ_self _
  · exact lt_succ_of_lt (hi.table_lt m e he)

lemma SpecialFds.remove_some (h : (s.remove n).table m = some e) : m ≠ n ∧ s.table m = some e := by
  by_cases hm : m = n
  · rw [hm, show (s.remove n).table n = none from update_self _ _ _] at h
    cases h
  · exact ⟨hm, (update_of_ne hm _ _).symm.trans h⟩

lemma SfdInv.remove (hi : SfdInv s pc) (n : ℕ) : SfdInv (s.remove n) pc :=
  { hi with
    kept := fun m e slot inc he => hi.kept m e slot inc (SpecialFds.remove_some he).2
    pending := fun t m k rest e h he => hi.pending t m k rest e h (SpecialFds.remove_some he).2
    unbound := fun t m e he => hi.unbound t m e (SpecialFds.remove_some he).2
    table_lt := fun m e he => hi.table_lt m e (SpecialFds.remove_some he).2 }

lemma SfdInv.live (hi : SfdInv s pc) (he : s.table m = some e)
    (hk : e.kind = some k) (hb : e.bound = some (slot, inc)) : s.Live m slot inc (some k) :=
  hk ▸ hi.kept m e slot inc he hb

/-- A slot of the eventfd table changes; who still needs a reference keeps it. -/
lemma SfdInv.setEvent (hi : SfdInv s pc) (slot : ℕ) (ev : EventSlot) (hc : ev.Counted)
    (howner : ∀ m, s.owner m = some slot → .fd m ∈ ev.holders)
    (hdup : ∀ t, (pc t).holds = some slot → .dup t ∈ ev.holders)
    (hbound : ∀ m e inc, s.table m = some e → e.kind = some .event →
      e.bound = some (slot, inc) → ev.inc = inc ∧ .fd m ∈ ev.holders) :
    SfdInv { s with events := update s.events slot ev } pc := by
  refine { hi with counted := ?_, owner_holds := ?_, dup_holds := ?_, kept := ?_ }
  · exact (forall_update_iff _ fun _ ev => EventSlot.Counted ev).mpr ⟨hc, fun i _ => hi.counted i⟩
  · exact fun m => (forall_update_iff s.events fun i ev => s.owner m = some i → .fd m ∈
      ev.holders).mpr
      ⟨howner m, fun i _ => hi.owner_holds m i⟩
  · exact fun t => (forall_update_iff s.events fun i ev =>
      (pc t).holds = some i → .dup t ∈ ev.holders).mpr ⟨hdup t, fun i _ => hi.dup_holds t i⟩
  intro m e i inc he hb
  have hlive := hi.kept m e i inc he hb
  cases hk : e.kind with
  | none =>
    rw [hk] at hlive
    exact hlive
  | some k =>
    rw [hk] at hlive
    cases k with
    | event =>
      exact (forall_update_iff s.events fun i ev => e.bound = some (i, inc) →
        ev.inc = inc ∧ RefHolder.fd m ∈ ev.holders).mpr
          ⟨hbound m e inc he hk, fun i _ hb => hi.live he hk hb⟩ i hb
    | _ => exact hlive

/-- The timerfd and signalfd tables change; the slots of open descriptors are as they were. -/
lemma SfdInv.setSides (hi : SfdInv s pc) (ht : ∀ i, (timers i).Intact)
    (hs : ∀ i, (signals i).Intact)
    (htimer : ∀ m e i inc, s.table m = some e → e.kind = some .timer → e.bound = some (i, inc) →
      (timers i).inc = inc ∧ (timers i).guestFd = some m)
    (hsignal : ∀ m e i inc, s.table m = some e → e.kind = some .signal →
      e.bound = some (i, inc) → (signals i).inc = inc ∧ (signals i).guestFd = some m) :
    SfdInv { s with timers := timers, signals := signals } pc := by
  refine { hi with timer_intact := ht, signal_intact := hs, kept := ?_ }
  intro m e i inc he hb
  have hlive := hi.kept m e i inc he hb
  cases hkind : e.kind with
  | none =>
    rw [hkind] at hlive
    exact hlive
  | some k =>
    rw [hkind] at hlive
    cases k with
    | event => exact hlive
    | timer => exact htimer m e i inc he hkind hb
    | signal => exact hsignal m e i inc he hkind hb

variable {π : Type} {slots : ℕ → SideSlot π}

lemma SideSlot.intact_update (h : ∀ j, (slots j).Intact) (hnew : new.Intact) (i j : ℕ) :
    (update slots i new j).Intact := by
  grind

variable {inc i : ℕ}

lemma SideSlot.live_update (new : SideSlot π)
    (hlive : (slots j).inc = inc ∧ (slots j).guestFd = some m) (hne : (slots i).guestFd ≠ some m) :
    (update slots i new j).inc = inc ∧ (update slots i new j).guestFd = some m := by
  grind

lemma sfdFindSlot_guestFd {count : ℕ} {guestFd : Option ℕ}
    (h : sfdFindSlot slots count guestFd = some i) : (slots i).guestFd = guestFd := by
  simpa using find?_some h

lemma SfdInv.setTimer (hi : SfdInv s pc) (i : ℕ) (new : SideSlot TimerData) (hnew : new.Intact)
    (hfree : ∀ m e slot inc, s.table m = some e → e.kind = some .timer →
      e.bound = some (slot, inc) → (s.timers i).guestFd ≠ some m) :
    SfdInv { s with timers := update s.timers i new } pc := by
  refine hi.setSides (SideSlot.intact_update hi.timer_intact hnew i) hi.signal_intact ?_ ?_
  · intro m e j inc he hk hb
    exact SideSlot.live_update new (hi.live he hk hb) (hfree m e j inc he hk hb)
  · exact fun m e j inc he hk hb => hi.live he hk hb

lemma SfdInv.setSignal (hi : SfdInv s pc) (i : ℕ) (new : SideSlot SignalData) (hnew : new.Intact)
    (hfree : ∀ m e slot inc, s.table m = some e → e.kind = some .signal →
      e.bound = some (slot, inc) → (s.signals i).guestFd ≠ some m) :
    SfdInv { s with signals := update s.signals i new } pc := by
  refine hi.setSides hi.timer_intact (SideSlot.intact_update hi.signal_intact hnew i) ?_ ?_
  · exact fun m e j inc he hk hb => hi.live he hk hb
  · intro m e j inc he hk hb
    exact SideSlot.live_update new (hi.live he hk hb) (hfree m e j inc he hk hb)

lemma SfdInv.setOwner (hi : SfdInv s pc)
    (ho : ∀ slot, o = some slot → .fd n ∈ (s.events slot).holders) :
    SfdInv { s with owner := update s.owner n o } pc := by
  refine { hi with owner_holds := ?_ }
  intro m slot h
  change update s.owner n o m = some slot at h
  by_cases hm : m = n
  · grind
  · rw [update_of_ne hm] at h
    exact hi.owner_holds m slot h

/-! ### Closing -/

lemma EventSlot.releaseRef_holders (e : EventSlot) (h : RefHolder) :
    (e.releaseRef h).holders = e.holders.erase h := by
  unfold EventSlot.releaseRef
  split <;> rfl

lemma EventSlot.releaseRef_inc (e : EventSlot) (h : RefHolder) : (e.releaseRef h).inc = e.inc := by
  unfold EventSlot.releaseRef
  split <;> rfl

variable {e : EventSlot} {h : RefHolder}

lemma EventSlot.Counted.releaseRef (hc : e.Counted) (hh : h ∈ e.holders) :
    (e.releaseRef h).Counted := by
  have hlen : (e.holders.erase h).length + 1 = e.holders.length := by
    grind
  have href := hc.refcount
  unfold EventSlot.releaseRef
  split
  · have hnil : e.holders.erase h = [] := eq_nil_of_length_eq_zero (by omega)
    refine ⟨?_, ⟨fun _ => hnil, fun _ => rfl⟩, fun hne => absurd hnil hne⟩
    simp [hnil]
  have hne : e.holders.erase h ≠ [] := by
    grind
  have hne' : e.holders ≠ [] := ne_nil_of_mem hh
  refine ⟨?_, ⟨fun hg => absurd (hc.free.mp hg) hne', fun hnil => absurd hnil hne⟩,
    fun _ => hc.intact hne'⟩
  grind

lemma SfdInv.eventfdClose (hi : SfdInv s pc)
    (hn : ∀ e, s.table n = some e → e.kind = some .event → e.bound = none) :
    SfdInv (eventfdClose s n) pc := by
  unfold Elfuse.eventfdClose
  cases ho : s.owner n with
  | none => exact hi
  | some slot =>
    have hmem := hi.owner_holds n slot ho
    have hi' : SfdInv { s with owner := update s.owner n none } pc :=
      hi.setOwner (nofun)
    refine hi'.setEvent slot _ ((hi.counted slot).releaseRef hmem) ?_ ?_ ?_
    · intro m hm
      change update s.owner n none m = some slot at hm
      have hne : m ≠ n := by
        grind
      rw [update_of_ne hne] at hm
      rw [EventSlot.releaseRef_holders]
      exact (mem_erase_of_ne (by simpa using hne)).mpr (hi.owner_holds m slot hm)
    · intro t ht
      rw [EventSlot.releaseRef_holders]
      exact (mem_erase_of_ne (by simp)).mpr (hi.dup_holds t slot ht)
    intro m e inc he hk hb
    have hne : m ≠ n := by
      grind
    have hlive := hi.live he hk hb
    rw [EventSlot.releaseRef_holders, EventSlot.releaseRef_inc]
    exact ⟨hlive.1, (mem_erase_of_ne (by simpa using hne)).mpr hlive.2⟩

lemma SfdInv.timerfdClose (hi : SfdInv s pc)
    (hn : ∀ e, s.table n = some e → e.kind = some .timer → e.bound = none) :
    SfdInv (timerfdClose s n) pc := by
  unfold Elfuse.timerfdClose
  cases hf : sfdFindSlot s.timers timerfdMax (some n) with
  | none => exact hi
  | some i =>
    refine hi.setTimer i _ (fun h => absurd rfl h) ?_
    grind [sfdFindSlot_guestFd]

lemma SfdInv.signalfdClose (hi : SfdInv s pc)
    (hn : ∀ e, s.table n = some e → e.kind = some .signal → e.bound = none) :
    SfdInv (signalfdClose s n) pc := by
  unfold Elfuse.signalfdClose
  cases hf : sfdFindSlot s.signals signalfdMax (some n) with
  | none => exact hi
  | some i =>
    refine hi.setSignal i _ (fun h => absurd rfl h) ?_
    grind [sfdFindSlot_guestFd]

lemma SfdInv.cleanup (hi : SfdInv s pc)
    (hn : ∀ k e, kind = some k → s.table n = some e → e.kind = some k → e.bound = none) :
    SfdInv (specialCleanup s n kind) pc := by
  cases kind with
  | none => exact hi
  | some k =>
    cases k with
    | event => exact hi.eventfdClose (hn _ · rfl)
    | timer => exact hi.timerfdClose (hn _ · rfl)
    | signal => exact hi.signalfdClose (hn _ · rfl)

/-! ### Creating and duplicating -/

variable {rest : SfdAfter}

lemma bindEntry_some (h : bindEntry s n g slot inc m = some e') :
    ∃ e, s.table m = some e ∧ e'.kind = e.kind ∧ e'.generation = e.generation ∧
      (e' = e ∨ m = n ∧ e.generation = g ∧ e'.bound = some (slot, inc)) := by
  unfold bindEntry at h
  cases hn : s.table n with
  | none =>
    rw [hn] at h
    exact ⟨e', h, rfl, rfl, .inl rfl⟩
  | some e =>
    rw [hn] at h
    dsimp only at h
    split at h
    · grind
    · exact ⟨e', h, rfl, rfl, .inl rfl⟩

lemma SfdInv.bind (hi : SfdInv s pc) (nextInc : ℕ) (hg : ∀ t, (pc t).generation ≠ some g)
    (hlive : ∀ e, s.table n = some e → e.generation = g → s.Live n slot inc e.kind) :
    SfdInv { s with table := bindEntry s n g slot inc, nextInc := nextInc } pc := by
  refine { hi with kept := ?_, pending := ?_, unbound := ?_, table_lt := ?_ }
  · intro m e' i j he hb
    obtain ⟨e, hm, hk, -, rfl | ⟨rfl, heg, hb'⟩⟩ := bindEntry_some he
    · exact hi.kept m e' i j hm hb
    rw [hb'] at hb
    cases hb
    rw [hk]
    exact hlive e hm heg
  · intro t m k rest e' h he hk
    obtain ⟨e, hm, hk', hg', -⟩ := bindEntry_some he
    rw [hg']
    exact hi.pending t m k rest e h hm (hk' ▸ hk)
  · intro t m e' he h
    obtain ⟨e, hm, hk, hg', rfl | ⟨-, heg, -⟩⟩ := bindEntry_some he
    · exact hi.unbound t m e' hm h
    · rw [hg', heg] at h
      exact absurd h (hg t)
  · intro m e' he
    obtain ⟨e, hm, -, hg', -⟩ := bindEntry_some he
    rw [hg']
    exact hi.table_lt m e hm

lemma SfdInv.install (hi : SfdInv s pc) {data : SpecialData} (hg : ∀ t, (pc t).generation ≠ some g)
    (hk : ∀ e, s.table n = some e → e.generation = g → e.kind = some data.kind)
    (h : sfdInstall s data n host g = some s') : SfdInv s' pc := by
  cases data with
  | event stateRd pipeWr initval semaphore =>
    obtain ⟨slot, hslot, rfl⟩ := map_eq_some_iff.mp h
    have hfree : (s.events slot).holders = [] := by
      exact (hi.counted slot).free.mp (by simpa using find?_some hslot)
    have hempty : ∀ x, x ∉ (s.events slot).holders := by
      intro x hx
      rw [hfree] at hx
      cases hx
    have hi1 := hi.setEvent slot ⟨some n, 1, stateRd, pipeWr, initval, semaphore, s.nextInc,
        (stateRd, pipeWr, initval, semaphore), [.fd n]⟩
      ⟨rfl, by simp, fun _ => rfl⟩
      (fun m hm => absurd (hi.owner_holds m slot hm) (hempty _))
      (fun t ht => absurd (hi.dup_holds t slot ht) (hempty _))
      (fun m e inc he hke hb => by
        exact absurd (hi.live he hke hb).2 (hempty _))
    have hi2 := hi1.setOwner (n := n) (o := some slot) (by
      intro slot' heq
      cases heq
      simp)
    refine hi2.bind _ hg ?_
    intro e he heg
    rw [hk e he heg]
    show (update s.events slot _ slot).inc = _ ∧
      _ ∈ (update s.events slot _ slot).holders
    simp
  | timer clockid =>
    obtain ⟨slot, hslot, rfl⟩ := map_eq_some_iff.mp h
    have hfree := sfdFindSlot_guestFd hslot
    have hi1 := hi.setTimer slot
      ⟨some n, ⟨host, clockid, 0, false⟩, s.nextInc, ⟨host, clockid, 0, false⟩⟩
      (fun _ => rfl) (fun m _ _ _ _ _ _ hm => by
        rw [hfree] at hm
        cases hm)
    refine hi1.bind _ hg ?_
    intro e he heg
    rw [hk e he heg]
    show (update s.timers slot _ slot).inc = _ ∧ (update s.timers slot _ slot).guestFd = _
    rw [update_self]
    exact ⟨rfl, rfl⟩
  | signal pipeWr mask =>
    obtain ⟨slot, hslot, rfl⟩ := map_eq_some_iff.mp h
    have hfree := sfdFindSlot_guestFd hslot
    have hi1 := hi.setSignal slot ⟨some n, ⟨host, pipeWr, mask⟩, s.nextInc, ⟨host, pipeWr, mask⟩⟩
      (fun _ => rfl) (fun m _ _ _ _ _ _ hm => by
        rw [hfree] at hm
        cases hm)
    refine hi1.bind _ hg ?_
    intro e he heg
    rw [hk e he heg]
    show (update s.signals slot _ slot).inc = _ ∧ (update s.signals slot _ slot).guestFd = _
    rw [update_self]
    exact ⟨rfl, rfl⟩

lemma SpecialFds.dupSource_owner (h : s.dupSource src host g = some slot) :
    s.owner src = some slot := by
  unfold SpecialFds.dupSource at h
  grind

lemma EventSlot.Counted.reserve (hc : e.Counted) (h : RefHolder) (hne : e.holders ≠ []) :
    EventSlot.Counted { e with refcount := e.refcount + 1, holders := h :: e.holders } := by
  refine ⟨?_, ?_, fun _ => hc.intact hne⟩
  · have href := hc.refcount
    grind
  · exact ⟨fun hg => absurd (hc.free.mp hg) hne, nofun⟩

lemma EventSlot.Counted.handOver (hc : e.Counted) (h' : RefHolder) (hh : h ∈ e.holders) :
    EventSlot.Counted { e with holders := h' :: e.holders.erase h } := by
  have hne : e.holders ≠ [] := ne_nil_of_mem hh
  refine ⟨?_, ⟨fun hg => absurd (hc.free.mp hg) hne, nofun⟩,
    fun _ => hc.intact hne⟩
  have href := hc.refcount
  grind

lemma SfdInv.dupReserve (hi : SfdInv s pc) (hn : s.owner n = some slot) (t : ℕ) :
    SfdInv (s.dupReserve t slot) pc := by
  have hmem := hi.owner_holds n slot hn
  refine hi.setEvent slot _ ((hi.counted slot).reserve _ (ne_nil_of_mem hmem)) ?_ ?_ ?_
  · exact fun m hm => mem_cons_of_mem _ (hi.owner_holds m slot hm)
  · exact fun t' ht => mem_cons_of_mem _ (hi.dup_holds t' slot ht)
  intro m e inc he hk hb
  have hlive := hi.live he hk hb
  exact ⟨hlive.1, mem_cons_of_mem _ hlive.2⟩

lemma SfdInv.dupRelease (hi : SfdInv s pc) (hpc : pc t = .idle)
    (hd : .dup t ∈ (s.events slot).holders) : SfdInv (s.dupRelease t slot) pc := by
  refine hi.setEvent slot _ ((hi.counted slot).releaseRef hd) ?_ ?_ ?_
  · intro m hm
    rw [EventSlot.releaseRef_holders]
    exact (mem_erase_of_ne (by simp)).mpr (hi.owner_holds m slot hm)
  · intro t' ht
    have hne : t' ≠ t := by
      rintro rfl
      rw [hpc] at ht
      cases ht
    rw [EventSlot.releaseRef_holders]
    exact (mem_erase_of_ne (by simpa using hne)).mpr (hi.dup_holds t' slot ht)
  · intro m e inc he hk hb
    have hlive := hi.live he hk hb
    rw [EventSlot.releaseRef_holders, EventSlot.releaseRef_inc]
    exact ⟨hlive.1, (mem_erase_of_ne (by simp)).mpr hlive.2⟩

lemma SfdInv.dupBind (hi : SfdInv s pc) (hpc : pc t = .idle)
    (hd : .dup t ∈ (s.events slot).holders) (hg : ∀ t', (pc t').generation ≠ some g)
    (hk : ∀ e, s.table n = some e → e.generation = g → e.kind = some .event) :
    SfdInv (s.dupBind t slot n g) pc := by
  have hkeep : ∀ h, h ≠ .dup t → h ∈ (s.events slot).holders →
      h ∈ RefHolder.fd n :: (s.events slot).holders.erase (.dup t) := fun h hne hh =>
    mem_cons_of_mem _ ((mem_erase_of_ne hne).mpr hh)
  have hi1 := hi.setEvent slot _ ((hi.counted slot).handOver (.fd n) hd)
    (fun m hm => hkeep _ (by simp) (hi.owner_holds m slot hm))
    (fun t' ht => hkeep _ (by
      intro heq
      cases heq
      rw [hpc] at ht
      cases ht) (hi.dup_holds t' slot ht))
    (fun m e inc he hke hb => by
      have hlive := hi.live he hke hb
      exact ⟨hlive.1, hkeep _ (by simp) hlive.2⟩)
  have hi2 := hi1.setOwner (n := n) (o := some slot) (by
    intro slot' heq
    cases heq
    simp)
  refine hi2.bind s.nextInc hg ?_
  intro e he heg
  rw [hk e he heg]
  show (update s.events slot _ slot).inc = _ ∧
    _ ∈ (update s.events slot _ slot).holders
  simp

lemma SfdInv.setMask (hi : SfdInv s pc) (i : ℕ) (mask : BitVec 64) :
    SfdInv (s.setMask i mask) pc := by
  refine hi.setSides hi.timer_intact ?_ ?_ ?_
  · refine SideSlot.intact_update hi.signal_intact ?_ i
    intro hne
    rw [hi.signal_intact i hne]
  · exact fun m e j inc he hk hb => hi.live he hk hb
  intro m e j inc he hk hb
  have hlive := hi.live he hk hb
  by_cases hj : j = i
  · rw [hj, update_self]
    exact hj ▸ hlive
  · rw [update_of_ne hj]
    exact hlive

/-! ### Whole runs -/

/-- No thread has still to clean up after a descriptor of kind `k` at `n`. -/
def SfdSystem.NotDue (s : SfdSystem) (n : ℕ) (k : SpecialKind) : Prop :=
  ∀ t rest, s.pc t ≠ .cleaning n (some k) rest

/-- The step gives out no number at which a cleanup for the new descriptor's kind is due. -/
def SfdQuiet (s : SfdSystem) (l : ℕ × SfdAct) : Prop :=
  match l.2 with
  | .alloc data n _ => s.NotDue n data.kind
  | .publish _ n _ => s.NotDue n .event
  | .publishAt n _ => s.NotDue n .event
  | _ => True

lemma SfdSystem.NotDue.goto {s : SfdSystem} (h : s.NotDue n k) (t : ℕ) (fds : SpecialFds)
    (hp : ∀ rest, p ≠ .cleaning n (some k) rest) : (s.goto t fds p).NotDue n k := by
  exact (forall_update_iff s.pc fun _ p => ∀ rest, p ≠ .cleaning n (some k) rest).mpr
    ⟨hp, fun t' _ => h t'⟩

lemma SfdInv.publishAt {s : SfdSystem} (hi : SfdInv s.fds (update s.pc t .idle)) (host : ℤ)
    (hq : s.NotDue n k) : SfdInv (s.fds.publish n (some k) host) (update s.pc t .idle) := by
  refine hi.publish host ?_
  intro t' k' rest hk
  cases hk
  exact hq.goto t s.fds (fun _ => SfdPc.noConfusion) t' rest

lemma PcOk.published (hi : SfdInv s pc) (host : ℤ) (hg : p.generation = some s.nextGeneration)
    (hk : p.kind = k) (hh : ∀ slot, p.holds = some slot → .dup t ∈ (s.events slot).holders)
    (hc : ∀ m k' rest, p = .cleaning m (some k') rest →
      m = n ∧ rest.generation = some s.nextGeneration) :
    PcOk (s.publish n (some k) host) pc t p where
  holds := hh
  pending := by
    intro m k' rest e heq he _
    obtain ⟨rfl, hrest⟩ := hc m k' rest heq
    rw [SpecialFds.publish_self] at he
    cases he
    exact hrest
  unbound := by
    intro m e he heg
    by_cases hm : m = n
    · grind [SpecialFds.publish_self]
    rw [SpecialFds.publish_other hm] at he
    have hlt := hi.table_lt m e he
    have heq := some.inj (hg.symm.trans heg)
    omega
  lt := by
    intro g h
    rw [hg] at h
    cases h
    exact lt_succ_self _
  own := by
    intro g t' h _ h'
    rw [hg] at h
    cases h
    exact absurd (hi.pc_lt t' _ h') (lt_irrefl _)

lemma PcOk.removed (hg : rest.generation = none)
    (hh : ∀ slot, rest.holds = some slot → .dup t ∈ (s.events slot).holders) :
    PcOk (s.remove n) pc t (.cleaning n kind rest) := by
  refine .of_none hg hh fun m k rest' e heq he => ?_
  cases heq
  exact absurd rfl (SpecialFds.remove_some he).1

lemma PcOk.cleaned (hi : SfdInv s pc) (hpc : pc t = .cleaning n kind rest) :
    PcOk s pc t rest.pc where
  holds := by
    intro slot h
    rw [SfdAfter.holds_pc] at h
    exact hi.dup_holds t slot (by rw [hpc]; exact h)
  pending := fun m k rest' e h => absurd h (SfdAfter.pc_ne_cleaning rest rest' m (some k))
  unbound := by
    intro m e he h
    rw [SfdAfter.generation_pc] at h
    have hu := hi.unbound t m e he (by rw [hpc]; exact h)
    rw [hpc] at hu
    rw [SfdAfter.kind_pc]
    exact hu
  lt := by
    intro g h
    rw [SfdAfter.generation_pc] at h
    exact hi.pc_lt t g (by rw [hpc]; exact h)
  own := by
    intro g t' h ht h'
    rw [SfdAfter.generation_pc] at h
    exact ht (hi.pc_inj t' t g h' (by rw [hpc]; exact h))

lemma SfdInv.own_generation (hi : SfdInv s pc) (hg : (pc t).generation = some g) (t' : ℕ) :
    (update pc t .idle t').generation ≠ some g := by
  refine (forall_update_iff pc fun _ p => p.generation ≠ some g).mpr
    ⟨?_, fun t' ht h => ht (hi.pc_inj t' t g h hg)⟩ t'
  exact nofun

lemma SfdInv.step {s s' : SfdSystem} (hi : SfdInv s.fds s.pc)
    (hq : SfdQuiet s l) (h : s.next l = some s') : SfdInv s'.fds s'.pc := by
  obtain ⟨t, act⟩ := l
  have hrest := hi.goto (PcOk.idle s.fds s.pc t)
  unfold SfdSystem.next at h
  dsimp only at h
  split at h
  · -- a create publishes its descriptor
    rename_i data n host _
    obtain ⟨-, ⟨⟩⟩ := guarded h
    exact (hrest.publishAt host hq).resume (PcOk.published hi host rfl rfl nofun nofun)
  · -- a create installs its state, or goes on to take its descriptor back
    rename_i data n host g hpc
    have hg : (s.pc t).generation = some g := by rw [hpc]; rfl
    split at h
    · rename_i fds' hinstall
      cases h
      refine hrest.install (hi.own_generation hg) ?_ hinstall
      intro e he heg
      have hu := (hi.unbound t n e he (by rw [hg, heg])).2
      rw [hpc] at hu
      exact hu
    · cases h
      exact hi.goto ⟨nofun, nofun,
        nofun, nofun, nofun⟩
  · -- the descriptor is taken back
    split at h
    · cases h
      split
      · exact hrest.remove _
      · exact hrest
    · cases h
      exact hrest
  · -- a plain descriptor is opened
    obtain ⟨-, ⟨⟩⟩ := guarded h
    exact hrest.publish _ (nofun)
  · -- a descriptor is closed
    split at h
    · cases h
      exact (hrest.remove _).resume (PcOk.removed rfl (nofun))
    · cases h
  · -- its cleanup: a descriptor it would find is its own thread's, and has no state yet
    rename_i n kind rest hpc
    cases h
    refine (hi.goto (PcOk.cleaned hi hpc)).cleanup ?_
    intro k e hk he hek
    have hgen := hi.pending t n k rest e (hk ▸ hpc) he hek
    exact (hi.unbound t n e he (by rw [hpc]; exact hgen)).1
  · -- a duplicate takes a reference
    split at h
    · rename_i slot hsrc
      cases h
      refine (hrest.dupReserve (SpecialFds.dupSource_owner hsrc) t).resume
        (PcOk.of_holds rfl rfl (nofun) ?_)
      show _ ∈ (update s.fds.events slot _ slot).holders
      simp
    · cases h
  · -- it publishes the alias at a free number
    rename_i slot pipeRd minfd n host hpc
    have hd := hi.dup_holds t slot (by rw [hpc]; rfl)
    obtain ⟨-, ⟨⟩⟩ := guarded h
    refine (hrest.publishAt host hq).resume (PcOk.published hi host rfl rfl ?_ nofun)
    intro slot' hh
    cases hh
    exact hd
  · -- it publishes the alias at a given number, and closes what was there
    rename_i slot pipeRd n host hpc
    have hd := hi.dup_holds t slot (by rw [hpc]; rfl)
    have hpub := hrest.publishAt host hq
    have hh : ∀ slot', some slot = some slot' → .dup t ∈ (s.fds.events slot').holders := by
      grind
    obtain ⟨-, h⟩ := guarded h
    split at h
    · cases h
      refine hpub.resume (PcOk.published hi host rfl rfl hh ?_)
      intro m k rest hc
      obtain ⟨hm, -, hr⟩ := SfdPc.cleaning.inj hc
      exact ⟨hm.symm, hr ▸ rfl⟩
    · cases h
      exact hpub.resume (PcOk.published hi host rfl rfl hh (nofun))
  · -- it gets no number
    rename_i slot _ hpc
    cases h
    exact hi.goto (PcOk.of_holds rfl rfl (nofun) (hi.dup_holds t slot (by rw [hpc]; rfl)))
  · -- it makes the reference the alias's own
    rename_i slot pipeRd n host g hpc
    have hg : (s.pc t).generation = some g := by rw [hpc]; rfl
    have hd := hi.dup_holds t slot (by rw [hpc]; rfl)
    split at h
    · cases h
      refine hrest.dupBind (update_self _ _ _) hd (hi.own_generation hg) ?_
      intro e he heg
      have hu := (hi.unbound t n e he (by rw [hg, heg])).2
      rw [hpc] at hu
      exact hu
    · cases h
      exact hi.goto (PcOk.of_holds rfl rfl (nofun) hd)
  · -- it takes back what is at the alias's number
    rename_i slot n hpc
    have hd := hi.dup_holds t slot (by rw [hpc]; rfl)
    split at h
    · cases h
      refine (hrest.remove n).resume (PcOk.removed rfl ?_)
      intro slot' hh
      cases hh
      exact hd
    · cases h
      exact hi.goto (PcOk.of_holds rfl rfl (nofun) hd)
  · -- it gives its reference back
    rename_i slot hpc
    cases h
    exact hrest.dupRelease (update_self _ _ _) (hi.dup_holds t slot (by rw [hpc]; rfl))
  · -- a signalfd's mask is changed
    split at h
    · cases h
      exact hrest.setMask _ _
    · cases h
  · cases h

/-- The state of every open descriptor is in its slot: not released, not another
descriptor's, and as the calls on it left it. -/
def SpecialFds.StateKept (s : SpecialFds) : Prop :=
  ∀ n e slot inc, s.table n = some e → e.bound = some (slot, inc) →
    match e.kind with
    | none => False
    | some .event => (s.events slot).inc = inc ∧ (s.events slot).guestFd ≠ none ∧
      0 < (s.events slot).refcount ∧ (s.events slot).given = ((s.events slot).pipeRd,
        (s.events slot).pipeWr, (s.events slot).counter, (s.events slot).semaphore)
    | some .timer => (s.timers slot).inc = inc ∧ (s.timers slot).guestFd = some n ∧
      (s.timers slot).data = (s.timers slot).given
    | some .signal => (s.signals slot).inc = inc ∧ (s.signals slot).guestFd = some n ∧
      (s.signals slot).data = (s.signals slot).given

lemma SfdInv.stateKept (hi : SfdInv s pc) : s.StateKept := by
  intro n e slot inc he hb
  have hlive := hi.kept n e slot inc he hb
  cases hk : e.kind with
  | none =>
    rw [hk] at hlive
    exact hlive
  | some k =>
    rw [hk] at hlive
    cases k with
    | event =>
      have hc := hi.counted slot
      have hne : (s.events slot).holders ≠ [] := ne_nil_of_mem hlive.2
      refine ⟨hlive.1, fun hg => hne (hc.free.mp hg), ?_, hc.intact hne⟩
      rw [hc.refcount]
      exact Int.natCast_pos.mpr (length_pos_of_mem hlive.2)
    | timer => exact ⟨hlive.1, hlive.2, hi.timer_intact slot (by rw [hlive.2]; simp)⟩
    | signal => exact ⟨hlive.1, hlive.2, hi.signal_intact slot (by rw [hlive.2]; simp)⟩

/-- In every run whose creates and duplicates are quiet, a descriptor's state is there for as
long as the descriptor is open. -/
theorem specialFd_kept {ls : List (ℕ × SfdAct)} {s : SfdSystem}
    (hq : Meets SfdSystem.next SfdQuiet SfdSystem.init ls)
    (h : exec SfdSystem.next SfdSystem.init ls = some s) : s.fds.StateKept := by
  have hi : SfdInv s.fds s.pc :=
    exec_keeps_of_meets (P := fun s => SfdInv s.fds s.pc) SfdQuiet
        (fun _ _ _ hi hq h => hi.step hq h)
      SfdInv.init hq h
  exact hi.stateKept

/-- An eventfd is made, duplicated and closed; the alias keeps the counter. -/
def sfdAliasRun : List (ℕ × SfdAct) :=
  [(0, .alloc (.event 10 11 5 false) 3 10), (0, .install), (1, .reserve 3 10 4),
    (1, .publish 0 4 12), (1, .commit), (0, .remove 3), (0, .cleanup)]

theorem specialFd_kept_alias :
    ∃ s, exec SfdSystem.next SfdSystem.init sfdAliasRun = some s ∧ s.fds.StateKept ∧
      (s.fds.table 4).map SpecialEntry.bound = some (some (0, 0)) ∧
      (s.fds.events 0).refcount = 1 ∧ (s.fds.events 0).counter = 5 := by
  have hrun : exec SfdSystem.next SfdSystem.init sfdAliasRun = some _ := rfl
  have hq : Meets SfdSystem.next SfdQuiet SfdSystem.init sfdAliasRun := by
    refine meets_cons ?_ rfl (meets_cons trivial rfl (meets_cons trivial rfl
      (meets_cons ?_ rfl (meets_cons trivial rfl (meets_cons trivial rfl
        (meets_cons trivial rfl trivial))))))
    · exact nofun
    have h₀ : SfdSystem.init.NotDue 4 .event := nofun
    have h₁ := h₀.goto 0 SpecialFds.init (p := .creating (.event 10 11 5 false) 3 10 4) (nofun)
    have h₂ := h₁.goto 0 SpecialFds.init (p := .idle) (nofun)
    exact h₂.goto 1 SpecialFds.init (p := .dupReserved 0 10) (nofun)
  exact ⟨_, hrun, specialFd_kept hq hrun, by decide +kernel, by decide +kernel, by decide +kernel⟩

/-- Thread 0 has closed its eventfd 3 but not yet cleaned up when thread 1 makes an eventfd and
gets the number. The cleanup then frees the new eventfd's slot. -/
theorem eventfd_reused_number : ∃ s, exec SfdSystem.next SfdSystem.init
        [(0, .alloc (.event 10 11 5 false) 3 10), (0, .install), (0, .remove 3),
          (1, .alloc (.event 12 13 7 false) 3 12), (1, .install), (0, .cleanup)] = some s ∧
      (s.fds.table 3).map SpecialEntry.bound = some (some (1, 1)) ∧
      (s.fds.events 1).guestFd = none ∧ (s.fds.events 1).counter = 0 ∧ ¬ s.fds.StateKept := by
  have hrun : exec SfdSystem.next SfdSystem.init
      [(0, .alloc (.event 10 11 5 false) 3 10), (0, .install), (0, .remove 3),
        (1, .alloc (.event 12 13 7 false) 3 12), (1, .install), (0, .cleanup)] = some _ := rfl
  refine ⟨_, hrun, by decide +kernel, by decide +kernel, by decide +kernel, ?_⟩
  intro hk
  exact (hk 3 ⟨some .event, 12, 5, some (1, 1)⟩ 1 1 (by decide +kernel) rfl).2.1 (by decide +kernel)

end Elfuse
