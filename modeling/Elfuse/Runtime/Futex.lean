/-
Futex waits, wakes and requeues by any number of threads.

A waiting thread links its waiters into the chains of hash buckets and sleeps;
a wake takes waiters out of a chain and marks them woken; a requeue moves them
to another chain. Around each wait the bucket's published count is raised, so
that the shim can answer a wake without a host call when the count is zero.

A step is a critical section under a bucket lock, or, where the section touches
what others read without the lock (the guest's words and the published counts),
one such access: the locks are then held from step to step. A waiter is named by
its thread and its place in the thread's call. Three things are recorded beside
what the code keeps: who owes which published charge, how many wakes counted a
waiter, and for a waiter the value its wait expected and whether it was moved.

* `futexWake`, `futexWakeOp`, `FutexSystem.requeueStep` — the calls that take
  waiters out of chains or move them;
* `FutexKind`, `FutexStage` — `futex_wait`, `sys_futex_waitv` and
  `futex_lock_pi` as stages of one course;
* `FutexSystem.next` — one step of a thread.
-/
import Elfuse.Core.Layout
import Elfuse.Lib.Walks
import Elfuse.Lib.Runs

namespace Elfuse

open Function Runs Walks

/-! ### Waiters and buckets -/

def futexBuckets : ℕ := 1024

def futexHashMult : ℕ := 0x9E3779B97F4A7C15

def futexHash (uaddr : ℕ) : ℕ :=
  futexHashMult * (uaddr / 4) % 2 ^ 64 / 2 ^ 32 % futexBuckets

def futexUaddrIsAligned (uaddr : ℕ) : Bool := uaddr % 4 == 0

def futexBitsetMatchAny : BitVec 32 := 0xFFFFFFFF

/-- A waiter: the thread it belongs to, and which of the thread's waiters it is. -/
abbrev FutexKey := ℕ × ℕ

/-- `futex_waiter_t`. -/
structure FutexWaiter where
  uaddr : ℕ
  bitset : BitVec 32
  woken : Bool
  pubBucket : ℕ
  pubFollows : Bool
  home : ℕ
  /-- The value the word had to have for the thread to wait; none for a `FUTEX_LOCK_PI` waiter. -/
  expected : Option (BitVec 32)
  /-- A requeue has given the waiter another address. -/
  moved : Bool
  deriving DecidableEq, Repr

structure FutexMem where
  /-- The guest's words; none where the address does not resolve. -/
  word : ℕ → Option (BitVec 32)
  chain : ℕ → List FutexKey
  waiter : FutexKey → FutexWaiter
  /-- `shim_globals_futex_waiters`. -/
  published : ℕ → ℤ
  /-- The thread that holds a bucket's lock from step to step. -/
  lock : ℕ → Option ℕ
  /-- Whose charges a published count is made of. -/
  charges : ℕ → List FutexKey
  /-- How many wakes have counted the waiter. -/
  counted : FutexKey → ℕ

namespace FutexMem

/-- `shim_globals_futex_waiters_add(+1)`, for the waiter `k`. -/
def charge (m : FutexMem) (b : ℕ) (k : FutexKey) : FutexMem :=
  { m with
    published := update m.published b (m.published b + 1)
    charges := update m.charges b (k :: m.charges b) }

/-- `shim_globals_futex_waiters_add(-1)`, for the waiter `k`. -/
def discharge (m : FutexMem) (b : ℕ) (k : FutexKey) : FutexMem :=
  { m with
    published := update m.published b (m.published b - 1)
    charges := update m.charges b ((m.charges b).erase k) }

def link (m : FutexMem) (b : ℕ) (k : FutexKey) (w : FutexWaiter) : FutexMem :=
  { m with
    chain := update m.chain b (k :: m.chain b)
    waiter := update m.waiter k w
    counted := update m.counted k 0 }

/-- Model of `bucket_unlink_locked`. -/
def unlink (m : FutexMem) (b : ℕ) (k : FutexKey) : FutexMem :=
  { m with chain := update m.chain b ((m.chain b).erase k) }

/-- The stores of `futex_wake_waiter_locked` to the waiters that a wake has unlinked; the wake
counts each of them. -/
def markWoken (m : FutexMem) (ws : List FutexKey) : FutexMem :=
  { m with
    waiter := fun k => if k ∈ ws then { m.waiter k with woken := true } else m.waiter k
    counted := fun k => m.counted k + ws.count k }

def lockAll (m : FutexMem) (t : ℕ) (bs : List ℕ) : FutexMem :=
  { m with lock := fun b => if b ∈ bs then some t else m.lock b }

def unlockAll (m : FutexMem) (t : ℕ) : FutexMem :=
  { m with lock := fun b => if m.lock b = some t then none else m.lock b }

def free (m : FutexMem) (bs : List ℕ) : Bool := bs.all fun b => m.lock b == none

/-- Model of `futex_should_block`: none where the caller should block. -/
def shouldBlock (m : FutexMem) (uaddr : ℕ) (expected : BitVec 32) : Option ℤ :=
  match m.word uaddr with
  | none => some (-linuxEfault)
  | some current => if current = expected then none else some (-linuxEagain)

def looksFor (m : FutexMem) (uaddr : ℕ) (bitset : BitVec 32) (k : FutexKey) : Bool :=
  (m.waiter k).uaddr == uaddr && (m.waiter k).bitset &&& bitset != 0

/-- Model of `futex_pi_waiter_within`. -/
def piWaiterWithin (m : FutexMem) (b uaddr : ℕ) (bitset : BitVec 32) (budget : ℕ) : Bool :=
  hitsWithin (m.looksFor uaddr bitset) (fun k => !(m.waiter k).pubFollows) budget (m.chain b)

def wakeWalk (m : FutexMem) (b uaddr : ℕ) (bitset : BitVec 32) (budget : ℕ) : ℤ × FutexMem :=
  let r := pluck (m.looksFor uaddr bitset) budget (m.chain b)
  (r.1.length, ({ m with chain := update m.chain b r.2 }).markWoken r.1)

end FutexMem

/-! ### Wakes -/

def futexWakeBudget (val : BitVec 32) : ℕ :=
  if val = 0 ∨ 0x7fffffff < val.toNat then 1 else val.toNat

def futexWake (m : FutexMem) (uaddr : ℕ) (val bitset : BitVec 32) : ℤ × FutexMem :=
  if bitset = 0 then (-linuxEinval, m)
  else if !futexUaddrIsAligned uaddr then (-linuxEinval, m)
  else if m.piWaiterWithin (futexHash uaddr) uaddr bitset (futexWakeBudget val) then
      (-linuxEinval, m)
  else m.wakeWalk (futexHash uaddr) uaddr bitset (futexWakeBudget val)

def futexOpSignExtend12 (raw : BitVec 32) : ℤ :=
  if raw.toNat % 0x1000 < 0x800 then raw.toNat % 0x1000 else raw.toNat % 0x1000 - 0x1000

def futexWakeOpApply (old : BitVec 32) (op : ℕ) (arg : BitVec 32) : BitVec 32 :=
  match op with
  | 0 => arg
  | 1 => old + arg
  | 2 => old ||| arg
  | 3 => old &&& ~~~arg
  | _ => old ^^^ arg

def futexWakeOpCmp (old : ℤ) (cmp : ℕ) (arg : ℤ) : Bool :=
  match cmp with
  | 0 => old == arg
  | 1 => old != arg
  | 2 => decide (old < arg)
  | 3 => decide (old ≤ arg)
  | 4 => decide (arg < old)
  | _ => decide (arg ≤ old)

/-- What `val3` of `FUTEX_WAKE_OP` says. -/
structure WakeOp where
  op : ℕ
  cmp : ℕ
  opVal : BitVec 32
  cmpArg : ℤ

/-- The decoding at the head of `futex_wake_op`. -/
def WakeOp.decode (val3 : BitVec 32) : WakeOp :=
  let op := val3.toNat / 2 ^ 28 % 16
  let opArg := BitVec.ofInt 32 (futexOpSignExtend12 (val3 >>> 12))
  { op := op % 8
    cmp := val3.toNat / 2 ^ 24 % 16
    opVal := if 8 ≤ op then 1#32 <<< (opArg.toNat % 32) else opArg
    cmpArg := futexOpSignExtend12 val3 }

/-- The walks of `futex_wake_op`; the second one only if the comparison holds. -/
def FutexMem.wakePair (m : FutexMem) (uaddr n uaddr2 n2 : ℕ) (met : Bool) : ℤ × FutexMem :=
  let r₁ := m.wakeWalk (futexHash uaddr) uaddr futexBitsetMatchAny n
  if met then
    let r₂ := r₁.2.wakeWalk (futexHash uaddr2) uaddr2 futexBitsetMatchAny n2
    (r₁.1 + r₂.1, r₂.2)
  else r₁

def futexWakeOp (m : FutexMem) (uaddr : ℕ) (val : BitVec 32) (uaddr2 : ℕ)
    (val2 val3 : BitVec 32) : ℤ × FutexMem :=
  let o := WakeOp.decode val3
  let n := futexWakeBudget val
  let n2 := futexWakeBudget val2
  if !futexUaddrIsAligned uaddr || !futexUaddrIsAligned uaddr2 then (-linuxEinval, m)
  else if 4 < o.op then (-linuxEnosys, m)
  else match m.word uaddr2 with
    | none => (-linuxEfault, m)
    | some old =>
      let m₁ := { m with
        word := update m.word uaddr2 (some (futexWakeOpApply old o.op o.opVal)) }
      let met := futexWakeOpCmp old.toInt o.cmp o.cmpArg
      if 5 < o.cmp then (-linuxEnosys, m₁)
      else if m₁.piWaiterWithin (futexHash uaddr) uaddr futexBitsetMatchAny n ||
          met && m₁.piWaiterWithin (futexHash uaddr2) uaddr2 futexBitsetMatchAny n2 then
        (-linuxEinval, m₁)
      else m₁.wakePair uaddr n uaddr2 n2 met

/-- Model of `futex_wake_first_locked`: `FUTEX_UNLOCK_PI` and the robust walk wake any waiter. -/
def futexWakeFirst (m : FutexMem) (uaddr : ℕ) : FutexMem :=
  let b := futexHash uaddr
  let r := pluck (fun k => (m.waiter k).uaddr == uaddr) 1 (m.chain b)
  ({ m with chain := update m.chain b r.2 }).markWoken r.1

/-! ### Requeues -/

/-- The arguments of `futex_requeue` and what it has done so far. -/
structure Requeue where
  uaddr : ℕ
  uaddr2 : ℕ
  wakeCount : ℕ
  requeueCount : ℕ
  woken : ℕ
  requeued : ℕ
  deriving DecidableEq, Repr

def Requeue.src (r : Requeue) : ℕ := futexHash r.uaddr

def Requeue.dst (r : Requeue) : ℕ := futexHash r.uaddr2

def Requeue.left (r : Requeue) : ℕ := r.wakeCount - r.woken + (r.requeueCount - r.requeued)

inductive RequeueAct
  | stop
  | wake
  | move
  deriving DecidableEq, Repr

/-- Model of `futex_requeue_step`. -/
def Requeue.act (r : Requeue) : RequeueAct :=
  if r.woken < r.wakeCount then .wake
  else if r.requeued < r.requeueCount then .move
  else .stop

def FutexMem.waitsOn (m : FutexMem) (uaddr : ℕ) (k : FutexKey) : Bool :=
  (m.waiter k).uaddr == uaddr

/-- The checks at the head of `futex_requeue`: none where it goes on to walk the chain. -/
def FutexMem.requeueRefused (m : FutexMem) (r : Requeue) (cmp : Option (BitVec 32)) : Option ℤ :=
  if ¬(r.wakeCount < 2 ^ 31 ∧ r.requeueCount < 2 ^ 31) then some (-linuxEinval)
  else if !futexUaddrIsAligned r.uaddr || !futexUaddrIsAligned r.uaddr2 then some (-linuxEinval)
  else match cmp.bind (m.shouldBlock r.uaddr) with
    | some e => some e
    | none =>
      if hitsWithin (m.waitsOn r.uaddr) (fun k => !(m.waiter k).pubFollows)
          (r.wakeCount + r.requeueCount) (m.chain r.src) then some (-linuxEinval)
      else none

/-- The waiter gets the second address. -/
def FutexMem.rekey (m : FutexMem) (k : FutexKey) (uaddr2 : ℕ) : FutexMem :=
  { m with
    waiter := update m.waiter k { m.waiter k with uaddr := uaddr2, moved := true } }

/-- A moved waiter leaves the source chain, and its charge is added at the destination. -/
def FutexMem.moveOut (m : FutexMem) (r : Requeue) (rest : List FutexKey) (k : FutexKey) :
    FutexMem :=
  let m₁ := { m with chain := update m.chain r.src rest }
  if (m.waiter k).pubFollows then m₁.charge r.dst k else m₁

/-- Its charge is taken off the bucket that had it, and it enters the destination chain. -/
def FutexMem.moveIn (m : FutexMem) (r : Requeue) (k : FutexKey) : FutexMem :=
  let w := m.waiter k
  let m₁ := if w.pubFollows then m.discharge w.pubBucket k else m
  { m₁ with
    waiter := update m.waiter k { w with
      uaddr := r.uaddr2, home := r.dst, moved := true
      pubBucket := if w.pubFollows then r.dst else w.pubBucket }
    chain := update m.chain r.dst (k :: m.chain r.dst) }

/-! ### Waits -/

inductive FutexKind
  /-- `futex_wait`, for `FUTEX_WAIT` and `FUTEX_WAIT_BITSET`. -/
  | wait (bitset : BitVec 32)
  /-- `sys_futex_waitv`. -/
  | waitv
  /-- `futex_lock_pi`; what it does to the lock's word are stores like any other here. -/
  | lockPi
  deriving DecidableEq, Repr

/-- A word to wait on, and the value it must have. -/
structure FutexElt where
  uaddr : ℕ
  expected : BitVec 32
  deriving DecidableEq, Repr

def FutexElt.bucket (e : FutexElt) : ℕ := futexHash e.uaddr

/-- How far a call that waits has come. -/
inductive FutexStage
  /-- So many elements are charged. -/
  | charging (charged : ℕ)
  /-- The bucket locks are held, and so many elements are linked. -/
  | entering (linked : ℕ)
  | parked
  /-- The result is fixed, and these of the linked elements are still to be unlinked. -/
  | unlinking (linked : ℕ) (left : List ℕ) (ret : ℤ)
  /-- So many charges are dropped. -/
  | dropping (linked dropped : ℕ) (ret : ℤ)
  deriving DecidableEq, Repr

/-- Where a thread is. -/
inductive FutexPc
  | idle
  | call (kind : FutexKind) (elts : List FutexElt) (stage : FutexStage)
  /-- A requeue holds both locks; it has passed the front of the source chain. -/
  | walking (r : Requeue) (front todo : List FutexKey)
  | moving (r : Requeue) (front todo : List FutexKey) (k : FutexKey)
  deriving DecidableEq, Repr

/-- A finished wait: what it returned, and how many wakes counted each of its waiters. -/
structure FutexReturn where
  kind : FutexKind
  ret : ℤ
  counted : List ℕ
  deriving DecidableEq, Repr

structure FutexSystem where
  mem : FutexMem
  pc : ℕ → FutexPc
  log : List FutexReturn

inductive FutexAct
  /-- A word changes: a guest store, a compare-and-swap of a PI lock, a mapping. -/
  | store (uaddr : ℕ) (v : Option (BitVec 32))
  | wake (uaddr : ℕ) (val bitset : BitVec 32)
  | wakeOp (uaddr : ℕ) (val : BitVec 32) (uaddr2 : ℕ) (val2 val3 : BitVec 32)
  | wakeFirst (uaddr : ℕ)
  | requeue (uaddr uaddr2 wakeCount requeueCount : ℕ) (cmp : Option (BitVec 32))
  | requeueStep
  | begin (kind : FutexKind) (elts : List FutexElt)
  | charge
  /-- A `futex_wait` or `futex_lock_pi` returns without having waited. -/
  | refuse (ret : ℤ)
  | lock
  | enter
  /-- A parked `futex_wait` is woken, times out or is interrupted. -/
  | leave (err : ℤ)
  /-- A parked `futex_lock_pi` gives up its place, to try again or to return. -/
  | leavePi (ret : Option ℤ)
  /-- A parked `sys_futex_waitv` looks at its waiters under the group lock. -/
  | decide (err : ℤ)
  | unlink
  | drop
  deriving DecidableEq, Repr

/-! ### Steps -/

def FutexSystem.goto (s : FutexSystem) (t : ℕ) (mem : FutexMem) (pc : FutexPc) : FutexSystem :=
  { s with mem := mem, pc := update s.pc t pc }

/-- What a call checks before it touches any shared state. -/
def FutexKind.begins (kind : FutexKind) (elts : List FutexElt) : Bool :=
  match kind with
  | .wait _ => elts.length == 1
  | .lockPi => elts.length == 1
  | .waitv => decide (0 < elts.length ∧ elts.length ≤ 128) &&
      elts.all fun e => futexUaddrIsAligned e.uaddr

/-- The returns before the wait: bad arguments, an unreadable timeout, a word that the spin saw
move; or anything a lock without contention returns. -/
def FutexKind.refuses (m : FutexMem) (kind : FutexKind) (elts : List FutexElt) (ret : ℤ) : Bool :=
  match kind with
  | .wait _ => decide (ret = -linuxEinval ∨ ret = -linuxEfault ∨ ret = -linuxEagain ∧
      ∃ e ∈ elts, m.word e.uaddr ≠ some e.expected)
  | .lockPi => true
  | .waitv => false

/-- The checks that bar a call from waiting. -/
def FutexKind.enters (kind : FutexKind) (elts : List FutexElt) : Bool :=
  elts.all (fun e => futexUaddrIsAligned e.uaddr) &&
    match kind with
    | .wait bitset => bitset != 0
    | _ => true

/-- The check of an element's word under its bucket's lock. -/
def FutexKind.barred (m : FutexMem) (kind : FutexKind) (e : FutexElt) : Option ℤ :=
  match kind with
  | .lockPi => none
  | _ => m.shouldBlock e.uaddr e.expected

def FutexKind.waiter (kind : FutexKind) (e : FutexElt) : FutexWaiter :=
  match kind with
  | .wait bitset => ⟨e.uaddr, bitset, false, e.bucket, true, e.bucket, some e.expected, false⟩
  | .waitv => ⟨e.uaddr, futexBitsetMatchAny, false, e.bucket, true, e.bucket, some e.expected,
      false⟩
  | .lockPi => ⟨e.uaddr, futexBitsetMatchAny, false, e.bucket, false, 0, none, false⟩

def entryBucket (elts : List FutexElt) (j : ℕ) : ℕ := (elts[j]?.map FutexElt.bucket).getD 0

/-- The bucket whose count the call lowers for an element in the end. -/
def dropBucket (m : FutexMem) (t : ℕ) (kind : FutexKind) (elts : List FutexElt) (linked j : ℕ) :
    ℕ :=
  if kind ≠ .lockPi ∧ j < linked then (m.waiter (t, j)).pubBucket else entryBucket elts j

/-- The stage after the result is fixed. -/
def FutexStage.settle (linked : ℕ) (left : List ℕ) (ret : ℤ) : FutexStage :=
  if left = [] then .dropping linked 0 ret else .unlinking linked left ret

/-- What `sys_futex_waitv` returns: the first woken element, if there is one. -/
def waitvResult (m : FutexMem) (t n : ℕ) (err : ℤ) : ℤ :=
  match (List.range n).find? fun j => (m.waiter (t, j)).woken with
  | some j => j
  | none => err

def FutexSystem.enter (s : FutexSystem) (t : ℕ) (kind : FutexKind) (elts : List FutexElt)
    (i : ℕ) : Option FutexSystem :=
  match elts[i]? with
  | none => none
  | some e =>
    match kind.barred s.mem e with
    | some err => some (s.goto t (s.mem.unlockAll t)
        (.call kind elts (.settle i (List.range i).reverse err)))
    | none =>
      let m := s.mem.link e.bucket (t, i) (kind.waiter e)
      if i + 1 < elts.length then some (s.goto t m (.call kind elts (.entering (i + 1))))
      else some (s.goto t (m.unlockAll t) (.call kind elts .parked))

def FutexSystem.requeueStep (s : FutexSystem) (t : ℕ) (r : Requeue) (front todo : List FutexKey) :
    FutexSystem :=
  match todo with
  | [] => s.goto t (s.mem.unlockAll t) .idle
  | k :: rest =>
    if !s.mem.waitsOn r.uaddr k then s.goto t s.mem (.walking r (front ++ [k]) rest)
    else match r.act with
      | .stop => s.goto t (s.mem.unlockAll t) .idle
      | .wake =>
        s.goto t (({ s.mem with
          chain := update s.mem.chain r.src (front ++ rest) }).markWoken [k])
          (.walking { r with woken := r.woken + 1 } front rest)
      | .move =>
        if r.src = r.dst then
          s.goto t (s.mem.rekey k r.uaddr2)
            (.walking { r with requeued := r.requeued + 1 } (front ++ [k]) rest)
        else s.goto t (s.mem.moveOut r (front ++ rest) k) (.moving r front rest k)

/-- Lower the count for an element; after the last one the call returns. -/
def FutexSystem.drop (s : FutexSystem) (t : ℕ) (kind : FutexKind) (elts : List FutexElt)
    (linked d : ℕ) (ret : ℤ) : FutexSystem :=
  let m := s.mem.discharge (dropBucket s.mem t kind elts linked d) (t, d)
  if d + 1 < elts.length then s.goto t m (.call kind elts (.dropping linked (d + 1) ret))
  else
    { s.goto t m .idle with
      log := ⟨kind, ret, (List.range elts.length).map fun j => m.counted (t, j)⟩ :: s.log }

/-- A parked `futex_wait` leaves: a wake that has reached it decides its result. -/
def FutexSystem.leave (s : FutexSystem) (t : ℕ) (kind : FutexKind) (elts : List FutexElt)
    (err : ℤ) : FutexSystem :=
  if (s.mem.waiter (t, 0)).woken then s.goto t s.mem (.call kind elts (.dropping 1 0 0))
  else s.goto t (s.mem.unlink (s.mem.waiter (t, 0)).home (t, 0))
    (.call kind elts (.dropping 1 0 err))

def endsWait (err : ℤ) : Bool := err == -linuxEtimedout || err == -linuxEintr

def FutexSystem.next (s : FutexSystem) (l : ℕ × FutexAct) : Option FutexSystem :=
  let t := l.1
  let m := s.mem
  match s.pc t, l.2 with
  | _, .store uaddr v => some { s with mem := { m with word := update m.word uaddr v } }
  | .idle, .wake uaddr val bitset =>
    if m.free [futexHash uaddr] then some { s with mem := (futexWake m uaddr val bitset).2 }
    else none
  | .idle, .wakeOp uaddr val uaddr2 val2 val3 =>
    if m.free [futexHash uaddr, futexHash uaddr2] then
      some { s with mem := (futexWakeOp m uaddr val uaddr2 val2 val3).2 }
    else none
  | .idle, .wakeFirst uaddr =>
    if m.free [futexHash uaddr] then some { s with mem := futexWakeFirst m uaddr } else none
  | .idle, .requeue uaddr uaddr2 wakeCount requeueCount cmp =>
    let r : Requeue := ⟨uaddr, uaddr2, wakeCount, requeueCount, 0, 0⟩
    if m.free [r.src, r.dst] then
      if (m.requeueRefused r cmp).isSome then some s
      else some (s.goto t (m.lockAll t [r.src, r.dst]) (.walking r [] (m.chain r.src)))
    else none
  | .walking r front todo, .requeueStep => some (s.requeueStep t r front todo)
  | .moving r front todo k, .requeueStep =>
    some (s.goto t (m.moveIn r k) (.walking { r with requeued := r.requeued + 1 } front todo))
  | .idle, .begin kind elts =>
    if kind.begins elts then
      some (s.goto t { m with counted := fun k => if k.1 = t then 0 else m.counted k }
        (.call kind elts (.charging 0)))
    else none
  | .call kind elts (.charging i), .charge =>
    match elts[i]? with
    | some e => some (s.goto t (m.charge e.bucket (t, i)) (.call kind elts (.charging (i + 1))))
    | none => none
  | .call kind elts (.charging i), .refuse ret =>
    if i = elts.length ∧ kind.refuses m elts ret then
      some (s.goto t m (.call kind elts (.dropping 0 0 ret)))
    else none
  | .call kind elts (.charging i), .lock =>
    if i = elts.length ∧ kind.enters elts ∧ m.free (elts.map FutexElt.bucket) then
      some (s.goto t (m.lockAll t (elts.map FutexElt.bucket)) (.call kind elts (.entering 0)))
    else none
  | .call kind elts (.entering i), .enter => s.enter t kind elts i
  | .call (.wait bitset) elts .parked, .leave err =>
    if endsWait err ∧ m.free [(m.waiter (t, 0)).home] then some (s.leave t (.wait bitset) elts err)
    else none
  | .call .lockPi elts .parked, .leavePi ret =>
    if m.free [entryBucket elts 0] then
      some (s.goto t (m.unlink (entryBucket elts 0) (t, 0)) (.call .lockPi elts
        (ret.elim (.charging 1) (.dropping 1 0))))
    else none
  | .call .waitv elts .parked, .decide err =>
    if endsWait err then
      some (s.goto t m (.call .waitv elts
        (.settle elts.length (List.range elts.length) (waitvResult m t elts.length err))))
    else none
  | .call kind elts (.unlinking linked (j :: left) ret), .unlink =>
    if m.free [(m.waiter (t, j)).home] then
      some (s.goto t (m.unlink (m.waiter (t, j)).home (t, j))
        (.call kind elts (.settle linked left ret)))
    else none
  | .call kind elts (.dropping linked d ret), .drop => some (s.drop t kind elts linked d ret)
  | _, _ => none

def FutexSystem.init (word : ℕ → Option (BitVec 32)) : FutexSystem :=
  { mem :=
      { word := word
        chain := fun _ => []
        waiter := fun _ => ⟨0, 0, false, 0, false, 0, none, false⟩
        published := fun _ => 0
        lock := fun _ => none
        charges := fun _ => []
        counted := fun _ => 0 }
    pc := fun _ => .idle
    log := [] }

end Elfuse
