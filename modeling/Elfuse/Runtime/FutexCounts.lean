/-
The published waiter counts never hide a parked waiter.

The invariant says whose charges every published count is made of: a thread in a
call owes one for each element it has charged and not yet dropped, at the bucket
where it will look for it, and a requeue that is moving a waiter has added a
second one at the destination. A linked waiter's charge is at its own bucket, so
a count is never below the length of the chain.

* `FutexInv` — the invariant, `FutexInv.step` — every step keeps it;
* `futexCounts_cover` — the counts cover the chains in every reachable state,
  and a zero count leaves no waiter behind that expected another value;
* `futexChains_placed` — a waiter is linked once, at the address it waits on.
-/
import Elfuse.Runtime.Futex

namespace Elfuse

open Function Walks Runs List Nat FutexStage FutexPc FutexKind

/-! ### What a thread has in hand -/

def FutexStage.charged (n : ℕ) : FutexStage → ℕ
  | .charging i => i
  | _ => n

/-- How many of `n` elements have been linked. -/
def FutexStage.linked (n : ℕ) : FutexStage → ℕ
  | .charging _ => 0
  | .entering i => i
  | .parked => n
  | .unlinking linked _ _ => linked
  | .dropping linked _ _ => linked

def FutexStage.dropped : FutexStage → ℕ
  | .dropping _ d _ => d
  | _ => 0

/-- The element may be in a chain. -/
def FutexStage.Queued (n : ℕ) : FutexStage → ℕ → Prop
  | .entering i, j => j < i
  | .parked, j => j < n
  | .unlinking linked left _, j => j ∈ left ∧ j < linked
  | _, _ => False

/-- The bucket that element `j` of thread `t` is charged to, while it is. -/
def FutexPc.owes (m : FutexMem) (t : ℕ) (p : FutexPc) (j : ℕ) : Option ℕ :=
  match p with
  | .call kind elts stage =>
    if stage.dropped ≤ j ∧ j < stage.charged elts.length then
      some (dropBucket m t kind elts (stage.linked elts.length) j)
    else none
  | _ => none

def FutexPc.Queued : FutexPc → ℕ → Prop
  | .call _ elts stage, j => stage.Queued elts.length j
  | _, _ => False

def FutexPc.isPi : FutexPc → Bool
  | .call .lockPi _ _ => true
  | _ => false

/-- The locks a thread holds from step to step. -/
def FutexPc.locks : FutexPc → List ℕ
  | .call _ elts (.entering _) => elts.map FutexElt.bucket
  | .walking r _ _ => [r.src, r.dst]
  | .moving r _ _ _ => [r.src, r.dst]
  | _ => []

/-- The waiter a requeue is moving, and the bucket it has charged for it. -/
def FutexPc.carries : FutexPc → Option (FutexKey × ℕ)
  | .moving r _ _ k => some (k, r.dst)
  | _ => none

/-! ### The invariant -/

def Owes (m : FutexMem) (pc : ℕ → FutexPc) (k : FutexKey) (b : ℕ) : Prop :=
  (pc k.1).owes m k.1 k.2 = some b ∨ ∃ t, (pc t).carries = some (k, b)

/-- The waiter `k` of a thread at `p` has its place and its charge at `b`. -/
structure Linked (m : FutexMem) (p : FutexPc) (k : FutexKey) (b : ℕ) : Prop where
  queued : p.Queued k.2
  owes : p.owes m k.1 k.2 = some b
  woken : (m.waiter k).woken = false
  follows : (m.waiter k).pubFollows = !p.isPi
  home : p.isPi = false → (m.waiter k).home = b

/-- No waiter of a PI lock is among those a requeue may still touch. -/
def ScanOk (m : FutexMem) (r : Requeue) (left : ℕ) (todo : List FutexKey) : Prop :=
  hitsWithin (m.waitsOn r.uaddr) (fun k => !(m.waiter k).pubFollows) left todo = false

/-- What a requeue under way relies on. -/
def RequeueOk (m : FutexMem) (pc : ℕ → FutexPc) : FutexPc → Prop
  | .walking r front todo => m.chain r.src = front ++ todo ∧ ScanOk m r r.left todo
  | .moving r front todo k => m.chain r.src = front ++ todo ∧
    ScanOk m r ({ r with requeued := r.requeued + 1 } : Requeue).left todo ∧
    r.src ≠ r.dst ∧ Linked m (pc k.1) k r.src ∧ (m.waiter k).pubFollows = true ∧
    ∀ b, k ∉ m.chain b
  | _ => True

structure Tallied (m : FutexMem) : Prop where
  published_eq : ∀ b, m.published b = (m.charges b).length
  nodup : ∀ b, (m.charges b).Nodup

structure FutexInv (m : FutexMem) (pc : ℕ → FutexPc) : Prop where
  tallied : Tallied m
  chain_nodup : ∀ b, (m.chain b).Nodup
  charged : ∀ k b, k ∈ m.charges b ↔ Owes m pc k b
  linked : ∀ b k, k ∈ m.chain b → Linked m (pc k.1) k b
  locks : ∀ b t, m.lock b = some t ↔ b ∈ (pc t).locks
  requeues : ∀ t, RequeueOk m pc (pc t)

lemma FutexInv.init (word : ℕ → Option (BitVec 32)) :
    FutexInv (FutexSystem.init word).mem (FutexSystem.init word).pc where
  tallied := ⟨fun _ => rfl, fun _ => nodup_nil⟩
  chain_nodup := fun _ => nodup_nil
  charged := by
    intro k b
    constructor
    · intro h
      cases h
    rintro (h | ⟨t, h⟩)
    · cases h
    · cases h
  linked := nofun
  locks := by
    intro b t
    constructor
    · intro h
      cases h
    · intro h
      cases h
  requeues := fun _ => trivial

variable {m m' : FutexMem} {pc : ℕ → FutexPc}

variable {k : FutexKey} {b : ℕ}

lemma mem_update {f : ℕ → List FutexKey} {l : List FutexKey} :
    k ∈ update f b l b' ↔ b' = b ∧ k ∈ l ∨ b' ≠ b ∧ k ∈ f b' := by
  by_cases hb : b' = b <;> simp [hb]

lemma mem_charge : k' ∈ (m.charge b k).charges b' ↔ k' ∈ m.charges b' ∨ k' = k ∧ b' = b := by
  by_cases hb : b' = b <;> simp [FutexMem.charge, hb, or_comm]

lemma Tallied.mem_discharge (h : Tallied m) :
    k' ∈ (m.discharge b k).charges b' ↔ k' ∈ m.charges b' ∧ ¬ (k' = k ∧ b' = b) := by
  by_cases hb : b' = b
  · simp [FutexMem.discharge, hb, (h.nodup b).mem_erase_iff, and_comm]
  · simp [FutexMem.discharge, hb]

lemma Tallied.set (h : Tallied m) {b : ℕ} (hn : n = ks.length) (hks : ks.Nodup) : Tallied { m with
      published := update m.published b n, charges := update m.charges b ks } := by
  refine ⟨fun b' => ?_, (forall_update_iff _ fun _ l => List.Nodup l).mpr
    ⟨hks, fun b' _ => h.nodup b'⟩⟩
  by_cases hb : b' = b <;> simp [hb, hn, h.published_eq]

lemma Tallied.charge (h : Tallied m) (hk : k ∉ m.charges b) : Tallied (m.charge b k) :=
  h.set (by simp [h.published_eq]) (nodup_cons.mpr ⟨hk, h.nodup b⟩)

lemma Tallied.discharge (h : Tallied m) (hk : k ∈ m.charges b) : Tallied (m.discharge b k) := by
  have hpos := length_pos_of_mem hk
  refine h.set ?_ ((h.nodup b).erase k)
  rw [h.published_eq, length_erase_of_mem hk]
  omega

variable {p : FutexPc}

lemma Linked.bucket_unique (h : Linked m p k b) (h' : Linked m p k b') : b = b' :=
  Option.some.inj (h.owes.symm.trans h'.owes)

lemma FutexInv.not_mem_other (hi : FutexInv m pc) (h : k ∈ m.chain b) (hne : b' ≠ b) :
    k ∉ m.chain b' := fun h' =>
  hne ((hi.linked b' k h').bucket_unique (hi.linked b k h))

variable {t : ℕ}

lemma FutexInv.lock_unique (hi : FutexInv m pc) (h : b ∈ (pc t).locks) (h' : b ∈ (pc u).locks) :
    t = u := by
  have ht := (hi.locks b t).mpr h
  have hu := (hi.locks b u).mpr h'
  exact Option.some.inj (ht.symm.trans hu)

lemma FutexInv.unlocked (hi : FutexInv m pc) (h : m.lock b = none) (u : ℕ) : b ∉ (pc u).locks := by
  intro hb
  rw [(hi.locks b u).mpr hb] at h
  cases h

lemma FutexInv.cut (hi : FutexInv m pc) (h : m.chain b = front ++ k :: rest) :
    k ∈ m.chain b ∧ (front ++ rest).Sublist (m.chain b) ∧ k ∉ front ++ rest := by
  have hnd := hi.chain_nodup b
  grind

lemma free_iff {bs : List ℕ} : m.free bs ↔ ∀ b ∈ bs, m.lock b = none := by
  unfold FutexMem.free
  simp

variable {j n : ℕ}

lemma FutexStage.Queued.lt_linked {stage : FutexStage} (h : stage.Queued n j) :
    j < stage.linked n := by
  cases stage with
  | charging i => cases h
  | entering i => exact h
  | parked => exact h
  | unlinking linked left ret => exact h.2
  | dropping linked d ret => cases h

/-- The waiters that are not of a PI lock owe what their own field says, also after a change. -/
lemma Linked.owes_pub (h : Linked m p k b) (hp : p.isPi = false) :
    p.owes m' k.1 k.2 = some (m'.waiter k).pubBucket := by
  have hq := h.queued
  have ho := h.owes
  cases p with
  | idle => cases hq
  | walking r front todo => cases hq
  | moving r front todo k' => cases hq
  | call kind elts stage =>
    have hkind : kind ≠ .lockPi := by
      rintro rfl
      cases hp
    rw [FutexPc.owes] at ho ⊢
    obtain ⟨hbetween, ho⟩ := guarded ho
    rw [if_pos hbetween, dropBucket, if_pos ⟨hkind, FutexStage.Queued.lt_linked hq⟩]

lemma Linked.pub (h : Linked m p k b) (hp : p.isPi = false) : (m.waiter k).pubBucket = b :=
  Option.some.inj ((h.owes_pub hp).symm.trans h.owes)

lemma FutexPc.owes_congr (h : (m'.waiter (t, j)).pubBucket = (m.waiter (t, j)).pubBucket) :
    p.owes m' t j = p.owes m t j := by
  simp [owes, dropBucket, h]

lemma Linked.transfer {p' : FutexPc} (h : Linked m p k b)
    (hw : (m'.waiter k).woken = (m.waiter k).woken ∧
      (m'.waiter k).pubFollows = (m.waiter k).pubFollows ∧ (m'.waiter k).home = (m.waiter k).home)
    (ho : p'.owes m' k.1 k.2 = p.owes m k.1 k.2) (hq : p'.Queued k.2) (hpi : p'.isPi = p.isPi) :
    Linked m' p' k b where
  queued := hq
  owes := ho.trans h.owes
  woken := by rw [hw.1]; exact h.woken
  follows := by rw [hw.2.1, hpi]; exact h.follows
  home := by rw [hw.2.2, hpi]; exact h.home

lemma Linked.congr (h : Linked m p k b) (hw : m'.waiter k = m.waiter k)
    (ho : p.owes m' k.1 k.2 = p.owes m k.1 k.2) : Linked m' p k b :=
  h.transfer (by simp [hw]) ho h.queued rfl

variable {r : Requeue}

lemma ScanOk.congr (h : ScanOk m r n todo)
    (hw : ∀ k ∈ todo, (m'.waiter k).uaddr = (m.waiter k).uaddr ∧
      (m'.waiter k).pubFollows = (m.waiter k).pubFollows) : ScanOk m' r n todo := by
  have heq : hitsWithin (m'.waitsOn r.uaddr) (fun k => !(m'.waiter k).pubFollows) n todo =
      hitsWithin (m.waitsOn r.uaddr) (fun k => !(m.waiter k).pubFollows) n todo := by
    refine hitsWithin_congr ?_ n
    intro k hk
    unfold FutexMem.waitsOn
    rw [(hw k hk).1, (hw k hk).2]
    exact ⟨rfl, rfl⟩
  exact heq.trans h

/-- A requeue goes on while others leave its chains and the waiter it carries alone. -/
lemma RequeueOk.frame (h : RequeueOk m pc p) (hchain : ∀ b ∈ p.locks, m'.chain b = m.chain b)
    (hw : ∀ b ∈ p.locks, ∀ k ∈ m.chain b, (m'.waiter k).uaddr = (m.waiter k).uaddr ∧
      (m'.waiter k).pubFollows = (m.waiter k).pubFollows)
    (hcarry : ∀ k b d, p.carries = some (k, d) → Linked m (pc k.1) k b → (∀ b', k ∉ m.chain b') →
      Linked m' (pc' k.1) k b ∧ (m'.waiter k).pubFollows = (m.waiter k).pubFollows ∧
      ∀ b', k ∉ m'.chain b') : RequeueOk m' pc' p := by
  cases p with
  | idle => trivial
  | call kind elts stage => trivial
  | walking r front todo =>
    have hsrc : r.src ∈ (walking r front todo).locks := mem_cons_self
    obtain ⟨hc, hs⟩ := h
    refine ⟨(hchain _ hsrc).trans hc, hs.congr ?_⟩
    grind
  | moving r front todo k =>
    have hsrc : r.src ∈ (moving r front todo k).locks := mem_cons_self
    obtain ⟨hc, hs, hne, hl, hf, hout⟩ := h
    obtain ⟨hl', hf', hout'⟩ := hcarry k r.src r.dst rfl hl hout
    refine ⟨(hchain _ hsrc).trans hc, hs.congr ?_, hne, hl', hf'.trans hf, hout'⟩
    grind

lemma FutexInv.rebuild (hi : FutexInv m pc) (htally : Tallied m') (hcn : ∀ b, (m'.chain b).Nodup)
    (hcharged : ∀ k b, k ∈ m'.charges b ↔ Owes m' (update pc t p) k b)
    (hlinked : ∀ b k, k ∈ m'.chain b → Linked m' (update pc t p k.1) k b)
    (hlocks : ∀ b u, m'.lock b = some u ↔ b ∈ (update pc t p u).locks)
    (hp : RequeueOk m' (update pc t p) p)
    (hchain : ∀ u b, u ≠ t → b ∈ (pc u).locks → m'.chain b = m.chain b)
    (hwaiter : ∀ u b, u ≠ t → b ∈ (pc u).locks → ∀ k ∈ m.chain b,
      (m'.waiter k).uaddr = (m.waiter k).uaddr ∧ (m'.waiter k).pubFollows = (m.waiter k).pubFollows)
    (hcarry : ∀ u k b d, u ≠ t → (pc u).carries = some (k, d) → Linked m (pc k.1) k b →
      (∀ b', k ∉ m.chain b') → Linked m' (update pc t p k.1) k b ∧
      (m'.waiter k).pubFollows = (m.waiter k).pubFollows ∧ ∀ b', k ∉ m'.chain b') :
    FutexInv m' (update pc t p) := by
  refine ⟨htally, hcn, hcharged, hlinked, hlocks, (forall_update_iff _ _).mpr ⟨hp, ?_⟩⟩
  exact fun u hu => (hi.requeues u).frame (fun b hb => hchain u b hu hb)
    (fun b hb => hwaiter u b hu hb) (fun k b d hc => hcarry u k b d hu hc)

/-! ### Steps that leave the chains alone -/

/-- Words and locks apart, nothing has changed. -/
structure SameQueues (m m' : FutexMem) : Prop where
  chain : m'.chain = m.chain
  waiter : m'.waiter = m.waiter
  charges : m'.charges = m.charges
  published : m'.published = m.published

lemma sameQueues_refl (m : FutexMem) : SameQueues m m := ⟨rfl, rfl, rfl, rfl⟩

lemma sameQueues_unlockAll (m : FutexMem) (t : ℕ) : SameQueues m (m.unlockAll t) :=
  ⟨rfl, rfl, rfl, rfl⟩

lemma Tallied.congr (h : Tallied m) (hcharges : m'.charges = m.charges)
    (hpub : m'.published = m.published) : Tallied m' := by
  refine ⟨?_, ?_⟩
  · rw [hcharges, hpub]
    exact h.published_eq
  · rw [hcharges]
    exact h.nodup

lemma FutexInv.advance (hi : FutexInv m pc) (hchain : m'.chain = m.chain)
    (hwaiter : m'.waiter = m.waiter) (htally : Tallied m')
    (hcharged : ∀ k b, k ∈ m'.charges b ↔ Owes m' (update pc t p) k b)
    (hlink : ∀ j b, Linked m (pc t) (t, j) b → Linked m' p (t, j) b)
    (hlocks : ∀ b u, m'.lock b = some u ↔ b ∈ (update pc t p u).locks)
    (hp : RequeueOk m' (update pc t p) p) : FutexInv m' (update pc t p) := by
  have hl : ∀ k b, Linked m (pc k.1) k b → Linked m' (update pc t p k.1) k b := by
    rintro ⟨u, j⟩ b h
    by_cases hu : u = t
    · subst hu
      simpa using hlink j b h
    · simpa [hu] using h.congr (by rw [hwaiter]) (owes_congr (by rw [hwaiter]))
  refine hi.rebuild htally (by rw [hchain]; exact hi.chain_nodup) hcharged ?_ hlocks hp
    (fun _ b _ _ => by rw [hchain]) (fun _ _ _ _ k _ => by simp [hwaiter]) ?_
  · rw [hchain]
    exact fun b k h => hl k b (hi.linked b k h)
  intro u k b d _ _ hk hout
  rw [hwaiter, hchain]
  exact ⟨hl k b hk, rfl, hout⟩

lemma exists_carries_update (ht : (pc t).carries ≠ some (k, b)) :
    (∃ u, (update pc t p u).carries = some (k, b)) ↔
      p.carries = some (k, b) ∨ ∃ u, (pc u).carries = some (k, b) := by
  rw [exists_update_iff _ fun _ p => carries p = some (k, b)]
  grind

lemma FutexInv.charged_congr (hi : FutexInv m pc) (hcharges : m'.charges = m.charges)
    (ht : (pc t).carries = none) (hp : p.carries = none)
    (ho : ∀ u j, (update pc t p u).owes m' u j = (pc u).owes m u j) (k : FutexKey) (b : ℕ) :
    k ∈ m'.charges b ↔ Owes m' (update pc t p) k b := by
  rw [hcharges, hi.charged k b, Owes, Owes, ho, exists_carries_update (by simp [ht])]
  simp [hp]

lemma owes_update (hwaiter : ∀ k, (m'.waiter k).pubBucket =
    (m.waiter k).pubBucket) (ho : ∀ j, p.owes m t j = (pc t).owes m t j) (u j : ℕ) :
    (update pc t p u).owes m' u j = (pc u).owes m u j := by
  grind [owes_congr]

section
variable (hi : FutexInv m pc)
include hi

lemma FutexInv.proceed (hm : SameQueues m m') (ht : (pc t).carries = none) (hp : p.carries = none)
    (ho : ∀ j, p.owes m t j = (pc t).owes m t j)
    (hlink : ∀ j b, Linked m (pc t) (t, j) b → Linked m' p (t, j) b)
    (hlocks : ∀ b u, m'.lock b = some u ↔ b ∈ (update pc t p u).locks)
    (hreq : RequeueOk m' (update pc t p) p) : FutexInv m' (update pc t p) :=
  hi.advance hm.chain hm.waiter (hi.tallied.congr hm.charges hm.published)
    (hi.charged_congr hm.charges ht hp (owes_update (fun _ => by rw [hm.waiter]) ho)) hlink hlocks
    hreq

lemma FutexInv.requeue_at (hpc : pc t = p) : RequeueOk m pc p :=
  hpc ▸ hi.requeues t

lemma FutexInv.carried (h : (pc u).carries = some (k, b)) :
    ∃ src, src ∈ (pc u).locks ∧ src ≠ b ∧ Linked m (pc k.1) k src ∧
      (m.waiter k).pubFollows ∧ ∀ b', k ∉ m.chain b' := by
  cases hpc : pc u with
  | idle | call | walking => exact nomatch hpc ▸ h
  | moving r front todo k' =>
    rw [hpc] at h
    cases h
    obtain ⟨-, -, hne, hl, hf, hout⟩ := hi.requeue_at hpc
    exact ⟨r.src, mem_cons_self, hne, hl, hf, hout⟩

lemma FutexInv.not_carried (h : ¬ (pc t).Queued j) (u b : ℕ) :
    (pc u).carries ≠ some ((t, j), b) := by
  intro hc
  obtain ⟨src, -, -, hl, -⟩ := hi.carried hc
  exact h hl.queued

lemma locks_update (hm : m'.lock = m.lock) (hp : p.locks = (pc t).locks) (b u : ℕ) :
    m'.lock b = some u ↔ b ∈ (update pc t p u).locks := by
  by_cases hu : u = t <;> simp [hm, hu, hp, hi.locks]

end

/-- A place in a call or between calls, where no requeue is under way. -/
structure Plain (p : FutexPc) : Prop where
  carries : p.carries = none
  requeue : ∀ m pc, RequeueOk m pc p

lemma plain_call (kind : FutexKind) (elts : List FutexElt) (stage : FutexStage) :
    Plain (.call kind elts stage) :=
  ⟨rfl, fun _ _ => trivial⟩

variable {i : ℕ} {taken : List FutexKey}

lemma FutexInv.recharge (hi : FutexInv m pc) (hchain : m'.chain = m.chain)
    (hwaiter : m'.waiter = m.waiter) (hlock : m'.lock = m.lock) (htally : Tallied m')
    (hself : ∀ b, (t, i) ∈ m'.charges b ↔ p.owes m t i = some b)
    (hother : ∀ k b, k ≠ (t, i) → (k ∈ m'.charges b ↔ k ∈ m.charges b))
    (hsame : ∀ j, j ≠ i → p.owes m t j = (pc t).owes m t j) (hplain : Plain (pc t)) (hp : Plain p)
    (hqueued : ∀ j, ¬ (pc t).Queued j) (hlocks : p.locks = (pc t).locks) :
    FutexInv m' (update pc t p) := by
  refine hi.advance hchain hwaiter htally ?_ (fun j b h => absurd h.queued (hqueued j))
    (locks_update hi hlock hlocks) (hp.requeue _ _)
  rintro ⟨v, j⟩ b
  have ho : ∀ q : FutexPc, q.owes m' v j = q.owes m v j := fun q =>
    owes_congr (by rw [hwaiter])
  rw [Owes, exists_carries_update (by simp [hplain.carries]), hp.carries, ho]
  by_cases hk : (v, j) = (t, i)
  · cases hk
    simp [hself, hi.not_carried (hqueued i)]
  · rw [hother _ b hk, hi.charged, Owes]
    grind

lemma FutexInv.charge (hi : FutexInv m pc) (hnow : (pc t).owes m t i = none)
    (hthen : p.owes m t i = some b) (hsame : ∀ j, j ≠ i → p.owes m t j = (pc t).owes m t j)
    (hplain : Plain (pc t)) (hp : Plain p) (hqueued : ∀ j, ¬ (pc t).Queued j)
    (hlocks : p.locks = (pc t).locks) : FutexInv (m.charge b (t, i)) (update pc t p) := by
  have hfresh : ∀ b', (t, i) ∉ m.charges b' := by
    intro b' h
    obtain h | ⟨u, h⟩ := (hi.charged _ _).mp h
    · rw [hnow] at h
      cases h
    · exact hi.not_carried (hqueued i) u b' h
  refine hi.recharge rfl rfl rfl (hi.tallied.charge (hfresh b)) ?_ ?_ hsame hplain hp hqueued hlocks
  · intro b'
    simp [mem_charge, hfresh, hthen, eq_comm]
  · intro k b' hk
    simp [mem_charge, hk]

lemma FutexInv.discharge (hi : FutexInv m pc) (hnow : (pc t).owes m t i = some b)
    (hthen : p.owes m t i = none) (hsame : ∀ j, j ≠ i → p.owes m t j = (pc t).owes m t j)
    (hplain : Plain (pc t)) (hp : Plain p) (hqueued : ∀ j, ¬ (pc t).Queued j)
    (hlocks : p.locks = (pc t).locks) : FutexInv (m.discharge b (t, i)) (update pc t p) := by
  have hmem : (t, i) ∈ m.charges b := (hi.charged _ _).mpr (.inl hnow)
  refine hi.recharge rfl rfl rfl (hi.tallied.discharge hmem) ?_ ?_ hsame hplain hp hqueued hlocks
  · intro b'
    simp [hi.tallied.mem_discharge, hi.charged, Owes, hnow, hthen, hi.not_carried (hqueued i),
      eq_comm]
  · intro k b' hk
    simp [hi.tallied.mem_discharge, hk]

/-! ### Steps that change chains -/

lemma Linked.move (h : Linked m (pc k.1) k b) (hw : m'.waiter k = m.waiter k)
    (ho : (update pc t p k.1).owes m' k.1 k.2 = (pc k.1).owes m k.1 k.2)
    (hq : k.1 = t → p.Queued k.2) (hpi : p.isPi = (pc t).isPi) :
    Linked m' (update pc t p k.1) k b := by
  by_cases hk : k.1 = t
  · have hp : update pc t p k.1 = p := by rw [hk, update_self]
    exact h.transfer (by simp [hw]) ho (by rw [hp]; exact hq hk) (by rw [hp, hpi, hk])
  · rw [update_of_ne hk] at ho ⊢
    exact h.congr hw ho

lemma FutexInv.link (hi : FutexInv m pc) {w : FutexWaiter} (hfree : ∀ u, u ≠ t → b ∉ (pc u).locks)
    (hplain : Plain (pc t)) (hp : Plain p) (hlocks : p.locks = (pc t).locks)
    (hnot : ¬ (pc t).Queued i) (howes : ∀ j, p.owes (m.link b (t, i) w) t j = (pc t).owes m t j)
    (hnew : Linked (m.link b (t, i) w) p (t, i) b)
    (hold : ∀ j, j ≠ i → (pc t).Queued j → p.Queued j) (hpi : p.isPi = (pc t).isPi) :
    FutexInv (m.link b (t, i) w) (update pc t p) := by
  have hout : ∀ b', (t, i) ∉ m.chain b' := fun b' h => hnot (hi.linked b' _ h).queued
  have hne : ∀ {k : FutexKey}, k ≠ (t, i) → (m.link b (t, i) w).waiter k = m.waiter k := fun h =>
    update_of_ne h _ _
  have howes' : ∀ u j, (update pc t p u).owes (m.link b (t, i) w) u j = (pc u).owes m u j := by
    intro u j
    by_cases hu : u = t
    · rw [hu, update_self]
      exact howes j
    · rw [update_of_ne hu]
      exact owes_congr (by rw [hne (fun h => hu (congrArg Prod.fst h))])
  have hin : ∀ b' k, k ∈ (m.link b (t, i) w).chain b' → b' = b ∧ k = (t, i) ∨ k ∈ m.chain b' := by
    intro b' k
    by_cases hb : b' = b <;> simp [FutexMem.link, hb]
  have hl : ∀ k b', k ≠ (t, i) → Linked m (pc k.1) k b' →
      Linked (m.link b (t, i) w) (update pc t p k.1) k b' := by
    rintro k b' hk h
    refine h.move (hne hk) (howes' k.1 k.2) ?_ hpi
    rintro rfl
    exact hold k.2 (fun h' => hk (Prod.ext rfl h')) h.queued
  refine hi.rebuild ⟨hi.tallied.published_eq, hi.tallied.nodup⟩ ?_ ?_ ?_
    (locks_update hi rfl hlocks) (hp.requeue _ _) ?_ ?_ ?_
  · exact (forall_update_iff _ fun _ l => List.Nodup l).mpr
      ⟨nodup_cons.mpr ⟨hout b, hi.chain_nodup b⟩, fun b' _ => hi.chain_nodup b'⟩
  · exact hi.charged_congr rfl hplain.carries hp.carries howes'
  · intro b' k hk
    obtain ⟨rfl, rfl⟩ | hk := hin b' k hk
    · simpa using hnew
    · exact hl k b' (fun h => hout b' (h ▸ hk)) (hi.linked b' k hk)
  · intro u b' hu hb
    exact update_of_ne (fun h : b' = b => hfree u hu (h ▸ hb)) _ _
  · intro u b' _ _ k hk
    rw [hne (fun h => hout b' (h ▸ hk))]
    exact ⟨rfl, rfl⟩
  intro u k b' d hu hc hk hkout
  have hkt : k ≠ (t, i) := by
    rintro rfl
    exact hnot hk.queued
  grind

/-- Waiters leave the chain of `b`, and some of them are marked woken. -/
lemma FutexInv.shrink (hi : FutexInv m pc) (hcharges : m'.charges = m.charges)
    (hpub : m'.published = m.published)
    (hlocks : ∀ b u, m'.lock b = some u ↔ b ∈ (update pc t p u).locks)
    (hcar : (pc t).carries = none) (hcar' : p.carries = none) (hp : RequeueOk m' (update pc t p) p)
    (hother : ∀ b', b' ≠ b → m'.chain b' = m.chain b') (hsub : (m'.chain b).Sublist (m.chain b))
    (hfree : ∀ u, u ≠ t → b ∉ (pc u).locks)
    (hfields : ∀ k, { m'.waiter k with woken := (m.waiter k).woken } = m.waiter k)
    (hwoken : ∀ k, k ∈ m.chain b ∧ k ∉ m'.chain b ∨ m'.waiter k = m.waiter k)
    (howes : ∀ j, p.owes m t j = (pc t).owes m t j) (hpi : p.isPi = (pc t).isPi)
    (hkeep : ∀ j, (pc t).Queued j → p.Queued j ∨
      (∀ b', (t, j) ∉ m'.chain b') ∧ ∀ u d, (pc u).carries ≠ some ((t, j), d)) :
    FutexInv m' (update pc t p) := by
  have hmem : ∀ b' k, k ∈ m'.chain b' → k ∈ m.chain b' := by
    grind
  have hpubB : ∀ k, (m'.waiter k).pubBucket = (m.waiter k).pubBucket := by
    intro k
    rw [← hfields k]
  have howes' : ∀ u j, (update pc t p u).owes m' u j = (pc u).owes m u j :=
    owes_update hpubB howes
  have hl : ∀ k b', m'.waiter k = m.waiter k → (k.1 = t → p.Queued k.2) → Linked m (pc k.1) k b' →
      Linked m' (update pc t p k.1) k b' := by
    intro k b' hw hq h
    exact h.move hw (howes' k.1 k.2) hq hpi
  have hstay : ∀ k b', k ∈ m'.chain b' → m'.waiter k = m.waiter k := by
    intro k b' hk
    obtain ⟨hkb, hkb'⟩ | hw := hwoken k
    · by_cases hb : b' = b
      · rw [hb] at hk
        exact absurd hk hkb'
      · exact absurd (hmem b' k hk) (hi.not_mem_other hkb hb)
    · exact hw
  refine hi.rebuild (hi.tallied.congr hcharges hpub) ?_ ?_ ?_ hlocks hp ?_ ?_ ?_
  · intro b'
    by_cases hb : b' = b
    · rw [hb]
      exact hsub.nodup (hi.chain_nodup b)
    · rw [hother b' hb]
      exact hi.chain_nodup b'
  · exact hi.charged_congr hcharges hcar hcar' howes'
  · intro b' k hk
    have hold := hi.linked b' k (hmem b' k hk)
    refine hl k b' (hstay k b' hk) ?_ hold
    rintro rfl
    exact (hkeep k.2 hold.queued).resolve_right fun h => h.1 b' hk
  · grind
  · grind
  intro u k b' d hu hc hk hkout
  have hw : m'.waiter k = m.waiter k :=
    (hwoken k).resolve_left fun h => hkout b h.1
  refine ⟨hl k b' hw ?_ hk, by rw [hw], fun b'' h => hkout b'' (hmem b'' k h)⟩
  rintro rfl
  exact (hkeep k.2 hk.queued).resolve_right fun h => h.2 u d hc

/-- A thread outside the calls that wait: it owes nothing and has no waiter. -/
structure Outside (p : FutexPc) : Prop where
  queued : ∀ j, ¬ p.Queued j
  owes : ∀ m t j, p.owes m t j = none
  isPi : p.isPi = false

lemma outside_idle : Outside .idle := ⟨fun _ h => h, fun _ _ _ => rfl, rfl⟩

lemma outside_walking (r : Requeue) (front todo : List FutexKey) :
    Outside (.walking r front todo) :=
  ⟨fun _ h => h, fun _ _ _ => rfl, rfl⟩

lemma outside_moving (r : Requeue) (front todo : List FutexKey) (k : FutexKey) :
    Outside (.moving r front todo k) :=
  ⟨fun _ h => h, fun _ _ _ => rfl, rfl⟩

lemma FutexInv.wake (hi : FutexInv m pc) (hrest : rest.Sublist (m.chain b))
    (htaken : ∀ k ∈ taken, k ∈ m.chain b ∧ k ∉ rest) (hfree : ∀ u, u ≠ t → b ∉ (pc u).locks)
    (ht : Outside (pc t)) (hp : Outside p) (hcar : (pc t).carries = none) (hcar' : p.carries = none)
    (hlocks : p.locks = (pc t).locks)
    (hreq : RequeueOk (({ m with chain := update m.chain b rest }).markWoken taken)
      (update pc t p) p) :
    FutexInv (({ m with chain := update m.chain b rest }).markWoken taken) (update pc t p) := by
  have hself : update m.chain b rest b = rest := update_self _ _ _
  refine hi.shrink (b := b) rfl rfl (locks_update hi rfl hlocks) hcar hcar' hreq ?_ ?_
    hfree ?_ ?_ ?_ (by rw [hp.isPi, ht.isPi]) ?_
  · exact fun b' hb => update_of_ne hb _ _
  · show (update m.chain b rest b).Sublist _
    rw [hself]
    exact hrest
  · intro k
    by_cases hk : k ∈ taken <;> simp [FutexMem.markWoken, hk]
  · intro k
    by_cases hk : k ∈ taken
    · refine .inl ⟨(htaken k hk).1, ?_⟩
      show k ∉ update m.chain b rest b
      rw [hself]
      exact (htaken k hk).2
    · exact .inr (if_neg hk)
  · intro j
    rw [hp.owes, ht.owes]
  · exact fun j h => absurd h (ht.queued j)

lemma FutexInv.pluck_split (hi : FutexInv m pc) (f : FutexKey → Bool) (n b : ℕ) :
    (pluck f n (m.chain b)).2.Sublist (m.chain b) ∧
      ∀ k ∈ (pluck f n (m.chain b)).1, k ∈ m.chain b ∧ k ∉ (pluck f n (m.chain b)).2 := by
  refine ⟨pluck_sublist n _, fun k hk => ⟨mem_pluck.mpr (.inl hk), ?_⟩⟩
  exact (pluck_nodup (hi.chain_nodup b)).2.2 k hk

/-- A thread takes its waiter out of the chain of `b`, where it is if it is in any chain. -/
lemma FutexInv.unlink (hi : FutexInv m pc) (hfree : m.lock b = none)
    (hat : ∀ b', Linked m (pc t) (t, j) b' → b' = b) (hplain : Plain (pc t)) (hp : Plain p)
    (hlocks : p.locks = (pc t).locks) (howes : ∀ i, p.owes m t i = (pc t).owes m t i)
    (hpi : p.isPi = (pc t).isPi) (hold : ∀ i, i ≠ j → (pc t).Queued i → p.Queued i) :
    FutexInv (m.unlink b (t, j)) (update pc t p) := by
  have hself : (m.unlink b (t, j)).chain b = (m.chain b).erase (t, j) := update_self _ _ _
  have hother : ∀ b', b' ≠ b → (m.unlink b (t, j)).chain b' = m.chain b' := fun b' h =>
    update_of_ne h _ _
  refine hi.shrink (b := b) rfl rfl (locks_update hi rfl hlocks) hplain.carries
    hp.carries (hp.requeue _ _) hother ?_ (fun u _ => hi.unlocked hfree u) (fun _ => rfl)
    (fun _ => .inr rfl) howes hpi ?_
  · rw [hself]
    exact erase_sublist
  intro i hi'
  by_cases hij : i = j
  · subst hij
    refine .inr ⟨?_, ?_⟩
    · intro b' hmem
      by_cases hb : b' = b
      · rw [hb, hself, (hi.chain_nodup b).mem_erase_iff] at hmem
        exact hmem.1 rfl
      · rw [hother b' hb] at hmem
        exact hb (hat b' (hi.linked b' _ hmem))
    · intro u d hc
      -- a waiter on the move is under a lock that this thread could not have found free
      obtain ⟨src, hsrc, -, hl, -⟩ := hi.carried hc
      exact hi.unlocked hfree u (hat src hl ▸ hsrc)
  · exact .inl (hold i hij hi')

/-! ### The steps of a requeue -/

lemma Outside.owes_update (ht : Outside (pc t)) (hp : Outside p) (u j : ℕ) :
    (update pc t p u).owes m u j = (pc u).owes m u j :=
  Elfuse.owes_update (fun _ => rfl) (fun j => by rw [hp.owes, ht.owes]) u j

lemma Linked.ne_outside (h : Linked m (pc k.1) k b) (ht : Outside (pc t)) : k.1 ≠ t := by
  intro hk
  have hq := h.queued
  rw [hk] at hq
  exact ht.queued k.2 hq

lemma FutexInv.pass (hi : FutexInv m pc) (hm : SameQueues m m') (ht : Outside (pc t))
    (hp : Outside p) (hcar : (pc t).carries = none) (hcar' : p.carries = none)
    (hlocks : ∀ b u, m'.lock b = some u ↔ b ∈ (update pc t p u).locks)
    (hreq : RequeueOk m' (update pc t p) p) : FutexInv m' (update pc t p) :=
  hi.proceed hm hcar hcar' (fun j => by rw [hp.owes, ht.owes])
    (fun j _ h => absurd h.queued (ht.queued j)) hlocks hreq

lemma rekey_other (u : ℕ) (h : k' ≠ k) : (m.rekey k u).waiter k' = m.waiter k' :=
  update_of_ne h _ _

lemma Linked.rekey (h : Linked m p k' b) (k : FutexKey) (u : ℕ) : Linked (m.rekey k u) p k' b := by
  have hself : (m.rekey k u).waiter k = { m.waiter k with uaddr := u, moved := true } :=
    update_self _ _ _
  have howes : p.owes (m.rekey k u) k'.1 k'.2 = p.owes m k'.1 k'.2 := by
    refine owes_congr ?_
    by_cases hk : (k'.1, k'.2) = k
    · rw [hk, hself]
    · rw [rekey_other u hk]
  by_cases hk : k' = k
  · subst hk
    exact h.transfer (by simp [hself]) howes h.queued rfl
  · exact h.congr (rekey_other u hk) howes

/-- Source and destination are one bucket: only the address changes. -/
lemma FutexInv.rekey (hi : FutexInv m pc) (u2 : ℕ) (hb : b ∈ (pc t).locks) (hk : k ∈ m.chain b)
    (ht : Outside (pc t)) (hp : Outside p) (hcar : (pc t).carries = none) (hcar' : p.carries = none)
    (hlocks : p.locks = (pc t).locks) (hreq : RequeueOk (m.rekey k u2) (update pc t p) p) :
    FutexInv (m.rekey k u2) (update pc t p) := by
  have hl : ∀ k' b', Linked m (pc k'.1) k' b' →
      Linked (m.rekey k u2) (update pc t p k'.1) k' b' := by
    intro k' b' h
    rw [update_of_ne (h.ne_outside ht)]
    exact h.rekey k u2
  have hpub : ∀ k', ((m.rekey k u2).waiter k').pubBucket = (m.waiter k').pubBucket := by
    intro k'
    by_cases h : k' = k
    · rw [h, show (m.rekey k u2).waiter k = _ from update_self _ _ _]
    · rw [rekey_other u2 h]
  refine hi.rebuild ⟨hi.tallied.published_eq, hi.tallied.nodup⟩ hi.chain_nodup ?_ ?_
    (locks_update hi rfl hlocks) hreq ?_ ?_ ?_
  · exact hi.charged_congr rfl hcar hcar' (owes_update hpub fun j => by rw [hp.owes, ht.owes])
  · exact fun b' k' h => hl k' b' (hi.linked b' k' h)
  · exact fun _ _ _ _ => rfl
  · intro u b' hu hb' k' hk'
    have hne : k' ≠ k := by
      rintro rfl
      have hbb : b' = b := (hi.linked b' k' hk').bucket_unique (hi.linked b k' hk)
      exact hu (hi.lock_unique (hbb ▸ hb') hb)
    rw [rekey_other u2 hne]
    exact ⟨rfl, rfl⟩
  · intro u k' b' d _ _ h hout
    have hne : k' ≠ k := by
      rintro rfl
      exact hout b hk
    exact ⟨hl k' b' h, by rw [rekey_other u2 hne], hout⟩

/-- A waiter leaves the source chain; it is charged twice now. -/
lemma FutexInv.moveOut (hi : FutexInv m pc) (hpc : pc t = .walking r front (k :: rest))
    (hne : r.src ≠ r.dst) (hf : (m.waiter k).pubFollows)
    (hscan : ScanOk m r ({ r with requeued := r.requeued + 1 } : Requeue).left rest) :
    FutexInv (m.moveOut r (front ++ rest) k) (update pc t (.moving r front rest k)) := by
  have hchain : m.chain r.src = front ++ k :: rest := (hi.requeue_at hpc).1
  obtain ⟨hk, hsub, hgone⟩ := hi.cut hchain
  have ht : Outside (pc t) := hpc ▸ outside_walking _ _ _
  have hcar : (pc t).carries = none := hpc ▸ rfl
  have hsrc : r.src ∈ (pc t).locks := hpc ▸ mem_cons_self
  have hlinked := hi.linked r.src k hk
  -- a waiter in a chain is charged at that bucket only
  have hfresh : k ∉ m.charges r.dst := by
    intro h
    obtain h | ⟨u, h⟩ := (hi.charged _ _).mp h
    · exact hne (Option.some.inj (hlinked.owes.symm.trans h))
    · obtain ⟨-, -, -, -, -, hout⟩ := hi.carried h
      exact hout r.src hk
  have hm : m.moveOut r (front ++ rest) k =
      ({ m with chain := update m.chain r.src (front ++ rest) }).charge r.dst k := by
    unfold FutexMem.moveOut
    rw [if_pos hf]
  rw [hm]
  have hmem : ∀ b' k', k' ∈ update m.chain r.src (front ++ rest) b' → k' ∈ m.chain b' ∧ k' ≠ k := by
    intro b' k' h
    obtain ⟨rfl, hin⟩ | ⟨hb, hin⟩ := mem_update.mp h
    · exact ⟨hsub.subset hin, fun heq => hgone (heq ▸ hin)⟩
    · exact ⟨hin, fun heq => hi.not_mem_other hk hb (heq ▸ hin)⟩
  have hl : ∀ k' b', Linked m (pc k'.1) k' b' →
      Linked (({ m with chain := update m.chain r.src (front ++ rest) }).charge r.dst k)
        (update pc t (.moving r front rest k) k'.1) k' b' := by
    intro k' b' h
    rw [update_of_ne (h.ne_outside ht)]
    exact h.congr rfl rfl
  refine hi.rebuild ?_ ?_ ?_ ?_ (locks_update hi rfl (hpc ▸ rfl)) ?_ ?_ ?_ ?_
  · have htally : Tallied { m with chain := update m.chain r.src (front ++ rest) } :=
      ⟨hi.tallied.published_eq, hi.tallied.nodup⟩
    exact htally.charge hfresh
  · exact (forall_update_iff _ fun _ l => List.Nodup l).mpr
      ⟨hsub.nodup (hi.chain_nodup _), fun b' _ => hi.chain_nodup b'⟩
  · intro k' b'
    rw [mem_charge]
    rw [hi.charged k' b', Owes, Owes, ht.owes_update (outside_moving r front rest k)]
    rw [exists_carries_update (by simp [hcar]), or_assoc, or_comm (b := k' = k ∧ b' = r.dst)]
    refine or_congr Iff.rfl (or_congr_left ?_)
    simp [carries, eq_comm]
  · exact fun b' k' h => hl k' b' (hi.linked b' k' (hmem b' k' h).1)
  · refine ⟨update_self _ _ _, hscan, hne, hl k r.src hlinked, hf, ?_⟩
    exact fun b' h => (hmem b' k h).2 rfl
  · intro u b' hu hb'
    refine update_of_ne ?_ _ _
    rintro rfl
    exact hu (hi.lock_unique hb' hsrc)
  · exact fun _ _ _ _ _ _ => ⟨rfl, rfl⟩
  · exact fun u k' b' d _ _ h hout => ⟨hl k' b' h, rfl, fun b'' h' => hout b'' (hmem b'' k' h').1⟩

/-- A waiter that takes its charge along, at its new place. -/
def FutexMem.settled (m : FutexMem) (r : Requeue) (k : FutexKey) : FutexMem :=
  { m.discharge r.src k with
    waiter := Function.update m.waiter k { m.waiter k with
      uaddr := r.uaddr2, home := r.dst, moved := true, pubBucket := r.dst }
    chain := Function.update m.chain r.dst (k :: m.chain r.dst) }

lemma FutexMem.moveIn_eq (hf : (m.waiter k).pubFollows)
    (hpub : (m.waiter k).pubBucket = r.src) : m.moveIn r k = m.settled r k := by
  simp only [FutexMem.moveIn, FutexMem.settled, hf, hpub, if_true]

/-- The waiter enters the destination chain, with the charge it has there. -/
lemma FutexInv.moveIn (hi : FutexInv m pc) (hpc : pc t = .moving r front todo k) :
    FutexInv (m.moveIn r k)
      (update pc t (.walking { r with requeued := r.requeued + 1 } front todo)) := by
  obtain ⟨hchain, hscan, hne, hlinked, hf, hout⟩ := hi.requeue_at hpc
  have ht : Outside (pc t) := hpc ▸ outside_moving _ _ _ _
  have hp := outside_walking { r with requeued := r.requeued + 1 } front todo
  have hnotPi : (pc k.1).isPi = false := by
    have hfollows := hlinked.follows
    grind
  rw [FutexMem.moveIn_eq hf (hlinked.pub hnotPi)]
  have hlocks : ∀ b, b = r.src ∨ b = r.dst → b ∈ (pc t).locks := by
    intro b hb
    rw [hpc]
    exact mem_cons.mpr (hb.imp_right mem_singleton.mpr)
  have hmem : k ∈ m.charges r.src := (hi.charged _ _).mpr (.inl hlinked.owes)
  -- nobody else is moving this waiter
  have honly : ∀ u b, (pc u).carries = some (k, b) → u = t := by
    intro u b hc
    obtain ⟨src, hlock, -, hl, -⟩ := hi.carried hc
    have heq : src = r.src := hl.bucket_unique hlinked
    exact hi.lock_unique (heq ▸ hlock) (hlocks _ (.inl rfl))
  have hself : (m.settled r k).waiter k = { m.waiter k with
      uaddr := r.uaddr2, home := r.dst, moved := true, pubBucket := r.dst } :=
    update_self _ _ _
  have hother : ∀ {k'}, k' ≠ k → (m.settled r k).waiter k' = m.waiter k' := fun h =>
    update_of_ne h _ _
  have hchain' : ∀ b, b ≠ r.dst → (m.settled r k).chain b = m.chain b := fun b h =>
    update_of_ne h _ _
  have hnew : Linked (m.settled r k) (pc k.1) k r.dst := by
    refine ⟨hlinked.queued, ?_, ?_, ?_, ?_⟩
    · rw [hlinked.owes_pub hnotPi, hself]
    · rw [hself]
      exact hlinked.woken
    · rw [hself]
      exact hlinked.follows
    · intro _
      rw [hself]
  have howes : ∀ k', k' ≠ k → (pc k'.1).owes (m.settled r k) k'.1 k'.2 =
      (pc k'.1).owes m k'.1 k'.2 := fun k' h => owes_congr (by rw [hother h])
  have hl : ∀ k' b', k' ≠ k → Linked m (pc k'.1) k' b' →
      Linked (m.settled r k) (pc k'.1) k' b' := fun k' b' h hk' => hk'.congr (hother h) (howes k' h)
  have hmem' : ∀ b k', k' ∈ (m.settled r k).chain b → k' = k ∧ b = r.dst ∨ k' ∈ m.chain b := by
    intro b k' h
    obtain ⟨rfl, hin⟩ | ⟨-, hin⟩ := mem_update.mp h
    · grind
    · exact .inr hin
  have hstill : ∀ k' b', Linked m (pc k'.1) k' b' → update pc t
      (.walking { r with requeued := r.requeued + 1 } front todo) k'.1 = pc k'.1 := fun k' b' h =>
    update_of_ne (h.ne_outside ht) _ _
  refine hi.rebuild ?_ ?_ ?_ ?_ (locks_update hi rfl (hpc ▸ rfl)) ?_ ?_ ?_ ?_
  · have htally := hi.tallied.discharge hmem
    exact ⟨htally.published_eq, htally.nodup⟩
  · exact (forall_update_iff _ fun _ l => List.Nodup l).mpr
      ⟨nodup_cons.mpr ⟨hout r.dst, hi.chain_nodup r.dst⟩, fun b _ => hi.chain_nodup b⟩
  · intro k' b
    rw [show (m.settled r k).charges = (m.discharge r.src k).charges from rfl,
      hi.tallied.mem_discharge, hi.charged k' b, Owes, Owes, ht.owes_update hp]
    by_cases hk' : k' = k
    · -- it had two charges, and keeps the one at the destination
      subst hk'
      have hck : (∃ u, (pc u).carries = some (k', b)) ↔ b = r.dst := by
        constructor
        · rintro ⟨u, hu⟩
          obtain rfl := honly u b hu
          rw [hpc] at hu
          cases hu
          rfl
        · rintro rfl
          exact ⟨t, by rw [hpc]; rfl⟩
      have hnone : ¬ ∃ u, (update pc t
          (.walking { r with requeued := r.requeued + 1 } front todo) u).carries =
              some (k', b) := by
        rintro ⟨u, hu⟩
        by_cases h : u = t
        · simp [h, carries] at hu
        · rw [update_of_ne h] at hu
          exact h (honly u b hu)
      rw [hlinked.owes, hnew.owes, hck]
      grind
    · rw [howes k' hk', exists_carries_update (by simp [hpc, carries, Ne.symm hk'])]
      simp [hk', carries]
  · intro b k' h
    obtain ⟨rfl, rfl⟩ | h := hmem' b k' h
    · grind
    · have hold := hi.linked b k' h
      grind
  · refine ⟨(hchain' r.src hne).trans hchain, hscan.congr ?_⟩
    intro k' hk'
    have hmem : k' ∈ m.chain r.src := by
      grind
    rw [hother (fun heq => hout r.src (heq ▸ hmem))]
    exact ⟨rfl, rfl⟩
  · intro u b hu hb
    refine hchain' b ?_
    rintro rfl
    exact hu (hi.lock_unique hb (hlocks _ (.inr rfl)))
  · intro u b _ _ k' hk'
    rw [hother (fun heq => hout b (heq ▸ hk'))]
    exact ⟨rfl, rfl⟩
  · intro u k' b d hu hc h hout'
    have hk' : k' ≠ k := by
      rintro rfl
      exact hu (honly u d hc)
    grind

/-! ### Locks and stages -/

lemma FutexInv.lock_all (hi : FutexInv m pc) (hfree : m.free p.locks)
    (ht : (pc t).locks = []) (b u : ℕ) :
    (m.lockAll t p.locks).lock b = some u ↔ b ∈ (update pc t p u).locks := by
  show (if b ∈ p.locks then some t else m.lock b) = some u ↔ _
  by_cases hu : u = t
  · by_cases hb : b ∈ p.locks <;> simp [hu, hb, hi.locks, ht]
  by_cases hb : b ∈ p.locks
  · simp [hu, hb, Ne.symm hu, ← hi.locks, free_iff.mp hfree b hb]
  · simp [hu, hb, hi.locks]

lemma FutexInv.unlock_all (hi : FutexInv m pc) (hp : p.locks = []) (b u : ℕ) :
    (m.unlockAll t).lock b = some u ↔ b ∈ (update pc t p u).locks := by
  show (if m.lock b = some t then none else m.lock b) = some u ↔ _
  by_cases hu : u = t
  · simp [hu, hp]
  · by_cases hb : m.lock b = some t <;> simp [hu, hb, Ne.symm hu, ← hi.locks]

variable {kind : FutexKind} {st : FutexStage} {elts : List FutexElt}

lemma owes_call (j : ℕ) : (call kind elts st).owes m t j =
      if st.dropped ≤ j ∧ j < st.charged elts.length then
        some (dropBucket m t kind elts (st.linked elts.length) j) else none := rfl

lemma owes_of_stage (hc : st'.charged elts.length = st.charged elts.length)
    (hl : st'.linked elts.length = st.linked elts.length) (hd : st'.dropped = st.dropped) (j : ℕ) :
    (call kind elts st').owes m t j = (call kind elts st).owes m t j := by
  rw [owes_call, owes_call, hc, hl, hd]

lemma isPi_call (kind : FutexKind) (elts : List FutexElt) (st st' : FutexStage) :
    (call kind elts st').isPi = (call kind elts st).isPi := by
  cases kind <;> rfl

lemma FutexInv.restage (hi : FutexInv m pc) (hpc : pc t = .call kind elts st)
    (hm : SameQueues m m') (hc : st'.charged elts.length = st.charged elts.length)
    (hl : st'.linked elts.length = st.linked elts.length) (hd : st'.dropped = st.dropped)
    (hq : ∀ j b, Linked m (pc t) (t, j) b → st'.Queued elts.length j)
    (hlocks : ∀ b u, m'.lock b = some u ↔ b ∈ (update pc t (.call kind elts st') u).locks) :
    FutexInv m' (update pc t (.call kind elts st')) := by
  have howes : ∀ j, (call kind elts st').owes m t j = (pc t).owes m t j := fun j =>
    hpc ▸ owes_of_stage hc hl hd j
  refine hi.proceed hm (hpc ▸ rfl) rfl howes ?_ hlocks trivial
  intro j b h
  exact h.transfer (by simp [hm.waiter]) ((owes_congr (by rw [hm.waiter])).trans (howes j))
    (hq j b h) (hpc ▸ isPi_call kind elts st st')

lemma FutexInv.setWord (hi : FutexInv m pc) (w : ℕ → Option (BitVec 32)) :
    FutexInv { m with word := w } pc := by
  refine ⟨⟨hi.tallied.published_eq, hi.tallied.nodup⟩, hi.chain_nodup, hi.charged,
    fun b k h => (hi.linked b k h).congr rfl rfl, hi.locks, fun t => ?_⟩
  exact (hi.requeues t).frame (fun _ _ => rfl) (fun _ _ _ _ => ⟨rfl, rfl⟩)
    fun k b d _ h hout => ⟨h.congr rfl rfl, rfl, hout⟩

/-! ### The shape of a call -/

/-- The stages a call of this kind, with so many elements, can be at. -/
structure FutexStage.Fits (kind : FutexKind) (n : ℕ) (stage : FutexStage) : Prop where
  dropped : stage.dropped < n
  unlinks : ∀ linked left ret, stage = .unlinking linked left ret → kind = .waitv

/-- A call has the elements it began with, and is within them. -/
def FutexPc.Shaped : FutexPc → Prop
  | .call kind elts stage => kind.begins elts = true ∧ stage.Fits kind elts.length
  | _ => True

lemma FutexPc.Shaped.restage (h : (call kind elts st).Shaped)
    (hd : st'.dropped = st.dropped) (hu : ∀ linked left ret, st' ≠ .unlinking linked left ret) :
    (call kind elts st').Shaped :=
  ⟨h.1, hd ▸ h.2.dropped, fun linked left ret heq => absurd heq (hu linked left ret)⟩

lemma FutexKind.begins_length (h : kind.begins elts) : 0 < elts.length := by
  cases kind with
  | wait bitset =>
    grind [begins]
  | waitv =>
    simp only [begins, Bool.and_eq_true, decide_eq_true_eq] at h
    exact h.1.1
  | lockPi =>
    grind [begins]

lemma FutexKind.begins_one (h : kind.begins elts) (hk : kind ≠ .waitv) : elts.length = 1 := by
  cases kind with
  | wait bitset => simpa [begins] using h
  | waitv => exact absurd rfl hk
  | lockPi => simpa [begins] using h

lemma FutexStage.settle_dropped (linked : ℕ) (left : List ℕ) (ret : ℤ) :
    (settle linked left ret).dropped = 0 := by
  unfold settle
  split <;> rfl

/-! ### Each call's step -/

lemma markWoken_fields (m : FutexMem) (ws : List FutexKey) (k : FutexKey) :
    ((m.markWoken ws).waiter k).uaddr = (m.waiter k).uaddr ∧
      ((m.markWoken ws).waiter k).pubFollows = (m.waiter k).pubFollows := by
  show (if k ∈ ws then _ else _ : FutexWaiter).uaddr = _ ∧ (if k ∈ ws then _ else _ :
    FutexWaiter).pubFollows = _
  split <;> exact ⟨rfl, rfl⟩

lemma FutexInv.pluckWake (hi : FutexInv m pc) (hpc : pc t = .idle) (hfree : m.lock b = none)
    (f : FutexKey → Bool) (n : ℕ) :
    FutexInv (({ m with chain := update m.chain b (pluck f n (m.chain b)).2 }).markWoken
      (pluck f n (m.chain b)).1) pc := by
  have hsplit := hi.pluck_split f n b
  have h := hi.wake (p := .idle) hsplit.1 hsplit.2 (fun u _ => hi.unlocked hfree u)
    (hpc ▸ outside_idle) outside_idle (hpc ▸ rfl) rfl (by rw [hpc]) trivial
  grind [update_eq_self]

lemma FutexInv.wakeWalk (hi : FutexInv m pc) (hpc : pc t = .idle) (hfree : m.lock b = none)
    (uaddr : ℕ) (bitset : BitVec 32) (n : ℕ) : FutexInv (m.wakeWalk b uaddr bitset n).2 pc :=
  hi.pluckWake hpc hfree _ n

lemma futexWake_cases (m : FutexMem) (uaddr : ℕ) (val bitset : BitVec 32) :
    (futexWake m uaddr val bitset).2 = m ∨ ∃ n,
      (futexWake m uaddr val bitset).2 = (m.wakeWalk (futexHash uaddr) uaddr bitset n).2 := by
  unfold futexWake
  grind

lemma FutexInv.futexWake (hi : FutexInv m pc) (hpc : pc t = .idle)
    (hfree : m.free [futexHash uaddr]) (val bitset : BitVec 32) :
    FutexInv (futexWake m uaddr val bitset).2 pc := by
  obtain h | ⟨n, h⟩ := futexWake_cases m uaddr val bitset
  · rw [h]
    exact hi
  · exact h ▸ hi.wakeWalk hpc (free_iff.mp hfree _ mem_cons_self) _ _ n

lemma FutexInv.wakePair (hi : FutexInv m pc) (hpc : pc t = .idle)
    (hlock : m.lock (futexHash uaddr) = none) (hlock2 : m.lock (futexHash uaddr2) = none) (n n2 : ℕ)
    (met : Bool) : FutexInv (m.wakePair uaddr n uaddr2 n2 met).2 pc := by
  have hi1 := hi.wakeWalk hpc hlock uaddr futexBitsetMatchAny n
  unfold FutexMem.wakePair
  split
  · exact hi1.wakeWalk hpc hlock2 _ _ _
  · exact hi1

lemma futexWakeOp_cases (m : FutexMem) (uaddr uaddr2 : ℕ) (val val2 val3 : BitVec 32) :
    ∃ w, (futexWakeOp m uaddr val uaddr2 val2 val3).2 = { m with word := w } ∨ ∃ n n2 met,
      (futexWakeOp m uaddr val uaddr2 val2 val3).2 =
        (FutexMem.wakePair { m with word := w } uaddr n uaddr2 n2 met).2 := by
  unfold futexWakeOp
  dsimp only
  split
  · exact ⟨m.word, .inl rfl⟩
  split
  · exact ⟨m.word, .inl rfl⟩
  split
  · exact ⟨m.word, .inl rfl⟩
  split
  · exact ⟨_, .inl rfl⟩
  split
  · exact ⟨_, .inl rfl⟩
  · exact ⟨_, .inr ⟨_, _, _, rfl⟩⟩

lemma FutexInv.futexWakeOp (hi : FutexInv m pc) (hpc : pc t = .idle)
    (hfree : m.free [futexHash uaddr, futexHash uaddr2]) (val val2 val3 : BitVec 32) :
    FutexInv (futexWakeOp m uaddr val uaddr2 val2 val3).2 pc := by
  have hlock := free_iff.mp hfree _ mem_cons_self
  have hlock2 := free_iff.mp hfree _ (mem_cons_of_mem _ mem_cons_self)
  obtain ⟨w, h | ⟨n, n2, met, h⟩⟩ := futexWakeOp_cases m uaddr uaddr2 val val2 val3
  · exact h ▸ hi.setWord w
  · exact h ▸ (hi.setWord w).wakePair hpc (by exact hlock) (by exact hlock2) n n2 met

lemma FutexInv.requeueBegin (hi : FutexInv m pc) {cmp : Option (BitVec 32)} (hpc : pc t = .idle)
    (hfree : m.free [r.src, r.dst]) (hnew : r.woken = 0 ∧ r.requeued = 0)
    (hok : (m.requeueRefused r cmp).isSome = false) :
    FutexInv (m.lockAll t [r.src, r.dst]) (update pc t (.walking r [] (m.chain r.src))) := by
  have hscan : ScanOk m r r.left (m.chain r.src) := by
    unfold FutexMem.requeueRefused at hok
    split at hok
    · cases hok
    split at hok
    · cases hok
    grind [ScanOk, Requeue.left]
  have hlocks : (walking r [] (m.chain r.src)).locks = [r.src, r.dst] := rfl
  rw [← hlocks] at hfree ⊢
  exact hi.pass ⟨rfl, rfl, rfl, rfl⟩ (hpc ▸ outside_idle) (outside_walking _ _ _) (hpc ▸ rfl) rfl
    (hi.lock_all hfree (hpc ▸ rfl)) ⟨rfl, hscan⟩

lemma FutexInv.requeueEnd (hi : FutexInv m pc) (hpc : pc t = .walking r front todo) :
    FutexInv (m.unlockAll t) (update pc t .idle) :=
  hi.pass (sameQueues_unlockAll m t) (hpc ▸ outside_walking _ _ _) outside_idle (hpc ▸ rfl) rfl
    (hi.unlock_all rfl) trivial

lemma Requeue.left_wake (h : r.act = .wake) :
    r.left = ({ r with woken := r.woken + 1 } : Requeue).left + 1 := by
  grind [Requeue.left, Requeue.act]

lemma Requeue.left_move (h : r.act = .move) :
    r.left = ({ r with requeued := r.requeued + 1 } : Requeue).left + 1 := by
  grind [Requeue.left, Requeue.act]

variable {s : FutexSystem}

/-- A requeue looks at the next waiter of the source chain. -/
lemma FutexInv.requeueStep (hi : FutexInv s.mem s.pc) (hpc : s.pc t = .walking r front todo) :
    FutexInv (s.requeueStep t r front todo).mem (s.requeueStep t r front todo).pc := by
  obtain ⟨hchain, hscan⟩ := hi.requeue_at hpc
  have hcar : (s.pc t).carries = none := hpc ▸ rfl
  have hout : Outside (s.pc t) := hpc ▸ outside_walking _ _ _
  have hlocks : ∀ r' front' todo', r'.src = r.src → r'.dst = r.dst →
      (walking r' front' todo').locks = (s.pc t).locks := by
    intro r' front' todo' h1 h2
    rw [hpc]
    show [r'.src, r'.dst] = [r.src, r.dst]
    rw [h1, h2]
  have hsrc : r.src ∈ (s.pc t).locks := hpc ▸ mem_cons_self
  cases todo with
  | nil => exact hi.requeueEnd hpc
  | cons k rest =>
    have hshift : (front ++ [k]) ++ rest = front ++ k :: rest := by simp
    obtain ⟨hk, hsub, hgone⟩ := hi.cut hchain
    unfold FutexSystem.requeueStep
    dsimp only
    split
    · -- the waiter is on another address
      rename_i hwaits
      have hw : s.mem.waitsOn r.uaddr k = false := by simpa using hwaits
      refine hi.pass (sameQueues_refl _) hout (outside_walking _ _ _) hcar rfl
        (locks_update hi rfl (hlocks _ _ _ rfl rfl)) ⟨hchain.trans hshift.symm, ?_⟩
      rw [ScanOk, hitsWithin_skip hw] at hscan
      exact hscan
    rename_i hwaits
    have hw : s.mem.waitsOn r.uaddr k := by simpa using hwaits
    cases hact : r.act with
    | stop => exact hi.requeueEnd hpc
    | wake =>
      rw [ScanOk, Requeue.left_wake hact] at hscan
      obtain ⟨-, hrest⟩ := hitsWithin_take hw hscan
      refine hi.wake hsub ?_ ?_ hout (outside_walking _ _ _) hcar rfl (hlocks _ _ _ rfl rfl) ?_
      · grind
      · exact fun u hu hb => hu (hi.lock_unique hb hsrc)
      refine ⟨update_self _ _ _, ?_⟩
      have hscan' : ScanOk s.mem r ({ r with woken := r.woken + 1 } : Requeue).left rest := hrest
      refine ScanOk.congr (m := s.mem) hscan' ?_
      intro k' _
      exact markWoken_fields _ _ k'
    | move =>
      rw [ScanOk, Requeue.left_move hact] at hscan
      obtain ⟨hf, hrest⟩ := hitsWithin_take hw hscan
      dsimp only
      split
      · refine hi.rekey r.uaddr2 hsrc hk hout (outside_walking _ _ _) hcar rfl
          (hlocks _ _ _ rfl rfl) ⟨hchain.trans hshift.symm, ?_⟩
        refine ScanOk.congr (m := s.mem) hrest ?_
        intro k' hk'
        have hne : k' ≠ k := by
          grind
        rw [rekey_other _ hne]
        exact ⟨rfl, rfl⟩
      · rename_i hne
        exact hi.moveOut hpc hne (by simpa using hf) hrest

lemma FutexStage.settle_charged (n linked : ℕ) (left : List ℕ) (ret : ℤ) :
    (settle linked left ret).charged n = n := by
  unfold settle
  split <;> rfl

lemma FutexStage.settle_linked (n linked : ℕ) (left : List ℕ) (ret : ℤ) :
    (settle linked left ret).linked n = linked := by
  unfold settle
  split <;> rfl

variable {linked : ℕ} {left : List ℕ} {ret : ℤ}

lemma FutexStage.settle_queued (hj : j ∈ left) (hl : j < linked) :
    (settle linked left ret).Queued n j := by
  unfold settle
  rw [if_neg (ne_nil_of_mem hj)]
  exact ⟨hj, hl⟩

lemma settle_locks (kind : FutexKind) (elts : List FutexElt) (linked : ℕ) (left : List ℕ)
    (ret : ℤ) : (call kind elts (.settle linked left ret)).locks = [] := by
  unfold settle
  split <;> rfl

variable {e : FutexElt}

lemma entryBucket_of_getElem? (h : elts[i]? = some e) : entryBucket elts i = e.bucket := by
  rw [entryBucket, h, Option.map_some, Option.getD_some]

lemma FutexInv.enterLink (hi : FutexInv m pc) (hpc : pc t = .call kind elts (.entering i))
    (he : elts[i]? = some e) : FutexInv (m.link e.bucket (t, i) (kind.waiter e))
      (update pc t (.call kind elts (.entering (i + 1)))) := by
  have hlt : i < elts.length := (List.getElem?_eq_some_iff.mp he).1
  have hmem : e ∈ elts := List.mem_of_getElem? he
  have hself : (m.link e.bucket (t, i) (kind.waiter e)).waiter (t, i) = kind.waiter e :=
    update_self _ _ _
  have hother : ∀ j, j ≠ i → (m.link e.bucket (t, i) (kind.waiter e)).waiter (t, j) =
      m.waiter (t, j) := fun j h => update_of_ne (by simp [h]) _ _
  have hown : e.bucket ∈ (pc t).locks := by
    rw [hpc]
    exact List.mem_map_of_mem hmem
  have hpub : kind ≠ .lockPi → (kind.waiter e).pubBucket = e.bucket := by
    intro _
    cases kind <;> rfl
  -- before, the element is charged to the bucket of its word; now, to the one its waiter names
  have howes : ∀ j, (call kind elts (.entering (i + 1))).owes
      (m.link e.bucket (t, i) (kind.waiter e)) t j = (pc t).owes m t j := by
    intro j
    rw [hpc, owes_call, owes_call]
    refine if_congr Iff.rfl (congrArg some ?_) rfl
    show dropBucket _ t kind elts (i + 1) j = dropBucket m t kind elts i j
    unfold dropBucket
    by_cases hk : kind = .lockPi
    · simp [hk]
    by_cases hj : j = i
    · subst hj
      rw [if_pos ⟨hk, lt_succ_self j⟩, if_neg (by omega), hself, hpub hk,
        entryBucket_of_getElem? he]
    by_cases hji : j < i
    · rw [if_pos ⟨hk, by omega⟩, if_pos ⟨hk, hji⟩, hother j hj]
    · rw [if_neg (by omega), if_neg (by omega)]
  refine hi.link ?_ (hpc ▸ plain_call _ _ _) (plain_call _ _ _) (hpc ▸ rfl) ?_
    howes ⟨lt_succ_self i, ?_, ?_, ?_, ?_⟩ ?_ (hpc ▸ isPi_call _ _ _ _)
  · exact fun u hu hb => hu (hi.lock_unique hb hown)
  · rw [hpc]
    exact lt_irrefl i
  · rw [howes, hpc, owes_call]
    rw [if_pos ⟨zero_le i, hlt⟩]
    refine congrArg some ?_
    show dropBucket m t kind elts i i = _
    rw [dropBucket, if_neg (by omega), entryBucket_of_getElem? he]
  · rw [hself]
    cases kind <;> rfl
  · rw [hself]
    cases kind <;> rfl
  · rw [hself]
    cases kind with
    | wait | waitv => exact fun _ => rfl
    | lockPi => exact nofun
  · intro j _ hj
    rw [hpc] at hj
    exact lt_succ_of_lt hj

lemma FutexInv.settle (hi : FutexInv m pc) (ret : ℤ) (hpc : pc t = .call kind elts st)
    (hc : st.charged elts.length = elts.length) (hl : st.linked elts.length = linked)
    (hd : st.dropped = 0) (hleft : ∀ j, st.Queued elts.length j → j ∈ left ∧ j < linked)
    (hm : m' = m ∧ (pc t).locks = [] ∨ m' = m.unlockAll t) :
    FutexInv m' (update pc t (.call kind elts (.settle linked left ret))) := by
  have hsame : SameQueues m m' := by
    obtain ⟨rfl, -⟩ | rfl := hm
    · exact sameQueues_refl m'
    · exact sameQueues_unlockAll m t
  refine hi.restage hpc hsame (by rw [settle_charged, hc])
    (by rw [settle_linked, hl]) (by rw [settle_dropped, hd]) ?_ ?_
  · intro j b h
    rw [hpc] at h
    obtain ⟨h1, h2⟩ := hleft j h.queued
    exact settle_queued h1 h2
  · obtain ⟨rfl, hlocks⟩ | rfl := hm
    · exact locks_update hi rfl (by rw [settle_locks, hlocks])
    · exact hi.unlock_all (settle_locks _ _ _ _ _)

/-! ### Every step -/

structure FutexOk (s : FutexSystem) : Prop where
  inv : FutexInv s.mem s.pc
  shaped : ∀ t, (s.pc t).Shaped

lemma FutexOk.init (word : ℕ → Option (BitVec 32)) : FutexOk (FutexSystem.init word) :=
  ⟨FutexInv.init word, fun _ => trivial⟩

lemma shaped_goto (hs : ∀ t, (s.pc t).Shaped) (t : ℕ) (m : FutexMem) (hp : p.Shaped) (u : ℕ) :
    ((s.goto t m p).pc u).Shaped := by
  show (update s.pc t p u).Shaped
  grind

lemma FutexOk.goto (h : FutexOk s) (hi : FutexInv m (update s.pc t p)) (hp : p.Shaped) :
    FutexOk (s.goto t m p) :=
  ⟨hi, shaped_goto h.shaped t m hp⟩

lemma FutexOk.shape (h : FutexOk s) (hpc : s.pc t = p) : p.Shaped :=
  hpc ▸ h.shaped t

lemma FutexOk.requeueStep (h : FutexOk s) (hpc : s.pc t = .walking r front todo) :
    FutexOk (s.requeueStep t r front todo) := by
  refine ⟨h.inv.requeueStep hpc, ?_⟩
  have hgoto := fun m p (hp : FutexPc.Shaped p) => shaped_goto h.shaped t m hp
  unfold FutexSystem.requeueStep
  split
  · exact hgoto _ _ trivial
  split
  · exact hgoto _ _ trivial
  split
  · exact hgoto _ _ trivial
  · exact hgoto _ _ trivial
  · split <;> exact hgoto _ _ trivial

variable {s' : FutexSystem}

lemma FutexOk.enter (h : FutexOk s) (hpc : s.pc t = .call kind elts (.entering i))
    (hs : s.enter t kind elts i = some s') : FutexOk s' := by
  have hshape := h.shape hpc
  unfold FutexSystem.enter at hs
  split at hs
  · cases hs
  rename_i e he
  split at hs
  · -- the word has moved: the locks are given back, and what was linked is unlinked
    rename_i err _
    cases hs
    refine h.goto (h.inv.settle err hpc rfl rfl rfl ?_ (.inr rfl)) ⟨hshape.1, ?_, ?_⟩
    · intro j hj
      exact ⟨List.mem_reverse.mpr (List.mem_range.mpr hj), hj⟩
    · rw [settle_dropped]
      exact hshape.2.dropped
    -- a call with one element has linked none
    intro linked left ret hst
    by_contra hk
    have hone := begins_one hshape.1 hk
    have hlt : i < elts.length := (List.getElem?_eq_some_iff.mp he).1
    obtain rfl : i = 0 := by omega
    cases hst
  have hi := h.inv.enterLink hpc he
  split at hs
  · cases hs
    exact h.goto hi (hshape.restage rfl nofun)
  -- the last element: the locks are given back
  cases hs
  refine h.goto ?_ (hshape.restage rfl nofun)
  have hlt : i < elts.length := (List.getElem?_eq_some_iff.mp he).1
  have hpc' : update s.pc t (.call kind elts (.entering (i + 1))) t =
      .call kind elts (.entering (i + 1)) := update_self _ _ _
  have hstage : FutexInv ((s.mem.link e.bucket (t, i) (kind.waiter e)).unlockAll t)
      (update (update s.pc t (.call kind elts (.entering (i + 1)))) t
        (.call kind elts .parked)) := by
    refine hi.restage hpc' ⟨rfl, rfl, rfl, rfl⟩ rfl ?_ rfl ?_ (hi.unlock_all rfl)
    · show elts.length = i + 1
      omega
    intro j b hj
    rw [hpc'] at hj
    exact (lt_of_lt_of_le hj.queued hlt : j < elts.length)
  rw [update_idem] at hstage
  exact hstage

lemma FutexInv.leave (hi : FutexInv m pc) (hpc : pc t = .call kind elts .parked)
    (hone : elts.length = 1) (hfree : m.lock b = none)
    (hat : ∀ b', Linked m (pc t) (t, 0) b' → b' = b) (hc : st.charged 1 = 1)
    (hl : kind = .lockPi ∨ st.linked 1 = 1) (hd : st.dropped = 0)
    (hlocks : (call kind elts st).locks = []) :
    FutexInv (m.unlink b (t, 0)) (update pc t (.call kind elts st)) := by
  refine hi.unlink hfree hat (hpc ▸ plain_call _ _ _) (plain_call _ _ _)
    (by rw [hpc, hlocks]; rfl) ?_ (hpc ▸ isPi_call _ _ _ _) ?_
  · intro j
    rw [hpc, owes_call, owes_call, hone]
    refine if_congr ?_ (congrArg some ?_) rfl
    · rw [hc, hd]
      rfl
    obtain rfl | hl := hl
    · simp [dropBucket]
    · rw [hl]
      rfl
  · intro i hne hq
    rw [hpc] at hq
    have hq' : i < elts.length := hq
    omega

lemma linked_home (hpc : pc t = .call kind elts st) (hk : kind ≠ .lockPi)
    (h : Linked m (pc t) (t, j) b) : b = (m.waiter (t, j)).home := by
  have hpi : (pc t).isPi = false := by
    rw [hpc]
    cases kind with
    | wait bitset => rfl
    | waitv => rfl
    | lockPi => exact absurd rfl hk
  exact (h.home hpi).symm

/-- An element's charge is dropped; after the last one the thread is idle. -/
lemma FutexOk.drop (h : FutexOk s) {d : ℕ}
    (hpc : s.pc t = .call kind elts (.dropping linked d ret)) :
    FutexOk (s.drop t kind elts linked d ret) := by
  have hshape := h.shape hpc
  have hd : d < elts.length := hshape.2.dropped
  have hnow : (s.pc t).owes s.mem t d = some (dropBucket s.mem t kind elts linked d) := by
    rw [hpc, owes_call]
    exact if_pos ⟨le_refl d, hd⟩
  have hplain : Plain (s.pc t) := hpc ▸ plain_call _ _ _
  have hqueued : ∀ j, ¬ (s.pc t).Queued j := by
    intro j hj
    rw [hpc] at hj
    exact hj
  unfold FutexSystem.drop
  split
  · rename_i hlt
    refine h.goto (h.inv.discharge hnow ?_ ?_ hplain (plain_call _ _ _) hqueued
      (hpc ▸ rfl)) ⟨hshape.1, hlt, nofun⟩
    · rw [owes_call]
      exact if_neg fun hle => absurd hle.1 (not_succ_le_self d)
    intro j hj
    rw [hpc, owes_call, owes_call]
    refine if_congr ?_ rfl rfl
    show d + 1 ≤ j ∧ j < elts.length ↔ d ≤ j ∧ j < elts.length
    omega
  · have hok := h.goto (h.inv.discharge (p := .idle) hnow rfl (fun j hj => by
      rw [hpc, owes_call]
      exact (if_neg (by
        show ¬ (d ≤ j ∧ j < elts.length)
        omega)).symm) hplain ⟨rfl, fun _ _ => trivial⟩ hqueued (hpc ▸ rfl)) trivial
    exact ⟨hok.inv, hok.shaped⟩

variable {l : ℕ × FutexAct}

lemma FutexOk.begin (h : FutexOk s) (hpc : s.pc t = .idle) (hbegins : kind.begins elts) :
    FutexOk (s.goto t { s.mem with counted := fun k => if k.1 = t then 0 else s.mem.counted k }
      (.call kind elts (.charging 0))) := by
  refine h.goto (h.inv.proceed ⟨rfl, rfl, rfl, rfl⟩ (hpc ▸ rfl) rfl ?_ ?_
    (locks_update h.inv rfl (hpc ▸ rfl)) trivial)
    ⟨hbegins, begins_length hbegins, nofun⟩
  · intro j
    rw [hpc, owes_call]
    exact if_neg fun hlt => absurd hlt.2 (Nat.not_lt_zero j)
  intro j b hj
  rw [hpc] at hj
  exact absurd hj.queued (outside_idle.queued j)

lemma FutexOk.charge (h : FutexOk s) (hpc : s.pc t = .call kind elts (.charging i))
    (he : elts[i]? = some e) :
    FutexOk (s.goto t (s.mem.charge e.bucket (t, i)) (.call kind elts (.charging (i + 1)))) := by
  refine h.goto (h.inv.charge ?_ ?_ ?_ (hpc ▸ plain_call _ _ _)
    (plain_call _ _ _) ?_ (hpc ▸ rfl)) ((h.shape hpc).restage rfl nofun)
  · rw [hpc, owes_call]
    exact if_neg fun hlt => absurd hlt.2 (Nat.lt_irrefl i)
  · rw [owes_call, if_pos ⟨Nat.zero_le i, Nat.lt_succ_self i⟩]
    refine congrArg some ?_
    rw [dropBucket, if_neg fun hlt => absurd hlt.2 (Nat.not_lt_zero i), entryBucket_of_getElem? he]
  · intro j hj
    rw [hpc, owes_call, owes_call]
    refine if_congr ?_ rfl rfl
    show 0 ≤ j ∧ j < i + 1 ↔ 0 ≤ j ∧ j < i
    omega
  · intro j hj
    rw [hpc] at hj
    exact hj

lemma FutexOk.leave (h : FutexOk s) (hpc : s.pc t = .call (.wait bitset) elts .parked)
    (hfree : s.mem.free [(s.mem.waiter (t, 0)).home]) :
    FutexOk (s.leave t (.wait bitset) elts err) := by
  have hshape := h.shape hpc
  have hone : elts.length = 1 := begins_one hshape.1 (nofun)
  unfold FutexSystem.leave
  split
  · -- a wake has taken it out of its chain
    rename_i hwoken
    refine h.goto (h.inv.restage hpc ⟨rfl, rfl, rfl, rfl⟩ rfl hone.symm rfl ?_
      (locks_update h.inv rfl (hpc ▸ rfl))) (hshape.restage rfl nofun)
    intro j b hj
    have hq := hj.queued
    rw [hpc] at hq
    have hlt : j < elts.length := hq
    obtain rfl : j = 0 := by omega
    rw [hj.woken] at hwoken
    cases hwoken
  · exact h.goto (h.inv.leave hpc hone (free_iff.mp hfree _ List.mem_cons_self)
      (fun b hb => linked_home hpc (nofun) hb) rfl (.inr rfl) rfl rfl) (hshape.restage rfl nofun)

lemma FutexOk.leavePi (h : FutexOk s) (hpc : s.pc t = .call .lockPi elts .parked)
    (hfree : s.mem.free [entryBucket elts 0]) (ret : Option ℤ) :
    FutexOk (s.goto t (s.mem.unlink (entryBucket elts 0) (t, 0))
      (.call .lockPi elts (ret.elim (.charging 1) (.dropping 1 0)))) := by
  have hshape := h.shape hpc
  have hone : elts.length = 1 := begins_one hshape.1 (nofun)
  have hat : ∀ b', Linked s.mem (s.pc t) (t, 0) b' → b' = entryBucket elts 0 := by
    intro b' hb
    have ho := hb.owes
    rw [hpc, owes_call, hone, if_pos ⟨Nat.le_refl 0, Nat.one_pos⟩] at ho
    grind [dropBucket]
  have hlock := free_iff.mp hfree _ List.mem_cons_self
  cases ret <;> exact h.goto (h.inv.leave hpc hone hlock hat rfl (.inl rfl) rfl rfl)
    (hshape.restage rfl nofun)

lemma FutexOk.unlink (h : FutexOk s)
    (hpc : s.pc t = .call kind elts (.unlinking linked (j :: left) ret))
    (hfree : s.mem.free [(s.mem.waiter (t, j)).home]) :
    FutexOk (s.goto t (s.mem.unlink (s.mem.waiter (t, j)).home (t, j))
      (.call kind elts (.settle linked left ret))) := by
  have hshape := h.shape hpc
  obtain rfl : kind = .waitv := hshape.2.unlinks _ _ _ rfl
  have hk : waitv ≠ .lockPi := nofun
  refine h.goto (h.inv.unlink (free_iff.mp hfree _ List.mem_cons_self)
    (fun b hb => linked_home hpc hk hb) (hpc ▸ plain_call _ _ _)
    (plain_call _ _ _) (by rw [hpc, settle_locks]; rfl) ?_
    (hpc ▸ isPi_call _ _ _ _) ?_) ⟨hshape.1, ?_, fun _ _ _ _ => rfl⟩
  · intro i
    rw [hpc]
    exact owes_of_stage (by exact settle_charged _ _ _ _)
      (by exact settle_linked _ _ _ _) (by exact settle_dropped _ _ _) i
  · intro i hne hq
    rw [hpc] at hq
    obtain ⟨hmem, hlt⟩ : i ∈ j :: left ∧ i < linked := hq
    exact settle_queued ((List.mem_cons.mp hmem).resolve_left hne) hlt
  · rw [settle_dropped]
    exact hshape.2.dropped

lemma FutexOk.step (h : FutexOk s) (hs : s.next l = some s') : FutexOk s' := by
  obtain ⟨t, act⟩ := l
  unfold FutexSystem.next at hs
  dsimp only at hs
  split at hs
  · -- a word changes
    cases hs
    exact ⟨h.inv.setWord _, h.shaped⟩
  · -- FUTEX_WAKE
    rename_i hpc
    obtain ⟨hfree, ⟨⟩⟩ := guarded hs
    exact ⟨h.inv.futexWake hpc hfree _ _, h.shaped⟩
  · -- FUTEX_WAKE_OP
    rename_i hpc
    obtain ⟨hfree, ⟨⟩⟩ := guarded hs
    exact ⟨h.inv.futexWakeOp hpc hfree _ _ _, h.shaped⟩
  · -- the wake of an unlock or of the robust walk
    rename_i hpc
    obtain ⟨hfree, ⟨⟩⟩ := guarded hs
    exact ⟨h.inv.pluckWake hpc (free_iff.mp hfree _ List.mem_cons_self) _ _, h.shaped⟩
  · -- a requeue begins
    rename_i hpc
    obtain ⟨hfree, hs⟩ := guarded hs
    split at hs
    · cases hs
      exact h
    rename_i hok
    cases hs
    exact h.goto (h.inv.requeueBegin hpc hfree ⟨rfl, rfl⟩ (Bool.eq_false_iff.mpr hok)) trivial
  · -- it looks at the next waiter
    rename_i hpc
    cases hs
    exact h.requeueStep hpc
  · -- it completes a move
    rename_i hpc
    cases hs
    exact h.goto (h.inv.moveIn hpc) trivial
  · -- a call begins
    rename_i hpc
    obtain ⟨hbegins, ⟨⟩⟩ := guarded hs
    exact h.begin hpc hbegins
  · -- an element is charged
    rename_i hpc
    split at hs
    · rename_i he
      cases hs
      exact h.charge hpc he
    · cases hs
  · -- a call returns before it waits
    rename_i hpc
    obtain ⟨hcond, ⟨⟩⟩ := guarded hs
    refine h.goto (h.inv.restage hpc ⟨rfl, rfl, rfl, rfl⟩ hcond.1.symm rfl rfl ?_
      (locks_update h.inv rfl (hpc ▸ rfl))) ((h.shape hpc).restage rfl nofun)
    intro j b hj
    rw [hpc] at hj
    exact absurd hj.queued id
  · -- the bucket locks are taken
    rename_i kind elts i hpc
    obtain ⟨hcond, ⟨⟩⟩ := guarded hs
    refine h.goto (h.inv.restage hpc ⟨rfl, rfl, rfl, rfl⟩ hcond.1.symm rfl rfl ?_
      (h.inv.lock_all (p := .call kind elts (.entering 0)) hcond.2.2 (hpc ▸ rfl)))
      ((h.shape hpc).restage rfl nofun)
    intro j b hj
    rw [hpc] at hj
    exact absurd hj.queued id
  · -- an element's word is checked
    rename_i hpc
    exact h.enter hpc hs
  · -- a parked wait leaves
    rename_i hpc
    obtain ⟨hcond, ⟨⟩⟩ := guarded hs
    exact h.leave hpc hcond.2
  · -- a parked lock leaves
    rename_i hpc
    obtain ⟨hfree, ⟨⟩⟩ := guarded hs
    exact h.leavePi hpc hfree _
  · -- a parked vector wait fixes its result
    rename_i hpc
    have hshape := h.shape hpc
    obtain ⟨-, ⟨⟩⟩ := guarded hs
    refine h.goto (h.inv.settle _ hpc rfl rfl rfl ?_ (.inl ⟨rfl, by rw [hpc]; rfl⟩))
      ⟨hshape.1, ?_, fun _ _ _ _ => rfl⟩
    · exact fun j hj => ⟨List.mem_range.mpr hj, hj⟩
    · rw [settle_dropped]
      exact hshape.2.dropped
  · -- it unlinks an element
    rename_i hpc
    obtain ⟨hfree, ⟨⟩⟩ := guarded hs
    exact h.unlink hpc hfree
  · -- a charge is dropped
    rename_i hpc
    cases hs
    exact h.drop hpc
  · cases hs

/-! ### Who is in a chain, and why -/

/-- Whoever is in a chain now was there before. -/
def Stays (m m' : FutexMem) : Prop :=
  ∀ b k, k ∈ m'.chain b → k ∈ m.chain b ∧ m'.waiter k = m.waiter k

lemma Stays.trans {m'' : FutexMem} (h : Stays m m') (h' : Stays m' m'') : Stays m m'' := by
  intro b k hk
  obtain ⟨h1, h2⟩ := h' b k hk
  obtain ⟨h3, h4⟩ := h b k h1
  exact ⟨h3, h2.trans h4⟩

lemma stays_of_eq (hchain : m'.chain = m.chain) (hwaiter : m'.waiter = m.waiter) : Stays m m' := by
  intro b k hk
  grind

section
variable (hi : FutexInv m pc)
include hi

lemma FutexInv.stays_woken (hrest : rest.Sublist (m.chain b))
    (htaken : ∀ k ∈ taken, k ∈ m.chain b ∧ k ∉ rest) :
    Stays m (({ m with chain := update m.chain b rest }).markWoken taken) := by
  intro b' k hk
  obtain ⟨rfl, hin⟩ | ⟨hb, hin⟩ := mem_update.mp hk
  · exact ⟨hrest.subset hin, if_neg fun ht => (htaken k ht).2 hin⟩
  · exact ⟨hin, if_neg fun ht => hi.not_mem_other (htaken k ht).1 hb hin⟩

lemma FutexInv.stays_wakeWalk (b uaddr : ℕ) (bitset : BitVec 32) (n : ℕ) :
    Stays m (m.wakeWalk b uaddr bitset n).2 :=
  hi.stays_woken (hi.pluck_split _ n b).1 (hi.pluck_split _ n b).2

lemma FutexInv.stays_wake (uaddr : ℕ) (val bitset : BitVec 32) :
    Stays m (Elfuse.futexWake m uaddr val bitset).2 := by
  obtain h | ⟨n, h⟩ := futexWake_cases m uaddr val bitset
  · exact stays_of_eq (by rw [h]) (by rw [h])
  · exact h ▸ hi.stays_wakeWalk _ _ _ n

lemma FutexInv.stays_wakePair (hpc : pc t = .idle) (hlock : m.lock (futexHash uaddr) = none)
    (n uaddr2 n2 : ℕ) (met : Bool) : Stays m (m.wakePair uaddr n uaddr2 n2 met).2 := by
  have hs1 := hi.stays_wakeWalk (futexHash uaddr) uaddr futexBitsetMatchAny n
  unfold FutexMem.wakePair
  split
  · exact hs1.trans ((hi.wakeWalk hpc hlock _ _ _).stays_wakeWalk _ _ _ _)
  · exact hs1

lemma FutexInv.stays_wakeOp (hpc : pc t = .idle) (uaddr2 : ℕ)
    (hlock : m.lock (futexHash uaddr) = none) (val val2 val3 : BitVec 32) :
    Stays m (Elfuse.futexWakeOp m uaddr val uaddr2 val2 val3).2 := by
  have hs1 : ∀ w, Stays m { m with word := w } := fun w => stays_of_eq rfl rfl
  obtain ⟨w, h | ⟨n, n2, met, h⟩⟩ := futexWakeOp_cases m uaddr uaddr2 val val2 val3
  · exact h ▸ hs1 w
  · exact h ▸ (hs1 w).trans ((hi.setWord w).stays_wakePair hpc (by exact hlock) n uaddr2 n2 met)

end

lemma stays_unlink (m : FutexMem) (b : ℕ) (k : FutexKey) : Stays m (m.unlink b k) := by
  intro b' k' hk
  obtain ⟨rfl, hk⟩ | ⟨-, hk⟩ := mem_update.mp hk
  · exact ⟨mem_of_mem_erase hk, rfl⟩
  · exact ⟨hk, rfl⟩

/-- A member of a chain after a step: it was there, or its element's word has just been checked,
or a requeue has given it an address of this bucket. -/
inductive Joined (m m' : FutexMem) (b : ℕ) (k : FutexKey) : Prop
  | stayed (hk : k ∈ m.chain b) (hw : m'.waiter k = m.waiter k)
  | entered (kind : FutexKind) (e : FutexElt) (hcheck : kind.barred m e = none)
    (hb : b = e.bucket) (hw : m'.waiter k = kind.waiter e)
  | requeued (hm : (m'.waiter k).moved = true) (hb : futexHash (m'.waiter k).uaddr = b)

lemma Stays.joined (h : Stays m m') (hk : k ∈ m'.chain b) : Joined m m' b k :=
  .stayed (h b k hk).1 (h b k hk).2

lemma FutexOk.joined_requeueStep (h : FutexOk s) (hpc : s.pc t = .walking r front todo)
    (hk : k ∈ (s.requeueStep t r front todo).mem.chain b) :
    Joined s.mem (s.requeueStep t r front todo).mem b k := by
  have hchain := (h.inv.requeue_at hpc).1
  have hsame : ∀ m, m.chain = s.mem.chain → m.waiter = s.mem.waiter → k ∈ m.chain b →
      Joined s.mem m b k := fun m h1 h2 hm => (stays_of_eq h1 h2).joined hm
  unfold FutexSystem.requeueStep at hk ⊢
  cases todo with
  | nil => exact hsame _ rfl rfl hk
  | cons x rest =>
    obtain ⟨hx, hsub, hgone⟩ := h.inv.cut hchain
    dsimp only at hk ⊢
    split at hk
    · rename_i hwaits
      rw [if_pos hwaits]
      exact hsame _ rfl rfl hk
    rename_i hwaits
    rw [if_neg hwaits]
    cases hact : r.act with
    | stop =>
      rw [hact] at hk
      exact hsame _ rfl rfl hk
    | wake =>
      rw [hact] at hk
      refine (h.inv.stays_woken hsub ?_).joined hk
      grind
    | move =>
      rw [hact] at hk
      dsimp only at hk ⊢
      split at hk
      · -- one bucket: the address changes where the waiter is
        rename_i hone
        rw [if_pos hone]
        have hmem : k ∈ s.mem.chain b := hk
        by_cases hkx : k = x
        · subst hkx
          have hself : (s.mem.rekey k r.uaddr2).waiter k =
              { s.mem.waiter k with uaddr := r.uaddr2, moved := true } :=
            update_self _ _ _
          have hb : b = r.src := by
            by_contra hb
            exact h.inv.not_mem_other hx hb hmem
          refine .requeued ?_ ?_
          · show ((s.mem.rekey k r.uaddr2).waiter k).moved
            rw [hself]
          show futexHash ((s.mem.rekey k r.uaddr2).waiter k).uaddr = b
          rw [hself, hb, hone]
          rfl
        · exact .stayed hmem (rekey_other _ hkx)
      · -- two buckets: the waiter leaves its chain
        rename_i hne
        rw [if_neg hne]
        have hparts : (s.mem.moveOut r (front ++ rest) x).chain =
            update s.mem.chain r.src (front ++ rest) ∧
            (s.mem.moveOut r (front ++ rest) x).waiter = s.mem.waiter := by
          unfold FutexMem.moveOut
          split <;> exact ⟨rfl, rfl⟩
        change k ∈ (s.mem.moveOut r (front ++ rest) x).chain b at hk
        rw [hparts.1] at hk
        refine .stayed ?_ (congrFun hparts.2 k)
        obtain ⟨rfl, hin⟩ | ⟨-, hin⟩ := mem_update.mp hk
        · exact hsub.subset hin
        · exact hin

lemma FutexOk.joined_enter (h : FutexOk s) (hpc : s.pc t = .call kind elts (.entering i))
    (hs : s.enter t kind elts i = some s') (hk : k ∈ s'.mem.chain b) : Joined s.mem s'.mem b k := by
  unfold FutexSystem.enter at hs
  split at hs
  · cases hs
  rename_i e he
  split at hs
  · cases hs
    exact .stayed hk rfl
  rename_i hcheck
  have hlink : ∀ m, m.chain = (s.mem.link e.bucket (t, i) (kind.waiter e)).chain →
      m.waiter = (s.mem.link e.bucket (t, i) (kind.waiter e)).waiter → k ∈ m.chain b →
      Joined s.mem m b k := by
    intro m h1 h2 hm
    rw [h1] at hm
    have hold : k ∈ s.mem.chain b → Joined s.mem m b k := by
      intro hmem
      refine .stayed hmem ?_
      rw [h2]
      refine update_of_ne ?_ _ _
      rintro rfl
      have hq := (h.inv.linked b _ hmem).queued
      rw [hpc] at hq
      exact absurd hq (lt_irrefl i)
    obtain ⟨hb, hm⟩ | ⟨-, hm⟩ := mem_update.mp hm
    · obtain rfl | hm := mem_cons.mp hm
      · refine .entered kind e hcheck hb ?_
        rw [h2]
        exact update_self _ _ _
      · exact hold (hb ▸ hm)
    · exact hold hm
  split at hs
  · cases hs
    exact hlink _ rfl rfl hk
  · cases hs
    exact hlink _ rfl rfl hk

lemma FutexOk.joined (h : FutexOk s) (hs : s.next l = some s') (hk : k ∈ s'.mem.chain b) :
    Joined s.mem s'.mem b k := by
  obtain ⟨t, act⟩ := l
  unfold FutexSystem.next at hs
  dsimp only at hs
  split at hs
  · cases hs
    exact .stayed hk rfl
  · obtain ⟨-, ⟨⟩⟩ := guarded hs
    exact (h.inv.stays_wake _ _ _).joined hk
  · rename_i hpc
    obtain ⟨hfree, ⟨⟩⟩ := guarded hs
    have hlock := free_iff.mp hfree _ mem_cons_self
    exact (h.inv.stays_wakeOp hpc _ hlock _ _ _).joined hk
  · obtain ⟨-, ⟨⟩⟩ := guarded hs
    have hsplit := h.inv.pluck_split
    exact (h.inv.stays_woken (hsplit _ _ _).1 (hsplit _ _ _).2).joined hk
  · obtain ⟨-, hs⟩ := guarded hs
    split at hs
    · cases hs
      exact .stayed hk rfl
    · cases hs
      exact .stayed hk rfl
  · rename_i hpc
    cases hs
    exact h.joined_requeueStep hpc hk
  · -- a moved waiter enters the destination chain
    rename_i r front todo x hpc
    cases hs
    have hout := (h.inv.requeue_at hpc).2.2.2.2.2
    have hold : k ∈ s.mem.chain b → Joined s.mem (s.mem.moveIn r x) b k := fun hmem =>
      .stayed hmem (update_of_ne (fun heq : k = x => hout b (heq ▸ hmem)) _ _)
    obtain ⟨rfl, hin⟩ | ⟨-, hin⟩ := mem_update.mp hk
    · obtain rfl | hin := mem_cons.mp hin
      · have hself : (s.mem.moveIn r k).waiter k = _ := update_self _ _ _
        refine .requeued ?_ ?_
        · show ((s.mem.moveIn r k).waiter k).moved
          rw [hself]
        show futexHash ((s.mem.moveIn r k).waiter k).uaddr = r.dst
        rw [hself]
        rfl
      · exact hold hin
    · exact hold hin
  · obtain ⟨-, ⟨⟩⟩ := guarded hs
    exact .stayed hk rfl
  · split at hs
    · cases hs
      exact .stayed hk rfl
    · cases hs
  · obtain ⟨-, ⟨⟩⟩ := guarded hs
    exact .stayed hk rfl
  · obtain ⟨-, ⟨⟩⟩ := guarded hs
    exact .stayed hk rfl
  · rename_i hpc
    exact h.joined_enter hpc hs hk
  · obtain ⟨-, ⟨⟩⟩ := guarded hs
    unfold FutexSystem.leave at hk ⊢
    split at hk
    · rename_i hwoken
      rw [if_pos hwoken]
      exact .stayed hk rfl
    rename_i hwoken
    rw [if_neg hwoken]
    exact (stays_unlink _ _ _).joined hk
  · obtain ⟨-, ⟨⟩⟩ := guarded hs
    exact (stays_unlink _ _ _).joined hk
  · obtain ⟨-, ⟨⟩⟩ := guarded hs
    exact .stayed hk rfl
  · obtain ⟨-, ⟨⟩⟩ := guarded hs
    exact (stays_unlink _ _ _).joined hk
  · cases hs
    unfold FutexSystem.drop at hk ⊢
    split at hk
    · rename_i hlt
      rw [if_pos hlt]
      exact .stayed hk rfl
    rename_i hlt
    rw [if_neg hlt]
    exact .stayed hk rfl
  · cases hs

/-! ### Whole runs -/

def Placed (s : FutexSystem) : Prop :=
  ∀ b, ∀ k ∈ s.mem.chain b, futexHash (s.mem.waiter k).uaddr = b

lemma FutexKind.waiter_uaddr (kind : FutexKind) (e : FutexElt) :
    (kind.waiter e).uaddr = e.uaddr := by
  cases kind <;> rfl

lemma Placed.step (hp : Placed s) (h : FutexOk s) (hs : s.next l = some s') : Placed s' := by
  intro b k hk
  obtain ⟨hmem, hw⟩ | ⟨kind, e, -, hb, hw⟩ | ⟨-, hb⟩ := h.joined hs hk
  · rw [hw]
    exact hp b k hmem
  · rw [hw, kind.waiter_uaddr, hb]
    rfl
  · exact hb

/-- Whoever waits on `a` since its own call saw the value `v` there. -/
def Expect (a : ℕ) (v : BitVec 32) (s : FutexSystem) : Prop :=
  ∀ b, ∀ k ∈ s.mem.chain b, (s.mem.waiter k).uaddr = a → (s.mem.waiter k).moved = false →
    ∀ e, (s.mem.waiter k).expected = some e → e = v

lemma FutexKind.barred_word (h : kind.barred m e = none)
    (hx : (kind.waiter e).expected = some x) : m.word e.uaddr = some x := by
  have hword : m.shouldBlock e.uaddr e.expected = none → m.word e.uaddr = some e.expected := by
    intro hb
    unfold FutexMem.shouldBlock at hb
    grind
  cases kind with
  | wait | waitv =>
    cases hx
    exact hword h
  | lockPi => cases hx

lemma Expect.step (he : Expect a v s) (h : FutexOk s)
    (hword : s.mem.word a = some v) (hs : s.next l = some s') : Expect a v s' := by
  intro b k hk hu hm x hx
  obtain ⟨hmem, hw⟩ | ⟨kind, e, hcheck, -, hw⟩ | ⟨hmoved, -⟩ := h.joined hs hk
  · rw [hw] at hu hm hx
    exact he b k hmem hu hm x hx
  · rw [hw] at hu hx
    rw [kind.waiter_uaddr] at hu
    have hseen := barred_word hcheck hx
    grind
  · rw [hmoved] at hm
    cases hm

lemma FutexInv.chain_le (hi : FutexInv m pc) (b : ℕ) :
    ((m.chain b).length : ℤ) ≤ m.published b := by
  have hsub : m.chain b ⊆ m.charges b := fun k hk =>
    (hi.charged k b).mpr (.inl (hi.linked b k hk).owes)
  have hle := (subperm_of_subset (hi.chain_nodup b) hsub).length_le
  rw [hi.tallied.published_eq]
  exact Int.ofNat_le.mpr hle

lemma FutexInv.published_idle (hi : FutexInv m pc) (hidle : ∀ t, pc t = .idle) (b : ℕ) :
    m.published b = 0 := by
  have hnone : m.charges b = [] := by
    refine eq_nil_iff_forall_not_mem.mpr fun k hk => ?_
    obtain h | ⟨t, h⟩ := (hi.charged k b).mp hk
    · rw [hidle] at h
      cases h
    · rw [hidle] at h
      cases h
  rw [hi.tallied.published_eq, hnone]
  rfl

lemma futexRun_ok
    (h : exec FutexSystem.next (FutexSystem.init word) ls = some s) : FutexOk s ∧ Placed s :=
  exec_keeps (P := fun s => FutexOk s ∧ Placed s)
    (fun _ _ _ hP hs => ⟨hP.1.step hs, hP.2.step hP.1 hs⟩)
    ⟨FutexOk.init word, nofun⟩ h

/-- In every reachable state each count is at least the length of its chain and not negative, and
zero when no thread is in a call. Where a count is zero nobody is parked on a word of that bucket;
and as long as a word keeps its value from then on, whoever comes to wait on it expected that
value. -/
theorem futexCounts_cover {word : ℕ → Option (BitVec 32)} {ls : List (ℕ × FutexAct)}
    {s : FutexSystem} (h : exec FutexSystem.next (FutexSystem.init word) ls = some s) :
    (∀ b, ((s.mem.chain b).length : ℤ) ≤ s.mem.published b) ∧ (∀ b, 0 ≤ s.mem.published b) ∧
      ((∀ t, s.pc t = .idle) → ∀ b, s.mem.published b = 0) ∧
      ∀ a, s.mem.published (futexHash a) = 0 →
        (∀ b, ∀ k ∈ s.mem.chain b, (s.mem.waiter k).uaddr ≠ a) ∧
        ∀ v ls' s', Meets FutexSystem.next (fun s _ => s.mem.word a = some v) s ls' →
          exec FutexSystem.next s ls' = some s' → Expect a v s' := by
  obtain ⟨hok, hplaced⟩ := futexRun_ok h
  refine ⟨hok.inv.chain_le, ?_, hok.inv.published_idle, ?_⟩
  · intro b
    rw [hok.inv.tallied.published_eq]
    exact Int.natCast_nonneg _
  intro a hzero
  have hnobody : ∀ b, ∀ k ∈ s.mem.chain b, (s.mem.waiter k).uaddr ≠ a := by
    intro b k hk hu
    have hb := hplaced b k hk
    rw [hu] at hb
    have hle := hok.inv.chain_le b
    rw [← hb, hzero] at hle
    have hpos := length_pos_of_mem (hb ▸ hk)
    omega
  refine ⟨hnobody, ?_⟩
  intro v ls' s' hword hrun
  have hstart : FutexOk s ∧ Expect a v s :=
    ⟨hok, fun b k hk hu => absurd hu (hnobody b k hk)⟩
  exact (exec_keeps_of_meets (P := fun s => FutexOk s ∧ Expect a v s)
    (fun s _ => s.mem.word a = some v)
    (fun _ _ _ hP hw hs => ⟨hP.1.step hs, hP.2.step hP.1 hw hs⟩) hstart hword hrun).2

/-- One thread parks on the word at 64, and a second one moves it to the word at 4096. -/
def futexMoveRun : List (ℕ × FutexAct) :=
  [(0, .begin (.wait futexBitsetMatchAny) [⟨64, 7⟩]), (0, .charge), (0, .lock), (0, .enter),
    (1, .requeue 64 4096 0 1 none), (1, .requeueStep), (1, .requeueStep), (1, .requeueStep)]

theorem futexCounts_cover_moved :
    ∃ s, exec FutexSystem.next (FutexSystem.init fun _ => some 7) futexMoveRun = some s ∧
      s.mem.chain (futexHash 4096) = [(0, 0)] ∧ s.mem.published (futexHash 4096) = 1 ∧
      s.mem.published (futexHash 64) = 0 ∧
      ∀ b, ∀ k ∈ s.mem.chain b, (s.mem.waiter k).uaddr ≠ 64 := by
  have hrun : exec FutexSystem.next (FutexSystem.init fun _ => some 7) futexMoveRun = some _ := rfl
  exact ⟨_, hrun, by decide +kernel, by decide +kernel, by decide +kernel,
    ((futexCounts_cover hrun).2.2.2 64 (by decide +kernel)).1⟩

/-- In every reachable state a waiter is on one chain at most, once: that of the address it waits
on. It is not woken and its thread is in the call. A lock is with the thread that uses it. -/
theorem futexChains_placed {word : ℕ → Option (BitVec 32)} {ls : List (ℕ × FutexAct)}
    {s : FutexSystem} (h : exec FutexSystem.next (FutexSystem.init word) ls = some s) :
    (∀ b, (s.mem.chain b).Nodup) ∧ (∀ b, ∀ k ∈ s.mem.chain b,
      (∀ b', k ∈ s.mem.chain b' → b' = b) ∧ futexHash (s.mem.waiter k).uaddr = b ∧
      (s.mem.waiter k).woken = false ∧ (s.pc k.1).Queued k.2) ∧
    ∀ b t, s.mem.lock b = some t ↔ b ∈ (s.pc t).locks := by
  obtain ⟨hok, hplaced⟩ := futexRun_ok h
  refine ⟨hok.inv.chain_nodup, ?_, hok.inv.locks⟩
  intro b k hk
  have hlinked := hok.inv.linked b k hk
  refine ⟨?_, hplaced b k hk, hlinked.woken, hlinked.queued⟩
  intro b' hk'
  exact (hok.inv.linked b' k hk').bucket_unique hlinked

theorem futexChains_placed_moved :
    ∃ s, exec FutexSystem.next (FutexSystem.init fun _ => some 7) futexMoveRun = some s ∧
      (0, 0) ∈ s.mem.chain (futexHash 4096) ∧ (s.mem.waiter (0, 0)).woken = false ∧
      (0, 0) ∉ s.mem.chain (futexHash 64) := by
  have hrun : exec FutexSystem.next (FutexSystem.init fun _ => some 7) futexMoveRun = some _ := rfl
  have hmem := (futexChains_placed hrun).2.1 (futexHash 4096) (0, 0) (by decide +kernel)
  exact ⟨_, hrun, by decide +kernel, hmem.2.2.1, fun h => absurd (hmem.1 _ h) (by decide)⟩

end Elfuse
