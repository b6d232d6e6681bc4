/-
Every counted wake reaches a wait.

Beside its `woken` mark a waiter has the number of wakes that counted it. A wake
finds a waiter in a chain, where it is not woken, so no waiter is counted twice;
and a `futex_wait` reads the mark under the lock that a wake of its waiter has
to hold, so it returns zero exactly when a wake has counted it. A
`sys_futex_waitv` fixes its result before it unlinks its waiters. In between a
wake can still find and count one of them.

* `futexWakes_reach` — what every run returns without such a wake;
* `futexWaitv_loses_wake` — a timed-out vector wait that a wake counted.
-/
import Elfuse.Runtime.FutexCounts

namespace Elfuse

open Walks Runs List Function Bool Nat FutexStage FutexKind

/-! ### Results and counts -/

/-- What a call is going to return, once that is fixed. -/
def FutexStage.result : FutexStage → Option ℤ
  | .unlinking _ _ ret => some ret
  | .dropping _ _ ret => some ret
  | _ => none

structure CountOk (m : FutexMem) (t : ℕ) (kind : FutexKind) (elts : List FutexElt)
    (st : FutexStage) : Prop where
  /-- A linked element has been counted if and only if it is marked. -/
  linked : ∀ j, j < st.linked elts.length → m.counted (t, j) = (m.waiter (t, j)).woken.toNat
  unlinked : kind ≠ .lockPi → ∀ j, st.linked elts.length ≤ j → m.counted (t, j) = 0
  /-- Under the locks nobody has reached the elements. -/
  entering : ∀ i, st = .entering i → ∀ j, j < i →
    (m.waiter (t, j)).woken = false ∧ (m.waiter (t, j)).pubBucket ∈ elts.map FutexElt.bucket
  wait : ∀ bitset, kind = .wait bitset → ∀ ret, st.result = some ret →
    (ret = 0 ↔ m.counted (t, 0) = 1)
  waitv : kind = .waitv → ∀ ret, st.result = some ret → ret < 0 → ∀ j, m.counted (t, j) = 0

def FutexReturn.Ok (r : FutexReturn) : Prop :=
  match r.kind with
  | .wait _ => r.ret = 0 ↔ r.counted = [1]
  | .waitv => (∃ c ∈ r.counted, 0 < c) → 0 ≤ r.ret
  | .lockPi => True

structure WakesInv (s : FutexSystem) : Prop where
  once : ∀ k, s.mem.counted k ≤ 1
  calls : ∀ t kind elts st, s.pc t = .call kind elts st → CountOk s.mem t kind elts st
  log : ∀ r ∈ s.log, r.Ok

lemma WakesInv.init (word : ℕ → Option (BitVec 32)) : WakesInv (FutexSystem.init word) :=
  ⟨fun _ => zero_le 1, nofun, nofun⟩

/-- The call has fixed an error and has not yet unlinked all of its waiters. -/
def FutexPc.failing : FutexPc → Bool
  | .call .waitv _ (.unlinking _ _ ret) => decide (ret < 0)
  | _ => false

def FutexSystem.Undecided (s : FutexSystem) (uaddr : ℕ) : Prop :=
  ∀ b, ∀ k ∈ s.mem.chain b, (s.mem.waiter k).uaddr = uaddr → (s.pc k.1).failing = false

/-- The step is not a wake on an address where a failing call still has a waiter. -/
def FutexQuiet (s : FutexSystem) (l : ℕ × FutexAct) : Prop :=
  match l.2 with
  | .wake uaddr _ _ => s.Undecided uaddr
  | .wakeOp uaddr _ uaddr2 _ _ => s.Undecided uaddr ∧ s.Undecided uaddr2
  | .wakeFirst uaddr => s.Undecided uaddr
  | .requeueStep => ∀ r front todo, s.pc l.1 = .walking r front todo → r.woken < r.wakeCount →
      s.Undecided r.uaddr
  | _ => True

/-! ### Marks -/

variable {m m' : FutexMem} {t : ℕ} {kind : FutexKind} {elts : List FutexElt} {st st' : FutexStage}

section
variable (h : CountOk m t kind elts st)
include h

lemma CountOk.congr (hc : ∀ j, m'.counted (t, j) = m.counted (t, j))
    (hw : ∀ j, (m'.waiter (t, j)).woken = (m.waiter (t, j)).woken)
    (hp : ∀ i j, st = .entering i → j < i →
      (m'.waiter (t, j)).pubBucket = (m.waiter (t, j)).pubBucket) :
    CountOk m' t kind elts st where
  linked := fun j hj => by rw [hc, hw, h.linked j hj]
  unlinked := fun hk j hj => by rw [hc, h.unlinked hk j hj]
  entering := by
    intro i hi j hj
    rw [hw, hp i j hi hj]
    exact h.entering i hi j hj
  wait := fun bitset hk ret hret => by rw [hc, h.wait bitset hk ret hret]
  waitv := fun hk ret hret hneg j => by rw [hc, h.waitv hk ret hret hneg j]

lemma CountOk.advance (hl : st'.linked elts.length = st.linked elts.length)
    (hr : st'.result = none) (he : ∀ i, st' = .entering i → i = 0) : CountOk m t kind elts st' where
  linked := by
    rw [hl]
    exact h.linked
  unlinked := by
    rw [hl]
    exact h.unlinked
  entering := by
    intro i hi j hj
    rw [he i hi] at hj
    exact absurd hj (not_lt_zero j)
  wait := by
    intro bitset _ ret hret
    rw [hr] at hret
    cases hret
  waitv := by
    simp [hr]

lemma CountOk.fix (hl : st'.linked elts.length = st.linked elts.length)
    (he : ∀ i, st' ≠ .entering i) (ret : ℤ) (hr : st'.result = some ret)
    (hwait : ∀ bitset, kind = .wait bitset → (ret = 0 ↔ m.counted (t, 0) = 1))
    (hwaitv : kind = .waitv → ret < 0 → ∀ j, m.counted (t, j) = 0) :
    CountOk m t kind elts st' where
  linked := by
    rw [hl]
    exact h.linked
  unlinked := by
    rw [hl]
    exact h.unlinked
  entering := fun i hi => absurd hi (he i)
  wait := by
    intro bitset hk r hret
    rw [hr] at hret
    cases hret
    exact hwait bitset hk
  waitv := by
    grind

end

/-! ### Wakes -/

/-- A bucket that no entering call has locked: its chain may be walked by a wake. -/
def FutexSystem.Open (s : FutexSystem) (b : ℕ) : Prop :=
  ∀ t kind elts i, s.pc t = .call kind elts (.entering i) → b ∉ elts.map FutexElt.bucket

variable {s : FutexSystem} {b : ℕ}

lemma FutexOk.open_of_free (h : FutexOk s) (hfree : s.mem.lock b = none) : s.Open b := by
  intro t kind elts i hpc hb
  have hl : b ∈ (s.pc t).locks := by
    rw [hpc]
    exact hb
  rw [(h.inv.locks b t).mpr hl] at hfree
  cases hfree

variable {i : ℕ}

lemma FutexSystem.linked_under (hpc : s.pc t = .call kind elts (.entering i))
    (hc : CountOk s.mem t kind elts (.entering i)) (hl : Linked s.mem (s.pc t) (t, j) b) :
    b ∈ elts.map FutexElt.bucket := by
  have hj : j < i := by
    have hq := hl.queued
    rw [hpc] at hq
    exact hq
  by_cases hkind : kind = .lockPi
  · have ho := hl.owes
    rw [hpc, owes_call] at ho
    obtain ⟨hbetween, ho⟩ := guarded ho
    rw [dropBucket, if_neg fun h => h.1 hkind] at ho
    have hlt : j < elts.length := hbetween.2
    have he : elts[j]? = some elts[j] := getElem?_eq_getElem hlt
    rw [entryBucket_of_getElem? he] at ho
    grind
  have hpi : (s.pc t).isPi = false := by
    rw [hpc]
    cases kind with
    | wait bitset => rfl
    | waitv => rfl
    | lockPi => exact absurd rfl hkind
  rw [← hl.pub hpi]
  exact (hc.entering i rfl j hj).2

/-- A wake counts waiters that no wake has counted, and marks them. -/
lemma WakesInv.marked (h : WakesInv s) (hok : FutexOk s) {taken : List FutexKey}
    (hnd : taken.Nodup) (hmem : ∀ k ∈ taken, k ∈ s.mem.chain b)
    (hcounted : ∀ k, m'.counted k = s.mem.counted k + taken.count k)
    (htaken : ∀ k ∈ taken, (m'.waiter k).woken)
    (hother : ∀ k, k ∉ taken → m'.waiter k = s.mem.waiter k) (hopen : s.Open b)
    (hquiet : ∀ k ∈ taken, (s.pc k.1).failing = false) : (∀ k, m'.counted k ≤ 1) ∧
      ∀ t kind elts st, s.pc t = .call kind elts st → CountOk m' t kind elts st := by
  have hsame : ∀ k, k ∉ taken → m'.counted k = s.mem.counted k := by
    grind
  -- a waiter in a chain is not marked, so it has not been counted
  have hfresh : ∀ k ∈ taken, s.mem.counted k = 0 ∧ m'.counted k = 1 := by
    intro k hk
    have hl := hok.inv.linked b k (hmem k hk)
    have hzero : s.mem.counted k = 0 := by
      have hq := hl.queued
      cases hpc : s.pc k.1 with
      | call kind elts st =>
        rw [hpc] at hq
        have heq := (h.calls k.1 kind elts st hpc).linked k.2 (FutexStage.Queued.lt_linked hq)
        rw [hl.woken] at heq
        exact heq
      | _ =>
        rw [hpc] at hq
        cases hq
    grind
  constructor
  · intro k
    by_cases hk : k ∈ taken
    · exact le_of_eq (hfresh k hk).2
    · rw [hsame k hk]
      exact h.once k
  intro t kind elts st hpc
  have hc := h.calls t kind elts st hpc
  have hq : ∀ j, (t, j) ∈ taken → st.Queued elts.length j := by
    intro j hj
    have hq := (hok.inv.linked b _ (hmem _ hj)).queued
    rw [hpc] at hq
    exact hq
  have hshape := hok.shaped t
  rw [hpc] at hshape
  refine ⟨?_, ?_, ?_, ?_, ?_⟩
  · intro j hj
    by_cases hk : (t, j) ∈ taken
    · grind
    · rw [hsame _ hk, hother _ hk]
      exact hc.linked j hj
  · intro hkind j hj
    rw [hsame]
    · exact hc.unlinked hkind j hj
    · intro hk
      exact absurd (FutexStage.Queued.lt_linked (hq j hk)) (not_lt.mpr hj)
  · rintro i rfl j hj
    have hk : (t, j) ∉ taken := fun hk =>
      hopen t kind elts i hpc (FutexSystem.linked_under hpc hc (hok.inv.linked b _ (hmem _ hk)))
    rw [hother _ hk]
    exact hc.entering i rfl j hj
  · rintro bitset rfl ret hret
    have hk : (t, 0) ∉ taken := by
      intro hk
      have hq0 := hq 0 hk
      cases st with
      | unlinking linked left r => cases hshape.2.unlinks _ _ _ rfl
      | dropping linked d r => exact hq0
      | charging i => cases hret
      | entering i => cases hret
      | parked => cases hret
    rw [hsame _ hk]
    exact hc.wait bitset rfl ret hret
  rintro rfl ret hret hneg j
  have hk : (t, j) ∉ taken := by
    intro hk
    have hqj := hq j hk
    cases st with
    | unlinking linked left r =>
      cases hret
      have hf := hquiet _ hk
      rw [show s.pc (t, j).1 = _ from hpc] at hf
      exact absurd hneg (of_decide_eq_false hf)
    | dropping linked d r => exact hqj
    | charging i => cases hret
    | entering i => cases hret
    | parked => cases hret
  rw [hsame _ hk]
  exact hc.waitv rfl ret hret hneg j

lemma WakesInv.with_mem (h : WakesInv s) (hm : (∀ k, m'.counted k ≤ 1) ∧
      ∀ t kind elts st, s.pc t = .call kind elts st → CountOk m' t kind elts st) :
    WakesInv { s with mem := m' } :=
  ⟨hm.1, hm.2, h.log⟩

lemma WakesInv.with_word (h : WakesInv s) (w : ℕ → Option (BitVec 32)) :
    WakesInv { s with mem := { s.mem with word := w } } :=
  h.with_mem ⟨h.once, fun t kind elts st hpc =>
    (h.calls t kind elts st hpc).congr (fun _ => rfl) (fun _ => rfl) fun _ _ _ _ => rfl⟩

variable {k : FutexKey}

lemma markWoken_woken (m : FutexMem) (hk : k ∈ ws) : ((m.markWoken ws).waiter k).woken := by
  show (if k ∈ ws then _ else _ : FutexWaiter).woken
  rw [if_pos hk]

def FutexMem.takes (m : FutexMem) (b : ℕ) (f : FutexKey → Bool) (n : ℕ) : FutexMem :=
  ({ m with chain := Function.update m.chain b (pluck f n (m.chain b)).2 }).markWoken
    (pluck f n (m.chain b)).1

variable {uaddr : ℕ}

lemma WakesInv.takes (h : WakesInv s) (hok : FutexOk s) (hopen : s.Open b)
    (hquiet : s.Undecided uaddr)
    (hf : ∀ k, f k → (s.mem.waiter k).uaddr = uaddr) (n : ℕ) :
    WakesInv { s with mem := s.mem.takes b f n } := by
  have hmem : ∀ k ∈ (pluck f n (s.mem.chain b)).1, k ∈ s.mem.chain b :=
    fun k hk => mem_pluck.mpr (Or.inl hk)
  exact h.with_mem (h.marked hok (pluck_nodup (hok.inv.chain_nodup b)).1 hmem (fun _ => rfl)
    (fun k hk => markWoken_woken _ hk) (fun k hk => if_neg hk) hopen
    fun k hk => hquiet b k (hmem k hk) (hf k (pluck_meets hk)))

variable {bitset : BitVec 32} {uaddr2 : ℕ}

lemma WakesInv.wakeWalk (h : WakesInv s) (hok : FutexOk s) (hopen : s.Open b)
    (hquiet : s.Undecided uaddr) (bitset : BitVec 32) (n : ℕ) :
    WakesInv { s with mem := (s.mem.wakeWalk b uaddr bitset n).2 } :=
  h.takes hok hopen hquiet (fun _ h => beq_iff_eq.mp (and_eq_true_iff.mp h).1) n

lemma WakesInv.futexWake (h : WakesInv s) (hok : FutexOk s)
    (hfree : s.mem.free [futexHash uaddr]) (hquiet : s.Undecided uaddr)
    (val bitset : BitVec 32) : WakesInv { s with mem := (futexWake s.mem uaddr val bitset).2 } := by
  have hopen := hok.open_of_free (free_iff.mp hfree _ mem_cons_self)
  obtain heq | ⟨n, heq⟩ := futexWake_cases s.mem uaddr val bitset
  · rw [heq]
    exact h
  · rw [heq]
    exact h.wakeWalk hok hopen hquiet bitset n

lemma FutexSystem.Undecided.wakeWalk (h : s.Undecided uaddr) (hok : FutexOk s) (b a : ℕ)
    (bitset : BitVec 32) (n : ℕ) :
    ({ s with mem := (s.mem.wakeWalk b a bitset n).2 }).Undecided uaddr := by
  intro b' k hk hu
  have hstay := hok.inv.stays_wakeWalk b a bitset n b' k hk
  rw [hstay.2] at hu
  exact h b' k hstay.1 hu

lemma WakesInv.wakePair (h : WakesInv s) (hok : FutexOk s) (hpc : s.pc t = .idle)
    (hlock : s.mem.lock (futexHash uaddr) = none) (hlock2 : s.mem.lock (futexHash uaddr2) = none)
    (hquiet : s.Undecided uaddr) (hquiet2 : s.Undecided uaddr2) (n n2 : ℕ) (met : Bool) :
    WakesInv { s with mem := (s.mem.wakePair uaddr n uaddr2 n2 met).2 } := by
  have h1 := h.wakeWalk hok (hok.open_of_free hlock) hquiet futexBitsetMatchAny n
  have hok1 : FutexOk { s with
      mem := (s.mem.wakeWalk (futexHash uaddr) uaddr futexBitsetMatchAny n).2 } :=
    ⟨hok.inv.wakeWalk hpc hlock _ _ _, hok.shaped⟩
  unfold FutexMem.wakePair
  dsimp only
  split
  · exact h1.wakeWalk hok1 (hok1.open_of_free hlock2) (hquiet2.wakeWalk hok _ _ _ _) _ _
  · exact h1

lemma WakesInv.futexWakeOp (h : WakesInv s) (hok : FutexOk s) (hpc : s.pc t = .idle)
    (hfree : s.mem.free [futexHash uaddr, futexHash uaddr2]) (hquiet : s.Undecided uaddr)
    (hquiet2 : s.Undecided uaddr2) (val val2 val3 : BitVec 32) :
    WakesInv { s with mem := (futexWakeOp s.mem uaddr val uaddr2 val2 val3).2 } := by
  have hlock := free_iff.mp hfree _ mem_cons_self
  have hlock2 := free_iff.mp hfree _ (mem_cons_of_mem _ mem_cons_self)
  have hok1 : ∀ w, FutexOk { s with mem := { s.mem with word := w } } :=
    fun w => ⟨hok.inv.setWord _, hok.shaped⟩
  have hpair : ∀ w n n2 met, WakesInv { s with
      mem := (({ s.mem with word := w }).wakePair uaddr n uaddr2 n2 met).2 } :=
    fun w n n2 met => (h.with_word w).wakePair (hok1 w) hpc hlock hlock2 hquiet hquiet2 n n2 met
  obtain ⟨w, heq | ⟨n, n2, met, heq⟩⟩ := futexWakeOp_cases s.mem uaddr uaddr2 val val2 val3
  · rw [heq]
    exact h.with_word w
  · rw [heq]
    exact hpair w n n2 met

/-! ### The steps of a call -/

variable {p : FutexPc}

lemma WakesInv.goto (h : WakesInv s) (hc : ∀ k, k.1 ≠ t → m'.counted k = s.mem.counted k)
    (hw : ∀ k, k.1 ≠ t → m'.waiter k = s.mem.waiter k) (honce : ∀ j, m'.counted (t, j) ≤ 1)
    (hown : ∀ kind elts st, p = .call kind elts st → CountOk m' t kind elts st) :
    WakesInv (s.goto t m' p) := by
  refine ⟨?_, ?_, h.log⟩
  · rintro ⟨u, j⟩
    by_cases hu : u = t
    · rw [hu]
      exact honce j
    show m'.counted (u, j) ≤ 1
    rw [hc (u, j) hu]
    exact h.once (u, j)
  intro u kind elts st hpc
  change update s.pc t p u = _ at hpc
  by_cases hu : u = t
  · rw [hu, update_self] at hpc
    rw [hu]
    exact hown kind elts st hpc
  rw [update_of_ne hu] at hpc
  exact (h.calls u kind elts st hpc).congr (fun j => hc (u, j) hu)
    (fun j => congrArg _ (hw (u, j) hu)) fun _ j _ _ => congrArg _ (hw (u, j) hu)

section
variable (h : WakesInv s) (hc : m'.counted = s.mem.counted) (hw : m'.waiter = s.mem.waiter)
include h hc hw

lemma WakesInv.goto_same
    (hown : ∀ kind elts st, p = .call kind elts st → CountOk s.mem t kind elts st) :
    WakesInv (s.goto t m' p) := by
  refine h.goto (fun k _ => congrFun hc k) (fun k _ => congrFun hw k) ?_ ?_
  · intro j
    rw [hc]
    exact h.once (t, j)
  intro kind elts st hp
  exact (hown kind elts st hp).congr (fun j => congrFun hc (t, j))
    (fun j => congrArg _ (congrFun hw (t, j))) fun _ j _ _ => congrArg _ (congrFun hw (t, j))

lemma WakesInv.goto_call (hown : CountOk s.mem t kind elts st) :
    WakesInv (s.goto t m' (.call kind elts st)) :=
  h.goto_same hc hw fun _ _ _ hp => by
    cases hp
    exact hown

end

lemma FutexStage.settle_result (linked : ℕ) (left : List ℕ) (ret : ℤ) :
    (settle linked left ret).result = some ret := by
  unfold settle
  split <;> rfl

lemma FutexStage.settle_entering (linked : ℕ) (left : List ℕ) (ret : ℤ) (i : ℕ) :
    settle linked left ret ≠ .entering i := by
  unfold settle
  split <;> exact nofun

variable {ret : ℤ}

lemma CountOk.keep (h : CountOk m t kind elts st)
    (hl : st'.linked elts.length = st.linked elts.length) (he : ∀ i, st' ≠ .entering i)
    (hst : st.result = some ret) (hst' : st'.result = some ret) : CountOk m t kind elts st' :=
  h.fix hl he ret hst' (fun bitset hk => h.wait bitset hk ret hst)
    fun hk hneg => h.waitv hk ret hst hneg

variable {err : ℤ} {front todo : List FutexKey} {w : FutexWaiter} {s' : FutexSystem} {r : Requeue}
  {linked d : ℕ}

lemma shouldBlock_neg (h : m.shouldBlock uaddr expected = some err) : err < 0 := by
  unfold FutexMem.shouldBlock at h
  split at h
  · cases h
    decide
  split at h
  · cases h
  · cases h
    decide

lemma barred_neg (h : kind.barred m e = some err) : err < 0 := by
  cases kind with
  | wait | waitv => exact shouldBlock_neg h
  | lockPi => cases h

lemma endsWait_neg (h : endsWait err) : err < 0 := by
  obtain h | h := or_eq_true_iff.mp h
  · rw [beq_iff_eq.mp h]
    decide
  · rw [beq_iff_eq.mp h]
    decide

lemma refuses_ne_zero (h : refuses m (.wait bitset) elts ret) : ret ≠ 0 := by
  have h' := of_decide_eq_true h
  obtain rfl | rfl | ⟨rfl, _⟩ := h' <;> decide

lemma CountOk.enter_fails (h : CountOk m t kind elts (.entering i)) (hbegins : kind.begins elts)
    (hi : i < elts.length) (herr : err < 0) :
    CountOk m t kind elts (.settle i (range i).reverse err) := by
  refine h.fix (settle_linked _ _ _ _) (settle_entering _ _ _) err (settle_result _ _ _) ?_ ?_
  · rintro bitset rfl
    have hone := begins_one hbegins nofun
    have hzero : i = 0 := by omega
    rw [h.unlinked (nofun) 0 (by rw [hzero]; exact le_refl 0)]
    omega
  intro hk _ j
  by_cases hj : j < i
  · rw [h.linked j hj, (h.entering i rfl j hj).1]
    rfl
  · exact h.unlinked (by rw [hk]; exact nofun) j (not_lt.mp hj)

lemma CountOk.enter_links (h : CountOk m t kind elts (.entering i)) (hw : w.woken = false)
    (hb : w.pubBucket ∈ elts.map FutexElt.bucket) :
    CountOk (m.link b (t, i) w) t kind elts (.entering (i + 1)) := by
  have hcount : ∀ j, (m.link b (t, i) w).counted (t, j) = if j = i then 0 else
      m.counted (t, j) := by
    intro j
    by_cases hj : j = i <;> simp [FutexMem.link, hj]
  have hwaiter : ∀ j, (m.link b (t, i) w).waiter (t, j) = if j = i then w else m.waiter (t, j) := by
    intro j
    by_cases hj : j = i <;> simp [FutexMem.link, hj]
  refine ⟨?_, ?_, ?_, by rintro _ _ _ ⟨⟩, by rintro _ _ ⟨⟩⟩
  · intro j hj
    change j < i + 1 at hj
    rw [hcount, hwaiter]
    split
    · rw [hw]
      rfl
    · exact h.linked j (show j < i by omega)
  · intro hk j hj
    change i + 1 ≤ j at hj
    rw [hcount, if_neg (by omega)]
    exact h.unlinked hk j (show i ≤ j by omega)
  intro i' hi' j hj
  cases hi'
  rw [hwaiter]
  split
  · exact ⟨hw, hb⟩
  · exact h.entering i rfl j (by omega)

lemma CountOk.decides (h : CountOk m t .waitv elts .parked) (err : ℤ) :
    CountOk m t .waitv elts (.settle elts.length (range elts.length)
      (waitvResult m t elts.length err)) := by
  refine h.fix (settle_linked _ _ _ _) (settle_entering _ _ _) _ (settle_result _ _ _) (nofun) ?_
  intro _ hneg j
  by_cases hj : j < elts.length
  · grind [waitvResult, h.linked j hj]
  · exact h.unlinked (nofun) j (not_lt.mp hj)

lemma CountOk.leaves (h : CountOk m t (.wait bitset) elts .parked) (hone : elts.length = 1)
    (hret : ret = 0 ↔ (m.waiter (t, 0)).woken) :
    CountOk m t (.wait bitset) elts (.dropping 1 0 ret) := by
  refine h.fix hone.symm (nofun) ret rfl ?_ nofun
  intro _ _
  rw [hret, h.linked 0 (show 0 < elts.length by omega)]
  cases (m.waiter (t, 0)).woken <;> decide

/-! ### The steps of a requeue -/

lemma FutexOk.open_of_mine (h : FutexOk s) (hb : b ∈ (s.pc t).locks)
    (ht : ∀ kind elts st, s.pc t ≠ .call kind elts st) : s.Open b := by
  intro u kind elts i hpc hmem
  have hu : b ∈ (s.pc u).locks := by
    rw [hpc]
    exact hmem
  rw [h.inv.lock_unique hu hb] at hpc
  exact ht _ _ _ hpc

lemma WakesInv.reshaped (h : WakesInv s) (hc : m'.counted = s.mem.counted)
    (hw : ∀ k, (m'.waiter k).woken = (s.mem.waiter k).woken)
    (hp : ∀ t kind elts i j, s.pc t = .call kind elts (.entering i) → j < i →
      (m'.waiter (t, j)).pubBucket = (s.mem.waiter (t, j)).pubBucket) :
    WakesInv { s with mem := m' } := by
  refine h.with_mem ⟨?_, ?_⟩
  · rw [hc]
    exact h.once
  intro t kind elts st hpc
  refine (h.calls t kind elts st hpc).congr (fun j => congrFun hc (t, j)) (fun j => hw (t, j)) ?_
  grind

section
variable (m)

lemma moveOut_waiter (r : Requeue) (rest : List FutexKey) (k : FutexKey) :
    (m.moveOut r rest k).waiter = m.waiter ∧ (m.moveOut r rest k).counted = m.counted := by
  unfold FutexMem.moveOut
  dsimp only
  split <;> exact ⟨rfl, rfl⟩

lemma moveIn_counted (r : Requeue) (k : FutexKey) : (m.moveIn r k).counted = m.counted := by
  unfold FutexMem.moveIn
  dsimp only
  split <;> rfl

lemma moveIn_other (r : Requeue) (h : k' ≠ k) : (m.moveIn r k).waiter k' = m.waiter k' :=
  update_of_ne h _ _

lemma moveIn_woken (r : Requeue) (k k' : FutexKey) :
    ((m.moveIn r k).waiter k').woken = (m.waiter k').woken := by
  by_cases h : k' = k <;> simp [FutexMem.moveIn, h]

lemma rekey_fields (k k' : FutexKey) (u : ℕ) :
    ((m.rekey k u).waiter k').woken = (m.waiter k').woken ∧
      ((m.rekey k u).waiter k').pubBucket = (m.waiter k').pubBucket := by
  by_cases h : k' = k <;> simp [FutexMem.rekey, h]

end

/-- What a requeue is carrying no entering call can have linked: its bucket is locked. -/
lemma WakesInv.moveIn (h : WakesInv s) (hok : FutexOk s) (hpc : s.pc t = .moving r front todo k) :
    WakesInv (s.goto t (s.mem.moveIn r k)
      (.walking { r with requeued := r.requeued + 1 } front todo)) := by
  have hrequeue := hok.inv.requeues t
  rw [hpc] at hrequeue
  obtain ⟨-, -, -, hl, -⟩ := hrequeue
  have hopen : s.Open r.src :=
    hok.open_of_mine (t := t) (by simp [hpc, FutexPc.locks]) (by simp [hpc])
  have h1 : WakesInv { s with mem := s.mem.moveIn r k } := by
    refine h.reshaped (moveIn_counted _ _ _) (moveIn_woken _ _ _) ?_
    intro u kind elts i j hu hj
    rw [moveIn_other]
    rintro rfl
    exact hopen u kind elts i hu (FutexSystem.linked_under hu (h.calls u kind elts _ hu) hl)
  exact h1.goto_same rfl rfl nofun

/-- A requeue looks at the next waiter of the source chain. -/
lemma WakesInv.requeueStep (h : WakesInv s) (hok : FutexOk s)
    (hpc : s.pc t = .walking r front todo) (hquiet : r.woken < r.wakeCount → s.Undecided r.uaddr) :
    WakesInv (s.requeueStep t r front todo) := by
  have hchain := hok.inv.requeues t
  rw [hpc] at hchain
  unfold FutexSystem.requeueStep
  split
  · exact h.goto_same rfl rfl (by rintro _ _ _ ⟨⟩)
  rename_i k rest
  split
  · exact h.goto_same rfl rfl (by rintro _ _ _ ⟨⟩)
  rename_i hwaits
  have hw : s.mem.waitsOn r.uaddr k := by simpa using hwaits
  split
  · exact h.goto_same rfl rfl (by rintro _ _ _ ⟨⟩)
  · -- it wakes the waiter
    rename_i hact
    have hwakes : r.woken < r.wakeCount := by
      grind [Requeue.act]
    have hk := (hok.inv.cut hchain.1).1
    have hopen : s.Open r.src :=
      hok.open_of_mine (t := t) (by simp [hpc, FutexPc.locks]) (by simp [hpc])
    have h1 : WakesInv { s with mem := ({ s.mem with
        chain := update s.mem.chain r.src (front ++ rest) }).markWoken [k] } :=
      h.with_mem (h.marked hok (nodup_singleton k) (b := r.src)
        (fun k' hk' => by rw [mem_singleton.mp hk']; exact hk) (fun _ => rfl)
        (fun k' hk' => markWoken_woken _ hk') (fun k' hk' => if_neg hk') hopen
        fun k' hk' => by
          rw [mem_singleton.mp hk']
          exact hquiet hwakes r.src k hk (beq_iff_eq.mp hw))
    exact h1.goto_same rfl rfl (by rintro _ _ _ ⟨⟩)
  · split
    · have h1 : WakesInv { s with mem := s.mem.rekey k r.uaddr2 } :=
        h.reshaped rfl (fun k' => (rekey_fields _ _ _ _).1) fun _ _ _ _ _ _ _ =>
          (rekey_fields _ _ _ _).2
      exact h1.goto_same rfl rfl (by rintro _ _ _ ⟨⟩)
    · exact h.goto_same (moveOut_waiter _ _ _ _).2 (moveOut_waiter _ _ _ _).1
        (by rintro _ _ _ ⟨⟩)

/-! ### Every step -/

lemma FutexKind.waiter_fields (kind : FutexKind) (e : FutexElt) :
    (kind.waiter e).woken = false ∧ (kind.waiter e).pubBucket = e.bucket := by
  cases kind <;> exact ⟨rfl, rfl⟩

lemma link_other (m : FutexMem) (h : k.1 ≠ t) :
    (m.link b (t, i) w).counted k = m.counted k ∧ (m.link b (t, i) w).waiter k = m.waiter k := by
  have hne : k ≠ (t, i) := fun heq => h (congrArg Prod.fst heq)
  exact ⟨update_of_ne hne _ _, update_of_ne hne _ _⟩

lemma WakesInv.enter (h : WakesInv s) (hok : FutexOk s)
    (hpc : s.pc t = .call kind elts (.entering i)) (hs : s.enter t kind elts i = some s') :
    WakesInv s' := by
  have hshape := hok.shaped t
  rw [hpc] at hshape
  have hc := h.calls t kind elts _ hpc
  unfold FutexSystem.enter at hs
  split at hs
  · cases hs
  rename_i e he
  have hlt : i < elts.length := (List.getElem?_eq_some_iff.mp he).1
  split at hs
  · rename_i err herr
    cases hs
    exact h.goto_call rfl rfl (hc.enter_fails hshape.1 hlt (barred_neg herr))
  have hlink : CountOk (s.mem.link e.bucket (t, i) (kind.waiter e)) t kind elts
      (.entering (i + 1)) := by
    refine hc.enter_links (waiter_fields _ _).1 ?_
    rw [(waiter_fields _ _).2]
    exact List.mem_map_of_mem (List.mem_of_getElem? he)
  have honce : ∀ j, (s.mem.link e.bucket (t, i) (kind.waiter e)).counted (t, j) ≤ 1 := by
    intro j
    by_cases hj : j = i <;> simp [FutexMem.link, hj, h.once]
  have hothers := fun (k : FutexKey) (hk : k.1 ≠ t) =>
    link_other s.mem (b := e.bucket) (i := i) (w := kind.waiter e) hk
  dsimp only at hs
  split at hs
  · cases hs
    refine h.goto (fun k hk => (hothers k hk).1) (fun k hk => (hothers k hk).2) honce ?_
    grind
  -- the last element: the locks are given back
  rename_i hlast
  cases hs
  refine h.goto (fun k hk => (hothers k hk).1) (fun k hk => (hothers k hk).2) honce ?_
  rintro _ _ _ hp
  cases hp
  have hunlock : CountOk ((s.mem.link e.bucket (t, i) (kind.waiter e)).unlockAll t) t kind elts
      (.entering (i + 1)) := hlink.congr (fun _ => rfl) (fun _ => rfl) fun _ _ _ _ => rfl
  exact hunlock.advance (show elts.length = i + 1 by omega) rfl (by rintro _ ⟨⟩)

lemma CountOk.returns (h : CountOk m t kind elts (.dropping linked d ret))
    (hbegins : kind.begins elts) :
    (⟨kind, ret, (range elts.length).map fun j => m.counted (t, j)⟩ : FutexReturn).Ok := by
  cases kind with
  | wait bitset =>
    have hone := begins_one hbegins nofun
    show ret = 0 ↔ (range elts.length).map (fun j => m.counted (t, j)) = [1]
    rw [h.wait bitset rfl ret rfl, hone]
    simp
  | waitv =>
    rintro ⟨c, hc, hpos⟩
    by_contra hneg
    obtain ⟨j, -, rfl⟩ := mem_map.mp hc
    have hzero := h.waitv rfl ret rfl (Int.not_le.mp hneg) j
    omega
  | lockPi => trivial

lemma WakesInv.drop (h : WakesInv s) (hok : FutexOk s)
    (hpc : s.pc t = .call kind elts (.dropping linked d ret)) :
    WakesInv (s.drop t kind elts linked d ret) := by
  have hshape := hok.shaped t
  rw [hpc] at hshape
  have hc := h.calls t kind elts _ hpc
  unfold FutexSystem.drop
  dsimp only
  split
  · exact h.goto_call rfl rfl (hc.keep (by rfl) (nofun) rfl rfl)
  have hidle : WakesInv (s.goto t (s.mem.discharge (dropBucket s.mem t kind elts linked d) (t, d))
      .idle) := h.goto_same rfl rfl nofun
  exact ⟨hidle.once, hidle.calls, forall_mem_cons.mpr ⟨hc.returns hshape.1, h.log⟩⟩

/-- Every step keeps the tally, unless a wake finds a waiter of a call that has fixed an error. -/
lemma WakesInv.step (h : WakesInv s) (hok : FutexOk s)
    (hquiet : FutexQuiet s l) (hs : s.next l = some s') : WakesInv s' := by
  obtain ⟨t, act⟩ := l
  have hshape := hok.shaped t
  unfold FutexSystem.next at hs
  dsimp only at hs
  split at hs
  · -- a word changes
    cases hs
    exact h.with_word _
  · -- FUTEX_WAKE
    obtain ⟨hfree, ⟨⟩⟩ := guarded hs
    exact h.futexWake hok hfree hquiet _ _
  · -- FUTEX_WAKE_OP
    rename_i hpc
    obtain ⟨hfree, ⟨⟩⟩ := guarded hs
    exact h.futexWakeOp hok hpc hfree hquiet.1 hquiet.2 _ _ _
  · -- the wake of an unlock or of the robust walk
    obtain ⟨hfree, ⟨⟩⟩ := guarded hs
    have hopen := hok.open_of_free (free_iff.mp hfree _ mem_cons_self)
    exact h.takes hok hopen hquiet (fun _ hk => beq_iff_eq.mp hk) 1
  · -- a requeue begins
    obtain ⟨-, hs⟩ := guarded hs
    split at hs
    · cases hs
      exact h
    · cases hs
      exact h.goto_same rfl rfl nofun
  · -- it looks at the next waiter
    rename_i r front todo hpc
    cases hs
    exact h.requeueStep hok hpc (hquiet r front todo hpc)
  · -- it completes a move
    rename_i hpc
    cases hs
    exact h.moveIn hok hpc
  · -- a call begins: none of the thread's waiters is counted
    obtain ⟨-, ⟨⟩⟩ := guarded hs
    refine h.goto (fun k hk => if_neg hk) (fun _ _ => rfl) ?_ ?_
    · simp
    intro kind elts st hp
    cases hp
    exact ⟨fun j hj => absurd hj (not_lt_zero j), fun _ j _ => if_pos rfl,
      nofun, nofun, nofun⟩
  · -- an element is charged
    rename_i hpc
    split at hs
    · cases hs
      exact h.goto_call rfl rfl ((h.calls _ _ _ _ hpc).advance (by rfl) rfl nofun)
    · cases hs
  · -- a call returns before it waits
    rename_i kind elts i ret hpc
    have hc := h.calls _ _ _ _ hpc
    obtain ⟨hcond, ⟨⟩⟩ := guarded hs
    refine h.goto_call rfl rfl (hc.fix (by rfl) (nofun) ret rfl ?_ ?_)
    · rintro bitset rfl
      rw [hc.unlinked (nofun) 0 (le_refl 0)]
      exact ⟨fun h0 => absurd h0 (refuses_ne_zero hcond.2), nofun⟩
    · rintro rfl
      exact absurd hcond.2 false_ne_true
  · -- the bucket locks are taken
    rename_i hpc
    obtain ⟨-, ⟨⟩⟩ := guarded hs
    refine h.goto_call rfl rfl ((h.calls _ _ _ _ hpc).advance (by rfl) rfl ?_)
    intro i hi
    cases hi
    rfl
  · -- an element's word is checked
    rename_i hpc
    exact h.enter hok hpc hs
  · -- a parked wait leaves
    rename_i bitset elts err hpc
    rw [hpc] at hshape
    have hone : elts.length = 1 := begins_one hshape.1 (nofun)
    have hc := h.calls _ _ _ _ hpc
    obtain ⟨hcond, ⟨⟩⟩ := guarded hs
    unfold FutexSystem.leave
    split
    · rename_i hwoken
      exact h.goto_call rfl rfl (hc.leaves hone ⟨fun _ => hwoken, fun _ => rfl⟩)
    rename_i hwoken
    have hneg := endsWait_neg hcond.1
    exact h.goto_call rfl rfl (hc.leaves hone ⟨fun h0 => by omega, fun hw => absurd hw hwoken⟩)
  · -- a parked lock leaves
    rename_i elts ret hpc
    rw [hpc] at hshape
    have hone : elts.length = 1 := begins_one hshape.1 (nofun)
    have hc := h.calls _ _ _ _ hpc
    obtain ⟨-, ⟨⟩⟩ := guarded hs
    cases ret with
    | none =>
      refine h.goto_call rfl rfl ⟨fun j hj => absurd hj (not_lt_zero j),
        fun hk => absurd rfl hk, nofun, nofun,
        nofun⟩
    | some r =>
      exact h.goto_call rfl rfl (hc.fix hone.symm (nofun) r rfl (nofun) nofun)
  · -- a parked vector wait fixes its result
    rename_i hpc
    obtain ⟨-, ⟨⟩⟩ := guarded hs
    exact h.goto_call rfl rfl ((h.calls _ _ _ _ hpc).decides _)
  · -- it unlinks an element
    rename_i hpc
    obtain ⟨-, ⟨⟩⟩ := guarded hs
    exact h.goto_call rfl rfl ((h.calls _ _ _ _ hpc).keep (settle_linked _ _ _ _)
      (settle_entering _ _ _) rfl (settle_result _ _ _))
  · -- a charge is dropped
    rename_i hpc
    cases hs
    exact h.drop hok hpc
  · cases hs

/-- The word of a call's next element is not the one it expects: the call links no waiter and fixes
an error. -/
def FutexSystem.Declines (s : FutexSystem) : Prop :=
  ∀ t kind elts i e s', s.pc t = .call kind elts (.entering i) → kind ≠ .lockPi →
    elts[i]? = some e → s.mem.word e.uaddr ≠ some e.expected → s.next (t, .enter) = some s' →
    s'.mem.chain = s.mem.chain ∧
      ∃ st err, s'.pc t = .call kind elts st ∧ st.result = some err ∧ err < 0

lemma FutexSystem.declines (s : FutexSystem) : s.Declines := by
  intro t kind elts i e s' hpc hkind he hword hs
  have hbarred : kind.barred s.mem e = s.mem.shouldBlock e.uaddr e.expected := by
    cases kind with
    | wait bitset => rfl
    | waitv => rfl
    | lockPi => exact absurd rfl hkind
  have hsome : kind.barred s.mem e ≠ none := by
    grind [FutexMem.shouldBlock]
  obtain ⟨err, herr⟩ := Option.ne_none_iff_exists'.mp hsome
  have hnext : s.next (t, .enter) = s.enter t kind elts i := by
    unfold FutexSystem.next
    dsimp only
    rw [hpc]
  rw [hnext, FutexSystem.enter, he] at hs
  dsimp only at hs
  rw [herr] at hs
  cases hs
  exact ⟨rfl, _, err, update_self _ _ _, settle_result _ _ _, barred_neg herr⟩

lemma futexRun_wakes (hquiet : Meets FutexSystem.next FutexQuiet (FutexSystem.init word) ls)
    (h : exec FutexSystem.next (FutexSystem.init word) ls = some s) : FutexOk s ∧ WakesInv s :=
  exec_keeps_of_meets (P := fun s => FutexOk s ∧ WakesInv s) FutexQuiet
    (fun _ _ _ hP hq hs => ⟨hP.1.step hs, hP.2.step hP.1 hq hs⟩)
    ⟨FutexOk.init word, WakesInv.init word⟩ hquiet h

/-- On every run without a wake on an address where a failing vector wait still has a waiter: no
waiter is counted twice, a finished `futex_wait` has returned zero if and only if one wake counted
it, a finished `sys_futex_waitv` that a wake counted has returned an index, and no call parks on a
word that is not what it expects. -/
theorem futexWakes_reach {word : ℕ → Option (BitVec 32)} {ls : List (ℕ × FutexAct)}
    {s : FutexSystem} (hquiet : Meets FutexSystem.next FutexQuiet (FutexSystem.init word) ls)
    (h : exec FutexSystem.next (FutexSystem.init word) ls = some s) :
    (∀ k, s.mem.counted k ≤ 1) ∧ (∀ r ∈ s.log, r.Ok) ∧ s.Declines := by
  obtain ⟨-, hwakes⟩ := futexRun_wakes hquiet h
  exact ⟨hwakes.once, hwakes.log, s.declines⟩

def futexWokenRun : List (ℕ × FutexAct) :=
  [(0, .begin (.wait futexBitsetMatchAny) [⟨64, 7⟩]), (0, .charge), (0, .lock), (0, .enter),
    (1, .wake 64 1 futexBitsetMatchAny), (0, .leave (-linuxEtimedout)), (0, .drop)]

lemma failing_goto (h : ∀ u, (s.pc u).failing = false) (t : ℕ) (m : FutexMem)
    (hp : p.failing = false) (u : ℕ) : ((s.goto t m p).pc u).failing = false := by
  show (update s.pc t p u).failing = false
  grind

theorem futexWakes_reach_woken :
    ∃ s, exec FutexSystem.next (FutexSystem.init fun _ => some 7) futexWokenRun = some s ∧
      (⟨.wait futexBitsetMatchAny, 0, [1]⟩ : FutexReturn) ∈ s.log ∧ ∀ r ∈ s.log, r.Ok := by
  have hquiet : Meets FutexSystem.next FutexQuiet (FutexSystem.init fun _ => some 7)
      futexWokenRun := by
    refine meets_cons trivial rfl (meets_cons trivial rfl (meets_cons trivial rfl
      (meets_cons trivial rfl (meets_cons ?_ rfl (meets_cons trivial rfl (meets_cons trivial rfl
        trivial))))))
    -- a plain wait is never failing
    exact fun b k _ _ => failing_goto (failing_goto (failing_goto (failing_goto (fun _ => rfl)
      0 _ rfl) 0 _ rfl) 0 _ rfl) 0 _ rfl k.1
  have hrun : exec FutexSystem.next (FutexSystem.init fun _ => some 7) futexWokenRun = some _ := rfl
  exact ⟨_, hrun, by decide +kernel, (futexWakes_reach hquiet hrun).2.1⟩

/-- Thread 0 gives up a vector wait on the word at 64 as thread 1 wakes it. -/
def futexLostRun : List (ℕ × FutexAct) :=
  [(0, .begin .waitv [⟨64, 7⟩]), (0, .charge), (0, .lock), (0, .enter),
    (0, .decide (-linuxEtimedout)), (1, .wake 64 1 futexBitsetMatchAny), (0, .unlink), (0, .drop)]

/-- The wake counted the waiter, and the call returns that it timed out. -/
theorem futexWaitv_loses_wake :
    ∃ s, exec FutexSystem.next (FutexSystem.init fun _ => some 7) futexLostRun = some s ∧
      (⟨.waitv, -linuxEtimedout, [1]⟩ : FutexReturn) ∈ s.log ∧ ¬ ∀ r ∈ s.log, r.Ok := by
  have hrun : exec FutexSystem.next (FutexSystem.init fun _ => some 7) futexLostRun = some _ := rfl
  have hlost : ¬ (⟨.waitv, -linuxEtimedout, [1]⟩ : FutexReturn).Ok :=
    fun h => absurd (h ⟨1, mem_cons_self, Nat.one_pos⟩) (by decide)
  refine ⟨_, hrun, ?_, fun h => hlost (h _ ?_)⟩
  · decide +kernel
  · decide +kernel

end Elfuse
