/-
When `pselect6` reports that nothing is ready (`syscall/poll.c`).

A host answer that the guest must not see — the wakeup pipe, a completion of a
usbfs descriptor that is of no interest — leads back into the loop, and what is
left is reported, unless

* the usbfs maps change between two of the places that look at them, or a usbfs
  descriptor is only asked about in the third set;
* `poll` answers with a hang-up or an error and neither of the first two sets is
  there to say so, or refuses a descriptor it has taken before.

Without these (`PselectOk`) a pass that ends the call with 0 ends it at the
deadline: `pselectPass_zero`.
-/
import Elfuse.Syscall.Pselect
import Mathlib.Algebra.Order.BigOperators.Group.List

namespace Elfuse

open Finset Function Bool PselectCall PselectState PselectReq

/-! ### Discounting completions -/

/-- The guest can see why the completion pipe of a request is ready. -/
def PselectReq.visible (usb : ℕ → UsbState) (q : PselectReq) : Bool :=
  q.usbWantW && ((usb q.index).reapable || (usb q.index).disconnected) ||
    q.usbWantR && (usb q.index).disconnected

/-- A completion that is not for the guest. -/
def PselectReq.invisible (fb : Bool) (usb : ℕ → UsbState) (R : ℤ → Bool) (q : PselectReq) : Bool :=
  q.usbdev && !q.disarmed && q.pipeReady fb R && !q.visible usb

def PselectReq.disarm (q : PselectReq) : PselectReq := { q with disarmed := true, revents := ∅ }

variable {usb : ℕ → UsbState} {q : PselectReq} {qs : List PselectReq} {R : ℤ → Bool}

lemma discount_cons_pos (h : q.invisible fb usb R) : usbDiscountInvisible fb usb (q :: qs) R S =
      let R' := if fb then R else update R q.hostFd false
      let S' := if fb then S else update S q.hostFd false
      (q.disarm :: (usbDiscountInvisible fb usb qs R' S').1,
        (usbDiscountInvisible fb usb qs R' S').2.1, (usbDiscountInvisible fb usb qs R' S').2.2.1,
        (usbDiscountInvisible fb usb qs R' S').2.2.2 + 1) := by
  rw [usbDiscountInvisible]
  exact if_pos h

lemma discount_cons_neg (h : ¬ q.invisible fb usb R) : usbDiscountInvisible fb usb (q :: qs) R S =
      (q :: (usbDiscountInvisible fb usb qs R S).1, (usbDiscountInvisible fb usb qs R S).2) := by
  rw [usbDiscountInvisible]
  exact if_neg h

lemma discount_le (qs : List PselectReq) (R S : ℤ → Bool) :
    (∀ h, (usbDiscountInvisible fb usb qs R S).2.1 h → R h) ∧
    ∀ h, (usbDiscountInvisible fb usb qs R S).2.2.1 h → S h := by
  induction qs generalizing R S with
  | nil => exact ⟨fun _ h => h, fun _ h => h⟩
  | cons q qs ih =>
    by_cases hq : q.invisible fb usb R
    · rw [discount_cons_pos hq]
      refine ⟨fun h hh => ?_, fun h hh => ?_⟩
      · grind
      grind
    · rw [discount_cons_neg hq]
      exact ih R S

lemma discount_false (hR : R (q.hostFd) = false) (hS : S (q.hostFd) = false) :
    (usbDiscountInvisible fb usb qs R S).2.1 q.hostFd = false ∧
    (usbDiscountInvisible fb usb qs R S).2.2.1 q.hostFd = false := by
  constructor
  · by_contra hno
    rw [(discount_le qs R S).1 _ (eq_true_of_not_eq_false hno)] at hR
    cases hR
  by_contra hno
  rw [(discount_le qs R S).2 _ (eq_true_of_not_eq_false hno)] at hS
  cases hS

lemma discount_mem (h : q' ∈ (usbDiscountInvisible fb usb qs R S).1) :
    q' ∈ qs ∨ ∃ q ∈ qs, q.usbdev ∧ q' = q.disarm ∧ (fb = false →
      (usbDiscountInvisible fb usb qs R S).2.1 q.hostFd = false ∧
      (usbDiscountInvisible fb usb qs R S).2.2.1 q.hostFd = false) := by
  induction qs generalizing R S with
  | nil => exact .inl h
  | cons q qs ih =>
    by_cases hq : q.invisible fb usb R
    · rw [discount_cons_pos hq] at h ⊢
      obtain rfl | h := List.mem_cons.mp h
      · simp only [invisible, and_eq_true] at hq
        refine .inr ⟨q, List.mem_cons_self, hq.1.1.1, rfl, ?_⟩
        rintro rfl
        refine discount_false ?_ ?_
        · simp
        simp
      grind
    grind [discount_cons_neg]

lemma pipeReady_le (hle : ∀ h, R' h → R h) (h : q.pipeReady fb R') : q.pipeReady fb R := by
  grind [pipeReady]

lemma discount_left (h : q' ∈ (usbDiscountInvisible fb usb qs R S).1) (husb : q'.usbdev)
    (harmed : q'.disarmed = false)
    (hready : q'.pipeReady fb (usbDiscountInvisible fb usb qs R S).2.1) : q'.visible usb := by
  induction qs generalizing R S with
  | nil => cases h
  | cons q qs ih =>
    by_cases hq : q.invisible fb usb R
    · rw [discount_cons_pos hq] at h hready
      obtain rfl | h := List.mem_cons.mp h
      · cases harmed
      · exact ih h hready
    rw [discount_cons_neg hq] at h hready
    obtain rfl | h := List.mem_cons.mp h
    · have hbefore := pipeReady_le (discount_le qs R S).1 hready
      by_contra hno
      refine hq ?_
      simp only [invisible, husb, harmed, hbefore,
        Bool.eq_false_of_not_eq_true hno, Bool.not_false, Bool.and_self]
    · exact ih h hready

lemma hostBits_update (hin : inFdSet x) (hx : R x) :
    hostBits (update R x false) + 1 = hostBits R := by
  simp only [inFdSet, and_eq_true, decide_eq_true_eq] at hin
  obtain ⟨n, rfl⟩ := Int.eq_ofNat_of_zero_le hin.1
  have herase : ((range fdSetsize.toNat).filter fun h : ℕ =>
      update R (n : ℤ) false h) =
      ((range fdSetsize.toNat).filter fun h : ℕ => R h).erase n := by
    ext h
    rw [mem_filter, mem_erase, mem_filter, update_apply]
    by_cases hh : h = n
    · subst hh
      rw [if_pos rfl]
      exact ⟨fun hc => absurd hc.2 false_ne_true, fun hc => absurd rfl hc.1⟩
    · rw [if_neg fun hc => hh (by exact_mod_cast hc)]
      exact ⟨fun hc => ⟨hh, hc⟩, fun hc => hc.2⟩
  unfold hostBits
  grind

lemma discount_bits (usb : ℕ → UsbState) (qs : List PselectReq) (R S : ℤ → Bool) :
    hostBits (usbDiscountInvisible false usb qs R S).2.1 +
      (usbDiscountInvisible false usb qs R S).2.2.2 = hostBits R := by
  induction qs generalizing R S with
  | nil => exact Int.add_zero _
  | cons q qs ih =>
    by_cases hi : q.invisible false usb R
    · rw [discount_cons_pos hi]
      rw [if_neg Bool.false_ne_true, if_neg Bool.false_ne_true]
      have hpipe : q.pipeReady false R := by
        simp only [invisible, Bool.and_eq_true] at hi
        exact hi.1.2
      obtain ⟨hin, hr⟩ := Bool.and_eq_true_iff.mp hpipe
      have hone := hostBits_update hin hr
      grind
    · rw [discount_cons_neg hi]
      exact ih R S

lemma discount_count (usb : ℕ → UsbState) (qs : List PselectReq) (R S : ℤ → Bool) :
    ((usbDiscountInvisible true usb qs R S).1.countP (fun q => q.revents.Nonempty) : ℤ) +
      (usbDiscountInvisible true usb qs R S).2.2.2 = qs.countP fun q => q.revents.Nonempty := by
  induction qs generalizing R S with
  | nil => rfl
  | cons q qs ih =>
    by_cases hi : q.invisible true usb R
    · rw [discount_cons_pos hi]
      have hpipe : q.pipeReady true R := by
        simp only [invisible, and_eq_true] at hi
        exact hi.1.2
      have hne : q.revents.Nonempty := by
        obtain ⟨f, hf⟩ := of_decide_eq_true hpipe
        exact ⟨f, (mem_inter.mp hf).1⟩
      rw [List.countP_cons_of_neg (by simp [disarm]), List.countP_cons_of_pos (by simpa using hne)]
      grind
    grind [discount_cons_neg]

/-! ### What holds between the passes -/

/-- A request as the call made it; the host may have refused it since, and a completion of a usbfs
descriptor may have been discounted. -/
structure PselectReq.Made (c : PselectCall) (q : PselectReq) : Prop where
  asked : c.asks q.index = true
  host : q.hostFd = c.hostFd q.index
  usb : q.usbdev = c.usbdev q.index
  wantR : q.usbWantR = (c.usbdev q.index && c.readfds.bit q.index)
  wantW : q.usbWantW = (c.usbdev q.index && c.writefds.bit q.index)
  events : q.events = (c.arm q.index (c.hostFd q.index)).events
  unp : q.unp.fd < 0 ∨ q.unp.fd = q.hostFd ∧ q.unp.events = q.events
  disarmed : q.disarmed = true → q.usbdev = true

structure PselectWaits (c : PselectCall) (s : PselectState) : Prop where
  made : ∀ q ∈ s.reqs, q.Made c
  quiet : s.usePollFallback = false → ∀ q ∈ s.reqs, q.disarmed = true →
    s.savedRead q.hostFd = false
  pipes : ∀ q ∈ s.reqs, q.usbdev = true → q.unp.fd < 0
  native : s.usePollFallback = false → s.refused = 0
  idle : s.refused = 0 → s.ready = 0
  refused : 0 ≤ s.refused
  deadline : 0 ≤ s.deadlineMs → ∃ ts, c.timeout = .val ts ∧ s.deadlineMs = c.start + ts.ms

variable {c : PselectCall} {s : PselectState} {p : PselectPass} {m : ℤ} {b : Bool}

lemma PselectReq.Made.revents (h : q.Made c) (m : PollMask) :
    ({ q with revents := m } : PselectReq).Made c :=
  { h with }

lemma PselectReq.Made.eval (h : q.Made c) (sel : Option HostReady) :
    ({ q with unp := q.unp.eval sel } : PselectReq).Made c := by
  refine { h with unp := ?_ }
  rw [(q.unp.eval_fd sel).1, (q.unp.eval_fd sel).2]
  exact h.unp

lemma PselectReq.Made.split (h : q.Made c) : q.split.Made c := by
  unfold PselectReq.split
  split
  · exact { h with unp := .inr ⟨rfl, rfl⟩ }
  · exact h

lemma PselectReq.Made.disarm (h : q.Made c) (husb : q.usbdev) : q.disarm.Made c :=
  { h with disarmed := fun _ => husb }

section
variable (h : PselectWaits c s)
include h

lemma PselectWaits.map {g : PselectReq → PselectReq} (hmade : ∀ q, q.Made c → (g q).Made c)
    (hsame : s.usePollFallback = false → ∀ q, (g q).disarmed = q.disarmed ∧ (g q).hostFd = q.hostFd)
    (hpipes : ∀ q ∈ s.reqs, (g q).usbdev → (g q).unp.fd < 0) {n : ℤ}
    (hnative : s.usePollFallback = false → n = 0) (hidle : n = 0 → m = 0) (hn : 0 ≤ n) :
    PselectWaits c { s with reqs := s.reqs.map g, refused := n, ready := m, checked := b } where
  made := List.forall_mem_map.mpr fun q hq => hmade q (h.made q hq)
  quiet hfb := List.forall_mem_map.mpr fun q hq hd => by
    obtain ⟨hdis, hhost⟩ := hsame hfb q
    rw [hhost]
    exact h.quiet hfb q hq (hdis.symm.trans hd)
  pipes := List.forall_mem_map.mpr hpipes
  native := hnative
  idle := hidle
  refused := hn
  deadline := h.deadline

lemma PselectWaits.revents (f : PselectReq → PollMask) :
    PselectWaits c { s with reqs := s.reqs.map fun q => { q with revents := f q } } :=
  h.map (fun q hq => hq.revents (f q)) (fun _ _ => ⟨rfl, rfl⟩) h.pipes h.native h.idle h.refused

lemma PselectWaits.retry : PselectWaits c s.retry :=
  h.revents fun _ => ∅

lemma PselectWaits.polled (r : HostReady) : PselectWaits c (s.polled r) :=
  h.revents _

lemma PselectWaits.evaluated (sel : Option HostReady) : PselectWaits c (s.evaluated sel) := by
  unfold PselectState.evaluated
  split
  · refine h.map (fun q hq => hq.eval sel) (fun _ _ => ⟨rfl, rfl⟩) (fun q hq husb => ?_) h.native
      (fun h0 => ?_) h.refused
    · rw [(q.unp.eval_fd sel).1]
      exact h.pipes q hq husb
    · omega
  · exact h

lemma PselectWaits.split (hfb : s.usePollFallback) (hready : s.reqs.any PselectReq.refuses)
    (hpipes : ∀ q ∈ s.reqs, q.usbdev → q.refuses = false) : PselectWaits c s.split := by
  have hpos : 0 < s.reqs.countP PselectReq.refuses := by
    grind
  have hno : s.usePollFallback ≠ false := by
    rw [hfb]
    decide
  refine h.map (fun q hq => hq.split.revents ∅) (fun hc => absurd hc hno) (fun q hq husb => ?_)
    (fun hc => absurd hc hno) (fun h0 => ?_) (Int.natCast_nonneg _)
  · have hsame : q.usbdev := by
      grind [PselectReq.split]
    rw [PselectReq.split, hpipes q hq hsame, if_neg Bool.false_ne_true]
    exact h.pipes q hq hsame
  · omega

lemma PselectWaits.withChecked (b : Bool) : PselectWaits c { s with checked := b } :=
  { h with }

lemma PselectWaits.discounted (usb : ℕ → UsbState) (R : ℤ → Bool) :
    PselectWaits c (s.discounted usb R) := by
  refine ⟨?_, ?_, ?_, h.native, h.idle, h.refused, h.deadline⟩
  · intro q hq
    obtain hq | ⟨a, ha, husb, rfl, -⟩ := discount_mem hq
    · exact h.made q hq
    · exact (h.made a ha).disarm husb
  · intro hfb q hq hd
    obtain hmem | ⟨a, ha, -, rfl, hfalse⟩ := discount_mem hq
    · by_contra hno
      have hbefore := (discount_le _ _ _).2 _ (eq_true_of_not_eq_false hno)
      rw [h.quiet hfb q hmem hd] at hbefore
      cases hbefore
    · exact (hfalse hfb).2
  · intro q hq husb
    obtain hq | ⟨a, ha, husb', rfl, -⟩ := discount_mem hq
    · exact h.pipes q hq husb
    · exact h.pipes a ha husb'

end

/-! ### A pass -/

/-- What the pass of a call must be for the call to wait to its end: the clock does not go back, the
usbfs maps stay as they are during the pass and are asked about in the first two sets, and where
`poll` answers it does not begin to refuse a descriptor it took before, takes the completion pipes,
and has one of the first two sets to report a hang-up or an error in. -/
structure PselectOk (c : PselectCall) (s : PselectState) (p : PselectPass) : Prop where
  clock : p.now ≤ p.afterWake ∧ p.afterWake ≤ p.afterUsb
  maps : p.breakUsb = p.writeUsb ∧ p.discountUsb = p.writeUsb
  usb : ∀ i, c.asks i = true → c.usbdev i = true →
    c.readfds.bit i = true ∨ c.writefds.bit i = true
  hangup : s.usePollFallback = true → ∀ host, p.host = .ok host → ∀ i, c.asks i = true →
    .pollhup ∈ host.bits (c.hostFd i) ∨ .pollerr ∈ host.bits (c.hostFd i) →
    c.readfds.given = true ∨ c.writefds.given = true
  late : s.usePollFallback = true → ∀ host, p.host = .ok host → s.checked = true →
    ∀ q ∈ s.reqs, q.unp.fd < 0 → host.refused q.hostFd = false
  pipes : s.usePollFallback = true → ∀ host, p.host = .ok host → ∀ i, c.asks i = true →
    c.usbdev i = true → host.refused (c.hostFd i) = false

variable {n : ℤ} {E W : ℤ → Bool}

/-! ### Bits that are set -/

lemma SelectBits.count_nonneg (b : SelectBits) : 0 ≤ b.count := by
  unfold SelectBits.count
  omega

lemma SelectBits.count_pos {b : SelectBits} (h : b.r ∨ b.w ∨ b.e) : 1 ≤ b.count := by
  unfold SelectBits.count
  grind

lemma pending_bits (hmade : q.Made c)
    (husb : c.usbdev q.index → c.readfds.bit q.index ∨ c.writefds.bit q.index)
    (h : q.usbWakePending usb) : 1 ≤ (q.usbBits fb R usb).count := by
  obtain ⟨hd, hwake⟩ := Bool.and_eq_true_iff.mp h
  have hdev : c.usbdev q.index := by
    rw [← hmade.usb]
    exact hmade.disarmed hd
  refine SelectBits.count_pos ?_
  simp only [usbBits, hmade.wantR, hmade.wantW, hdev, hd, Bool.true_and, Bool.or_true]
  rw [hmade.wantW, hdev] at hwake
  obtain hr | hw := husb hdev
  · rw [hr]
    grind
  grind

lemma visible_bits (hready : q.pipeReady fb R) (h : q.visible usb) :
    1 ≤ (q.usbBits fb R usb).count := by
  refine SelectBits.count_pos ?_
  simp only [visible, Bool.or_eq_true, Bool.and_eq_true] at h
  simp only [usbBits, hready, Bool.true_or, Bool.true_and]
  grind

variable {f : PollFlag}

lemma asked_bits (hmade : q.Made c) (hplain : q.usbdev = false)
    (hf : f ∈ if 0 ≤ q.unp.fd then q.unp.revents else q.revents) (hev : f ∈ q.events) :
    1 ≤ (c.reqBits true R W E usb q).count := by
  rw [hmade.events] at hev
  refine SelectBits.count_pos ?_
  rw [reqBits, hplain, if_neg Bool.false_ne_true, if_pos rfl]
  obtain ⟨rfl, hb⟩ | ⟨rfl, hb⟩ | ⟨rfl, hb⟩ := (mem_armEvents (hmade.usb.symm.trans hplain)).mp hev
  · refine .inl (Bool.and_eq_true_iff.mpr ⟨UserArg.given_of_bit hb, decide_eq_true ?_⟩)
    exact ⟨.pollin, mem_inter.mpr ⟨hf, by decide⟩⟩
  · refine .inr (.inl (Bool.and_eq_true_iff.mpr ⟨UserArg.given_of_bit hb, decide_eq_true ?_⟩))
    exact ⟨.pollout, mem_inter.mpr ⟨hf, by decide⟩⟩
  · exact .inr (.inr (Bool.and_eq_true_iff.mpr ⟨UserArg.given_of_bit hb, decide_eq_true hf⟩))

lemma hangup_bits (hplain : q.usbdev = false)
    (hf : f ∈ if 0 ≤ q.unp.fd then q.unp.revents else q.revents) (hev : f = .pollhup ∨ f = .pollerr)
    (hgiven : c.readfds.given ∨ c.writefds.given) : 1 ≤ (c.reqBits true R W E usb q).count := by
  refine SelectBits.count_pos ?_
  rw [reqBits, hplain, if_neg Bool.false_ne_true, if_pos rfl]
  obtain hg | hg := hgiven
  · refine .inl (Bool.and_eq_true_iff.mpr ⟨hg, decide_eq_true ⟨f, mem_inter.mpr ⟨hf, ?_⟩⟩⟩)
    obtain rfl | rfl := hev <;> decide
  · refine .inr (.inl (Bool.and_eq_true_iff.mpr ⟨hg, decide_eq_true ⟨f, mem_inter.mpr ⟨hf, ?_⟩⟩⟩))
    obtain rfl | rfl := hev <;> decide

lemma Unpollable.eval_subset (u : Unpollable) (sel : Option HostReady) :
    (u.eval sel).revents ⊆ u.events := by
  unfold Unpollable.eval
  split
  · exact Finset.empty_subset _
  split
  · exact inter_subset_left
  split
  · exact Finset.empty_subset _
  refine union_subset (union_subset ?_ ?_) ?_
  · grind
  · grind
  grind

variable {now : ℤ} {l : List PselectReq}

lemma writeback_zero (h0 : (c.writeback s R W E usb m now).ret = 0) :
    (c.readfds.given || c.writefds.given || c.exceptfds.given) = false ∧ m = 0 ∨
    s.usePollFallback ∧ (s.reqs.map fun q => (c.reqBits true R W E usb q).count).sum = 0 ∨
    s.usePollFallback = false ∧ m + (s.reqs.map fun q => if q.usbdev then
      (q.usbBits false R usb).count - (q.pipeReady false R).toNat else 0).sum = 0 := by
  unfold writeback at h0
  dsimp only at h0
  split at h0
  · have hneg := error_neg (show 0 < linuxEfault by decide) now
    omega
  split at h0
  · grind
  split at h0
  · grind
  rename_i hfb
  rw [eq_false_of_not_eq_true hfb] at h0
  refine .inr (.inr ⟨eq_false_of_not_eq_true hfb, ?_⟩)
  have hbits : ∀ q ∈ s.reqs, (if q.usbdev = true then
      (c.reqBits false R W E usb q).count - ((q.pipeReady false R).toNat : ℤ) else 0) =
      if q.usbdev = true then (q.usbBits false R usb).count - ((q.pipeReady false R).toNat : ℤ)
        else 0 := by
    intro q _
    cases husb : q.usbdev with
    | false => rfl
    | true => rw [if_pos rfl, if_pos rfl, reqBits, husb, if_pos rfl]
  rw [List.map_congr_left hbits] at h0
  exact h0

lemma writeback_now : (c.writeback s R W E usb m now).now = now := by
  unfold writeback
  dsimp only
  split <;> rfl

/-! ### The end of the call -/

lemma le_sum_of_mem {f : PselectReq → ℤ} (h0 : ∀ a ∈ l, 0 ≤ f a) {a : PselectReq} (ha : a ∈ l) :
    f a ≤ (l.map f).sum := by
  refine List.single_le_sum ?_ (f a) (List.mem_map_of_mem ha)
  grind

lemma sum_map_nonneg {f : PselectReq → ℤ} (h0 : ∀ a ∈ l, 0 ≤ f a) : 0 ≤ (l.map f).sum := by
  refine List.sum_nonneg ?_
  grind

/-- The correction that `pselect_writeback` makes for a usbfs request. -/
def PselectReq.adjust (usb : ℕ → UsbState) (R : ℤ → Bool) (q : PselectReq) : ℤ :=
  if q.usbdev then (q.usbBits false R usb).count - (q.pipeReady false R).toNat else 0

lemma adjust_nonneg (h : q.usbdev → q.pipeReady false R → q.visible usb) : 0 ≤ q.adjust usb R := by
  unfold adjust
  split
  · rename_i husb
    have hcount := (q.usbBits false R usb).count_nonneg
    cases hready : q.pipeReady false R with
    | false =>
      rw [toNat_false]
      omega
    | true =>
      have hbits := visible_bits hready (h husb hready)
      rw [toNat_true]
      omega
  · exact Int.le_refl 0

lemma TimedOut.of_timeLeft (h : PselectWaits c s) (hleft : timeLeft s.deadlineMs now = false) :
    TimedOut c.timeout c.start now := by
  obtain ⟨hdead, hreached⟩ := timeLeft_eq_false hleft
  obtain ⟨ts, hts, heq⟩ := h.deadline hdead
  exact ⟨ts, hts, .inr (by omega)⟩

lemma PselectWaits.cause (h : PselectWaits c s)
    (hok : p.now ≤ p.afterWake ∧ p.afterWake ≤ p.afterUsb)
    (hwoken : s.wakeReady p ≠ 0 → timeLeft s.deadlineMs p.afterWake = false)
    (hstop : s.wakeReady p = 0 → timeLeft s.deadlineMs p.now →
      s.reqs.any (usbWakePending p.breakUsb) ∨ s.ready ≠ 0) :
    TimedOut c.timeout c.start p.afterUsb ∨
      s.reqs.any (usbWakePending p.breakUsb) ∨ s.ready ≠ 0 := by
  by_cases hleft : timeLeft s.deadlineMs p.afterUsb
  · have hleft' := timeLeft_mono hok.2 hleft
    have hquiet : s.wakeReady p = 0 := by
      by_contra hwake
      rw [hwoken hwake] at hleft'
      cases hleft'
    exact .inr (hstop hquiet (timeLeft_mono hok.1 hleft'))
  · exact .inl (.of_timeLeft h (eq_false_of_not_eq_true hleft))

variable {host : HostReady}

lemma readSet_quiet (h : PselectWaits c s) (hfb : s.usePollFallback = false) (hq : q ∈ s.reqs)
    (hd : q.disarmed) : s.readSet host q.hostFd = false := by
  unfold readSet
  rw [h.quiet hfb q hq hd]
  rfl

lemma hostBits_eq_zero (h : hostBits R = 0) (hin : inFdSet x) : R x = false := by
  by_contra hx
  have hone := hostBits_update hin (eq_true_of_not_eq_false hx)
  have hpos := hostBits_nonneg (update R x false)
  omega

lemma pipeReady_none (h0 : hostBits R = 0) : q.pipeReady false R = false := by
  by_contra hready
  obtain ⟨hin, hbit⟩ := and_eq_true_iff.mp (eq_true_of_not_eq_false hready)
  rw [hostBits_eq_zero h0 hin] at hbit
  cases hbit

/-- The completions that are left are the guest's, so the count is only corrected upwards. -/
lemma adjust_left_nonneg (h : PselectWaits c s) (hok : PselectOk c s p)
    (hfb : s.usePollFallback = false)
    (hq : q ∈ (s.discounted p.discountUsb (s.readSet host)).reqs) :
    0 ≤ q.adjust p.writeUsb (s.discount p.discountUsb (s.readSet host)).2.1 := by
  refine adjust_nonneg fun husb hready => ?_
  rw [← hok.maps.2]
  unfold discounted at hq
  rw [discount, hfb] at hready
  rw [hfb] at hq
  refine discount_left hq husb ?_ hready
  -- a disarmed request has no bit
  by_contra hd
  have hbit := (and_eq_true_iff.mp hready).2
  have hbefore : s.readSet host q.hostFd := (discount_le _ _ _).1 _ hbit
  obtain hmem | ⟨a, ha, -, rfl, hfalse⟩ := discount_mem hq
  · rw [readSet_quiet h hfb hmem (eq_true_of_not_eq_false hd)] at hbefore
    cases hbefore
  · rw [show a.disarm.hostFd = a.hostFd from rfl, (hfalse rfl).1] at hbit
    cases hbit

lemma pending_adjusts (h : PselectWaits c s) (hok : PselectOk c s p) (hq : q ∈ s.reqs)
    (hwake : q.usbWakePending p.breakUsb) (h0 : hostBits R = 0) : 1 ≤ q.adjust p.writeUsb R := by
  have hmade := h.made q hq
  rw [hok.maps.1] at hwake
  have hbits : 1 ≤ (q.usbBits false R p.writeUsb).count :=
    pending_bits hmade (hok.usb q.index hmade.asked) hwake
  unfold adjust
  rw [if_pos (hmade.disarmed (and_eq_true_iff.mp hwake).1), pipeReady_none h0, toNat_false]
  omega

variable {res : PselectResult}

lemma native_zero (h : PselectWaits c s) (hok : PselectOk c s p) (hfb : s.usePollFallback = false)
    (hn : n = hostBits (s.readSet host) + hostBits (s.writeSet host) + hostBits (s.exceptSet host))
    (hs : pselectRound c s p (s.readSet host) (s.writeSet host) (s.exceptSet host)
      (n + s.wakeReady p) = .inr res) (h0 : res.ret = 0) : TimedOut c.timeout c.start res.now := by
  have hr := hostBits_nonneg (s.readSet host)
  have hw := hostBits_nonneg (s.writeSet host)
  have he := hostBits_nonneg (s.exceptSet host)
  obtain hs | ⟨t, hs, -⟩ | ⟨hpos, m, hm, hs, hzero⟩ | ⟨hnone, hs, hwoken, hstop⟩ :=
    pselectRound_cases (by omega) hs
  · have hneg := error_neg (show 0 < linuxEintr by decide) p.now
    grind
  · cases hs
  · cases hs
    rw [writeback_now]
    refine TimedOut.of_timeLeft h (hzero ?_)
    have hbits := discount_bits p.discountUsb s.reqs (s.readSet host) s.savedRead
    have hr' := hostBits_nonneg (usbDiscountInvisible false p.discountUsb s.reqs (s.readSet host)
      s.savedRead).2.1
    obtain ⟨-, hm0⟩ | ⟨hfb', -⟩ | ⟨-, hsum⟩ := writeback_zero h0
    · exact hm0
    · cases hfb.symm.trans hfb'
    have hadj : 0 ≤ ((s.discounted p.discountUsb (s.readSet host)).reqs.map
        (adjust p.writeUsb (s.discount p.discountUsb (s.readSet host)).2.1)).sum :=
      sum_map_nonneg fun q hq => adjust_left_nonneg h hok hfb hq
    replace hsum : m + ((s.discounted p.discountUsb (s.readSet host)).reqs.map
        (adjust p.writeUsb (s.discount p.discountUsb (s.readSet host)).2.1)).sum = 0 :=
      hsum
    rw [discount, hfb] at hm
    omega
  cases hs
  rw [writeback_now]
  -- nothing was ready, so a completion that is watched through the maps ended the loop
  obtain htime | hpend | hready := h.cause hok.clock hwoken hstop
  · exact htime
  · obtain ⟨q, hq, hwake⟩ := List.any_eq_true.mp hpend
    obtain ⟨hnil, -⟩ | ⟨hfb', -⟩ | ⟨-, hsum⟩ := writeback_zero h0
    · rw [reqs_nil (fun q hq => (h.made q hq).asked) hnil] at hq
      cases hq
    · cases hfb.symm.trans hfb'
    have hbits : hostBits (s.readSet host) = 0 := by
      omega
    have hone := pending_adjusts h hok hq hwake hbits
    have hle := le_sum_of_mem (f := adjust p.writeUsb (s.readSet host))
      (fun a _ => adjust_nonneg fun _ hready => by
        rw [pipeReady_none hbits] at hready
        cases hready) hq
    replace hsum : 0 + (s.reqs.map (adjust p.writeUsb (s.readSet host))).sum = 0 := hsum
    omega
  · exact absurd (h.idle (h.native hfb)) hready

lemma mem_polled (hq : q ∈ ((s.evaluated sel).polled host).reqs) :
    q.revents = host.poll (if 0 ≤ q.unp.fd ∨ q.disarmed then -1 else q.hostFd) q.events ∧
    (0 < s.refused → q.unp.revents ⊆ q.unp.events) ∧
    ∃ a ∈ s.reqs, q.hostFd = a.hostFd ∧ q.unp.fd = a.unp.fd := by
  obtain ⟨a, ha, rfl⟩ := List.mem_map.mp hq
  unfold evaluated at ha
  split at ha
  · obtain ⟨b, hb, rfl⟩ := List.mem_map.mp ha
    refine ⟨rfl, fun _ => ?_, b, hb, rfl, (b.unp.eval_fd sel).1⟩
    show (b.unp.eval sel).revents ⊆ (b.unp.eval sel).events
    rw [(b.unp.eval_fd sel).2]
    exact b.unp.eval_subset sel
  · rename_i hno
    exact ⟨rfl, fun hpos => absurd hpos hno, a, ha, rfl, rfl⟩

/-- A request that `poll` has answered without refusing it is armed, in the poll set, and has flags
it asked for, a hang-up or an error. -/
lemma polled_flag
    (hpoll : q.revents = host.poll (if 0 ≤ q.unp.fd ∨ q.disarmed then -1 else q.hostFd) q.events)
    (hne : q.revents.Nonempty) :
    q.unp.fd < 0 ∧ q.disarmed = false ∧ (host.refused q.hostFd = false → ∃ f ∈ q.revents,
      f ∈ q.events ∨ (f = .pollhup ∨ f = .pollerr) ∧ f ∈ host.bits q.hostFd) := by
  obtain ⟨f, hf⟩ := hne
  have hasked : ¬ (0 ≤ q.unp.fd ∨ q.disarmed) := by
    intro hc
    rw [hpoll, if_pos hc] at hf
    exact absurd hf (notMem_empty f)
  obtain ⟨hunp, harmed⟩ := not_or.mp hasked
  refine ⟨by omega, eq_false_of_not_eq_true harmed, fun hno => ⟨f, hf, ?_⟩⟩
  rw [hpoll, if_neg hasked, HostReady.poll] at hf
  grind

section
variable (hmade : q.Made c)
  (hpoll : q.revents = host.poll (if 0 ≤ q.unp.fd ∨ q.disarmed then -1 else q.hostFd) q.events)
include hmade hpoll

lemma not_refuses (hno : host.refused q.hostFd = false) : q.refuses = false := by
  have hev : .pollnval ∉ q.events := by
    rw [hmade.events]
    grind [arm]
  refine decide_eq_false ?_
  by_cases hc : 0 ≤ q.unp.fd ∨ q.disarmed
  · rw [hpoll, if_pos hc]
    exact notMem_empty _
  grind [HostReady.poll]

lemma refuses_of (hfd : q.unp.fd < 0) (harmed : q.disarmed = false) (hyes : host.refused q.hostFd) :
    q.refuses := by
  refine decide_eq_true ?_
  have hpos : ¬ q.hostFd < 0 := by
    rw [hmade.host]
    omega
  grind [HostReady.poll]

end

lemma sum_bits_ne_zero (hq : q ∈ qs) (hone : 1 ≤ (c.reqBits true R W E usb q).count) :
    (qs.map fun q => (c.reqBits true R W E usb q).count).sum ≠ 0 := by
  have hle := le_sum_of_mem (f := fun q => (c.reqBits true R W E usb q).count)
    (fun a _ => SelectBits.count_nonneg _) hq
  omega

section
variable (hok : PselectOk c s p) (hfb : s.usePollFallback = true) (hhost : p.host = .ok host)
  (hmade : q.Made c) (hq : q ∈ ((s.evaluated p.select).polled host).reqs) (hne : q.revents.Nonempty)
include hok hfb hhost hmade hq hne

/-- What `poll` answers for a descriptor of the guest shows in the sets, if the pass is late enough
to have refused descriptors checked. -/
lemma plain_shows (hplain : q.usbdev = false) (hlate : q.refuses → s.checked) :
    1 ≤ (c.reqBits true R W E usb q).count := by
  obtain ⟨hpoll, -, a, ha, hhostFd, hunp⟩ := mem_polled hq
  obtain ⟨hfd, harmed, hflag⟩ := polled_flag hpoll hne
  have hno : host.refused q.hostFd = false := by
    by_contra hyes
    replace hyes := eq_true_of_not_eq_false hyes
    have htook := hok.late hfb host hhost (hlate (refuses_of hmade hpoll hfd harmed hyes)) a ha
      (by omega)
    grind
  obtain ⟨f, hf, hev | ⟨hev, hbits⟩⟩ := hflag hno
  · refine asked_bits hmade hplain ?_ hev
    rw [if_neg (by omega)]
    exact hf
  refine hangup_bits hplain ?_ hev (hok.hangup hfb host hhost q.index hmade.asked ?_)
  · rw [if_neg (by omega)]
    exact hf
  rw [← hmade.host]
  obtain rfl | rfl := hev
  · exact .inl hbits
  · exact .inr hbits

/-- So does what it answers for a usbfs pipe that is left after the discount. -/
lemma pipe_shows (husb : q.usbdev)
    (hleft : q ∈ (usbDiscountInvisible true p.discountUsb qs R S).1) :
    1 ≤ (c.reqBits true T W E p.writeUsb q).count := by
  obtain ⟨hpoll, -, -⟩ := mem_polled hq
  obtain ⟨-, harmed, hflag⟩ := polled_flag hpoll hne
  have hdev := hmade.usb.symm.trans husb
  have hno := hok.pipes hfb host hhost q.index hmade.asked hdev
  rw [← hmade.host] at hno
  obtain ⟨f, hf, hev⟩ := hflag hno
  have hready : ∀ R, q.pipeReady true R := by
    intro R
    refine decide_eq_true ⟨f, mem_inter.mpr ⟨hf, ?_⟩⟩
    obtain hev | ⟨rfl | rfl, -⟩ := hev
    · rw [hmade.events] at hev
      grind [arm]
    · decide
    · decide
  have hvis := discount_left hleft husb harmed (hready _)
  rw [hok.maps.2] at hvis
  rw [reqBits, husb, if_pos rfl]
  exact visible_bits (hready _) hvis

end

lemma refused_shows (hw : PselectWaits c s') (hs' : q ∈ s'.reqs)
    (hq : q ∈ ((s.evaluated sel).polled host).reqs) (hpos : 0 < s.refused)
    (hready : q.unp.ready) : 1 ≤ (c.reqBits true R W E usb q).count := by
  have hmade := hw.made q hs'
  obtain ⟨hfd, hne⟩ := and_eq_true_iff.mp hready
  replace hfd := of_decide_eq_true hfd
  obtain ⟨f, hf⟩ := of_decide_eq_true hne
  have hplain : q.usbdev = false := by
    by_contra husb
    have hneg := hw.pipes q hs' (eq_true_of_not_eq_false husb)
    omega
  have hev : f ∈ q.events := by
    obtain hneg | ⟨-, hsame⟩ := hmade.unp
    · omega
    · rw [← hsame]
      exact (mem_polled hq).2.1 hpos hf
  refine asked_bits hmade hplain ?_ hev
  rw [if_pos hfd]
  exact hf

section
variable (h : PselectWaits c s)
include h

lemma evaluated_ready (hready : ((s.evaluated sel).polled host).ready ≠ 0) :
    0 < s.refused ∧ ∃ q ∈ ((s.evaluated sel).polled host).reqs, q.unp.ready := by
  replace hready : (s.evaluated sel).ready ≠ 0 := hready
  unfold evaluated at hready ⊢
  split at hready
  · rename_i hpos
    refine ⟨hpos, ?_⟩
    rw [if_pos hpos]
    have hcount : 0 < (s.reqs.map fun q => { q with unp := q.unp.eval sel }).countP
        fun q => q.unp.ready := by
      dsimp only at hready
      omega
    obtain ⟨a, ha, hr⟩ := List.countP_pos_iff.mp hcount
    exact ⟨_, List.mem_map_of_mem ha, hr⟩
  · have hge := h.refused
    exact absurd (h.idle (by omega)) hready

lemma fallback_zero (hok : PselectOk c s p) (hfb : s.usePollFallback)
    (hhost : p.host = .ok host) {t : PselectState}
    (ht : t = { (s.evaluated p.select).polled host with checked := b })
    (hn : n = t.reqs.countP fun q => q.revents.Nonempty)
    (hlate : 0 < n → t.reqs.any refuses → s.checked)
    (hs : pselectRound c t p (fun _ => false) (fun _ => false) (fun _ => false)
      (n + t.wakeReady p) = .inr res) (h0 : res.ret = 0) : TimedOut c.timeout c.start res.now := by
  have hw : PselectWaits c t := by
    rw [ht]
    exact ((h.evaluated p.select).polled host).withChecked b
  have htfb : t.usePollFallback := by
    rw [ht, ← hfb]
    exact (evaluated_same s p.select).1
  have hpolled : ∀ q ∈ t.reqs, q ∈ ((s.evaluated p.select).polled host).reqs := by
    intro q hq
    rw [ht] at hq
    exact hq
  obtain hs | ⟨t', hs, -⟩ | ⟨hpos, m, hm, hs, hzero⟩ | ⟨hnone, hs, hwoken, hstop⟩ :=
    pselectRound_cases (by omega) hs
  · have hneg := error_neg (show 0 < linuxEintr by decide) p.now
    grind
  · cases hs
  · cases hs
    rw [writeback_now]
    refine TimedOut.of_timeLeft hw (hzero ?_)
    rw [discount, htfb] at hm
    have hcount := discount_count p.discountUsb t.reqs (fun _ => false) t.savedRead
    obtain ⟨-, hm0⟩ | ⟨-, hsum0⟩ | ⟨hfb', -⟩ := writeback_zero h0
    · exact hm0
    · -- a request that is left has an answer
      by_contra hm0
      have hleft : 0 < (usbDiscountInvisible true p.discountUsb t.reqs (fun _ => false)
          t.savedRead).1.countP fun q => q.revents.Nonempty := by
        omega
      obtain ⟨q, hq, hne⟩ := List.countP_pos_iff.mp hleft
      replace hne : q.revents.Nonempty := by simpa using hne
      obtain hmem | ⟨a, -, -, rfl, -⟩ := discount_mem hq
      · have hqd : q ∈ (t.discounted p.discountUsb fun _ => false).reqs := by
          unfold discounted
          rw [htfb]
          exact hq
        refine sum_bits_ne_zero hqd ?_ hsum0
        cases husb : q.usbdev with
        | false =>
          refine plain_shows hok hfb hhost (hw.made q hmem) (hpolled q hmem) hne husb fun href => ?_
          exact hlate (by omega) (List.any_eq_true.mpr ⟨q, hmem, href⟩)
        | true => exact pipe_shows hok hfb hhost (hw.made q hmem) (hpolled q hmem) hne husb hq
      · exact absurd hne (Finset.not_nonempty_empty)
    · cases htfb.symm.trans hfb'
  cases hs
  rw [writeback_now]
  -- a completion that is watched through the maps, or a refused descriptor, ended the loop
  obtain htime | hcause := hw.cause hok.clock hwoken hstop
  · exact htime
  have hshown : ∃ q ∈ t.reqs, 1 ≤ (c.reqBits true (fun _ => false) (fun _ => false)
      (fun _ => false) p.writeUsb q).count := by
    obtain hpend | hready := hcause
    · obtain ⟨q, hq, hwake⟩ := List.any_eq_true.mp hpend
      have hmade := hw.made q hq
      rw [hok.maps.1] at hwake
      refine ⟨q, hq, ?_⟩
      rw [reqBits, if_pos (hmade.disarmed (and_eq_true_iff.mp hwake).1)]
      exact pending_bits hmade (hok.usb q.index hmade.asked) hwake
    rw [ht] at hready
    obtain ⟨hpos, q, hq, hr⟩ := evaluated_ready h hready
    have hq' : q ∈ t.reqs := by
      rw [ht]
      exact hq
    exact ⟨q, hq', refused_shows hw hq' hq hpos hr⟩
  obtain ⟨q, hq, hone⟩ := hshown
  obtain ⟨hnil, -⟩ | ⟨-, hsum0⟩ | ⟨hfb', -⟩ := writeback_zero h0
  · rw [reqs_nil (fun q hq => (hw.made q hq).asked) hnil] at hq
    cases hq
  · exact absurd hsum0 (sum_bits_ne_zero hq hone)
  · cases htfb.symm.trans hfb'

lemma pselectPass_zero (hok : PselectOk c s p) (hs : pselectPass c s p = .inr res)
    (h0 : res.ret = 0) : TimedOut c.timeout c.start res.now := by
  obtain ⟨err, now, hpos, hp⟩ | ⟨host, hhost, ⟨hfb, n, hn, -, hp⟩ | ⟨hfb, t, rfl, ht⟩⟩ :=
    pselectPass_cases c s p
  · have hneg := error_neg hpos now
    grind
  · rw [hp] at hs
    exact native_zero h hok hfb hn hs h0
  obtain ⟨-, -, hp⟩ | ⟨b, n, hn, hlate, hp⟩ := ht
  · rw [hp] at hs
    cases hs
  rw [hp] at hs
  refine fallback_zero (b := (s.evaluated p.select).checked || b) h hok hfb hhost rfl hn
    (fun hpos hany => ?_) hs h0
  exact (evaluated_same s p.select).2.symm.trans (hlate hpos hany)

lemma pselectRound_waits (hn : 0 ≤ n)
    (hs : pselectRound c s p R W E (n + s.wakeReady p) = .inl s') : PselectWaits c s' := by
  obtain hs | ⟨t, hs, ht⟩ | ⟨-, _, -, hs, -⟩ | ⟨-, hs, -⟩ := pselectRound_cases hn hs
  · cases hs
  · cases hs
    obtain rfl | rfl | rfl := ht
    · exact h
    · exact h.retry
    · exact (h.discounted p.discountUsb R).retry
  · cases hs
  · cases hs

lemma pselectPass_waits (hok : PselectOk c s p) (hs : pselectPass c s p = .inl s') :
    PselectWaits c s' := by
  obtain ⟨_, _, -, hp⟩ | ⟨host, hhost, ⟨-, n, -, hn, hp⟩ | ⟨hfb, t, rfl, ht⟩⟩ :=
    pselectPass_cases c s p
  · rw [hp] at hs
    cases hs
  · rw [hp] at hs
    exact pselectRound_waits h hn hs
  have hw := (h.evaluated p.select).polled host
  obtain ⟨-, hany, hp⟩ | ⟨b, n, hn, -, hp⟩ := ht
  · rw [hp] at hs
    cases hs
    refine hw.split ((evaluated_same s p.select).1.trans hfb) hany fun q hq husb => ?_
    have hmade := hw.made q hq
    refine not_refuses hmade (mem_polled hq).1 ?_
    rw [hmade.host]
    exact hok.pipes hfb host hhost q.index hmade.asked (hmade.usb.symm.trans husb)
  · rw [hp] at hs
    exact pselectRound_waits (hw.withChecked _) (by omega) hs

end

lemma pselectStart_waits (hfits : TimeoutFits c.timeout) (hs : pselectStart c = .inl s) :
    PselectWaits c s := by
  obtain ⟨_, -, hc⟩ | ⟨hc, -⟩ | ⟨words, d, z, hwords, hc, hdead⟩ := pselectStart_cases c
  · rw [hc] at hs
    cases hs
  · rw [hc] at hs
    cases hs
  rw [hc] at hs
  cases hs
  have hmade : ∀ q ∈ c.requests words, q.Made c ∧ q.unp.fd < 0 ∧ q.disarmed = false := by
    intro q hq
    obtain ⟨i, hi, rfl⟩ := (mem_requests hwords).mp hq
    have hunp : (c.arm i (c.hostFd i)).unp.fd < 0 := show (-1 : ℤ) < 0 by decide
    exact ⟨⟨hi, rfl, rfl, rfl, rfl, rfl, .inl hunp, nofun⟩, hunp, rfl⟩
  refine ⟨fun q hq => (hmade q hq).1, fun _ q hq hd => ?_, fun q hq _ => (hmade q hq).2.1,
    fun _ => rfl, fun _ => rfl, Int.le_refl 0, fun h0 => ?_⟩
  · rw [(hmade q hq).2.2] at hd
    cases hd
  obtain ⟨ts, hts, hvalid, heq⟩ := hdead h0
  rw [toPollMs_eq hvalid (hfits ts hts)] at heq
  exact ⟨ts, hts, heq⟩

lemma pselectStart_zero (hs : pselectStart c = .inr res) (h0 : res.ret = 0) :
    TimedOut c.timeout c.start res.now := by
  obtain ⟨err, hpos, hc⟩ | ⟨-, -, ts, hts, hms⟩ | ⟨_, _, _, -, hc, -⟩ := pselectStart_cases c
  · have hneg := error_neg hpos c.start
    grind
  · exact ⟨ts, hts, .inl hms⟩
  · rw [hc] at hs
    cases hs

end Elfuse
