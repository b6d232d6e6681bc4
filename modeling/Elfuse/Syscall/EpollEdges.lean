/-
The events that `epoll_pwait` takes from the queue (`syscall/poll.c`).

Taking an event uses up a one-shot note and spends an edge-triggered one. The
wait asks for twice as many events as the guest has room for, since a descriptor
may have two, and merges them by descriptor. A run of a wait by itself is
followed here, with a log of the events it has taken whose registration is
active and not fired.

* `epoll_keeps_events` — an event in the log is reported, or its note is up when
  the call returns, if every pass meets `EpollKeeps`: what stands in the batch
  behind the event that takes the last slot is level-triggered, and a usbfs
  event that is used up without showing anything is muted.
-/
import Elfuse.Syscall.EpollWait

namespace Elfuse

open Runs List Function Nat Kqueue EpollInst

/-! ### Notes and registrations -/

/-- The note is delivered again without a change of its descriptor. -/
def Knote.up (k : Knote) : Bool := k.enabled && !(k.clear && k.spent)

/-- Taking an event uses the note up or spends it. -/
def Knote.once (k : Knote) : Bool := k.oneshot || k.clear

/-- The note has been armed for the registration. -/
structure Knote.Matches (k : Knote) (f : KqFilter) (reg : EpollReg) : Prop where
  oneshot : k.oneshot = hasAny reg.events linuxEpolloneshot
  clear : k.clear = hasAny reg.events linuxEpollet
  usb : reg.usbdev = true → f = .read
  asked : reg.usbdev = false → f = .read →
    hasAny reg.events linuxEpollReadable = true ∨ k.eofOnly = true

/-- The notes of active registrations have been armed for them. -/
def EpollArmed (inst : EpollInst) (kq : Kqueue) : Prop :=
  ∀ i f k, kq i f = some k → (inst.regs k.gfd).active = true → k.Matches f (inst.regs k.gfd)

/-- The changes of `epoll_build_changes` arm notes for the registration `epoll_store_reg`
records. -/
lemma buildChanges_matches {c : KqChange}
    (hc : c ∈ epollBuildChanges events fd snap) (inst : EpollInst) (data : ℕ) (pty refused : Bool) :
    Knote.Matches ⟨c.gfd, c.clear, c.oneshot, c.eofOnly, true, false⟩ c.filter
      ((epollStoreReg inst fd events data snap pty refused).regs c.gfd) := by
  unfold epollBuildChanges at hc
  split at hc
  · rename_i husb
    obtain rfl := mem_singleton.mp hc
    unfold epollStoreReg
    dsimp only
    rw [update_self]
    refine ⟨rfl, rfl, fun _ => rfl, fun hno => ?_⟩
    exact absurd husb (of_decide_eq_false hno)
  rename_i husb
  have hgfd : c.gfd = fd := by
    grind
  unfold epollStoreReg
  dsimp only
  rw [hgfd, update_self]
  obtain hc | hc := mem_append.mp hc
  · split at hc
    · obtain rfl := mem_singleton.mp hc
      refine ⟨rfl, rfl, fun hyes => absurd (of_decide_eq_true hyes) husb, fun _ _ => ?_⟩
      simp
    · cases hc
  split at hc
  · obtain rfl := mem_singleton.mp hc
    exact ⟨rfl, rfl, fun hyes => absurd (of_decide_eq_true hyes) husb, nofun⟩
  · cases hc

/-! ### The run -/

/-- The host can deliver the batch: it holds an event at most for each enabled note. -/
def kqDelivers (kq : Kqueue) (n : ℕ) (batch : List Kevent) : Bool :=
  batch.length ≤ 2 * n && decide (batch.map fun e => (e.ident, e.filter)).Nodup &&
    batch.all fun e => (kq e.ident e.filter).any fun k =>
      k.gfd = e.gfd && k.enabled && (!k.eofOnly || e.eof)

/-- A wait that goes on, with the log: the events and what they have to show. -/
structure EpollRun where
  w : EpollWait
  inst : EpollInst
  kq : Kqueue
  taken : List (Kevent × BitVec 32)

/-- A wait that has returned. -/
structure EpollEnd where
  res : EpollResult
  inst : EpollInst
  kq : Kqueue
  taken : List (Kevent × BitVec 32)

/-- The part of a batch that goes into the log. -/
def EpollInst.taken (inst : EpollInst) (p : EpollPass) : List (Kevent × BitVec 32) :=
  p.batch.filterMap fun e => (inst.shows p.seen.usb e).map fun a => (e, a.events)

/-- The passes of a wait while nobody else uses the instance. -/
def epollRunNext (c : EpollCall) (s : EpollRun ⊕ EpollEnd) (p : EpollPass) :
    Option (EpollRun ⊕ EpollEnd) :=
  match s with
  | .inr _ => none
  | .inl s =>
    if !kqDelivers s.kq s.w.maxevents p.batch then none
    else
      let taken := s.taken ++ s.inst.taken p
      match epollPass c s.w p s.inst s.kq with
      | (.inl w, inst, kq) => some (.inl ⟨w, inst, kq, taken⟩)
      | (.inr res, inst, kq) => some (.inr ⟨res, inst, kq, taken⟩)

def EpollEnd.Reported (d : EpollEnd) (t : Kevent × BitVec 32) : Prop :=
  ∃ b ∈ d.res.out, b.gfd = t.1.gfd ∧ Covers b.events t.2

/-- The event's note is up. -/
def EpollEnd.Armed (d : EpollEnd) (t : Kevent × BitVec 32) : Prop :=
  ∃ k, d.kq t.1.ident t.1.filter = some k ∧ k.gfd = t.1.gfd ∧ k.up = true

/-- The note of an event is used up or spent by it. -/
def Kqueue.once (kq : Kqueue) (e : Kevent) : Bool := (kq e.ident e.filter).any Knote.once

/-- An event whose note `epoll_mute_usb_wakes` mutes. -/
def EpollInst.mutes (inst : EpollInst) (ok : Kevent → Bool) (e : Kevent) : Bool :=
  e.gfd < fdTableSize && (inst.regs e.gfd).active && (inst.regs e.gfd).usbdev && ok e

/-- An event that is at stake: taking it uses its note up or spends it. -/
structure EpollRun.Stakes (s : EpollRun) (p : EpollPass) (e : Kevent) (a : OutEntry) : Prop where
  mem : e ∈ p.batch
  shows : s.inst.shows p.seen.usb e = some a
  once : s.kq.once e = true

/-- What a pass has to report. -/
def EpollRun.out (s : EpollRun) (p : EpollPass) : List OutEntry :=
  epollDropEmpty
    (epollCollect s.inst (p.batch.foldl Kqueue.dequeue s.kq) s.w.maxevents p.batch s.w.muted
        p.seen).1

/-- The pass comes to its collection. -/
def EpollRun.collects (s : EpollRun) (p : EpollPass) : Bool :=
  !p.interrupted && p.kevents.isOk && !s.w.again p

/-- What a pass must be like for no event to be lost. Where one is at stake, the process is not
about to go away; where it has something to show, fewer descriptors than there are slots stand
before it in the batch and the guest's buffer can be written, as it must when a muted note that is
used up is reported; and if it shows nothing, then nothing else does, there is time left and its
note can be muted. -/
structure EpollKeeps (c : EpollCall) (s : EpollRun) (p : EpollPass) : Prop where
  stop : ∀ e a, s.Stakes p e a → p.interrupts.stop = true → p.leaderOnly = true
  out : c.writeOut = false → s.collects p = true →
    (∀ e a, s.Stakes p e a → a.events = 0) ∧ ∀ b ∈ s.out p, ∀ m ∈ s.w.muted, m.gfd = b.gfd →
      hasAny (s.inst.regs m.gfd).events linuxEpolloneshot = false
  room : ∀ pre e post a, p.batch = pre ++ e :: post → s.Stakes p e a → a.events ≠ 0 →
    ((pre.filterMap (s.inst.shows p.seen.usb)).map OutEntry.gfd).toFinset.card < s.w.maxevents
  masked : ∀ pre e post a, p.batch = pre ++ e :: post → s.Stakes p e a → a.events = 0 →
    s.out p = [] ∧ timeLeft s.w.deadlineMs p.later = true ∧ p.muteOk e = true ∧
      s.w.muted.length + pre.countP (s.inst.mutes p.muteOk) < epollMuteMax

def epollRunKeeps (c : EpollCall) (s : EpollRun ⊕ EpollEnd) (p : EpollPass) : Prop :=
  match s with
  | .inl s => EpollKeeps c s p
  | .inr _ => True

/-! ### Slots -/

section
variable {α : Type} {f : α → Option OutEntry} {e : OutEntry}

lemma slot_gfds (h : epollOutSlot o e n = some o') (hnd : (o.map OutEntry.gfd).Nodup) :
    (o'.map OutEntry.gfd).Nodup ∧
      (o'.map OutEntry.gfd).toFinset = insert e.gfd (o.map OutEntry.gfd).toFinset := by
  unfold epollOutSlot at h
  split at h
  · rename_i hany
    cases h
    have hsame : (o.map fun a => if a.gfd = e.gfd then { a with events := a.events ||| e.events }
        else a).map OutEntry.gfd = o.map OutEntry.gfd := by
      rw [map_map]
      refine map_congr_left fun a _ => ?_
      rw [comp_apply]
      split <;> rfl
    rw [hsame]
    refine ⟨hnd, (Finset.insert_eq_of_mem ?_).symm⟩
    obtain ⟨a, ha, heq⟩ := any_eq_true.mp hany
    rw [mem_toFinset, ← of_decide_eq_true heq]
    exact mem_map_of_mem ha
  · split at h
    · cases h
    cases h
    rw [map_append, map_singleton]
    refine ⟨nodup_append.mpr ⟨hnd, nodup_singleton _, ?_⟩, ?_⟩
    · grind
    simp

/-- An item before which fewer descriptors stand than there are slots gets its bits merged. -/
lemma stamp_reaches (hx : f x = some e) (hnd : (o.map OutEntry.gfd).Nodup)
    (hroom : (o.map OutEntry.gfd ++ (pre.filterMap f).map OutEntry.gfd).toFinset.card < n) :
    ∃ b ∈ epollStamp true n f (pre ++ x :: post) o, b.gfd = e.gfd ∧ Covers b.events e.events := by
  have hlen : ∀ {o : List OutEntry} {gs : List ℕ}, (o.map OutEntry.gfd).Nodup →
      (o.map OutEntry.gfd ++ gs).toFinset.card < n → o.length < n := by
    intro o gs hnd hroom
    refine lt_of_le_of_lt ?_ hroom
    rw [← length_map OutEntry.gfd, ← toFinset_card_of_nodup hnd, toFinset_append]
    exact Finset.card_le_card Finset.subset_union_left
  induction pre generalizing o with
  | nil =>
    have hroom' := hlen hnd hroom
    have hgo : ¬ (true && decide (n ≤ o.length)) := by
      grind
    rw [nil_append, epollStamp, if_neg hgo, hx]
    dsimp only
    cases hslot : epollOutSlot o e n with
    | none =>
      have hsome := slot_isSome (e := e) hroom'
      rw [hslot] at hsome
      cases hsome
    | some o' =>
      obtain ⟨b, hb, hgfd, hcov⟩ := slot_has hslot
      obtain ⟨d, hd, hbd⟩ : ∃ d ∈ epollStamp true n f post o', b.Grows d := stamp_keeps hb
      exact ⟨d, hd, hbd.gfd.trans hgfd, hcov.trans hbd.events⟩
  | cons a pre ih =>
    have hroom' := hlen hnd hroom
    have hgo : ¬ (true && decide (n ≤ o.length)) := by
      grind
    rw [cons_append, epollStamp, if_neg hgo]
    cases ha : f a with
    | none =>
      rw [filterMap_cons_none ha] at hroom
      exact ih hnd hroom
    | some g =>
      dsimp only
      cases hslot : epollOutSlot o g n with
      | none =>
        have hsome := slot_isSome (e := g) hroom'
        rw [hslot] at hsome
        cases hsome
      | some o' =>
        obtain ⟨hnd', hset⟩ := slot_gfds hslot hnd
        refine ih hnd' ?_
        rw [filterMap_cons_some ha, map_cons] at hroom
        refine lt_of_le_of_lt (Finset.card_le_card ?_) hroom
        simp [toFinset_append, hset, toFinset_cons]

end

/-! ### What happens to a note -/

lemma Kqueue.set_self (kq : Kqueue) (i : ℤ) (f : KqFilter) (k : Option Knote) :
    kq.set i f k i f = k := if_pos ⟨rfl, rfl⟩

lemma Kqueue.set_ne {kq : Kqueue} (h : ¬ (j = i ∧ g = f)) : kq.set i f k j g = kq j g := if_neg h

variable {kq : Kqueue} {batch : List Kevent} {i : ℤ} {f : KqFilter} {k k' : Knote} {reg : EpollReg}

/-- What taking an event leaves of its note. -/
def Knote.take (k : Knote) : Option Knote :=
  if k.oneshot then none else if k.clear then some { k with spent := true } else some k

lemma dequeue_apply (kq : Kqueue) (e : Kevent) (i : ℤ) (f : KqFilter) :
    kq.dequeue e i f = if i = e.ident ∧ f = e.filter then (kq i f).bind Knote.take else kq i f := by
  unfold dequeue Knote.take
  by_cases hkey : i = e.ident ∧ f = e.filter
  · obtain ⟨rfl, rfl⟩ := hkey
    rw [if_pos ⟨rfl, rfl⟩]
    cases hk : kq e.ident e.filter with
    | none => exact hk
    | some k =>
      dsimp only [Option.bind_some]
      split
      · exact set_self ..
      split
      · exact set_self ..
      · exact hk
  rw [if_neg hkey]
  cases kq e.ident e.filter with
  | none => rfl
  | some k =>
    dsimp only
    cases k.oneshot with
    | true => exact set_ne hkey
    | false =>
      cases k.clear with
      | true => exact set_ne hkey
      | false => rfl

lemma dequeueAll_keeps {P : Option Knote → Prop} (hP : ∀ x, P x → P (x.bind Knote.take))
    (h : P (kq i f)) (batch : List Kevent) : P (batch.foldl dequeue kq i f) := by
  induction batch generalizing kq with
  | nil => exact h
  | cons e es ih =>
    refine ih ?_
    rw [dequeue_apply]
    split
    · exact hP _ h
    · exact h

lemma dequeueAll_level (hk : kq i f = some k) (honce : k.once = false) (batch : List Kevent) :
    batch.foldl dequeue kq i f = some k := by
  obtain ⟨ho, hc⟩ := Bool.or_eq_false_iff.mp honce
  refine dequeueAll_keeps (P := fun x => x = some k) ?_ hk batch
  rintro _ rfl
  simp [Knote.take, ho, hc]

lemma dequeueAll_some (hk : kq i f = some k) (hone : k.oneshot = false) (batch : List Kevent) :
    ∃ k', batch.foldl dequeue kq i f = some k' ∧ k'.gfd = k.gfd ∧ k'.oneshot = false := by
  refine dequeueAll_keeps (P := fun x => ∃ k', x = some k' ∧ k'.gfd = k.gfd ∧ k'.oneshot = false)
    ?_ ⟨k, hk, rfl, hone⟩ batch
  rintro _ ⟨k', rfl, hgfd, hone'⟩
  rw [Option.bind_some, Knote.take, hone', if_neg Bool.false_ne_true]
  split
  · exact ⟨_, rfl, hgfd, rfl⟩
  · exact ⟨_, rfl, hgfd, hone'⟩

lemma dequeueAll_ne (h : ∀ e ∈ batch, ¬ (i = e.ident ∧ f = e.filter)) :
    batch.foldl dequeue kq i f = kq i f := by
  induction batch generalizing kq with
  | nil => rfl
  | cons e es ih =>
    rw [foldl_cons, ih fun a ha => h a (mem_cons_of_mem e ha), dequeue_apply,
      if_neg (h e mem_cons_self)]

/-- Two notes that differ at most in being enabled or spent. -/
structure Knote.Same (k k' : Knote) : Prop where
  gfd : k'.gfd = k.gfd
  clear : k'.clear = k.clear
  oneshot : k'.oneshot = k.oneshot
  eofOnly : k'.eofOnly = k.eofOnly

lemma Knote.Same.matches (h : k.Same k') (hm : k.Matches f reg) : k'.Matches f reg :=
  ⟨h.oneshot.trans hm.oneshot, h.clear.trans hm.clear, hm.usb, fun hu hf => by
    rw [h.eofOnly]
    exact hm.asked hu hf⟩

lemma Knote.take_same (h : k.take = some k') : k.Same k' := by
  unfold Knote.take at h
  grind [Knote.Same]

lemma dequeueAll_same (h : batch.foldl dequeue kq i f = some k) :
    ∃ k0, kq i f = some k0 ∧ k0.Same k := by
  refine dequeueAll_keeps (P := fun x => ∀ k, x = some k → ∃ k0, kq i f = some k0 ∧ k0.Same k)
    ?_ (fun k hk => ⟨k, hk, rfl, rfl, rfl, rfl⟩) batch k h
  intro x hx k hk
  obtain ⟨k1, rfl, htake⟩ := Option.bind_eq_some_iff.mp hk
  obtain ⟨k0, hk0, hs⟩ := hx k1 rfl
  have hs' := Knote.take_same htake
  exact ⟨k0, hk0, hs'.gfd.trans hs.gfd, hs'.clear.trans hs.clear, hs'.oneshot.trans hs.oneshot,
    hs'.eofOnly.trans hs.eofOnly⟩

lemma collectReady_note {inst : EpollInst} (h : ∀ e ∈ batch, i = e.ident ∧ f = e.filter →
      e.gfd < fdTableSize ∧ (inst.regs e.gfd).active) :
    (epollCollectReady inst usb n batch o kq).2 i f = kq i f := by
  induction batch generalizing o kq with
  | nil => rfl
  | cons e es ih =>
    have hrest := fun a ha => h a (mem_cons_of_mem e ha)
    rw [epollCollectReady]
    split
    · rfl
    split
    · rw [ih hrest]
      refine set_ne fun hkey => ?_
      grind
    split
    · exact ih hrest
    split
    · rfl
    · exact ih hrest

lemma collectReady_some
    (h : (epollCollectReady inst usb n batch o kq).2 i f = some k) : kq i f = some k := by
  induction batch generalizing o kq with
  | nil => exact h
  | cons e es ih =>
    rw [epollCollectReady] at h
    split at h
    · exact h
    split at h
    · have hdel := ih h
      unfold Kqueue.delete Kqueue.set at hdel
      grind
    split at h
    · exact ih h
    split at h
    · exact h
    · exact ih h

/-! ### Muting -/

def EpollInst.muteEntry (inst : EpollInst) (e : Kevent) : EpollMute :=
  ⟨e.gfd, e.ident, (inst.regs e.gfd).generation, (inst.regs e.gfd).events &&& linuxEpollWritable⟩

variable {inst : EpollInst} {ok : Kevent → Bool} {e : Kevent}

lemma muteLoop_cons (hroom : muted.length < epollMuteMax) :
    epollMuteUsbWakes inst ok (e :: batch) muted kq = if inst.mutes ok e then
        epollMuteUsbWakes inst ok batch (muted ++ [inst.muteEntry e]) (kq.mute e (inst.regs e.gfd))
      else epollMuteUsbWakes inst ok batch muted kq := by
  have hiff : (fdTableSize ≤ e.gfd ∨ (!(inst.regs e.gfd).active) ∨
      (!(inst.regs e.gfd).usbdev) ∨ (!ok e)) ↔ ¬ inst.mutes ok e := by
    simp only [mutes, Bool.and_eq_true, decide_eq_true_eq, Bool.not_eq_true']
    constructor
    · rintro (h | h | h | h) ⟨⟨⟨hlt, ha⟩, hu⟩, ho⟩
      · omega
      · exact absurd (ha.symm.trans h) (by decide)
      · exact absurd (hu.symm.trans h) (by decide)
      · exact absurd (ho.symm.trans h) (by decide)
    intro h
    by_contra hno
    simp only [not_or, Bool.not_eq_false] at hno
    exact h ⟨⟨⟨by omega, hno.2.1⟩, hno.2.2.1⟩, hno.2.2.2⟩
  rw [epollMuteUsbWakes, if_neg (by omega)]
  by_cases hm : inst.mutes ok e
  · rw [if_pos hm, if_neg fun hc => hiff.mp hc hm]
    rfl
  · rw [if_neg hm, if_pos (hiff.mpr hm)]

lemma muteLoop_full (h : epollMuteMax ≤ muted.length) :
    epollMuteUsbWakes inst ok batch muted kq = (muted, kq) := by
  cases batch with
  | nil => rfl
  | cons e es => rw [epollMuteUsbWakes, if_pos h]

variable {m : EpollMute} {l : List Kevent}

/-- The queue after the notes of some events have been muted. -/
def EpollInst.muteAll (inst : EpollInst) (l : List Kevent) (kq : Kqueue) : Kqueue :=
  l.foldl (fun kq e => kq.mute e (inst.regs e.gfd)) kq

/-- The loop mutes events that can be muted, each for which there is room. -/
lemma muteLoop_spec (inst : EpollInst) (ok : Kevent → Bool) (batch : List Kevent)
    (muted : List EpollMute) (kq : Kqueue) :
    ∃ l : List Kevent, (∀ e ∈ l, e ∈ batch ∧ inst.mutes ok e) ∧
      (∀ pre e post, batch = pre ++ e :: post → inst.mutes ok e →
        muted.length + pre.countP (inst.mutes ok) < epollMuteMax → e ∈ l) ∧
      epollMuteUsbWakes inst ok batch muted kq =
        (muted ++ l.map inst.muteEntry, inst.muteAll l kq) := by
  induction batch generalizing muted kq with
  | nil => exact ⟨[], nofun, by simp, by simp [epollMuteUsbWakes, muteAll]⟩
  | cons e es ih =>
    by_cases hroom : muted.length < epollMuteMax
    · rw [muteLoop_cons hroom]
      split
      · rename_i he
        obtain ⟨l, hl, hall, heq⟩ := ih (muted ++ [inst.muteEntry e]) (kq.mute e (inst.regs e.gfd))
        refine ⟨e :: l, ?_, fun pre a post hsplit hma hlen => ?_, ?_⟩
        · exact forall_mem_cons.mpr ⟨⟨mem_cons_self, he⟩,
            fun a ha => (hl a ha).imp_left (mem_cons_of_mem e)⟩
        · obtain ⟨rfl, h⟩ | ⟨pre', rfl, h⟩ := cons_eq_append_iff.mp hsplit
          · cases h
            exact mem_cons_self
          refine mem_cons_of_mem e (hall pre' a post h hma ?_)
          rw [countP_cons_of_pos he] at hlen
          rw [length_append, length_singleton]
          omega
        · rw [heq, append_assoc]
          rfl
      · rename_i he
        obtain ⟨l, hl, hall, heq⟩ := ih muted kq
        refine ⟨l, fun a ha => (hl a ha).imp_left (mem_cons_of_mem e), ?_, heq⟩
        intro pre a post hsplit hma hlen
        obtain ⟨rfl, h⟩ | ⟨pre', rfl, h⟩ := cons_eq_append_iff.mp hsplit
        · cases h
          exact absurd hma he
        · exact hall pre' a post h hma (by rwa [countP_cons_of_neg he] at hlen)
    · refine ⟨[], nofun, fun pre a post _ _ hlen => by omega, ?_⟩
      rw [muteLoop_full (by omega)]
      simp [muteAll]

lemma mute_ne (h : ¬ (i = e.ident ∧ f = .read)) : kq.mute e reg i f = kq i f := by
  unfold mute
  split <;> exact set_ne h

lemma muteAll_ne (h : ∀ e ∈ l, ¬ (i = e.ident ∧ f = .read)) : inst.muteAll l kq i f = kq i f := by
  unfold muteAll
  induction l generalizing kq with
  | nil => rfl
  | cons e es ih =>
    rw [foldl_cons, ih fun a ha => h a (mem_cons_of_mem e ha), mute_ne (h e mem_cons_self)]

lemma mutes_usb (h : inst.mutes ok e) : (inst.regs e.gfd).usbdev := by
  simp only [mutes, Bool.and_eq_true] at h
  exact h.1.2

/-- The note at a place is disabled, and is one of the registration of a descriptor. -/
structure MutedAt (inst : EpollInst) (kq : Kqueue) (i : ℤ) (g : ℕ) (k : Knote) : Prop where
  note : kq i .read = some k
  gfd : k.gfd = g
  matching : k.Matches .read (inst.regs g)
  off : k.enabled = false

/-- The note of an event can be muted: it is there, or goes with the event. -/
def Mutable (inst : EpollInst) (kq : Kqueue) (e : Kevent) : Prop :=
  hasAny (inst.regs e.gfd).events linuxEpolloneshot = true ∨
    ∃ k, kq e.ident .read = some k ∧ k.gfd = e.gfd ∧ k.Matches .read (inst.regs e.gfd)

lemma mute_at (husb : (inst.regs e.gfd).usbdev) (hnote : Mutable inst kq e) :
    ∃ k, MutedAt inst (kq.mute e (inst.regs e.gfd)) e.ident e.gfd k := by
  unfold mute
  cases hone : hasAny (inst.regs e.gfd).events linuxEpolloneshot with
  | true =>
    refine ⟨_, set_self .., rfl, ⟨hone.symm, rfl, fun _ => rfl, fun hno => ?_⟩, rfl⟩
    rw [husb] at hno
    cases hno
  | false =>
    obtain h | ⟨k, hk, hgfd, hm⟩ := hnote
    · rw [hone] at h
      cases h
    · rw [if_neg Bool.false_ne_true, hk]
      exact ⟨_, set_self .., hgfd, ⟨hm.oneshot, hm.clear, hm.usb, hm.asked⟩, rfl⟩

lemma muteAll_muted (husb : ∀ e ∈ l, (inst.regs e.gfd).usbdev)
    (hsame : ∀ e ∈ l, i = e.ident → e.gfd = g) (h : ∃ k, MutedAt inst kq i g k) :
    ∃ k, MutedAt inst (inst.muteAll l kq) i g k := by
  refine foldlRecOn l _ (motive := fun kq => ∃ k, MutedAt inst kq i g k) h ?_
  rintro kq ⟨k, hk⟩ e he
  by_cases hi : i = e.ident
  · obtain rfl := hsame e he hi
    subst hi
    exact mute_at (husb e he) (.inr ⟨k, hk.note, hk.gfd, hk.matching⟩)
  · exact ⟨k, by rw [mute_ne fun hc => hi hc.1, hk.note], hk.gfd, hk.matching, hk.off⟩

lemma mutable_mute (husb : (inst.regs a.gfd).usbdev)
    (hsame : e.ident = a.ident → a.gfd = e.gfd) (ha : Mutable inst kq a) (he : Mutable inst kq e) :
    Mutable inst (kq.mute a (inst.regs a.gfd)) e := by
  by_cases hi : e.ident = a.ident
  · obtain ⟨k, hk⟩ := mute_at husb ha
    rw [← hi, hsame hi] at hk
    rw [hsame hi]
    exact .inr ⟨k, hk.note, hk.gfd, hk.matching⟩
  · obtain h | ⟨k, hk, h⟩ := he
    · exact .inl h
    · exact .inr ⟨k, by rw [mute_ne fun hc => hi hc.1, hk], h⟩

lemma muteAll_off (husb : ∀ e ∈ l, (inst.regs e.gfd).usbdev)
    (hsame : ∀ e ∈ l, ∀ a ∈ l, e.ident = a.ident → a.gfd = e.gfd)
    (hnote : ∀ e ∈ l, Mutable inst kq e) (he : e ∈ l) :
    ∃ k, MutedAt inst (inst.muteAll l kq) e.ident e.gfd k := by
  induction l generalizing kq with
  | nil => cases he
  | cons a l ih =>
    have hin : ∀ {b}, b ∈ l → b ∈ a :: l := mem_cons_of_mem a
    have ha : a ∈ a :: l := mem_cons_self
    obtain rfl | he := mem_cons.mp he
    · exact muteAll_muted (l := l) (fun b hb => husb b (hin hb))
        (fun b hb => hsame e ha b (hin hb)) (mute_at (husb e ha) (hnote e ha))
    refine ih (fun b hb => husb b (hin hb)) (fun b hb d hd => hsame b (hin hb) d (hin hd)) ?_ he
    intro b hb
    exact mutable_mute (husb a ha) (hsame b (hin hb) a ha) (hnote a ha) (hnote b (hin hb))

/-! ### Unmuting -/

/-- The registration of a muted note has fired in the meantime. -/
def EpollInst.consumed (inst : EpollInst) (m : EpollMute) : Bool :=
  (inst.regs m.gfd).active && (inst.regs m.gfd).generation = m.gen && (inst.regs m.gfd).oneshotArmed

lemma unmute_ne (h : ∀ m ∈ muted, ¬ (i = m.ident ∧ f = .read)) :
    epollUnmute inst muted kq i f = kq i f := by
  unfold epollUnmute
  induction muted generalizing kq with
  | nil => rfl
  | cons m ms ih =>
    rw [foldl_cons, ih fun a ha => h a (mem_cons_of_mem m ha)]
    split
    · exact set_ne (h m mem_cons_self)
    · exact set_ne (h m mem_cons_self)

lemma unmute_up (hsame : ∀ m ∈ muted, i = m.ident → m.gfd = g ∧ inst.consumed m = false)
    (hk : kq i .read = some k) (hgfd : k.gfd = g) (hmem : (∃ m ∈ muted, m.ident = i) ∨ k.up) :
    ∃ k', epollUnmute inst muted kq i .read = some k' ∧ k'.gfd = g ∧ k'.up := by
  unfold epollUnmute
  induction muted generalizing kq k with
  | nil =>
    obtain ⟨m, hm, -⟩ | hup := hmem
    · cases hm
    · exact ⟨k, hk, hgfd, hup⟩
  | cons m ms ih =>
    have hrest := fun a ha => hsame a (mem_cons_of_mem m ha)
    rw [foldl_cons]
    by_cases hi : i = m.ident
    · obtain ⟨hg, hfresh⟩ := hsame m mem_cons_self hi
      replace hfresh : ((inst.regs m.gfd).active && (inst.regs m.gfd).generation = m.gen &&
        (inst.regs m.gfd).oneshotArmed) = false := hfresh
      rw [hfresh, if_neg Bool.false_ne_true, ← hi, hk, Option.map_some]
      refine ih hrest (set_self ..) hg (.inr ?_)
      simp only [Knote.up, Bool.and_false, Bool.not_false, Bool.and_self]
    have hother : (if ((inst.regs m.gfd).active && (inst.regs m.gfd).generation = m.gen &&
          (inst.regs m.gfd).oneshotArmed) = true then kq.delete m.ident .read
        else kq.set m.ident .read ((kq m.ident .read).map fun k =>
          { k with gfd := m.gfd, enabled := true, spent := false })) i .read = some k := by
      split
      · rw [delete, set_ne fun hc => hi hc.1, hk]
      · rw [set_ne fun hc => hi hc.1, hk]
    refine ih hrest hother hgfd ?_
    grind

/-! ### What is delivered -/

lemma delivers_note (h : kqDelivers kq n batch) (he : e ∈ batch) :
    ∃ k, kq e.ident e.filter = some k ∧ k.gfd = e.gfd ∧ k.enabled ∧ (k.eofOnly → e.eof) := by
  have hall := all_eq_true.mp (Bool.and_eq_true_iff.mp h).2 e he
  cases hk : kq e.ident e.filter with
  | none =>
    rw [hk] at hall
    cases hall
  | some k =>
    rw [hk] at hall
    grind

variable {a : OutEntry}

lemma shows_ne_zero (hs : inst.shows usb e = some a) (husb : (inst.regs e.gfd).usbdev = false)
    (hmatch : k.Matches e.filter (inst.regs e.gfd)) (heof : k.eofOnly → e.eof) : a.events ≠ 0 := by
  unfold shows at hs
  dsimp only at hs
  split at hs
  · cases hs
  split at hs
  · cases hs
  cases hs
  intro h0
  obtain ⟨hmerge, -⟩ := or_eq_zero h0
  unfold epollMergeEvent at hmerge
  rw [husb, if_neg Bool.false_ne_true] at hmerge
  obtain ⟨hmerge, -⟩ := or_eq_zero hmerge
  obtain ⟨hfilter, hend⟩ := or_eq_zero hmerge
  cases hf : e.filter with
  | read =>
    rw [hf] at hfilter
    obtain hread | heo := hmatch.asked husb hf
    · exact of_decide_eq_true hread hfilter
    · rw [if_pos (heof heo)] at hend
      exact absurd (or_eq_zero hend).1 (by decide)
  | write =>
    rw [hf] at hfilter
    dsimp only at hfilter
    split at hfilter
    · rename_i hw
      exact of_decide_eq_true hw hfilter
    · exact absurd hfilter (by decide)

/-! ### Armed notes stay so -/

lemma dequeueAll_armed (h : EpollArmed inst kq) (batch : List Kevent) :
    EpollArmed inst (batch.foldl dequeue kq) := by
  intro i f k hk hactive
  obtain ⟨k0, hk0, hsame⟩ := dequeueAll_same hk
  rw [hsame.gfd] at hactive ⊢
  exact hsame.matches (h i f k0 hk0 hactive)

lemma mute_armed (h : EpollArmed inst kq) (husb : (inst.regs e.gfd).usbdev) :
    EpollArmed inst (kq.mute e (inst.regs e.gfd)) := by
  intro i f k hk hactive
  unfold Kqueue.mute at hk
  cases hone : hasAny (inst.regs e.gfd).events linuxEpolloneshot with
  | true =>
    rw [hone, if_pos rfl] at hk
    unfold Kqueue.set at hk
    split at hk
    · rename_i hkey
      cases hk
      refine ⟨hone.symm, rfl, fun _ => hkey.2, fun hno => ?_⟩
      rw [husb] at hno
      cases hno
    · exact h i f k hk hactive
  | false =>
    rw [hone, if_neg Bool.false_ne_true] at hk
    unfold Kqueue.set at hk
    split at hk
    · rename_i hkey
      obtain ⟨k0, hk0, rfl⟩ := Option.map_eq_some_iff.mp hk
      rw [hkey.2]
      have hm := h e.ident .read k0 hk0 hactive
      exact ⟨hm.oneshot, hm.clear, hm.usb, hm.asked⟩
    · exact h i f k hk hactive

lemma muteAll_armed (husb : ∀ e ∈ l, (inst.regs e.gfd).usbdev) (h : EpollArmed inst kq) :
    EpollArmed inst (inst.muteAll l kq) :=
  foldlRecOn l _ (motive := EpollArmed inst) h fun _ hkq e he => mute_armed hkq (husb e he)

/-! ### Logged events -/

/-- An event in the log: its registration has not fired, and its note is level-triggered and still
enabled, or is muted. -/
def EpollRun.Safe (s : EpollRun) (t : Kevent × BitVec 32) : Prop :=
  t.1.gfd < fdTableSize ∧ (s.inst.regs t.1.gfd).active = true ∧
  (s.inst.regs t.1.gfd).oneshotArmed = false ∧
  ∃ k, s.kq t.1.ident t.1.filter = some k ∧ k.gfd = t.1.gfd ∧
    (k.enabled = true ∧ k.once = false ∨
      t.1.filter = .read ∧ (∃ m ∈ s.w.muted, m.ident = t.1.ident) ∧
        (t.2 = 0 ∨ hasAny (s.inst.regs t.1.gfd).events linuxEpolloneshot = false))

structure EpollSafe (s : EpollRun) : Prop where
  maxevents : 0 < s.w.maxevents
  armed : EpollArmed s.inst s.kq
  off : ∀ m ∈ s.w.muted, ∃ k, MutedAt s.inst s.kq m.ident m.gfd k
  logged : ∀ t ∈ s.taken, s.Safe t

def EpollRun.collected (s : EpollRun) (p : EpollPass) : Kqueue :=
  (epollCollect s.inst (p.batch.foldl Kqueue.dequeue s.kq) s.w.maxevents p.batch s.w.muted p.seen).2

variable {s : EpollRun} {p : EpollPass} {c : EpollCall}

lemma collected_eq (s : EpollRun) (p : EpollPass) :
    s.collected p = (epollCollectReady s.inst p.seen.usb s.w.maxevents p.batch []
      (p.batch.foldl dequeue s.kq)).2 := rfl

lemma collected_armed (h : EpollArmed s.inst s.kq) (p : EpollPass) :
    EpollArmed s.inst (s.collected p) :=
  fun i f k hk => dequeueAll_armed h p.batch i f k (collectReady_some hk)

section
variable (hd : kqDelivers s.kq s.w.maxevents p.batch = true)
include hd

lemma collected_note (hk : s.kq i f = some k) (hlt : k.gfd < fdTableSize)
    (hactive : (s.inst.regs k.gfd).active) :
    s.collected p i f = p.batch.foldl dequeue s.kq i f := by
  rw [collected_eq]
  refine collectReady_note fun e he hkey => ?_
  obtain ⟨k', hk', hgfd, -⟩ := delivers_note hd he
  rw [← hkey.1, ← hkey.2, hk] at hk'
  cases hk'
  rw [← hgfd]
  exact ⟨hlt, hactive⟩

lemma collected_level (hk : s.kq i f = some k) (hlt : k.gfd < fdTableSize)
    (hactive : (s.inst.regs k.gfd).active) (honce : k.once = false) :
    s.collected p i f = some k := by
  rw [collected_note hd hk hlt hactive]
  exact dequeueAll_level hk honce p.batch

lemma off_undelivered (hk : s.kq i f = some k) (hoff : k.enabled = false) :
    ∀ e ∈ p.batch, ¬ (i = e.ident ∧ f = e.filter) := by
  intro e he hkey
  obtain ⟨k', hk', -, hon, -⟩ := delivers_note hd he
  rw [← hkey.1, ← hkey.2, hk] at hk'
  cases hk'
  rw [hoff] at hon
  cases hon

lemma collected_off (hk : s.kq i f = some k) (hoff : k.enabled = false) :
    s.collected p i f = some k := by
  have hno := off_undelivered hd hk hoff
  rw [collected_eq, collectReady_note fun e he hkey => absurd hkey (hno e he), dequeueAll_ne hno,
      hk]

end

variable {t : Kevent × BitVec 32}

lemma mem_taken :
    t ∈ inst.taken p ↔ ∃ e ∈ p.batch, ∃ a, inst.shows p.seen.usb e = some a ∧ t =
        (e, a.events) := by
  grind [Option.map_eq_some_iff, taken]

lemma collect_keeps (kq : Kqueue) (muted : List EpollMute)
    (hb : b ∈ epollStamp true n (inst.shows x.usb) batch []) :
    ∃ d ∈ (epollCollect inst kq n batch muted x).1, b.Grows d := by
  rw [collect_out]
  have halways : ∃ d ∈ epollStampAlwaysReadable inst n
      (epollStamp true n (inst.shows x.usb) batch []), b.Grows d := by
    unfold epollStampAlwaysReadable
    split
    · exact ⟨b, hb, .refl b⟩
    · exact stamp_keeps hb
  obtain ⟨d, hd, hbd⟩ := halways
  obtain ⟨g, hg, hdg⟩ : ∃ g ∈ epollStampHangups inst n x.hups (epollStampAlwaysReadable inst n
      (epollStamp true n (inst.shows x.usb) batch [])), d.Grows g := stamp_keeps hd
  obtain ⟨l, hl, hgl⟩ : ∃ l ∈
      epollStampMuted inst x.mutedUsb n muted (epollStampHangups inst n x.hups
      (epollStampAlwaysReadable inst n (epollStamp true n (inst.shows x.usb) batch []))),
      g.Grows l := stamp_keeps hg
  exact ⟨l, hl, (hbd.trans hdg).trans hgl⟩

lemma once_iff (hk : s.kq e.ident e.filter = some k) : s.kq.once e = k.once := by
  unfold once
  rw [hk, Option.any_some]

/-! ### A pass -/

section Pass

variable (h : EpollSafe s) (hd : kqDelivers s.kq s.w.maxevents p.batch = true)
include h hd

lemma mutes_note {a : Kevent} (ha : a ∈ p.batch) (hm : s.inst.mutes ok a) :
    a.filter = .read ∧ (∃ k, s.kq a.ident .read = some k ∧ k.gfd = a.gfd) ∧
      Mutable s.inst (s.collected p) a := by
  obtain ⟨k, hk, hgfd, -⟩ := delivers_note hd ha
  simp only [mutes, Bool.and_eq_true, decide_eq_true_eq] at hm
  obtain ⟨⟨⟨hlt, hactive⟩, husb⟩, -⟩ := hm
  rw [← hgfd] at hactive hlt
  have hmatch := h.armed _ _ k hk hactive
  have hread : a.filter = .read := by
    rw [hgfd] at hmatch
    exact hmatch.usb husb
  rw [hread] at hk hmatch
  refine ⟨hread, ⟨k, hk, hgfd⟩, ?_⟩
  cases hone : k.oneshot with
  | true =>
    refine .inl ?_
    rw [← hgfd, ← hmatch.oneshot, hone]
  | false =>
    obtain ⟨k', hk', hgfd', -⟩ := dequeueAll_some hk hone p.batch
    have hcol : s.collected p a.ident .read = some k' := by
      rw [collected_note hd hk hlt hactive, hk']
    have hm' := collected_armed h.armed p _ _ k' hcol (by rw [hgfd']; exact hactive)
    rw [hgfd', hgfd] at hm'
    exact .inr ⟨k', hcol, hgfd'.trans hgfd, hm'⟩

lemma mutes_same (hk : s.kq i .read = some k) {a : Kevent} (ha : a ∈ p.batch)
    (hm : s.inst.mutes ok a) (hi : i = a.ident) : a.gfd = k.gfd := by
  obtain ⟨-, ⟨k', hk', hgfd⟩, -⟩ := mutes_note h hd ha hm
  rw [hi, hk'] at hk
  cases hk
  exact hgfd.symm

variable (hl : ∀ e ∈ l, e ∈ p.batch ∧ s.inst.mutes ok e = true)
include hl

lemma off_new (he : e ∈ l) :
    ∃ k, MutedAt s.inst (s.inst.muteAll l (s.collected p)) e.ident e.gfd k := by
  refine muteAll_off (fun a ha => mutes_usb (hl a ha).2) (fun e he a ha hi => ?_)
    (fun a ha => (mutes_note h hd (hl a ha).1 (hl a ha).2).2.2) he
  obtain ⟨-, ⟨k, hk, hgfd⟩, -⟩ := mutes_note h hd (hl e he).1 (hl e he).2
  rw [mutes_same h hd hk (hl a ha).1 (hl a ha).2 hi, hgfd]

lemma off_muted (hm : m ∈ s.w.muted ++ l.map s.inst.muteEntry) :
    ∃ k, MutedAt s.inst (s.inst.muteAll l (s.collected p)) m.ident m.gfd k := by
  obtain hold | hnew := mem_append.mp hm
  · obtain ⟨k, hk⟩ := h.off m hold
    refine muteAll_muted (fun a ha => mutes_usb (hl a ha).2) (fun a ha hi => ?_) ⟨k, ?_⟩
    · rw [mutes_same h hd hk.note (hl a ha).1 (hl a ha).2 hi, hk.gfd]
    · exact ⟨collected_off hd hk.note hk.off, hk.gfd, hk.matching, hk.off⟩
  · obtain ⟨e, he, rfl⟩ := mem_map.mp hnew
    exact off_new h hd hl he

lemma level_muted (hk : s.kq i f = some k) (hlt : k.gfd < fdTableSize)
    (hactive : (s.inst.regs k.gfd).active) (hon : k.enabled) (honce : k.once = false) :
    ∃ k', s.inst.muteAll l (s.collected p) i f = some k' ∧ k'.gfd = k.gfd ∧
      (k'.enabled ∧ k'.once = false ∨ f = .read ∧
        (∃ m ∈ s.w.muted ++ l.map s.inst.muteEntry, m.ident = i) ∧
        hasAny (s.inst.regs k.gfd).events linuxEpolloneshot = false) := by
  by_cases hkey : ∃ e ∈ l, i = e.ident ∧ f = .read
  · obtain ⟨e, he, rfl, rfl⟩ := hkey
    obtain ⟨k', hk'⟩ := off_new h hd hl he
    refine ⟨k', hk'.note, ?_, .inr ⟨rfl, ⟨s.inst.muteEntry e, ?_, rfl⟩, ?_⟩⟩
    · rw [hk'.gfd, mutes_same h hd hk (hl e he).1 (hl e he).2 rfl]
    · exact mem_append_right _ (mem_map_of_mem he)
    · rw [← (h.armed _ _ k hk hactive).oneshot]
      exact (Bool.or_eq_false_iff.mp honce).1
  · refine ⟨k, ?_, rfl, .inl ⟨hon, honce⟩⟩
    rw [muteAll_ne fun e he hc => hkey ⟨e, he, hc⟩]
    exact collected_level hd hk hlt hactive honce

end Pass

lemma masked_usb (h : EpollSafe s) (hd : kqDelivers s.kq s.w.maxevents p.batch)
    (he : e ∈ p.batch) (ha : s.inst.shows p.seen.usb e = some a) (h0 : a.events = 0) :
    (s.inst.regs e.gfd).usbdev := by
  obtain ⟨k, hk, hgfd, -, heof⟩ := delivers_note hd he
  obtain ⟨-, hactive, -⟩ := shows_some ha
  by_contra husb
  have hmatch := h.armed _ _ k hk (by rw [hgfd]; exact hactive)
  rw [hgfd] at hmatch
  exact shows_ne_zero ha (Bool.eq_false_of_not_eq_true husb) hmatch heof h0

lemma taken_cases (hd : kqDelivers s.kq s.w.maxevents p.batch) (ht : t ∈ s.inst.taken p) :
    s.Safe t ∨ ∃ e a, s.Stakes p e a ∧ t = (e, a.events) := by
  obtain ⟨e, he, a, ha, rfl⟩ := mem_taken.mp ht
  obtain ⟨hlt, hactive, hfresh, -⟩ := shows_some ha
  obtain ⟨k, hk, hgfd, hon, -⟩ := delivers_note hd he
  cases honce : k.once with
  | false => exact .inl ⟨hlt, hactive, hfresh, k, hk, hgfd, .inl ⟨hon, honce⟩⟩
  | true => exact .inr ⟨e, a, ⟨he, ha, (once_iff hk).trans honce⟩, rfl⟩

lemma once_shown (hkeeps : EpollKeeps c s p) (ha : s.Stakes p e a) (hne : a.events ≠ 0) :
    ∃ b ∈ s.out p, b.gfd = e.gfd ∧ Covers b.events a.events := by
  obtain ⟨pre, post, hsplit⟩ := append_of_mem ha.mem
  have hroom := hkeeps.room pre e post a hsplit ha hne
  have hreach : ∃ b ∈ epollStamp true s.w.maxevents (s.inst.shows p.seen.usb) (pre ++ e :: post) [],
      b.gfd = a.gfd ∧ Covers b.events a.events := stamp_reaches ha.shows nodup_nil hroom
  rw [← hsplit] at hreach
  obtain ⟨b, hb, hgfd, hcov⟩ := hreach
  obtain ⟨d, hd, hbd⟩ := collect_keeps (p.batch.foldl dequeue s.kq) s.w.muted hb
  replace hcov := hcov.trans hbd.events
  have hd0 : d.events ≠ 0 := by
    intro hd0
    rw [hd0] at hcov
    exact hne hcov.zero
  exact ⟨d, mem_filter.mpr ⟨hd, decide_eq_true hd0⟩,
    hbd.gfd.trans (hgfd.trans (shows_some ha.shows).2.2.2.1), hcov⟩

/-- A pass that leads to another one by muting keeps the log safe. -/
lemma EpollSafe.mutePass (h : EpollSafe s) (hd : kqDelivers s.kq s.w.maxevents p.batch)
    (hkeeps : EpollKeeps c s p)
    (hmute : epollMuteUsbWakes s.inst p.muteOk p.batch s.w.muted (s.collected p) = (muted, kq))
    (hempty : s.out p = []) :
    EpollSafe ⟨{ s.w with muted := muted }, s.inst, kq, s.taken ++ s.inst.taken p⟩ := by
  obtain ⟨l, hl, hall, heq⟩ := muteLoop_spec s.inst p.muteOk p.batch s.w.muted (s.collected p)
  rw [hmute] at heq
  cases heq
  refine ⟨h.maxevents, ?_, fun m hm => off_muted h hd hl hm, ?_⟩
  · exact muteAll_armed (fun e he => mutes_usb (hl e he).2) (collected_armed h.armed p)
  -- a logged event that was safe is level and still on, or is muted by now
  have hstays : ∀ t, s.Safe t → EpollRun.Safe
      ⟨{ s.w with muted := s.w.muted ++ l.map s.inst.muteEntry }, s.inst,
        s.inst.muteAll l (s.collected p), s.taken ++ s.inst.taken p⟩ t := by
    rintro t ⟨hlt, hactive, hfresh, k, hk, hgfd, ⟨hon, honce⟩ | ⟨hread, ⟨m, hm, hi⟩, hbits⟩⟩
    · rw [← hgfd] at hlt hactive
      obtain ⟨k', hk', hgfd', hcase⟩ := level_muted h hd hl hk hlt hactive hon honce
      rw [hgfd] at hlt hactive hcase
      refine ⟨hlt, hactive, hfresh, k', hk', hgfd'.trans hgfd, ?_⟩
      obtain hon' | ⟨hread, hmem, hone⟩ := hcase
      · exact .inl hon'
      · exact .inr ⟨hread, hmem, .inr hone⟩
    have hm' := mem_append_left (l.map s.inst.muteEntry) hm
    obtain ⟨k0, hk0⟩ := h.off m hm
    obtain ⟨k', hk'⟩ := off_muted h hd hl hm'
    have hsame : k0 = k := by
      have hnote := hk0.note
      grind
    refine ⟨hlt, hactive, hfresh, k', ?_, ?_, .inr ⟨hread, ⟨m, hm', hi⟩, hbits⟩⟩
    · rw [hread, ← hi]
      exact hk'.note
    · rw [hk'.gfd, ← hk0.gfd, hsame, hgfd]
  intro t ht
  obtain ht | ht := mem_append.mp ht
  · exact hstays t (h.logged t ht)
  obtain hsafe | ⟨e, a, hstake, rfl⟩ := taken_cases hd ht
  · exact hstays t hsafe
  have ha := hstake.shows
  have he := hstake.mem
  obtain ⟨hlt, hactive, hfresh, -⟩ := shows_some ha
  -- an event taken from a one-shot note shows nothing, as nothing was to be reported
  have h0 : a.events = 0 := by
    by_contra hne
    obtain ⟨b, hb, -⟩ := once_shown hkeeps hstake hne
    rw [hempty] at hb
    cases hb
  obtain ⟨pre, post, hsplit⟩ := append_of_mem he
  obtain ⟨-, -, hok, hroom⟩ := hkeeps.masked pre e post a hsplit hstake h0
  have hmutes : s.inst.mutes p.muteOk e := by
    simp only [mutes, hlt, hactive, masked_usb h hd he ha h0, hok, decide_true, Bool.and_self]
  obtain ⟨hread, -, -⟩ := mutes_note h hd he hmutes
  have hnew := hall pre e post hsplit hmutes hroom
  obtain ⟨k', hk'⟩ := off_new h hd hl hnew
  refine ⟨hlt, hactive, hfresh, k', ?_, hk'.gfd,
      .inr ⟨hread, ⟨s.inst.muteEntry e, ?_, rfl⟩, .inl h0⟩⟩
  · rw [hread]
    exact hk'.note
  · exact mem_append_right _ (mem_map_of_mem hnew)

lemma safe_dequeued (h : EpollSafe s) (hd : kqDelivers s.kq s.w.maxevents p.batch)
    (hsafe : s.Safe t) :
    p.batch.foldl dequeue s.kq t.1.ident t.1.filter = s.kq t.1.ident t.1.filter := by
  obtain ⟨-, -, -, k, hk, -, ⟨-, honce⟩ | ⟨hread, ⟨m, hm, hi⟩, -⟩⟩ := hsafe
  · rw [dequeueAll_level hk honce, hk]
  · obtain ⟨k', hk'⟩ := h.off m hm
    rw [hread, ← hi]
    exact dequeueAll_ne (off_undelivered hd hk'.note hk'.off)

lemma safe_collected (h : EpollSafe s) (hd : kqDelivers s.kq s.w.maxevents p.batch)
    (hsafe : s.Safe t) : s.collected p t.1.ident t.1.filter = s.kq t.1.ident t.1.filter := by
  obtain ⟨hlt, hactive, -, k, hk, hgfd, ⟨-, honce⟩ | ⟨hread, ⟨m, hm, hi⟩, -⟩⟩ := hsafe
  · grind [collected_level]
  · obtain ⟨k', hk'⟩ := h.off m hm
    rw [hread, ← hi, collected_off hd hk'.note hk'.off, hk'.note]

/-- Unmuting leaves the note of an event in the log up, if its registration has not fired. -/
lemma safe_unmute (h : EpollSafe s) (hsafe : s.Safe t)
    (hkq : kq t.1.ident t.1.filter = s.kq t.1.ident t.1.filter)
    (hfresh : (inst.regs t.1.gfd).oneshotArmed = false) :
    ∃ k, epollUnmute inst s.w.muted kq t.1.ident t.1.filter = some k ∧ k.gfd = t.1.gfd ∧ k.up := by
  obtain ⟨-, -, -, k, hk, hgfd, hcase⟩ := hsafe
  -- what is muted at the note's place is of its descriptor, and the note is disabled
  have hat : ∀ m ∈ s.w.muted, t.1.ident = m.ident → t.1.filter = .read →
      m.gfd = t.1.gfd ∧ k.enabled = false := by
    intro m hm hi hread
    obtain ⟨k', hk'⟩ := h.off m hm
    have hnote := hk'.note
    rw [← hi, ← hread, hk] at hnote
    cases hnote
    exact ⟨hk'.gfd.symm.trans hgfd, hk'.off⟩
  obtain ⟨hon, honce⟩ | ⟨hread, hmem, -⟩ := hcase
  · refine ⟨k, ?_, hgfd, ?_⟩
    · grind [unmute_ne]
    · obtain ⟨-, hclear⟩ := Bool.or_eq_false_iff.mp honce
      simp only [Knote.up, hon, hclear, Bool.false_and, Bool.not_false, Bool.and_self]
  rw [hread] at hkq hk ⊢
  refine unmute_up (fun m hm hi => ?_) (hkq.trans hk) hgfd (.inl hmem)
  have hg := (hat m hm hi hread).1
  refine ⟨hg, ?_⟩
  rw [consumed, hg, hfresh, Bool.and_false]

lemma mark_fired (hfresh : (inst.regs g).oneshotArmed = false)
    (hfired : ¬ ((epollMarkOneshot inst o).regs g).oneshotArmed = false) :
    (∃ b ∈ o, b.gfd = g) ∧ hasAny (inst.regs g).events linuxEpolloneshot := by
  unfold epollMarkOneshot at hfired
  grind

/-- At the end of the call the note of an event of the log is up, or the event had nothing to show
and its muted note is used up by what is reported. -/
lemma EpollSafe.endPass (h : EpollSafe s) (hd : kqDelivers s.kq s.w.maxevents p.batch)
    (hsafe : s.Safe t) (out : List OutEntry) :
    (∃ k, epollUnmute (epollMarkOneshot s.inst out) s.w.muted (s.collected p) t.1.ident t.1.filter =
      some k ∧ k.gfd = t.1.gfd ∧ k.up) ∨
    t.2 = 0 ∧ ∃ b ∈ out, b.gfd = t.1.gfd ∧ ∃ m ∈ s.w.muted, m.gfd = b.gfd ∧
      hasAny (s.inst.regs m.gfd).events linuxEpolloneshot := by
  by_cases hfresh : ((epollMarkOneshot s.inst out).regs t.1.gfd).oneshotArmed = false
  · exact .inl (safe_unmute h hsafe (safe_collected h hd hsafe) hfresh)
  obtain ⟨hlt, hactive, hold, k, hk, hgfd, hcase⟩ := hsafe
  obtain ⟨⟨b, hb, hbg⟩, hone⟩ := mark_fired hold hfresh
  obtain ⟨-, honce⟩ | ⟨hread, ⟨m, hm, hi⟩, hbits⟩ := hcase
  · have hmatch := h.armed _ _ k hk (by rw [hgfd]; exact hactive)
    have hk1 := hmatch.oneshot
    rw [hgfd, hone, (Bool.or_eq_false_iff.mp honce).1] at hk1
    cases hk1
  have hmg : m.gfd = t.1.gfd := by
    obtain ⟨k', hk'⟩ := h.off m hm
    have hnote := hk'.note
    rw [hi, ← hread, hk] at hnote
    cases hnote
    exact hk'.gfd.symm.trans hgfd
  refine .inr ⟨?_, b, hb, hbg, m, hm, hmg.trans hbg.symm, by rw [hmg]; exact hone⟩
  obtain h0 | hno := hbits
  · exact h0
  · rw [hone] at hno
    cases hno

/-! ### What `epoll_ctl` arms -/

/-- A note of an active registration, at the host descriptor `hosts` has for it. -/
structure Knote.Placed (k : Knote) (hosts : ℕ → ℤ) (inst : EpollInst) (i : ℤ) (f : KqFilter) :
    Prop where
  active : (inst.regs k.gfd).active = true
  place : i = hosts k.gfd
  matching : k.Matches f (inst.regs k.gfd)
  read : f = .read → ((inst.regs k.gfd).usbdev ||
    hasAny (inst.regs k.gfd).events (linuxEpollReadable ||| linuxEpollrdhup)) = true
  write : f = .write → (!(inst.regs k.gfd).usbdev &&
    hasAny (inst.regs k.gfd).events linuxEpollWritable) = true

/-- All notes are of active registrations. -/
def EpollWired (hosts : ℕ → ℤ) (inst : EpollInst) (kq : Kqueue) : Prop :=
  ∀ i f k, kq i f = some k → k.Placed hosts inst i f

lemma EpollWired.armed (h : EpollWired hosts inst kq) : EpollArmed inst kq :=
  fun i f k hk _ => (h i f k hk).matching

section
variable {hosts : ℕ → ℤ} {inst : EpollInst} {kq kq' : Kqueue} {fd : ℕ} {cs : List KqChange}

lemma EpollWired.place_none (hinj : Function.Injective hosts) (h : EpollWired hosts inst kq)
    (hno : (inst.regs fd).active = false) (f : KqFilter) : kq (hosts fd) f = none := by
  cases hk : kq (hosts fd) f with
  | none => rfl
  | some k =>
    have hp := h _ _ k hk
    have hactive := hp.active
    rw [← hinj hp.place, hno] at hactive
    cases hactive

lemma Kqueue.delete_self (kq : Kqueue) (i : ℤ) (f : KqFilter) : kq.delete i f i f = none :=
  if_pos ⟨rfl, rfl⟩

lemma Kqueue.delete_ne (h : i ≠ j) (f g : KqFilter) : kq.delete j g i f = kq i f :=
  if_neg fun hc => h hc.1

lemma Kqueue.delete_none (h : kq i f = none) (j : ℤ) (g : KqFilter) : kq.delete j g i f = none := by
  unfold delete set
  split
  · rfl
  · exact h

lemma deleteFilters_ne (hi : i ≠ hosts fd) (f : KqFilter) :
    epollDeleteFilters kq (hosts fd) reg i f = kq i f := by
  unfold epollDeleteFilters
  split
  · grind [delete_ne]
  split
  · exact delete_ne hi f _
  · rfl

lemma deleteFilters_none (hinj : Function.Injective hosts) (h : EpollWired hosts inst kq)
    (f : KqFilter) : epollDeleteFilters kq (hosts fd) (inst.regs fd) (hosts fd) f = none := by
  unfold epollDeleteFilters
  cases hk : kq (hosts fd) f with
  | none =>
    split
    · refine delete_none ?_ _ _
      split
      · exact delete_none hk _ _
      · exact hk
    · split
      · exact delete_none hk _ _
      · exact hk
  | some k =>
    have hp := h _ _ k hk
    obtain hgfd : fd = k.gfd := hinj hp.place
    cases f with
    | read =>
      have hread := hp.read rfl
      rw [← hgfd] at hread
      rw [if_pos hread]
      split
      · exact delete_none (delete_self ..) _ _
      · exact delete_self ..
    | write =>
      have hwrite := hp.write rfl
      rw [← hgfd] at hwrite
      rw [if_pos hwrite]
      exact delete_self ..

/-- The queue with notes at one host descriptor taken away or added. -/
structure ArmedAt (kq kq' : Kqueue) (h : ℤ) (cs : List KqChange) : Prop where
  other : ∀ i f, i ≠ h → kq' i f = kq i f
  added : ∀ f k, kq' h f = some k →
    ∃ c ∈ cs, c.filter = f ∧ k = ⟨c.gfd, c.clear, c.oneshot, c.eofOnly, true, false⟩

lemma add_armedAt (hat : ArmedAt kq kq' h cs) {c : KqChange} (hc : c.ident = h) :
    ArmedAt kq (kq'.add c) h (c :: cs) := by
  refine ⟨fun i f hi => ?_, fun f k hk => ?_⟩
  · rw [Kqueue.add, Kqueue.set, if_neg fun hx => hi (hx.1.trans hc), hat.other i f hi]
  unfold Kqueue.add Kqueue.set at hk
  split at hk
  · grind
  · obtain ⟨d, hd, hf⟩ := hat.added f k hk
    exact ⟨d, mem_cons_of_mem c hd, hf⟩

lemma delete_armedAt {c : KqChange} (hat : ArmedAt kq kq' h (c :: cs)) (hc : c.ident = h) :
    ArmedAt kq (kq'.delete c.ident c.filter) h cs := by
  refine ⟨fun i f hi => ?_, fun f k hk => ?_⟩
  · rw [Kqueue.delete_ne (fun hx => hi (hx.trans hc)), hat.other i f hi]
  by_cases hf : f = c.filter
  · rw [hf, hc, Kqueue.delete_self] at hk
    cases hk
  rw [Kqueue.delete, Kqueue.set, if_neg fun hx => hf hx.2] at hk
  obtain ⟨d, hd, hfd, rfl⟩ := hat.added f k hk
  grind

lemma ArmedAt.cons {h : ℤ} (hat : ArmedAt kq kq' h cs) (c : KqChange) :
    ArmedAt kq kq' h (c :: cs) :=
  ⟨hat.other, fun f k hk => by
    obtain ⟨d, hd, hf⟩ := hat.added f k hk
    exact ⟨d, mem_cons_of_mem c hd, hf⟩⟩

/-- What `epoll_arm_changes` leaves: all that was armed, or nothing. -/
def ArmResult (kq : Kqueue) (h : ℤ) (cs : List KqChange) (r : Except ℤ Bool × Kqueue) : Prop :=
  match r.1 with
  | .ok _ => ArmedAt kq r.2 h cs
  | .error _ => ArmedAt kq r.2 h []

lemma armLoop_one {c : KqChange}
    (hc : c.ident = h) (hundo : ArmedAt kq (epollUndoChanges kq' done) h [])
    (hat : ArmedAt kq kq' h done)
    (hfirst : c.filter = .read → done = []) (hreg : registered = false → ArmedAt kq kq' h []) :
    ArmResult kq h (c :: done) (epollArmLoop snap host [c] done registered refused kq') := by
  unfold epollArmLoop
  split
  · rw [epollArmLoop]
    exact add_armedAt hat hc
  · exact hundo
  split
  · rw [epollArmLoop]
    exact hat.cons c
  split
  · show ArmedAt kq kq' h []
    grind
  · rw [epollArmLoop]
    exact hat.cons c

lemma buildChanges_cases (events : BitVec 32) (fd : ℕ) (snap : FdEntry) :
    epollBuildChanges events fd snap = [] ∨
    (∃ c, c.ident = snap.hostFd ∧ epollBuildChanges events fd snap = [c]) ∨
    ∃ r w, r.ident = snap.hostFd ∧ w.ident = snap.hostFd ∧ r.filter = .read ∧ w.filter = .write ∧
      epollBuildChanges events fd snap = [r, w] := by
  unfold epollBuildChanges
  split
  · exact .inr (.inl ⟨_, rfl, rfl⟩)
  grind

lemma armChanges_at (hnone : ∀ f, kq snap.hostFd f = none) :
    ArmResult kq snap.hostFd (epollBuildChanges events fd snap)
      (epollArmChanges kq (epollBuildChanges events fd snap) snap host) := by
  have hstart : ArmedAt kq kq snap.hostFd [] := by
    refine ⟨fun _ _ _ => rfl, fun f k hk => ?_⟩
    rw [hnone f] at hk
    cases hk
  unfold epollArmChanges
  obtain hnil | ⟨c, hc, hone⟩ | ⟨r, w, hr, hw, hread, hwrite, htwo⟩ :=
    buildChanges_cases events fd snap
  · rw [hnil]
    split
    · exact hstart
    · exact hstart
  · rw [hone, if_neg fun hx => nomatch hx.1]
    exact armLoop_one hc hstart hstart (fun _ => rfl) fun _ => hstart
  rw [htwo, if_neg fun hx => nomatch hx.1]
  -- the order of the two does not matter for what is armed
  have hswap : ∀ {res}, ArmResult kq snap.hostFd [w, r] res →
      ArmResult kq snap.hostFd [r, w] res := by
    intro res hres
    unfold ArmResult at hres ⊢
    split at hres
    · refine ⟨hres.other, fun f k hk => ?_⟩
      obtain ⟨d, hd, hf⟩ := hres.added f k hk
      grind
    · exact hres
  unfold epollArmLoop
  split
  · have hadd := add_armedAt hstart hr
    refine hswap (armLoop_one hw ?_ hadd (fun hx => ?_) fun hno => ?_)
    · exact delete_armedAt hadd hr
    · rw [hwrite] at hx
      cases hx
    · rw [hread] at hno
      cases hno
  · exact hstart
  split
  · refine hswap (armLoop_one hw ?_ (hstart.cons r) (fun hx => ?_) fun _ => hstart)
    · exact delete_armedAt (hstart.cons r) hr
    · rw [hwrite] at hx
      cases hx
  · rw [if_pos (by rw [hread]; rfl)]
    exact hstart

/-- The changes are for notes of the registration that `epoll_store_reg` records. -/
lemma buildChanges_placed {c : KqChange} (hc : c ∈ epollBuildChanges events fd snap)
    (data : ℕ) (pty refused : Bool) :
    Knote.Placed ⟨c.gfd, c.clear, c.oneshot, c.eofOnly, true, false⟩ hosts
      (epollStoreReg inst fd events data snap pty refused) (hosts fd) c.filter := by
  have hmatch := buildChanges_matches hc inst data pty refused
  have hreg : (epollStoreReg inst fd events data snap pty refused).regs fd =
      { events := events, data := data, generation := snap.generation, ofdId := snap.ofdId
        active := true, oneshotArmed := false, ptyMaster := pty, alwaysReadable := refused
        usbdev := snap.type = .usbdev } := update_self ..
  unfold epollBuildChanges at hc
  split at hc
  · obtain rfl := mem_singleton.mp hc
    refine ⟨by rw [hreg], rfl, hmatch, fun _ => ?_, nofun⟩
    grind
  obtain hc | hc := mem_append.mp hc
  · split at hc
    · obtain rfl := mem_singleton.mp hc
      refine ⟨by rw [hreg], rfl, hmatch, fun _ => ?_, nofun⟩
      grind
    · cases hc
  split at hc
  · obtain rfl := mem_singleton.mp hc
    refine ⟨by rw [hreg], rfl, hmatch, (nofun), fun _ => ?_⟩
    grind
  · cases hc

lemma EpollWired.update (h : EpollWired hosts inst kq)
    (hregs : ∀ g, g ≠ fd → inst'.regs g = inst.regs g)
    (hother : ∀ i f, i ≠ hosts fd → kq' i f = kq i f)
    (hat : ∀ f k, kq' (hosts fd) f = some k → k.Placed hosts inst' (hosts fd) f) :
    EpollWired hosts inst' kq' := by
  intro i f k hk
  by_cases hi : i = hosts fd
  · rw [hi] at hk ⊢
    exact hat f k hk
  rw [hother i f hi] at hk
  have hp := h i f k hk
  have hne : k.gfd ≠ fd := by
    intro hg
    rw [← hg] at hi
    exact hi hp.place
  have hsame := hregs k.gfd hne
  exact ⟨by rw [hsame]; exact hp.active, hp.place, by rw [hsame]; exact hp.matching,
    by rw [hsame]; exact hp.read, by rw [hsame]; exact hp.write⟩

lemma deactivate_ne (h : g ≠ fd) : (inst.deactivate fd).regs g = inst.regs g :=
  update_of_ne h ..

/-- The notes of a queue stay those of active registrations under `epoll_ctl`, as long as a
descriptor is closed and opened again only with its notes gone. -/
lemma ctlLocked_wired (hinj : Function.Injective hosts) (h : EpollWired hosts inst kq)
    (hsnap : snap.hostFd = hosts fd)
    (hgen : (inst.regs fd).active → (inst.regs fd).generation = snap.generation)
    (hop : op ≠ .unknown) (data : ℕ) :
    EpollWired hosts (epollCtlLocked op fd events data snap host inst kq).2.1
      (epollCtlLocked op fd events data snap host inst kq).2.2 := by
  have hstale : EpollWired hosts (inst.dropStale fd snap) kq := by
    unfold dropStale
    split
    · rename_i hdrop
      rw [Bool.and_eq_true, decide_eq_true_eq] at hdrop
      have hno : (inst.regs fd).active = false :=
        Bool.eq_false_of_not_eq_true fun hactive => hdrop.2 (hgen hactive)
      refine h.update (fun g hg => deactivate_ne hg) (fun _ _ _ => rfl) fun f k hk => ?_
      rw [h.place_none hinj hno f] at hk
      cases hk
    · exact h
  unfold epollCtlLocked
  dsimp only
  generalize inst.dropStale fd snap = inst at hstale
  split
  · split
    · exact hstale
    rw [hsnap]
    refine hstale.update (fun g hg => deactivate_ne hg) (fun i f hi => deleteFilters_ne hi f) ?_
    intro f k hk
    exact nomatch (deleteFilters_none hinj hstale f).symm.trans hk
  rename_i hdel
  split
  · exact hstale
  split
  · exact hstale
  split
  · exact hstale
  rename_i hadd _
  -- nothing of the old registration is left
  obtain ⟨kq0, hkq0⟩ : ∃ kq0, (if (decide (op = .mod) && (inst.regs fd).active) = true then
    epollDeleteFilters kq snap.hostFd (inst.regs fd) else kq) = kq0 := ⟨_, rfl⟩
  have hclear : (∀ f, kq0 (hosts fd) f = none) ∧ ∀ i f, i ≠ hosts fd → kq0 i f = kq i f := by
    rw [← hkq0, hsnap]
    split
    · exact ⟨deleteFilters_none hinj hstale, fun i f hi => deleteFilters_ne hi f⟩
    rename_i hmod
    refine ⟨hstale.place_none hinj ?_, fun _ _ _ => rfl⟩
    cases hactive : (inst.regs fd).active with
    | false => rfl
    | true =>
      rw [hactive, Bool.and_true, decide_eq_true_eq] at hmod hadd
      cases op with
      | add => exact absurd rfl hadd
      | del => exact absurd rfl hdel
      | mod => exact absurd rfl hmod
      | unknown => exact absurd rfl hop
  rw [hkq0]
  have harm : ArmResult kq0 (hosts fd) (epollBuildChanges events fd snap)
      (epollArmChanges kq0 (epollBuildChanges events fd snap) snap host) := by
    rw [← hsnap] at hclear ⊢
    exact armChanges_at hclear.1
  obtain ⟨r, kq1, hr⟩ : ∃ r kq1, epollArmChanges kq0 (epollBuildChanges events fd snap) snap host =
    (r, kq1) := ⟨_, _, rfl⟩
  rw [hr] at harm ⊢
  cases r with
  | error err =>
    refine hstale.update (fun _ _ => rfl)
      (fun i f hi => (harm.other i f hi).trans (hclear.2 i f hi)) fun f k hk => ?_
    obtain ⟨c, hc, -⟩ := harm.added f k hk
    cases hc
  | ok refused =>
    refine hstale.update (fun g hg => update_of_ne hg ..)
      (fun i f hi => (harm.other i f hi).trans (hclear.2 i f hi)) fun f k hk => ?_
    obtain ⟨c, hc, rfl, rfl⟩ := harm.added f k hk
    exact buildChanges_placed hc data _ _
end

/-! ### A run -/

/-- What holds between the passes and when the call has returned. -/
def EpollRunInv : EpollRun ⊕ EpollEnd → Prop
  | .inl s => EpollSafe s
  | .inr d => ∀ t ∈ d.taken, d.Reported t ∨ d.Armed t

/-- A pass that is interrupted has taken nothing that is at stake. -/
lemma interrupted_safe (hkeeps : EpollKeeps c s p) (hd : kqDelivers s.kq s.w.maxevents p.batch)
    (hint : p.interrupted) (ht : t ∈ s.inst.taken p) : s.Safe t := by
  obtain hsafe | ⟨e, a, hstake, rfl⟩ := taken_cases hd ht
  · exact hsafe
  unfold EpollPass.interrupted at hint
  rw [decide_eq_true (ne_nil_of_mem hstake.mem)] at hint
  cases hstop : p.interrupts.stop with
  | false =>
    rw [hstop] at hint
    cases hint
  | true =>
    rw [hkeeps.stop e a hstake hstop, hstop] at hint
    cases hint

lemma taken_nil (h : p.batch = []) : inst.taken p = [] := by
  rw [taken, h]
  rfl

lemma epollAfter_inv (h : EpollSafe s) (hd : kqDelivers s.kq s.w.maxevents p.batch)
    (hkeeps : EpollKeeps c s p) (hcol : s.collects p) {r : EpollWait ⊕ EpollResult}
    {inst' : EpollInst} {kq' : Kqueue}
    (hr : epollAfter c s.w p s.inst (p.batch.foldl dequeue s.kq) = (r, inst', kq')) :
    EpollRunInv (r.map (fun w => ⟨w, inst', kq', s.taken ++ s.inst.taken p⟩)
      fun res => ⟨res, inst', kq', s.taken ++ s.inst.taken p⟩) := by
  obtain ⟨o, _, muted, mkq, ho, hm, hcases⟩ :=
    epollAfter_cases c s.w p s.inst (p.batch.foldl dequeue s.kq)
  obtain rfl : s.collected p = _ := congrArg Prod.snd ho
  have ho' : (epollCollect s.inst (p.batch.foldl dequeue s.kq) s.w.maxevents p.batch
      s.w.muted p.seen).1 = o := by rw [ho]
  have hout : epollDropEmpty o = s.out p := by rw [← ho']; rfl
  rw [hout] at hcases
  obtain ⟨hempty, -, -, -, heq⟩ | ⟨hno, res, heq, hres⟩ := hcases
  · rw [heq] at hr
    cases hr
    exact h.mutePass hd hkeeps hm hempty
  rw [heq] at hr
  cases hr
  -- an event that is at stake and shows nothing is muted, and another pass follows
  have hshows : ∀ e a, s.Stakes p e a → a.events ≠ 0 := by
    intro e a hstake h0
    obtain ⟨pre, post, hsplit⟩ := append_of_mem hstake.mem
    obtain ⟨hquiet, hleft, hok, hroom⟩ := hkeeps.masked pre e post a hsplit hstake h0
    obtain ⟨hlt, hactive, -⟩ := shows_some hstake.shows
    have hmore : s.w.muted.length <
        (epollMuteUsbWakes s.inst p.muteOk p.batch s.w.muted (s.collected p)).1.length :=
      mute_lt hstake.mem (by omega) hlt hactive (masked_usb h hd hstake.mem hstake.shows h0) hok
    rw [hm] at hmore
    refine hno ⟨hquiet, ?_, hleft, hmore⟩
    have hne : epollStamp true s.w.maxevents (s.inst.shows p.seen.usb) p.batch [] ≠ [] :=
      stamp_ne_nil h.maxevents ⟨e, hstake.mem, by rw [hstake.shows]; rfl⟩
    obtain ⟨b, hb⟩ := exists_mem_of_ne_nil _ hne
    obtain ⟨d, hmem, -⟩ := collect_keeps (p.batch.foldl dequeue s.kq) s.w.muted hb
    rw [ho'] at hmem
    exact ne_nil_of_mem hmem
  intro t ht
  replace ht : s.Safe t ∨ ∃ e a, s.Stakes p e a ∧ t = (e, a.events) := by
    obtain ht | ht := mem_append.mp ht
    · exact .inl (h.logged t ht)
    · exact taken_cases hd ht
  obtain rfl | ⟨-, hwrite, rfl⟩ := hres
  · obtain hsafe | ⟨e, a, hstake, rfl⟩ := ht
    · obtain harmed | ⟨h0, b, hb, hgfd, -⟩ := h.endPass hd hsafe (s.out p)
      · exact .inr harmed
      · exact .inl ⟨b, hb, hgfd, by rw [h0]; exact BitVec.zero_or⟩
    · exact .inl (once_shown hkeeps hstake (hshows e a hstake))
  · obtain ⟨hnone, hmuted⟩ := hkeeps.out hwrite hcol
    obtain hsafe | ⟨e, a, hstake, rfl⟩ := ht
    · obtain harmed | ⟨-, b, hb, -, m, hm, hmg, hone⟩ := h.endPass hd hsafe (s.out p)
      · exact .inr harmed
      · rw [hmuted b hb m hm hmg] at hone
        cases hone
    · exact absurd (hnone e a hstake) (hshows e a hstake)

lemma epollRunNext_inv {s t : EpollRun ⊕ EpollEnd} (h : EpollRunInv s)
    (hkeeps : epollRunKeeps c s p) (hn : epollRunNext c s p = some t) : EpollRunInv t := by
  cases s with
  | inr d => cases hn
  | inl s =>
    unfold epollRunNext at hn
    dsimp only at hn
    split at hn
    · cases hn
    rename_i hd
    rw [Bool.not_eq_true', Bool.not_eq_false] at hd
    obtain ⟨r, inst', kq', hr⟩ : ∃ r inst' kq', epollPass c s.w p s.inst s.kq = (r, inst', kq') :=
      ⟨_, _, _, rfl⟩
    have ht : t = r.map (fun w => ⟨w, inst', kq', s.taken ++ s.inst.taken p⟩)
        fun res => ⟨res, inst', kq', s.taken ++ s.inst.taken p⟩ := by
      rw [hr] at hn
      cases r with
      | inl | inr => exact (Option.some.inj hn).symm
    rw [ht]
    -- a pass that stops has taken nothing that is at stake
    have hstop : (∀ t ∈ s.inst.taken p, s.Safe t) → ∀ res, r = .inr res → inst' = s.inst →
        kq' = epollUnmute s.inst s.w.muted (p.batch.foldl dequeue s.kq) →
        EpollRunInv (.inr ⟨res, inst', kq', s.taken ++ s.inst.taken p⟩) := by
      rintro hsafe res - rfl rfl t ht
      replace ht : s.Safe t := (mem_append.mp ht).elim (h.logged t) (hsafe t)
      exact .inr (safe_unmute h ht (safe_dequeued h hd ht) ht.2.2.1)
    unfold epollPass at hr
    split at hr
    · rename_i hint
      cases hr
      exact hstop (fun t => interrupted_safe hkeeps hd hint) _ rfl rfl rfl
    rename_i hint
    split at hr
    · rename_i hkev
      cases hr
      have hnil : p.batch = [] := by rw [EpollPass.batch, hkev]
      exact hstop (by rw [taken_nil hnil]; exact nofun) _ rfl rfl rfl
    rename_i hkev
    split at hr
    · rename_i hagain
      cases hr
      have hnil : p.batch = [] := by
        simp only [EpollWait.again, Bool.and_eq_true, decide_eq_true_eq] at hagain
        exact hagain.1.1.1
      rw [taken_nil hnil, append_nil, hnil]
      exact h
    · rename_i hagain
      have hcol : s.collects p := by
        simp [EpollRun.collects, hint, hkev, hagain, Except.isOk, Except.toBool]
      exact epollAfter_inv h hd hkeeps hcol hr

def edgePipe (fd : ℕ) : FdEntry :=
  { FdEntry.zero with type := .pipe, hostFd := fd + 4, generation := fd, ofdId := fd }

def edgeHost : EpollHost :=
  { probe := true, standalone := true, arm := fun _ => .accepted, isDir := false, isReg := false
    ptyMaster := false }

def edgeAdd (inst : EpollInst) (kq : Kqueue) (fd : ℕ) : EpollInst × Kqueue :=
  (epollCtlLocked .add fd (linuxEpollin ||| linuxEpollet) (10 * fd) (edgePipe fd) edgeHost inst
      kq).2

def edgeTwo : EpollInst × Kqueue :=
  edgeAdd (edgeAdd .new (fun _ _ => none) 5).1 (edgeAdd .new (fun _ _ => none) 5).2 6

lemma edgeAdd_wired (h : EpollWired (fun fd => fd + 4) inst kq)
    (hno : (inst.regs fd).active = false) :
    EpollWired (fun fd => fd + 4) (edgeAdd inst kq fd).1 (edgeAdd inst kq fd).2 := by
  refine ctlLocked_wired ?_ h rfl (fun hactive => ?_) (by decide) _
  · intro a b hab
    dsimp only at hab
    omega
  · rw [hno] at hactive
    cases hactive

lemma edgeTwo_armed : EpollArmed edgeTwo.1 edgeTwo.2 := by
  have hnone : EpollWired (fun fd => fd + 4) .new fun _ _ => none := nofun
  have hone := edgeAdd_wired hnone (show (new.regs 5).active = false from rfl)
  exact (edgeAdd_wired hone rfl).armed

def edgeCall (maxevents : ℤ) : EpollCall :=
  { ref := .ok 4, maxevents := maxevents, timeoutMs := -1, hasInst := true, writeOut := true
    start := 100 }

def edgePass : EpollPass :=
  { kevents := .ok [⟨9, .read, 5, false, false⟩, ⟨10, .read, 6, false, false⟩]
    interrupts := ⟨false, false, false⟩, leaderOnly := false, hung := false
    breakUsb := fun _ => ⟨false, false, false⟩, now := 100
    seen := ⟨[], fun _ => ⟨false, false, false⟩, fun _ => ⟨false, false, false⟩⟩
    muteOk := fun _ => true, later := 100 }

end Elfuse
