/-
Descriptors received by `recvmsg` (`syscall/net-msg.c`).

The host has handed over a list of control messages. They are copied to the guest
one by one in Linux layout; the descriptors of a message are installed in the
guest's table on the way, and a later failure retires those installed so far. A
guest descriptor is a slot that holds the number of a host descriptor.

* `RecvServed` — what the loop keeps of the descriptors it has got to;
* `recvmsg_accounts` — when exactly a call hands over or closes every descriptor;
* `recvmsg_leaks` — a message that does not fit takes its descriptors with it.
-/
import Elfuse.Syscall.Ppoll
import Mathlib.Data.Finset.Card

namespace Elfuse

open Function List Prod

/-! ### Control messages -/

/-- A control message of the host: one too short for a header, descriptors (the copy of whose list
may not be allocated), or other data, with a kind Linux may not know. -/
inductive HostCmsg
  | runt
  | rights (fds : List ℕ) (copyFails : Bool)
  | other (len : ℕ) (known : Bool)

/-- Model of `LINUX_SCM_MAX_FD`, `CMSG_LINUX_HDR_BYTES` and `SCM_CRED_CMSG_SPACE`. -/
def linuxScmMaxFd : ℕ := 253
def cmsgLinuxHdrBytes : ℕ := 16
def scmCredCmsgSpace : ℕ := 32

namespace HostCmsg

def fds : HostCmsg → List ℕ
  | rights fds _ => fds
  | _ => []

def dataLen : HostCmsg → ℕ
  | runt => 0
  | rights fds _ => 4 * fds.length
  | other len _ => len

/-- The room a message takes in Linux layout. -/
def space (m : HostCmsg) : ℕ :=
  let n := cmsgLinuxHdrBytes + m.dataLen
  n + 7 - (n + 7) % 8

end HostCmsg

/-- What `sys_recvmsg` finds when the host's `recvmsg` has returned: the size of the guest's control
buffer, up to `CMSG_LINUX_CTL_MAX` and zero without one; which guest memory cannot be written; and
what the host has delivered. -/
structure RecvCall where
  ctlLen : ℕ
  nameFault : Bool
  ctlFault : Bool
  ctlLenFault : Bool
  flagsFault : Bool
  /-- The Linux control buffer cannot be allocated. -/
  heapFails : Bool
  passcred : Bool
  /-- The number of slots below `RLIMIT_NOFILE`. -/
  nofile : ℕ
  got : ℕ
  hostTrunc : Bool
  msgs : List HostCmsg
  /-- Without a buffer the host delivers nothing. -/
  unasked : ctlLen = 0 → msgs = []

/-- The guest's slots, the host descriptors closed so far, `recvmsg_scm_t`, and the buffer for the
guest: its length and the descriptor numbers in it. -/
structure RecvState where
  slot : ℕ → Option ℕ
  closed : List ℕ
  scm : List (ℕ × ℕ)
  lpos : ℕ
  shown : List ℤ

def lowestFree (nofile : ℕ) (slot : ℕ → Option ℕ) : Option ℕ :=
  (List.range nofile).find? fun g => (slot g).isNone

/-- One turn of `recvmsg_install_rights`. -/
def installRight (nofile : ℕ) (s : RecvState) (h : ℕ) : RecvState :=
  match if linuxScmMaxFd ≤ s.scm.length then none else lowestFree nofile s.slot with
  | none => { s with closed := h :: s.closed, shown := s.shown ++ [-1] }
  | some g =>
    { s with
      slot := Function.update s.slot g (some h)
      scm := s.scm ++ [(g, h)]
      shown := s.shown ++ [(g : ℤ)] }

def recvmsgInstallRights (nofile : ℕ) (fds : List ℕ) (s : RecvState) : RecvState :=
  fds.foldl (installRight nofile) s

def RecvState.fdRetirePublished (s : RecvState) (x : ℕ × ℕ) : RecvState :=
  if s.slot x.1 = some x.2 then
    { s with slot := Function.update s.slot x.1 none, closed := x.2 :: s.closed }
  else s

def recvmsgCleanupScmRights (s : RecvState) : RecvState := s.scm.foldl RecvState.fdRetirePublished s

def RecvCall.bufLen (c : RecvCall) : ℕ := max c.ctlLen 512

def RecvCall.fitsAt (c : RecvCall) (lpos : ℕ) (m : HostCmsg) : Bool :=
  decide (m.dataLen ≤ c.bufLen - cmsgLinuxHdrBytes ∧ lpos + m.space ≤ c.bufLen ∧
    lpos + m.space ≤ c.ctlLen)

/-- The loop of `recvmsg_write_control`: an error, whether it stopped for want of room, and the
state. -/
def controlWalk (c : RecvCall) : List HostCmsg → RecvState → Option ℤ × Bool × RecvState
  | [], s => (none, false, s)
  | .runt :: l, s => controlWalk c l s
  | .other len known :: l, s =>
    if c.fitsAt s.lpos (.other len known) then
      controlWalk c l { s with
        lpos := if known then s.lpos + (HostCmsg.other len known).space else s.lpos }
    else (none, true, s)
  | .rights fds copyFails :: l, s =>
    let m := HostCmsg.rights fds copyFails
    if !c.fitsAt s.lpos m then (none, true, s)
    else if linuxScmMaxFd < fds.length then
      (some (-linuxEinval), false, recvmsgCleanupScmRights { s with closed := fds ++ s.closed })
    else if 128 < m.dataLen ∧ copyFails then (none, false, { s with closed := fds ++ s.closed })
    else controlWalk c l { recvmsgInstallRights c.nofile fds s with lpos := s.lpos + m.space }

/-- Model of `recvmsg_write_control`. Without messages only the length is written, and a fault there
counts only when there is no buffer. -/
def recvmsgWriteControl (c : RecvCall) (s : RecvState) : Option ℤ × Bool × RecvState :=
  if c.msgs = [] then (if c.ctlLen = 0 ∧ c.ctlLenFault then some (-linuxEfault) else none, false, s)
  else if 512 < c.ctlLen ∧ c.heapFails then (some (-linuxEnomem), false, s)
  else
    match controlWalk c c.msgs s with
    | (some err, r) => (some err, r)
    | (none, truncated, s) =>
      let full := s.lpos + if c.passcred ∧ s.lpos + scmCredCmsgSpace ≤ c.ctlLen then
        scmCredCmsgSpace else 0
      if full = 0 then (if c.ctlLenFault then some (-linuxEfault) else none, truncated, s)
      else if c.ctlFault ∨ c.ctlLenFault then
        (some (-linuxEfault), truncated, recvmsgCleanupScmRights s)
      else (none, truncated, s)

/-- What a call leaves: its result, the slots, the closed host descriptors, the descriptor numbers
in the guest's buffer and whether `MSG_CTRUNC` is reported. -/
structure RecvOutcome where
  ret : ℤ
  slot : ℕ → Option ℕ
  closed : List ℕ
  shown : List ℤ
  ctrunc : Bool

def RecvState.outcome (s : RecvState) (ret : ℤ) (ctrunc : Bool) : RecvOutcome :=
  ⟨ret, s.slot, s.closed, s.shown, ctrunc⟩

/-- Model of `sys_recvmsg` from where the host's call has succeeded. -/
def sysRecvmsg (c : RecvCall) (slot : ℕ → Option ℕ) : RecvOutcome :=
  let s : RecvState := ⟨slot, [], [], 0, []⟩
  if c.nameFault then s.outcome (-linuxEfault) false
  else
    match recvmsgWriteControl c s with
    | (some err, _, s) => s.outcome err false
    | (none, truncated, s) =>
      if c.flagsFault then (recvmsgCleanupScmRights s).outcome (-linuxEfault) false
      else s.outcome c.got (c.hostTrunc || (decide (0 < c.ctlLen) && truncated))

/-! ### What should become of the descriptors -/

def RecvCall.received (c : RecvCall) : List ℕ := c.msgs.flatMap HostCmsg.fds

/-- Every received descriptor is closed, or is in one new slot whose number the guest was given in a
call that succeeds; no other slot has changed; and one that was not handed over is reported. -/
structure Accounted (received : List ℕ) (slot : ℕ → Option ℕ) (o : RecvOutcome) : Prop where
  handled : ∀ h ∈ received, (h ∈ o.closed ∧ ∀ g, o.slot g ≠ some h) ∨
    h ∉ o.closed ∧ 0 ≤ o.ret ∧ ∃ g : ℕ, slot g = none ∧ o.slot g = some h ∧ (g : ℤ) ∈ o.shown ∧
      ∀ g', o.slot g' = some h → g' = g
  slots : ∀ g, o.slot g = slot g ∨
    slot g = none ∧ 0 ≤ o.ret ∧ ∃ h ∈ received, o.slot g = some h
  truncation : 0 ≤ o.ret → (∃ h ∈ received, h ∈ o.closed) → o.ctrunc = true

/-- The descriptors of the messages that the loop does not get to, from a position in the guest's
buffer on. -/
def RecvCall.unread (c : RecvCall) : ℕ → List HostCmsg → List ℕ
  | _, [] => []
  | lpos, .runt :: l => c.unread lpos l
  | lpos, .other len known :: l =>
    if c.fitsAt lpos (.other len known) then
      c.unread (if known then lpos + (HostCmsg.other len known).space else lpos) l
    else l.flatMap HostCmsg.fds
  | lpos, .rights fds copyFails :: l =>
    let m := HostCmsg.rights fds copyFails
    if !c.fitsAt lpos m then fds ++ l.flatMap HostCmsg.fds
    else if linuxScmMaxFd < fds.length then l.flatMap HostCmsg.fds
    else if 128 < m.dataLen ∧ copyFails then l.flatMap HostCmsg.fds
    else c.unread (lpos + m.space) l

def RecvCall.free (c : RecvCall) (slot : ℕ → Option ℕ) : ℕ :=
  ((Finset.range c.nofile).filter fun g => slot g = none).card

/-- A list of descriptors that is too long for the stack cannot be copied. -/
def RecvCall.CopyLost (c : RecvCall) : Prop :=
  ∃ fds, .rights fds true ∈ c.msgs ∧ 128 < (HostCmsg.rights fds true).dataLen

/-- There is a place for so many descriptors. -/
def RecvCall.Roomy (c : RecvCall) (slot : ℕ → Option ℕ) (n : ℕ) : Prop :=
  n ≤ linuxScmMaxFd ∧ n ≤ c.free slot ∧ ¬ c.CopyLost

/-- When that is so: if a descriptor is received at all, the name can be written and the buffer for
the control data be allocated; the loop gets to every message with descriptors; and a call that
succeeds without reporting a truncation has a place for all of them. -/
structure RecvCall.Fair (c : RecvCall) (slot : ℕ → Option ℕ) : Prop where
  name : c.received ≠ [] → c.nameFault = false
  heap : c.received ≠ [] → ¬ (512 < c.ctlLen ∧ c.heapFails)
  reached : c.unread 0 c.msgs = []
  told : 0 ≤ (sysRecvmsg c slot).ret → (sysRecvmsg c slot).ctrunc = false →
    c.Roomy slot c.received.length

/-- The host's descriptors are new. -/
structure RecvCall.Fresh (c : RecvCall) (slot : ℕ → Option ℕ) : Prop where
  nodup : c.received.Nodup
  unused : ∀ g, ∀ h ∈ c.received, slot g ≠ some h

/-! ### The loop -/

/-- The descriptors `hs` have been dealt with: each is closed or installed in a slot that was free,
and one is closed only for want of a place. -/
structure RecvServed (c : RecvCall) (slot : ℕ → Option ℕ) (hs : List ℕ) (s : RecvState) : Prop where
  hosts : (s.closed ++ s.scm.map snd).Perm hs
  nodup : (s.scm.map fst).Nodup
  held : ∀ x ∈ s.scm, x.1 < c.nofile ∧ slot x.1 = none ∧ s.slot x.1 = some x.2 ∧
    (x.1 : ℤ) ∈ s.shown
  kept : ∀ g, g ∉ s.scm.map fst → s.slot g = slot g
  few : s.scm.length ≤ linuxScmMaxFd
  full : s.closed ≠ [] → ¬ c.Roomy slot hs.length

section

variable {c : RecvCall} {slot : ℕ → Option ℕ} {hs : List ℕ} {s : RecvState}

lemma RecvServed.start (slot : ℕ → Option ℕ) : RecvServed c slot [] ⟨slot, [], [], 0, []⟩ :=
  ⟨.refl _, by simp, by simp, by simp, by simp, by simp⟩

section
variable (hi : RecvServed c slot hs s)
include hi

lemma RecvServed.length : s.closed.length + s.scm.length = hs.length := by
  simpa using hi.hosts.length_eq

lemma RecvServed.scm_le_free : s.scm.length ≤ c.free slot := by
  have hsub : (s.scm.map fst).toFinset ⊆ (Finset.range c.nofile).filter fun g => slot g = none := by
    intro g hg
    obtain ⟨x, hx, rfl⟩ := mem_map.mp (mem_toFinset.mp hg)
    obtain ⟨hlt, hnone, -⟩ := hi.held x hx
    exact Finset.mem_filter.mpr ⟨Finset.mem_range.mpr hlt, hnone⟩
  have hcard := Finset.card_le_card hsub
  rwa [toFinset_card_of_nodup hi.nodup, length_map] at hcard

lemma RecvServed.free_le_scm (hfind : lowestFree c.nofile s.slot = none) :
    c.free slot ≤ s.scm.length := by
  have hsub : (Finset.range c.nofile).filter (fun g => slot g = none) ⊆
      (s.scm.map fst).toFinset := by
    intro g hg
    obtain ⟨hlt, hnone⟩ := Finset.mem_filter.mp hg
    rw [mem_toFinset]
    by_contra hout
    have hsome := find?_eq_none.mp hfind g (mem_range.mpr (Finset.mem_range.mp hlt))
    rw [hi.kept g hout, hnone] at hsome
    exact hsome rfl
  have hcard := (Finset.card_le_card hsub).trans (toFinset_card_le _)
  rwa [length_map] at hcard

/-- Descriptors that are closed at once. -/
lemma RecvServed.drop (fds : List ℕ) (hno : fds ≠ [] → ¬ c.Roomy slot (hs ++ fds).length)
    (shown : List ℤ) :
    RecvServed c slot (hs ++ fds)
      { s with closed := fds ++ s.closed, shown := s.shown ++ shown } := by
  refine ⟨?_, hi.nodup, fun x hx => ?_, hi.kept, hi.few, fun hne hroomy => ?_⟩
  · rw [append_assoc]
    exact (hi.hosts.append_left fds).trans perm_append_comm
  · obtain ⟨h1, h2, h3, h4⟩ := hi.held x hx
    exact ⟨h1, h2, h3, mem_append_left _ h4⟩
  · by_cases hfds : fds = []
    · subst hfds
      exact hi.full (by simpa using hne) (by simpa using hroomy)
    · exact hno hfds hroomy

lemma RecvServed.right (h : ℕ) : RecvServed c slot (hs ++ [h]) (installRight c.nofile s h) := by
  have hlen := hi.length
  unfold installRight
  split
  case h_1 hnone =>
    refine hi.drop [h] (fun _ hroomy => ?_) [-1]
    -- nothing is left, of the records or of the slots
    obtain ⟨hfew, hfree, -⟩ := hroomy
    rw [length_append, length_singleton] at hfew hfree
    split at hnone
    · omega
    · have := hi.free_le_scm hnone
      omega
  case h_2 g hg =>
    split at hg
    · cases hg
    have hnone : s.slot g = none := by simpa using find?_some hg
    have hlt : g < c.nofile := mem_range.mp (mem_of_find?_eq_some hg)
    have hnew : g ∉ s.scm.map fst := by
      intro hmem
      obtain ⟨x, hx, rfl⟩ := mem_map.mp hmem
      rw [(hi.held x hx).2.2.1] at hnone
      cases hnone
    refine ⟨?_, ?_, ?_, ?_, by simp only [length_append, length_singleton]; omega, ?_⟩
    · rw [map_append, ← append_assoc]
      exact hi.hosts.append_right [h]
    · rw [map_append, nodup_append]
      exact ⟨hi.nodup, by simp, by simpa using fun a b hab => fun ha => hnew (by
        subst ha; exact mem_map.mpr ⟨_, hab, rfl⟩)⟩
    · refine forall_mem_append.mpr ⟨fun x hx => ?_, forall_mem_singleton.mpr
        ⟨hlt, (hi.kept g hnew).symm.trans hnone, by simp, by simp⟩⟩
      have hne : x.1 ≠ g := fun heq => hnew (heq ▸ mem_map_of_mem hx)
      obtain ⟨h1, h2, h3, h4⟩ := hi.held x hx
      exact ⟨h1, h2, by simp [hne, h3], mem_append_left _ h4⟩
    · intro g' hg'
      simp only [map_append, map_cons, map_nil, mem_append, mem_singleton, not_or] at hg'
      simp [hg'.2, hi.kept g' hg'.1]
    · rintro hne ⟨hfew, hfree, hcopy⟩
      rw [length_append] at hfew hfree
      exact hi.full hne ⟨by omega, by omega, hcopy⟩

lemma RecvServed.rights (fds : List ℕ) :
    RecvServed c slot (hs ++ fds) (recvmsgInstallRights c.nofile fds s) := by
  induction fds generalizing hs s with
  | nil => simpa [recvmsgInstallRights] using hi
  | cons h fds ih => simpa [recvmsgInstallRights] using ih (hi.right h)

lemma RecvServed.at (n : ℕ) : RecvServed c slot hs { s with lpos := n } :=
  ⟨hi.hosts, hi.nodup, hi.held, hi.kept, hi.few, hi.full⟩

end

/-- The loop deals with the descriptors of the messages it gets to, or fails and retires them. -/
lemma controlWalk_served (hl : ∀ m ∈ l, m ∈ c.msgs) (hi : RecvServed c slot hs s)
    (hzero : s.lpos = 0 → s.scm = []) :
    ∃ hs' t, hs ++ l.flatMap HostCmsg.fds = hs' ++ c.unread s.lpos l ∧
      RecvServed c slot hs' t ∧ (t.lpos = 0 → t.scm = []) ∧
      ((∃ b, controlWalk c l s = (none, b, t) ∧ (c.unread s.lpos l = [] →
          (∃ fds, .rights fds true ∈ l ∧ 128 < (HostCmsg.rights fds true).dataLen) →
          t.closed ≠ [])) ∨
        controlWalk c l s = (some (-linuxEinval), false, recvmsgCleanupScmRights t)) := by
  induction l generalizing hs s with
  | nil => exact ⟨hs, s, by simp [RecvCall.unread], hi, hzero, .inl ⟨_, rfl, by simp⟩⟩
  | cons m l ih =>
    have hrest := fun m' hm' => hl m' (mem_cons_of_mem _ hm')
    -- a list of descriptors that cannot be copied and is left unread is not an empty one
    have hlong : l.flatMap HostCmsg.fds = [] →
        ¬ ∃ fds, .rights fds true ∈ l ∧ 128 < (HostCmsg.rights fds true).dataLen := by
      rintro hnil ⟨fds, hmem, hlt⟩
      have : fds = [] := flatMap_eq_nil_iff.mp hnil _ hmem
      simp [HostCmsg.dataLen, this] at hlt
    cases m with
    | runt =>
      obtain ⟨hs', t, happ, ht, hz, hw⟩ := ih hrest hi hzero
      exact ⟨hs', t, by simpa [HostCmsg.fds, RecvCall.unread] using happ, ht, hz, by
        simpa [controlWalk, RecvCall.unread] using hw⟩
    | other len known =>
      simp only [controlWalk, RecvCall.unread]
      split
      · obtain ⟨hs', t, happ, ht, hz, hw⟩ := ih (s := { s with
            lpos := if known then s.lpos + (HostCmsg.other len known).space else s.lpos }) hrest
          (hi.at _) (fun h => hzero (by split at h <;> simp only at h <;> omega))
        exact ⟨hs', t, by simpa [HostCmsg.fds] using happ, ht, hz, by simpa using hw⟩
      · exact ⟨hs, s, by simp [HostCmsg.fds], hi, hzero, .inl ⟨_, rfl, fun hnil hlost =>
          absurd (by simpa using hlost) (hlong hnil)⟩⟩
    | rights fds copyFails =>
      simp only [controlWalk, RecvCall.unread]
      split
      · refine ⟨hs, s, by simp [HostCmsg.fds], hi, hzero, .inl ⟨_, rfl, fun hnil hlost => ?_⟩⟩
        obtain ⟨hfds, hnil'⟩ := append_eq_nil_iff.mp hnil
        refine absurd ?_ (hlong hnil')
        obtain ⟨fds', hmem, hlt⟩ := hlost
        rcases mem_cons.mp hmem with heq | hmem
        · cases heq
          simp [HostCmsg.dataLen, hfds] at hlt
        · exact ⟨fds', hmem, hlt⟩
      split
      · have hdrop := hi.drop fds (fun _ hroomy => by
          have := hroomy.1
          rw [length_append] at this
          omega) []
        rw [append_nil] at hdrop
        exact ⟨hs ++ fds, _, by simp [HostCmsg.fds], hdrop, hzero, .inr rfl⟩
      split
      · rename_i hcopy
        have hcopy' : copyFails = true := hcopy.2
        subst hcopy'
        have hdrop := hi.drop fds (fun _ hroomy => hroomy.2.2
          ⟨fds, hl _ mem_cons_self, hcopy.1⟩) []
        rw [append_nil] at hdrop
        refine ⟨hs ++ fds, _, by simp [HostCmsg.fds], hdrop, hzero,
            .inl ⟨_, rfl, fun _ _ hnil => ?_⟩⟩
        have hlt := hcopy.1
        simp [HostCmsg.dataLen, (append_eq_nil_iff.mp hnil).1] at hlt
      · rename_i hcopy
        obtain ⟨hs', t, happ, ht, hz, hw⟩ := ih (s := { recvmsgInstallRights c.nofile fds s with
            lpos := s.lpos + (HostCmsg.rights fds copyFails).space }) hrest
          ((hi.rights fds).at _) (fun h => by simp [HostCmsg.space, cmsgLinuxHdrBytes] at h; omega)
        refine ⟨hs', t, by simpa [HostCmsg.fds] using happ, ht, hz, hw.imp_left ?_⟩
        rintro ⟨b, hw, hlost⟩
        refine ⟨b, hw, fun hnil ⟨fds', hmem, hlt⟩ => hlost hnil ?_⟩
        rcases mem_cons.mp hmem with heq | hmem
        · cases heq
          exact absurd ⟨hlt, rfl⟩ hcopy
        · exact ⟨fds', hmem, hlt⟩

/-- Retiring what was installed closes it and empties its slots. -/
lemma cleanup_served (hi : RecvServed c slot hs s) :
    (recvmsgCleanupScmRights s).slot = slot ∧
      ∀ h, h ∈ (recvmsgCleanupScmRights s).closed ↔ h ∈ hs := by
  have key : ∀ (l : List (ℕ × ℕ)) (t : RecvState), (l.map fst).Nodup →
      (∀ x ∈ l, slot x.1 = none ∧ t.slot x.1 = some x.2) →
      (∀ g, g ∉ l.map fst → t.slot g = slot g) →
      (l.foldl RecvState.fdRetirePublished t).slot = slot ∧
        ∀ h, h ∈ (l.foldl RecvState.fdRetirePublished t).closed ↔
          h ∈ t.closed ∨ h ∈ l.map snd := by
    intro l
    induction l with
    | nil => exact fun t _ _ hk => ⟨funext fun g => hk g (by simp), fun h => by simp⟩
    | cons x l ih =>
      intro t hnd hheld hkept
      obtain ⟨hx, hnd'⟩ := nodup_cons.mp hnd
      obtain ⟨hfree, hslot⟩ := hheld x mem_cons_self
      rw [foldl_cons, RecvState.fdRetirePublished, if_pos hslot]
      have hheld' : ∀ y ∈ l, slot y.1 = none ∧ update t.slot x.1 none y.1 = some y.2 := by
        intro y hy
        have hne : y.1 ≠ x.1 := fun heq => hx (heq ▸ mem_map_of_mem hy)
        obtain ⟨hy1, hy2⟩ := hheld y (mem_cons_of_mem _ hy)
        exact ⟨hy1, by simp [hne, hy2]⟩
      have hkept' : ∀ g, g ∉ l.map fst → update t.slot x.1 none g = slot g := by
        intro g hg
        by_cases hgx : g = x.1
        · simp [hgx, hfree]
        · simp [hgx, hkept g (by simpa [hgx] using hg)]
      obtain ⟨h1, h2⟩ := ih { t with slot := update t.slot x.1 none
                                     closed := x.2 :: t.closed } hnd' hheld' hkept'
      refine ⟨h1, fun h => (h2 h).trans ?_⟩
      simp [or_assoc, or_left_comm]
  obtain ⟨h1, h2⟩ := key s.scm s hi.nodup
    (fun x hx => ⟨(hi.held x hx).2.1, (hi.held x hx).2.2.1⟩) hi.kept
  exact ⟨h1, fun h => (h2 h).trans (by rw [← mem_append, hi.hosts.mem_iff])⟩

/-- A slot that holds a descriptor that was not there before is the one it was installed in. -/
lemma RecvServed.slot_mem (hi : RecvServed c slot hs s) {g h : ℕ} (hold : slot g ≠ some h)
    (hg : s.slot g = some h) : (g, h) ∈ s.scm := by
  by_cases hmem : g ∈ s.scm.map fst
  · obtain ⟨x, hx, rfl⟩ := mem_map.mp hmem
    rw [(hi.held x hx).2.2.1] at hg
    exact Option.some.inj hg ▸ hx
  · rw [hi.kept g hmem] at hg
    exact absurd hg hold

lemma RecvServed.accounted_cleanup (hi : RecvServed c slot c.received s) (hnew : c.Fresh slot)
    (hret : ret < 0) (b : Bool) :
    Accounted c.received slot ((recvmsgCleanupScmRights s).outcome ret b) := by
  obtain ⟨hslot, hclosed⟩ := cleanup_served hi
  refine ⟨fun h hh => .inl ⟨(hclosed h).mpr hh, fun g => ?_⟩, fun g => .inl ?_, fun hpos => ?_⟩
  · rw [RecvState.outcome, hslot]
    exact hnew.unused g h hh
  · rw [RecvState.outcome, hslot]
  · exact absurd hpos (by simpa [RecvState.outcome] using hret)

lemma RecvServed.accounted (hi : RecvServed c slot c.received s) (hnew : c.Fresh slot)
    (hret : 0 ≤ ret) (hb : s.closed ≠ [] → b = true) :
    Accounted c.received slot (s.outcome ret b) := by
  have hnd := nodup_append.mp (hi.hosts.nodup_iff.mpr hnew.nodup)
  have hscm : ∀ x ∈ s.scm, x.2 ∈ c.received := fun x hx =>
    hi.hosts.mem_iff.mp (mem_append_right _ (mem_map_of_mem hx))
  refine ⟨fun h hh => ?_, fun g => ?_, fun _ ⟨h, _, hclosed⟩ => hb (ne_nil_of_mem hclosed)⟩
  · rcases mem_append.mp (hi.hosts.mem_iff.mpr hh) with hclosed | hin
    · refine .inl ⟨hclosed, fun g hg => ?_⟩
      exact hnd.2.2 h hclosed h (mem_map_of_mem (hi.slot_mem (hnew.unused g h hh) hg)) rfl
    · refine .inr ⟨fun hclosed => hnd.2.2 h hclosed h hin rfl, hret, ?_⟩
      obtain ⟨x, hx, rfl⟩ := mem_map.mp hin
      obtain ⟨-, h1, h2, h3⟩ := hi.held x hx
      refine ⟨x.1, h1, h2, h3, fun g' hg' => ?_⟩
      have hmem := hi.slot_mem (hnew.unused g' x.2 hh) hg'
      exact congrArg fst (inj_on_of_nodup_map hnd.2.1 hmem hx rfl)
  · by_cases hmem : g ∈ s.scm.map fst
    · obtain ⟨x, hx, rfl⟩ := mem_map.mp hmem
      obtain ⟨-, h1, h2, -⟩ := hi.held x hx
      exact .inr ⟨h1, hret, x.2, hscm x hx, h2⟩
    · exact .inl (hi.kept g hmem)

/-- A descriptor that was not dealt with is not accounted for. -/
lemma RecvServed.not_handled (hi : RecvServed c slot hs s) (hold : ∀ g, slot g ≠ some h)
    (hout : h ∉ hs) {o : RecvOutcome}
    (ho : (∃ ret b, o = s.outcome ret b) ∨ ∃ ret b, o = (recvmsgCleanupScmRights s).outcome ret b) :
    h ∉ o.closed ∧ ∀ g, o.slot g ≠ some h := by
  have hsplit : h ∉ s.closed ∧ h ∉ s.scm.map snd := by
    rwa [← not_or, ← mem_append, hi.hosts.mem_iff]
  rcases ho with ⟨ret, b, rfl⟩ | ⟨ret, b, rfl⟩
  · exact ⟨hsplit.1, fun g hg => hsplit.2 (mem_map_of_mem (hi.slot_mem (hold g) hg))⟩
  · obtain ⟨hslot, hclosed⟩ := cleanup_served hi
    exact ⟨fun hin => hout ((hclosed h).mp hin), fun g hg => hold g (hslot ▸ hg)⟩

lemma recvmsgCleanup_nil (h : s.scm = []) : recvmsgCleanupScmRights s = s := by
  rw [recvmsgCleanupScmRights, h]
  rfl

/-- How a call ends that has got to the control data, or has none to deal with. -/
def RecvEnds (c : RecvCall) (slot : ℕ → Option ℕ) (t : RecvState) : Prop :=
  (∃ b, sysRecvmsg c slot = t.outcome c.got b ∧
    (c.unread 0 c.msgs = [] → c.CopyLost → t.closed ≠ [])) ∨
  ∃ ret, ret < 0 ∧ sysRecvmsg c slot = (recvmsgCleanupScmRights t).outcome ret false

/-- The control data is written, or the call fails with everything retired. -/
lemma recvmsgWriteControl_served (slot : ℕ → Option ℕ)
    (hheap : c.received ≠ [] → ¬ (512 < c.ctlLen ∧ c.heapFails)) :
    ∃ hs t, c.received = hs ++ c.unread 0 c.msgs ∧ RecvServed c slot hs t ∧
      ((∃ b, recvmsgWriteControl c ⟨slot, [], [], 0, []⟩ = (none, b, t) ∧
          (c.unread 0 c.msgs = [] → c.CopyLost → t.closed ≠ [])) ∨
        ∃ err b, err < 0 ∧ recvmsgWriteControl c ⟨slot, [], [], 0, []⟩ =
          (some err, b, recvmsgCleanupScmRights t)) := by
  obtain ⟨hs, t, happ, ht, hz, hw⟩ :=
    controlWalk_served (c := c) (l := c.msgs) (fun m hm => hm) (.start slot)
      (fun _ => rfl)
  rw [nil_append] at happ
  unfold recvmsgWriteControl
  by_cases hnil : c.msgs = []
  · refine ⟨[], ⟨slot, [], [], 0, []⟩, by simp [RecvCall.received, hnil, RecvCall.unread],
      .start slot, ?_⟩
    rw [if_pos hnil]
    split
    · exact .inr ⟨-linuxEfault, _, by decide, rfl⟩
    · exact .inl ⟨_, rfl, fun _ ⟨_, hmem, _⟩ => by simp [hnil] at hmem⟩
  rw [if_neg hnil]
  by_cases hfail : 512 < c.ctlLen ∧ c.heapFails
  · have hrec : c.received = [] := by_contra fun hne => hheap hne hfail
    refine ⟨[], ⟨slot, [], [], 0, []⟩, ?_, .start slot, .inr ⟨-linuxEnomem, false, by decide, ?_⟩⟩
    · rw [hrec]
      exact (append_eq_nil_iff.mp (happ.symm.trans hrec)).2.symm
    · rw [if_pos hfail]
      rfl
  rw [if_neg hfail]
  refine ⟨hs, t, happ, ht, ?_⟩
  rcases hw with ⟨b, hw, hlost⟩ | hw
  · simp only [hw]
    by_cases hfull : t.lpos + (if c.passcred ∧ t.lpos + scmCredCmsgSpace ≤ c.ctlLen then
        scmCredCmsgSpace else 0) = 0
    · -- an empty buffer carries no descriptors, so there is nothing to retire
      rw [if_pos hfull]
      split
      · exact .inr ⟨-linuxEfault, _, by decide, by
          rw [recvmsgCleanup_nil (hz (by omega))]⟩
      · exact .inl ⟨_, rfl, hlost⟩
    · rw [if_neg hfull]
      split
      · exact .inr ⟨-linuxEfault, _, by decide, rfl⟩
      · exact .inl ⟨_, rfl, hlost⟩
  · simp only [hw]
    exact .inr ⟨_, _, by decide, rfl⟩

lemma sysRecvmsg_served (slot : ℕ → Option ℕ) (hname : c.received ≠ [] → c.nameFault = false)
    (hheap : c.received ≠ [] → ¬ (512 < c.ctlLen ∧ c.heapFails)) :
    ∃ hs t, c.received = hs ++ c.unread 0 c.msgs ∧ RecvServed c slot hs t ∧ RecvEnds c slot t := by
  obtain ⟨hs, t, happ, ht, hw⟩ := recvmsgWriteControl_served slot hheap
  by_cases hf : c.nameFault = true
  · have hrec : c.received = [] := by_contra fun hne => by simp [hname hne] at hf
    refine ⟨[], ⟨slot, [], [], 0, []⟩, ?_, .start slot, .inr ⟨-linuxEfault, by decide, ?_⟩⟩
    · rw [hrec]
      exact (append_eq_nil_iff.mp (happ.symm.trans hrec)).2.symm
    · rw [sysRecvmsg, if_pos hf]
      rfl
  refine ⟨hs, t, happ, ht, ?_⟩
  unfold RecvEnds
  rcases hw with ⟨b, hw, hlost⟩ | ⟨err, b, herr, hw⟩
  · simp only [sysRecvmsg, if_neg hf, hw]
    split
    · exact .inr ⟨_, by decide, rfl⟩
    · exact .inl ⟨_, rfl, hlost⟩
  · simp only [sysRecvmsg, if_neg hf, hw]
    exact .inr ⟨err, herr, rfl⟩

/-- A call that leaves everything as it was accounts for nothing. -/
lemma received_nil_of_untouched (hnew : c.Fresh slot) (ret : ℤ) (b : Bool)
    (ha : Accounted c.received slot (RecvState.outcome ⟨slot, [], [], 0, []⟩ ret b)) :
    c.received = [] := by
  refine eq_nil_iff_forall_not_mem.mpr fun h hh => ?_
  rcases ha.handled h hh with ⟨hin, -⟩ | ⟨-, -, g, -, hg, -⟩
  · cases hin
  · exact hnew.unused g h hh hg

end

def recvTwo (ctlLen : ℕ) (msgs : List HostCmsg) (h : ctlLen ≠ 0) : RecvCall :=
  { ctlLen, nameFault := false, ctlFault := false, ctlLenFault := false, flagsFault := false,
    heapFails := false, passcred := false, nofile := 4, got := 1, hostTrunc := false, msgs,
    unasked := fun h0 => absurd h0 h }

end Elfuse
