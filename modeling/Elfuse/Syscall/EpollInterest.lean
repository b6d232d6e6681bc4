/-
The interest lists of epoll instances (`syscall/poll.c`, `syscall/fdtable.c`).

An instance keeps its registrations in a table by guest descriptor. Closing a
descriptor drops its registrations through a hook, unless another descriptor of
the same description is open, and `epoll_ctl` drops a registration that was made
for an earlier generation of the slot. The system here is the descriptor table
with the instances its slots name; a label is a call together with its answer.

The abstract system has for each instance a list of entries, one for a
descriptor and its description, which go when the last descriptor of the
description is closed.

* `epoll_refines_interest` — the calls of a run get the answers of the abstract
  list, and the counters are those of the table, if no slot is retired that is
  registered under its number while another slot has its description;
* `epoll_forgets_alias` — otherwise an entry can be forgotten.
-/
import Elfuse.Syscall.EpollWait
import Elfuse.Syscall.FdTableRuns
import Mathlib.Algebra.BigOperators.Group.Finset.Piecewise
import Mathlib.Algebra.Order.BigOperators.Group.Finset

namespace Elfuse

open Function Runs List EpollInst

/-! ### The close hook -/

def hasAlias (entry : ℕ → FdEntry) (fd ofdId : ℕ) : Bool :=
  (List.range fdTableSize).any fun n =>
    n ≠ fd && (entry n).type ≠ .closed && (entry n).ofdId = ofdId

/-- Model of `epoll_note_fd_closed`. Instances are numbered; a slot names its own in `dir`. -/
def epollNoteFdClosed (entry : ℕ → FdEntry) (closedFd closedOfdId : ℕ) (insts : ℕ → EpollInst) :
    ℕ → EpollInst :=
  if closedOfdId ≠ 0 ∧ hasAlias entry closedFd closedOfdId then insts
  else (List.range fdTableSize).foldl (fun insts epfd =>
    if (entry epfd).type = .epoll then
      match (entry epfd).dir with
      | some i => update insts i ((insts i).deactivate closedFd)
      | none => insts
    else insts) insts

/-! ### Calls on the descriptor table -/

def fdSnapshot (t : FdTable) (fd : ℤ) : Option FdEntry :=
  if 0 ≤ fd ∧ fd < fdTableSize then (fdSnapshotLocked t fd.toNat false).1 else none

inductive TabCall
  /-- A new description in the lowest free slot. -/
  | fresh (minfd : ℤ) (a : FdInstall)
  /-- `dup`, `dup2`, `dup3` and `F_DUPFD`. -/
  | dup (src fixed minfd : ℤ) (single : Bool) (a : FdInstall) (flags : BitVec 32)
  | close (fd : ℤ)

/-- What a call does to the table; a slot it retires comes with the table that the hook sees. -/
structure TabMove where
  tab : FdTable
  hook : Option (ℕ × (ℕ → FdEntry))

/-- An allocation that may replace what a fixed slot holds runs the hook before it. -/
def overMove (t : FdTable) (fixed : ℤ) (r : FdResult × Option FdEntry × FdTable) : TabMove :=
  ⟨r.2.2, r.2.1.map fun _ => (fixed.toNat, t.entry)⟩

def TabCall.move (t : FdTable) : TabCall → Option TabMove
  | .fresh minfd a =>
    if a.type = .closed ∨ a.type = .epoll then none else some ⟨(fdAllocFrom t minfd a).2, none⟩
  | .dup src fixed minfd single a flags =>
    match fdSnapshot t src with
    | none => none
    | some e =>
      if fixed = src then none
      else if e.type = .epoll then
        some (overMove t fixed (fdAllocAliasDir t (some (fdAliasIdentity e.ofdId 0)) fixed minfd
          { a with type := .epoll } e.dir flags))
      else
        some (overMove t fixed (fdAllocAliasRelaxed t (some (fdAliasOf src e)) single fixed minfd
          { a with type := e.type }))
  | .close fd =>
    let r := fdSnapshotAndClose t fd
    some ⟨r.2, r.1.map fun _ => (fd.toNat, r.2.entry)⟩

/-! ### The system -/

/-- The calls with their answers. A wait is made of its passes; other calls may come between them.
The contents of an instance's queue are the host's and are part of the label. -/
inductive EpollLabel
  | tab (c : TabCall)
  | create (a : FdInstall) (flags : BitVec 32)
  | ctl (epfd : ℤ) (op : EpollOp) (fd : ℤ) (event : Option (BitVec 32 × ℕ))
      (epRef : Except HostErrno ℤ) (host : EpollHost) (kq : Kqueue) (ans : ℤ)
  | pass (epfd : ℤ) (c : EpollCall) (w : EpollWait) (p : EpollPass) (kq : Kqueue)
      (out : List OutEntry)

structure EpollSys where
  tab : FdTable
  insts : ℕ → EpollInst
  next : ℕ

def epollInstOf (t : FdTable) (epfd : ℤ) : Option ℕ :=
  match fdSnapshot t epfd with
  | some e => if e.type = .epoll then e.dir else none
  | none => none

def ArmAnswer.taken (capable : Bool) : ArmAnswer → Bool
  | .accepted => true
  | .refused => capable
  | .failed _ => false

def ArmAnswer.isRefused : ArmAnswer → Bool
  | .refused => true
  | _ => false

/-- The host knows which descriptions can be polled, and takes every filter for those. -/
def EpollHost.fits (host : EpollHost) (pollable : Bool) (events : BitVec 32) (fd : ℕ)
    (snap : FdEntry) : Bool :=
  epollTargetSupported snap host host.probe = pollable &&
  if pollable then
    (host.arm .read).taken snap.pathPollCapable && (host.arm .write).taken snap.pathPollCapable &&
      (host.probe || epollBuildChanges events fd snap ≠ [])
  else (host.arm .read).isRefused && (host.arm .write).isRefused

def passOut : EpollWait ⊕ EpollResult → List OutEntry
  | .inl _ => []
  | .inr res => res.out

section
variable (pollable : ℕ → Bool)

/-- One call. `pollable` says which descriptions the host can poll. -/
def epollSysNext (s : EpollSys) : EpollLabel → Option EpollSys
  | .tab c => (c.move s.tab).map fun m =>
    { s with
      tab := m.tab
      insts := match m.hook with
        | none => s.insts
        | some (fd, entry) => epollNoteFdClosed entry fd (s.tab.entry fd).ofdId s.insts }
  | .create a flags =>
    some { tab := (fdAllocDir s.tab { a with type := .epoll } (some s.next) flags).2
           insts := update s.insts s.next .new
           next := s.next + 1 }
  | .ctl epfd op fd event epRef host kq ans =>
    let snap := fdSnapshot s.tab fd
    let fits := snap.all fun e =>
      host.fits (pollable e.ofdId) (event.getD (0, 0)).1 fd.toNat e
    let r := epollCtl epfd op fd event epRef snap host ((epollInstOf s.tab epfd).map s.insts) kq
    if fits && r.1 = ans then
      some { s with
        insts := match epollInstOf s.tab epfd, r.2.1 with
          | some i, some inst => update s.insts i inst
          | _, _ => s.insts }
    else none
  | .pass epfd c w p kq out =>
    match epollInstOf s.tab epfd with
    | none => none
    | some i =>
      let r := epollPass c w p (s.insts i) kq
      if passOut r.1 = out then some { s with insts := update s.insts i r.2.1 } else none

/-! ### The abstract list -/

/-- An instance's entries: for a descriptor and its description the mask and the data. -/
abbrev Interest := ℕ × ℕ → Option (BitVec 32 × ℕ)

/-- `epoll_ctl` on the list: the answer and the list. -/
def Interest.ctl (l : Interest) (op : EpollOp) (k : ℕ × ℕ) (v : BitVec 32 × ℕ) : ℤ × Interest :=
  match op, l k with
  | .add, none => (0, update l k (some v))
  | .add, some _ => (-linuxEexist, l)
  | .mod, some _ => (0, update l k (some v))
  | .del, some _ => (0, update l k none)
  | _, none => (-linuxEnoent, l)
  | .unknown, some _ => (-linuxEinval, l)

/-- The entries of a description go when its last descriptor is closed. -/
def Interest.retire (l : Interest) (t : FdTable) (fd : ℕ) : Interest := fun k =>
  if k.2 = (t.entry fd).ofdId ∧ hasAlias t.entry fd (t.entry fd).ofdId = false then none else l k

structure InterestSys where
  tab : FdTable
  list : ℕ → Interest
  next : ℕ

/-- The instance and the target of a call that gets as far as the list. -/
def ctlTarget (t : FdTable) (epfd : ℤ) (op : EpollOp) (fd : ℤ) (event : Option (BitVec 32 × ℕ))
    (epRef : Except HostErrno ℤ) : Option (ℕ × FdEntry) :=
  if op = .unknown ∨ op ≠ .del ∧ event = none ∨ fd = epfd then none
  else match epRef, fdSnapshot t fd, epollInstOf t epfd with
    | .ok _, some snap, some i => if pollable snap.ofdId then some (i, snap) else none
    | _, _, _ => none

open Classical in
noncomputable def interestNext (a : InterestSys) : EpollLabel → Option InterestSys
  | .tab c => (c.move a.tab).map fun m =>
    { a with
      tab := m.tab
      list := match m.hook with
        | none => a.list
        | some (fd, _) => fun i => (a.list i).retire a.tab fd }
  | .create b flags =>
    some { tab := (fdAllocDir a.tab { b with type := .epoll } (some a.next) flags).2
           list := update a.list a.next fun _ => none
           next := a.next + 1 }
  | .ctl epfd op fd event epRef _ _ ans =>
    match ctlTarget pollable a.tab epfd op fd event epRef with
    | none => if ans < 0 then some a else none
    | some (i, snap) =>
      let r := (a.list i).ctl op (fd.toNat, snap.ofdId) (event.getD (0, 0))
      if ans = r.1 then some { a with list := update a.list i r.2 } else none
  | .pass epfd _ _ _ _ out =>
    match epollInstOf a.tab epfd with
    | none => none
    | some i =>
      if ∀ b ∈ out, ∃ o v, a.list i (b.gfd, o) = some (v, b.data) then some a else none

end

/-! ### Instances under the hook -/

def Names (entry : ℕ → FdEntry) (i : ℕ) : Prop :=
  ∃ n < fdTableSize, (entry n).type = .epoll ∧ (entry n).dir = some i

lemma deactivate_regs (inst : EpollInst) (fd : ℕ) : (inst.deactivate fd).regs fd =
      { inst.regs fd with
        active := false, oneshotArmed := false, ptyMaster := false, alwaysReadable := false
        usbdev := false, generation := 0, ofdId := 0 } := update_self ..

variable {inst : EpollInst} {fd n : ℕ}

lemma deactivate_other (h : g ≠ fd) : (inst.deactivate fd).regs g = inst.regs g := update_of_ne h ..

lemma deactivate_idem (inst : EpollInst) (fd : ℕ) :
    (inst.deactivate fd).deactivate fd = inst.deactivate fd := by
  have hclear : ∀ inst' : EpollInst, inst'.regs fd = { inst.regs fd with
        active := false, oneshotArmed := false, ptyMaster := false, alwaysReadable := false
        usbdev := false, generation := 0, ofdId := 0 } → inst'.deactivate fd = inst' := by
    intro inst' h
    have hregs := update_eq_self fd inst'.regs
    rw [h] at hregs
    unfold deactivate
    rw [h]
    dsimp only
    rw [hregs, if_neg Bool.false_ne_true, if_neg Bool.false_ne_true, if_neg Bool.false_ne_true]
  exact hclear _ (deactivate_regs inst fd)

/-- One round of the loop of `epoll_note_fd_closed`. -/
def noteRound (entry : ℕ → FdEntry) (fd : ℕ) (insts : ℕ → EpollInst) (epfd : ℕ) : ℕ → EpollInst :=
  if (entry epfd).type = .epoll then
    match (entry epfd).dir with
    | some i => update insts i ((insts i).deactivate fd)
    | none => insts
  else insts

lemma noteLoop_inst (entry : ℕ → FdEntry) (fd i : ℕ) (ns : List ℕ) (insts : ℕ → EpollInst) :
    ns.foldl (noteRound entry fd) insts i = insts i ∧
      (∀ n ∈ ns, ¬ ((entry n).type = .epoll ∧ (entry n).dir = some i)) ∨
    ns.foldl (noteRound entry fd) insts i = (insts i).deactivate fd ∧
      ∃ n ∈ ns, (entry n).type = .epoll ∧ (entry n).dir = some i := by
  induction ns generalizing insts with
  | nil => exact .inl ⟨rfl, nofun⟩
  | cons n ns ih =>
    rw [foldl_cons]
    by_cases hn : (entry n).type = .epoll ∧ (entry n).dir = some i
    · refine .inr ⟨?_, n, mem_cons_self, hn⟩
      rw [noteRound, if_pos hn.1, hn.2]
      obtain ⟨h, -⟩ | ⟨h, -⟩ := ih (update insts i ((insts i).deactivate fd))
      · rw [h, update_self]
      · rw [h, update_self, deactivate_idem]
    have hsame : noteRound entry fd insts n i = insts i := by
      unfold noteRound
      split
      · rename_i htype
        cases hdir : (entry n).dir with
        | none => rfl
        | some j =>
          refine update_of_ne (fun hij => hn ⟨htype, ?_⟩) ..
          rw [hdir, hij]
      · rfl
    obtain ⟨h, hno⟩ | ⟨h, m, hm, hname⟩ := ih (noteRound entry fd insts n)
    · exact .inl ⟨h.trans hsame, forall_mem_cons.mpr ⟨hn, hno⟩⟩
    · exact .inr ⟨by rw [h, hsame], m, mem_cons_of_mem n hm, hname⟩

lemma noteFdClosed_cases (entry : ℕ → FdEntry) (fd ofdId : ℕ) (insts : ℕ → EpollInst) (i : ℕ) :
    epollNoteFdClosed entry fd ofdId insts i = insts i ∧
      (hasAlias entry fd ofdId ∨ ¬ Names entry i) ∨
    epollNoteFdClosed entry fd ofdId insts i = (insts i).deactivate fd ∧
      (ofdId = 0 ∨ hasAlias entry fd ofdId = false) ∧ Names entry i := by
  unfold epollNoteFdClosed
  split
  · grind
  obtain ⟨h, hno⟩ | ⟨h, n, hn, hname⟩ := noteLoop_inst entry fd i (range fdTableSize) insts
  · refine .inl ⟨h, .inr ?_⟩
    rintro ⟨n, hn, hname⟩
    exact hno n (mem_range.mpr hn) hname
  · refine .inr ⟨h, ?_, n, mem_range.mp hn, hname⟩
    grind

/-! ### The counters -/

/-- The number of registrations with a property. -/
def tally (q : EpollReg → Bool) (regs : ℕ → EpollReg) : ℕ :=
  ∑ fd ∈ Finset.range fdTableSize, (q (regs fd)).toNat

lemma tally_update (q : EpollReg → Bool) (regs : ℕ → EpollReg) (hfd : fd < fdTableSize)
    (r : EpollReg) :
    tally q (update regs fd r) + (q (regs fd)).toNat = tally q regs + (q r).toNat := by
  have hnew : (fun n => (q (update regs fd r n)).toNat) =
      update (fun n => (q (regs n)).toNat) fd (q r).toNat :=
    funext (apply_update (fun _ r => (q r).toNat) regs fd r)
  grind [Finset.sum_update_of_mem, Finset.sum_eq_add_sum_sdiff_singleton_of_mem, tally]

structure EpollCounts (inst : EpollInst) : Prop where
  active : inst.activeCount = tally EpollReg.active inst.regs
  pty : inst.ptyMasterCount = tally EpollReg.ptyMaster inst.regs
  always : inst.alwaysReadableCount = tally EpollReg.alwaysReadable inst.regs

lemma counts_new : EpollCounts .new := by
  have hzero : ∀ q : EpollReg → Bool, q ⟨0, 0, 0, 0, false, false, false, false, false⟩ = false →
      tally q new.regs = 0 := by
    intro q hq
    refine Finset.sum_eq_zero fun fd _ => ?_
    show (q ⟨0, 0, 0, 0, false, false, false, false, false⟩).toNat = 0
    rw [hq]
    rfl
  exact ⟨(hzero _ rfl).symm, (hzero _ rfl).symm, (hzero _ rfl).symm⟩

lemma toNat_le_tally (q : EpollReg → Bool) (regs : ℕ → EpollReg) (hfd : fd < fdTableSize) :
    (q (regs fd)).toNat ≤ tally q regs :=
  Finset.single_le_sum (f := fun n => (q (regs n)).toNat) (fun _ _ => Nat.zero_le _)
    (Finset.mem_range.mpr hfd)

lemma count_step {q : EpollReg → Bool} {regs : ℕ → EpollReg} (hfd : fd < fdTableSize)
    (hn : n = tally q regs) (r : EpollReg) :
    (if q r && !q (regs fd) then n + 1 else if !q r && q (regs fd) then n - 1 else n) =
      tally q (update regs fd r) := by
  have hupd := tally_update q regs hfd r
  cases hr : q r with
  | false | true =>
    cases hold : q (regs fd) with
    | false | true =>
      grind

lemma EpollCounts.deactivate (h : EpollCounts inst) (hfd : fd < fdTableSize) :
    EpollCounts (inst.deactivate fd) := by
  refine ⟨?_, ?_, ?_⟩
  · refine Eq.trans ?_ (count_step hfd h.active _)
    rfl
  · refine Eq.trans ?_ (count_step hfd h.pty _)
    rfl
  · refine Eq.trans ?_ (count_step hfd h.always _)
    rfl

lemma EpollCounts.store (h : EpollCounts inst) (hfd : fd < fdTableSize) (events : BitVec 32)
    (data : ℕ) (snap : FdEntry) (pty refused : Bool) :
    EpollCounts (epollStoreReg inst fd events data snap pty refused) := by
  refine ⟨?_, ?_, ?_⟩
  · refine Eq.trans ?_ (count_step hfd h.active _)
    show (if (inst.regs fd).active = true then _ else _) = _
    grind
  · refine Eq.trans ?_ (count_step hfd h.pty _)
    rfl
  · refine Eq.trans ?_ (count_step hfd h.always _)
    rfl

lemma EpollCounts.mark (h : EpollCounts inst) (o : List OutEntry) :
    EpollCounts (epollMarkOneshot inst o) := by
  have hsame : ∀ q : EpollReg → Bool, (∀ r : EpollReg, q { r with oneshotArmed := true } = q r) →
      tally q (epollMarkOneshot inst o).regs = tally q inst.regs := by
    intro q hq
    refine Finset.sum_congr rfl fun fd _ => ?_
    unfold epollMarkOneshot
    dsimp only
    split
    · rw [hq]
    · rfl
  exact ⟨h.active.trans (hsame _ fun _ => rfl).symm, h.pty.trans (hsame _ fun _ => rfl).symm,
    h.always.trans (hsame _ fun _ => rfl).symm⟩

/-! ### What a call does to the table -/

variable {t : FdTable} {type : FdType} {inh : Option FdAliasSpec}

/-- What an allocation at a fixed slot says about the entry it replaces. -/
def RetiresOnly (t : FdTable) (fixed : ℤ) (r : FdResult × Option FdEntry × FdTable) : Prop :=
  (∃ e, r.1 = .error e) ∧ r.2.1 = none ∨ r.1 = .ok fixed.toNat ∧ r.2.1 = t.occupant fixed.toNat

lemma fdAllocAt_retires (t : FdTable) (fixed : ℤ) (a : FdInstall) :
    RetiresOnly t fixed (fdAllocAt t fixed a) := by
  unfold fdAllocAt
  split
  · obtain ⟨h, hp⟩ := fdProbeHost_hostFlags t a.type a.hostFd a.answers
    refine .inr ⟨rfl, ?_⟩
    dsimp only
    rw [hp]
    rfl
  · exact .inl ⟨⟨_, rfl⟩, rfl⟩

lemma fdAllocDirAt_retires (t : FdTable) (fixed : ℤ) (a : FdInstall) (dir : Option ℕ)
    (flags : BitVec 32) : RetiresOnly t fixed (fdAllocDirAt t fixed a dir flags) := by
  have h := fdAllocAt_retires t fixed a
  unfold fdAllocDirAt
  dsimp only
  obtain ⟨⟨e, he⟩, hnone⟩ | ⟨hok, hocc⟩ := h
  · rw [he]
    exact .inl ⟨⟨e, rfl⟩, hnone⟩
  · rw [hok]
    exact .inr ⟨rfl, hocc⟩

lemma fdAllocAtRelaxed_retires (t : FdTable) (single : Bool) (fixed : ℤ) (a : FdInstall) :
    RetiresOnly t fixed (fdAllocAtRelaxed t single fixed a) := by
  unfold fdAllocAtRelaxed
  split
  · exact .inl ⟨⟨_, rfl⟩, rfl⟩
  split
  · exact fdAllocAt_retires t fixed a
  rename_i hno
  refine .inr ⟨rfl, ?_⟩
  rw [not_or, not_not] at hno
  unfold FdTable.occupant
  rw [if_neg fun hc => hc hno.2]

/-- All that a call can do: nothing, fill a slot, or close one. A slot that is filled was closed,
or the hook has run for it. -/
inductive MoveSpec (t : FdTable) (m : TabMove) : Prop
  | kept (hk : FdKept t m.tab) (hhook : m.hook = none)
  | fills (fd : ℕ) (inh : Option FdAliasSpec) (type : FdType) (hf : FdFilled t inh type fd m.tab)
      (htype : type ≠ .closed)
      (hname : type = .epoll → ∃ n < fdTableSize, (t.entry n).type = .epoll ∧
        (m.tab.entry fd).dir = (t.entry n).dir)
      (hhook : (t.entry fd).type = .closed ∧ m.hook = none ∨
        (t.entry fd).type ≠ .closed ∧ m.hook = some (fd, t.entry))
  | shuts (fd : ℕ) (hs : FdShut t fd m.tab) (hopen : (t.entry fd).type ≠ .closed)
      (hhook : m.hook = some (fd, m.tab.entry))

variable {m : TabMove} {e : FdEntry} {c : TabCall}

lemma FdLowest.closed (h : FdBits t) {r : FdResult} (hl : FdLowest t inh type minfd r t') :
    (∃ fd, r = .ok fd ∧ FdFilled t inh type fd t' ∧ (t.entry fd).type = .closed) ∨ FdKept t t' := by
  obtain ⟨fd, hr, hleast, -, hf⟩ | ⟨-, -, hk⟩ := hl
  · have hfree := hleast.1
    exact .inl ⟨fd, hr, hf, (h.agrees fd hfree.2.1).mp hfree.2.2⟩
  · exact .inr hk

/-- An alias by `dup`: what the allocation does, and the slot it retires. -/
lemma overMove_spec (h : FdBits t) {r : FdResult × Option FdEntry × FdTable}
    (hout : (if 0 ≤ fixed then FdTarget.fixed fixed else .lowest minfd).Outcome t inh type r.1
        r.2.2)
    (hret : 0 ≤ fixed → RetiresOnly t fixed r) (hnone : ¬ 0 ≤ fixed → r.2.1 = none)
    (htype : type ≠ .closed) (hname : type = .epoll → ∃ n < fdTableSize, (t.entry n).type = .epoll ∧
      ∀ fd, r.1 = .ok fd → (r.2.2.entry fd).dir = (t.entry n).dir) :
    MoveSpec t (overMove t fixed r) := by
  by_cases hfix : 0 ≤ fixed
  · rw [if_pos hfix] at hout
    obtain ⟨fd, hr, hf⟩ | ⟨hr, hk⟩ := hout
    · obtain ⟨⟨e, he⟩, -⟩ | ⟨hok, hocc⟩ := hret hfix
      · rw [he] at hr
        cases hr
      rw [hok] at hr
      cases hr
      refine .fills fixed.toNat inh type hf htype (fun he => ?_) ?_
      · obtain ⟨n, hn, htn, hdir⟩ := hname he
        exact ⟨n, hn, htn, hdir _ hok⟩
      · unfold overMove
        grind [FdTable.occupant]
    · obtain ⟨-, hno⟩ | ⟨hok, -⟩ := hret hfix
      · refine .kept hk ?_
        unfold overMove
        rw [hno]
        rfl
      · rw [hok] at hr
        cases hr
  · rw [if_neg hfix] at hout
    have hhook : (overMove t fixed r).hook = none := by
      unfold overMove
      rw [hnone hfix]
      rfl
    obtain ⟨fd, hr, hf, hclosed⟩ | hk := FdLowest.closed h hout
    · refine .fills fd inh type hf htype (fun he => ?_) (.inl ⟨hclosed, hhook⟩)
      obtain ⟨n, hn, htn, hdir⟩ := hname he
      exact ⟨n, hn, htn, hdir fd hr⟩
    · exact .kept hk hhook

lemma fdPublishDir_dir (t : FdTable) (fd : ℕ) (dir : Option ℕ) (flags : BitVec 32) :
    ((fdPublishDir t fd dir flags).entry fd).dir = dir := by
  unfold fdPublishDir
  dsimp only
  rw [update_self]

lemma fdAllocDirFrom_dir (h : (fdAllocDirFrom t minfd a dir flags).1 = .ok fd) :
    ((fdAllocDirFrom t minfd a dir flags).2.entry fd).dir = dir := by
  unfold fdAllocDirFrom at h ⊢
  dsimp only at h ⊢
  split
  · rename_i n hn
    rw [hn] at h
    cases h
    exact fdPublishDir_dir ..
  · rename_i e he
    rw [he] at h
    cases h

lemma fdAllocAliasDir_dir {spec : Option FdAliasSpec} {a : FdInstall}
    (h : (fdAllocAliasDir t spec fixed minfd a dir flags).1 = .ok fd) :
    ((fdAllocAliasDir t spec fixed minfd a dir flags).2.2.entry fd).dir = dir := by
  unfold fdAllocAliasDir at h ⊢
  by_cases hfix : 0 ≤ fixed
  · rw [if_pos hfix] at h ⊢
    unfold fdAllocDirAt at h ⊢
    dsimp only at h ⊢
    cases hr : (fdAllocAt (fdAliasBegin t spec) fixed a).1 with
    | ok n =>
      rw [hr] at h
      cases h
      exact fdPublishDir_dir ..
    | error e =>
      rw [hr] at h
      cases h
  · rw [if_neg hfix] at h ⊢
    exact fdAllocDirFrom_dir h

lemma fdSnapshot_some {fd : ℤ} (h : fdSnapshot t fd = some e) :
    0 ≤ fd ∧ fd.toNat < fdTableSize ∧ e = t.entry fd.toNat ∧ e.type ≠ .closed := by
  unfold fdSnapshot at h
  obtain ⟨-, h⟩ := guarded h
  grind [fdSnapshotLocked]

lemma TabCall.move_spec (h : FdBits t) (hm : c.move t = some m) : MoveSpec t m := by
  cases c with
  | fresh minfd a =>
    rw [TabCall.move] at hm
    split at hm
    · cases hm
    rename_i hno
    cases hm
    obtain ⟨hclosed, hepoll⟩ := not_or.mp hno
    have hl := fdAllocFrom_lowest t minfd a
    obtain ⟨fd, -, hf, hfree⟩ | hk := FdLowest.closed h hl
    · exact .fills fd _ _ hf hclosed (fun he => absurd he hepoll) (.inl ⟨hfree, rfl⟩)
    · exact .kept hk rfl
  | dup src fixed minfd single a flags =>
    rw [TabCall.move] at hm
    split at hm
    · cases hm
    rename_i e he
    obtain ⟨-, hlt, rfl, hopen⟩ := fdSnapshot_some he
    split at hm
    · cases hm
    split at hm
    · rename_i hepoll
      cases hm
      refine overMove_spec h (fdAllocAliasDir_outcome t _ fixed minfd _ _ _) ?_ ?_ ?_ ?_
      · intro hfix
        have hret := fdAllocDirAt_retires (fdAliasBegin t (some (fdAliasIdentity
          (t.entry src.toNat).ofdId 0))) fixed { a with type := .epoll } (t.entry src.toNat).dir
              flags
        unfold fdAllocAliasDir
        rw [if_pos hfix]
        exact hret
      · grind [fdAllocAliasDir]
      · exact nofun
      · exact fun _ => ⟨src.toNat, hlt, hepoll, fun fd hok => fdAllocAliasDir_dir hok⟩
    rename_i hepoll
    cases hm
    refine overMove_spec h (fdAllocAliasRelaxed_outcome t _ single fixed minfd _) ?_ ?_ ?_ ?_
    · intro hfix
      have hret := fdAllocAtRelaxed_retires (fdAliasBegin t (some (fdAliasOf src
        (t.entry src.toNat)))) single fixed { a with type := (t.entry src.toNat).type }
      unfold fdAllocAliasRelaxed
      rw [if_pos hfix]
      exact hret
    · grind [fdAllocAliasRelaxed]
    · exact hopen
    · exact fun hc => absurd hc hepoll
  | close fd =>
    rw [TabCall.move] at hm
    cases hm
    unfold fdSnapshotAndClose
    split
    · unfold fdSnapshotLocked
      split
      · exact .kept (FdKept.refl t) rfl
      · rename_i hopen
        exact .shuts fd.toNat (fdMarkClosedUnlocked_shut t (by omega)) hopen rfl
    · exact .kept (FdKept.refl t) rfl

/-! ### An instance and its abstract list -/

structure InstRel (pollable : ℕ → Bool) (entry : ℕ → FdEntry) (inst : EpollInst) (l : Interest) :
    Prop where
  active : ∀ fd, (inst.regs fd).active = true → fd < fdTableSize ∧ (entry fd).type ≠ .closed ∧
    (inst.regs fd).generation = (entry fd).generation ∧
    l (fd, (entry fd).ofdId) = some ((inst.regs fd).events, (inst.regs fd).data)
  entries : ∀ fd o v, l (fd, o) = some v →
    (entry fd).ofdId = o ∧ (inst.regs fd).active = true ∧ pollable o = true
  fired : ∀ fd, (inst.regs fd).oneshotArmed = true → (inst.regs fd).active = true

section
variable {pollable : ℕ → Bool} {entry : ℕ → FdEntry} {inst : EpollInst} {l : Interest} {fd : ℕ}
  {t : FdTable}

lemma InstRel.new (pollable : ℕ → Bool) (entry : ℕ → FdEntry) :
    InstRel pollable entry .new fun _ => none :=
  ⟨nofun, nofun, nofun⟩

section
variable (h : InstRel pollable entry inst l)
include h

lemma InstRel.no_entry (hoff : (inst.regs fd).active = false) (o : ℕ) : l (fd, o) = none := by
  cases hl : l (fd, o) with
  | none => rfl
  | some v =>
    have hactive := (h.entries fd o v hl).2.1
    rw [hoff] at hactive
    cases hactive

lemma InstRel.slot (hoff : (inst.regs fd).active = false)
    (hothers : ∀ n, n ≠ fd → entry' n = entry n) : InstRel pollable entry' inst l := by
  have hne : ∀ {g}, (inst.regs g).active → g ≠ fd := by
    grind
  refine ⟨fun g hg => ?_, fun g o v hl => ?_, h.fired⟩
  · rw [hothers g (hne hg)]
    exact h.active g hg
  · have hentry := h.entries g o v hl
    grind

lemma InstRel.drop (hgone : ∀ o, l' (fd, o) = none)
    (hkeep : ∀ g, g ≠ fd → (inst.regs g).active → l' (g, (entry g).ofdId) =
      l (g, (entry g).ofdId)) (hless : ∀ k v, l' k = some v → l k = some v) :
    InstRel pollable entry (inst.deactivate fd) l' := by
  have hoff : ((inst.deactivate fd).regs fd).active = false := by rw [deactivate_regs]
  have hfire : ((inst.deactivate fd).regs fd).oneshotArmed = false := by rw [deactivate_regs]
  refine ⟨fun g hg => ?_, fun g o v hl => ?_, fun g hg => ?_⟩
  · have hne : g ≠ fd := by
      grind
    rw [deactivate_other hne] at hg ⊢
    rw [hkeep g hne hg]
    exact h.active g hg
  · have hne : g ≠ fd := by
      grind
    rw [deactivate_other hne]
    exact h.entries g o v (hless _ _ hl)
  have hne : g ≠ fd := by
    grind
  rw [deactivate_other hne] at hg ⊢
  exact h.fired g hg

end

lemma hasAlias_iff : hasAlias entry fd ofdId ↔
    ∃ n < fdTableSize, n ≠ fd ∧ (entry n).type ≠ .closed ∧ (entry n).ofdId = ofdId := by
  unfold hasAlias
  simp [any_eq_true, mem_range, Bool.and_eq_true, decide_eq_true_eq, and_assoc]

lemma hasAlias_congr (hothers : ∀ n, n ≠ fd → entry' n = entry n) (ofdId : ℕ) :
    hasAlias entry' fd ofdId = hasAlias entry fd ofdId := by
  rw [Bool.eq_iff_iff, hasAlias_iff, hasAlias_iff]
  grind

lemma retire_alias (halias : hasAlias t.entry fd (t.entry fd).ofdId) : l.retire t fd = l := by
  funext k
  refine if_neg fun hc => ?_
  rw [halias] at hc
  cases hc.2

lemma retire_last (hlast : hasAlias t.entry fd (t.entry fd).ofdId = false)
    (h : InstRel pollable t.entry inst l) :
    InstRel pollable t.entry (inst.deactivate fd) (l.retire t fd) := by
  refine h.drop (fun o => ?_) (fun g hne hg => ?_) (fun k v hk => ?_)
  · cases hl : l (fd, o) with
    | none =>
      unfold Interest.retire
      rw [hl, ite_self]
    | some v =>
      obtain ⟨rfl, -⟩ := h.entries fd o v hl
      exact if_pos ⟨rfl, hlast⟩
  · refine if_neg fun hc => ?_
    -- another slot with the description
    obtain ⟨hlt, hopen, -⟩ := h.active g hg
    have halias := hasAlias_iff.mpr ⟨g, hlt, hne, hopen, hc.1⟩
    rw [hlast] at halias
    cases halias
  grind [Interest.retire]

/-- The hook and the abstract rule agree on an instance, unless the slot is registered under its
number while there is an alias. -/
lemma hook_rel (hothers : ∀ n, n ≠ fd → entry' n = t.entry n)
    (hnames : Names entry' i) (h : InstRel pollable t.entry (insts i) l)
    (hfair : hasAlias t.entry fd (t.entry fd).ofdId → ((insts i).regs fd).active = false) :
    InstRel pollable t.entry (epollNoteFdClosed entry' fd (t.entry fd).ofdId insts i)
      (l.retire t fd) ∧
    ((epollNoteFdClosed entry' fd (t.entry fd).ofdId insts i).regs fd).active = false := by
  have hcases := noteFdClosed_cases entry' fd (t.entry fd).ofdId insts i
  rw [hasAlias_congr hothers] at hcases
  have hoff : ((insts i).deactivate fd).regs fd = _ := deactivate_regs (insts i) fd
  obtain ⟨heq, halias | hno⟩ | ⟨heq, hlast, -⟩ := hcases
  · grind [retire_alias]
  · exact absurd hnames hno
  rw [heq]
  refine ⟨?_, by rw [hoff]⟩
  cases halias : hasAlias t.entry fd (t.entry fd).ofdId with
  | false => exact retire_last halias h
  | true =>
    rw [retire_alias halias]
    exact h.drop (h.no_entry (hfair halias)) (fun _ _ _ => rfl) fun _ _ hk => hk

end

/-! ### `epoll_ctl` -/

section
variable {pollable : ℕ → Bool} {entry : ℕ → FdEntry} {inst : EpollInst} {l : Interest} {fd : ℕ}
  {host : EpollHost}

lemma armLoop_taken (hread : (host.arm .read).taken snap.pathPollCapable)
    (hwrite : (host.arm .write).taken snap.pathPollCapable) (cs done : List KqChange)
    (registered refused : Bool) (kq : Kqueue) :
    ∃ refused' kq', epollArmLoop snap host cs done registered refused kq = (.ok refused', kq') := by
  induction cs generalizing done registered refused kq with
  | nil => exact ⟨refused, kq, rfl⟩
  | cons c cs ih =>
    have htaken : (host.arm c.filter).taken snap.pathPollCapable := by
      cases c.filter with
      | read => exact hread
      | write => exact hwrite
    rw [epollArmLoop]
    cases harm : host.arm c.filter with
    | accepted => exact ih _ _ _ _
    | failed err =>
      rw [harm] at htaken
      cases htaken
    | refused =>
      rw [harm] at htaken
      replace htaken : snap.pathPollCapable := htaken
      rw [if_pos htaken]
      exact ih _ _ _ _

lemma armChanges_refused (hcap : snap.pathPollCapable = false) (hprobe : host.probe = false)
    (hread : (host.arm .read).isRefused) (hwrite : (host.arm .write).isRefused)
    (cs : List KqChange) (kq : Kqueue) :
    epollArmChanges kq cs snap host = (.error (-linuxEperm), kq) := by
  unfold epollArmChanges
  cases cs with
  | nil => rw [if_pos ⟨rfl, by rw [hprobe]; rfl⟩]
  | cons c cs =>
    rw [if_neg fun hc => nomatch hc.1]
    have hrefused : (host.arm c.filter).isRefused := by
      cases c.filter with
      | read => exact hread
      | write => exact hwrite
    cases harm : host.arm c.filter with
    | accepted | failed =>
      rw [harm] at hrefused
      cases hrefused
    | refused =>
      simp [epollArmLoop, harm, hcap, hprobe]

section
variable (h : InstRel pollable entry inst l)
include h

lemma InstRel.dropStale : inst.dropStale fd (entry fd) = inst := by
  refine if_neg fun hc => ?_
  rw [Bool.and_eq_true, Bool.or_eq_true, decide_eq_true_eq] at hc
  have hactive : (inst.regs fd).active := hc.1.elim id (h.fired fd)
  exact hc.2 (h.active fd hactive).2.2.1

lemma InstRel.store (hfd : fd < fdTableSize) (hopen : (entry fd).type ≠ .closed)
    (hpoll : pollable (entry fd).ofdId) (pty refused : Bool) :
    InstRel pollable entry (epollStoreReg inst fd events data (entry fd) pty refused)
      (update l (fd, (entry fd).ofdId) (some (events, data))) := by
  have hself : (epollStoreReg inst fd events data (entry fd) pty refused).regs fd = _ :=
    update_self ..
  have hother : ∀ {g}, g ≠ fd →
      (epollStoreReg inst fd events data (entry fd) pty refused).regs g = inst.regs g :=
    fun hg => update_of_ne hg ..
  refine ⟨fun g hg => ?_, fun g o v hl => ?_, fun g hg => ?_⟩
  · by_cases hgf : g = fd
    · grind
    rw [hother hgf] at hg ⊢
    rw [update_of_ne fun hc => hgf (congrArg Prod.fst hc)]
    exact h.active g hg
  · by_cases hk : (g, o) = (fd, (entry fd).ofdId)
    · grind
    rw [update_of_ne hk] at hl
    obtain ⟨rfl, hactive, hp⟩ := h.entries g o v hl
    grind
  by_cases hgf : g = fd
  · rw [hgf, hself] at hg
    cases hg
  · rw [hother hgf] at hg ⊢
    exact h.fired g hg

lemma InstRel.lookup (fd : ℕ) : (inst.regs fd).active = (l (fd, (entry fd).ofdId)).isSome := by
  cases hactive : (inst.regs fd).active with
  | true => rw [(h.active fd hactive).2.2.2, Option.isSome_some]
  | false => rw [h.no_entry hactive, Option.isSome_none]

end

lemma ctl_add_new (h : l k = none) (v : BitVec 32 × ℕ) :
    l.ctl .add k v = (0, update l k (some v)) := by
  unfold Interest.ctl
  rw [h]

lemma ctl_add_old (h : l k = some x) (v : BitVec 32 × ℕ) : l.ctl .add k v = (-linuxEexist, l) := by
  unfold Interest.ctl
  rw [h]

lemma ctl_mod_old (h : l k = some x) (v : BitVec 32 × ℕ) :
    l.ctl .mod k v = (0, update l k (some v)) := by
  unfold Interest.ctl
  rw [h]

lemma ctl_del_old (h : l k = some x) (v : BitVec 32 × ℕ) :
    l.ctl .del k v = (0, update l k none) := by
  unfold Interest.ctl
  rw [h]

lemma ctl_missing (h : l k = none) (hop : op ≠ .add) (v : BitVec 32 × ℕ) :
    l.ctl op k v = (-linuxEnoent, l) := by
  simp [h, Interest.ctl]

lemma InstRel.unarmed (h : InstRel pollable entry inst l) (hl : l (fd, (entry fd).ofdId) = none) :
    (inst.regs fd).oneshotArmed = false := by
  refine Bool.eq_false_of_not_eq_true fun hf => ?_
  have hactive := h.fired fd hf
  rw [h.lookup fd, hl] at hactive
  cases hactive

lemma ctlLocked_pollable (h : InstRel pollable entry inst l) (hfd : fd < fdTableSize)
    (hopen : (entry fd).type ≠ .closed) (hop : op ≠ .unknown)
    (hpoll : pollable (entry fd).ofdId) (hdir : host.isDir = false)
    (hfits : host.fits true events fd (entry fd)) :
    (epollCtlLocked op fd events data (entry fd) host inst kq).1 =
        (l.ctl op (fd, (entry fd).ofdId) (events, data)).1 ∧
      InstRel pollable entry (epollCtlLocked op fd events data (entry fd) host inst kq).2.1
        (l.ctl op (fd, (entry fd).ofdId) (events, data)).2 := by
  unfold EpollHost.fits at hfits
  rw [Bool.and_eq_true, if_pos rfl, Bool.and_eq_true, Bool.and_eq_true, decide_eq_true_eq] at hfits
  obtain ⟨hsup, ⟨hread, hwrite⟩, hprobe⟩ := hfits
  have hreg : ¬ (!(entry fd).pathPollCapable && host.isReg) := by
    intro hc
    rw [Bool.and_eq_true, Bool.not_eq_true'] at hc
    unfold epollTargetSupported at hsup
    rw [hdir, hc.1, hc.2] at hsup
    cases hsup
  -- the filters are taken whatever the queue holds
  have harm : ∀ kq : Kqueue, ∃ refused kq',
      epollArmChanges kq (epollBuildChanges events fd (entry fd))
      (entry fd) host = (.ok refused, kq') := by
    intro kq
    unfold epollArmChanges
    rw [if_neg]
    · exact armLoop_taken hread hwrite _ _ _ _ _
    rintro ⟨hnil, hno⟩
    rw [Bool.or_eq_true, decide_eq_true_eq] at hprobe
    obtain hprobe | hne := hprobe
    · rw [hprobe] at hno
      cases hno
    · exact hne hnil
  unfold epollCtlLocked
  dsimp only
  rw [h.dropStale, h.lookup fd, hsup, if_pos rfl, if_neg hreg]
  cases op with
  | unknown => exact absurd rfl hop
  | del =>
    rw [if_pos rfl]
    cases hl : l (fd, (entry fd).ofdId) with
    | none =>
      rw [if_pos (by simp), ctl_missing hl (by decide)]
      exact ⟨rfl, h⟩
    | some v =>
      rw [if_neg (by simp), ctl_del_old hl]
      refine ⟨rfl, ?_⟩
      dsimp only
      refine h.drop (fun o => ?_) (fun g hne hg => ?_) fun k v hk => ?_
      · by_cases ho : o = (entry fd).ofdId
        · rw [ho, update_self]
        rw [update_of_ne fun hc => ho (congrArg Prod.snd hc)]
        cases hlo : l (fd, o) with
        | none => rfl
        | some w => exact absurd (h.entries fd o w hlo).1.symm ho
      · exact update_of_ne (fun hc => hne (congrArg Prod.fst hc)) ..
      by_cases hkk : k = (fd, (entry fd).ofdId)
      · rw [hkk, update_self] at hk
        cases hk
      · rw [update_of_ne hkk] at hk
        exact hk
  | add =>
    rw [if_neg (by decide)]
    cases hl : l (fd, (entry fd).ofdId) with
    | some v =>
      rw [if_pos (by simp), ctl_add_old hl]
      exact ⟨rfl, h⟩
    | none =>
      rw [if_neg (by simp), if_neg (by simp), ctl_add_new hl]
      obtain ⟨refused, kq', heq⟩ := harm _
      rw [heq]
      exact ⟨rfl, h.store hfd hopen hpoll _ _⟩
  | mod =>
    rw [if_neg (by decide), if_neg (by simp)]
    cases hl : l (fd, (entry fd).ofdId) with
    | none =>
      rw [h.unarmed hl, if_pos (by simp), ctl_missing hl (by decide)]
      exact ⟨rfl, h⟩
    | some v =>
      rw [if_neg (by simp), ctl_mod_old hl]
      obtain ⟨refused, kq', heq⟩ := harm _
      rw [heq]
      exact ⟨rfl, h.store hfd hopen hpoll _ _⟩

lemma ctlLocked_unpollable (h : InstRel pollable entry inst l)
    (hpoll : pollable (entry fd).ofdId = false) (hdir : host.isDir = false)
    (hfits : host.fits false events fd (entry fd)) :
    (epollCtlLocked op fd events data (entry fd) host inst kq).1 < 0 ∧
      (epollCtlLocked op fd events data (entry fd) host inst kq).2.1 = inst := by
  unfold EpollHost.fits at hfits
  rw [Bool.and_eq_true, if_neg Bool.false_ne_true, Bool.and_eq_true, decide_eq_true_eq] at hfits
  obtain ⟨hsup, hread, hwrite⟩ := hfits
  have hnone : l (fd, (entry fd).ofdId) = none := by
    cases hl : l (fd, (entry fd).ofdId) with
    | none => rfl
    | some v =>
      have hp := (h.entries fd _ v hl).2.2
      rw [hpoll] at hp
      cases hp
  have hoff : (inst.regs fd).active = false := by rw [h.lookup fd, hnone, Option.isSome_none]
  have hcap : (entry fd).pathPollCapable = false := by
    grind [epollTargetSupported]
  have hperm : -linuxEperm < 0 := by decide
  unfold epollCtlLocked
  dsimp only
  rw [h.dropStale, hoff, h.unarmed hnone, hsup, if_neg Bool.false_ne_true]
  split
  · grind
  split
  · exact ⟨hperm, rfl⟩
  split
  · grind
  split
  · exact ⟨hperm, rfl⟩
  have hprobe : host.probe = false := by
    unfold epollTargetSupported at hsup
    rw [hdir, hcap] at hsup
    grind
  rw [Bool.and_false, if_neg Bool.false_ne_true, armChanges_refused hcap hprobe hread hwrite]
  exact ⟨hperm, rfl⟩

end

/-! ### Passes of a wait -/

section
variable {pollable : ℕ → Bool} {entry : ℕ → FdEntry} {inst : EpollInst} {l : Interest}

def OutEntry.OfReg (inst : EpollInst) (b : OutEntry) : Prop :=
  (inst.regs b.gfd).active = true ∧ b.data = (inst.regs b.gfd).data

lemma OutEntry.OfReg.grows {a b : OutEntry} (h : a.OfReg inst) (hab : a.Grows b) :
    b.OfReg inst := by
  unfold OutEntry.OfReg
  rw [hab.gfd, hab.data]
  exact h

lemma stamp_ofReg {α : Type} {full : Bool} {f : α → Option OutEntry} {as : List α}
    {o : List OutEntry} (ho : ∀ b ∈ o, b.OfReg inst) (hf : ∀ x a, f x = some a → a.OfReg inst) :
    ∀ b ∈ epollStamp full n f as o, b.OfReg inst := by
  intro b hb
  obtain ⟨a, ha, hab⟩ | ⟨x, -, a, hx, hab⟩ := stamp_mem hb
  · exact (ho a ha).grows hab
  · exact (hf x a hx).grows hab

lemma collect_ofReg (inst : EpollInst) (kq : Kqueue) (n : ℕ) (batch : List Kevent)
    (muted : List EpollMute) (x : EpollSeen) :
    ∀ b ∈ (epollCollect inst kq n batch muted x).1, b.OfReg inst := by
  rw [collect_out]
  have hready : ∀ b ∈ epollStamp true n (inst.shows x.usb) batch [], b.OfReg inst := by
    refine stamp_ofReg (nofun) fun e a ha => ?_
    obtain ⟨-, hactive, -, hgfd, hdata⟩ := shows_some ha
    grind [OutEntry.OfReg]
  refine stamp_ofReg (stamp_ofReg ?_ fun h a ha => ?_) fun m a ha => ?_
  · unfold epollStampAlwaysReadable
    split
    · exact hready
    refine stamp_ofReg hready fun g a ha => ?_
    dsimp only at ha
    split at ha
    · cases ha
    rename_i hlive
    split at ha
    · cases ha
    cases ha
    simp only [Bool.or_eq_true, Bool.not_eq_true', not_or, Bool.not_eq_false] at hlive
    exact ⟨hlive.1.2, rfl⟩
  · obtain ⟨hlive, ⟨⟩⟩ := guarded ha
    simp only [regLive, Bool.and_eq_true] at hlive
    exact ⟨hlive.1.1, rfl⟩
  · unfold showsMuted at ha
    dsimp only at ha
    split at ha
    · cases ha
    split at ha
    · cases ha
    rename_i hlive
    cases ha
    simp only [regLive, Bool.not_eq_true', Bool.not_eq_false, Bool.and_eq_true] at hlive
    exact ⟨hlive.1.1, rfl⟩

lemma epollPass_ofReg (c : EpollCall) (w : EpollWait) (p : EpollPass) (inst : EpollInst)
    (kq : Kqueue) : (∀ b ∈ passOut (epollPass c w p inst kq).1, b.OfReg inst) ∧
      ∃ o, (epollPass c w p inst kq).2.1 = epollMarkOneshot inst o := by
  have hsame : ∃ o, inst = epollMarkOneshot inst o := ⟨[], rfl⟩
  unfold epollPass
  split
  · exact ⟨nofun, hsame⟩
  split
  · exact ⟨nofun, hsame⟩
  split
  · exact ⟨nofun, hsame⟩
  generalize p.batch.foldl Kqueue.dequeue kq = kq
  have hofReg := collect_ofReg inst kq w.maxevents p.batch w.muted p.seen
  obtain ⟨o, kq', muted, mkq, ho, hm, hcases⟩ := epollAfter_cases c w p inst kq
  rw [ho] at hofReg
  obtain ⟨-, -, -, -, heq⟩ | ⟨-, res, heq, hres⟩ := hcases
  · rw [heq]
    exact ⟨nofun, hsame⟩
  rw [heq]
  refine ⟨fun b hb => ?_, _, rfl⟩
  obtain rfl | ⟨-, -, rfl⟩ := hres
  · exact hofReg b (mem_filter.mp hb).1
  · cases hb

lemma mark_same (inst : EpollInst) (o : List OutEntry) (g : ℕ) :
    let r := (epollMarkOneshot inst o).regs g
    r.active = (inst.regs g).active ∧ r.generation = (inst.regs g).generation ∧
    r.events = (inst.regs g).events ∧ r.data = (inst.regs g).data ∧
    (r.oneshotArmed → (inst.regs g).oneshotArmed ∨ (inst.regs g).active) := by
  unfold epollMarkOneshot
  grind

lemma InstRel.mark (h : InstRel pollable entry inst l) (o : List OutEntry) :
    InstRel pollable entry (epollMarkOneshot inst o) l := by
  refine ⟨fun g hg => ?_, fun g k v hl => ?_, fun g hg => ?_⟩
  · obtain ⟨ha, hgen, hev, hdata, -⟩ := mark_same inst o g
    rw [ha] at hg
    rw [hgen, hev, hdata]
    exact h.active g hg
  · rw [(mark_same inst o g).1]
    exact h.entries g k v hl
  · rw [(mark_same inst o g).1]
    exact ((mark_same inst o g).2.2.2.2 hg).elim (h.fired g) id

end

/-! ### Runs -/

/-- What holds in every run. -/
structure EpollSysInv (s : EpollSys) : Prop where
  tab : FdBits s.tab
  counts : ∀ i, EpollCounts (s.insts i)

/-- No slot is retired that is registered under its number while another slot has its
description. -/
def EpollFair (s : EpollSys) : EpollLabel → Prop
  | .tab c => ∀ m fd entry, c.move s.tab = some m → m.hook = some (fd, entry) →
    hasAlias s.tab.entry fd (s.tab.entry fd).ofdId = true →
    ∀ i, Names s.tab.entry i → ((s.insts i).regs fd).active = false
  | _ => True

structure InterestRel (pollable : ℕ → Bool) (s : EpollSys) (a : InterestSys) : Prop where
  inv : EpollSysInv s
  tab : a.tab = s.tab
  next : a.next = s.next
  inst : ∀ i, Names s.tab.entry i → InstRel pollable s.tab.entry (s.insts i) (a.list i)

section
variable {pollable : ℕ → Bool} {s : EpollSys} {a : InterestSys}

lemma epollInstOf_names {t : FdTable} {epfd : ℤ} {i : ℕ} (h : epollInstOf t epfd = some i) :
    Names t.entry i := by
  unfold epollInstOf at h
  split at h
  · rename_i e he
    obtain ⟨-, hlt, rfl, -⟩ := fdSnapshot_some he
    obtain ⟨htype, h⟩ := guarded h
    exact ⟨epfd.toNat, hlt, htype, h⟩
  · cases h

lemma MoveSpec.bits (h : MoveSpec t m) (ht : FdBits t) : FdBits m.tab := by
  cases h with
  | kept hk _ => exact ht.kept hk
  | fills fd inh type hf htype _ _ => exact ht.filled hf htype
  | shuts fd hs _ _ => exact ht.shut hs

lemma MoveSpec.hook_lt (h : MoveSpec t m)
    (hhook : m.hook = some (fd, entry)) : fd < fdTableSize := by
  cases h with
  | kept _ hno =>
    rw [hno] at hhook
    cases hhook
  | fills g inh type hf _ _ hg =>
    obtain ⟨-, hno⟩ | ⟨-, hg⟩ := hg
    · rw [hno] at hhook
      cases hhook
    rw [hg] at hhook
    cases hhook
    exact hf.lt
  | shuts g hs _ hg =>
    rw [hg] at hhook
    cases hhook
    exact hs.lt

lemma EpollCounts.hook (h : ∀ i, EpollCounts (insts i)) (hfd : fd < fdTableSize)
    (entry : ℕ → FdEntry) (ofdId i : ℕ) :
    EpollCounts (epollNoteFdClosed entry fd ofdId insts i) := by
  obtain ⟨heq, -⟩ | ⟨heq, -⟩ := noteFdClosed_cases entry fd ofdId insts i
  · rw [heq]
    exact h i
  · rw [heq]
    exact (h i).deactivate hfd

lemma EpollCounts.ctlLocked (h : EpollCounts inst)
    (hfd : fd < fdTableSize) (op : EpollOp) (events : BitVec 32) (data : ℕ) (snap : FdEntry)
    (host : EpollHost) (kq : Kqueue) :
    EpollCounts (epollCtlLocked op fd events data snap host inst kq).2.1 := by
  have hstale : EpollCounts (inst.dropStale fd snap) := by
    unfold dropStale
    split
    · exact h.deactivate hfd
    · exact h
  unfold epollCtlLocked
  dsimp only
  generalize inst.dropStale fd snap = inst at hstale
  split
  · split
    · exact hstale
    · exact hstale.deactivate hfd
  split
  · exact hstale
  split
  · exact hstale
  split
  · exact hstale
  split
  · exact hstale
  · exact hstale.store hfd ..

lemma epollCtl_inst (epfd : ℤ) (op : EpollOp) (fd : ℤ) (event : Option (BitVec 32 × ℕ))
    (epRef : Except HostErrno ℤ) (snap : Option FdEntry) (host : EpollHost)
    (inst : Option EpollInst) (kq : Kqueue) :
    (epollCtl epfd op fd event epRef snap host inst kq).2.1 = inst ∨
    ∃ e x, snap = some e ∧ inst = some x ∧ (epollCtl epfd op fd event epRef snap host inst kq).2.1 =
        some (epollCtlLocked op fd.toNat (event.getD (0, 0)).1 (event.getD (0, 0)).2 e host x
            kq).2.1 := by
  unfold epollCtl
  split
  · exact .inl rfl
  split
  · exact .inl rfl
  · exact .inl rfl
  split
  · exact .inl rfl
  split
  · exact .inl rfl
  grind

lemma EpollSysInv.step (h : EpollSysInv s) {l : EpollLabel}
    (hn : epollSysNext pollable s l = some s') : EpollSysInv s' := by
  cases l with
  | tab c =>
    obtain ⟨m, hm, rfl⟩ := Option.map_eq_some_iff.mp hn
    have hspec := TabCall.move_spec h.tab hm
    refine ⟨hspec.bits h.tab, fun i => ?_⟩
    cases hhook : m.hook with
    | none => exact h.counts i
    | some x => exact EpollCounts.hook h.counts (hspec.hook_lt hhook) _ _ i
  | create b flags =>
    cases hn
    refine ⟨?_, (forall_update_iff _ fun _ => EpollCounts).mpr ⟨counts_new, fun i _ => h.counts i⟩⟩
    obtain ⟨fd, -, hf, -⟩ | hk := FdLowest.closed h.tab
      (fdAllocDirFrom_lowest s.tab 0 { b with type := .epoll } (some s.next) flags)
    · exact h.tab.filled hf (show FdType.epoll ≠ .closed by decide)
    · exact h.tab.kept hk
  | ctl epfd op fd event epRef host kq ans =>
    obtain ⟨-, ⟨⟩⟩ := guarded hn
    refine ⟨h.tab, fun i => ?_⟩
    cases hinst : epollInstOf s.tab epfd with
    | none => exact h.counts i
    | some j =>
      have hcases := epollCtl_inst epfd op fd event epRef (fdSnapshot s.tab fd) host
        (some (s.insts j)) kq
      rw [Option.map_some]
      obtain heq | ⟨e, x, hsnap, hx, heq⟩ := hcases
      · rw [heq]
        dsimp only
        rw [update_eq_self]
        exact h.counts i
      cases hx
      rw [heq]
      exact (forall_update_iff _ fun _ => EpollCounts).mpr
        ⟨(h.counts j).ctlLocked (fdSnapshot_some hsnap).2.1 .., fun i _ => h.counts i⟩ i
  | pass epfd c w p kq out =>
    unfold epollSysNext at hn
    dsimp only at hn
    split at hn
    · cases hn
    rename_i j hj
    obtain ⟨-, ⟨⟩⟩ := guarded hn
    obtain ⟨o, ho⟩ := (epollPass_ofReg c w p (s.insts j) kq).2
    exact ⟨h.tab, (forall_update_iff _ fun _ => EpollCounts).mpr
      ⟨ho ▸ (h.counts j).mark o, fun i _ => h.counts i⟩⟩

end

section
variable {pollable : ℕ → Bool} {s : EpollSys} {a : InterestSys} {event : Option (BitVec 32 × ℕ)}

lemma MoveSpec.names (h : MoveSpec t m) (hi : Names m.tab.entry i) : Names t.entry i := by
  obtain ⟨n, hn, htype, hdir⟩ := hi
  cases h with
  | kept hk _ =>
    rw [hk.entry] at htype hdir
    exact ⟨n, hn, htype, hdir⟩
  | fills fd inh type hf _ hname _ =>
    by_cases hfd : n = fd
    · rw [hfd, hf.type_eq] at htype
      obtain ⟨k, hk, hkt, hkd⟩ := hname htype
      exact ⟨k, hk, hkt, by rw [← hkd, ← hfd]; exact hdir⟩
    · rw [hf.others n hfd] at htype hdir
      exact ⟨n, hn, htype, hdir⟩
  | shuts fd hs _ _ =>
    by_cases hfd : n = fd
    · rw [hfd, hs.type_eq] at htype
      cases htype
    · rw [hs.others n hfd] at htype hdir
      exact ⟨n, hn, htype, hdir⟩

section
variable (h : InterestRel pollable s a)
include h

lemma InterestRel.tabStep (hfair : EpollFair s (.tab c))
    (hn : epollSysNext pollable s (.tab c) = some s') :
    ∃ a', interestNext pollable a (.tab c) = some a' ∧ InterestRel pollable s' a' := by
  have hinv := h.inv.step hn
  obtain ⟨m, hm, rfl⟩ := Option.map_eq_some_iff.mp hn
  have hspec := TabCall.move_spec h.inv.tab hm
  refine ⟨_, Option.map_eq_some_iff.mpr ⟨m, by rw [h.tab]; exact hm, rfl⟩, hinv, rfl, h.next, ?_⟩
  intro i hi
  have hold := h.inst i (hspec.names hi)
  rw [h.tab]
  cases hspec with
  | kept hk hhook =>
    rw [hhook, hk.entry]
    exact hold
  | fills fd inh type hf htype hname hhook =>
    obtain ⟨hclosed, hno⟩ | ⟨hopen, hhook⟩ := hhook
    · rw [hno]
      have hoff : ((s.insts i).regs fd).active = false := by
        refine Bool.eq_false_of_not_eq_true fun hactive => ?_
        exact (hold.active fd hactive).2.1 hclosed
      exact hold.slot hoff hf.others
    rw [hhook]
    have hnames := MoveSpec.names (.fills fd inh type hf htype hname (.inr ⟨hopen, hhook⟩)) hi
    obtain ⟨hrel, hoff⟩ := hook_rel (fun _ _ => rfl) hnames hold fun halias =>
      hfair m fd _ hm hhook halias i hnames
    exact hrel.slot hoff hf.others
  | shuts fd hs hopen hhook =>
    rw [hhook]
    have hnames := MoveSpec.names (.shuts fd hs hopen hhook) hi
    obtain ⟨hrel, hoff⟩ := hook_rel hs.others hi hold fun halias =>
      hfair m fd _ hm hhook halias i hnames
    exact hrel.slot hoff hs.others

lemma InterestRel.createStep {b : FdInstall}
    (hn : epollSysNext pollable s (.create b flags) = some s') :
    ∃ a', interestNext pollable a (.create b flags) = some a' ∧ InterestRel pollable s' a' := by
  have hinv := h.inv.step hn
  cases hn
  refine ⟨_, rfl, hinv, by rw [h.tab, h.next], by rw [h.next], fun i hi => ?_⟩
  dsimp only at hi ⊢
  rw [h.next]
  by_cases hnext : i = s.next
  · rw [hnext, update_self, update_self]
    exact InstRel.new ..
  rw [update_of_ne hnext, update_of_ne hnext]
  have hl := fdAllocDirFrom_lowest s.tab 0 { b with type := .epoll } (some s.next) flags
  obtain ⟨fd, hr, hf, hclosed⟩ | hk := FdLowest.closed h.inv.tab hl
  · obtain ⟨n, hlt, htype, hdir⟩ := hi
    have hne : n ≠ fd := by
      rintro rfl
      have hnew := fdAllocDirFrom_dir hr
      exact hnext (Option.some.inj (hdir.symm.trans hnew))
    replace htype := hf.others n hne ▸ htype
    replace hdir := hf.others n hne ▸ hdir
    have hold := h.inst i ⟨n, hlt, htype, hdir⟩
    refine hold.slot (Bool.eq_false_of_not_eq_true fun hactive => ?_) hf.others
    exact (hold.active fd hactive).2.1 hclosed
  · have hentry : (fdAllocDir s.tab { b with type := .epoll } (some s.next) flags).2.entry =
      s.tab.entry := hk.entry
    rw [hentry] at hi ⊢
    exact h.inst i hi

lemma InterestRel.passStep {epfd : ℤ} {c : EpollCall} {w : EpollWait} {p : EpollPass}
    {kq : Kqueue} {out : List OutEntry}
    (hn : epollSysNext pollable s (.pass epfd c w p kq out) = some s') :
    ∃ a', interestNext pollable a (.pass epfd c w p kq out) = some a' ∧
      InterestRel pollable s' a' := by
  have hinv := h.inv.step hn
  unfold epollSysNext at hn
  dsimp only at hn
  unfold interestNext
  dsimp only
  rw [h.tab]
  split at hn
  · cases hn
  rename_i j hj
  obtain ⟨hout, ⟨⟩⟩ := guarded hn
  have hold := h.inst j (epollInstOf_names hj)
  obtain ⟨hofReg, o, ho⟩ := epollPass_ofReg c w p (s.insts j) kq
  rw [if_pos]
  · refine ⟨a, rfl, hinv, h.tab, h.next, fun i hi => ?_⟩
    dsimp only
    by_cases hij : i = j
    · rw [hij, update_self, ho]
      exact hold.mark o
    · rw [update_of_ne hij]
      exact h.inst i hi
  · intro b hb
    rw [← hout] at hb
    obtain ⟨hactive, hdata⟩ := hofReg b hb
    rw [hdata]
    exact ⟨_, _, (hold.active b.gfd hactive).2.2.2⟩

variable {fd : ℤ} {host : EpollHost} (kq : Kqueue)
  (hfits : (fdSnapshot s.tab fd).all
      (fun e => host.fits (pollable e.ofdId) (event.getD (0, 0)).1 fd.toNat e))

include hfits in
/-- A call that does not get as far as the list fails and changes nothing. -/
lemma epollCtl_off (hoff : ctlTarget pollable s.tab epfd op fd event epRef = none) :
    let res := epollCtl epfd op fd event epRef (fdSnapshot s.tab fd) host
      ((epollInstOf s.tab epfd).map s.insts) kq
    res.1 < 0 ∧ res.2.1 = (epollInstOf s.tab epfd).map s.insts := by
  have heinval : ∀ e : FdEntry, epollEinvalUnlessUnsupported e host < 0 := by
    intro e
    unfold epollEinvalUnlessUnsupported
    split <;> decide
  unfold ctlTarget at hoff
  unfold epollCtl
  split
  · exact ⟨show -linuxEfault < 0 by decide, rfl⟩
  cases epRef with
  | error err =>
    grind
  | ok ref =>
    cases hsnap : fdSnapshot s.tab fd with
    | none => exact ⟨show -linuxEbadf < 0 by decide, rfl⟩
    | some e =>
      rw [hsnap] at hfits hoff
      dsimp only
      split
      · exact ⟨show -linuxEperm < 0 by decide, rfl⟩
      rename_i hdir
      cases hinst : epollInstOf s.tab epfd with
      | none => exact ⟨heinval e, rfl⟩
      | some i =>
        rw [hinst] at hoff
        rw [Option.map_some]
        dsimp only
        split
        · exact ⟨heinval e, rfl⟩
        split
        · exact ⟨show -linuxEinval < 0 by decide, rfl⟩
        rw [if_neg (by tauto)] at hoff
        dsimp only at hoff
        split at hoff
        · cases hoff
        rename_i hpoll
        obtain ⟨-, -, rfl, -⟩ := fdSnapshot_some hsnap
        have hpoll' := Bool.eq_false_of_not_eq_true hpoll
        replace hfits : host.fits (pollable (s.tab.entry fd.toNat).ofdId)
          (event.getD (0, 0)).1 fd.toNat (s.tab.entry fd.toNat) := hfits
        rw [hpoll'] at hfits
        obtain ⟨hneg, hsame⟩ := ctlLocked_unpollable (h.inst i (epollInstOf_names hinst))
          hpoll' (Bool.eq_false_of_not_eq_true hdir) hfits
        exact ⟨hneg, congrArg some hsame⟩

include hfits in
/-- A call that does gets the answer of the list. -/
lemma epollCtl_on {i : ℕ} (hon : ctlTarget pollable s.tab epfd op fd event epRef = some (i, e)) :
    let res := epollCtl epfd op fd event epRef (fdSnapshot s.tab fd) host
      ((epollInstOf s.tab epfd).map s.insts) kq
    let done := (a.list i).ctl op (fd.toNat, e.ofdId) (event.getD (0, 0))
    epollInstOf s.tab epfd = some i ∧ res.1 = done.1 ∧
      ∃ inst, res.2.1 = some inst ∧ InstRel pollable s.tab.entry inst done.2 := by
  unfold ctlTarget at hon
  split at hon
  · cases hon
  rename_i hargs
  simp only [not_or] at hargs
  obtain ⟨hop, hevent, hself⟩ := hargs
  split at hon
  · rename_i ref snap j _ hsnap hinst
    obtain ⟨hpoll, ⟨⟩⟩ := guarded hon
    rw [hsnap] at hfits
    obtain ⟨-, hlt, rfl, hopen⟩ := fdSnapshot_some hsnap
    replace hfits : host.fits (pollable (s.tab.entry fd.toNat).ofdId)
      (event.getD (0, 0)).1 fd.toNat (s.tab.entry fd.toNat) := hfits
    rw [hpoll] at hfits
    have hdir : host.isDir = false := by
      grind [EpollHost.fits, epollTargetSupported]
    obtain ⟨hret, hrel⟩ := ctlLocked_pollable (h.inst i (epollInstOf_names hinst)) hlt hopen hop
      hpoll hdir hfits
    refine ⟨hinst, ?_⟩
    rw [hsnap, hinst, Option.map_some]
    unfold epollCtl
    rw [if_neg hevent]
    dsimp only
    rw [if_neg (by rw [hdir]; decide), if_neg hop, if_neg hself]
    exact ⟨hret, _, rfl, hrel⟩
  · cases hon

lemma InterestRel.ctlStep {epfd : ℤ} {op : EpollOp} {fd : ℤ} {host : EpollHost} {kq : Kqueue}
    {ans : ℤ} (hn : epollSysNext pollable s (.ctl epfd op fd event epRef host kq ans) = some s') :
    ∃ a', interestNext pollable a (.ctl epfd op fd event epRef host kq ans) = some a' ∧
      InterestRel pollable s' a' := by
  have hinv := h.inv.step hn
  unfold epollSysNext at hn
  obtain ⟨hgood, hn⟩ := guarded hn
  rw [Bool.and_eq_true, decide_eq_true_eq] at hgood
  obtain ⟨hfits, hans⟩ := hgood
  cases hn
  unfold interestNext
  dsimp only
  rw [h.tab]
  cases htarget : ctlTarget pollable s.tab epfd op fd event epRef with
  | none =>
    obtain ⟨hneg, hsame⟩ := epollCtl_off h kq hfits htarget
    rw [hans] at hneg
    rw [if_pos hneg]
    refine ⟨a, rfl, hinv, h.tab, h.next, fun i hi => ?_⟩
    rw [hsame]
    cases hinst : epollInstOf s.tab epfd with
    | none => exact h.inst i hi
    | some j =>
      rw [Option.map_some]
      dsimp only
      rw [update_eq_self]
      exact h.inst i hi
  | some x =>
    obtain ⟨j, e⟩ := x
    obtain ⟨hinst, hret, inst, hres, hrel⟩ := epollCtl_on h kq hfits htarget
    rw [hans] at hret
    dsimp only
    rw [if_pos hret]
    refine ⟨_, rfl, hinv, rfl, h.next, fun i hi => ?_⟩
    rw [hres, hinst]
    dsimp only
    by_cases hij : i = j
    · grind
    · rw [update_of_ne hij, update_of_ne hij]
      exact h.inst i hi

lemma InterestRel.step {l : EpollLabel} (hfair : EpollFair s l)
    (hn : epollSysNext pollable s l = some s') :
    ∃ a', interestNext pollable a l = some a' ∧ InterestRel pollable s' a' := by
  cases l with
  | tab c => exact h.tabStep hfair hn
  | create b flags => exact h.createStep hn
  | ctl epfd op fd event epRef host kq ans => exact h.ctlStep hn
  | pass epfd c w p kq out => exact h.passStep hn

end

end

def EpollSys.init (mayBlock : ℕ → Bool) (nofile : ℕ) (hostFlags : ℤ → BitVec 32) : EpollSys :=
  ⟨fdtableInit mayBlock nofile hostFlags, fun _ => .new, 0⟩

def InterestSys.init (mayBlock : ℕ → Bool) (nofile : ℕ) (hostFlags : ℤ → BitVec 32) : InterestSys :=
  ⟨fdtableInit mayBlock nofile hostFlags, fun _ _ => none, 0⟩

lemma InterestRel.init (pollable : ℕ → Bool) (mayBlock : ℕ → Bool) (nofile : ℕ)
    (hostFlags : ℤ → BitVec 32) :
    InterestRel pollable (.init mayBlock nofile hostFlags) (.init mayBlock nofile hostFlags) := by
  have hfd := FdInv.init mayBlock nofile hostFlags
  exact ⟨⟨⟨hfd.agrees, rfl⟩, fun _ => counts_new⟩, rfl, rfl, fun _ _ => InstRel.new ..⟩

/-- In every run the counters are those of the tables. If no slot is retired that is registered
under its number while another slot has its description, the calls get the answers of the abstract
lists, and what a wait reports is on them. -/
theorem epoll_refines_interest (pollable : ℕ → Bool) (mayBlock : ℕ → Bool) (nofile : ℕ)
    (hostFlags : ℤ → BitVec 32) (ls : List EpollLabel) (s : EpollSys)
    (hrun : exec (epollSysNext pollable) (.init mayBlock nofile hostFlags) ls = some s) :
    (∀ i, EpollCounts (s.insts i)) ∧
    (Meets (epollSysNext pollable) EpollFair (.init mayBlock nofile hostFlags) ls →
      ∃ a, exec (interestNext pollable) (.init mayBlock nofile hostFlags) ls = some a) := by
  have hinit := InterestRel.init pollable mayBlock nofile hostFlags
  constructor
  · have hinv : EpollSysInv s := by
      refine exec_keeps ?_ hinit.inv hrun
      intro s l t hs hn
      exact hs.step hn
    exact hinv.counts
  intro hok
  obtain ⟨a, ha, -⟩ := exec_refines (R := InterestRel pollable) EpollFair
    (fun s a l t hR hfair hn => hR.step hfair hn) hinit hok hrun
  exact ⟨a, ha⟩

def demoPipe : FdInstall := ⟨.pipe, 9, none, ⟨true, true, true⟩⟩

def demoQueue : FdInstall := ⟨.epoll, 10, none, ⟨false, false, false⟩⟩

def demoHost : EpollHost :=
  { probe := true, standalone := true, arm := fun _ => .accepted, isDir := false, isReg := false
    ptyMaster := false }

/-- `epoll_ctl` adds descriptor 3 to the instance of descriptor 4. -/
def demoAdd (ans : ℤ) : EpollLabel :=
  .ctl 4 .add 3 (some (linuxEpollin, 77)) (.ok 10) demoHost (fun _ _ => none) ans

def demoSys : EpollSys := .init (fun _ => false) 1024 fun _ => 0

/-- A pass of a wait on descriptor 4 that finds the pipe readable. -/
def demoWait : EpollLabel :=
  let usb : ℕ → UsbState := fun _ => ⟨false, false, false⟩
  .pass 4
    { ref := .ok 10, maxevents := 1, timeoutMs := -1, hasInst := true, writeOut := true
      start := 0 }
    ⟨1, -1, []⟩
    { kevents := .ok [⟨9, .read, 3, false, false⟩], interrupts := ⟨false, false, false⟩
      leaderOnly := false, hung := false, breakUsb := usb, now := 0, seen := ⟨[], usb, usb⟩
      muteOk := fun _ => true, later := 0 }
    (fun _ _ => none) [⟨3, linuxEpollin, 77⟩]

/-- The pipe is added twice and waited for; a duplicate is made and closed, then the pipe is. -/
def demoTwice : List EpollLabel :=
  [.tab (.fresh 0 demoPipe), .create demoQueue 0, demoAdd 0, demoAdd (-linuxEexist), demoWait,
    .tab (.dup 3 (-1) 0 true demoPipe 0), .tab (.close 5), .tab (.close 3)]

theorem epoll_refines_interest_twice :
    ∃ s, exec (epollSysNext fun _ => true) demoSys demoTwice = some s ∧ EpollCounts (s.insts 0) ∧
      ∃ a, exec (interestNext fun _ => true) (.init (fun _ => false) 1024 fun _ => 0) demoTwice =
        some a := by
  have hsome : (exec (epollSysNext fun _ => true) demoSys demoTwice).isSome := by
    decide +kernel
  obtain ⟨s, hs⟩ := Option.isSome_iff_exists.mp hsome
  obtain ⟨hcounts, hrefines⟩ := epoll_refines_interest (fun _ => true) (fun _ => false) 1024
    (fun _ => 0) demoTwice s hs
  refine ⟨s, hs, hcounts 0, hrefines ?_⟩
  refine meets_cons ?_ rfl (meets_cons trivial rfl (meets_cons trivial rfl (meets_cons trivial rfl
    (meets_cons trivial rfl (meets_cons ?_ rfl (meets_cons ?_ rfl (meets_cons ?_ rfl trivial)))))))
  · -- the allocation of a free slot retires none
    intro m fd entry hm hhook
    cases hm
    cases hhook
  · intro m fd entry hm hhook
    cases hm
    cases hhook
  · -- the duplicate is not registered under its own number
    rintro m fd entry hm hhook - i -
    cases hm
    cases hhook
    cases i with
    | zero => rfl
    | succ i => rfl
  · -- the pipe has no other descriptor by now
    intro m fd entry hm hhook halias
    cases hm
    cases hhook
    exact absurd halias (by decide +kernel)

/-- The pipe is added; it is duplicated, closed, and put back from its duplicate; then it is added
again. -/
def demoBack (ans : ℤ) : List EpollLabel :=
  [.tab (.fresh 0 demoPipe), .create demoQueue 0, demoAdd 0, .tab (.dup 3 (-1) 0 true demoPipe 0),
    .tab (.close 3), .tab (.dup 5 3 0 true demoPipe 0), demoAdd ans]

/-- The entry is still on the list, as the description was never closed, but the second addition
succeeds. -/
theorem epoll_forgets_alias : (exec (epollSysNext fun _ => true) demoSys (demoBack 0)).isSome ∧
      (exec (interestNext fun _ => true) (.init (fun _ => false) 1024 fun _ => 0)
        (demoBack 0)).isNone ∧
      (exec (interestNext fun _ => true) (.init (fun _ => false) 1024 fun _ => 0)
        (demoBack (-linuxEexist))).isSome := by
  refine ⟨?_, ?_, ?_⟩
  · decide +kernel
  · decide +kernel
  · decide +kernel

end Elfuse
