/-
Owners that only the guest sees (`syscall/chown-overlay.c`, `syscall/fs.c`).

The host lets only its superuser give files away. A `chown` it refuses succeeds
for the guest all the same: the ids asked for are kept in a table, and `stat`
lays them over the host's. An override that has become redundant is dropped, and
whether it has is judged by comparing with ids that were read through the table.

* `Ids.over` — one pair of ids laid over another, as every step here does it;
* `chown_last_write` — as long as each call that changes nothing for the guest is
  made where the host shows the same ids, `stat` reports what was written last;
* `chown_forgets` — the same call made twice drops the override.
-/
import Elfuse.Core.Layout
import Elfuse.Lib.Runs

namespace Elfuse

open Runs List Option

/-! ### The table -/

/-- `(uint32_t) -1`: leave the field as it is. -/
def keepId : ℕ := 2 ^ 32 - 1

@[ext] structure Ids where
  uid : ℕ
  gid : ℕ
  deriving DecidableEq, Repr

def keepIds : Ids := ⟨keepId, keepId⟩

/-- The fields of `new` that are not `-1`, and the others of `cur`. -/
def Ids.over (new cur : Ids) : Ids :=
  ⟨if new.uid = keepId then cur.uid else new.uid, if new.gid = keepId then cur.gid else new.gid⟩

abbrev FileId := ℕ × ℕ

structure OverlayEntry where
  file : FileId
  ids : Ids

/-- The entries; every search compares device and inode, so the chains of the hash table are one
list here, and `entry_count` is its length. -/
abbrev OverlayTable := List OverlayEntry

def findLocked (t : OverlayTable) (f : FileId) : Option OverlayEntry :=
  t.find? fun e => decide (e.file = f)

def removeLocked (t : OverlayTable) (f : FileId) : OverlayTable :=
  t.eraseP fun e => decide (e.file = f)

/-- The fields of the file's entry are set, and the entry goes if that leaves `cur`. -/
def overlayAssign (t : OverlayTable) (f : FileId) (new cur : Ids) : OverlayTable :=
  let t' := t.map fun e => if e.file = f then { e with ids := new.over e.ids } else e
  match findLocked t' f with
  | none => t'
  | some e => if e.ids.over cur = cur then removeLocked t' f else t'

/-- Model of `chown_overlay_set`; `alloc` says whether a new entry can be allocated. -/
def chownOverlaySet (t : OverlayTable) (f : FileId) (new cur : Ids) (alloc : Bool) :
    ℤ × OverlayTable :=
  match findLocked t f with
  | some _ => (0, overlayAssign t f new cur)
  | none =>
    if new.over cur = cur then (0, t)
    else if alloc then (0, overlayAssign (⟨f, keepIds⟩ :: t) f new cur)
    else (-1, t)

def chownOverlayApply (t : OverlayTable) (f : FileId) (st : Ids) : Ids :=
  if t.length = 0 then st
  else match findLocked t f with
    | none => st
    | some e => e.ids.over st

def chownOverlayMaxEntries : ℕ := 2 ^ 20

/-- Model of `chown_overlay_send`: the records, unless there are too many. -/
def chownOverlaySend (t : OverlayTable) : Option (List OverlayEntry) :=
  if chownOverlayMaxEntries < t.length then none else some t

def chownOverlayRecv (records : List OverlayEntry) : OverlayTable :=
  records.foldl (fun t e => e :: t) []

/-! ### Calls -/

/-- A call of `sys_fchown`, or of `sys_fchownat` with a path; whether the host refuses it with
EPERM, whether its `stat`s find the file, and whether an entry can be allocated. -/
structure ChownCall where
  path : Bool
  file : FileId
  ids : Ids
  refused : Bool
  seen : Bool
  alloc : Bool

def ChownCall.hostIds (c : ChownCall) (host : Ids) : Ids :=
  if c.refused then host else c.ids.over host

def chownResult (t : OverlayTable) (c : ChownCall) (host : Ids) : ℤ × OverlayTable :=
  if c.seen then
    let res := chownOverlaySet t c.file c.ids (chownOverlayApply t c.file host) c.alloc
    if res.1 < 0 then (-linuxEnomem, res.2) else (0, res.2)
  else (0, t)

/-- Models of `sys_fchown` and `sys_fchownat`: only the latter gives up on a file it cannot
identify. -/
def sysFchown (t : OverlayTable) (c : ChownCall) (host : Ids) : ℤ × OverlayTable :=
  if c.path ∧ c.refused ∧ ¬ c.seen then (-linuxEagain, t) else chownResult t c (c.hostIds host)

/-- The table, the host's ids, and beside them the ids last written by a call that returned 0. -/
structure OwnerSys where
  table : OverlayTable
  host : FileId → Ids
  cells : FileId → Ids

def OwnerSys.stat (s : OwnerSys) (f : FileId) : Ids := chownOverlayApply s.table f (s.host f)

inductive OwnerOp
  | chown (c : ChownCall)
  | stat (f : FileId)
  | fork

def OwnerSys.next (s : OwnerSys) : OwnerOp → Option OwnerSys
  | .chown c =>
    let res := sysFchown s.table c (s.host c.file)
    some
      { table := res.2
        host := Function.update s.host c.file (c.hostIds (s.host c.file))
        cells := if res.1 = 0 then Function.update s.cells c.file (c.ids.over (s.cells c.file))
          else s.cells }
  | .stat _ => some s
  | .fork => (chownOverlaySend s.table).map fun records =>
      { s with table := chownOverlayRecv records }

def OwnerSys.init (host : FileId → Ids) : OwnerSys := ⟨[], host, host⟩

/-- The host's `stat` finds the file, and a call that names no id other than those the guest sees is
made only where the host shows the same ids. -/
def OwnerFair (s : OwnerSys) : OwnerOp → Prop
  | .chown c => c.seen = true ∧
      let cur := chownOverlayApply s.table c.file (c.hostIds (s.host c.file))
      c.ids.over cur = cur → cur = c.hostIds (s.host c.file)
  | _ => True

/-! ### Laying ids over ids -/

variable {t : OverlayTable} {f : FileId} {c : Ids} {s s' : OwnerSys}

@[simp] lemma keepIds_over (a : Ids) : keepIds.over a = a := by simp [Ids.over, keepIds]

@[simp] lemma over_keepIds (a : Ids) : a.over keepIds = a := by
  ext <;> simp only [Ids.over, keepIds] <;> split <;> simp [*]

lemma over_assoc (a b c : Ids) : (a.over b).over c = a.over (b.over c) := by
  ext <;> simp only [Ids.over] <;> split <;> simp [*]

@[simp] lemma over_self (a : Ids) : a.over a = a := by
  ext <;> simp [Ids.over]

lemma over_over_over (a b c : Ids) : a.over (b.over (a.over c)) = a.over (b.over c) := by
  ext <;> simp only [Ids.over] <;> split <;> simp [*]

/-! ### Lookups -/

def overlaid (t : OverlayTable) (f : FileId) : Ids :=
  ((findLocked t f).map OverlayEntry.ids).getD keepIds

def Distinct (t : OverlayTable) : Prop := t.Pairwise fun e e' => e.file ≠ e'.file

lemma overlaid_cons (e : OverlayEntry) (t : OverlayTable) (f : FileId) :
    overlaid (e :: t) f = if e.file = f then e.ids else overlaid t f := by
  by_cases he : e.file = f <;> simp [overlaid, findLocked, he]

lemma apply_eq (t : OverlayTable) (f : FileId) (st : Ids) :
    chownOverlayApply t f st = (overlaid t f).over st := by
  unfold chownOverlayApply overlaid
  cases hf : findLocked t f with
  | none => simp
  | some e =>
    have hne : t.length ≠ 0 := by
      rintro h
      rw [length_eq_zero_iff.mp h] at hf
      cases hf
    simp [hne]

lemma findLocked_iff (h : Distinct t) : findLocked t f = some e ↔ e ∈ t ∧ e.file = f := by
  constructor
  · intro hf
    exact ⟨mem_of_find?_eq_some hf, by simpa using find?_some hf⟩
  rintro ⟨he, rfl⟩
  induction t with
  | nil => cases he
  | cons x t ih =>
    obtain ⟨hx, ht⟩ := pairwise_cons.mp h
    obtain rfl | he := mem_cons.mp he
    · simp [findLocked]
    · have hne := hx e he
      simpa [findLocked, hne] using ih ht he

lemma overlaid_reverse (h : Distinct t) (f : FileId) : overlaid t.reverse f = overlaid t f := by
  have h' : Distinct t.reverse := pairwise_reverse.mpr (h.imp Ne.symm)
  have hfind : findLocked t.reverse f = findLocked t f := by
    ext e
    rw [findLocked_iff h', findLocked_iff h, mem_reverse]
  rw [overlaid, hfind, overlaid]

lemma findLocked_map (t : OverlayTable) (f f' : FileId) (new : Ids) :
    findLocked (t.map fun e => if e.file = f then { e with ids := new.over e.ids } else e) f' =
      (findLocked t f').map fun e => if e.file = f then { e with ids := new.over e.ids } else
          e := by
  rw [findLocked, find?_map, findLocked]
  congr 2
  funext e
  by_cases he : e.file = f <;> simp [he]

lemma Distinct.map (h : Distinct t) (f : FileId) (new : Ids) :
    Distinct (t.map fun e => if e.file = f then { e with ids := new.over e.ids } else e) := by
  refine pairwise_map.mpr (h.imp ?_)
  intro e e' hne
  by_cases he : e.file = f <;> by_cases he' : e'.file = f <;> simp_all

lemma overlaid_remove (h : Distinct t) (f f' : FileId) :
    overlaid (removeLocked t f) f' = if f' = f then keepIds else overlaid t f' := by
  induction t with
  | nil => simp [overlaid, removeLocked, findLocked]
  | cons x t ih =>
    obtain ⟨hx, ht⟩ := pairwise_cons.mp h
    have ih := ih ht
    by_cases hxf : x.file = f
    · have hgone : removeLocked (x :: t) f = t := by simp [removeLocked, hxf]
      rw [hgone]
      by_cases hf' : f' = f
      · have hnone : findLocked t f' = none := by
          refine find?_eq_none.mpr fun e he => ?_
          simpa [hf', ← hxf] using Ne.symm (hx e he)
        simp [hf', overlaid, hf' ▸ hnone]
      · simp [hf', overlaid_cons, hxf, Ne.symm hf']
    have hstay : removeLocked (x :: t) f = x :: removeLocked t f := by
      simp [removeLocked, hxf]
    rw [hstay, overlaid_cons, overlaid_cons]
    by_cases hx' : x.file = f'
    · have hf' : f' ≠ f := hx' ▸ hxf
      simp [hx', hf']
    · simpa [hx'] using ih

lemma overlaid_map_other (t : OverlayTable) (hf : f' ≠ f) (new : Ids) :
    overlaid (t.map fun e => if e.file = f then { e with ids := new.over e.ids } else e) f' =
      overlaid t f' := by
  rw [overlaid, findLocked_map, overlaid]
  cases hfind : findLocked t f' with
  | none => rfl
  | some e =>
    have hfile : e.file = f' := by simpa using find?_some hfind
    simp [hfile, hf]

lemma overlaid_assign (h : Distinct t) (hin : findLocked t f ≠ none) (new cur : Ids) :
    Distinct (overlayAssign t f new cur) ∧ ∀ f', overlaid (overlayAssign t f new cur) f' =
      if f' = f then if (new.over (overlaid t f)).over cur = cur then keepIds
        else new.over (overlaid t f) else overlaid t f' := by
  obtain ⟨e, he⟩ := ne_none_iff_exists'.mp hin
  have hfile := ((findLocked_iff h).mp he).2
  have hover : overlaid t f = e.ids := by simp [overlaid, he]
  have hd := h.map f new
  unfold overlayAssign
  dsimp only
  rw [findLocked_map, he, map_some, if_pos hfile, hover]
  dsimp only
  split
  · refine ⟨hd.sublist eraseP_sublist, fun f' => ?_⟩
    rw [overlaid_remove hd]
    by_cases hf' : f' = f
    · simp [hf']
    · simp [hf', overlaid_map_other]
  refine ⟨hd, fun f' => ?_⟩
  by_cases hf' : f' = f
  · rw [hf', overlaid, findLocked_map]
    simp [he, hfile]
  · simp [hf', overlaid_map_other]

/-- A call that succeeds writes its ids over the file's override, or drops it; one that fails
changes nothing. -/
lemma overlaid_set (h : Distinct t) (new cur : Ids) (alloc : Bool) :
    Distinct (chownOverlaySet t f new cur alloc).2 ∧
    (chownOverlaySet t f new cur alloc = (-1, t) ∧ overlaid t f = keepIds ∧ new.over cur ≠ cur ∨
      (chownOverlaySet t f new cur alloc).1 = 0 ∧ ∀ f',
          overlaid (chownOverlaySet t f new cur alloc).2 f' =
        if f' = f then if new.over ((overlaid t f).over cur) = cur then keepIds
          else new.over (overlaid t f) else overlaid t f') := by
  unfold chownOverlaySet
  cases hf : findLocked t f with
  | some e =>
    obtain ⟨hd, hover⟩ := overlaid_assign (f := f) h (by simp [hf]) new cur
    refine ⟨hd, .inr ⟨rfl, fun f' => ?_⟩⟩
    rw [hover, over_assoc]
  | none =>
    have hnone : overlaid t f = keepIds := by simp [overlaid, hf]
    dsimp only
    split
    · rename_i hsame
      refine ⟨h, .inr ⟨rfl, fun f' => ?_⟩⟩
      by_cases hf' : f' = f <;> simp [hf', hnone, hsame]
    rename_i hdiff
    split
    · have hnew : ∀ e ∈ t, f ≠ e.file := by
        intro e he heq
        exact absurd (find?_eq_none.mp hf e he) (by simp [heq])
      have hcons : Distinct (⟨f, keepIds⟩ :: t) := pairwise_cons.mpr ⟨hnew, h⟩
      obtain ⟨hd, hover⟩ := overlaid_assign (f := f) hcons (by simp [findLocked]) new cur
      refine ⟨hd, .inr ⟨rfl, fun f' => ?_⟩⟩
      rw [hover, overlaid_cons, overlaid_cons]
      by_cases hf' : f' = f
      · simp [hf', hnone, hdiff]
      · simp [hf', Ne.symm hf']
    · exact ⟨h, .inl ⟨rfl, hnone, hdiff⟩⟩

/-! ### Whole runs -/

structure OwnerOk (s : OwnerSys) : Prop where
  distinct : Distinct s.table
  shown : ∀ f, (overlaid s.table f).over (s.host f) = s.cells f

/-- The call on a file: what the guest saw with the ids of the call over it. -/
lemma OwnerOk.chown {c : ChownCall} (h : OwnerOk s) (hfair : OwnerFair s (.chown c))
    (hs : s.next (.chown c) = some s') : OwnerOk s' := by
  obtain ⟨hseen, hchange⟩ := hfair
  rw [apply_eq] at hchange
  cases hs
  have hset := overlaid_set (f := c.file) h.distinct c.ids
    ((overlaid s.table c.file).over (c.hostIds (s.host c.file))) c.alloc
  have hsys : sysFchown s.table c (s.host c.file) =
      let res := chownOverlaySet s.table c.file c.ids
        ((overlaid s.table c.file).over (c.hostIds (s.host c.file))) c.alloc
      if res.1 < 0 then (-linuxEnomem, res.2) else (0, res.2) := by
    simp [sysFchown, chownResult, hseen, apply_eq]
  rw [hsys]
  generalize chownOverlaySet s.table c.file c.ids _ c.alloc = res at hset ⊢
  obtain ⟨hd, ⟨rfl, hnone, hdiff⟩ | ⟨hret, hover⟩⟩ := hset
  · -- only a change that the host has refused needs an entry
    have hhost : c.hostIds (s.host c.file) = s.host c.file := by
      unfold ChownCall.hostIds at hdiff ⊢
      split
      · rfl
      rename_i hdone
      rw [if_neg hdone, hnone, keepIds_over, ← over_assoc, over_self] at hdiff
      exact absurd rfl hdiff
    refine ⟨hd, fun f => ?_⟩
    simpa [hhost, linuxEnomem] using h.shown f
  refine ⟨by simpa [hret] using hd, fun f => ?_⟩
  by_cases hf : f = c.file
  · subst hf
    have hwrite : c.ids.over ((overlaid s.table c.file).over (c.hostIds (s.host c.file))) =
        c.ids.over (s.cells c.file) := by
      unfold ChownCall.hostIds
      split
      · rw [h.shown]
      · rw [over_over_over, h.shown]
    simp only [hret, hover, Int.lt_irrefl, if_false, if_true, Function.update_self, ← over_assoc,
      over_self]
    rw [← hwrite, over_assoc]
    split
    · rename_i hsame
      -- nothing changes for the guest, so the override that goes was the host's own value
      rw [keepIds_over, hsame, hchange hsame]
    · rw [over_assoc]
  · simpa [hret, hf, hover] using h.shown f

lemma OwnerOk.fork (h : OwnerOk s) (hs : s.next .fork = some s') : OwnerOk s' := by
  obtain ⟨records, hsend, rfl⟩ := map_eq_some_iff.mp hs
  unfold chownOverlaySend at hsend
  split at hsend
  · cases hsend
  cases hsend
  have hrecv : chownOverlayRecv s.table = s.table.reverse := by
    simp [chownOverlayRecv, foldl_flip_cons_eq_append]
  refine ⟨?_, fun f => ?_⟩
  · rw [hrecv]
    exact pairwise_reverse.mpr (h.distinct.imp Ne.symm)
  · rw [hrecv, overlaid_reverse h.distinct]
    exact h.shown f

/-- On every run of calls, `stat`s and forks whose steps are fair, `stat` reports of every file the
ids that were written last. -/
theorem chown_last_write {host : FileId → Ids} {ops : List OwnerOp} {s : OwnerSys}
    (hfair : Meets OwnerSys.next OwnerFair (OwnerSys.init host) ops)
    (h : exec OwnerSys.next (OwnerSys.init host) ops = some s) (f : FileId) :
    s.stat f = s.cells f := by
  have hok : OwnerOk s := by
    refine exec_keeps_of_meets (P := OwnerOk) OwnerFair ?_ ?_ hfair h
    · intro s op s' hs hop hn
      cases op with
      | chown c => exact hs.chown hop hn
      | stat f =>
        cases hn
        exact hs
      | fork => exact hs.fork hn
    · exact ⟨List.Pairwise.nil, fun _ => keepIds_over _⟩
  rw [OwnerSys.stat, apply_eq, hok.shown]

def refusedChown (ids : Ids) : OwnerOp := .chown ⟨false, (1, 7), ids, true, true, true⟩

theorem chown_last_write_group : ∃ s, exec OwnerSys.next (OwnerSys.init fun _ => ⟨501, 20⟩)
        [refusedChown ⟨0, 0⟩, refusedChown ⟨keepId, 5⟩, .fork] = some s ∧
      s.stat (1, 7) = ⟨0, 5⟩ ∧ s.stat (1, 7) = s.cells (1, 7) := by
  have hfair : Meets OwnerSys.next OwnerFair (OwnerSys.init fun _ => ⟨501, 20⟩)
      [refusedChown ⟨0, 0⟩, refusedChown ⟨keepId, 5⟩, .fork] := by
    refine ⟨⟨rfl, by decide⟩, ?_⟩
    rintro _ ⟨⟩
    refine ⟨⟨rfl, by decide⟩, ?_⟩
    rintro _ ⟨⟩
    exact ⟨trivial, fun _ _ => trivial⟩
  exact ⟨_, rfl, by decide, chown_last_write hfair rfl _⟩

/-- The same call twice: the second drops the override, and the file belongs to its host owner
again. -/
theorem chown_forgets :
    ((exec OwnerSys.next (OwnerSys.init fun _ => ⟨501, 20⟩) [refusedChown ⟨0, 0⟩]).map
      fun s => s.stat (1, 7)) = some ⟨0, 0⟩ ∧
    ((exec OwnerSys.next (OwnerSys.init fun _ => ⟨501, 20⟩)
      [refusedChown ⟨0, 0⟩, refusedChown ⟨0, 0⟩]).map fun s => (s.stat (1, 7), s.cells (1, 7))) =
        some (⟨501, 20⟩, ⟨0, 0⟩) := by
  decide

end Elfuse
