/-
Guest names in a directory of a case-folding volume.

`resolveComponent` decides under which host name a guest name lives: its
literal spelling when that is stored, its escape when that is, and otherwise
the spelling it would be created under. The volume is a directory `FoldDir`
whose lookups match names by the value of an arbitrary function `fold` and
which may refuse names; the codec's spellings are taken from an alphabet on
which `fold` is injective.

The guest sees the byte-exact directory `ExactDir`, the plain set of names it
created:

* `folding_directory_refines` — every run keeps the two in step.
-/
import Elfuse.Syscall.Casefold

namespace Elfuse

open List Bool

/-! ### Resolving one component -/

/-- Model of `probe_result_t`. -/
inductive Probe where
  | error
  | exact
  | folded
  | absent
  | unusable
  | notdir
  deriving DecidableEq, Repr

/-- Model of the part of `resolve_component` below the literal probe, whose
verdict is passed in. -/
def resolveEscape (probe : Name → Probe) (guest : Name) (hostsz : ℕ) (verdict : Probe) :
    Probe × Name :=
  match casefoldEscape guest hostsz with
  | .error _ => (.error, [])
  | .ok host =>
    match probe host with
    | .exact => (.exact, host)
    | .error => (.error, host)
    | _ =>
      if verdict = .absent ∨ verdict = .notdir then
        match nameByRule guest hostsz with
        | .error _ => (.error, host)
        | .ok host => (verdict, host)
      else (.folded, host)

/-- Model of `resolve_component`, over any way to probe a candidate: the
verdict and the host name written. -/
def resolveComponent (probe : Name → Probe) (guest : Name) (hostsz : ℕ) : Probe × Name :=
  if casefoldIsEscaped guest then resolveEscape probe guest hostsz .absent
  else
    match probe guest with
    | .error => (.error, [])
    | .exact => if hostsz ≤ guest.length then (.error, guest) else (.exact, guest)
    | verdict => resolveEscape probe guest hostsz verdict

/-! ### The volume -/

/-- A directory of a volume that takes names with one value of `fold` for the
same name and holds no name that it `refuses`. Lookups report the stored
spelling. -/
structure FoldDir {κ : Type*} (fold : Name → κ) (refuses : Name → Bool) where
  entries : List Name
  distinct : entries.Pairwise fun a b => fold a ≠ fold b
  usable : ∀ e ∈ entries, refuses e = false

namespace FoldDir

variable {κ : Type*} {fold : Name → κ} {refuses : Name → Bool}

lemma eq_of_fold {d : FoldDir fold refuses} (hn : n ∈ d.entries)
    (hm : m ∈ d.entries) (h : fold n = fold m) : n = m := by
  have : Std.Symm fun a b : Name => fold a ≠ fold b := ⟨fun _ _ hab => hab.symm⟩
  by_contra hne
  exact d.distinct.forall hn hm hne h

variable [DecidableEq κ]

def lookup (d : FoldDir fold refuses) (n : Name) : Option Name :=
  d.entries.find? fun e => fold e = fold n

/-- Model of `probe_exact`: compare the stored spelling, and on a mismatch look
the name up in the listing, as `probe_by_readdir` does. -/
def probeExact (d : FoldDir fold refuses) (n : Name) : Probe :=
  if refuses n then .unusable
  else
    match d.lookup n with
    | none => .absent
    | some stored =>
      if stored = n then .exact
      else if n ∈ d.entries then .exact
      else .folded

/-- An exclusive create on the volume: nothing happens when the name is refused
or reaches an entry. -/
def create (d : FoldDir fold refuses) (n : Name) : FoldDir fold refuses :=
  if h : refuses n = false ∧ ∀ e ∈ d.entries, fold n ≠ fold e then
    { entries := n :: d.entries
      distinct := List.pairwise_cons.mpr ⟨h.2, d.distinct⟩
      usable := by
        intro e he
        rcases List.mem_cons.mp he with rfl | he
        · exact h.1
        · exact d.usable e he }
  else d

def unlink (d : FoldDir fold refuses) (n : Name) : FoldDir fold refuses where
  entries := d.entries.filter fun e => fold e ≠ fold n
  distinct := d.distinct.filter _
  usable := by
    intro e he
    exact d.usable e (List.mem_filter.mp he).1

variable {d : FoldDir fold refuses} {n : Name}

lemma lookup_eq_none_iff : d.lookup n = none ↔ ∀ e ∈ d.entries, fold n ≠ fold e := by
  rw [lookup, find?_eq_none]
  grind

lemma probeExact_eq_exact_iff : d.probeExact n = .exact ↔ n ∈ d.entries := by
  constructor
  · intro h
    rw [probeExact] at h
    split at h
    · cases h
    split at h
    · cases h
    rename_i stored hstored
    split at h
    · rename_i heq
      exact heq ▸ mem_of_find?_eq_some hstored
    split at h
    · assumption
    · cases h
  · intro hn
    rw [probeExact, if_neg (by rw [d.usable n hn]; exact false_ne_true)]
    cases hl : d.lookup n with
    | none => exact absurd rfl (lookup_eq_none_iff.mp hl n hn)
    | some stored =>
      grind

lemma probeExact_absent (h : d.probeExact n = .absent) :
    refuses n = false ∧ ∀ e ∈ d.entries, fold n ≠ fold e := by
  rw [probeExact] at h
  split at h
  · cases h
  rename_i hrefuse
  split at h
  · rename_i hl
    exact ⟨by simpa using hrefuse, lookup_eq_none_iff.mp hl⟩
  grind

lemma probeExact_ne (d : FoldDir fold refuses) (n : Name) :
    d.probeExact n ≠ .error ∧ d.probeExact n ≠ .notdir := by
  grind [probeExact]

lemma mem_create (h : refuses n = false ∧ ∀ e ∈ d.entries, fold n ≠ fold e) :
    e ∈ (d.create n).entries ↔ e = n ∨ e ∈ d.entries := by
  rw [create, dif_pos h]
  exact mem_cons

lemma mem_unlink (hn : n ∈ d.entries) {e : Name} :
    e ∈ (d.unlink n).entries ↔ e ∈ d.entries ∧ e ≠ n := by
  rw [unlink, mem_filter, decide_eq_true_eq]
  constructor
  · grind
  · rintro ⟨he, hne⟩
    exact ⟨he, fun hfold => hne (eq_of_fold he hn hfold)⟩

end FoldDir

/-! ### Guest names of entries -/

def guestName (h : Name) : Name := (decodeLegal h).getD h

lemma casefoldToGuest_eq (hsz : (guestName h).length < outsz) :
    casefoldToGuest h outsz = .ok (guestName h) := by
  rw [casefoldToGuest, if_neg (by omega)]
  rw [guestName] at hsz ⊢
  grind

lemma guestName_of_ok (hok : casefoldToGuest h outsz = .ok g) : guestName h = g := by
  rw [casefoldToGuest] at hok
  split at hok
  · cases hok
  rw [guestName]
  cases hdec : decodeLegal h with
  | none =>
    grind
  | some k =>
    grind

lemma guestName_escapeOf {g : Name} (hg : decodedIsLegal g) : guestName (escapeOf g) = g := by
  rw [guestName, decodeLegal_eq_some_iff.mpr ⟨hg, rfl⟩]
  rfl

lemma guestName_literal {h : Name} (hesc : casefoldIsEscaped h = false) : guestName h = h := by
  rw [guestName, Option.not_isSome_iff_eq_none.mp (eq_false_iff.mp hesc)]
  rfl

lemma eq_escapeOf_guestName (hesc : casefoldIsEscaped h) :
    decodedIsLegal (guestName h) ∧ h = escapeOf (guestName h) := by
  obtain ⟨g, hdec⟩ := Option.isSome_iff_exists.mp hesc
  have hname : guestName h = g := by
    rw [guestName, hdec]
    rfl
  rw [hname]
  exact decodeLegal_eq_some_iff.mp hdec

lemma symbols_length (l : List ℕ) : (l.flatMap symbolWrite).length = 3 * l.length := by
  induction l with
  | nil => rfl
  | cons v l ih =>
    rw [flatMap_cons, length_append, ih, length_cons]
    change 3 + 3 * l.length = 3 * (l.length + 1)
    omega

lemma escapeOf_ne_self (g : Name) : escapeOf g ≠ g := by
  intro heq
  have hlen := congrArg length heq
  rw [escapeOf, length_append, show casefoldPrefix.length = 4 from rfl] at hlen
  split at hlen
  · rw [hexBytes_length] at hlen
    omega
  rw [symbols_length, symbolsOf, length_cons, length_map, length_range] at hlen
  simp only [casefoldSymbols, casefoldSymBits] at hlen
  omega

/-! ### Guest operations -/

/-- An operation of the guest on one name of the directory. -/
inductive DirOp where
  | create (g : Name)
  | unlink (g : Name)
  | lookup (g : Name)
  deriving DecidableEq, Repr

def DirOp.name : DirOp → Name
  | .create g | .unlink g | .lookup g => g

/-- The byte-exact directory the guest believes in: the names it holds. -/
def exactStep (held : Set Name) : DirOp → Set Name
  | .create g => insert g held
  | .unlink g => held \ {g}
  | .lookup _ => held

section Refinement

variable {κ : Type*} [DecidableEq κ] {fold : Name → κ} {refuses : Name → Bool}

/-- Resolution of a guest name in a directory, with the buffer the walk uses. -/
def FoldDir.resolve (d : FoldDir fold refuses) (g : Name) : Probe × Name :=
  resolveComponent d.probeExact g (casefoldHostNameMax + 1)

/-- A guest operation, performed on the host name the resolution returns. -/
def FoldDir.step (d : FoldDir fold refuses) : DirOp → FoldDir fold refuses
  | .create g =>
    match d.resolve g with
    | (.exact, _) | (.error, _) => d
    | (_, host) => d.create host
  | .unlink g =>
    match d.resolve g with
    | (.exact, host) => d.unlink host
    | _ => d
  | .lookup _ => d

/-- What is asked of the volume: it keeps plain names apart and refuses none. -/
structure FoldRules (fold : Name → κ) (refuses : Name → Bool) : Prop where
  plain_inj : ∀ s t, PlainName s → PlainName t → fold s = fold t → s = t
  plain_usable : ∀ s, PlainName s → refuses s = false

/-- The directory on the volume holds the names `held`: each has one entry, and
no entry sits in the slot of another name's escape. -/
structure Refines (d : FoldDir fold refuses) (held : Set Name) : Prop where
  holds : ∀ g, g ∈ held ↔ ∃ e ∈ d.entries, guestName e = g
  single : ∀ e ∈ d.entries, ∀ e' ∈ d.entries, guestName e = guestName e' → e = e'
  apart : ∀ e ∈ d.entries, ∀ g, decodedIsLegal g → fold e = fold (escapeOf g) → guestName e = g

variable {d : FoldDir fold refuses} {held : Set Name} {g : Name}

structure FreeSlot (d : FoldDir fold refuses) (g host : Name) : Prop where
  stands : guestName host = g
  plain : PlainName host
  free : refuses host = false ∧ ∀ e ∈ d.entries, fold host ≠ fold e

/-- What a resolution of `g` comes to: its entry, or a free slot of its own. -/
def FoundOrFree (d : FoldDir fold refuses) (held : Set Name) (g : Name) (r : Probe × Name) : Prop :=
  (r.1 = .exact ∧ r.2 ∈ d.entries ∧ guestName r.2 = g) ∨
    (g ∉ held ∧ (r.1 ≠ .exact ∧ r.1 ≠ .error) ∧ FreeSlot d g r.2)

lemma escape_not_entry {entries : List Name} (hlit : casefoldIsEscaped g ∨ g ∉ entries)
    (hin : escapeOf g ∉ entries) : ∀ e ∈ entries, guestName e ≠ g := by
  intro e he hname
  by_cases hesc : casefoldIsEscaped e
  · have heq := (eq_escapeOf_guestName hesc).2
    rw [hname] at heq
    exact hin (heq ▸ he)
  · rw [not_eq_true] at hesc
    grind [guestName_literal]

section
variable (rules : FoldRules fold refuses)
include rules

section
variable (h : Refines d held) (hg : decodedIsLegal g)
include h hg

/-- The escape probe and what follows it, for a name that has no entry at its
literal spelling. -/
lemma resolveEscape_spec {v : Probe}
    (hv : v = .absent ∨ v = .folded ∨ v = .unusable) (hlit : casefoldIsEscaped g ∨ g ∉ d.entries)
    (habsent : v = .absent → casefoldIsEscaped g ∨
      refuses g = false ∧ ∀ e ∈ d.entries, fold g ≠ fold e) :
    FoundOrFree d held g (resolveEscape d.probeExact g (casefoldHostNameMax + 1) v) := by
  obtain ⟨hpos, hmax, -⟩ := (decodedIsLegal_iff g).mp hg
  have hesc := casefoldEscape_eq hg (Nat.lt_succ_self casefoldHostNameMax)
  by_cases hin : escapeOf g ∈ d.entries
  · left
    rw [resolveEscape, hesc]
    dsimp only
    rw [FoldDir.probeExact_eq_exact_iff.mpr hin]
    exact ⟨rfl, hin, guestName_escapeOf hg⟩
  right
  have hnone := escape_not_entry hlit hin
  refine ⟨fun hheld => ?_, ?_⟩
  · obtain ⟨e, he, hname⟩ := (h.holds g).mp hheld
    exact hnone e he hname
  -- nothing folds onto the slot of the escape either
  have hslot : FreeSlot d g (escapeOf g) :=
    ⟨guestName_escapeOf hg, escapeOf_plain hmax, rules.plain_usable _ (escapeOf_plain hmax),
      fun e he hfold => hnone e he (h.apart e he g hg hfold.symm)⟩
  have hnext : resolveEscape d.probeExact g (casefoldHostNameMax + 1) v =
      if v = .absent ∨ v = .notdir then (v, if casefoldNeedsEscape g then escapeOf g else g)
      else (.folded, escapeOf g) := by
    rw [resolveEscape, hesc]
    dsimp only
    rw [nameByRule_eq hg (Nat.lt_succ_self _)]
    cases hp : d.probeExact (escapeOf g) with
    | exact => exact absurd (FoldDir.probeExact_eq_exact_iff.mp hp) hin
    | error => exact absurd hp (d.probeExact_ne (escapeOf g)).1
    | folded | absent | unusable | notdir => rfl
  rw [hnext]
  rcases hv with rfl | rfl | rfl
  · rw [if_pos (.inl rfl)]
    refine ⟨by simp, ?_⟩
    split
    · exact hslot
    rename_i hneed
    have hplain := needsEscape_eq_false (length_pos_iff.mp (by omega)) (not_eq_true _ ▸ hneed)
    refine ⟨guestName_literal hplain.2, hplain.1, ?_⟩
    rcases habsent rfl with hesc' | hfree
    · rw [hplain.2] at hesc'
      cases hesc'
    · exact hfree
  · rw [if_neg (by decide)]
    exact ⟨by simp, hslot⟩
  · rw [if_neg (by decide)]
    exact ⟨by simp, hslot⟩

/-- Where a guest name is found and, if it is not, a free slot of its own. -/
lemma resolve_spec : FoundOrFree d held g (d.resolve g) := by
  rw [FoldDir.resolve, resolveComponent]
  split
  · rename_i hesc
    exact resolveEscape_spec rules h hg (.inl rfl) (.inl hesc) fun _ => .inl hesc
  rename_i hesc
  have hnin (hp : d.probeExact g ≠ .exact) : casefoldIsEscaped g ∨ g ∉ d.entries :=
    .inr fun hin => hp (FoldDir.probeExact_eq_exact_iff.mpr hin)
  cases hp : d.probeExact g with
  | error => exact absurd hp (d.probeExact_ne g).1
  | notdir => exact absurd hp (d.probeExact_ne g).2
  | exact =>
    obtain ⟨-, hmax, -⟩ := (decodedIsLegal_iff g).mp hg
    have hhost : casefoldHostNameMax = 517 := rfl
    have hguest : casefoldGuestNameMax = 255 := rfl
    rw [if_neg (by omega)]
    exact .inl ⟨rfl, FoldDir.probeExact_eq_exact_iff.mp hp,
      guestName_literal (not_eq_true _ ▸ hesc)⟩
  | absent =>
    have hfree := FoldDir.probeExact_absent hp
    exact resolveEscape_spec rules h hg (.inl rfl) (hnin (by rw [hp]; decide)) fun _ => .inr hfree
  | folded =>
    exact resolveEscape_spec rules h hg (.inr (.inl rfl)) (hnin (by rw [hp]; decide)) nofun
  | unusable =>
    exact resolveEscape_spec rules h hg (.inr (.inr rfl)) (hnin (by rw [hp]; decide)) nofun

lemma resolve_exact_iff : (d.resolve g).1 = .exact ↔ g ∈ held := by
  rcases resolve_spec rules h hg with ⟨hexact, he, hname⟩ | ⟨hnot, hv, -⟩
  · exact iff_of_true hexact ((h.holds g).mpr ⟨_, he, hname⟩)
  · exact iff_of_false hv.1 hnot

lemma step_create : Refines (d.step (.create g)) (insert g held) := by
  have hspec := resolve_spec rules h hg
  rw [FoldDir.step]
  generalize d.resolve g = r at hspec
  obtain ⟨v, host⟩ := r
  rcases hspec with ⟨rfl, he, hname⟩ | ⟨hnot, hv, hname, hplain, hfree⟩
  · rw [Set.insert_eq_of_mem ((h.holds g).mpr ⟨host, he, hname⟩)]
    exact h
  dsimp only at hv hname hplain hfree
  have hnone : ∀ e ∈ d.entries, guestName e ≠ g := fun e he hn =>
    hnot ((h.holds g).mpr ⟨e, he, hn⟩)
  have hcreate : Refines (d.create host) (insert g held) := by
    constructor
    · intro k
      simp only [FoldDir.mem_create hfree, Set.mem_insert_iff, h.holds]
      grind
    · intro e he e' he' heq
      rcases (FoldDir.mem_create hfree).mp he with hnew | hold <;>
        rcases (FoldDir.mem_create hfree).mp he' with hnew' | hold'
      · rw [hnew, hnew']
      · grind
      · grind
      · exact h.single e hold e' hold' heq
    intro e he k hk hfold
    rcases (FoldDir.mem_create hfree).mp he with rfl | he
    · obtain ⟨-, hmax, -⟩ := (decodedIsLegal_iff k).mp hk
      rw [rules.plain_inj _ _ hplain (escapeOf_plain hmax) hfold]
      exact guestName_escapeOf hk
    · exact h.apart e he k hk hfold
  grind

lemma step_unlink : Refines (d.step (.unlink g)) (held \ {g}) := by
  have hspec := resolve_spec rules h hg
  rw [FoldDir.step]
  generalize d.resolve g = r at hspec
  obtain ⟨v, e⟩ := r
  rcases hspec with ⟨rfl, he, hname⟩ | ⟨hnot, hv, -⟩
  · have hmem {e' : Name} := @FoldDir.mem_unlink κ fold refuses _ d e he e'
    constructor
    · intro k
      rw [Set.mem_sdiff, Set.mem_singleton_iff, h.holds]
      constructor
      · grind
      rintro ⟨e', he', hk⟩
      obtain ⟨he', hne⟩ := hmem.mp he'
      refine ⟨⟨e', he', hk⟩, fun hkg => hne ?_⟩
      exact h.single e' he' e he (by rw [hk, hname, hkg])
    · intro e1 he1 e2 he2
      exact h.single e1 (hmem.mp he1).1 e2 (hmem.mp he2).1
    · intro e1 he1
      exact h.apart e1 (hmem.mp he1).1
  grind [Set.sdiff_singleton_eq_self]

end

/-- One guest operation keeps the two directories in step. -/
lemma Refines.step (h : Refines d held) (op : DirOp) (hop : decodedIsLegal op.name) :
    Refines (d.step op) (exactStep held op) := by
  cases op with
  | create g => exact step_create rules h hop
  | unlink g => exact step_unlink rules h hop
  | lookup g => exact h

lemma Refines.run {ops : List DirOp} :
    ∀ {d : FoldDir fold refuses} {held : Set Name}, Refines d held →
      (∀ op ∈ ops, decodedIsLegal op.name) →
      Refines (ops.foldl FoldDir.step d) (ops.foldl exactStep held) := by
  induction ops with
  | nil => exact fun h _ => h
  | cons op ops ih =>
    intro d held h hops
    exact ih (h.step rules op (hops op (by simp))) fun o ho => hops o (by simp [ho])

end

/-- No entry is fold-equal to the escape of another name. An escape stored
earlier is the one exception: it stands for its own name, alone. -/
def OwnSlots (d : FoldDir fold refuses) : Prop :=
  ∀ e ∈ d.entries, ∀ g, decodedIsLegal g → g ≠ e → fold e = fold (escapeOf g) →
    guestName e = g ∧ ∀ e' ∈ d.entries, guestName e' = g → e' = e

def FoldDir.names (d : FoldDir fold refuses) : Set Name := {g | ∃ e ∈ d.entries, guestName e = g}

omit [DecidableEq κ] in
lemma OwnSlots.refines (rules : FoldRules fold refuses) (h : OwnSlots d) : Refines d d.names := by
  constructor
  · exact fun g => Iff.rfl
  · -- one of two entries for a name would be its escape
    have hescaped : ∀ e ∈ d.entries, casefoldIsEscaped e → ∀ e' ∈ d.entries,
        guestName e' = guestName e → e' = e := by
      intro e he hesc e' he' heq
      obtain ⟨hlegal, hescape⟩ := eq_escapeOf_guestName hesc
      have hne : guestName e ≠ e := by
        intro hself
        rw [hself] at hescape
        exact escapeOf_ne_self e hescape.symm
      exact (h e he _ hlegal hne (congrArg fold hescape)).2 e' he' heq
    intro e he e' he' heq
    by_cases hesc : casefoldIsEscaped e
    · grind
    by_cases hesc' : casefoldIsEscaped e'
    · exact hescaped e' he' hesc' e he heq
    · rw [not_eq_true] at hesc hesc'
      rwa [guestName_literal hesc, guestName_literal hesc'] at heq
  · intro e he g hg hfold
    by_cases hge : g = e
    · subst hge
      apply guestName_literal
      rw [← not_eq_true]
      intro hesc
      obtain ⟨hlegal, hescape⟩ := eq_escapeOf_guestName hesc
      obtain ⟨-, hmax, -⟩ := (decodedIsLegal_iff g).mp hg
      obtain ⟨-, hmax', -⟩ := (decodedIsLegal_iff _).mp hlegal
      have hplain : PlainName g := hescape ▸ escapeOf_plain hmax'
      exact escapeOf_ne_self g (rules.plain_inj _ _ hplain (escapeOf_plain hmax) hfold).symm
    · exact (h e he g hg hge hfold).1

/-- A folding directory refines a byte-exact one along every run of guest
operations: a lookup answers `exact` for the names held and no others, through
an entry that decodes to the name, no two names share an entry, and no name has
two. -/
theorem folding_directory_refines (rules : FoldRules fold refuses) (d₀ : FoldDir fold refuses)
    (hinit : OwnSlots d₀) (ops : List DirOp) (hops : ∀ op ∈ ops, decodedIsLegal op.name) :
    (∀ g, decodedIsLegal g → (((ops.foldl FoldDir.step d₀).resolve g).1 = .exact ↔
      g ∈ ops.foldl exactStep d₀.names)) ∧
    (∀ g h, decodedIsLegal g → (ops.foldl FoldDir.step d₀).resolve g = (.exact, h) →
      h ∈ (ops.foldl FoldDir.step d₀).entries ∧
        ∀ outsz, g.length < outsz → casefoldToGuest h outsz = .ok g) ∧
    (∀ g k h, decodedIsLegal g → decodedIsLegal k →
      (ops.foldl FoldDir.step d₀).resolve g = (.exact, h) →
      (ops.foldl FoldDir.step d₀).resolve k = (.exact, h) → g = k) ∧
    (∀ e ∈ (ops.foldl FoldDir.step d₀).entries, ∀ e' ∈ (ops.foldl FoldDir.step d₀).entries,
      ∀ g n m, casefoldToGuest e n = .ok g → casefoldToGuest e' m = .ok g → e = e') := by
  have h := (hinit.refines rules).run rules hops
  generalize ops.foldl FoldDir.step d₀ = d at h
  generalize ops.foldl exactStep d₀.names = held at h
  have hfound : ∀ g h, decodedIsLegal g → d.resolve g = (.exact, h) →
      h ∈ d.entries ∧ guestName h = g := by
    intro g e hg hres
    have hspec := resolve_spec rules h hg
    rw [hres] at hspec
    rcases hspec with ⟨-, he, hname⟩ | ⟨-, hv, -⟩
    · exact ⟨he, hname⟩
    · exact absurd rfl hv.1
  refine ⟨fun g hg => resolve_exact_iff rules h hg, ?_, ?_, ?_⟩
  · intro g e hg hres
    obtain ⟨he, hname⟩ := hfound g e hg hres
    refine ⟨he, fun outsz hsz => ?_⟩
    rw [casefoldToGuest_eq (by rwa [hname]), hname]
  · intro g k e hg hk hgres hkres
    rw [← (hfound g e hg hgres).2, (hfound k e hk hkres).2]
  · intro e he e' he' g n m hok hok'
    exact h.single e he e' he' (by rw [guestName_of_ok hok, guestName_of_ok hok'])

end Refinement

/-! ### A folding volume -/

def asciiFold (n : Name) : Name := n.map fun b => if 0x41 ≤ b ∧ b ≤ 0x5A then b + 0x20 else b

lemma asciiFold_plain (h : PlainName s) : asciiFold s = s := by
  have hlead : ∀ a < 16, ¬ ((0x41 : UInt8) ≤ UInt8.ofNat (0xE0 + a) ∧
      UInt8.ofNat (0xE0 + a) ≤ 0x5A) := by decide
  have htail : ∀ b < 64, ¬ ((0x41 : UInt8) ≤ UInt8.ofNat (0x80 + b) ∧
      UInt8.ofNat (0x80 + b) ≤ 0x5A) := by decide
  induction h with
  | nil => rfl
  | ascii _ hup _ ih =>
    rw [asciiFold, map_cons, if_neg hup]
    exact congrArg _ ih
  | @symbol v s hv _ ih =>
    rw [asciiFold, map_append, symbolWrite_eq hv]
    simp only [map_cons, map_nil]
    rw [if_neg (hlead _ (by have : v < 4096 := hv; omega)), if_neg (htail _ (by omega)),
      if_neg (htail _ (by omega))]
    exact congrArg _ ih

lemma asciiFold_rules : FoldRules asciiFold fun _ => false where
  plain_inj := by
    intro s t hs ht h
    rwa [asciiFold_plain hs, asciiFold_plain ht] at h
  plain_usable := fun _ _ => rfl

def emptyFoldDir : FoldDir asciiFold fun _ => false := ⟨[], .nil, nofun⟩

/-- `Foo` and `foo` created, `Foo` unlinked: `foo` is still found. -/
theorem folding_directory_refines_foo : ((([.create [0x46, 0x6F, 0x6F], .create [0x66, 0x6F, 0x6F],
    .unlink [0x46, 0x6F, 0x6F]] : List DirOp).foldl FoldDir.step emptyFoldDir).resolve
      [0x66, 0x6F, 0x6F]).1 = .exact :=
  ((folding_directory_refines asciiFold_rules emptyFoldDir nofun
      [.create [0x46, 0x6F, 0x6F], .create [0x66, 0x6F, 0x6F], .unlink [0x46, 0x6F, 0x6F]]
      (by decide)).1 [0x66, 0x6F, 0x6F] (by decide)).mpr
    ⟨.inl rfl, by decide⟩

end Elfuse
