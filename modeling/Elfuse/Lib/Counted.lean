/-
Reference-counted objects and the resources they keep.

Parties hold resources, references to objects, and the memory of objects that
nobody refers to any more. An object keeps assets of its own as long as its
count is not zero; with the last reference they go, together with the object's
memory, to the party that dropped it. The books balance (`Balanced`) when a
resource that is there has one holder, an object is referred to as often as its
count says, and the memory of an object is the object's own until its count is
zero and some party's after.

* `Balanced.hand`, `Balanced.retain`, `Balanced.release`, `Balanced.last`,
  `Balanced.create`, `Balanced.destroy`, `Balanced.appear`, `Balanced.vanish` —
  the ways to change the state that keep the balance;
* `Balanced.present`, `Balanced.referred`, `Balanced.mem_dead` — what a holder
  can rely on;
* `Balanced.holder_eq` — a resource has one holder.
-/
import Elfuse.Lib.Ledger

namespace Counted

open Function Ledger List Nat

inductive Asset (ρ κ : Type)
  | res (r : ρ)
  /-- A reference to an object. -/
  | ref (k : κ)
  /-- The memory of an object. -/
  | mem (k : κ)
  deriving DecidableEq

inductive Party (κ π : Type)
  | obj (k : κ)
  | other (p : π)
  deriving DecidableEq

structure Obj (ρ κ : Type) where
  refs : ℕ
  keeps : List (Asset ρ κ)

structure State (ρ κ π : Type) where
  present : ρ → Bool
  obj : κ → Option (Obj ρ κ)
  party : π → List (Asset ρ κ)

variable {ρ κ π : Type}

/-- What an object has: nothing, once its count is zero. -/
def Obj.has (k : κ) (x : Obj ρ κ) : List (Asset ρ κ) :=
  if x.refs = 0 then [] else x.keeps ++ [.mem k]

def State.has (s : State ρ κ π) : Party κ π → List (Asset ρ κ)
  | .obj k => (s.obj k).elim [] (Obj.has k)
  | .other p => s.party p

def State.size (s : State ρ κ π) : Asset ρ κ → ℕ
  | .res r => (s.present r).toNat
  | .ref k => (s.obj k).elim 0 Obj.refs
  | .mem k => (s.obj k).elim 0 fun _ => 1

lemma has_obj_congr {s s' : State ρ κ π} (h : s'.obj k = s.obj k) :
    s'.has (.obj k) = s.has (.obj k) := by
  rw [State.has, State.has, h]

/-- The references and the memory that there are of an object. -/
def tokens (k : κ) (x : Option (Obj ρ κ)) : List (Asset ρ κ) :=
  x.elim [] fun x => .mem k :: List.replicate x.refs (.ref k)

section

variable [DecidableEq π] {s : State ρ κ π} {p : π} {L : List (Asset ρ κ)}

def State.give (s : State ρ κ π) (p : π) (L : List (Asset ρ κ)) : State ρ κ π :=
  { s with party := update s.party p L }

lemma has_give_self : (s.give p L).has (.other p) = L := update_self _ _ _

lemma has_give_other (h : j ≠ .other p) : (s.give p L).has j = s.has j := by
  cases j with
  | obj k => rfl
  | other r => exact update_of_ne (fun heq => h (congrArg Party.other heq)) _ _

lemma size_give : (s.give p L).size = s.size := by
  funext a
  cases a <;> rfl

end

variable [DecidableEq ρ] [DecidableEq κ]

lemma count_tokens_self (k : κ) (x : Option (Obj ρ κ)) :
    (tokens k x).count (.ref k) = x.elim 0 Obj.refs ∧
      (tokens k x).count (.mem k) = x.elim 0 fun _ => 1 := by
  cases x with
  | none => exact ⟨rfl, rfl⟩
  | some x => simp [tokens, count_replicate]

lemma count_tokens_other (h : j ≠ k) (x : Option (Obj ρ κ)) :
    (tokens k x).count (.ref j) = 0 ∧ (tokens k x).count (.mem j) = 0 := by
  cases x with
  | none => exact ⟨rfl, rfl⟩
  | some x => simp [tokens, count_replicate, Ne.symm h]

lemma count_tokens_res (k : κ) (r : ρ) (x : Option (Obj ρ κ)) :
    (tokens k x).count (.res r) = 0 := by
  cases x with
  | none => rfl
  | some x => simp [tokens, count_replicate]

def Balanced (s : State ρ κ π) : Prop := Holds s.size s.has

variable {s : State ρ κ π} {k : κ} {r : ρ}

/-! ### What a holder can rely on -/

lemma Balanced.present (h : Balanced s) (hr : .res r ∈ s.has j) : s.present r = true := by
  have hpos := h.pos hr
  cases hp : s.present r with
  | true => rfl
  | false =>
    rw [State.size, hp] at hpos
    cases hpos

/-- An object somebody refers to has a count, and still keeps what it keeps. -/
lemma Balanced.referred (h : Balanced s) (hk : .ref k ∈ s.has j) :
    ∃ x, s.obj k = some x ∧ 0 < x.refs ∧ s.has (.obj k) = x.keeps ++ [.mem k] := by
  have hpos := h.pos hk
  cases hx : s.obj k with
  | none =>
    rw [State.size, hx] at hpos
    cases hpos
  | some x =>
    rw [State.size, hx] at hpos
    refine ⟨x, rfl, hpos, ?_⟩
    rw [State.has, hx]
    exact if_neg (ne_of_gt hpos)

def State.setObj (s : State ρ κ π) (k : κ) (y : Option (Obj ρ κ)) : State ρ κ π :=
  { s with obj := update s.obj k y }

lemma size_setObj (y : Option (Obj ρ κ)) (a : Asset ρ κ) :
    (s.setObj k y).size a + (tokens k (s.obj k)).count a = s.size a + (tokens k y).count a := by
  have hobj : (s.setObj k y).obj = update s.obj k y := rfl
  cases a with
  | res r =>
    rw [count_tokens_res, count_tokens_res]
    rfl
  | ref j =>
    rw [State.size, State.size, hobj]
    by_cases hj : j = k
    · rw [hj, update_self, (count_tokens_self k _).1, (count_tokens_self k _).1, add_comm]
    · rw [update_of_ne hj, (count_tokens_other hj _).1, (count_tokens_other hj _).1]
  | mem j =>
    rw [State.size, State.size, hobj]
    by_cases hj : j = k
    · rw [hj, update_self, (count_tokens_self k _).2, (count_tokens_self k _).2, add_comm]
    · rw [update_of_ne hj, (count_tokens_other hj _).2, (count_tokens_other hj _).2]

variable [DecidableEq π]

lemma Balanced.holder_eq (h : Balanced s) (hj : .res r ∈ s.has j)
    (hj' : .res r ∈ s.has j') : j = j' :=
  h.unique (a := .res r) (Bool.toNat_le (s.present r)) hj hj'

/-- The memory of an object is a party's only after the last reference. -/
lemma Balanced.mem_dead (h : Balanced s) (hk : .mem k ∈ s.party p) :
    ∃ x, s.obj k = some x ∧ x.refs = 0 := by
  have hmine : .mem k ∈ s.has (.other p) := hk
  have hpos := h.pos hmine
  cases hx : s.obj k with
  | none =>
    rw [State.size, hx] at hpos
    cases hpos
  | some x =>
    refine ⟨x, rfl, ?_⟩
    by_contra hne
    have hown : .mem k ∈ s.has (.obj k) := by
      rw [State.has, hx]
      show Asset.mem k ∈ Obj.has k x
      rw [Obj.has, if_neg hne]
      exact mem_append_right _ mem_cons_self
    have hone : s.size (.mem k) ≤ 1 := by
      rw [State.size, hx]
      exact le_refl 1
    cases h.unique hone hown hmine

/-! ### Changes -/

def State.setRes (s : State ρ κ π) (r : ρ) (b : Bool) : State ρ κ π :=
  { s with present := update s.present r b }

section
variable (h : Balanced s)
include h

lemma Balanced.rearrange (hperm : (s.party p).Perm L) : Balanced (s.give p L) := by
  refine Holds.change_one h (.other p) (fun _ => has_give_other) fun a => ?_
  rw [size_give, has_give_self]
  exact congrArg _ (hperm.count_eq a)

lemma Balanced.hand (hne : p ≠ q) (hperm : (s.party p ++ s.party q).Perm (L ++ M)) :
    Balanced ((s.give p L).give q M) := by
  unfold Balanced
  rw [size_give, size_give]
  have hpq : Party.other p ≠ (Party.other q : Party κ π) := fun heq => hne (Party.other.inj heq)
  refine Holds.transfer h hpq (fun j hj hj' => ?_) ?_
  · rw [has_give_other hj', has_give_other hj]
  · rwa [has_give_self, has_give_other hpq, has_give_self]

lemma Balanced.change_obj {y : Option (Obj ρ κ)}
    (hperm : (tokens k y ++ ((s.obj k).elim [] (Obj.has k) ++ s.party p)).Perm
      (tokens k (s.obj k) ++ (y.elim [] (Obj.has k) ++ L))) :
    Balanced ((s.setObj k y).give p L) := by
  have hne : Party.obj k ≠ .other p := nofun
  refine Holds.change_two h hne (fun j hj hr => ?_) fun a => ?_
  · rw [has_give_other hr]
    cases j with
    | obj j => exact has_obj_congr (update_of_ne (fun heq => hj (congrArg Party.obj heq)) _ _)
    | other r => rfl
  have hsize := size_setObj (s := s) (k := k) y a
  have hcount := hperm.count_eq a
  have hown : ((s.setObj k y).give p L).has (.obj k) = y.elim [] (Obj.has k) := by
    show (update s.obj k y k).elim [] _ = _
    rw [update_self]
  rw [size_give, has_give_self, hown]
  simp only [count_append] at hcount
  show _ + ((Option.elim (s.obj k) [] (Obj.has k)).count a + (s.party p).count a) = _
  omega

lemma Balanced.retain (hx : s.obj k = some x) (hpos : 0 < x.refs)
    (hperm : L.Perm (.ref k :: s.party p)) :
    Balanced ((s.setObj k (some { x with refs := x.refs + 1 })).give p L) := by
  refine h.change_obj (perm_iff_count.mpr fun a => ?_)
  have hcount := hperm.count_eq a
  rw [hx]
  simp only [tokens, Option.elim, Obj.has, if_neg (ne_of_gt hpos),
    if_neg (succ_ne_zero x.refs), count_append, count_cons, replicate_succ,
    hcount]
  omega

lemma Balanced.release (hx : s.obj k = some x) (hmore : 1 < x.refs)
    (hperm : (s.party p).Perm (.ref k :: L)) :
    Balanced ((s.setObj k (some { x with refs := x.refs - 1 })).give p L) := by
  refine h.change_obj (perm_iff_count.mpr fun a => ?_)
  have hcount := hperm.count_eq a
  obtain ⟨n, hn⟩ : ∃ n, x.refs = n + 2 := ⟨x.refs - 2, by omega⟩
  have hpred : n + 2 - 1 = n + 1 := rfl
  rw [hx]
  simp only [tokens, Option.elim, Obj.has, hn, hpred, if_neg (succ_ne_zero _),
    count_append, count_cons, replicate_succ, hcount]
  omega

lemma Balanced.last (hx : s.obj k = some x) (hone : x.refs = 1)
    (hp : (s.party p).Perm (.ref k :: M)) (hL : L.Perm (x.keeps ++ .mem k :: M)) :
    Balanced ((s.setObj k (some { x with refs := 0 })).give p L) := by
  refine h.change_obj (perm_iff_count.mpr fun a => ?_)
  have hcount := hp.count_eq a
  have hcount' := hL.count_eq a
  rw [hx]
  simp only [tokens, Option.elim, Obj.has, hone, if_neg one_ne_zero, if_true,
    count_append, count_cons, replicate_succ, replicate_zero, count_nil]
    at hcount hcount' ⊢
  omega

lemma Balanced.destroy (hperm : (s.party p).Perm (.mem k :: L)) :
    Balanced ((s.setObj k none).give p L) := by
  obtain ⟨x, hx, hdead⟩ := h.mem_dead (hperm.mem_iff.mpr mem_cons_self)
  refine h.change_obj (perm_iff_count.mpr fun a => ?_)
  have hcount := hperm.count_eq a
  rw [hx]
  simp only [tokens, Option.elim, Obj.has, hdead, if_true, count_append, count_cons,
    replicate_zero, count_nil] at hcount ⊢
  omega

/-- A party turns assets into an object that keeps them, and gets the references to it. -/
lemma Balanced.create (hk : s.obj k = none) (hpos : x.refs ≠ 0)
    (hp : (s.party p).Perm (x.keeps ++ M)) (hL : L.Perm (replicate x.refs (.ref k) ++ M)) :
    Balanced ((s.setObj k (some x)).give p L) := by
  refine h.change_obj (perm_iff_count.mpr fun a => ?_)
  have hcount := hp.count_eq a
  have hcount' := hL.count_eq a
  rw [hk]
  simp only [tokens, Option.elim, Obj.has, if_neg hpos, count_append, count_cons,
    count_nil] at hcount hcount' ⊢
  omega

lemma Balanced.change_res (hperm : (replicate b.toNat (Asset.res r) ++ s.party p).Perm
      (replicate (s.present r).toNat (Asset.res r) ++ L)) : Balanced ((s.setRes r b).give p L) := by
  refine Holds.change_one h (.other p) (fun j hj => ?_) fun a => ?_
  · rw [has_give_other hj]
    cases j <;> rfl
  have hcount := hperm.count_eq a
  simp only [count_append, count_replicate] at hcount
  rw [size_give, has_give_self]
  show (s.setRes r b).size a + (s.party p).count a = s.size a + L.count a
  cases a with
  | res r' =>
    show (update s.present r b r').toNat + _ = (s.present r').toNat + _
    by_cases heq : r' = r
    · subst heq
      simp only [BEq.rfl, if_true] at hcount
      rw [update_self]
      exact hcount
    · rw [update_of_ne heq]
      simp only [beq_iff_eq, Asset.res.injEq, Ne.symm heq, if_false] at hcount
      omega
  | _ =>
    simp only [beq_iff_eq, reduceCtorEq, if_false, zero_add] at hcount
    exact congrArg _ hcount

lemma Balanced.appear (hr : s.present r = false) (hperm : L.Perm (.res r :: s.party p)) :
    Balanced ((s.setRes r true).give p L) := by
  refine h.change_res ?_
  rw [hr]
  exact hperm.symm

lemma Balanced.vanish (hperm : (s.party p).Perm (.res r :: L)) :
    Balanced ((s.setRes r false).give p L) := by
  have hmine : .res r ∈ s.has (.other p) := hperm.mem_iff.mpr mem_cons_self
  refine h.change_res ?_
  rw [h.present hmine]
  exact hperm

end

end Counted
