/-
Calls on a state that can fail.

A call reads and writes a state and returns a value or an error; the state it
leaves behind is there in both cases, since what was written before a failure
stays written. `none` is a call that does not return. Programs are written in
the monad of such calls; `bind_ok` says what a run of a sequence that succeeds is
made of.
-/
import Mathlib.Tactic.Common

namespace Calls

/-- A call on states `σ` with errors `ε` and values `α`. -/
def Call (σ ε α : Type) : Type := σ → Option (Except ε α × σ)

namespace Call

variable {σ ε α β : Type}

def ret (a : α) : Call σ ε α := fun s => some (.ok a, s)

def fail (e : ε) : Call σ ε α := fun s => some (.error e, s)

def andThen (m : Call σ ε α) (f : α → Call σ ε β) : Call σ ε β := fun s =>
  match m s with
  | none => none
  | some (.error e, s') => some (.error e, s')
  | some (.ok a, s') => f a s'

instance : Monad (Call σ ε) where
  pure := ret
  bind := andThen

def read (f : σ → α) : Call σ ε α := fun s => some (.ok (f s), s)

def modify (f : σ → σ) : Call σ ε Unit := fun s => some (.ok (), f s)

def require (c : Prop) [Decidable c] (e : ε) : Call σ ε Unit :=
  if c then ret () else fail e

end Call

open Call

variable {σ ε α β : Type} {m : Call σ ε α} {s s' : σ} {a : α}

/-! ### Runs of a sequence -/

lemma bind_ok :
    (m >>= f) s = some (.ok b, s') ↔ ∃ a t, m s = some (.ok a, t) ∧ f a t = some (.ok b, s') := by
  change andThen m f s = _ ↔ _
  unfold andThen
  constructor
  · intro h
    split at h
    · cases h
    · cases h
    · rename_i a t hm
      exact ⟨a, t, hm, h⟩
  · rintro ⟨a, t, hm, h⟩
    rw [hm]
    exact h

lemma require_ok [Decidable c] :
    (require c e : Call σ ε Unit) s = some (.ok u, s') ↔ c ∧ s = s' := by
  unfold require
  by_cases hc : c
  · rw [if_pos hc]
    constructor
    · intro h
      cases h
      exact ⟨hc, rfl⟩
    · rintro ⟨-, rfl⟩
      rfl
  rw [if_neg hc]
  constructor
  · intro h
    cases h
  · rintro ⟨h, -⟩
    exact absurd h hc

lemma ret_ok : (ret a : Call σ ε α) s = some (.ok b, s') ↔ a = b ∧ s = s' := by
  constructor
  · intro h
    cases h
    exact ⟨rfl, rfl⟩
  · rintro ⟨rfl, rfl⟩
    rfl

lemma read_ok : (read f : Call σ ε α) s = some (.ok a, s') ↔ f s = a ∧ s = s' := by
  constructor
  · intro h
    cases h
    exact ⟨rfl, rfl⟩
  · rintro ⟨rfl, rfl⟩
    rfl

lemma modify_ok : (modify f : Call σ ε Unit) s = some (.ok u, s') ↔ f s = s' := by
  constructor
  · intro h
    cases h
    rfl
  · rintro rfl
    rfl

end Calls
