/-
Runs of a machine that takes one labelled step after another.

A machine is a partial function `next` from a state and a label to the next
state; the label says which party moves and what the environment answers. `exec`
is a whole run. A property that every step keeps holds at the end of every run
(`exec_keeps`); one that only the steps meeting a condition keep holds at the
end of every run all of whose steps meet it (`exec_keeps_of_meets`). A machine
that can follow another step by step follows its runs (`exec_refines`).
-/
import Mathlib.Data.List.Basic

namespace Runs

open Option

variable {σ ℓ : Type*} (next : σ → ℓ → Option σ)

/-- The state a run ends in, if all of its steps can be taken. -/
def exec (s : σ) : List ℓ → Option σ
  | [] => some s
  | l :: ls => (next s l).bind fun t => exec t ls

/-- Every step of the run meets `ok` in the state it is taken from. -/
def Meets (ok : σ → ℓ → Prop) (s : σ) : List ℓ → Prop
  | [] => True
  | l :: ls => ok s l ∧ ∀ t, next s l = some t → Meets ok t ls

variable {next} {s t : σ} {ls : List ℓ} {l : ℓ} {ok : σ → ℓ → Prop} {P : σ → Prop}

@[simp] lemma exec_nil : exec next s [] = some s := rfl

lemma exec_cons : exec next s (l :: ls) = (next s l).bind fun t => exec next t ls := rfl

lemma exec_append : exec next s (ls ++ ms) = (exec next s ls).bind fun t => exec next t ms := by
  induction ls generalizing s with
  | nil => rfl
  | cons l ls ih =>
    rw [List.cons_append, exec_cons, exec_cons]
    cases next s l with
    | none => rfl
    | some u => exact ih

lemma guarded [Decidable p] (h : (if p then x else none) = some b) : p ∧ x = some b :=
  ite_none_right_eq_some.mp h

/-- What every step that meets `ok` keeps, a run of such steps keeps. -/
lemma exec_keeps_of_meets (ok : σ → ℓ → Prop)
    (hstep : ∀ s l t, P s → ok s l → next s l = some t → P t) (hs : P s) (hok : Meets next ok s ls)
    (h : exec next s ls = some t) : P t := by
  induction ls generalizing s with
  | nil =>
    obtain rfl : s = t := by simpa using h
    exact hs
  | cons l ls ih =>
    rw [exec_cons] at h
    obtain ⟨u, hu, hrest⟩ := bind_eq_some_iff.mp h
    exact ih (hstep s l u hs hok.1 hu) (hok.2 u hu) hrest

lemma meets_cons (hok : ok s l) (hn : next s l = some t) (h : Meets next ok t ls) :
    Meets next ok s (l :: ls) := by
  refine ⟨hok, ?_⟩
  intro u hu
  obtain rfl : t = u := some.inj (hn.symm.trans hu)
  exact h

/-- A condition on the labels alone. -/
lemma meets_of_forall (h : ∀ l ∈ ls, ∀ s, ok s l) : Meets next ok s ls := by
  induction ls generalizing s with
  | nil => trivial
  | cons l ls ih =>
    refine ⟨h l List.mem_cons_self s, ?_⟩
    intro t _
    exact ih fun l' hl' => h l' (List.mem_cons_of_mem l hl')

/-- What every step keeps, a run keeps. -/
lemma exec_keeps (hstep : ∀ s l t, P s → next s l = some t → P t) (hs : P s)
    (h : exec next s ls = some t) : P t := by
  refine exec_keeps_of_meets (fun _ _ => True) ?_ hs ?_ h
  · intro s l t hP _ hn
    exact hstep s l t hP hn
  · exact meets_of_forall fun _ _ _ => trivial

/-- A machine whose steps another one can follow is followed on whole runs. -/
lemma exec_refines {τ : Type*} {next' : τ → ℓ → Option τ} {R : σ → τ → Prop} (ok : σ → ℓ → Prop)
    (hstep : ∀ s a l t, R s a → ok s l → next s l = some t → ∃ b, next' a l = some b ∧ R t b)
    {a : τ} (hR : R s a) (hok : Meets next ok s ls) (h : exec next s ls = some t) :
    ∃ b, exec next' a ls = some b ∧ R t b := by
  induction ls generalizing s a with
  | nil =>
    obtain rfl : s = t := by simpa using h
    exact ⟨a, rfl, hR⟩
  | cons l ls ih =>
    rw [exec_cons] at h
    obtain ⟨u, hu, hrest⟩ := bind_eq_some_iff.mp h
    obtain ⟨b, hb, hRb⟩ := hstep s a l u hR hok.1 hu
    obtain ⟨c, hc, hRc⟩ := ih hRb (hok.2 u hu) hrest
    exact ⟨c, by rw [exec_cons, hb]; exact hc, hRc⟩

end Runs
