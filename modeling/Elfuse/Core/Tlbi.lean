/-
The per-vCPU TLB invalidation request.

Each guest thread accumulates one request while its syscall edits page tables;
the epilogue hands it to the shim in X8/X9/X10 and clears it. The accumulator
holds nothing, one interval of pages, or a promise to flush everything.

* `tlbiRequestRange_covers` — it covers an interval it has been given, and never
  forgets one;
* `emit_invalidates` — what it covers is invalidated by the registers it is
  emitted in, also through the operand of a range invalidation.
-/
import Elfuse.Core.Layout
import Elfuse.Lib.Bits

namespace Elfuse

inductive TlbiKind
  | none
  | range
  | rangeLarge
  | broadcast
  deriving DecidableEq, Repr

structure TlbiRequest where
  kind : TlbiKind
  icacheFlush : Bool
  pages : ℕ
  start : ℕ
  deriving DecidableEq, Repr

def tlbiSelectiveMaxPages : ℕ := 16
def tlbiRvaeMaxPages : ℕ := 64

def tlbiRequestClear : TlbiRequest := ⟨.none, false, 0, 0⟩

def tlbiRequestBroadcast (r : TlbiRequest) : TlbiRequest := { r with kind := .broadcast }

def tlbiRequestIsBroadcast (r : TlbiRequest) : Bool := decide (r.kind = .broadcast)

def tlbiRequestMarkIcache (r : TlbiRequest) : TlbiRequest := { r with icacheFlush := true }

/-- Add `[start, stop)` to the request. `supported` is `g_tlbi_range_supported`. -/
def tlbiRequestRange (supported : Bool) (r : TlbiRequest) (start stop : ℕ) : TlbiRequest :=
  if r.kind = .broadcast then r
  else if stop ≤ start then r
  else if 2 ^ 64 - 1 - 0xFFF < stop then tlbiRequestBroadcast r
  else
    let s := alignDown start 4096
    let e := alignUp stop 4096
    let n := (e - s) / 4096
    let largeCap := if supported then tlbiRvaeMaxPages else tlbiSelectiveMaxPages
    if largeCap < n then tlbiRequestBroadcast r
    else if r.kind = .none then
      { r with
        kind := if tlbiSelectiveMaxPages < n then .rangeLarge else .range
        start := s
        pages := n % 2 ^ 16 }
    else
      let es := r.start
      let pe := r.pages * 4096
      if 2 ^ 64 - 1 - pe < es then tlbiRequestBroadcast r
      else
        let ee := es + pe
        let us := if s < es then s else es
        let ue := if ee < e then e else ee
        let un := (ue - us) / 4096
        if largeCap < un then tlbiRequestBroadcast r
        else
          { r with
            start := us
            pages := un % 2 ^ 16
            kind := if tlbiSelectiveMaxPages < un then .rangeLarge else r.kind }

/-- Model of `tlbi_rvae1is_operand`: the Xt operand of a range invalidation. -/
def tlbiRvae1isOperand (startVa pages : ℕ) : ℕ :=
  let pages := if pages < 2 then 2 else pages
  let baddr := (startVa >>> 12) &&& (2 ^ 37 - 1)
  let num := (pages + 1) / 2 - 1
  let num := if 31 < num then 31 else num
  baddr ||| (num <<< 39) ||| (1 <<< 46)

/-- The registers the epilogue sets: X8, X9, X10, X11 (`none` when the code
leaves a register alone). -/
structure TlbiRegs where
  x8 : ℕ
  x9 : Option ℕ
  x10 : Option ℕ
  x11 : Option ℕ
  deriving DecidableEq, Repr

def tlbiRequestEmitToVcpu (r : TlbiRequest) : TlbiRegs × TlbiRequest :=
  let x11 := if r.icacheFlush then some 1 else some 0
  let regs : TlbiRegs :=
    match r.kind with
    | .broadcast => ⟨1, none, none, x11⟩
    | .range => ⟨3, some r.start, some r.pages, x11⟩
    | .rangeLarge => ⟨4, some (tlbiRvae1isOperand r.start r.pages), none, x11⟩
    | .none => ⟨0, none, none, none⟩
  (regs, tlbiRequestClear)

/-- The addresses a vCPU forgets when the shim acts on the registers. -/
def TlbiRegs.invalidates (regs : TlbiRegs) (va : ℕ) : Prop :=
  match regs with
  | ⟨1, _, _, _⟩ => True
  | ⟨3, some start, some pages, _⟩ => start ≤ va ∧ va < start + pages * 4096
  | ⟨4, some operand, _, _⟩ =>
    -- `BaseADDR` in bits `[36:0]`, `NUM` in bits `[43:39]`, `SCALE` 0
    let base := operand % 2 ^ 37 * 4096
    let num := operand / 2 ^ 39 % 2 ^ 5
    base ≤ va ∧ va < base + (num + 1) * 2 * 4096
  | _ => False

/-! ### The accumulator never forgets -/

/-- The interval of a request is page aligned, below 2^48 and of the length its
kind allows. -/
structure TlbiRequest.Ok (r : TlbiRequest) : Prop where
  aligned : r.start % 4096 = 0
  bound : r.start + r.pages * 4096 ≤ 2 ^ 48
  range : r.kind = .range → r.pages ≤ tlbiSelectiveMaxPages
  large : r.kind = .rangeLarge → r.pages ≤ tlbiRvaeMaxPages

/-- The request will make the address be forgotten. -/
def TlbiRequest.Covers (r : TlbiRequest) (va : ℕ) : Prop :=
  r.kind = .broadcast ∨ r.kind ≠ .none ∧ r.start ≤ va ∧ va < r.start + r.pages * 4096

lemma tlbiRequestClear_ok : tlbiRequestClear.Ok :=
  ⟨rfl, by decide, (by intro h; cases h), (by intro h; cases h)⟩

lemma TlbiRequest.Ok.broadcast (h : r.Ok) : (tlbiRequestBroadcast r).Ok :=
  ⟨h.aligned, h.bound, (by intro hk; cases hk), (by intro hk; cases hk)⟩

/-- The request for the pages of `[s, e)`, of a kind that fits their number. -/
lemma interval_covers {f : Bool} (hk : k ≠ .none)
    (hs : s % 4096 = 0) (he : e % 4096 = 0) (hlt : s < e) (hbound : e ≤ 2 ^ 48)
    (hcap : (e - s) / 4096 ≤ 64) :
    let q : TlbiRequest := ⟨if tlbiSelectiveMaxPages < (e - s) / 4096 then .rangeLarge else k,
      f, (e - s) / 4096 % 2 ^ 16, s⟩
    q.Ok ∧ ∀ va, s ≤ va → va < e → q.Covers va := by
  have hn : (e - s) / 4096 % 2 ^ 16 = (e - s) / 4096 := by omega
  rw [hn]
  refine ⟨⟨hs, ?_, fun hk => ?_, fun _ => hcap⟩, fun va h1 h2 => .inr ⟨?_, h1, ?_⟩⟩
  · show s + (e - s) / 4096 * 4096 ≤ 2 ^ 48
    omega
  · dsimp only at hk ⊢
    split at hk
    · cases hk
    · omega
  · split
    · nofun
    · exact hk
  · show va < s + (e - s) / 4096 * 4096
    omega

lemma tlbiRequestRange_covers (supported : Bool) (h : r.Ok) (hstop : stop ≤ 2 ^ 48) :
    (tlbiRequestRange supported r start stop).Ok ∧
    (∀ va, r.Covers va → (tlbiRequestRange supported r start stop).Covers va) ∧
    ∀ va, start ≤ va → va < stop → (tlbiRequestRange supported r start stop).Covers va := by
  have hal := h.aligned
  have hbound := h.bound
  have hbroad := h.broadcast
  have hall : ∀ va, (tlbiRequestBroadcast r).Covers va := fun _ => .inl rfl
  unfold tlbiRequestRange
  split
  · rename_i hb
    exact ⟨h, fun _ hc => hc, fun _ _ _ => .inl hb⟩
  rename_i hb
  by_cases hle : stop ≤ start
  · rw [if_pos hle]
    exact ⟨h, fun _ hc => hc, fun va h1 h2 => by omega⟩
  rw [if_neg hle, if_neg (by omega)]
  dsimp only
  -- the page-aligned interval
  obtain ⟨s, hs⟩ : ∃ s, alignDown start 4096 = s ∧ s % 4096 = 0 ∧ s ≤ start :=
    ⟨_, rfl, by unfold alignDown; omega, by unfold alignDown; omega⟩
  obtain ⟨e, he⟩ : ∃ e, alignUp stop 4096 = e ∧ e % 4096 = 0 ∧ stop ≤ e ∧ e ≤ 2 ^ 48 :=
    ⟨_, rfl, by unfold alignUp u64; omega, by unfold alignUp u64; omega,
      by unfold alignUp u64; omega⟩
  obtain ⟨rfl, hs1, hs2⟩ := hs
  obtain ⟨rfl, he1, he2, he3⟩ := he
  generalize alignDown start 4096 = s at hs1 hs2 ⊢
  generalize alignUp stop 4096 = e at he1 he2 he3 ⊢
  obtain ⟨cap, hcap, hcap64⟩ : ∃ cap, (if supported then tlbiRvaeMaxPages
      else tlbiSelectiveMaxPages) = cap ∧ cap ≤ 64 := by
    cases supported
    · exact ⟨_, rfl, by decide⟩
    · exact ⟨_, rfl, by decide⟩
  rw [hcap]
  split
  · exact ⟨hbroad, fun va _ => hall va, fun va _ _ => hall va⟩
  split
  · rename_i hnone
    obtain ⟨hok, hcov⟩ := interval_covers (k := .range) (f := r.icacheFlush) nofun hs1 he1
      (by omega) he3 (by omega)
    refine ⟨hok, fun va hc => ?_, fun va h1 h2 => hcov va (by omega) (by omega)⟩
    rcases hc with hc | ⟨hc, -⟩
    · exact absurd hc hb
    · exact absurd hnone hc
  rename_i hnone
  rw [if_neg (by omega)]
  -- the union with the interval already there
  obtain ⟨us, hus⟩ : ∃ us, (if s < r.start then s else r.start) = us ∧
      us % 4096 = 0 ∧ us ≤ s ∧ us ≤ r.start := by
    refine ⟨_, rfl, ?_⟩
    split <;> omega
  obtain ⟨ue, hue⟩ : ∃ ue, (if r.start + r.pages * 4096 < e then e
      else r.start + r.pages * 4096) = ue ∧
      ue % 4096 = 0 ∧ e ≤ ue ∧ r.start + r.pages * 4096 ≤ ue ∧ ue ≤ 2 ^ 48 := by
    refine ⟨_, rfl, ?_⟩
    split <;> omega
  rw [hus.1, hue.1]
  split
  · exact ⟨hbroad, fun va _ => hall va, fun va _ _ => hall va⟩
  obtain ⟨hok, hcov⟩ := interval_covers (f := r.icacheFlush) hnone hus.2.1 hue.2.1 (by omega)
    hue.2.2.2.2 (by omega)
  refine ⟨hok, fun va hc => ?_, fun va h1 h2 => hcov va (by omega) (by omega)⟩
  rcases hc with hc | ⟨-, hc1, hc2⟩
  · exact absurd hc hb
  · exact hcov va (by omega) (by omega)

lemma tlbiRvae1isOperand_fields (hal : start % 4096 = 0) (hlt : start < 2 ^ 49)
    (hpages : pages ≤ 64) : tlbiRvae1isOperand start pages % 2 ^ 37 * 4096 = start ∧
    pages ≤ (tlbiRvae1isOperand start pages / 2 ^ 39 % 2 ^ 5 + 1) * 2 := by
  obtain ⟨num, hnum, hcover⟩ : ∃ num, (if 31 < ((if pages < 2 then 2 else pages) + 1) / 2 - 1
      then 31 else ((if pages < 2 then 2 else pages) + 1) / 2 - 1) = num ∧
      num < 32 ∧ pages ≤ (num + 1) * 2 := by
    refine ⟨_, rfl, ?_⟩
    split <;> split <;> omega
  have hbase : (start >>> 12) &&& (2 ^ 37 - 1) = start / 4096 := by
    rw [Nat.and_two_pow_sub_one_eq_mod, Nat.shiftRight_eq_div_pow]
    omega
  have hop : tlbiRvae1isOperand start pages = 2 ^ 46 + (num * 2 ^ 39 + start / 4096) := by
    unfold tlbiRvae1isOperand
    dsimp only
    rw [hnum, hbase, Nat.or_comm (start / 4096), ← Nat.shiftLeft_add_eq_or_of_lt (by omega),
      Nat.or_comm, ← Nat.shiftLeft_add_eq_or_of_lt, Nat.shiftLeft_eq, Nat.shiftLeft_eq]
    · omega
    · rw [Nat.shiftLeft_eq]
      omega
  rw [hop]
  omega

lemma emit_invalidates (h : r.Ok) (hc : r.Covers va) :
    (tlbiRequestEmitToVcpu r).1.invalidates va := by
  unfold tlbiRequestEmitToVcpu
  rcases hc with hb | ⟨hne, h1, h2⟩
  · rw [hb]
    trivial
  cases hk : r.kind with
  | none => exact absurd hk hne
  | broadcast => trivial
  | range => exact ⟨h1, h2⟩
  | rangeLarge =>
    have hbound := h.bound
    obtain ⟨hbase, hnum⟩ := tlbiRvae1isOperand_fields h.aligned (by omega)
      (h.large hk : r.pages ≤ 64)
    show tlbiRvae1isOperand r.start r.pages % 2 ^ 37 * 4096 ≤ va ∧
      va < tlbiRvae1isOperand r.start r.pages % 2 ^ 37 * 4096
        + (tlbiRvae1isOperand r.start r.pages / 2 ^ 39 % 2 ^ 5 + 1) * 2 * 4096
    rw [hbase]
    omega

end Elfuse
