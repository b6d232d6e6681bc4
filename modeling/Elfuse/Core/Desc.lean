/-
Page-table descriptors.

A descriptor is a 64-bit word: an output address, fixed attribute bits, the
execute-never bits and the two access-permission bits. The encoders are
`makeBlockDesc` (2 MiB, bits `01`) and `makePageDesc` (4 KiB, bits `11`); the
decoder is `descToPerms`. The encoding cannot say everything the permission
flags can: read access is implied, and a privileged-only page is always
writable and never executable. `Perms.norm` is what survives a round trip:

* `descToPerms_makePageDesc`, `descToPerms_makeBlockDesc` — decoding gives the
  normal form of what was encoded;
* `pageAddr_makePageDesc`, `blockAddr_makeBlockDesc` — the address comes back;
* `makePageDesc_mod` and companions — the kind bits come back.
-/
import Elfuse.Core.Layout
import Elfuse.Lib.Bits

namespace Elfuse

open Nat

/-- The `MEM_PERM_*` flags. -/
structure Perms where
  r : Bool
  w : Bool
  x : Bool
  el1Only : Bool
  deriving DecidableEq, Repr

namespace Perms

instance {P : Perms → Prop} [DecidablePred P] : Decidable (∀ p, P p) :=
  decidable_of_iff (∀ r w x e, P ⟨r, w, x, e⟩) ⟨fun h _ => h .., fun h _ _ _ _ => h _⟩

def rw : Perms := ⟨true, true, false, false⟩
def ro : Perms := ⟨true, false, false, false⟩

/-- What a descriptor can hold of a set of flags. -/
def norm (p : Perms) : Perms :=
  ⟨true, p.w || p.el1Only, p.x && !p.el1Only, p.el1Only⟩

/-- `(perms & required) == required`. -/
def covers (p required : Perms) : Bool :=
  (p.r || !required.r) && (p.w || !required.w) && (p.x || !required.x) &&
    (p.el1Only || !required.el1Only)

@[simp]
lemma norm_norm (p : Perms) : p.norm.norm = p.norm := by
  obtain ⟨r, w, x, e⟩ := p
  cases w <;> cases x <;> cases e <;> rfl

end Perms

/-! ### Bits -/

def ptValid : ℕ := 1
def ptTable : ℕ := 2
def ptBlock : ℕ := 1
def ptAF : ℕ := 1 <<< 10
def ptShIsh : ℕ := 3 <<< 8
def ptNS : ℕ := 1 <<< 5
def ptAttr1 : ℕ := 1 <<< 2
def ptUXN : ℕ := 1 <<< 54
def ptPXN : ℕ := 1 <<< 53
def ptApRwEl0 : ℕ := 1 <<< 6
def ptApRwEl1 : ℕ := 0 <<< 6
def ptApRo : ℕ := 3 <<< 6
def ptL3Page : ℕ := 3

/-- Output address bits of a table or page descriptor, `[47:12]`. -/
def ptAddrMask : ℕ := 0xFFFFFFFFF000

def l2BlockAddrMask : ℕ := 0xFFFFFFE00000

def permBits (perms : Perms) : ℕ :=
  (if !perms.x then ptUXN ||| ptPXN else 0) |||
  (if perms.el1Only then ptApRwEl1 ||| (ptUXN ||| ptPXN)
    else if perms.w then ptApRwEl0 else ptApRo)

def makeBlockDesc (gpa : ℕ) (perms : Perms) : ℕ :=
  (gpa &&& l2BlockAddrMask) |||
    ((ptAF ||| ptShIsh ||| ptNS ||| ptAttr1 ||| ptBlock) ||| permBits perms)

def makePageDesc (pa : ℕ) (perms : Perms) : ℕ :=
  (pa &&& ptAddrMask) |||
    ((ptAF ||| ptShIsh ||| ptNS ||| ptAttr1 ||| ptL3Page) ||| permBits perms)

def makeTableDesc (gpa : ℕ) : ℕ := gpa ||| (ptValid ||| ptTable)

def descToPerms (desc : ℕ) : Perms :=
  let x := decide (desc &&& ptUXN = 0)
  let ap := desc &&& (3 <<< 6)
  if ap = ptApRwEl0 then ⟨true, true, x, false⟩
  else if ap = ptApRwEl1 then ⟨true, true, x, true⟩
  else ⟨true, false, x, false⟩

def isValid (desc : ℕ) : Bool := decide (desc &&& ptValid ≠ 0)

/-- Bits `11`: a table (L0–L2) or a page (L3). -/
def isTable (desc : ℕ) : Bool := decide (desc &&& 3 = 3)

/-- Bits `01`: a block. -/
def isBlock (desc : ℕ) : Bool := decide (desc &&& 3 = 1)

def pageAddr (desc : ℕ) : ℕ := desc &&& ptAddrMask

def blockAddr (desc : ℕ) : ℕ := desc &&& l2BlockAddrMask

/-! ### Reading a descriptor back -/

lemma pageAddr_eq (x : ℕ) : pageAddr x = x / 2 ^ 12 % 2 ^ 36 * 2 ^ 12 :=
  Bits.and_field x 12 36

lemma blockAddr_eq (x : ℕ) : blockAddr x = x / 2 ^ 21 % 2 ^ 27 * 2 ^ 21 :=
  Bits.and_field x 21 27

lemma pageAddr_of_aligned (h : x % 4096 = 0) (hlt : x < 2 ^ 48) : pageAddr x = x := by
  rw [pageAddr_eq]
  omega

lemma blockAddr_of_aligned (h : x % 2 ^ 21 = 0) (hlt : x < 2 ^ 48) : blockAddr x = x := by
  rw [blockAddr_eq]
  omega

lemma isValid_iff : isValid d ↔ d % 2 = 1 := by
  rw [isValid, decide_eq_true_iff, ptValid, and_one_is_mod]
  omega

lemma isTable_iff : isTable d ↔ d % 4 = 3 := by
  rw [isTable, decide_eq_true_iff, show 3 = 2 ^ 2 - 1 from rfl, and_two_pow_sub_one_eq_mod]

lemma isBlock_iff : isBlock d ↔ d % 4 = 1 := by
  rw [isBlock, decide_eq_true_iff, show 3 = 2 ^ 2 - 1 from rfl, and_two_pow_sub_one_eq_mod]

lemma isBlock_table (h : d % 4 = 3) : isBlock d = false := by
  rw [← Bool.not_eq_true, isBlock_iff]
  omega

lemma pageAddr_makeTableDesc (h : a % 4096 = 0) (hlt : a < 2 ^ 48) :
    pageAddr (makeTableDesc a) = a := by
  unfold pageAddr makeTableDesc
  rw [and_or_distrib_right, show (ptValid ||| ptTable) &&& ptAddrMask = 0 by decide, or_zero]
  exact pageAddr_of_aligned h hlt

lemma makeTableDesc_mod (a : ℕ) (h : a % 4096 = 0) : makeTableDesc a % 4 = 3 := by
  have hd : makeTableDesc a &&& 3 = 3 := by
    unfold makeTableDesc
    rw [and_or_distrib_right, show (3 : ℕ) = 2 ^ 2 - 1 from rfl,
      and_two_pow_sub_one_eq_mod, show a % 2 ^ 2 = 0 by omega]
    rfl
  exact isTable_iff.mp (decide_eq_true hd)

lemma makePageDesc_and (pa m : ℕ) (perms : Perms) (hm : ptAddrMask &&& m = 0) :
    makePageDesc pa perms &&& m
      = ((ptAF ||| ptShIsh ||| ptNS ||| ptAttr1 ||| ptL3Page) ||| permBits perms) &&& m := by
  rw [makePageDesc, Bits.and_or_and, hm, and_zero, zero_or]

lemma makeBlockDesc_and (gpa m : ℕ) (perms : Perms) (hm : l2BlockAddrMask &&& m = 0) :
    makeBlockDesc gpa perms &&& m
      = ((ptAF ||| ptShIsh ||| ptNS ||| ptAttr1 ||| ptBlock) ||| permBits perms) &&& m := by
  rw [makeBlockDesc, Bits.and_or_and, hm, and_zero, zero_or]

lemma descToPerms_makePageDesc (pa : ℕ) (perms : Perms) :
    descToPerms (makePageDesc pa perms) = perms.norm := by
  unfold descToPerms
  rw [makePageDesc_and pa _ perms (by decide), makePageDesc_and pa _ perms (by decide)]
  revert perms
  decide

lemma descToPerms_makeBlockDesc (gpa : ℕ) (perms : Perms) :
    descToPerms (makeBlockDesc gpa perms) = perms.norm := by
  unfold descToPerms
  rw [makeBlockDesc_and gpa _ perms (by decide), makeBlockDesc_and gpa _ perms (by decide)]
  revert perms
  decide

lemma makePageDesc_low (pa : ℕ) (perms : Perms) : makePageDesc pa perms &&& 3 = 3 := by
  rw [makePageDesc_and pa _ perms (by decide)]
  revert perms
  decide

lemma makeBlockDesc_low (gpa : ℕ) (perms : Perms) : makeBlockDesc gpa perms &&& 3 = 1 := by
  rw [makeBlockDesc_and gpa _ perms (by decide)]
  revert perms
  decide

lemma makePageDesc_mod (pa : ℕ) (perms : Perms) : makePageDesc pa perms % 4 = 3 :=
  isTable_iff.mp (decide_eq_true (makePageDesc_low pa perms))

lemma makeBlockDesc_mod (gpa : ℕ) (perms : Perms) : makeBlockDesc gpa perms % 4 = 1 :=
  isBlock_iff.mp (decide_eq_true (makeBlockDesc_low gpa perms))

lemma pageAddr_makePageDesc (pa : ℕ) (perms : Perms) :
    pageAddr (makePageDesc pa perms) = pageAddr pa := by
  refine Bits.and_or_self pa ?_
  revert perms
  decide

lemma blockAddr_makeBlockDesc (gpa : ℕ) (perms : Perms) :
    blockAddr (makeBlockDesc gpa perms) = blockAddr gpa := by
  refine Bits.and_or_self gpa ?_
  revert perms
  decide

end Elfuse
