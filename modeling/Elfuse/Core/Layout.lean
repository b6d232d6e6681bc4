/-
Constants and word arithmetic shared by the memory model.

Guest addresses, sizes and descriptors are `uint64_t` in the sources and `ℕ`
here; `u64` marks the places where a sum can leave 64 bits. The intermediate
physical address base of the guest (`ipa_base`) is 0 in every initializer, so
an address and its offset into the slab are the same number and `base + x` is
written `x`.
-/
import Mathlib.Algebra.Order.Group.Nat
import Mathlib.Tactic.Common

namespace Elfuse

def u64 (n : ℕ) : ℕ := n % 2 ^ 64

/-! ### Alignment macros -/

/-- Model of `ALIGN_UP(x, a)`: the sum wraps, then the low bits are cleared. -/
def alignUp (x a : ℕ) : ℕ := a * (u64 (x + (a - 1)) / a)

def alignDown (x a : ℕ) : ℕ := a * (x / a)

def guestPageSize : ℕ := 4096

/-- Model of `BLOCK_2MIB`, the size of an L2 block. -/
def block2MiB : ℕ := 2 * 1024 * 1024

def pageAlignUp (x : ℕ) : ℕ := alignUp x guestPageSize

def align2MiBDown (x : ℕ) : ℕ := alignDown x block2MiB

def align2MiBUp (x : ℕ) : ℕ := alignUp x block2MiB

/-! ### Guest address layout -/

def infraReserve : ℕ := 0x01000000
def mmapBase : ℕ := 0x200000000

/-- Model of `KBUF_USER_VA`, the TTBR0 mirror of the kernel-VA window. -/
def kbufUserVa : ℕ := 0xFFFFF0000000
def kbufSize : ℕ := 0x10000000

/-! ### Linux ABI values -/

def linuxProtNone : ℕ := 0
def linuxProtRead : ℕ := 1
def linuxProtWrite : ℕ := 2
def linuxProtExec : ℕ := 4

def linuxMapShared : ℕ := 0x01
def linuxMapPrivate : ℕ := 0x02
def linuxMapAnonymous : ℕ := 0x20
def linuxMapNoreserve : ℕ := 0x4000

def linuxEperm : ℤ := 1
def linuxEsrch : ℤ := 3
def linuxEintr : ℤ := 4
def linuxEbadf : ℤ := 9
def linuxEagain : ℤ := 11
def linuxEnomem : ℤ := 12
def linuxEacces : ℤ := 13
def linuxEfault : ℤ := 14
def linuxEexist : ℤ := 17
def linuxEinval : ℤ := 22
def linuxEdeadlk : ℤ := 35
def linuxEnosys : ℤ := 38
def linuxEtimedout : ℤ := 110

def hasFlag (flags mask : ℕ) : Bool := decide (flags &&& mask ≠ 0)

/-! ### Alignment facts -/

lemma u64_of_lt (h : n < 2 ^ 64) : u64 n = n :=
  Nat.mod_eq_of_lt h

lemma u64_add_u64 (m n : ℕ) : u64 (u64 m + n) = u64 (m + n) := by
  simp only [u64, Nat.mod_add_mod]

end Elfuse
