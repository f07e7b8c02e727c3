import Mathlib.Algebra.Group.Nat.Defs
import Mathlib.Data.Nat.Notation

/-!
# Words, pages and the memory layout

The `uint32` arithmetic and rounding macros of the kernel, the constants of
`memlayout.h`, `mmu.h` and `dynamic_allocator.h`, and the decomposition of an
address into its directory index, table index and page offset. Addresses are
natural numbers; arithmetic that the source performs on `uint32` values is
reduced modulo `2 ^ 32` where it can leave that range.
-/

namespace FosKernel

/-- Addition of `uint32` values. -/
def add32 (a b : Nat) : Nat := (a + b) % 2 ^ 32

/-- Subtraction of `uint32` values. -/
def sub32 (a b : Nat) : Nat := (a + (2 ^ 32 - b)) % 2 ^ 32

/-- Increment of a `uint16` counter. -/
def succ16 (a : Nat) : Nat := (a + 1) % 2 ^ 16

/-- Decrement of a `uint16` counter, which wraps at 0. -/
def pred16 : Nat → Nat
  | 0 => 2 ^ 16 - 1
  | a + 1 => a

/-- `ROUNDDOWN`. -/
def roundDown (a n : Nat) : Nat := a - a % n

/-- `ROUNDUP`, which rounds `a + n - 1` down after reducing it to a `uint32`. -/
def roundUp (a n : Nat) : Nat := roundDown (add32 a (n - 1)) n

def pageSize : Nat := 4096

def kernelBase : Nat := 0xF0000000
def kernelHeapStart : Nat := 0xF6000000
def kernelHeapMax : Nat := 0xFFFFF000
def userHeapStart : Nat := 0x80000000
def userHeapMax : Nat := 0xA0000000
def userTop : Nat := 0xEEC00000
def uStackTop : Nat := userTop - 2 * pageSize

/-- `DYN_ALLOC_MAX_SIZE` and `DYN_ALLOC_MAX_BLOCK_SIZE`. -/
def dynAllocMaxSize : Nat := 32 * 2 ^ 20
def dynAllocMaxBlockSize : Nat := 2 ^ 11

/-- `sizeof(struct WorkingSetElement)`: five words and a byte padded to a word. -/
def sizeofWorkingSetElement : Nat := 24

/-- `USTACKBOTTOM`. The product in `USER_PAGES_WS_MAX` is one of `uint32` values. -/
def uStackBottom : Nat :=
  roundUp (userHeapMax + sizeofWorkingSetElement * userTop % 2 ^ 32 / pageSize) pageSize

/-- `PPN` and `VPN`. -/
def vpn (va : Nat) : Nat := va / pageSize

/-- `PDX`. -/
def pdx (va : Nat) : Nat := va / 2 ^ 22 % 1024

/-- `PTX`. -/
def ptx (va : Nat) : Nat := va / 2 ^ 12 % 1024

/-- `PGOFF`. -/
def pgoff (va : Nat) : Nat := va % pageSize

end FosKernel
