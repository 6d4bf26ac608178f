import Berk162.Lib.Machine

/-!
# Vaddr — `threads/vaddr.h`, `threads/loader.h` and kernel memory

Kernel virtual addresses are numbers below `WORD`.  `PGSIZE` is a power of two, so masking with
`PGMASK` and shifting by `PGBITS` are written as remainder and quotient.
-/

namespace Berk162

def NULL : Nat := 0

def PGBITS : Nat := 12

def PGSIZE : Nat := 2 ^ PGBITS

/-- `LOADER_PHYS_BASE`: the kernel address at which physical memory is mapped. -/
def PHYS_BASE : Nat := 0xc0000000

def pg_ofs (va : Nat) : Nat := va % PGSIZE

def pg_no (va : Nat) : Nat := va / PGSIZE

def pg_round_down (va : Nat) : Nat := va - pg_ofs va

def ptov (paddr : Nat) : Option Nat := do
  ASSERT (paddr < PHYS_BASE)
  return size_add paddr PHYS_BASE

theorem PGSIZE_eq : PGSIZE = 4096 := rfl

theorem PHYS_BASE_eq : PHYS_BASE = 3221225472 := rfl

theorem ptov_eq {paddr : Nat} (h : paddr + PHYS_BASE < WORD) :
    ptov paddr = some (paddr + PHYS_BASE) := by
  have hlt : paddr < PHYS_BASE := by
    rw [WORD_eq, PHYS_BASE_eq] at h
    rw [PHYS_BASE_eq]
    omega
  rw [ptov, ASSERT_pos hlt, size_add_eq h]
  rfl

/-! ## Memory contents -/

/-- The byte at each kernel address. -/
abbrev Memory := Nat → UInt8

def memset (m : Memory) (dst : Nat) (value : UInt8) (size : Nat) : Memory :=
  fun a => if dst ≤ a ∧ a < dst + size then value else m a

/-- `memcpy (DST, SRC, SIZE)` between blocks that do not overlap. -/
def memcpy (m : Memory) (dst src size : Nat) : Memory :=
  fun a => if dst ≤ a ∧ a < dst + size then m (src + (a - dst)) else m a

theorem memset_of_mem {m : Memory} {dst size a : Nat} {value : UInt8}
    (h : dst ≤ a ∧ a < dst + size) : memset m dst value size a = value :=
  if_pos h

theorem memset_of_not_mem {m : Memory} {dst size a : Nat} {value : UInt8}
    (h : ¬ (dst ≤ a ∧ a < dst + size)) : memset m dst value size a = m a :=
  if_neg h

end Berk162
