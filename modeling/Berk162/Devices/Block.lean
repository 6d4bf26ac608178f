import Berk162.Lib.Bytes
import Berk162.Lib.Machine

/-!
# Block — block devices, `devices/block.c`

A device is an array of sectors.  `block_read` and `block_write` check the sector number and then
call the driver; the driver of a disk returns what was last written to the sector.

`none` is a kernel panic.
-/

namespace Berk162

def BLOCK_SECTOR_SIZE : Nat := 512

/-- The contents of a sector. -/
structure Sector where
  bytes : Bytes
  length_bytes : bytes.length = BLOCK_SECTOR_SIZE
  deriving DecidableEq

/-- `enum block_type` -/
inductive BlockType
  | kernel
  | filesys
  | scratch
  | swap
  | raw
  | foreign
  deriving DecidableEq, Repr

/-- `struct block` of a disk, with the sectors that its driver keeps. -/
structure Block where
  name : List Char
  type : BlockType
  size : Nat
  /-- `size` is a `block_sector_t`. -/
  size_lt : size < WORD
  sectors : Nat → Sector

theorem sixty_four_lt : 64 < WORD := by decide

namespace Block

/-- The device after its driver has stored `buffer` in `sector`. -/
def store (block : Block) (sector : Nat) (buffer : Sector) : Block :=
  { block with sectors := Function.update block.sectors sector buffer }

@[simp] theorem store_size (block : Block) (sector : Nat) (buffer : Sector) :
    (block.store sector buffer).size = block.size := rfl

@[simp] theorem store_sectors_self (block : Block) (sector : Nat) (buffer : Sector) :
    (block.store sector buffer).sectors sector = buffer := by
  simp [store]

theorem store_sectors_of_ne (block : Block) {sector s : Nat} (buffer : Sector) (h : s ≠ sector) :
    (block.store sector buffer).sectors s = block.sectors s := by
  simp [store, Function.update_of_ne h]

end Block

/-- `check_sector`, on a device of `size` sectors. -/
def check_sector (size sector : Nat) : Option Unit := if sector ≥ size then none else some ()

@[simp] theorem check_sector_eq_some {size sector : Nat} :
    check_sector size sector = some () ↔ sector < size := by
  by_cases h : sector ≥ size
  · simp [check_sector, h]
  · simp [check_sector, h, Nat.lt_of_not_ge h]

def block_read (block : Block) (sector : Nat) : Option Sector := do
  check_sector block.size sector
  return block.sectors sector

def block_write (block : Block) (sector : Nat) (buffer : Sector) : Option Block := do
  check_sector block.size sector
  ASSERT (block.type ≠ .foreign)
  return block.store sector buffer

theorem block_read_eq {block : Block} {sector : Nat} (h : sector < block.size) :
    block_read block sector = some (block.sectors sector) := by
  rw [block_read, check_sector_eq_some.2 h]
  rfl

theorem block_write_eq {block : Block} {sector : Nat} (buffer : Sector) (h : sector < block.size)
    (htype : block.type ≠ .foreign) :
    block_write block sector buffer = some (block.store sector buffer) := by
  rw [block_write, check_sector_eq_some.2 h, ASSERT_pos htype]
  rfl

end Berk162
