import Berk162.Devices.Block

/-!
# Partition — partition tables, `devices/partition.c`

`partition_scan` reads the partition table in sector 0 of a disk, follows its extended partitions
and registers a block device for each partition it finds.

`read_partition_table` calls itself, and nothing in the code bounds the depth of the calls; here
it takes fuel, and `none` also stands for the fuel running out.  The memory for tables and
descriptors is taken to be there (`malloc` returning a null pointer is a panic).
-/

namespace Berk162

/-! ## Partition tables -/

/-- `struct partition_table_entry`, the fields that are read. -/
structure PartitionTableEntry where
  type : Nat
  offset : Nat
  size : Nat
  deriving DecidableEq, Repr

/-- The entry encoded in 16 bytes. -/
def partition_table_entry (bs : Bytes) : PartitionTableEntry where
  type := le_val ((bs.drop 4).take 1)
  offset := le_val ((bs.drop 8).take 4)
  size := le_val ((bs.drop 12).take 4)

/-- `pt->partitions` -/
def partitions (pt : Sector) : List PartitionTableEntry :=
  (List.range 4).map fun i => partition_table_entry (pt.bytes.drop (446 + 16 * i))

/-- `pt->signature` -/
def signature (pt : Sector) : Nat := le_val ((pt.bytes.drop 510).take 2)

namespace PartitionTableEntry

/-- `e->size == 0 || e->type == 0` -/
def empty (e : PartitionTableEntry) : Bool := e.size == 0 || e.type == 0

/-- The type is one of those of an extended partition. -/
def extended_type (e : PartitionTableEntry) : Bool :=
  e.type == 0x05 || e.type == 0x0f || e.type == 0x85 || e.type == 0xc5

/-- The entry that makes `read_partition_table` call itself. -/
def extended (e : PartitionTableEntry) : Bool := !e.empty && e.extended_type

/-- The entry of a primary or logical partition. -/
def data (e : PartitionTableEntry) : Bool := !e.empty && !e.extended_type

end PartitionTableEntry

/-! ## Scanning -/

/-- `struct partition`, with the device that was registered for it. -/
structure Partition where
  name : List Char
  part_nr : Nat
  type : BlockType
  start : Nat
  size : Nat
  deriving DecidableEq, Repr

/-- `*part_nr` and the partitions registered so far. -/
structure Scan where
  part_nr : Nat
  registered : List Partition
  deriving DecidableEq, Repr

def partition_block_type (part_type : Nat) : BlockType :=
  if part_type = 0x20 then .kernel
  else if part_type = 0x21 then .filesys
  else if part_type = 0x22 then .scratch
  else if part_type = 0x23 then .swap
  else .foreign

/-- `snprintf (name, sizeof name, "%s%d", block_name (block), part_nr)` -/
def partition_name (block_name : List Char) (part_nr : Nat) : List Char :=
  (block_name ++ (toString part_nr).toList).take 15

/-- The device registered for a partition of the given type and extent. -/
def partition_of (block : Block) (part_type start size part_nr : Nat) : Partition where
  name := partition_name block.name part_nr
  part_nr := part_nr
  type := partition_block_type part_type
  start := start
  size := size

def found_partition (block : Block) (part_type start size part_nr : Nat)
    (registered : List Partition) : List Partition :=
  if start ≥ block.size then
    registered
  else if size_add start size < start ∨ size_add start size > block.size then
    registered
  else
    registered ++ [partition_of block part_type start size part_nr]

/-- `read_partition_table`: the loop over the entries is a fold. -/
def read_partition_table (block : Block) : Nat → Nat → Nat → Scan → Option Scan
  | 0, _, _, _ => none
  | fuel + 1, sector, primary_extended_sector, st =>
      if sector ≥ block.size then
        some st
      else do
        let pt ← block_read block 0
        if signature pt ≠ 0xaa55 then
          return st
        else
          (partitions pt).foldlM
            (fun st e =>
              if e.empty then
                some st
              else if e.extended_type then
                if sector = 0 then
                  read_partition_table block fuel e.offset e.offset st
                else
                  read_partition_table block fuel (size_add e.offset primary_extended_sector)
                    primary_extended_sector st
              else
                let part_nr := st.part_nr + 1
                some { part_nr := part_nr,
                       registered := found_partition block e.type (size_add e.offset sector)
                         e.size part_nr st.registered })
            st

def partition_scan (block : Block) (fuel : Nat) : Option Scan :=
  read_partition_table block fuel 0 0 { part_nr := 0, registered := [] }

/-! ## The operations of a partition's device -/

def partition_read (block : Block) (p : Partition) (sector : Nat) : Option Sector :=
  block_read block (size_add p.start sector)

def partition_write (block : Block) (p : Partition) (sector : Nat) (buffer : Sector) :
    Option Block :=
  block_write block (size_add p.start sector) buffer

end Berk162
