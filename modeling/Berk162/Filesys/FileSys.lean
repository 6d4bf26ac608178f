import Berk162.Filesys.InodeData
import Berk162.Lib.Store
import Berk162.LibKernel.Bitmap

/-!
# FileSys — inodes, files and the free map

The state of the file system and the functions of `filesys/inode.c`, `filesys/file.c` and
`filesys/free-map.c`, with `bitmap_read` and `bitmap_write`.

Pointers to a `struct inode` or a `struct file` are addresses in a store.  `none` is a kernel
panic, a use of memory that has been freed included.
-/

namespace Berk162

/-- `struct inode`, an element of `open_inodes`. -/
structure Inode where
  sector : Nat
  open_cnt : Int
  removed : Bool
  deny_write_cnt : Int
  data : InodeDisk

/-- `struct file`. -/
structure File where
  inode : Nat
  pos : Nat
  deny_write : Bool

structure FileSys where
  fs_device : Block
  mem : Mallocs
  open_inodes : Store Inode
  files : Store File
  free_map : Bitmap
  free_map_file : Option Nat

/-- Free map file inode sector. -/
def FREE_MAP_SECTOR : Nat := 0

/-- Root directory file inode sector. -/
def ROOT_DIR_SECTOR : Nat := 1

/-! ## Bitmaps in files -/

/-- The elements of a bitmap as they lie in memory. -/
def Bitmap.elems (b : Bitmap) : Bytes :=
  (List.range (elem_cnt b.bit_cnt)).flatMap fun i => le_bytes 4 (b.bits i).toNat

/-- The bitmap after `bytes` have been stored over its elements. -/
def Bitmap.load (b : Bitmap) (bytes : Bytes) : Bitmap :=
  { b with
    bits := fun i =>
      if i < elem_cnt b.bit_cnt then
        BitVec.ofNat 32 (le_val (((bytes ++ b.elems.drop bytes.length).drop (4 * i)).take 4))
      else b.bits i }

def last_mask (b : Bitmap) : BitVec 32 :=
  let last_bits := b.bit_cnt % ELEM_BITS
  if last_bits ≠ 0 then (1#32 <<< last_bits) - 1#32 else BitVec.allOnes 32

namespace FileSys

/-- The state with another free map. -/
@[simps] def setMap (s : FileSys) (free_map : Bitmap) : FileSys := { s with free_map := free_map }

@[simps] def setDevice (s : FileSys) (fs_device : Block) : FileSys := { s with fs_device := fs_device }

@[simps] def setMem (s : FileSys) (mem : Mallocs) : FileSys := { s with mem := mem }

@[simps] def setInodes (s : FileSys) (open_inodes : Store Inode) : FileSys :=
  { s with open_inodes := open_inodes }

@[simps] def setFiles (s : FileSys) (files : Store File) : FileSys := { s with files := files }

/-- `malloc`, also `calloc`. -/
def malloc (s : FileSys) : Bool × FileSys := (s.mem.malloc.1, s.setMem s.mem.malloc.2)

/-! ## Data of inodes -/

/-- `inode_read_at`.  A `size` that is negative reads nothing, as 0 does. -/
def inode_read_at (s : FileSys) (inode size offset : Nat) : Option (Bytes × FileSys) := do
  let i ← s.open_inodes.get inode
  let (bytes, mem) ← inode_read_loop s.fs_device i.data s.mem false size offset
  return (bytes, s.setMem mem)

/-- `inode_write_at`, of the string that is in the caller's buffer. -/
def inode_write_at (s : FileSys) (inode : Nat) (buffer : Bytes) (offset : Nat) :
    Option (Nat × FileSys) := do
  let i ← s.open_inodes.get inode
  if i.deny_write_cnt ≠ 0 then return (0, s)
  let (n, fs_device, mem) ← inode_write_loop s.fs_device i.data s.mem false buffer offset
  return (n, (s.setDevice fs_device).setMem mem)

def file_read_at (s : FileSys) (file size file_ofs : Nat) : Option (Bytes × FileSys) := do
  let f ← s.files.get file
  s.inode_read_at f.inode size file_ofs

def file_write_at (s : FileSys) (file : Nat) (buffer : Bytes) (file_ofs : Nat) :
    Option (Nat × FileSys) := do
  let f ← s.files.get file
  s.inode_write_at f.inode buffer file_ofs

/-! ## The free map -/

def bitmap_write (s : FileSys) (b : Bitmap) (file : Nat) : Option (Bool × FileSys) := do
  let size := byte_cnt b.bit_cnt
  let (n, s) ← s.file_write_at file (b.elems.take size) 0
  return (n = size, s)

def bitmap_read (s : FileSys) (b : Bitmap) (file : Nat) : Option (Bool × Bitmap × FileSys) := do
  if b.bit_cnt > 0 then
    let size := byte_cnt b.bit_cnt
    let (bytes, s) ← s.file_read_at file size 0
    let b := b.load bytes
    let last := elem_cnt b.bit_cnt - 1
    let b := { b with bits := Function.update b.bits last (b.bits last &&& last_mask b) }
    return (bytes.length = size, b, s)
  else return (true, b, s)

/-- `free_map_allocate`. -/
def free_map_allocate (s : FileSys) (cnt : Nat) : Option (Option Nat × FileSys) := do
  let (free_map, sector) ← bitmap_scan_and_flip s.free_map 0 cnt false
  let s := s.setMap free_map
  if sector ≠ BITMAP_ERROR then
    match s.free_map_file with
    | none => return (some sector, s)
    | some file =>
        let (success, s) ← s.bitmap_write s.free_map file
        if success then return (some sector, s)
        else
          let free_map ← bitmap_set_multiple s.free_map sector cnt false
          return (none, s.setMap free_map)
  else return (none, s)

/-- `free_map_release`. -/
def free_map_release (s : FileSys) (sector cnt : Nat) : Option FileSys := do
  let all ← bitmap_all s.free_map sector cnt
  ASSERT (all = true)
  let free_map ← bitmap_set_multiple s.free_map sector cnt false
  let s := s.setMap free_map
  -- a null `free_map_file` would be dereferenced
  let file ← s.free_map_file
  let (_, s) ← s.bitmap_write s.free_map file
  return s

/-! ## Inodes -/

/-- Writes zeros to `n` sectors from `sector` on. -/
def write_zeros : Block → Nat → Nat → Option Block
  | fs_device, _, 0 => some fs_device
  | fs_device, sector, n + 1 => do
      let fs_device ← block_write fs_device sector (Sector.ofBytes fun _ => 0)
      write_zeros fs_device (sector + 1) n

/-- `inode_create`. -/
def inode_create (s : FileSys) (sector : Nat) (length : Int) : Option (Bool × FileSys) := do
  ASSERT (length ≥ 0)
  match s.malloc with
  | (false, s) => return (false, s)
  | (true, s) =>
      let sectors := bytes_to_sectors length.toNat
      let (start, s) ← s.free_map_allocate sectors
      match start with
      | none => return (false, s)
      | some start =>
          let disk_inode := InodeDisk.mk start length.toNat INODE_MAGIC
          let fs_device ← block_write s.fs_device sector disk_inode.toSector
          let fs_device ← write_zeros fs_device start sectors
          return (true, s.setDevice fs_device)

/-- `inode_reopen`, of an inode that is not null. -/
def inode_reopen (s : FileSys) (inode : Nat) : Option FileSys := do
  let i ← s.open_inodes.get inode
  return s.setInodes (s.open_inodes.set inode { i with open_cnt := i.open_cnt + 1 })

/-- `inode_open`. -/
def inode_open (s : FileSys) (sector : Nat) : Option (Option Nat × FileSys) :=
  match s.open_inodes.cells.find? fun e => e.2.sector = sector with
  | some (inode, _) => do
      let s ← s.inode_reopen inode
      return (some inode, s)
  | none =>
      match s.malloc with
      | (false, s) => some (none, s)
      | (true, s) => do
          let data ← block_read s.fs_device sector
          let inode := Inode.mk sector 1 false 0 (InodeDisk.ofSector data)
          return (some s.open_inodes.next, s.setInodes (s.open_inodes.alloc inode))

/-- `inode_close`. -/
def inode_close (s : FileSys) (inode : Option Nat) : Option FileSys :=
  match inode with
  | none => some s
  | some inode => do
      let i ← s.open_inodes.get inode
      if i.open_cnt - 1 = 0 then
        let s := s.setInodes (s.open_inodes.erase inode)
        if i.removed then
          let s ← s.free_map_release i.sector 1
          s.free_map_release i.data.start (bytes_to_sectors i.data.length)
        else return s
      else
        return s.setInodes (s.open_inodes.set inode { i with open_cnt := i.open_cnt - 1 })

/-- `inode_remove`. -/
def inode_remove (s : FileSys) (inode : Nat) : Option FileSys := do
  let i ← s.open_inodes.get inode
  return s.setInodes (s.open_inodes.set inode { i with removed := true })

/-- `inode_deny_write`. -/
def inode_deny_write (s : FileSys) (inode : Nat) : Option FileSys := do
  let i ← s.open_inodes.get inode
  ASSERT (i.deny_write_cnt + 1 ≤ i.open_cnt)
  return s.setInodes (s.open_inodes.set inode { i with deny_write_cnt := i.deny_write_cnt + 1 })

/-- `inode_allow_write`. -/
def inode_allow_write (s : FileSys) (inode : Nat) : Option FileSys := do
  let i ← s.open_inodes.get inode
  ASSERT (i.deny_write_cnt > 0)
  ASSERT (i.deny_write_cnt ≤ i.open_cnt)
  return s.setInodes (s.open_inodes.set inode { i with deny_write_cnt := i.deny_write_cnt - 1 })

/-! ## Files -/

/-- `file_open`. -/
def file_open (s : FileSys) (inode : Option Nat) : Option (Option Nat × FileSys) :=
  match inode, s.malloc with
  | some i, (true, s) => some (some s.files.next, s.setFiles (s.files.alloc ⟨i, 0, false⟩))
  | inode, (_, s) => do
      let s ← s.inode_close inode
      return (none, s)

/-- `file_reopen`. -/
def file_reopen (s : FileSys) (file : Nat) : Option (Option Nat × FileSys) := do
  let f ← s.files.get file
  let s ← s.inode_reopen f.inode
  s.file_open (some f.inode)

/-- `file_deny_write`. -/
def file_deny_write (s : FileSys) (file : Nat) : Option FileSys := do
  let f ← s.files.get file
  if !f.deny_write then
    let s := s.setFiles (s.files.set file { f with deny_write := true })
    s.inode_deny_write f.inode
  else return s

/-- `file_allow_write`. -/
def file_allow_write (s : FileSys) (file : Nat) : Option FileSys := do
  let f ← s.files.get file
  if f.deny_write then
    let s := s.setFiles (s.files.set file { f with deny_write := false })
    s.inode_allow_write f.inode
  else return s

/-- `file_close`, of a file that is not null. -/
def file_close (s : FileSys) (file : Nat) : Option FileSys := do
  let s ← s.file_allow_write file
  let f ← s.files.get file
  let s ← s.inode_close (some f.inode)
  return s.setFiles (s.files.erase file)

/-- `file_read`. -/
def file_read (s : FileSys) (file size : Nat) : Option (Bytes × FileSys) := do
  let f ← s.files.get file
  let (bytes, s) ← s.inode_read_at f.inode size f.pos
  return (bytes, s.setFiles (s.files.set file { f with pos := f.pos + bytes.length }))

/-- `file_write`. -/
def file_write (s : FileSys) (file : Nat) (buffer : Bytes) : Option (Nat × FileSys) := do
  let f ← s.files.get file
  let (n, s) ← s.inode_write_at f.inode buffer f.pos
  return (n, s.setFiles (s.files.set file { f with pos := f.pos + n }))

/-- `file_length`. -/
def file_length (s : FileSys) (file : Nat) : Option Int := do
  let f ← s.files.get file
  let i ← s.open_inodes.get f.inode
  return int32 i.data.length

/-- `file_seek`. -/
def file_seek (s : FileSys) (file : Nat) (new_pos : Int) : Option FileSys := do
  let f ← s.files.get file
  ASSERT (new_pos ≥ 0)
  return s.setFiles (s.files.set file { f with pos := new_pos.toNat })

/-- `free_map_create`. -/
def free_map_create (s : FileSys) : Option FileSys := do
  let (success, s) ← s.inode_create FREE_MAP_SECTOR (byte_cnt s.free_map.bit_cnt)
  ASSERT (success = true)
  let (inode, s) ← s.inode_open FREE_MAP_SECTOR
  let (file, s) ← s.file_open inode
  let s := { s with free_map_file := file }
  let file ← file
  let (success, s) ← s.bitmap_write s.free_map file
  ASSERT (success = true)
  return s

/-- `free_map_open`. -/
def free_map_open (s : FileSys) : Option FileSys := do
  let (inode, s) ← s.inode_open FREE_MAP_SECTOR
  let (file, s) ← s.file_open inode
  let s := { s with free_map_file := file }
  let file ← file
  let (success, free_map, s) ← s.bitmap_read s.free_map file
  ASSERT (success = true)
  return s.setMap free_map

/-- `free_map_close`.  The pointer is left as it is. -/
def free_map_close (s : FileSys) : Option FileSys := do
  match s.free_map_file with
  | none => return s
  | some file => s.file_close file

end FileSys

end Berk162
