import Berk162.Filesys.Directory

/-!
# Filesys — `filesys/filesys.c`

The calls of the file system, and formatting, starting and stopping it.  `PANIC` is `none`.
-/

namespace Berk162

/-- `bitmap_create`, with storage that holds the words `storage`.  `malloc` gives no memory for 0
bytes. -/
def bitmap_create (bit_cnt : Nat) (mem : Mallocs) (storage : Nat → BitVec 32) :
    Option Bitmap × Mallocs :=
  let (ok, mem) := mem.malloc
  if ok then
    let (ok, mem) := if byte_cnt bit_cnt = 0 then (false, mem) else mem.malloc
    if ok ∨ bit_cnt = 0 then (bitmap_set_all ⟨bit_cnt, storage⟩ false, mem) else (none, mem)
  else (none, mem)

namespace FileSys

/-- `filesys_create`.  `e` is what is on the stack where `dir_add` has its entry. -/
def filesys_create (s : FileSys) (name : CString) (initial_size : Int) (e : DirEntry) :
    Option (Bool × FileSys) := do
  let (dir, s) ← s.dir_open_root
  match dir with
  | none => return (false, s)
  | some dir =>
      let (inode_sector, s) ← s.free_map_allocate 1
      match inode_sector with
      | none =>
          let s ← s.dir_close (some dir)
          return (false, s)
      | some inode_sector =>
          let (created, s) ← s.inode_create inode_sector initial_size
          let (success, s) ←
            if created then s.dir_add dir name inode_sector e else some (false, s)
          let s ←
            if !success ∧ inode_sector ≠ 0 then s.free_map_release inode_sector 1 else some s
          let s ← s.dir_close (some dir)
          return (success, s)

/-- `filesys_open`. -/
def filesys_open (s : FileSys) (name : CString) (e : DirEntry) : Option (Option Nat × FileSys) := do
  let (dir, s) ← s.dir_open_root
  let (inode, s) ←
    match dir with
    | none => some (none, s)
    | some dir => s.dir_lookup dir name e
  let s ← s.dir_close dir
  s.file_open inode

/-- `filesys_remove`. -/
def filesys_remove (s : FileSys) (name : CString) (e : DirEntry) : Option (Bool × FileSys) := do
  let (dir, s) ← s.dir_open_root
  let (success, s) ←
    match dir with
    | none => some (false, s)
    | some dir => s.dir_remove dir name e
  let s ← s.dir_close dir
  return (success, s)

/-- `do_format`. -/
def do_format (s : FileSys) : Option FileSys := do
  let s ← s.free_map_create
  let (success, s) ← s.dir_create ROOT_DIR_SECTOR 16
  ASSERT (success = true)
  s.free_map_close

/-- `filesys_init`, with the device that has the role of the file system. -/
def filesys_init (fs_device : Block) (mem : Mallocs) (storage : Nat → BitVec 32) (format : Bool) :
    Option FileSys := do
  let (free_map, mem) := bitmap_create fs_device.size mem storage
  let free_map ← free_map
  let free_map := bitmap_mark (bitmap_mark free_map FREE_MAP_SECTOR) ROOT_DIR_SECTOR
  let s := FileSys.mk fs_device mem Store.empty Store.empty free_map none
  let s ← if format then s.do_format else some s
  s.free_map_open

/-- `filesys_done`. -/
def filesys_done (s : FileSys) : Option FileSys := s.free_map_close

end FileSys

end Berk162
