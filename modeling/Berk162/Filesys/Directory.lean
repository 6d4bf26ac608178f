import Berk162.Filesys.FileSys
import Berk162.Lib.CText

/-!
# Directory — `filesys/directory.c`

A directory is an inode whose data are entries of 20 bytes.  The functions read and write one entry
at a time, each time with a bounce buffer of its own.
-/

namespace Berk162

/-- `strlcpy (dst, src, strlen dst)`. -/
def strlcpy (dst src : Bytes) : Bytes :=
  let n := min src.length (dst.length - 1)
  (src.take n ++ 0 :: dst.drop (n + 1)).take dst.length

/-- Maximum length of a file name component. -/
def NAME_MAX : Nat := 14

/-- `struct dir_entry`. -/
structure DirEntry where
  inode_sector : Nat
  name : Bytes
  length_name : name.length = NAME_MAX + 1
  in_use : Bool
  deriving DecidableEq

def sizeof_dir_entry : Nat := 20

namespace DirEntry

def toBytes (e : DirEntry) : Bytes :=
  le_bytes 4 e.inode_sector ++ e.name ++ [if e.in_use then 1 else 0]

/-- The entry whose bytes are `f 0`, `f 1`, ... -/
def ofBytes (f : Nat → UInt8) : DirEntry where
  inode_sector := le_val (window f 0 4)
  name := window f 4 (NAME_MAX + 1)
  length_name := length_window
  in_use := f 19 ≠ 0

/-- The entry after `bytes` have been stored over it. -/
def load (e : DirEntry) (bytes : Bytes) : DirEntry :=
  ofBytes (overlay (fun i => e.toBytes.getD i 0) 0 bytes)

/-- The name, as a string. -/
def str (e : DirEntry) : Bytes := c_chars e.name

/-- The entry in use for a new file. -/
def fill (e : DirEntry) (name : Bytes) (inode_sector : Nat) : DirEntry where
  inode_sector := inode_sector
  name := strlcpy e.name name
  length_name := by
    have hlen := e.length_name
    simp only [strlcpy, List.length_take, List.length_append, List.length_cons, List.length_drop,
      NAME_MAX] at hlen ⊢
    omega
  in_use := true

end DirEntry

namespace FileSys

/-- `dir_create`. -/
def dir_create (s : FileSys) (sector entry_cnt : Nat) : Option (Bool × FileSys) :=
  s.inode_create sector (size_mul entry_cnt sizeof_dir_entry)

/-- `dir_open`.  A directory is given by its inode; the position is left out. -/
def dir_open (s : FileSys) (inode : Option Nat) : Option (Option Nat × FileSys) :=
  match inode, s.malloc with
  | some i, (true, s) => some (some i, s)
  | inode, (_, s) => do
      let s ← s.inode_close inode
      return (none, s)

/-- `dir_open_root`. -/
def dir_open_root (s : FileSys) : Option (Option Nat × FileSys) := do
  let (inode, s) ← s.inode_open ROOT_DIR_SECTOR
  s.dir_open inode

/-- `dir_close`. -/
def dir_close (s : FileSys) (dir : Option Nat) : Option FileSys := s.inode_close dir

/-- The `for` loops of `lookup` and `dir_add`, from offset `ofs` on, over the variable `e`.  They
end at the first entry that `stop` holds of, or at a short read; the flag tells which.  The number
of passes is at most `passes`. -/
def scan_entries (dir : Nat) (stop : DirEntry → Bool) :
    Nat → FileSys → Nat → DirEntry → Option (Bool × DirEntry × Nat × FileSys)
  | 0, _, _, _ => none
  | passes + 1, s, ofs, e => do
      let (bytes, s) ← s.inode_read_at dir sizeof_dir_entry ofs
      let e := e.load bytes
      if bytes.length = sizeof_dir_entry then
        if stop e then return (true, e, ofs, s)
        else scan_entries dir stop passes s (ofs + sizeof_dir_entry) e
      else return (false, e, ofs, s)

/-- The loop from the start of the directory. -/
def scan_dir (s : FileSys) (dir : Nat) (stop : DirEntry → Bool) (e : DirEntry) :
    Option (Bool × DirEntry × Nat × FileSys) := do
  let i ← s.open_inodes.get dir
  scan_entries dir stop (i.data.length / sizeof_dir_entry + 1) s 0 e

/-- What `lookup` looks for. -/
def names (name : CString) (e : DirEntry) : Bool := e.in_use && (name.chars == e.str)

theorem names_iff {name : CString} {e : DirEntry} :
    names name e = true ↔ e.in_use = true ∧ name.chars = e.str := by
  rw [names, Bool.and_eq_true, beq_iff_eq]

/-- `lookup`: the entry and its offset. -/
def lookup (s : FileSys) (dir : Nat) (name : CString) (e : DirEntry) :
    Option (Option (DirEntry × Nat) × FileSys) := do
  let (found, e, ofs, s) ← s.scan_dir dir (names name) e
  return (if found then some (e, ofs) else none, s)

/-- `dir_lookup`.  The variable `e` is not initialized. -/
def dir_lookup (s : FileSys) (dir : Nat) (name : CString) (e : DirEntry) :
    Option (Option Nat × FileSys) := do
  let (found, s) ← s.lookup dir name e
  match found with
  | some (e, _) => s.inode_open e.inode_sector
  | none => return (none, s)

/-- `dir_add`. -/
def dir_add (s : FileSys) (dir : Nat) (name : CString) (inode_sector : Nat) (e : DirEntry) :
    Option (Bool × FileSys) := do
  if name.chars = [] ∨ name.chars.length > NAME_MAX then return (false, s)
  let (found, s) ← s.lookup dir name e
  match found with
  | some _ => return (false, s)
  | none =>
      let (_, e, ofs, s) ← s.scan_dir dir (fun e => !e.in_use) e
      let e := e.fill name.chars inode_sector
      let (n, s) ← s.inode_write_at dir e.toBytes ofs
      return (n = sizeof_dir_entry, s)

/-- `dir_remove`. -/
def dir_remove (s : FileSys) (dir : Nat) (name : CString) (e : DirEntry) :
    Option (Bool × FileSys) := do
  let (found, s) ← s.lookup dir name e
  match found with
  | none => return (false, s)
  | some (e, ofs) =>
      let (inode, s) ← s.inode_open e.inode_sector
      match inode with
      | none => return (false, s)
      | some inode =>
          let e := { e with in_use := false }
          let (n, s) ← s.inode_write_at dir e.toBytes ofs
          if n ≠ sizeof_dir_entry then
            let s ← s.inode_close (some inode)
            return (false, s)
          else
            let s ← s.inode_remove inode
            let s ← s.inode_close (some inode)
            return (true, s)

end FileSys

end Berk162
