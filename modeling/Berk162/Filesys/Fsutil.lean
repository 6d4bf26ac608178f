import Berk162.Filesys.FsRefines
import Berk162.LibC.UstarHeader

/-!
# Fsutil — `fsutil_extract` and `fsutil_append` of `filesys/fsutil.c`

Both go through the scratch device sector by sector, each with a static position of its own.  What
they print to the console is left out.  The functions of the file system may need something from the
stack: `stack` says what is there when the scratch device is at a sector.

The loops get a number of rounds.  The `PANIC` of a loop that has had its rounds does not happen:
each round of a copy loop takes away from the size, and each round of `fsutil_extract` reads one
more sector of a device that has so many.
-/

namespace Berk162

/-- Why a function of `fsutil.c` does not return. -/
inductive FsutilPanic
  | couldnt_allocate_buffers
  | couldnt_open_scratch_device
  | bad_ustar_header (sector : Nat) (error : Bytes)
  | create_failed (file_name : CString)
  | open_failed (file_name : CString)
  | write_failed (file_name : CString) (unwritten : Nat)
  | name_too_long (file_name : CString)
  | out_of_space (file_name : CString)
  | read_failed (file_name : CString) (unread : Nat)
  /-- A function that is called panics. -/
  | called
  /-- A loop has had its rounds. -/
  | rounds
  deriving DecidableEq

/-- What the functions of `fsutil.c` work on: the file system, the device with the role
`BLOCK_SCRATCH`, and the static variable `sector` of each. -/
structure Fsutil where
  fs : FileSys
  scratch : Option Block
  extract_sector : Nat
  append_sector : Nat

/-- A call that may panic. -/
def call {α : Type} : Option α → Except FsutilPanic α
  | some a => .ok a
  | none => .error .called

def archive_end_sector : Sector := Sector.ofBytes fun _ => 0

/-- How much is copied in one round. -/
def copy_size (size : Nat) : Nat := if size > BLOCK_SECTOR_SIZE then BLOCK_SECTOR_SIZE else size

/-- The copy loop of `fsutil_extract`. -/
def extract_data (src : Block) (file_name : CString) (dst : Nat) :
    Nat → FileSys → Nat → Nat → Except FsutilPanic (FileSys × Nat)
  | 0, s, sector, size => if size > 0 then .error .rounds else .ok (s, sector)
  | rounds + 1, s, sector, size =>
    if size > 0 then do
      let data ← call (block_read src sector)
      let (n, s) ← call (s.file_write dst (data.bytes.take (copy_size size)))
      if n ≠ copy_size size then .error (.write_failed file_name size)
      else extract_data src file_name dst rounds s (size_add sector 1) (size - copy_size size)
    else .ok (s, sector)

/-- A regular file is put into the file system. -/
def extract_file (stack : Nat → DirEntry) (src : Block) (s : FileSys) (sector : Nat)
    (file_name : CString) (size : Nat) : Except FsutilPanic (FileSys × Nat) := do
  let (created, s) ← call (s.filesys_create file_name size (stack sector))
  if created = false then .error (.create_failed file_name)
  else
    let (dst, s) ← call (s.filesys_open file_name (stack sector))
    match dst with
    | none => .error (.open_failed file_name)
    | some dst =>
        let (s, sector) ← extract_data src file_name dst size s sector size
        let s ← call (s.file_close dst)
        return (s, sector)

/-- The header in a sector, read and parsed. -/
def extract_header (src : Block) (sector : Nat) : Except FsutilPanic UstarEntry := do
  let header ← call (block_read src sector)
  match ustar_parse_header header.byte with
  | .error error => .error (.bad_ustar_header (size_sub (size_add sector 1) 1) error)
  | .ok e => .ok e

/-- The loop of `fsutil_extract`. -/
def extract_loop (stack : Nat → DirEntry) (src : Block) :
    Nat → FileSys → Nat → Except FsutilPanic (FileSys × Nat)
  | 0, _, _ => .error .rounds
  | rounds + 1, s, sector => do
      let e ← extract_header src sector
      let sector := size_add sector 1
      if e.type = .USTAR_EOF then .ok (s, sector)
      else if e.type = .USTAR_DIRECTORY then extract_loop stack src rounds s sector
      else
        match e.file_name with
        | none => .error .called
        | some file_name =>
            let (s, sector) ← extract_file stack src s sector file_name e.size
            extract_loop stack src rounds s sector

def fsutil_extract (stack : Nat → DirEntry) (u : Fsutil) : Except FsutilPanic Fsutil := do
  -- the buffers for the header and the data
  let (header, s) := u.fs.malloc
  let (data, s) := s.malloc
  if header = false ∨ data = false then .error .couldnt_allocate_buffers
  else
    match u.scratch with
    | none => .error .couldnt_open_scratch_device
    | some src =>
        let (s, sector) ← extract_loop stack src (src.size + 1) s u.extract_sector
        let src ← call (block_write src 0 archive_end_sector)
        let src ← call (block_write src 1 archive_end_sector)
        return ⟨s, some src, sector, u.append_sector⟩

/-- The copy loop of `fsutil_append`. -/
def append_data (file_name : CString) (src : Nat) :
    Nat → FileSys → Block → Nat → Nat → Except FsutilPanic (FileSys × Block × Nat)
  | 0, s, dst, sector, size => if size > 0 then .error .rounds else .ok (s, dst, sector)
  | rounds + 1, s, dst, sector, size =>
    if size > 0 then do
      if sector ≥ dst.size then .error (.out_of_space file_name)
      else
        let (bytes, s) ← call (s.file_read src (copy_size size))
        if bytes.length ≠ copy_size size then .error (.read_failed file_name size)
        else
          -- the rest of the buffer is cleared
          let buffer := Sector.ofBytes fun i => bytes.getD i 0
          let dst ← call (block_write dst sector buffer)
          append_data file_name src rounds s dst (size_add sector 1) (size - copy_size size)
    else .ok (s, dst, sector)

section

variable (floats : FloatConversions) (memory : BitVec 32 → UInt8)

/-- The part of `fsutil_append` that has opened the file `src`, of `size` bytes. -/
def append_file (file_name : CString) (s : FileSys) (src : Nat) (dst : Block) (sector : Nat)
    (size : Int) : Except FsutilPanic (FileSys × Block × Nat) := do
  let made ← call (ustar_make_header floats memory file_name .USTAR_REGULAR (BitVec.ofInt 32 size))
  match made with
  | .error _ => .error (.name_too_long file_name)
  | .ok header =>
      let dst ← call (block_write dst sector (Sector.ofBytes header))
      let (s, dst, sector) ←
        append_data file_name src size.toNat s dst (size_add sector 1) size.toNat
      -- the position stays in front of the end-of-archive marker
      let dst ← call (block_write dst sector archive_end_sector)
      let dst ← call (block_write dst (size_add sector 1) archive_end_sector)
      let s ← call (s.file_close src)
      return (s, dst, sector)

def fsutil_append (stack : Nat → DirEntry) (file_name : CString) (u : Fsutil) :
    Except FsutilPanic Fsutil := do
  let (buffer, s) := u.fs.malloc
  if buffer = false then .error .couldnt_allocate_buffers
  else
    let (src, s) ← call (s.filesys_open file_name (stack u.append_sector))
    match src with
    | none => .error (.open_failed file_name)
    | some src =>
        let size ← call (s.file_length src)
        match u.scratch with
        | none => .error .couldnt_open_scratch_device
        | some dst =>
            let (s, dst, sector) ←
              append_file floats memory file_name s src dst u.append_sector size
            return ⟨s, some dst, u.extract_sector, sector⟩

end

end Berk162
