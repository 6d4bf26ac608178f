import Berk162.Filesys.Filesys
import Berk162.Lib.Program
import Berk162.Threads.Vaddr

/-!
# Syscall — `userprog/syscall.c` of the kernel of hw-memory

The kernel works on user memory directly.  It checks only that what it is given lies below
`PHYS_BASE`; a page that is not mapped makes it fault, and then the process ends.  `load` and `store`
are the accesses to memory on behalf of the user.

The state says of the running thread which locks it has and how many blocks of the heap the system
call has for its own use, and lists the addresses that were accessed.  The file system is that of
the other kernel.  The output on the console is left out.
-/

namespace Berk162

namespace HwMemory

inductive KernelLock
  /-- `console_lock` -/
  | console
  /-- The lock of the channel of the disk. -/
  | channel
  deriving DecidableEq, Repr

structure Kernel where
  memory : Memory
  /-- Of a page number: whether the page is mapped, and whether it can be written. -/
  page : Nat → Option Bool
  /-- The locks of the running thread. -/
  locks : List KernelLock
  console_lock_depth : Nat
  /-- The blocks that were allocated for the system call. -/
  blocks : Nat
  fs : FileSys
  /-- The member of `struct thread`. -/
  open_file : Option Nat
  /-- The addresses accessed on behalf of the user, as sums that do not wrap around. -/
  touched : List Nat

/-- Why a system call does not return. -/
inductive Stop
  /-- By `syscall_exit`. -/
  | exited (status : Int)
  | panic
  deriving DecidableEq, Repr

abbrev Kern (α : Type) := EStateM Stop Kernel α

namespace Kern

def PANIC {α : Type} : Kern α := throw .panic

/-- `syscall_exit`. -/
def syscall_exit {α : Type} (status : Int) : Kern α := throw (.exited status)

/-- A function of the file system that does not access user memory. -/
def fs {α : Type} (f : FileSys → Option (α × FileSys)) : Kern α := fun k =>
  match f k.fs with
  | some (a, s) => .ok a { k with fs := s }
  | none => .error .panic k

/-! ## Memory -/

/-- A byte is read.  `page_fault` ends the process. -/
def load (a : Nat) : Kern UInt8 := fun k =>
  let k := { k with touched := a :: k.touched }
  if a % WORD < PHYS_BASE ∧ k.page (pg_no (a % WORD)) = none then .error (.exited (-1)) k
  else .ok (k.memory (a % WORD)) k

/-- A byte is written. -/
def store (a : Nat) (b : UInt8) : Kern Unit := fun k =>
  let k := { k with touched := a :: k.touched }
  if a % WORD < PHYS_BASE ∧ k.page (pg_no (a % WORD)) ≠ some true then .error (.exited (-1)) k
  else .ok () { k with memory := Function.update k.memory (a % WORD) b }

def load_bytes : Nat → Nat → Kern Bytes
  | _, 0 => return []
  | a, n + 1 => do
      let b ← load a
      let bs ← load_bytes (a + 1) n
      return b :: bs

def store_bytes : Nat → Bytes → Kern Unit
  | _, [] => return ()
  | a, b :: bs => do
      store a b
      store_bytes (a + 1) bs

/-- A `uint32_t`. -/
def load_word (a : Nat) : Kern Nat := do
  let bs ← load_bytes a 4
  return le_val bs

/-! ## Locks and blocks -/

def lock_acquire (l : KernelLock) : Kern Unit := fun k =>
  if l ∈ k.locks then .error .panic k else .ok () { k with locks := l :: k.locks }

def lock_release (l : KernelLock) : Kern Unit := fun k =>
  if l ∈ k.locks then .ok () { k with locks := k.locks.erase l } else .error .panic k

def acquire_console : Kern Unit := fun k =>
  if .console ∈ k.locks then .ok () { k with console_lock_depth := k.console_lock_depth + 1 }
  else lock_acquire .console k

def release_console : Kern Unit := fun k =>
  if k.console_lock_depth > 0 then .ok () { k with console_lock_depth := k.console_lock_depth - 1 }
  else lock_release .console k

/-- `malloc` of a block for the system call. -/
def malloc : Kern Bool := fun k =>
  match k.fs.malloc with
  | (true, s) => .ok true { k with fs := s, blocks := k.blocks + 1 }
  | (false, s) => .ok false { k with fs := s }

def free : Kern Unit := fun k => .ok () { k with blocks := k.blocks - 1 }

/-! ## The console and the disk -/

/-- The loop of `putbuf`. -/
def put_chars : Nat → Nat → Kern Unit
  | _, 0 => return ()
  | buffer, n + 1 => do
      let _ ← load buffer
      put_chars (buffer + 1) n

def putbuf (buffer n : Nat) : Kern Unit := do
  acquire_console
  put_chars buffer n
  release_console

/-- `block_read` with `ide_read`, into a buffer of the kernel. -/
def read_sector (sec_no : Nat) : Kern Sector := do
  let sector ← fs fun s => (block_read s.fs_device sec_no).map fun sector => (sector, s)
  lock_acquire .channel
  lock_release .channel
  return sector

/-- The same into memory of the user. -/
def ide_read (sec_no buffer : Nat) : Kern Unit := do
  let sector ← fs fun s => (block_read s.fs_device sec_no).map fun sector => (sector, s)
  lock_acquire .channel
  store_bytes buffer sector.bytes
  lock_release .channel

/-- `block_write` with `ide_write`, from a buffer of the kernel. -/
def write_sector (sec_no : Nat) (sector : Sector) : Kern Unit := do
  fs fun s => (block_write s.fs_device sec_no sector).map fun dev => ((), s.setDevice dev)
  lock_acquire .channel
  lock_release .channel

/-- The same from memory of the user.  The checks of `block_write` come before the bytes are read. -/
def ide_write (sec_no buffer : Nat) : Kern Unit := do
  fs fun s => (block_write s.fs_device sec_no (Sector.ofBytes fun _ => 0)).map fun _ => ((), s)
  lock_acquire .channel
  let bytes ← load_bytes buffer BLOCK_SECTOR_SIZE
  fs fun s => (block_write s.fs_device sec_no (Sector.ofBytes fun i => bytes.getD i 0)).map
    fun dev => ((), s.setDevice dev)
  lock_release .channel

/-! ## Files -/

/-- The loops of `inode_read_at` and `inode_write_at`, which move a whole sector by `whole`, or a
piece of one by `piece`, with a bounce buffer. -/
def transfer_loop (whole : Nat → Nat → Kern Unit) (piece : Nat → Nat → Nat → Nat → Kern Unit)
    (data : InodeDisk) (bounce : Bool) (buffer size offset : Nat) : Kern Nat :=
  let sector_idx := byte_to_sector data offset
  let sector_ofs := offset % BLOCK_SECTOR_SIZE
  let chunk := chunk_size data size offset
  if chunk = 0 then do
    if bounce then free
    return 0
  else if sector_ofs = 0 ∧ chunk = BLOCK_SECTOR_SIZE then do
    whole sector_idx buffer
    let n ← transfer_loop whole piece data bounce (buffer + chunk) (size - chunk) (offset + chunk)
    return chunk + n
  else do
    let ok ← if bounce then pure true else malloc
    if ok then
      piece sector_idx sector_ofs chunk buffer
      let n ← transfer_loop whole piece data true (buffer + chunk) (size - chunk) (offset + chunk)
      return chunk + n
    else return 0
termination_by size
decreasing_by
  all_goals
    have hle := chunk_size_le data size offset
    omega

/-- `memcpy` to the user, and from the user. -/
def memcpy_to (dst : Nat) (src : Bytes) : Kern Unit :=
  if dst = NULL ∧ src ≠ [] then PANIC else store_bytes dst src

def memcpy_from (src size : Nat) : Kern Bytes :=
  if src = NULL ∧ size ≠ 0 then PANIC else load_bytes src size

/-- A piece of a sector, to the user. -/
def read_piece (sector_idx sector_ofs chunk buffer : Nat) : Kern Unit := do
  let sector ← read_sector sector_idx
  memcpy_to buffer ((sector.bytes.drop sector_ofs).take chunk)

/-- A piece of a sector, from the user. -/
def write_piece (sector_idx sector_ofs chunk buffer : Nat) : Kern Unit := do
  let sector ←
    if sector_ofs > 0 ∨ chunk < BLOCK_SECTOR_SIZE - sector_ofs then read_sector sector_idx
    else pure (Sector.ofBytes fun _ => 0)
  let bytes ← memcpy_from buffer chunk
  write_sector sector_idx (sector.memcpy sector_ofs bytes)

/-- An `unsigned` as an `off_t`; a transfer of a negative number of bytes moves nothing. -/
def off_t_size (size : Nat) : Nat := if size < OFF_T then size else 0

/-- `inode_read_at` -/
def inode_read_at (inode buffer size offset : Nat) : Kern Nat := do
  let i ← fs fun s => (s.open_inodes.get inode).map fun i => (i, s)
  transfer_loop ide_read read_piece i.data false buffer (off_t_size size) offset

/-- `inode_write_at` -/
def inode_write_at (inode buffer size offset : Nat) : Kern Nat := do
  let i ← fs fun s => (s.open_inodes.get inode).map fun i => (i, s)
  if i.deny_write_cnt ≠ 0 then return 0
  transfer_loop ide_write write_piece i.data false buffer (off_t_size size) offset

def file_read (file buffer size : Nat) : Kern Nat := do
  let f ← fs fun s => (s.files.get file).map fun f => (f, s)
  let n ← inode_read_at f.inode buffer size f.pos
  fs fun s => some ((), s.setFiles (s.files.set file { f with pos := f.pos + n }))
  return n

def file_write (file buffer size : Nat) : Kern Nat := do
  let f ← fs fun s => (s.files.get file).map fun f => (f, s)
  let n ← inode_write_at f.inode buffer size f.pos
  fs fun s => some ((), s.setFiles (s.files.set file { f with pos := f.pos + n }))
  return n

/-! ## Names -/

/-- The loop of `strcmp` on a string of the user and one of the kernel, whose end counts as its
null: whether they are equal. -/
def same_chars : Nat → Bytes → Kern Bool
  | a, [] => do
      let c ← load a
      return c = 0
  | a, b :: bs => do
      let c ← load a
      if c ≠ 0 ∧ c = b then same_chars (a + 1) bs else return c = b

/-- `strcmp` -/
def strcmp (a : Nat) (b : Bytes) : Kern Bool := if a = NULL then PANIC else same_chars a b

/-- The condition of `lookup`. -/
def same_name (name : Nat) (e : DirEntry) : Kern Bool :=
  if e.in_use then strcmp name e.name else pure false

/-- The loop of `lookup`. -/
def lookup (dir name : Nat) : Nat → Nat → DirEntry → Kern (Option DirEntry)
  | 0, _, _ => PANIC
  | passes + 1, ofs, e => do
      let bytes ← fs fun s => s.inode_read_at dir sizeof_dir_entry ofs
      let e := e.load bytes
      if bytes.length = sizeof_dir_entry then
        if ← same_name name e then return some e
        else lookup dir name passes (ofs + sizeof_dir_entry) e
      else return none

def dir_lookup (dir name : Nat) (e : DirEntry) : Kern (Option Nat) := do
  if name = NULL then PANIC
  let i ← fs fun s => (s.open_inodes.get dir).map fun i => (i, s)
  let found ← lookup dir name (i.data.length / sizeof_dir_entry + 1) 0 e
  match found with
  | some e => fs fun s => s.inode_open e.inode_sector
  | none => return none

/-- `filesys_open`, with what is on the stack where `lookup` has its entry. -/
def filesys_open (name : Nat) (e : DirEntry) : Kern (Option Nat) := do
  let dir ← fs FileSys.dir_open_root
  let inode ←
    match dir with
    | none => pure none
    | some dir => dir_lookup dir name e
  fs fun s => (s.dir_close dir).map fun s => ((), s)
  fs fun s => s.file_open inode

/-- `strnlen`, with `length` bytes behind it and `rest` to go.  A byte is read before `maxlen` is
looked at. -/
def strnlen (string : Nat) : Nat → Nat → Kern Nat
  | length, 0 => do
      let _ ← load (string + length)
      return length
  | length, rest + 1 => do
      let c ← load (string + length)
      if c ≠ 0 then strnlen string (length + 1) rest else return length

/-! ## System calls -/

def validate_buffer_in_user_region (buffer length : Nat) : Kern Unit := do
  let delta := size_sub PHYS_BASE buffer
  if ¬ buffer < PHYS_BASE ∨ length > delta then syscall_exit (-1)

def validate_string_in_user_region (string : Nat) : Kern Unit := do
  let delta := size_sub PHYS_BASE string
  if ¬ string < PHYS_BASE then syscall_exit (-1)
  else do
    let length ← strnlen string 0 delta
    if length = delta then syscall_exit (-1)

def open_file : Kern (Option Nat) := fun k => .ok k.open_file k

def set_open_file (file : Option Nat) : Kern Unit := fun k => .ok () { k with open_file := file }

def syscall_open (filename : Nat) (e : DirEntry) : Kern Int := do
  match ← open_file with
  | some _ => return -1
  | none =>
      let file ← filesys_open filename e
      set_open_file file
      match file with
      | none => return -1
      | some _ => return 2

def STDOUT_FILENO : Nat := 1

def syscall_write (fd buffer size : Nat) : Kern Int := do
  if fd = STDOUT_FILENO then
    putbuf buffer size
    return int32 size
  else
    match ← open_file with
    | none => return -1
    | some file => if fd ≠ 2 then return -1 else return (← file_write file buffer size : Nat)

def syscall_read (fd buffer size : Nat) : Kern Int := do
  match ← open_file with
  | none => return -1
  | some file => if fd ≠ 2 then return -1 else return (← file_read file buffer size : Nat)

def syscall_close (fd : Nat) : Kern Unit := do
  match ← open_file with
  | none => return ()
  | some file =>
      if fd = 2 then
        fs fun s => (s.file_close file).map fun s => ((), s)
        set_open_file none

def SYS_EXIT : Nat := 1

def SYS_OPEN : Nat := 6

def SYS_READ : Nat := 8

def SYS_WRITE : Nat := 9

def SYS_CLOSE : Nat := 12

/-- `syscall_handler`, with what it puts into `eax`.  Numbers of file descriptors are compared as they
are, which their conversion to `int` does not change. -/
def syscall_handler (esp : Nat) (e : DirEntry) : Kern (Option Int) := do
  validate_buffer_in_user_region esp 4
  let number ← load_word esp
  let args := size_add esp 4
  if number = SYS_EXIT then
    validate_buffer_in_user_region args 4
    let status ← load_word args
    syscall_exit (int32 status)
  else if number = SYS_OPEN then
    validate_buffer_in_user_region args 4
    let filename ← load_word args
    validate_string_in_user_region filename
    return some (← syscall_open filename e)
  else if number = SYS_WRITE ∨ number = SYS_READ then
    validate_buffer_in_user_region args 12
    let fd ← load_word args
    let buffer ← load_word (args + 4)
    let size ← load_word (args + 8)
    validate_buffer_in_user_region buffer size
    if number = SYS_WRITE then return some (← syscall_write fd buffer size)
    else return some (← syscall_read fd buffer size)
  else if number = SYS_CLOSE then
    validate_buffer_in_user_region args 4
    let fd ← load_word args
    syscall_close fd
    return none
  else return none

end Kern

end HwMemory

end Berk162
