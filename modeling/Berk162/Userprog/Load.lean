import Berk162.Filesys.Filesys
import Berk162.Lib.Window
import Berk162.Userprog.Pagedir

/-!
# Load — the loader of executables, `load` and its helpers in `userprog/process.c`

`none` is a kernel panic.  The loop of `load_segment` is given a number of rounds, and `none` is also
what comes out when they are used up.  The file system gets the memory that it needs from its
`Mallocs`, so its calls leave the pools alone.  What `load` prints and `process_activate` are left out.
-/

namespace Berk162

/-! ## ELF -/

/-- The fields of `struct Elf32_Ehdr` that are read. -/
structure Elf32_Ehdr where
  e_ident : Bytes
  e_type : Nat
  e_machine : Nat
  e_version : Nat
  e_entry : Nat
  e_phoff : Nat
  e_phentsize : Nat
  e_phnum : Nat

/-- The fields of `struct Elf32_Phdr` that are read. -/
structure Elf32_Phdr where
  p_type : Nat
  p_offset : Nat
  p_vaddr : Nat
  p_filesz : Nat
  p_memsz : Nat
  p_flags : Nat

def sizeof_Elf32_Ehdr : Nat := 52

def sizeof_Elf32_Phdr : Nat := 32

/-- The field of `n` bytes at offset `ofs`. -/
def elf_field (bytes : Bytes) (ofs n : Nat) : Nat := le_val ((bytes.drop ofs).take n)

def Elf32_Ehdr.ofBytes (bytes : Bytes) : Elf32_Ehdr where
  e_ident := bytes.take 16
  e_type := elf_field bytes 16 2
  e_machine := elf_field bytes 18 2
  e_version := elf_field bytes 20 4
  e_entry := elf_field bytes 24 4
  e_phoff := elf_field bytes 28 4
  e_phentsize := elf_field bytes 42 2
  e_phnum := elf_field bytes 44 2

def Elf32_Phdr.ofBytes (bytes : Bytes) : Elf32_Phdr where
  p_type := elf_field bytes 0 4
  p_offset := elf_field bytes 4 4
  p_vaddr := elf_field bytes 8 4
  p_filesz := elf_field bytes 16 4
  p_memsz := elf_field bytes 20 4
  p_flags := elf_field bytes 24 4

/-! Values for `p_type`. -/

def PT_LOAD : Nat := 1

def PT_DYNAMIC : Nat := 2

def PT_INTERP : Nat := 3

def PT_SHLIB : Nat := 5

/-- Writable. -/
def PF_W : Nat := 2

/-- `"\177ELF\1\1\1"` -/
def ELF_IDENT : Bytes := [0x7f, 0x45, 0x4c, 0x46, 1, 1, 1]

/-- The executable header passes the checks of `load`. -/
def Elf32_Ehdr.Verified (ehdr : Elf32_Ehdr) : Prop :=
  ehdr.e_ident.take 7 = ELF_IDENT ∧ ehdr.e_type = 2 ∧ ehdr.e_machine = 3 ∧ ehdr.e_version = 1 ∧
    ehdr.e_phentsize = sizeof_Elf32_Phdr ∧ ehdr.e_phnum ≤ 1024

instance (ehdr : Elf32_Ehdr) : Decidable ehdr.Verified := inferInstanceAs (Decidable (_ ∧ _))

/-! The quantities that `load` computes from a program header of type `PT_LOAD`. -/

namespace Elf32_Phdr

def writable (phdr : Elf32_Phdr) : Bool := decide (phdr.p_flags &&& PF_W ≠ 0)

def file_page (phdr : Elf32_Phdr) : Nat := pg_round_down phdr.p_offset

def mem_page (phdr : Elf32_Phdr) : Nat := pg_round_down phdr.p_vaddr

def page_offset (phdr : Elf32_Phdr) : Nat := pg_ofs phdr.p_vaddr

def read_bytes (phdr : Elf32_Phdr) : Nat :=
  if phdr.p_filesz > 0 then size_add phdr.page_offset phdr.p_filesz else 0

def zero_bytes (phdr : Elf32_Phdr) : Nat :=
  if phdr.p_filesz > 0 then
    size_sub (ROUND_UP (size_add phdr.page_offset phdr.p_memsz) PGSIZE) phdr.read_bytes
  else ROUND_UP (size_add phdr.page_offset phdr.p_memsz) PGSIZE

end Elf32_Phdr

/-! ## The loader -/

/-- The globals of the kernel that the loader uses, and the page directory of the process. -/
structure Loader where
  init_ram_pages : Nat
  init_page_dir : Nat
  pagedir : Nat
  alloc : Palloc
  fs : FileSys

namespace Loader

@[simps] def setAlloc (s : Loader) (alloc : Palloc) : Loader := { s with alloc := alloc }

@[simps] def setFs (s : Loader) (fs : FileSys) : Loader := { s with fs := fs }

@[simps] def setPagedir (s : Loader) (pagedir : Nat) : Loader := { s with pagedir := pagedir }

/-- The contents of memory are replaced. -/
def setMem (s : Loader) (mem : Memory) : Loader := s.setAlloc (s.alloc.withMem mem)

def install_page (s : Loader) (upage kpage : Nat) (writable : Bool) : Option (Loader × Bool) := do
  let page ← pagedir_get_page s.alloc s.pagedir upage
  if page = NULL then
    let (alloc, success) ←
      pagedir_set_page s.init_ram_pages s.init_page_dir s.alloc s.pagedir upage kpage writable
    return (s.setAlloc alloc, success)
  else
    return (s, false)

/-- Installs a page that has been allocated, or frees it. -/
def install_or_free (s : Loader) (upage kpage : Nat) (writable : Bool) :
    Option (Loader × Bool) := do
  let (s, success) ← s.install_page upage kpage writable
  if success then
    return (s, true)
  else
    let alloc ← palloc_free_page s.alloc kpage
    return (s.setAlloc alloc, false)

/-- The second component is `*esp` if the call succeeds. -/
def setup_stack (s : Loader) : Option (Loader × Option Nat) := do
  let (alloc, kpage) ← palloc_get_page s.alloc (PAL_USER ||| PAL_ZERO)
  let s := s.setAlloc alloc
  if kpage ≠ NULL then
    let (s, success) ← s.install_or_free (size_sub PHYS_BASE PGSIZE) kpage true
    return (s, if success then some PHYS_BASE else none)
  else
    return (s, none)

/-- The body of the loop of `load_segment`, up to where it advances. -/
def load_page (s : Loader) (file upage page_read_bytes page_zero_bytes : Nat) (writable : Bool) :
    Option (Loader × Bool) := do
  let (alloc, kpage) ← palloc_get_page s.alloc PAL_USER
  let s := s.setAlloc alloc
  if kpage = NULL then
    return (s, false)
  else
    let (bytes, fs) ← s.fs.file_read file page_read_bytes
    let s := (s.setFs fs).setMem (overlay s.alloc.mem kpage bytes)
    if bytes.length ≠ page_read_bytes then
      let alloc ← palloc_free_page s.alloc kpage
      return (s.setAlloc alloc, false)
    else
      let s := s.setMem (memset s.alloc.mem (size_add kpage page_read_bytes) 0 page_zero_bytes)
      s.install_or_free upage kpage writable

/-- The loop of `load_segment`. -/
def load_pages (file : Nat) (writable : Bool) :
    Nat → Loader → Nat → Nat → Nat → Option (Loader × Bool)
  | 0, _, _, _, _ => none
  | rounds + 1, s, upage, read_bytes, zero_bytes => do
      if read_bytes > 0 ∨ zero_bytes > 0 then
        let page_read_bytes := if read_bytes < PGSIZE then read_bytes else PGSIZE
        let page_zero_bytes := size_sub PGSIZE page_read_bytes
        let (s, success) ← s.load_page file upage page_read_bytes page_zero_bytes writable
        if success then
          load_pages file writable rounds s (size_add upage PGSIZE)
            (size_sub read_bytes page_read_bytes) (size_sub zero_bytes page_zero_bytes)
        else
          return (s, false)
      else
        return (s, true)

def load_segment (rounds : Nat) (s : Loader) (file : Nat) (ofs : Int)
    (upage read_bytes zero_bytes : Nat) (writable : Bool) : Option (Loader × Bool) := do
  ASSERT (size_add read_bytes zero_bytes % PGSIZE = 0)
  ASSERT (pg_ofs upage = 0)
  ASSERT (Int.tmod ofs PGSIZE = 0)
  let fs ← s.fs.file_seek file ofs
  load_pages file writable rounds (s.setFs fs) upage read_bytes zero_bytes

def validate_segment (s : Loader) (phdr : Elf32_Phdr) (file : Nat) : Option Bool := do
  if pg_ofs phdr.p_offset ≠ pg_ofs phdr.p_vaddr then
    return false
  else
    let length ← s.fs.file_length file
    if phdr.p_offset > to_size length then
      return false
    else if phdr.p_memsz < phdr.p_filesz then
      return false
    else if phdr.p_memsz = 0 then
      return false
    else if ¬ is_user_vaddr phdr.p_vaddr then
      return false
    else if ¬ is_user_vaddr (size_add phdr.p_vaddr phdr.p_memsz) then
      return false
    -- the region cannot "wrap around"
    else if size_add phdr.p_vaddr phdr.p_memsz < phdr.p_vaddr then
      return false
    else if phdr.p_vaddr < PGSIZE then
      return false
    else
      return true

/-- What the loop of `load` does with a program header: `switch (phdr.p_type)`. -/
def load_phdr (rounds : Nat) (s : Loader) (file : Nat) (phdr : Elf32_Phdr) :
    Option (Loader × Bool) := do
  if phdr.p_type = PT_DYNAMIC ∨ phdr.p_type = PT_INTERP ∨ phdr.p_type = PT_SHLIB then
    return (s, false)
  else if phdr.p_type = PT_LOAD then
    let valid ← s.validate_segment phdr file
    if valid then
      s.load_segment rounds file (int32 phdr.file_page) phdr.mem_page phdr.read_bytes
        phdr.zero_bytes phdr.writable
    else
      return (s, false)
  else
    return (s, true)

/-- The loop over the last `n` program headers, the first of which is at `file_ofs`. -/
def load_phdrs (rounds file : Nat) : Nat → Loader → Int → Option (Loader × Bool)
  | 0, s, _ => some (s, true)
  | n + 1, s, file_ofs => do
      let length ← s.fs.file_length file
      if file_ofs < 0 ∨ file_ofs > length then
        return (s, false)
      else
        let fs ← s.fs.file_seek file file_ofs
        let (bytes, fs) ← fs.file_read file sizeof_Elf32_Phdr
        let s := s.setFs fs
        if bytes.length ≠ sizeof_Elf32_Phdr then
          return (s, false)
        else
          let (s, success) ← s.load_phdr rounds file (Elf32_Phdr.ofBytes bytes)
          if success then
            load_phdrs rounds file n s (int32 (file_ofs + sizeof_Elf32_Phdr))
          else
            return (s, false)

/-- `load` between opening and closing the file.  The second component is `*eip` and `*esp` if the
load succeeds. -/
def load_file (rounds : Nat) (s : Loader) (file : Nat) : Option (Loader × Option (Nat × Nat)) := do
  let (bytes, fs) ← s.fs.file_read file sizeof_Elf32_Ehdr
  let s := s.setFs fs
  let ehdr := Elf32_Ehdr.ofBytes bytes
  if bytes.length ≠ sizeof_Elf32_Ehdr ∨ ¬ ehdr.Verified then
    return (s, none)
  else
    let (s, success) ← load_phdrs rounds file ehdr.e_phnum s (int32 ehdr.e_phoff)
    if success then
      let (s, esp) ← s.setup_stack
      return (s, esp.map fun esp => (ehdr.e_entry, esp))
    else
      return (s, none)

/-- `load`.  `e` is what is on the stack where the directory is looked up. -/
def load (rounds : Nat) (s : Loader) (file_name : CString) (e : DirEntry) :
    Option (Loader × Option (Nat × Nat)) := do
  let (alloc, pagedir) ← pagedir_create s.alloc s.init_page_dir
  let s := (s.setAlloc alloc).setPagedir pagedir
  if pagedir = NULL then
    return (s, none)
  else
    let (file, fs) ← s.fs.filesys_open file_name e
    let s := s.setFs fs
    match file with
    | none => return (s, none)
    | some file =>
        let (s, result) ← s.load_file rounds file
        let fs ← s.fs.file_close file
        return (s.setFs fs, result)

end Loader

end Berk162
