import Berk162.Devices.BlockBytes
import Berk162.Filesys.Directory
import Berk162.LibC.StdioBuffers
import Berk162.LibC.Ustar

/-!
# UstarHeader — headers of ustar archives, `lib/ustar.c`

A header is its bytes, by their offsets; the first `USTAR_HEADER_SIZE` of them count.  A file name
is a string, and `stripped` is the one that `strip_antisocial_prefixes` returns for it.

`none` is a failed assertion, or a format string that is not complete.
-/

namespace Berk162

/-- Size of a ustar archive header, in bytes. -/
def USTAR_HEADER_SIZE : Nat := 512

/-- `enum ustar_type` -/
inductive UstarType
  | USTAR_REGULAR
  | USTAR_DIRECTORY
  | USTAR_EOF
  deriving DecidableEq, Repr

/-- The byte that appears in the format; the last one is not an official value. -/
def UstarType.byte : UstarType → UInt8
  | USTAR_REGULAR => 48
  | USTAR_DIRECTORY => 53
  | USTAR_EOF => 255

/-- A member of `struct ustar_header`: its offset and its size. -/
structure UstarField where
  ofs : Nat
  size : Nat

namespace UstarField

def name : UstarField := ⟨0, 100⟩
def mode : UstarField := ⟨100, 8⟩
def uid : UstarField := ⟨108, 8⟩
def gid : UstarField := ⟨116, 8⟩
def size_field : UstarField := ⟨124, 12⟩
def mtime : UstarField := ⟨136, 12⟩
def chksum : UstarField := ⟨148, 8⟩
def typeflag : UstarField := ⟨156, 1⟩
def magic : UstarField := ⟨257, 6⟩
def version : UstarField := ⟨263, 2⟩
def uname : UstarField := ⟨265, 32⟩
def gname : UstarField := ⟨297, 32⟩
def prefix_field : UstarField := ⟨345, 155⟩

end UstarField

/-- `struct ustar_header` -/
abbrev UstarHeader := Nat → UInt8

/-- The arguments of a call, one word each. -/
def va_list (words : List (BitVec 32)) : VaList := fun i => words.getD i 0

namespace UstarHeader

/-- The array of a member. -/
def get (h : UstarHeader) (f : UstarField) : Bytes := window h f.ofs f.size

/-- The header after `bytes` have been stored at the start of a member. -/
def set (h : UstarHeader) (f : UstarField) (bytes : Bytes) : UstarHeader := overlay h f.ofs bytes

/-- `strlcpy (h->f, src, sizeof h->f)` -/
def strlcpy (h : UstarHeader) (f : UstarField) (src : Bytes) : UstarHeader :=
  h.set f (Berk162.strlcpy (h.get f) src)

/-- The stores of `vsnprintf` into a member. -/
def stores (h : UstarHeader) (f : UstarField) (l : List (UInt8 × Nat)) : UstarHeader :=
  l.foldl (fun h s => Function.update h (f.ofs + s.2) s.1) h

section

variable (floats : FloatConversions) (memory : BitVec 32 → UInt8)

/-- `snprintf (h->f, sizeof h->f, format, ...)` -/
def snprintf (h : UstarHeader) (f : UstarField) (format : Bytes) (args : VaList) :
    Option UstarHeader :=
  match vsnprintf floats memory format.length f.size format args with
  | .ok (l, _) => some (h.stores f l)
  | .error _ => none

end

/-- What the byte at offset `i` adds to the checksum. -/
def chksum_at (h : UstarHeader) (i : Nat) : Nat :=
  if i ≥ UstarField.chksum.ofs ∧ i < UstarField.chksum.ofs + UstarField.chksum.size then 32
  else (h i).toNat

end UstarHeader

/-- `calculate_chksum` -/
def calculate_chksum (h : UstarHeader) : Nat :=
  (List.range USTAR_HEADER_SIZE).foldl (fun chksum i => size_add chksum (h.chksum_at i)) 0

theorem no_null_strip {l : Bytes} (h : 0 ∉ l) : 0 ∉ strip l := fun hmem =>
  h ((strip_suffix l).mem hmem)

/-- The string that `strip_antisocial_prefixes` returns. -/
def stripped (s : CString) : CString :=
  if strip s.chars = [] ∨ strip s.chars = text ".." then ⟨text ".", by decide⟩
  else ⟨strip s.chars, no_null_strip s.no_null⟩

section

variable (floats : FloatConversions) (memory : BitVec 32 → UInt8)

/-- The part of `ustar_make_header` that fills in the header. -/
def fill_header (file_name : CString) (type : UstarType) (size : BitVec 32) :
    Option UstarHeader := do
  let h : UstarHeader := fun _ => 0
  let h := h.strlcpy .name file_name.chars
  let mode : BitVec 32 := if type = .USTAR_REGULAR then 0o644 else 0o755
  let h ← h.snprintf floats memory .mode (literal "%07o") (va_list [mode])
  let h := h.strlcpy .uid (text "0000000")
  let h := h.strlcpy .gid (text "0000000")
  let h ← h.snprintf floats memory .size_field (literal "%011o") (va_list [size])
  let h ← h.snprintf floats memory .mtime (literal "%011o") (va_list [1136102400])
  let h := h.set .typeflag [type.byte]
  let h := h.strlcpy .magic (text "ustar")
  let h := h.set .version (text "00")
  let h := h.strlcpy .gname (text "root")
  let h := h.strlcpy .uname (text "root")
  -- the final checksum
  let chksum := BitVec.ofNat 32 (calculate_chksum h)
  h.snprintf floats memory .chksum (literal "%07o") (va_list [chksum])

/-- `ustar_make_header`.  An error is the text that it prints. -/
def ustar_make_header (file_name : CString) (type : UstarType) (size : BitVec 32) :
    Option (Except Bytes UstarHeader) := do
  ASSERT (type = .USTAR_REGULAR ∨ type = .USTAR_DIRECTORY)
  let file_name := stripped file_name
  if file_name.chars.length > 99 then
    return .error (file_name.chars ++ text ": file name too long\n")
  else
    let h ← fill_header floats memory file_name type size
    return .ok h

end

def ULONG_MAX : Nat := 4294967295

def INT_MAX : Nat := 2147483647

/-- The loop of `parse_octal_field`, from `ofs` on, where `*value` is `value`. -/
def parse_octal_from (ofs value : Nat) : Bytes → Option Nat
  | [] => none
  | c :: s =>
    if 48 ≤ c ∧ c ≤ 55 then
      if value > ULONG_MAX / 8 then none
      else parse_octal_from (ofs + 1) (c.toNat - 48 + value * 8) s
    else if c = 32 ∨ c = 0 then if ofs > 0 then some value else none
    else none

/-- `parse_octal_field`; `none` is false. -/
def parse_octal_field (s : Bytes) : Option Nat := parse_octal_from 0 0 s

/-- `is_all_zeros` -/
def is_all_zeros (block : Bytes) : Bool := block.all fun c => c = 0

/-- What `ustar_parse_header` stores through its pointers. -/
structure UstarEntry where
  file_name : Option CString
  type : UstarType
  size : Nat
  deriving DecidableEq

/-- The type that a byte stands for in a header that is accepted. -/
def ustar_type (typeflag : Bytes) : Option UstarType :=
  if typeflag = [UstarType.USTAR_REGULAR.byte] then some .USTAR_REGULAR
  else if typeflag = [UstarType.USTAR_DIRECTORY.byte] then some .USTAR_DIRECTORY
  else none

/-- The size in a header; it is read for a regular file only. -/
def ustar_size (h : UstarHeader) (type : UstarType) : Except Bytes Nat :=
  if type = .USTAR_REGULAR then
    match parse_octal_field (h.get .size_field) with
    | none => .error (text "corrupt file size field")
    | some size_ul => if size_ul > INT_MAX then .error (text "file too large") else .ok size_ul
  else .ok 0

/-- `ustar_parse_header`.  An error is the message that it returns. -/
def ustar_parse_header (h : UstarHeader) : Except Bytes UstarEntry :=
  if is_all_zeros (window h 0 USTAR_HEADER_SIZE) then .ok ⟨none, .USTAR_EOF, 0⟩
  else if h.get .magic ≠ literal "ustar" then .error (text "not a ustar archive")
  else if h.get .version ≠ text "00" then .error (text "invalid ustar version")
  else
    match parse_octal_field (h.get .chksum) with
    | none => .error (text "corrupt chksum field")
    | some chksum =>
        if chksum ≠ calculate_chksum h then .error (text "checksum mismatch")
        else if h (UstarField.name.ofs + UstarField.name.size - 1) ≠ 0 ∨
            h UstarField.prefix_field.ofs ≠ 0 then .error (text "file name too long")
        else
          match ustar_type (h.get .typeflag) with
          | none => .error (text "unimplemented file type")
          | some type => do
              let size ← ustar_size h type
              return ⟨some (stripped (cstr (h.get .name))), type, size⟩

end Berk162
