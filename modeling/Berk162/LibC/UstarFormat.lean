import Berk162.LibC.UstarFields

/-!
# UstarFormat — making and parsing headers of ustar archives

The header of a file is parsed to the file again, whatever is accepted can be made, and a byte that
has been damaged does not make another file of it.
-/

namespace Berk162

/-! ## Names -/

theorem stripped_safe (s : CString) : SafeName (stripped s).chars := by
  rw [stripped]
  split
  · exact safeName_dot
  · rename_i hnone
    rw [not_or] at hnone
    exact ⟨hnone.1, not_antisocial_strip _, hnone.2⟩

theorem stripped_of_safe {s : CString} (h : SafeName s.chars) : stripped s = s := by
  have hstrip := strip_of_not_antisocial h.stays
  rw [stripped, if_neg (by rw [hstrip]; exact not_or.2 ⟨h.nonempty, h.not_parent⟩)]
  exact CString.ext hstrip

theorem stripped_stripped (s : CString) : stripped (stripped s) = stripped s :=
  stripped_of_safe (stripped_safe s)

/-- The string in a buffer that begins with the string and a null. -/
theorem cstr_append_null (s : CString) (t : Bytes) : cstr (s.chars ++ 0 :: t) = s := by
  apply CString.ext
  have hne : ∀ c ∈ s.chars, decide (c ≠ 0) = true := by
    intro c hc
    rw [decide_eq_true_iff]
    rintro rfl
    exact s.no_null hc
  have htake : (s.chars ++ 0 :: t).takeWhile (fun c => c ≠ 0) = s.chars := by
    rw [List.takeWhile_append_of_pos hne]
    simp
  exact htake

/-! ## Making and parsing -/

/-- A header that a file of this name, type and size has. -/
structure UstarHeader.Describes (h : UstarHeader) (name : CString) (type : UstarType)
    (size : Nat) : Prop where
  name : ∃ rest, h.get .name = name.chars ++ 0 :: rest
  name_end : h 99 = 0
  size : parse_octal_field (h.get .size_field) = some size
  chksum : parse_octal_field (h.get .chksum) = some (calculate_chksum h)
  typeflag : h.get .typeflag = [type.byte]
  magic : h.get .magic = literal "ustar"
  version : h.get .version = text "00"
  no_prefix : h 345 = 0

variable {floats : FloatConversions} {memory : BitVec 32 → UInt8} {h : UstarHeader}
  {type : UstarType}

/-- `%07o` in a member of 8 bytes. -/
theorem snprintf_07o (h : UstarHeader) {f : UstarField} (w : BitVec 32) (hf : f.size = 8)
    (hw : w.toNat < 8 ^ 7) :
    ∃ bytes, h.snprintf floats memory f (literal "%07o") (va_list [w]) = some (h.set f bytes) ∧
      bytes.length = f.size ∧ parse_octal_field bytes = some w.toNat := by
  have hdigits : ∀ ch ∈ text "7", isdigit ch = true := List.all_eq_true.1 (by decide)
  have hformat : (octal_spec (text "7") hdigits (by decide)).chars ++ [0] = literal "%07o" := rfl
  have hwidth : digits_val 0 (text "7") = 7 := by decide
  rw [← hformat]
  exact snprintf_octal h (by rw [hf, hwidth]) (by omega) (by omega) (by rw [hwidth]; exact hw)

/-- `%011o` in a member of 12 bytes. -/
theorem snprintf_011o (h : UstarHeader) {f : UstarField} (w : BitVec 32) (hf : f.size = 12) :
    ∃ bytes, h.snprintf floats memory f (literal "%011o") (va_list [w]) = some (h.set f bytes) ∧
      bytes.length = f.size ∧ parse_octal_field bytes = some w.toNat := by
  have hdigits : ∀ ch ∈ text "11", isdigit ch = true := List.all_eq_true.1 (by decide)
  have hformat : (octal_spec (text "11") hdigits (by decide)).chars ++ [0] = literal "%011o" := rfl
  have hwidth : digits_val 0 (text "11") = 11 := by decide
  have hw : w.toNat < 8 ^ 11 := by
    have hlt := w.isLt
    omega
  rw [← hformat]
  exact snprintf_octal h (by rw [hf, hwidth]) (by omega) (by omega) (by rw [hwidth]; exact hw)

theorem fill_header_describes {name : CString} (size : BitVec 32) (hlen : name.chars.length ≤ 99) :
    ∃ h, fill_header floats memory name type size = some h ∧ h.Describes name type size.toNat := by
  set mode : BitVec 32 := if type = .USTAR_REGULAR then 0o644 else 0o755 with hmode
  have hmodelt : mode.toNat < 8 ^ 7 := by
    rw [hmode]
    split <;> decide
  obtain ⟨h₁, hh₁⟩ : ∃ h₁, h₁ = UstarHeader.strlcpy (fun _ => 0) .name name.chars := ⟨_, rfl⟩
  rcases @snprintf_07o floats memory h₁ .mode mode rfl hmodelt with ⟨b₁, hcall₁, hlen₁, _⟩
  obtain ⟨h₂, hh₂⟩ : ∃ h₂, h₂ = ((h₁.set .mode b₁).strlcpy .uid (text "0000000")).strlcpy .gid
    (text "0000000") := ⟨_, rfl⟩
  rcases @snprintf_011o floats memory h₂ .size_field size rfl with ⟨b₂, hcall₂, hlen₂, hb₂⟩
  rcases @snprintf_011o floats memory (h₂.set .size_field b₂) .mtime 1136102400 rfl with
    ⟨b₃, hcall₃, hlen₃, _⟩
  obtain ⟨h₃, hh₃⟩ : ∃ h₃, h₃ = ((((((h₂.set .size_field b₂).set .mtime b₃).set .typeflag
    [type.byte]).strlcpy .magic (text "ustar")).set .version (text "00")).strlcpy .gname
      (text "root")).strlcpy .uname (text "root") := ⟨_, rfl⟩
  have hchksum : (BitVec.ofNat 32 (calculate_chksum h₃)).toNat = calculate_chksum h₃ := by
    have hlt := calculate_chksum_lt h₃
    rw [BitVec.toNat_ofNat]
    exact Nat.mod_eq_of_lt (by omega)
  have hsmall : (BitVec.ofNat 32 (calculate_chksum h₃)).toNat < 8 ^ 7 := by
    rw [hchksum]
    exact calculate_chksum_lt h₃
  rcases @snprintf_07o floats memory h₃ .chksum _ rfl hsmall with ⟨b₄, hcall₄, hlen₄, hb₄⟩
  refine ⟨h₃.set .chksum b₄, ?_, ?_⟩
  · rw [fill_header]
    dsimp only
    rw [← hmode, ← hh₁, hcall₁, Option.bind_eq_bind, Option.bind_some, ← hh₂, hcall₂,
      Option.bind_some, hcall₃, Option.bind_some, ← hh₃, hcall₄]
  -- each member is as it was written, and the others do not overlap it
  have htypeflag : [type.byte].length = UstarField.typeflag.size := rfl
  have hversion : (text "00").length = UstarField.version.size := rfl
  have hget : ∀ g : UstarField, g.Apart .chksum → (h₃.set .chksum b₄).get g = h₃.get g :=
    fun g hap => UstarHeader.get_set_of_apart hlen₄ hap
  have hgetname : (h₃.set .chksum b₄).get .name =
      name.chars ++ List.replicate (100 - name.chars.length) 0 := by
    rw [hget _ (by decide), hh₃]
    simp (disch := first | assumption | decide) only [UstarHeader.get_set_of_apart,
      UstarHeader.get_strlcpy_of_apart, hh₂]
    rw [hh₁, UstarHeader.get_strlcpy_self, UstarHeader.get_zeros, strlcpy_eq]
    · have hsize : UstarField.name.size = 100 := rfl
      have hrest : 100 - name.chars.length = 100 - (name.chars.length + 1) + 1 := by omega
      rw [List.drop_replicate, hsize, hrest, List.replicate_succ]
    · rw [List.length_replicate]
      exact Nat.lt_succ_of_le hlen
  have hzeros : (h₃.set .chksum b₄).get .prefix_field = List.replicate 155 0 := by
    rw [hget _ (by decide), hh₃]
    simp (disch := first | assumption | decide) only [UstarHeader.get_set_of_apart,
      UstarHeader.get_strlcpy_of_apart, hh₂, hh₁]
    exact UstarHeader.get_zeros
  constructor
  · rw [hgetname]
    have hrest : 100 - name.chars.length = 99 - name.chars.length + 1 := by omega
    exact ⟨List.replicate (99 - name.chars.length) 0, by rw [hrest, List.replicate_succ]⟩
  · have hlast := @UstarHeader.apply_of_get (h₃.set .chksum b₄) .name 99 (by decide)
    rw [hgetname, List.getD_append_right _ _ _ _ hlen] at hlast
    exact hlast.trans (by simp)
  · rw [hget _ (by decide), hh₃]
    simp (disch := first | assumption | decide) only [UstarHeader.get_set_of_apart,
      UstarHeader.get_strlcpy_of_apart]
    rw [UstarHeader.get_set_self hlen₂, hb₂]
  · rw [UstarHeader.get_set_self hlen₄, hb₄, hchksum]
    refine congrArg some (calculate_chksum_congr fun i _ hi => ?_)
    refine (overlay_of_not_mem ?_).symm
    have hofs : UstarField.chksum.ofs = 148 := rfl
    have hsize : UstarField.chksum.size = 8 := rfl
    omega
  · rw [hget _ (by decide), hh₃]
    simp (disch := first | assumption | decide) only [UstarHeader.get_set_of_apart,
      UstarHeader.get_strlcpy_of_apart]
    rw [UstarHeader.get_set_self rfl]
  · rw [hget _ (by decide), hh₃]
    simp (disch := first | assumption | decide) only [UstarHeader.get_set_of_apart,
      UstarHeader.get_strlcpy_of_apart]
    rw [UstarHeader.get_strlcpy_self, strlcpy_eq (by rw [UstarHeader.length_get]; decide)]
    rw [List.drop_of_length_le]
    · rfl
    · rw [UstarHeader.length_get]
      decide
  · rw [hget _ (by decide), hh₃]
    simp (disch := first | assumption | decide) only [UstarHeader.get_strlcpy_of_apart]
    rw [UstarHeader.get_set_self rfl]
  · have hfirst := @UstarHeader.apply_of_get (h₃.set .chksum b₄) .prefix_field 0 (by decide)
    rw [hzeros] at hfirst
    exact hfirst

/-! ## Parsing -/

theorem is_all_zeros_iff (h : UstarHeader) : is_all_zeros (window h 0 USTAR_HEADER_SIZE) = true ↔
    ∀ i < USTAR_HEADER_SIZE, h i = 0 := by
  simp [is_all_zeros, window]

/-- A header with the magic is not the end of the archive. -/
theorem not_all_zeros (hmagic : h.get .magic = literal "ustar") :
    is_all_zeros (window h 0 USTAR_HEADER_SIZE) = false := by
  rw [← Bool.not_eq_true, is_all_zeros_iff]
  intro hzero
  have hfirst := @UstarHeader.apply_of_get h .magic 0 (by decide)
  rw [hmagic, hzero _ (by decide)] at hfirst
  exact absurd hfirst (by decide)

theorem ustar_type_byte (htype : type = .USTAR_REGULAR ∨ type = .USTAR_DIRECTORY) :
    ustar_type [type.byte] = some type := by
  rcases htype with rfl | rfl <;> rfl

theorem ustar_size_eq {size : Nat} (hsize : parse_octal_field (h.get .size_field) = some size) :
    ustar_size h type =
      if type = .USTAR_REGULAR ∧ size > INT_MAX then .error (text "file too large")
      else .ok (if type = .USTAR_REGULAR then size else 0) := by
  rw [ustar_size, hsize]
  by_cases htype : type = .USTAR_REGULAR
  · simp only [htype, if_true, true_and]
  · simp only [htype, if_false, false_and]

/-- The header of a file is accepted, unless the file is too large. -/
theorem UstarHeader.Describes.parse {name : CString} {size : Nat} (hd : h.Describes name type size)
    (htype : type = .USTAR_REGULAR ∨ type = .USTAR_DIRECTORY) :
    ustar_parse_header h =
      if type = .USTAR_REGULAR ∧ size > INT_MAX then .error (text "file too large")
      else .ok ⟨some (stripped name), type, if type = .USTAR_REGULAR then size else 0⟩ := by
  have hlast : ¬ (h (UstarField.name.ofs + UstarField.name.size - 1) ≠ 0 ∨
      h UstarField.prefix_field.ofs ≠ 0) := by
    rw [not_or, not_not, not_not]
    exact ⟨hd.name_end, hd.no_prefix⟩
  rcases hd.name with ⟨rest, hname⟩
  rw [ustar_parse_header, not_all_zeros hd.magic, hd.magic, hd.version, hd.chksum, hd.typeflag,
    ustar_type_byte htype, hname, cstr_append_null]
  simp only [ne_eq, not_true_eq_false, if_false, hlast, Bool.false_eq_true]
  rw [ustar_size_eq hd.size]
  split <;> rfl

theorem ustar_parse_header_congr {h h' : UstarHeader}
    (heq : ∀ i < USTAR_HEADER_SIZE, h i = h' i) : ustar_parse_header h = ustar_parse_header h' := by
  have hget : ∀ f : UstarField, f.ofs + f.size ≤ USTAR_HEADER_SIZE → h.get f = h'.get f :=
    fun f hf => window_congr fun k _ hk => heq k (by omega)
  have hzero : window h 0 USTAR_HEADER_SIZE = window h' 0 USTAR_HEADER_SIZE :=
    window_congr fun k _ hk => heq k (by omega)
  rw [ustar_parse_header, ustar_parse_header, hzero, hget .magic (by decide),
    hget .version (by decide), hget .chksum (by decide), hget .typeflag (by decide),
    hget .name (by decide), heq _ (by decide), heq UstarField.prefix_field.ofs (by decide),
    calculate_chksum_congr fun i hi _ => heq i hi]
  simp only [ustar_size, hget .size_field (by decide)]

/-- What an accepted header that does not end the archive is like. -/
theorem ustar_parse_header_inv {e : UstarEntry} (haccept : ustar_parse_header h = .ok e)
    (hfile : ¬ ∀ i < USTAR_HEADER_SIZE, h i = 0) :
    h.get .magic = literal "ustar" ∧ h.get .version = text "00" ∧
      parse_octal_field (h.get .chksum) = some (calculate_chksum h) ∧ h 99 = 0 ∧ h 345 = 0 ∧
      ∃ type size, ustar_type (h.get .typeflag) = some type ∧ ustar_size h type = .ok size ∧
        e = ⟨some (stripped (cstr (h.get .name))), type, size⟩ := by
  rw [← is_all_zeros_iff] at hfile
  rw [ustar_parse_header, if_neg hfile] at haccept
  by_cases hmagic : h.get .magic ≠ literal "ustar"
  · rw [if_pos hmagic] at haccept
    cases haccept
  rw [if_neg hmagic] at haccept
  by_cases hversion : h.get .version ≠ text "00"
  · rw [if_pos hversion] at haccept
    cases haccept
  rw [if_neg hversion] at haccept
  cases hchksum : parse_octal_field (h.get .chksum) with
  | none =>
      rw [hchksum] at haccept
      cases haccept
  | some chksum =>
      rw [hchksum] at haccept
      dsimp only at haccept
      by_cases hsum : chksum ≠ calculate_chksum h
      · rw [if_pos hsum] at haccept
        cases haccept
      rw [if_neg hsum] at haccept
      by_cases hlong : h (UstarField.name.ofs + UstarField.name.size - 1) ≠ 0 ∨
          h UstarField.prefix_field.ofs ≠ 0
      · rw [if_pos hlong] at haccept
        cases haccept
      rw [if_neg hlong] at haccept
      rw [not_or, not_not, not_not] at hlong
      cases htype : ustar_type (h.get .typeflag) with
      | none =>
          rw [htype] at haccept
          cases haccept
      | some type =>
          rw [htype] at haccept
          dsimp only at haccept
          cases hsize : ustar_size h type with
          | error m =>
              rw [hsize] at haccept
              cases haccept
          | ok size =>
              rw [hsize] at haccept
              cases haccept
              exact ⟨not_not.1 hmagic, not_not.1 hversion, congrArg some (not_not.1 hsum), hlong.1,
                hlong.2, type, size, rfl, hsize, rfl⟩

/-! ## The format -/

theorem ustar_make_header_eq (floats : FloatConversions) (memory : BitVec 32 → UInt8)
    {file_name : CString} (size : BitVec 32)
    (htype : type = .USTAR_REGULAR ∨ type = .USTAR_DIRECTORY)
    (hlen : (stripped file_name).chars.length ≤ 99) :
    ∃ h, ustar_make_header floats memory file_name type size = some (.ok h) ∧
      h.Describes (stripped file_name) type size.toNat := by
  rcases @fill_header_describes floats memory type (stripped file_name) size hlen with
    ⟨h, hfill, hd⟩
  refine ⟨h, ?_, hd⟩
  rw [ustar_make_header, ASSERT_pos htype]
  simp only [Option.bind_eq_bind, Option.bind_some, if_neg (Nat.not_lt.2 hlen), hfill]
  rfl

/-- The header that is made for a name, a type and a size is parsed to what the archive can hold of
them: the name without its dangerous prefixes, and no size of a directory.  A negative size is taken
for one that is too large, and a name that is too long is refused.  Of the header only its 512 bytes
matter. -/
theorem ustar_round_trip (floats : FloatConversions) (memory : BitVec 32 → UInt8)
    (file_name : CString) (type : UstarType) (size : BitVec 32)
    (htype : type = .USTAR_REGULAR ∨ type = .USTAR_DIRECTORY) :
    if (stripped file_name).chars.length ≤ 99 then
      ∃ h, ustar_make_header floats memory file_name type size = some (.ok h) ∧
        ∀ h' : UstarHeader, (∀ i < USTAR_HEADER_SIZE, h' i = h i) → ustar_parse_header h' =
          if type = .USTAR_REGULAR ∧ size.toInt < 0 then .error (text "file too large")
          else .ok ⟨some (stripped file_name), type,
            if type = .USTAR_REGULAR then size.toNat else 0⟩
    else ustar_make_header floats memory file_name type size =
      some (.error ((stripped file_name).chars ++ text ": file name too long\n")) := by
  have hnegative : size.toInt < 0 ↔ size.toNat > INT_MAX := by
    have hint := BitVec.toInt_eq_toNat_cond size
    have hlt := size.isLt
    rw [INT_MAX]
    split at hint <;> omega
  split
  · rename_i hlen
    rcases ustar_make_header_eq floats memory size htype hlen with ⟨h, hmake, hd⟩
    refine ⟨h, hmake, fun h' heq => ?_⟩
    rw [ustar_parse_header_congr heq, hd.parse htype, stripped_stripped]
    simp only [hnegative]
  · rename_i hlen
    rw [ustar_make_header, ASSERT_pos htype]
    simp only [Option.bind_eq_bind, Option.bind_some, if_pos (Nat.not_le.1 hlen)]
    rfl

/-- A climbing name and the size -1. -/
theorem ustar_round_trip_negative :
    if (stripped climbing_name).chars.length ≤ 99 then
      ∃ h, ustar_make_header no_doubles (fun _ => 0) climbing_name .USTAR_REGULAR (-1) =
          some (.ok h) ∧
        ∀ h' : UstarHeader, (∀ i < USTAR_HEADER_SIZE, h' i = h i) → ustar_parse_header h' =
          if UstarType.USTAR_REGULAR = .USTAR_REGULAR ∧ (-1 : BitVec 32).toInt < 0 then
            .error (text "file too large")
          else .ok ⟨some (stripped climbing_name), .USTAR_REGULAR,
            if UstarType.USTAR_REGULAR = .USTAR_REGULAR then (-1 : BitVec 32).toNat else 0⟩
    else ustar_make_header no_doubles (fun _ => 0) climbing_name .USTAR_REGULAR (-1) =
      some (.error ((stripped climbing_name).chars ++ text ": file name too long\n")) :=
  ustar_round_trip no_doubles (fun _ => 0) climbing_name .USTAR_REGULAR (-1) (Or.inl rfl)

theorem length_stripped_le {s : CString} (h : s.chars.length ≤ 99) :
    (stripped s).chars.length ≤ 99 := by
  rw [stripped]
  split
  · decide
  · exact (strip_suffix s.chars).length_le.trans h

/-- The name of a member whose last byte is a null. -/
theorem length_cstr_name_le (hend : h 99 = 0) : (cstr (h.get .name)).chars.length ≤ 99 := by
  by_contra hlong
  have hpre := cstr_begins (h.get .name)
  have hlt : 99 < (cstr (h.get .name)).chars.length := by omega
  have hlast := @UstarHeader.apply_of_get h .name 99 (by decide)
  have hget : (cstr (h.get .name)).chars[99] = (h.get .name).getD 99 0 := by
    rw [List.IsPrefix.getElem hpre hlt, List.getD_eq_getElem]
  have hofs : UstarField.name.ofs + 99 = 99 := rfl
  rw [← hlast, hofs, hend] at hget
  exact (cstr (h.get .name)).no_null (hget ▸ List.getElem_mem hlt)

theorem ustar_type_some {typeflag : Bytes} (h : ustar_type typeflag = some type) :
    type = .USTAR_REGULAR ∨ type = .USTAR_DIRECTORY := by
  rw [ustar_type] at h
  split_ifs at h with hreg hdir
  · exact Or.inl (Option.some.inj h).symm
  · exact Or.inr (Option.some.inj h).symm

theorem ustar_size_le {size : Nat} (h' : ustar_size h type = .ok size) :
    size ≤ INT_MAX ∧ (type ≠ .USTAR_REGULAR → size = 0) := by
  rw [ustar_size] at h'
  by_cases htype : type = .USTAR_REGULAR
  · rw [if_pos htype] at h'
    cases hoctal : parse_octal_field (h.get .size_field) with
    | none =>
        rw [hoctal] at h'
        cases h'
    | some n =>
        rw [hoctal] at h'
        dsimp only at h'
        by_cases hbig : n > INT_MAX
        · rw [if_pos hbig] at h'
          cases h'
        · rw [if_neg hbig] at h'
          cases h'
          exact ⟨Nat.le_of_not_lt hbig, fun hne => absurd htype hne⟩
  · rw [if_neg htype] at h'
    cases h'
    exact ⟨Nat.zero_le _, fun _ => rfl⟩

/-- Every header that is accepted ends the archive, or is for a file with a safe name that fits, a
type of those two and a size that is an `int`; making a header for it again leads to the same
file. -/
theorem ustar_parse_header_remakes (floats : FloatConversions) (memory : BitVec 32 → UInt8)
    {h : UstarHeader} {e : UstarEntry} (haccept : ustar_parse_header h = .ok e) :
    (e = ⟨none, .USTAR_EOF, 0⟩ ∧ ∀ i < USTAR_HEADER_SIZE, h i = 0) ∨
      ∃ name, e.file_name = some name ∧ SafeName name.chars ∧ name.chars.length ≤ 99 ∧
        (e.type = .USTAR_REGULAR ∨ e.type = .USTAR_DIRECTORY) ∧ e.size ≤ INT_MAX ∧
        ∃ h', ustar_make_header floats memory name e.type (BitVec.ofNat 32 e.size) =
          some (.ok h') ∧ ustar_parse_header h' = .ok e := by
  by_cases hzero : ∀ i < USTAR_HEADER_SIZE, h i = 0
  · rw [ustar_parse_header, if_pos ((is_all_zeros_iff h).2 hzero)] at haccept
    cases haccept
    exact Or.inl ⟨rfl, hzero⟩
  rcases ustar_parse_header_inv haccept hzero with
    ⟨_, _, _, hend, _, type, size, htypeflag, hsize, rfl⟩
  have hsafe := stripped_safe (cstr (h.get .name))
  have hlen := length_stripped_le (length_cstr_name_le hend)
  have htype := ustar_type_some htypeflag
  rcases ustar_size_le hsize with ⟨hle, hdir⟩
  refine Or.inr ⟨_, rfl, hsafe, hlen, htype, hle, ?_⟩
  have hlen' := hlen
  rw [← stripped_stripped] at hlen'
  rcases ustar_make_header_eq floats memory (BitVec.ofNat 32 size) htype hlen' with
    ⟨h', hmake, hd⟩
  refine ⟨h', hmake, ?_⟩
  have hnat : (BitVec.ofNat 32 size).toNat = size := by
    rw [BitVec.toNat_ofNat]
    rw [INT_MAX] at hle
    exact Nat.mod_eq_of_lt (by omega)
  rw [hd.parse htype, stripped_stripped, stripped_stripped, hnat,
    if_neg fun hc => Nat.not_lt.2 hle hc.2]
  by_cases hreg : type = .USTAR_REGULAR
  · rw [if_pos hreg]
  · rw [if_neg hreg, hdir hreg]

/-- A name with one letter. -/
def letter_name : CString := ⟨text "a", by decide⟩

/-- Its header, and the header with a space for the null behind the checksum. -/
theorem letter_headers : ∃ h : UstarHeader, h 155 = 0 ∧
    ustar_parse_header h = .ok ⟨some letter_name, .USTAR_REGULAR, 5⟩ ∧
      ustar_parse_header (Function.update h 155 32) =
        .ok ⟨some letter_name, .USTAR_REGULAR, 5⟩ := by
  have hrun : (fill_header no_doubles (fun _ => 0) letter_name .USTAR_REGULAR 5).map (fun h =>
      (h 155, ustar_parse_header h, ustar_parse_header (Function.update h 155 32))) =
        some (0, .ok ⟨some letter_name, .USTAR_REGULAR, 5⟩,
          .ok ⟨some letter_name, .USTAR_REGULAR, 5⟩) := by
    decide +kernel
  rcases Option.map_eq_some_iff.1 hrun with ⟨h, _, hparse⟩
  rw [Prod.mk.injEq, Prod.mk.injEq] at hparse
  exact ⟨h, hparse⟩

theorem ustar_parse_header_remakes_letter :
    ∃ h e, ustar_parse_header h = .ok e ∧ e.type = .USTAR_REGULAR ∧
      ((e = ⟨none, .USTAR_EOF, 0⟩ ∧ ∀ i < USTAR_HEADER_SIZE, h i = 0) ∨
        ∃ name, e.file_name = some name ∧ SafeName name.chars ∧ name.chars.length ≤ 99 ∧
          (e.type = .USTAR_REGULAR ∨ e.type = .USTAR_DIRECTORY) ∧ e.size ≤ INT_MAX ∧
          ∃ h', ustar_make_header no_doubles (fun _ => 0) name e.type (BitVec.ofNat 32 e.size) =
            some (.ok h') ∧ ustar_parse_header h' = .ok e) := by
  rcases letter_headers with ⟨h, _, hparse, _⟩
  exact ⟨h, _, hparse, rfl, ustar_parse_header_remakes no_doubles (fun _ => 0) hparse⟩

/-- The byte at `i` is the only one outside the field that may differ: then the checksums tell. -/
theorem eq_of_calculate_chksum_eq {h h' : UstarHeader} {i : Nat} (hi : i < USTAR_HEADER_SIZE)
    (hout : ¬ (148 ≤ i ∧ i < 156)) (hone : ∀ j < USTAR_HEADER_SIZE, j ≠ i → h j = h' j)
    (hsum : calculate_chksum h = calculate_chksum h') : h i = h' i := by
  have hmem := Finset.mem_range.2 hi
  have hfield : ¬ (i ≥ UstarField.chksum.ofs ∧
      i < UstarField.chksum.ofs + UstarField.chksum.size) := hout
  have hrest : ∑ j ∈ (Finset.range USTAR_HEADER_SIZE).erase i, h.chksum_at j =
      ∑ j ∈ (Finset.range USTAR_HEADER_SIZE).erase i, h'.chksum_at j := by
    refine Finset.sum_congr rfl fun j hj => ?_
    have hj' := Finset.mem_erase.1 hj
    rw [UstarHeader.chksum_at, UstarHeader.chksum_at, hone j (Finset.mem_range.1 hj'.2) hj'.1]
  rw [calculate_chksum_eq, calculate_chksum_eq, ← Finset.add_sum_erase _ _ hmem,
    ← Finset.add_sum_erase _ _ hmem, hrest, UstarHeader.chksum_at, UstarHeader.chksum_at,
    if_neg hfield, if_neg hfield] at hsum
  exact UInt8.toNat_inj.1 (Nat.add_right_cancel hsum)

/-- Two bytes at least tell the header of a file from the end of the archive. -/
theorem not_one_byte_from_end {h h' : UstarHeader} {i : Nat}
    (hone : ∀ j < USTAR_HEADER_SIZE, j ≠ i → h j = h' j) (hzero : ∀ j < USTAR_HEADER_SIZE, h j = 0)
    (hmagic : h'.get .magic = literal "ustar") : False := by
  have hbyte : ∀ k < 6, h' (257 + k) = (literal "ustar").getD k 0 := by
    intro k hk
    rw [← hmagic]
    exact @UstarHeader.apply_of_get h' .magic k hk
  have hsize : USTAR_HEADER_SIZE = 512 := rfl
  by_cases hi : i = 257
  · have hsame := hone 258 (by omega) (by omega)
    rw [hzero _ (by omega), hbyte 1 (by omega)] at hsame
    exact absurd hsame (by decide)
  · have hsame := hone 257 (by omega) (Ne.symm hi)
    rw [hzero _ (by omega), hbyte 0 (by omega)] at hsame
    exact absurd hsame (by decide)

/-- When one byte of an accepted header is changed, what is read is the same file, or an error. -/
theorem ustar_one_byte {h h' : UstarHeader} {e e' : UstarEntry} {i : Nat}
    (hone : ∀ j < USTAR_HEADER_SIZE, j ≠ i → h j = h' j) (haccept : ustar_parse_header h = .ok e)
    (haccept' : ustar_parse_header h' = .ok e') : e = e' := by
  have hsize : USTAR_HEADER_SIZE = 512 := rfl
  -- headers that are the same are read the same
  have hsame : (∀ j < USTAR_HEADER_SIZE, h j = h' j) → e = e' := by
    intro heq
    rw [ustar_parse_header_congr heq, haccept', Except.ok.injEq] at haccept
    exact haccept.symm
  by_cases hzero : ∀ j < USTAR_HEADER_SIZE, h j = 0
  · by_cases hzero' : ∀ j < USTAR_HEADER_SIZE, h' j = 0
    · exact hsame fun j hj => (hzero j hj).trans (hzero' j hj).symm
    · have hinv := ustar_parse_header_inv haccept' hzero'
      exact (not_one_byte_from_end hone hzero hinv.1).elim
  by_cases hzero' : ∀ j < USTAR_HEADER_SIZE, h' j = 0
  · have hinv := ustar_parse_header_inv haccept hzero
    exact (not_one_byte_from_end (fun j hj hne => (hone j hj hne).symm) hzero' hinv.1).elim
  rcases ustar_parse_header_inv haccept hzero with ⟨_, _, hsum, _, _, type, size, htype, hval, rfl⟩
  rcases ustar_parse_header_inv haccept' hzero' with
    ⟨_, _, hsum', _, _, type', size', htype', hval', rfl⟩
  have hget : ∀ f : UstarField, f.ofs + f.size ≤ USTAR_HEADER_SIZE →
      ¬ (f.ofs ≤ i ∧ i < f.ofs + f.size) → h.get f = h'.get f :=
    fun f hf hout => window_congr fun k hk hk' =>
      hone k (by omega) fun hki => hout (by omega)
  by_cases hin : 148 ≤ i ∧ i < 156
  · -- the checksum is in no other member
    have hname : h.get .name = h'.get .name :=
      hget .name (by decide) fun hc => by
        have hhi : i < 100 := hc.2
        omega
    have hflag : h.get .typeflag = h'.get .typeflag :=
      hget .typeflag (by decide) fun hc => by
        have hlo : 156 ≤ i := hc.1
        omega
    have hfield : h.get .size_field = h'.get .size_field :=
      hget .size_field (by decide) fun hc => by
        have hhi : i < 136 := hc.2
        omega
    obtain rfl : type = type' := by
      rw [hflag, htype', Option.some.injEq] at htype
      exact htype.symm
    rw [ustar_size, hfield] at hval
    rw [ustar_size] at hval'
    obtain rfl : size = size' := by
      rw [hval', Except.ok.injEq] at hval
      exact hval.symm
    rw [hname]
  · by_cases hi : i < USTAR_HEADER_SIZE
    · have hfield : h.get .chksum = h'.get .chksum := hget .chksum (by decide) hin
      rw [hfield, hsum', Option.some.injEq] at hsum
      have hbyte := eq_of_calculate_chksum_eq hi hin hone hsum.symm
      refine hsame fun j hj => ?_
      by_cases hji : j = i
      · rw [hji, hbyte]
      · exact hone j hj hji
    · exact hsame fun j hj => hone j hj (by omega)

theorem ustar_one_byte_letter : ∃ (h h' : UstarHeader) (e e' : UstarEntry), h 155 ≠ h' 155 ∧
    ustar_parse_header h = .ok e ∧ ustar_parse_header h' = .ok e' ∧ e = e' := by
  rcases letter_headers with ⟨h, hnull, hparse, hparse'⟩
  have hone : ∀ j < USTAR_HEADER_SIZE, j ≠ 155 → h j = Function.update h 155 32 j :=
    fun j _ hne => (Function.update_of_ne hne _ _).symm
  refine ⟨h, _, _, _, ?_, hparse, hparse', ustar_one_byte hone hparse hparse'⟩
  rw [hnull, Function.update_self]
  decide

end Berk162
