import Berk162.LibC.StdioScan

/-!
# StdioSpecs — the specifications of integer conversions

An `IntegerSpec` is a conversion specification as it can stand in a format string, and `rendering`
is what it has to write: sign, `0x` or `0`, zeros of the precision, digits with their separators,
and the padding on one side of them.  `parse_conversion` reads each of them back, but it drops the
`0` flag for the `-` flag before it knows the width, and a negative width stands for the `-` flag.
-/

namespace Berk162

/-! ## Specifications -/

/-- A width or a precision: its digits, which may be none, or `*`. -/
inductive SpecNumber
  | digits (s : Bytes) (hs : ∀ ch ∈ s, isdigit ch = true)
  | star

namespace SpecNumber

def chars : SpecNumber → Bytes
  | digits s _ => s
  | star => ['*'.toUInt8]

def value (args : VaList) : SpecNumber → Int
  | digits s _ => digits_val 0 s
  | star => (args 0).toInt

/-- The arguments behind the one that `*` takes. -/
def rest (args : VaList) : SpecNumber → VaList
  | digits _ _ => args
  | star => fun i => args (i + 1)

end SpecNumber

/-- A length modifier. -/
def ArgType.modifier : ArgType → Bytes
  | CHAR => text "hh"
  | SHORT => text "h"
  | INT => []
  | INTMAX => text "j"
  | LONG => text "l"
  | LONGLONG => text "ll"
  | PTRDIFFT => text "t"
  | SIZET => text "z"

/-- The width of the type. -/
def ArgType.bits : ArgType → Nat
  | CHAR => 8
  | SHORT => 16
  | INT | LONG | PTRDIFFT | SIZET => 32
  | INTMAX | LONGLONG => 64

/-- The words that its argument has on the stack. -/
def ArgType.words : ArgType → Nat
  | INTMAX | LONGLONG => 2
  | _ => 1

/-- The letter of an integer conversion. -/
inductive IntegerConversion
  | d
  | i
  | o
  | u
  | x
  | X
  deriving DecidableEq

namespace IntegerConversion

def char : IntegerConversion → UInt8
  | d => 'd'.toUInt8
  | i => 'i'.toUInt8
  | o => 'o'.toUInt8
  | u => 'u'.toUInt8
  | x => 'x'.toUInt8
  | X => 'X'.toUInt8

def signed : IntegerConversion → Bool
  | d | i => true
  | _ => false

def base : IntegerConversion → IntegerBase
  | d | i | u => base_d
  | o => base_o
  | x => base_x
  | X => base_X

end IntegerConversion

/-- A conversion specification for an integer. -/
structure IntegerSpec where
  flags : Bytes
  width : SpecNumber
  precision : Option SpecNumber
  type : ArgType
  conversion : IntegerConversion
  flags_only : ∀ ch ∈ flags, (flag_of ch).isSome
  /-- A zero in front of the width is a flag. -/
  width_first : width.chars.head? ≠ some '0'.toUInt8

/-! ## What a specification writes -/

/-- A comma in front of each digit behind a full group; the lowest digit is the first. -/
def separated (group : Nat) : Nat → Bytes → Bytes
  | _, [] => []
  | i, ch :: s =>
    if 0 < i ∧ i % group = 0 then ','.toUInt8 :: ch :: separated group (i + 1) s
    else ch :: separated group (i + 1) s

/-- The digits of a number, the lowest first; 0 has none. -/
def IntegerBase.digits_of (b : IntegerBase) (value : Nat) : Bytes :=
  (Nat.digits b.base value).map fun d => b.digits.getD d 0

namespace IntegerSpec

variable (s : IntegerSpec) (args : VaList)

def flag (ch : Char) : Bool := s.flags.contains ch.toUInt8

def width_value : Int := s.width.value args

/-- The precision; a negative one is as if it were not there. -/
def precision_value : Option Nat :=
  s.precision.bind fun n =>
    let value := n.value (s.width.rest args)
    if value < 0 then none else some value.toNat

/-- The arguments from the number on. -/
def value_args : VaList :=
  match s.precision with
  | none => s.width.rest args
  | some n => n.rest (s.width.rest args)

/-- The arguments behind the number. -/
def rest : VaList := fun i => s.value_args args (i + s.type.words)

/-- The number, cut to its type. -/
def value : Int :=
  let word := (s.value_args args 1 ++ s.value_args args 0).setWidth s.type.bits
  if s.conversion.signed then word.toInt else word.toNat

def sign : Bytes :=
  if ¬ s.conversion.signed then []
  else if s.value args < 0 then ['-'.toUInt8]
  else if s.flag '+' then ['+'.toUInt8]
  else if s.flag ' ' then [' '.toUInt8]
  else []

/-- `0x` or `0X` in front of a number that is not 0. -/
def radix : Bytes :=
  if s.flag '#' ∧ s.value args ≠ 0 then
    match s.conversion with
    | .x => text "0x"
    | .X => text "0X"
    | _ => []
  else []

def head : Bytes := s.sign args ++ s.radix args

/-- The separated digits, the zeros of the precision and the `0` of an octal number, from the lowest
digit on. -/
def low_digits : Bytes :=
  let digits := s.conversion.base.digits_of (s.value args).natAbs
  let zeros := List.replicate ((s.precision_value args).getD 1 - digits.length) '0'.toUInt8
  let digits := if s.flag '\'' then separated s.conversion.base.group 0 digits else digits
  let digits := digits ++ zeros
  if s.flag '#' ∧ s.conversion = .o ∧ digits.getLast? ≠ some '0'.toUInt8 then
    digits ++ ['0'.toUInt8]
  else digits

def digits : Bytes := (s.low_digits args).reverse

/-- The text without the padding. -/
def body : Bytes := s.head args ++ s.digits args

/-- The `-` flag or a negative width. -/
def left : Bool := s.flag '-' || decide (s.width_value args < 0)

/-- The `0` flag, which counts only without a precision. -/
def zero : Bool := s.flag '0' && (s.precision_value args).isNone

def rendering : Bytes :=
  let pad := (s.width_value args).natAbs - (s.body args).length
  if s.left args then s.body args ++ List.replicate pad ' '.toUInt8
  else if s.zero args then s.head args ++ List.replicate pad '0'.toUInt8 ++ s.digits args
  else List.replicate pad ' '.toUInt8 ++ s.body args

/-- A precision that the buffer of `format_integer` has room for, and separators without one. -/
structure Buffered : Prop where
  precision_le : ∀ p ∈ s.precision_value args, p ≤ 63
  group_alone : s.flag '\'' = true → s.precision_value args = none

/-! ## The text of a specification -/

def precision_chars : Bytes :=
  match s.precision with
  | none => []
  | some n => '.'.toUInt8 :: n.chars

/-- The specification in a format string. -/
def chars : Bytes :=
  '%'.toUInt8 :: (s.flags ++ (s.width.chars ++ (s.precision_chars ++
    (s.type.modifier ++ [s.conversion.char]))))

end IntegerSpec

/-! ## Flags -/

/-- The flags as an `int`. -/
def flag_bits (minus plus space pound zero group : Bool) : BitVec 32 :=
  (if minus then MINUS else 0) ||| (if plus then PLUS else 0) ||| (if space then SPACE else 0) |||
    (if pound then POUND else 0) ||| (if zero then ZERO else 0) ||| if group then GROUP else 0

section Flags

variable {minus plus space pound zero group : Bool}

theorem flag_bits_minus : (flag_bits minus plus space pound zero group &&& MINUS != 0) = minus := by
  decide +revert

theorem flag_bits_plus : (flag_bits minus plus space pound zero group &&& PLUS != 0) = plus := by
  decide +revert

theorem flag_bits_space : (flag_bits minus plus space pound zero group &&& SPACE != 0) = space := by
  decide +revert

theorem flag_bits_pound : (flag_bits minus plus space pound zero group &&& POUND != 0) = pound := by
  decide +revert

theorem flag_bits_zero : (flag_bits minus plus space pound zero group &&& ZERO != 0) = zero := by
  decide +revert

theorem flag_bits_group : (flag_bits minus plus space pound zero group &&& GROUP != 0) = group := by
  decide +revert

theorem flag_bits_padded :
    (flag_bits minus plus space pound zero group &&& (MINUS ||| ZERO) != 0) = (minus || zero) := by
  decide +revert

theorem flag_bits_set_minus : flag_bits minus plus space pound zero group ||| MINUS =
    flag_bits true plus space pound zero group := by
  decide +revert

/-- The `-` flag overrides the `0` flag. -/
theorem flag_bits_minus_over_zero :
    (if flag_bits minus plus space pound zero group &&& MINUS != 0 then
      flag_bits minus plus space pound zero group &&& ~~~ZERO
    else flag_bits minus plus space pound zero group) =
      flag_bits minus plus space pound (zero && !minus) group := by
  decide +revert

/-- The `+` flag overrides the space. -/
theorem flag_bits_plus_over_space :
    (if flag_bits minus plus space pound zero group &&& PLUS != 0 then
      flag_bits minus plus space pound zero group &&& ~~~SPACE
    else flag_bits minus plus space pound zero group) =
      flag_bits minus plus (space && !plus) pound zero group := by
  decide +revert

theorem flag_bits_clear_zero : flag_bits minus plus space pound zero group &&& ~~~ZERO =
    flag_bits minus plus space pound false group := by
  decide +revert

end Flags

/-- A character adds the flag that it stands for. -/
theorem flag_of_eq_some {ch : UInt8} {flag : BitVec 32} (h : flag_of ch = some flag)
    (minus plus space pound zero group : Bool) :
    flag_bits minus plus space pound zero group ||| flag =
      flag_bits ('-'.toUInt8 == ch || minus) ('+'.toUInt8 == ch || plus)
        (' '.toUInt8 == ch || space) ('#'.toUInt8 == ch || pound) ('0'.toUInt8 == ch || zero)
        ('\''.toUInt8 == ch || group) := by
  revert minus plus space pound zero group
  unfold flag_of at h
  split_ifs at h with h₁ h₂ h₃ h₄ h₅ h₆
  all_goals
    cases h
    subst ch
    decide

theorem parse_flags_spec {flags rest : Bytes} (hflags : ∀ ch ∈ flags, (flag_of ch).isSome)
    (hrest : ∃ ch t, rest = ch :: t ∧ flag_of ch = none)
    (minus plus space pound zero group : Bool) :
    parse_flags (flag_bits minus plus space pound zero group) (flags ++ rest) =
      .ok (flag_bits (flags.contains '-'.toUInt8 || minus) (flags.contains '+'.toUInt8 || plus)
        (flags.contains ' '.toUInt8 || space) (flags.contains '#'.toUInt8 || pound)
        (flags.contains '0'.toUInt8 || zero) (flags.contains '\''.toUInt8 || group), rest) := by
  induction flags generalizing minus plus space pound zero group with
  | nil =>
      obtain ⟨ch, t, rfl, hch⟩ := hrest
      rw [List.nil_append, parse_flags, hch]
      rfl
  | cons ch flags ih =>
      obtain ⟨flag, hflag⟩ := Option.isSome_iff_exists.1 (hflags ch List.mem_cons_self)
      have hstep := ih (fun c hc => hflags c (List.mem_cons_of_mem ch hc))
      rw [List.cons_append, parse_flags, hflag]
      simp only [flag_of_eq_some hflag, hstep, List.contains_cons, Bool.or_assoc,
        Bool.or_left_comm]

/-! ## Numbers -/

theorem parse_digits_spec {ds rest : Bytes} (hds : ∀ ch ∈ ds, isdigit ch = true)
    (hrest : ∃ ch t, rest = ch :: t ∧ isdigit ch = false) (n : Nat) :
    parse_digits (int32 n) (ds ++ rest) = .ok (int32 (digits_val n ds), rest) := by
  induction ds generalizing n with
  | nil =>
      obtain ⟨ch, t, rfl, hch⟩ := hrest
      rw [List.nil_append, parse_digits, hch]
      rfl
  | cons ch ds ih =>
      have hch := hds ch List.mem_cons_self
      have hge : 48 ≤ ch.toNat := by
        rw [isdigit, Bool.and_eq_true, decide_eq_true_iff] at hch
        exact hch.1
      have hstep : int32 (int32 n * 10 + ch.toNat - 48) =
          int32 (n * 10 + (ch.toNat - 48) : Nat) := by
        unfold int32
        omega
      rw [List.cons_append, parse_digits, if_pos hch, digits_val, if_pos hch, hstep]
      exact ih (fun c hc => hds c (List.mem_cons_of_mem ch hc)) _

/-- Neither a digit nor `*`. -/
def ends_number (ch : UInt8) : Bool := !isdigit ch && ch != '*'.toUInt8

theorem parse_number_spec (n : SpecNumber) {rest : Bytes}
    (hrest : ∃ ch t, rest = ch :: t ∧ ends_number ch = true) (args : VaList) :
    parse_number (n.chars ++ rest) args = .ok (int32 (n.value args), rest, n.rest args) := by
  obtain ⟨ch, t, rfl, hch⟩ := hrest
  rw [ends_number, Bool.and_eq_true, Bool.not_eq_true', bne_iff_ne] at hch
  cases n with
  | star =>
      have hint : int32 (args 0).toInt = (args 0).toInt :=
        int32_eq (BitVec.le_toInt (args 0)) (BitVec.toInt_lt (x := args 0))
      rw [SpecNumber.value, hint]
      rfl
  | digits ds hds =>
      obtain ⟨c, hc, hstar⟩ : ∃ c, char_at (ds ++ ch :: t) = .ok c ∧ c ≠ '*'.toUInt8 := by
        cases ds with
        | nil =>
            exact ⟨ch, rfl, hch.2⟩
        | cons d ds =>
            refine ⟨d, rfl, ?_⟩
            rintro rfl
            exact absurd (hds _ List.mem_cons_self) (by decide)
      have hdigits := parse_digits_spec hds ⟨ch, t, rfl, hch.1⟩ 0
      rw [SpecNumber.chars, parse_number, hc]
      simp only [bind, Except.bind, if_neg hstar]
      rw [show (0 : Int) = int32 (0 : Nat) from rfl, hdigits]
      rfl

/-! ## The parser -/

/-- A letter that can follow the precision. -/
def is_letter (ch : UInt8) : Bool := (text "hjltzdiouxX").contains ch

/-- A letter is no flag, no part of a number and no point, and `%%` has none. -/
theorem is_letter_spec {ch : UInt8} (h : is_letter ch = true) :
    (flag_of ch = none ∧ ch ≠ '%'.toUInt8) ∧ ends_number ch = true ∧ ch ≠ '.'.toUInt8 := by
  have hletters : (text "hjltzdiouxX").all (fun c => decide ((flag_of c = none ∧ c ≠ '%'.toUInt8) ∧
      ends_number c = true ∧ c ≠ '.'.toUInt8)) = true := by decide
  simpa using List.all_eq_true.1 hletters ch (List.contains_iff_mem.1 h)

theorem begins_type (type : ArgType) (conversion : IntegerConversion) (format : Bytes) :
    ∃ ch t, type.modifier ++ conversion.char :: format = ch :: t ∧ is_letter ch = true := by
  cases type <;> cases conversion <;> exact ⟨_, _, rfl, by decide⟩

theorem parse_type_spec (type : ArgType) (conversion : IntegerConversion) (format : Bytes) :
    parse_type (type.modifier ++ conversion.char :: format) =
      .ok (type, conversion.char :: format) := by
  cases type <;> cases conversion <;> rfl

theorem SpecNumber.le_value (args : VaList) (n : SpecNumber) : -2 ^ 31 ≤ n.value args := by
  cases n with
  | digits ds _ =>
      rw [value]
      omega
  | star =>
      exact BitVec.le_toInt (args 0)

namespace IntegerSpec

variable (s : IntegerSpec) (args : VaList)

/-- What stands behind the number of the field width. -/
def behind_width (format : Bytes) : Bytes :=
  s.precision_chars ++ (s.type.modifier ++ s.conversion.char :: format)

theorem begins_precision (format : Bytes) :
    ∃ ch t, s.behind_width format = ch :: t ∧ (flag_of ch = none ∧ ch ≠ '%'.toUInt8) ∧
      ends_number ch = true := by
  rw [behind_width, precision_chars]
  cases s.precision with
  | none =>
      obtain ⟨ch, t, ht, hch⟩ := begins_type s.type s.conversion format
      exact ⟨ch, t, ht, (is_letter_spec hch).1, (is_letter_spec hch).2.1⟩
  | some n =>
      exact ⟨'.'.toUInt8, _, rfl, by decide, by decide⟩

/-- The first digit of a width is no 0. -/
theorem begins_width (format : Bytes) :
    ∃ ch t, s.width.chars ++ s.behind_width format = ch :: t ∧
      flag_of ch = none ∧ ch ≠ '%'.toUInt8 := by
  have hfirst := s.width_first
  generalize s.width = width at hfirst ⊢
  cases width with
  | star =>
      exact ⟨'*'.toUInt8, _, rfl, by decide, by decide⟩
  | digits ds hds =>
      cases ds with
      | nil =>
          obtain ⟨ch, t, ht, hch, _⟩ := s.begins_precision format
          exact ⟨ch, t, ht, hch⟩
      | cons d ds =>
          refine ⟨d, _, rfl, ?_⟩
          have hd := hds d List.mem_cons_self
          have hzero : d ≠ '0'.toUInt8 := fun h => hfirst (congrArg some h)
          have hother : ∀ c : UInt8, isdigit c = false → d ≠ c := by
            rintro c hc rfl
            rw [hd] at hc
            cases hc
          refine ⟨?_, hother _ (by decide)⟩
          rw [flag_of, if_neg (hother _ (by decide)), if_neg (hother _ (by decide)),
            if_neg (hother _ (by decide)), if_neg (hother _ (by decide)), if_neg hzero,
            if_neg (hother _ (by decide))]

/-- `%` is not doubled. -/
theorem begins_flags (format : Bytes) :
    ∃ ch t, s.flags ++ (s.width.chars ++ s.behind_width format) = ch :: t ∧ ch ≠ '%'.toUInt8 := by
  have hflags := s.flags_only
  generalize s.flags = flags at hflags ⊢
  cases flags with
  | nil =>
      obtain ⟨ch, t, ht, _, hch⟩ := s.begins_width format
      exact ⟨ch, t, ht, hch⟩
  | cons ch flags =>
      refine ⟨ch, _, rfl, ?_⟩
      rintro rfl
      exact absurd (hflags '%'.toUInt8 List.mem_cons_self) (by decide)

/-- `struct printf_conversion` after `parse_conversion`. -/
def parsed : PrintfConversion :=
  let width := int32 (s.width_value args)
  { flags := flag_bits (s.flag '-' || decide (width < 0)) (s.flag '+') (s.flag ' ' && !s.flag '+')
      (s.flag '#') (s.flag '0' && !s.flag '-' && (s.precision_value args).isNone) (s.flag '\'')
    width := if width < 0 then int32 (-width) else width
    precision := ((s.precision_value args).map Int.ofNat).getD (-1)
    type := s.type }

variable {s args}

/-- The precisions that the buffer has room for are not changed. -/
theorem parse_precision_spec (hp : ∀ p ∈ s.precision_value args, p ≤ 63) (format : Bytes) :
    parse_precision (s.behind_width format) (s.width.rest args) =
      .ok (((s.precision_value args).map Int.ofNat).getD (-1),
        s.type.modifier ++ s.conversion.char :: format, s.value_args args) := by
  obtain ⟨ch, t, ht, hch⟩ := begins_type s.type s.conversion format
  rw [behind_width, precision_chars, value_args]
  rw [precision_value] at hp ⊢
  cases hprecision : s.precision with
  | none =>
      rw [List.nil_append, ht, parse_precision]
      simp only [char_at_cons, bind, Except.bind, if_neg (is_letter_spec hch).2.2]
      rfl
  | some n =>
      have hnumber := parse_number_spec n ⟨ch, t, ht, (is_letter_spec hch).2.1⟩ (s.width.rest args)
      simp only [hprecision, Option.bind_some] at hp ⊢
      rw [parse_precision, List.cons_append]
      simp only [char_at_cons, bind, Except.bind, if_pos, List.tail_cons, hnumber]
      have hlow := n.le_value (s.width.rest args)
      generalize n.value (s.width.rest args) = value at hp hlow ⊢
      by_cases hneg : value < 0
      · have hint : int32 value = value := int32_eq hlow (by omega)
        rw [hint, if_pos hneg, if_pos hneg]
        rfl
      · have hle : value.toNat ≤ 63 := by simpa [hneg] using hp
        have hint : int32 value = value := int32_eq hlow (by omega)
        have hval : Int.ofNat value.toNat = value := Int.toNat_of_nonneg (by omega)
        rw [hint, if_neg hneg, if_neg hneg, Option.map_some, Option.getD_some, hval]
        rfl

/-- The flags after the width and the precision are known. -/
theorem parse_conversion_spec (hp : ∀ p ∈ s.precision_value args, p ≤ 63) (format : Bytes) :
    parse_conversion (s.flags ++ (s.width.chars ++ s.behind_width format)) args =
      .ok (s.parsed args, s.conversion.char :: format, s.value_args args) := by
  obtain ⟨c, t, ht, hc, _⟩ := s.begins_width format
  obtain ⟨c', t', ht', _, hc'⟩ := s.begins_precision format
  have hflags := parse_flags_spec s.flags_only ⟨c, t, ht, hc⟩ false false false false false false
  have hwidth := parse_number_spec s.width ⟨c', t', ht', hc'⟩ args
  have hstart : flag_bits false false false false false false = 0 := by decide
  rw [hstart] at hflags
  simp only [parse_conversion, hflags, hwidth, parse_precision_spec hp, parse_type_spec, bind,
    Except.bind, Bool.or_false, flag_bits_minus_over_zero, flag_bits_plus_over_space]
  rw [parsed, width_value]
  by_cases hneg : int32 (s.width.value args) < 0
  · cases s.precision_value args <;>
      simp [hneg, flag, flag_bits_set_minus, flag_bits_clear_zero, pure, Except.pure]
  · cases s.precision_value args <;>
      simp [hneg, flag, flag_bits_clear_zero, pure, Except.pure]

end IntegerSpec

end Berk162
