import Berk162.Lib.CText
import Berk162.Lib.Machine

/-!
# Stdio — `__vprintf` of `lib/stdio.c`

The format string is what is left of its array: the bytes from the cursor on, the null byte the last
of them.  `*format` reads the first byte, and `past_null` is a read behind the null byte.  `output`
is called with each character and the state that `aux` points to.

What the compiler does with a `double` is a parameter; `va_arg` reads the words of the stack.
-/

namespace Berk162

/-! ## Arguments -/

/-- `va_list`: the words above the last named argument. -/
abbrev VaList := Nat → BitVec 32

/-- `va_arg` of a type of one word. -/
def va_word (args : VaList) : BitVec 32 × VaList := (args 0, fun i => args (i + 1))

/-- `va_arg` of a type of two words. -/
def va_long_long (args : VaList) : BitVec 64 × VaList := (args 1 ++ args 0, fun i => args (i + 2))

/-- The floating-point operations of the `f` conversion. -/
structure FloatConversions where
  /-- `(int)d` -/
  first : BitVec 64 → BitVec 32
  /-- `(int)((d - first) * powers[c.precision])` -/
  rest : BitVec 64 → BitVec 32 → Int → BitVec 32
  /-- `d < 0` -/
  negative : BitVec 64 → Bool

/-! ## Conversions -/

/-- The flags of `struct printf_conversion`, bits of an `int`. -/
def MINUS : BitVec 32 := 1 <<< 0
def PLUS : BitVec 32 := 1 <<< 1
def SPACE : BitVec 32 := 1 <<< 2
def POUND : BitVec 32 := 1 <<< 3
def ZERO : BitVec 32 := 1 <<< 4
def GROUP : BitVec 32 := 1 <<< 5

/-- Type of argument to format. -/
inductive ArgType
  | CHAR
  | SHORT
  | INT
  | INTMAX
  | LONG
  | LONGLONG
  | PTRDIFFT
  | SIZET
  deriving DecidableEq

/-- `struct printf_conversion` -/
structure PrintfConversion where
  flags : BitVec 32
  width : Int
  /-- -1 if no precision was specified. -/
  precision : Int
  type : ArgType
  deriving DecidableEq

/-- `c->flags & FLAGS` -/
def PrintfConversion.has (c : PrintfConversion) (flags : BitVec 32) : Bool := c.flags &&& flags != 0

/-- `struct integer_base` -/
structure IntegerBase where
  base : Nat
  digits : Bytes
  /-- `x` character to use, for base 16 only. -/
  x : UInt8
  /-- Number of digits to group with the `'` flag. -/
  group : Nat
  base_ge : 8 ≤ base
  digits_length : digits.length = base

def DEFAULT_FLOAT_PRECISION : Int := 6
def MAX_FLOAT_PRECISION : Int := 9

def base_d : IntegerBase := ⟨10, text "0123456789", 0, 3, by decide, by decide⟩
def base_o : IntegerBase := ⟨8, text "01234567", 0, 3, by decide, by decide⟩
def base_x : IntegerBase := ⟨16, text "0123456789abcdef", 'x'.toUInt8, 4, by decide, by decide⟩
def base_X : IntegerBase := ⟨16, text "0123456789ABCDEF", 'X'.toUInt8, 4, by decide, by decide⟩

def powers : List Int :=
  [0, 10, 100, 1000, 10000, 100000, 1000000, 10000000, 100000000, 1000000000]

/-! ## Output -/

section Output

variable {Aux : Type} (output : UInt8 → Aux → Aux)

/-- `output_dup` -/
def output_dup (ch : UInt8) : Nat → Aux → Aux
  | 0, aux => aux
  | cnt + 1, aux => output_dup ch cnt (output ch aux)

/-- `while (value > 0)` of `format_integer`, which puts the digits into `buf` from the lowest on. -/
def put_digits (b : IntegerBase) (group : Bool) (value digit_cnt : Nat) (buf : Bytes) : Bytes :=
  if 0 < value then
    let buf :=
      if group && 0 < digit_cnt && digit_cnt % b.group = 0 then buf ++ [','.toUInt8] else buf
    put_digits b group (value / b.base) (digit_cnt + 1) (buf ++ [b.digits.getD (value % b.base) 0])
  else buf
termination_by value
decreasing_by exact Nat.div_lt_self ‹_› (Nat.lt_of_lt_of_le (by decide) b.base_ge)

/-- The loop that appends zeros to match the precision.  One byte of `buf` stays free. -/
def put_zeros (precision : Int) (buf : Bytes) : Bytes :=
  if buf.length < precision ∧ buf.length < 64 - 1 then put_zeros precision (buf ++ ['0'.toUInt8])
  else buf
termination_by 64 - buf.length
decreasing_by
  rw [List.length_append, List.length_singleton]
  omega

/-- What `format_integer` has in `buf` when it starts to write. -/
def integer_buf (value : Nat) (b : IntegerBase) (c : PrintfConversion) : Bytes :=
  let buf := put_digits b (c.has GROUP) value 0 []
  let buf := put_zeros (if c.precision < 0 then 1 else c.precision) buf
  if c.has POUND && b.base = 8 && buf.getLast? ≠ some '0'.toUInt8 then buf ++ ['0'.toUInt8] else buf

/-- A digit brings a comma at most. -/
theorem put_digits_length (b : IntegerBase) (group : Bool) {k value : Nat} (h : value < 8 ^ k)
    (digit_cnt : Nat) (buf : Bytes) :
    (put_digits b group value digit_cnt buf).length ≤ buf.length + 2 * k := by
  induction k generalizing value digit_cnt buf with
  | zero =>
      have hzero : value = 0 := by simpa using h
      rw [put_digits, if_neg (by omega)]
      omega
  | succ k ih =>
      rw [put_digits]
      split
      · have hdiv : value / b.base < 8 ^ k := by
          apply Nat.lt_of_le_of_lt (Nat.div_le_div_left b.base_ge (by decide))
          exact Nat.div_lt_of_lt_mul (by rwa [Nat.pow_succ, Nat.mul_comm] at h)
        refine Nat.le_trans (ih hdiv _ _) ?_
        split <;> simp only [List.length_append, List.length_singleton] <;> omega
      · omega

theorem put_zeros_length (precision : Int) {buf : Bytes} (h : buf.length ≤ 63) :
    (put_zeros precision buf).length ≤ 63 := by
  fun_induction put_zeros precision buf with
  | case1 buf hfree ih =>
      apply ih
      rw [List.length_append, List.length_singleton]
      omega
  | case2 buf _ =>
      exact h

/-- `format_integer` never writes behind the 64 bytes of `buf`. -/
theorem integer_buf_fits {value : Nat} (h : value < 2 ^ 64) (b : IntegerBase)
    (c : PrintfConversion) : (integer_buf value b c).length ≤ 64 := by
  have hdigits : (put_digits b (c.has GROUP) value 0 []).length ≤ 63 := by
    have h8 : value < 8 ^ 22 := by omega
    have hlen := put_digits_length b (c.has GROUP) h8 0 []
    rw [List.length_nil] at hlen
    omega
  have hzeros := put_zeros_length (if c.precision < 0 then 1 else c.precision) hdigits
  simp only [integer_buf]
  generalize put_zeros _ _ = buf at hzeros ⊢
  split
  · rw [List.length_append, List.length_singleton]
    omega
  · omega

/-- The sign character, or 0. -/
def integer_sign (is_signed negative : Bool) (c : PrintfConversion) : UInt8 :=
  if is_signed then
    if c.has PLUS then if negative then '-'.toUInt8 else '+'.toUInt8
    else if c.has SPACE then if negative then '-'.toUInt8 else ' '.toUInt8
    else if negative then '-'.toUInt8
    else 0
  else 0

/-- `format_integer` -/
def format_integer (value : Nat) (is_signed negative : Bool) (b : IntegerBase)
    (c : PrintfConversion) (aux : Aux) : Aux :=
  let sign := integer_sign is_signed negative c
  let x := if c.has POUND && value ≠ 0 then b.x else 0
  let buf := integer_buf value b c
  let pad_cnt :=
    int32 (c.width - buf.length - (if x ≠ 0 then 2 else 0) - (if sign ≠ 0 then 1 else 0))
  let pad_cnt := if pad_cnt < 0 then 0 else pad_cnt.toNat
  let aux := if c.has (MINUS ||| ZERO) then aux else output_dup output ' '.toUInt8 pad_cnt aux
  let aux := if sign ≠ 0 then output sign aux else aux
  let aux := if x ≠ 0 then output x (output '0'.toUInt8 aux) else aux
  let aux := if c.has ZERO then output_dup output '0'.toUInt8 pad_cnt aux else aux
  let aux := buf.reverse.foldl (fun aux ch => output ch aux) aux
  if c.has MINUS then output_dup output ' '.toUInt8 pad_cnt aux else aux

/-- `for (i = 0; i < length; i++)` of `format_string`, with `cnt` characters left. -/
def output_string (string : Nat → UInt8) : Nat → Nat → Aux → Aux
  | _, 0, aux => aux
  | i, cnt + 1, aux => output_string string (i + 1) cnt (output (string i) aux)

/-- `format_string`; `string i` is `string[i]`. -/
def format_string (string : Nat → UInt8) (length : Int) (c : PrintfConversion) (aux : Aux) : Aux :=
  let pad_cnt := to_size (int32 (c.width - length))
  let aux :=
    if length < c.width ∧ ¬ c.has MINUS then output_dup output ' '.toUInt8 pad_cnt aux else aux
  let aux := output_string output string 0 length.toNat aux
  if length < c.width ∧ c.has MINUS then output_dup output ' '.toUInt8 pad_cnt aux else aux

end Output

/-- `strnlen`, from the character at `length` on. -/
def strnlen (string : Nat → UInt8) (maxlen length : Nat) : Nat :=
  if string length ≠ 0 ∧ length < maxlen then strnlen string maxlen (length + 1) else length
termination_by maxlen - length

/-! ## The cursor -/

/-- How a run of `__vprintf` stops before it returns. -/
inductive PrintStop
  /-- It reads the format string behind the null byte. -/
  | past_null
  /-- The steps that it was given are used up. -/
  | out_of_fuel
  deriving DecidableEq

/-- `*format` -/
def char_at : Bytes → Except PrintStop UInt8
  | [] => .error .past_null
  | ch :: _ => .ok ch

/-- The flag that a character stands for. -/
def flag_of (ch : UInt8) : Option (BitVec 32) :=
  if ch = '-'.toUInt8 then some MINUS
  else if ch = '+'.toUInt8 then some PLUS
  else if ch = ' '.toUInt8 then some SPACE
  else if ch = '#'.toUInt8 then some POUND
  else if ch = '0'.toUInt8 then some ZERO
  else if ch = '\''.toUInt8 then some GROUP
  else none

/-- The loop over the flag characters.  `format--` takes back the step over the one that is none. -/
def parse_flags (flags : BitVec 32) : Bytes → Except PrintStop (BitVec 32 × Bytes)
  | [] => .error .past_null
  | ch :: format =>
    match flag_of ch with
    | some flag => parse_flags (flags ||| flag) format
    | none => .ok (flags, ch :: format)

/-- `for (; isdigit(*format); format++)` of the width and the precision. -/
def parse_digits (n : Int) : Bytes → Except PrintStop (Int × Bytes)
  | [] => .error .past_null
  | ch :: format =>
    if isdigit ch then parse_digits (int32 (n * 10 + ch.toNat - 48)) format
    else .ok (n, ch :: format)

/-- A number or `*`. -/
def parse_number (format : Bytes) (args : VaList) : Except PrintStop (Int × Bytes × VaList) := do
  if (← char_at format) = '*'.toUInt8 then
    let (n, args) := va_word args
    return (n.toInt, format.tail, args)
  else
    let (n, format) ← parse_digits 0 format
    return (n, format, args)

/-- The precision, -1 if there is none or it is negative. -/
def parse_precision (format : Bytes) (args : VaList) :
    Except PrintStop (Int × Bytes × VaList) := do
  if (← char_at format) = '.'.toUInt8 then
    let (precision, format, args) ← parse_number format.tail args
    return (if precision < 0 then -1 else precision, format, args)
  else return (-1, format, args)

/-- A length modifier that may be doubled. -/
def parse_doubled (ch : UInt8) (once twice : ArgType) (format : Bytes) :
    Except PrintStop (ArgType × Bytes) := do
  if (← char_at format) = ch then return (twice, format.tail) else return (once, format)

/-- The type of the argument. -/
def parse_type (format : Bytes) : Except PrintStop (ArgType × Bytes) := do
  let ch ← char_at format
  if ch = 'h'.toUInt8 then parse_doubled 'h'.toUInt8 .SHORT .CHAR format.tail
  else if ch = 'j'.toUInt8 then return (.INTMAX, format.tail)
  else if ch = 'l'.toUInt8 then parse_doubled 'l'.toUInt8 .LONG .LONGLONG format.tail
  else if ch = 't'.toUInt8 then return (.PTRDIFFT, format.tail)
  else if ch = 'z'.toUInt8 then return (.SIZET, format.tail)
  else return (.INT, format)

/-- `parse_conversion` -/
def parse_conversion (format : Bytes) (args : VaList) :
    Except PrintStop (PrintfConversion × Bytes × VaList) := do
  let (flags, format) ← parse_flags 0 format
  let flags := if flags &&& MINUS != 0 then flags &&& ~~~ZERO else flags
  let flags := if flags &&& PLUS != 0 then flags &&& ~~~SPACE else flags
  let (width, format, args) ← parse_number format args
  let (width, flags) :=
    if width < 0 then (int32 (-width), flags ||| MINUS) else (width, flags)
  let (precision, format, args) ← parse_precision format args
  let flags := if 0 ≤ precision then flags &&& ~~~ZERO else flags
  let (type, format) ← parse_type format
  return ({ flags, width, precision, type }, format, args)

/-! ## Values -/

/-- The value of a signed integer conversion, an `intmax_t`. -/
def signed_value (type : ArgType) (args : VaList) : BitVec 64 × VaList :=
  let (word, next) := va_word args
  let (long_long, next2) := va_long_long args
  match type with
  | .CHAR => ((word.setWidth 8).signExtend 64, next)
  | .SHORT => ((word.setWidth 16).signExtend 64, next)
  | .INT | .LONG | .PTRDIFFT => (word.signExtend 64, next)
  | .INTMAX | .LONGLONG => (long_long, next2)
  | .SIZET =>
    let value := word.setWidth 64
    (if (4294967295 / 2 : BitVec 64).slt value then value - 4294967295 - 1 else value, next)

/-- The value of an unsigned integer conversion, a `uintmax_t`. -/
def unsigned_value (type : ArgType) (args : VaList) : Nat × VaList :=
  let (word, next) := va_word args
  let (long_long, next2) := va_long_long args
  match type with
  | .CHAR => ((word.setWidth 8).toNat, next)
  | .SHORT => ((word.setWidth 16).toNat, next)
  | .INT | .LONG | .SIZET => (word.toNat, next)
  | .INTMAX | .LONGLONG => (long_long.toNat, next2)
  | .PTRDIFFT =>
    -- `PTRDIFF_MAX` is narrower than `UINTMAX_MAX`: the mask takes the sign extension away
    ((word.signExtend 64 &&& (BitVec.ofNat 64 2147483647 <<< 1 ||| 1)).toNat, next)

/-- `value < 0 ? -value : value`; the negation wraps around. -/
def magnitude {w : Nat} (value : BitVec w) : BitVec w := if value.slt 0 then -value else value

/-! ## `__vprintf` -/

section Vprintf

variable {Aux : Type} (floats : FloatConversions) (memory : BitVec 32 → UInt8)
  (output : UInt8 → Aux → Aux)

/-- The `f` conversion. -/
def convert_f (c : PrintfConversion) (args : VaList) (aux : Aux) : VaList × Aux :=
  let precision := if c.precision < 0 then DEFAULT_FLOAT_PRECISION else c.precision
  let precision := if precision > MAX_FLOAT_PRECISION then MAX_FLOAT_PRECISION else precision
  let (d, args) := va_long_long args
  let first := floats.first d
  let rest := floats.rest d first (powers.getD precision.toNat 0)
  let aux := format_integer output ((magnitude first).signExtend 64).toNat true (floats.negative d)
    base_d { c with precision := -1 } aux
  let aux := output '.'.toUInt8 aux
  let precision := if precision = 0 then 1 else precision
  let aux := format_integer output ((magnitude rest).signExtend 64).toNat false false
    base_d { c with precision } aux
  (args, aux)

/-- `switch (*format)` of `__vprintf`; `print` is `__printf`. -/
def do_conversion (print : Bytes → VaList → Aux → Except PrintStop Aux) (ch : UInt8)
    (c : PrintfConversion) (args : VaList) (aux : Aux) : Except PrintStop (VaList × Aux) := do
  if ch = 'd'.toUInt8 ∨ ch = 'i'.toUInt8 then
    let (value, args) := signed_value c.type args
    return (args, format_integer output (magnitude value).toNat true (value.slt 0) base_d c aux)
  else if ch = 'o'.toUInt8 ∨ ch = 'u'.toUInt8 ∨ ch = 'x'.toUInt8 ∨ ch = 'X'.toUInt8 then
    let (value, args) := unsigned_value c.type args
    let b := if ch = 'o'.toUInt8 then base_o else if ch = 'u'.toUInt8 then base_d
      else if ch = 'x'.toUInt8 then base_x else base_X
    return (args, format_integer output value false false b c aux)
  else if ch = 'c'.toUInt8 then
    let (word, args) := va_word args
    return (args, format_string output (fun _ => UInt8.ofBitVec (word.setWidth 8)) 1 c aux)
  else if ch = 's'.toUInt8 then
    let (s, args) := va_word args
    let string := if s = 0 then fun i => (text "(null)").getD i 0
      else fun i => memory (s + BitVec.ofNat 32 i)
    let length := strnlen string (to_size c.precision) 0
    return (args, format_string output string (int32 length) c aux)
  else if ch = 'p'.toUInt8 then
    let (p, args) := va_word args
    return (args, format_integer output p.toNat false false base_x { c with flags := POUND } aux)
  else if ch = 'f'.toUInt8 then return convert_f floats output c args aux
  else
    -- the one argument of `__printf` is the `char`, sign-extended
    let words : VaList := fun _ => ch.toBitVec.signExtend 32
    if ch = 'e'.toUInt8 ∨ ch = 'E'.toUInt8 ∨ ch = 'g'.toUInt8 ∨ ch = 'G'.toUInt8
        ∨ ch = 'n'.toUInt8 then
      return (args, ← print (text "<<no %%%c in kernel>>" ++ [0]) words aux)
    else return (args, ← print (text "<<no %%%c conversion>>" ++ [0]) words aux)

/-- `__vprintf`, with the steps of its loop that it may take. -/
def vprintf : Nat → Bytes → VaList → Aux → Except PrintStop Aux
  | 0, _, _, _ => .error .out_of_fuel
  | fuel + 1, format, args, aux => do
    let ch ← char_at format
    if ch = 0 then return aux
    else if ch ≠ '%'.toUInt8 then vprintf fuel format.tail args (output ch aux)
    else
      let format := format.tail
      if (← char_at format) = '%'.toUInt8 then
        vprintf fuel format.tail args (output '%'.toUInt8 aux)
      else
        let (c, format, args) ← parse_conversion format args
        let ch ← char_at format
        let (args, aux) ← do_conversion floats memory output (vprintf fuel) ch c args aux
        vprintf fuel format.tail args aux

end Vprintf

end Berk162
