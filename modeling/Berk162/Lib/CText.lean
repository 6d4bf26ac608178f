import Berk162.Lib.Bytes
import Berk162.Lib.Substring
import Mathlib.Data.List.TakeWhile

/-!
# CText — C strings and what `string.h` and `stdio.h` do with them

A string is the bytes in front of its null.  `text` writes a literal of the source.
-/

namespace Berk162

/-- A string that C code is given: no byte of it is the null byte that ends it. -/
@[ext] structure CString where
  chars : Bytes
  no_null : 0 ∉ chars
  deriving DecidableEq

/-- The string that starts in front of a buffer. -/
def c_chars (buffer : Bytes) : Bytes := buffer.takeWhile fun c => c ≠ 0

theorem no_null_c_chars (buffer : Bytes) : 0 ∉ c_chars buffer := fun h => by
  simpa using List.mem_takeWhile_imp h

def cstr (buffer : Bytes) : CString := ⟨c_chars buffer, no_null_c_chars buffer⟩

theorem cstr_of_no_null {s : Bytes} (h : 0 ∉ s) : (cstr s).chars = s := by
  apply List.takeWhile_eq_self_iff.2
  intro c hc
  rw [decide_eq_true_iff]
  rintro rfl
  exact h hc

theorem cstr_begins (buffer : Bytes) : (cstr buffer).chars <+: buffer := List.takeWhile_prefix _

/-- A string of more memory begins with that of less. -/
theorem cstr_take (buffer : Bytes) (n : Nat) :
    (cstr (buffer.take n)).chars = (cstr buffer).chars.take n := by
  exact List.take_takeWhile.symm

/-- The bytes of an ASCII literal. -/
def text (s : String) : Bytes := s.toList.map fun c => UInt8.ofNat c.toNat

/-- `strtok_r`: the token and what `save_ptr` points to after it. -/
def strtok_r (delimiters s : Bytes) : Option Bytes × Bytes :=
  let s := s.dropWhile fun c => delimiters.contains c
  if s = [] then (none, [])
  else
    let token := s.takeWhile fun c => !delimiters.contains c
    (some token, s.drop (token.length + 1))

/-- `isspace`. -/
def isspace (c : UInt8) : Bool := (text " \x0c\n\r\t\x0b").contains c

/-- `isdigit`. -/
def isdigit (c : UInt8) : Bool := 48 ≤ c && c ≤ 57

/-- `strstr`, as the offset of what it returns. -/
def strstr (haystack needle : Bytes) : Option Nat := findFirst needle haystack

/-! ## Decimal numbers -/

/-- The digits of `n`, as `%d` writes them. -/
def decimal (n : Nat) : Bytes := (Nat.toDigits 10 n).map fun c => UInt8.ofNat c.toNat

/-- `%d`. -/
def format_d (x : Int) : Bytes := if x < 0 then 45 :: decimal x.natAbs else decimal x.natAbs

/-- What the digits at the front of a string add to the number read so far. -/
def digits_val (acc : Nat) : Bytes → Nat
  | [] => acc
  | c :: s => if isdigit c then digits_val (acc * 10 + (c.toNat - 48)) s else acc

/-- `strtol (s, NULL, 10)`, a `long` of 64 bits. -/
def strtol (s : Bytes) : Int :=
  let s := s.dropWhile isspace
  let value : Int :=
    if s.head? = some 45 then -(digits_val 0 s.tail)
    else if s.head? = some 43 then digits_val 0 s.tail
    else digits_val 0 s
  max (-2 ^ 63) (min (2 ^ 63 - 1) value)

theorem digit_byte {c : Char} (hc : c.isDigit = true) :
    48 ≤ c.toNat ∧ c.toNat ≤ 57 ∧ (UInt8.ofNat c.toNat).toNat = c.toNat ∧
      isdigit (UInt8.ofNat c.toNat) = true := by
  have hrange : 48 ≤ c.toNat ∧ c.toNat ≤ 57 := by
    simpa [Char.isDigit, UInt32.le_iff_toNat_le] using hc
  have hval : (UInt8.ofNat c.toNat).toNat = c.toNat := by
    simp
    omega
  refine ⟨hrange.1, hrange.2, hval, ?_⟩
  simp only [isdigit, Bool.and_eq_true, decide_eq_true_eq, UInt8.le_iff_toNat_le, hval]
  exact hrange

theorem isdigit_of_mem_decimal {n : Nat} {c : UInt8} (hc : c ∈ decimal n) : isdigit c = true := by
  obtain ⟨d, hd, rfl⟩ := List.mem_map.1 hc
  exact (digit_byte (Nat.isDigit_of_mem_toDigits (by decide) (by decide) hd)).2.2.2

theorem digits_val_map {l : List Char} (hl : ∀ c ∈ l, c.isDigit = true) {s : Bytes}
    (hs : ∀ c, s.head? = some c → isdigit c = false) (acc : Nat) :
    digits_val acc ((l.map fun c => UInt8.ofNat c.toNat) ++ s) = Nat.ofDigitChars 10 l acc := by
  induction l generalizing acc with
  | nil =>
      cases s with
      | nil =>
          rfl
      | cons c s =>
          simp [digits_val, hs c rfl]
  | cons c l ih =>
      obtain ⟨_, _, hval, hdigit⟩ := digit_byte (hl c List.mem_cons_self)
      have hrest := ih (fun d hd => hl d (List.mem_cons_of_mem c hd)) (acc * 10 + (c.toNat - 48))
      rw [List.map_cons, List.cons_append, digits_val, hdigit, if_pos rfl, hval, hrest,
        Nat.ofDigitChars_cons, Nat.mul_comm]
      rfl

theorem digits_val_decimal (n : Nat) {s : Bytes} (hs : ∀ c, s.head? = some c → isdigit c = false) :
    digits_val 0 (decimal n ++ s) = n := by
  have hdigits : ∀ c ∈ Nat.toDigits 10 n, c.isDigit = true := fun c hc =>
    Nat.isDigit_of_mem_toDigits (by decide) (by decide) hc
  rw [decimal, digits_val_map hdigits hs, Nat.ofDigitChars_ten_toDigits]

/-- A digit is neither a space nor a sign. -/
theorem digit_plain {c : UInt8} (hc : isdigit c = true) : isspace c = false ∧ c ≠ 45 ∧ c ≠ 43 := by
  have hother : ∀ d : UInt8, isdigit d = false → c ≠ d := by
    rintro d hd rfl
    rw [hd] at hc
    cases hc
  refine ⟨?_, hother 45 (by decide), hother 43 (by decide)⟩
  rw [isspace, ← Bool.not_eq_true, List.contains_iff_mem]
  intro hmem
  have hspaces : (text " \x0c\n\r\t\x0b").all (fun d => !isdigit d) = true := by decide
  have hplain := List.all_eq_true.1 hspaces c hmem
  rw [hc] at hplain
  cases hplain

/-- What `%d` wrote is read back, up to the first byte that is no digit. -/
theorem strtol_format_d {x : Int} (hx : -2 ^ 63 ≤ x ∧ x < 2 ^ 63) {s : Bytes}
    (hs : ∀ c, s.head? = some c → isdigit c = false) : strtol (32 :: (format_d x ++ s)) = x := by
  have hspace : isspace 32 = true := by decide
  obtain ⟨d, ds, hdecimal⟩ : ∃ d ds, decimal x.natAbs = d :: ds := by
    have hne : decimal x.natAbs ≠ [] := by
      rw [decimal, Ne, List.map_eq_nil_iff]
      exact Nat.toDigits_ne_nil
    exact List.exists_cons_of_ne_nil hne
  have hval := digits_val_decimal x.natAbs hs
  rcases Int.lt_or_le x 0 with hneg | hpos
  · have hminus : isspace 45 = false := by decide
    have hformat : format_d x = 45 :: decimal x.natAbs := by rw [format_d, if_pos hneg]
    simp only [strtol, hformat, List.dropWhile_cons, hspace, hminus, List.cons_append, if_true,
      Bool.false_eq_true, if_false, List.head?_cons, List.tail_cons, hval]
    omega
  · have hformat : format_d x = decimal x.natAbs := by rw [format_d, if_neg (by omega)]
    have hd : isdigit d = true := isdigit_of_mem_decimal (n := x.natAbs) (by rw [hdecimal]; simp)
    obtain ⟨hnospace, hnominus, hnoplus⟩ := digit_plain hd
    rw [hdecimal] at hval
    simp only [strtol, hformat, hdecimal, List.dropWhile_cons, hspace, hnospace, List.cons_append,
      if_true, Bool.false_eq_true, if_false, List.head?_cons, Option.some.injEq, hnominus, hnoplus]
    rw [← List.cons_append, hval]
    omega

end Berk162
