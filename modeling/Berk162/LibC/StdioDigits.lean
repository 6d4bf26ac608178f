import Berk162.LibC.StdioOutput
import Berk162.LibC.StdioSpecs
import Mathlib.Data.List.GetD

/-!
# StdioDigits — the number and its digits

The argument is read in the type that the length modifier names, and `format_integer` has the sign,
the radix and the digits that the specification asks for.  `written` is all that it outputs.
-/

namespace Berk162

/-! ## The number -/

theorem low_word (args : VaList) {n : Nat} (h : n ≤ 32) :
    (args 1 ++ args 0).setWidth n = (args 0).setWidth n := by
  rw [BitVec.setWidth_append, dif_pos h]

theorem toInt_size (word : BitVec 32) :
    (if (4294967295 / 2 : BitVec 64).slt (word.setWidth 64) then
      word.setWidth 64 - 4294967295 - 1 else word.setWidth 64 : BitVec 64).toInt = word.toInt := by
  have hlt := word.isLt
  have hwide : (word.setWidth 64 : BitVec 64).toNat = word.toNat := by
    rw [BitVec.toNat_setWidth]
    omega
  have hhalf : (4294967295 / 2 : BitVec 64).slt (word.setWidth 64) = true ↔
      2 ^ 31 ≤ word.toNat := by
    rw [BitVec.slt_iff_toInt_lt, BitVec.toInt_eq_toNat_cond (word.setWidth 64), hwide,
      if_pos (by omega), show (4294967295 / 2 : BitVec 64).toInt = 2147483647 from rfl]
    omega
  rw [BitVec.toInt_eq_toNat_cond word]
  by_cases h : 2 ^ 31 ≤ word.toNat
  · rw [if_pos (hhalf.2 h), BitVec.toInt_eq_toNat_cond, BitVec.toNat_sub, BitVec.toNat_sub, hwide]
    rw [show (4294967295 : BitVec 64).toNat = 4294967295 from rfl,
      show (1 : BitVec 64).toNat = 1 from rfl]
    split <;> split <;> omega
  · rw [if_neg (mt hhalf.1 h), BitVec.toInt_eq_toNat_cond, hwide]
    split <;> split <;> omega

theorem signed_value_spec (type : ArgType) (args : VaList) :
    (signed_value type args).2 = (fun i => args (i + type.words)) ∧
      (signed_value type args).1.toInt = ((args 1 ++ args 0).setWidth type.bits).toInt := by
  cases type with
  | INTMAX | LONGLONG =>
      exact ⟨rfl, by rw [ArgType.bits, BitVec.setWidth_eq]; rfl⟩
  | SIZET =>
      refine ⟨rfl, ?_⟩
      rw [ArgType.bits, low_word args (Nat.le_refl 32), BitVec.setWidth_eq]
      exact toInt_size (args 0)
  | CHAR | SHORT =>
      refine ⟨rfl, ?_⟩
      rw [ArgType.bits, low_word args (by decide)]
      exact BitVec.toInt_signExtend_of_le (by decide)
  | INT | LONG | PTRDIFFT =>
      refine ⟨rfl, ?_⟩
      rw [ArgType.bits, low_word args (Nat.le_refl 32), BitVec.setWidth_eq]
      exact BitVec.toInt_signExtend_of_le (by decide)

theorem toNat_magnitude (v : BitVec 64) : (magnitude v).toNat = v.toInt.natAbs := by
  have hlt := v.isLt
  have hint := BitVec.toInt_eq_toNat_cond v
  rw [magnitude, BitVec.slt, show (0 : BitVec 64).toInt = 0 from rfl]
  by_cases h : v.toInt < 0
  · rw [if_pos (decide_eq_true h), BitVec.toNat_neg]
    split at hint <;> omega
  · rw [if_neg (by rwa [decide_eq_true_iff])]
    split at hint <;> omega

theorem unsigned_value_spec (type : ArgType) (args : VaList) :
    (unsigned_value type args).2 = (fun i => args (i + type.words)) ∧
      (unsigned_value type args).1 = ((args 1 ++ args 0).setWidth type.bits).toNat := by
  cases type with
  | INTMAX | LONGLONG =>
      exact ⟨rfl, by rw [ArgType.bits, BitVec.setWidth_eq]; rfl⟩
  | PTRDIFFT =>
      refine ⟨rfl, ?_⟩
      rw [ArgType.bits, low_word args (Nat.le_refl 32), BitVec.setWidth_eq]
      have hmask : (BitVec.ofNat 64 2147483647 <<< 1 ||| 1).toNat = 2 ^ 32 - 1 := by decide
      simp only [unsigned_value, va_word]
      rw [BitVec.toNat_and, hmask, Nat.and_two_pow_sub_one_eq_mod, BitVec.toNat_signExtend]
      rw [BitVec.toNat_setWidth]
      have hlt := (args 0).isLt
      split <;> omega
  | CHAR | SHORT | INT | LONG | SIZET =>
      refine ⟨rfl, ?_⟩
      rw [ArgType.bits, low_word args (by decide)]
      rfl

theorem do_conversion_integer {Aux : Type} (floats : FloatConversions) (memory : BitVec 32 → UInt8)
    (output : UInt8 → Aux → Aux) (print : Bytes → VaList → Aux → Except PrintStop Aux)
    (conversion : IntegerConversion) (c : PrintfConversion) (args : VaList) (aux : Aux) :
    do_conversion floats memory output print conversion.char c args aux =
      .ok (if conversion.signed then
        ((signed_value c.type args).2, format_integer output
          (magnitude (signed_value c.type args).1).toNat true ((signed_value c.type args).1.slt 0)
          conversion.base c aux)
      else
        ((unsigned_value c.type args).2, format_integer output (unsigned_value c.type args).1 false
          false conversion.base c aux)) := by
  cases conversion <;> rfl

namespace IntegerSpec

variable (s : IntegerSpec) (args : VaList)

/-- What the code writes for the specification. -/
def written : Bytes :=
  integer_text (s.value args).natAbs s.conversion.signed (decide (s.value args < 0))
    s.conversion.base (s.parsed args)

theorem do_conversion_eq {Aux : Type} (floats : FloatConversions) (memory : BitVec 32 → UInt8)
    (output : UInt8 → Aux → Aux) (print : Bytes → VaList → Aux → Except PrintStop Aux) (aux : Aux) :
    do_conversion floats memory output print s.conversion.char (s.parsed args) (s.value_args args)
      aux = .ok (s.rest args, output_all output (s.written args) aux) := by
  have hrest : s.rest args = fun i => s.value_args args (i + s.type.words) := rfl
  have htype : (s.parsed args).type = s.type := rfl
  obtain ⟨hsnext, hsval⟩ := signed_value_spec s.type (s.value_args args)
  obtain ⟨hunext, huval⟩ := unsigned_value_spec s.type (s.value_args args)
  rw [do_conversion_integer, written, value, htype, hrest]
  cases s.conversion.signed with
  | false =>
      simp only [Bool.false_eq_true, if_false, format_integer_eq, hunext, huval, Int.natAbs_natCast]
      rfl
  | true =>
      simp only [if_true, format_integer_eq, hsnext, ← hsval, toNat_magnitude]
      rfl

/-- One round of the loop. -/
theorem vprintf_written {Aux : Type} (floats : FloatConversions) (memory : BitVec 32 → UInt8)
    (output : UInt8 → Aux → Aux) (hp : ∀ p ∈ s.precision_value args, p ≤ 63) (fuel : Nat)
    (format : Bytes) (aux : Aux) :
    vprintf floats memory output (fuel + 1) (s.chars ++ format) args aux =
      vprintf floats memory output fuel format (s.rest args)
        (output_all output (s.written args) aux) := by
  have hpercent : ('%'.toUInt8 : UInt8) ≠ 0 := by decide
  have hchars : s.chars ++ format =
      '%'.toUInt8 :: (s.flags ++ (s.width.chars ++ s.behind_width format)) := by
    simp only [chars, behind_width, List.cons_append, List.append_assoc, List.nil_append]
  obtain ⟨ch, t, ht, hch⟩ := s.begins_flags format
  have hparse := parse_conversion_spec hp format
  rw [ht] at hparse
  rw [hchars, ht, vprintf]
  simp only [char_at_cons, bind, Except.bind, List.tail_cons, hparse, s.do_conversion_eq]
  rw [if_neg hpercent, if_neg (not_not_intro rfl), if_neg hch]

end IntegerSpec

/-! ## The digits -/

theorem put_digits_eq (b : IntegerBase) (group : Bool) (value i : Nat) (buf : Bytes) :
    put_digits b group value i buf =
      buf ++ if group then separated b.group i (b.digits_of value) else b.digits_of value := by
  induction value using Nat.strong_induction_on generalizing i buf with
  | _ value ih =>
      have hbase := b.base_ge
      rw [put_digits, IntegerBase.digits_of]
      by_cases hpos : 0 < value
      · rw [if_pos hpos, ih _ (Nat.div_lt_self hpos (by omega)),
          Nat.digits_def' (by omega) hpos, List.map_cons, ← IntegerBase.digits_of, separated]
        cases group with
        | false =>
            simp
        | true =>
            by_cases hi : 0 < i ∧ i % b.group = 0
            · simp [hi]
            · simp only [Bool.true_and, Bool.and_eq_true, decide_eq_true_iff, if_neg hi, if_true,
                List.append_assoc, List.singleton_append]
      · have hzero : value = 0 := by omega
        subst hzero
        rw [if_neg hpos, Nat.digits_zero]
        cases group <;> exact (List.append_nil buf).symm

theorem put_zeros_eq {precision : Int} (hp : precision ≤ 63) (buf : Bytes) :
    put_zeros precision buf =
      buf ++ List.replicate (precision.toNat - buf.length) '0'.toUInt8 := by
  fun_induction put_zeros precision buf with
  | case1 buf hfree ih =>
      have hcnt : precision.toNat - buf.length =
          (precision.toNat - (buf ++ ['0'.toUInt8]).length) + 1 := by
        rw [List.length_append, List.length_singleton]
        omega
      rw [ih, hcnt, List.replicate_succ, List.append_assoc, List.singleton_append]
  | case2 buf hfull =>
      have hcnt : precision.toNat - buf.length = 0 := by omega
      rw [hcnt, List.replicate_zero, List.append_nil]

theorem length_separated (group i : Nat) (ds : Bytes) :
    ds.length ≤ (separated group i ds).length := by
  induction ds generalizing i with
  | nil =>
      exact Nat.zero_le _
  | cons ch ds ih =>
      have hrest := ih (i + 1)
      rw [separated]
      split <;> simp only [List.length_cons] <;> omega

theorem not_mem_separated {c : UInt8} (hc : c ≠ ','.toUInt8) {group : Nat} {ds : Bytes} (i : Nat)
    (h : c ∉ ds) : c ∉ separated group i ds := by
  induction ds generalizing i with
  | nil =>
      exact h
  | cons ch ds ih =>
      rw [List.mem_cons, not_or] at h
      have hrest := ih (i + 1) h.2
      rw [separated]
      split <;> simp [hc, h.1, hrest]

namespace IntegerSpec

variable {s : IntegerSpec} {args : VaList}

theorem integer_buf_eq (hb : s.Buffered args) :
    integer_buf (s.value args).natAbs s.conversion.base (s.parsed args) = s.low_digits args := by
  have hgroup : (s.parsed args).has GROUP = s.flag '\'' := flag_bits_group
  have hpound : (s.parsed args).has POUND = s.flag '#' := flag_bits_pound
  have hbase : s.conversion.base.base = 8 ↔ s.conversion = .o := by
    cases s.conversion <;> decide
  have hprec : (if (s.parsed args).precision < 0 then 1 else (s.parsed args).precision) =
      ((s.precision_value args).getD 1 : Nat) := by
    rw [parsed]
    cases s.precision_value args with
    | none => rfl
    | some p => exact if_neg (by simp)
  have hle : (((s.precision_value args).getD 1 : Nat) : Int) ≤ 63 := by
    cases hsome : s.precision_value args with
    | none => decide
    | some p => exact_mod_cast hb.precision_le p hsome
  rw [integer_buf, low_digits]
  simp only [hgroup, hpound, hprec, put_digits_eq, put_zeros_eq hle, List.nil_append,
    Int.toNat_natCast]
  generalize s.conversion.base.digits_of (s.value args).natAbs = ds
  -- separators come only without a precision, and then at most the zero of the number 0 is missing
  have hcnt : (s.precision_value args).getD 1 -
      (if s.flag '\'' then separated s.conversion.base.group 0 ds else ds).length =
        (s.precision_value args).getD 1 - ds.length := by
    cases hflag : s.flag '\'' with
    | false =>
        rfl
    | true =>
        have hlong := length_separated s.conversion.base.group 0 ds
        rw [hb.group_alone hflag, Option.getD_none, if_pos rfl]
        cases ds with
        | nil =>
            rfl
        | cons ch ds =>
            rw [List.length_cons] at hlong ⊢
            omega
  rw [hcnt]
  simp only [Bool.and_eq_true, decide_eq_true_iff, hbase, and_assoc]

theorem value_lt (s : IntegerSpec) (args : VaList) : (s.value args).natAbs < 2 ^ 64 := by
  have hbits : s.type.bits ≤ 64 := by
    cases s.type <;> decide
  have hpow : 2 ^ s.type.bits ≤ 2 ^ 64 := Nat.pow_le_pow_right (by decide) hbits
  rw [value]
  generalize (s.value_args args 1 ++ s.value_args args 0).setWidth s.type.bits = word
  have hlt := word.isLt
  have hint := BitVec.toInt_eq_toNat_cond word
  split
  · split at hint <;> omega
  · omega

theorem length_digits_le (hb : s.Buffered args) :
    (s.digits args).length ≤ 64 := by
  rw [digits, List.length_reverse, ← integer_buf_eq hb]
  exact integer_buf_fits (s.value_lt args) _ _

theorem space_not_mem_digits (s : IntegerSpec) (args : VaList) : ' '.toUInt8 ∉ s.digits args := by
  have hdigits : ' '.toUInt8 ∉ s.conversion.base.digits_of (s.value args).natAbs := by
    intro hmem
    obtain ⟨d, _, hd⟩ := List.mem_map.1 hmem
    have hbase : ' '.toUInt8 ∉ s.conversion.base.digits := by
      cases s.conversion <;> decide
    by_cases hlt : d < s.conversion.base.digits.length
    · rw [List.getD_eq_getElem _ _ hlt] at hd
      exact hbase (hd ▸ List.getElem_mem hlt)
    · rw [List.getD_eq_default _ _ (Nat.le_of_not_lt hlt)] at hd
      exact absurd hd (by decide)
  have hseparated := @not_mem_separated ' '.toUInt8 (by decide) s.conversion.base.group _ 0 hdigits
  have hzero : ' '.toUInt8 ≠ '0'.toUInt8 := by decide
  rw [digits, List.mem_reverse, low_digits]
  split_ifs <;> simp [hdigits, hseparated, hzero]

/-- Without a precision even 0 has a digit. -/
theorem digits_ne_nil (h : s.precision_value args = none) : s.digits args ≠ [] := by
  rw [digits, Ne, List.reverse_eq_nil_iff, low_digits, h]
  generalize s.conversion.base.digits_of (s.value args).natAbs = ds
  have hlong := length_separated s.conversion.base.group 0 ds
  intro hnil
  replace hnil := congrArg List.length hnil
  simp only [Option.getD_none] at hnil
  split_ifs at hnil <;> simp only [List.length_append, List.length_replicate, List.length_nil,
    List.length_singleton] at hnil <;> omega

/-! ## Sign and radix -/

theorem integer_head_eq (s : IntegerSpec) (args : VaList) :
    integer_head (integer_sign s.conversion.signed (decide (s.value args < 0)) (s.parsed args))
      (integer_x (s.value args).natAbs s.conversion.base (s.parsed args)) = s.head args := by
  have hplus : (s.parsed args).has PLUS = s.flag '+' := flag_bits_plus
  have hspace : (s.parsed args).has SPACE = (s.flag ' ' && !s.flag '+') := flag_bits_space
  have hpound : (s.parsed args).has POUND = s.flag '#' := flag_bits_pound
  have hzero : (s.value args).natAbs ≠ 0 ↔ s.value args ≠ 0 := not_congr Int.natAbs_eq_zero
  have hsign : (if integer_sign s.conversion.signed (decide (s.value args < 0)) (s.parsed args) ≠ 0
      then [integer_sign s.conversion.signed (decide (s.value args < 0)) (s.parsed args)] else []) =
        s.sign args := by
    rw [integer_sign, hplus, hspace, sign]
    by_cases hneg : s.value args < 0
    · simp only [hneg, decide_true, if_true]
      cases s.conversion.signed <;> cases s.flag '+' <;> cases s.flag ' ' <;> rfl
    · simp only [hneg, decide_false, if_false]
      cases s.conversion.signed <;> cases s.flag '+' <;> cases s.flag ' ' <;> rfl
  have hradix : (if integer_x (s.value args).natAbs s.conversion.base (s.parsed args) ≠ 0 then
      ['0'.toUInt8, integer_x (s.value args).natAbs s.conversion.base (s.parsed args)] else []) =
        s.radix args := by
    have hx : integer_x (s.value args).natAbs s.conversion.base (s.parsed args) =
        if s.flag '#' = true ∧ s.value args ≠ 0 then s.conversion.base.x else 0 := by
      rw [integer_x, hpound]
      simp only [Bool.and_eq_true, decide_eq_true_iff, hzero]
    rw [hx, radix]
    split
    · cases s.conversion <;> rfl
    · rfl
  rw [integer_head, hsign, hradix, head]

end IntegerSpec

end Berk162
