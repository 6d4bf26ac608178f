import Berk162.LibC.StdioDigits
import Berk162.Threads.Options

/-!
# StdioIntegers — what the integer conversions write

`written` is padded as the flags after `parse_conversion` say, `rendering` as those of the
specification.  `OneSided` says when that is the same.
-/

namespace Berk162

/-! ## Padding -/

/-- The two parts with their padding, which both flags together put on both sides. -/
def padded (minus zero : Bool) (pad : Nat) (head digits : Bytes) : Bytes :=
  (if minus || zero then [] else List.replicate pad ' '.toUInt8) ++ head ++
    (if zero then List.replicate pad '0'.toUInt8 else []) ++ digits ++
    if minus then List.replicate pad ' '.toUInt8 else []

section Padding

variable {minus zero : Bool} {pad : Nat} {head digits : Bytes}

theorem padded_zero : padded minus zero 0 head digits = head ++ digits := by
  cases minus <;> cases zero <;> simp [padded]

theorem length_padded : (padded minus zero pad head digits).length =
    (head ++ digits).length + if minus && zero then 2 * pad else pad := by
  cases minus <;> cases zero <;> simp [padded] <;> omega

/-- The padding on the right is the one that adds spaces in front of nothing. -/
theorem count_space_padded (h : ' '.toUInt8 ∉ digits) :
    (padded minus true pad head digits).count ' '.toUInt8 =
      head.count ' '.toUInt8 + if minus then pad else 0 := by
  have hdigits := List.count_eq_zero_of_not_mem h
  have hzero : ('0'.toUInt8 == ' '.toUInt8) = false := by decide
  cases minus <;> simp [padded, List.count_append, List.count_replicate, hdigits, hzero]

/-- Text and padding commute only where they cannot be told apart. -/
theorem spaces_comm_iff {body : Bytes} (hlen : body.length ≤ pad) :
    body ++ List.replicate pad ' '.toUInt8 = List.replicate pad ' '.toUInt8 ++ body ↔
      ∀ ch ∈ body, ch = ' '.toUInt8 := by
  constructor
  · intro h ch hch
    have hbody : body <+: List.replicate pad ' '.toUInt8 ++ body := ⟨_, h⟩
    have hspaces := List.prefix_of_prefix_length_le hbody (List.prefix_append _ _)
      (by rwa [List.length_replicate])
    exact List.eq_of_mem_replicate (hspaces.mem hch)
  · intro h
    rw [List.eq_replicate_iff.2 ⟨rfl, h⟩, List.replicate_append_replicate,
      List.replicate_append_replicate, Nat.add_comm]

/-- `pad_cnt` of `format_integer` for the width `w` and `len` other characters. -/
def pad_count (w : Int) (len : Nat) : Nat :=
  (int32 ((if int32 w < 0 then int32 (-int32 w) else int32 w) - len)).toNat

variable {w : Int} {len : Nat}

theorem pad_count_of_lt (h : w.natAbs < 2 ^ 31) (hlen : len < 2 ^ 31) :
    pad_count w len = w.natAbs - len := by
  rw [pad_count, @int32_eq w (by omega) (by omega)]
  split
  · rw [@int32_eq (-w) (by omega) (by omega), int32_eq (by omega) (by omega)]
    omega
  · rw [int32_eq (by omega) (by omega)]
    omega

/-- The negation of the least `int` overflows, and so does the difference. -/
theorem pad_count_of_eq (h : w.natAbs = 2 ^ 31) (hlen : len < 2 ^ 31) :
    int32 w < 0 ∧ pad_count w len = if len = 0 then 0 else 2 ^ 31 - len := by
  have hw : int32 w = -2 ^ 31 := by
    unfold int32
    omega
  refine ⟨by omega, ?_⟩
  have hneg : int32 (- -2 ^ 31) = -2 ^ 31 := by decide
  rw [pad_count, hw, if_pos (by omega), hneg]
  unfold int32
  split <;> omega

/-- A width that is no `int` is cut, so the field is too narrow. -/
theorem pad_count_le (hlen : len < 2 ^ 31) :
    pad_count w len = 0 ∨ len + pad_count w len ≤ 2 ^ 31 := by
  have hwidth : ∀ x, -2 ^ 31 ≤ x → x < 2 ^ 31 → 0 ≤ (if x < 0 then int32 (-x) else x) ∨
      (if x < 0 then int32 (-x) else x) = -2 ^ 31 := by
    intro x hlo hhi
    unfold int32
    split <;> omega
  have hcut := hwidth (int32 w) (by unfold int32; omega) (by unfold int32; omega)
  have hlt : (if int32 w < 0 then int32 (-int32 w) else int32 w) < 2 ^ 31 := by
    unfold int32
    split <;> omega
  rw [pad_count]
  generalize (if int32 w < 0 then int32 (-int32 w) else int32 w) = x at hcut hlt ⊢
  unfold int32
  omega

end Padding

namespace IntegerSpec

variable {s : IntegerSpec} {args : VaList}

/-- `parse_conversion` leaves both the `-` flag and the `0` flag. -/
def BothFlags (s : IntegerSpec) (args : VaList) : Prop :=
  s.flag '0' = true ∧ s.flag '-' = false ∧ s.width_value args < 0 ∧ s.precision_value args = none

/-- There is nothing to pad where both flags are left, and the width is an `int`.  Where the
negation of the least `int` overflows, the difference to the length of the text overflows as well,
which is why the width `2 ^ 31` can come out right. -/
def OneSided (s : IntegerSpec) (args : VaList) : Prop :=
  ¬ (s.BothFlags args ∧ (s.body args).length < (s.width_value args).natAbs) ∧
  ((s.width_value args).natAbs < 2 ^ 31 ∨ (s.width_value args).natAbs = 2 ^ 31 ∧
    s.body args ≠ [] ∧ (s.left args = true ∨ ∀ ch ∈ s.body args, ch = ' '.toUInt8))

theorem rendering_eq (s : IntegerSpec) (args : VaList) :
    s.rendering args = padded (s.left args) (s.zero args && !s.left args)
      ((s.width_value args).natAbs - (s.body args).length) (s.head args) (s.digits args) := by
  rw [rendering, body]
  cases s.left args <;> cases s.zero args <;> simp [padded]

/-- Both flags are set together where the width is negative and only the `0` flag is given. -/
theorem written_eq (hb : s.Buffered args) :
    s.written args = padded (s.flag '-' || decide (int32 (s.width_value args) < 0))
      (s.zero args && !s.flag '-') (pad_count (s.width_value args) (s.body args).length)
      (s.head args) (s.digits args) := by
  have hminus : (s.parsed args).has MINUS =
      (s.flag '-' || decide (int32 (s.width_value args) < 0)) := flag_bits_minus
  have hzero : (s.parsed args).has ZERO = (s.zero args && !s.flag '-') := by
    rw [zero, Bool.and_right_comm]
    exact flag_bits_zero
  have hboth : (s.parsed args).has (MINUS ||| ZERO) =
      ((s.flag '-' || decide (int32 (s.width_value args) < 0)) ||
        (s.zero args && !s.flag '-')) := by
    rw [zero, Bool.and_right_comm]
    exact flag_bits_padded
  have hlen : (s.head args).length + (s.low_digits args).length = (s.body args).length := by
    rw [body, digits, List.length_append, List.length_reverse]
  rw [written, integer_text, integer_head_eq, integer_buf_eq hb]
  simp only [pad_text, hboth, hminus, hzero, hlen]
  rfl

theorem length_body_lt (hb : s.Buffered args) : (s.body args).length < 68 := by
  have hdigits := length_digits_le hb
  have hsign : (s.sign args).length ≤ 1 := by
    rw [sign]
    split_ifs <;> simp
  have hradix : (s.radix args).length ≤ 2 := by
    rw [radix]
    split_ifs
    · cases s.conversion <;> decide
    · decide
  rw [body, head, List.length_append, List.length_append]
  omega

/-- The width counts every character of the text. -/
theorem length_rendering (s : IntegerSpec) (args : VaList) :
    (s.rendering args).length = max (s.body args).length (s.width_value args).natAbs := by
  rw [rendering_eq, length_padded, if_neg (by cases s.left args <;> simp), ← body]
  omega

theorem zero_eq_of_not_both (h : ¬ s.BothFlags args) :
    (s.zero args && !s.flag '-') = (s.zero args && !s.left args) := by
  rw [left]
  cases hminus : s.flag '-' with
  | true =>
      rfl
  | false =>
      cases hzero : s.zero args with
      | false =>
          rfl
      | true =>
          rw [zero, Bool.and_eq_true, Option.isNone_iff_eq_none] at hzero
          have hpos : ¬ s.width_value args < 0 := fun hneg => h ⟨hzero.1, hminus, hneg, hzero.2⟩
          rw [decide_eq_false hpos]
          rfl

/-- Zeros and spaces are as many as one of them should be. -/
theorem written_of_both (hb : s.Buffered args) (h : s.BothFlags args) :
    s.written args = s.rendering args ↔ (s.width_value args).natAbs ≤ (s.body args).length := by
  obtain ⟨hflag, hminus, hneg, hnone⟩ := h
  have hlen := length_body_lt hb
  have hlow := s.width.le_value args
  rw [← width_value] at hlow
  have hpos : (s.body args).length ≠ 0 := by
    have hdigits := List.length_pos_iff.2 (digits_ne_nil hnone)
    rw [body, List.length_append]
    omega
  have hpad : int32 (s.width_value args) < 0 ∧
      pad_count (s.width_value args) (s.body args).length =
        (s.width_value args).natAbs - (s.body args).length := by
    rcases Nat.lt_or_ge (s.width_value args).natAbs (2 ^ 31) with hlt | hge
    · rw [int32_eq (by omega) (by omega)]
      exact ⟨hneg, pad_count_of_lt hlt (by omega)⟩
    · have heq := @pad_count_of_eq _ (s.body args).length
        (show (s.width_value args).natAbs = 2 ^ 31 by omega) (by omega)
      rw [if_neg hpos] at heq
      omega
  have hwritten : s.written args = padded true true
      ((s.width_value args).natAbs - (s.body args).length) (s.head args) (s.digits args) := by
    rw [written_eq hb, hpad.2, decide_eq_true hpad.1, zero, hflag, hnone, hminus]
    rfl
  have hrendering : s.rendering args = padded true false
      ((s.width_value args).natAbs - (s.body args).length) (s.head args) (s.digits args) := by
    rw [rendering_eq, left, decide_eq_true hneg, Bool.or_true, Bool.not_true, Bool.and_false]
  constructor
  · intro h
    have hlength := congrArg List.length h
    rw [length_rendering, hwritten, length_padded, ← body] at hlength
    simp only [Bool.and_self, if_true] at hlength
    omega
  · intro h
    rw [hwritten, hrendering, Nat.sub_eq_zero_of_le h, padded_zero, padded_zero]

theorem written_of_int (hb : s.Buffered args) (h : ¬ s.BothFlags args)
    (hw : (s.width_value args).natAbs < 2 ^ 31) : s.written args = s.rendering args := by
  have hlen := length_body_lt hb
  rw [written_eq hb, rendering_eq, zero_eq_of_not_both h, pad_count_of_lt hw (by omega),
    int32_eq (by omega) (by omega), ← left]

/-- The width `2 ^ 31` is read as a negative one. -/
theorem written_of_least (hb : s.Buffered args) (h : ¬ s.BothFlags args)
    (hw : (s.width_value args).natAbs = 2 ^ 31) : s.written args = s.rendering args ↔
      s.body args ≠ [] ∧ (s.left args = true ∨ ∀ ch ∈ s.body args, ch = ' '.toUInt8) := by
  have hlen := length_body_lt hb
  obtain ⟨hneg, hpad⟩ := @pad_count_of_eq _ (s.body args).length hw (by omega)
  have hwritten := written_eq hb
  rw [decide_eq_true hneg, Bool.or_true, zero_eq_of_not_both h, hpad] at hwritten
  by_cases hempty : s.body args = []
  · have hlength := congrArg List.length hwritten
    rw [length_padded, ← body, hempty, List.length_nil, if_pos rfl] at hlength
    have hrendering := s.length_rendering args
    rw [hempty, List.length_nil, hw] at hrendering
    refine iff_of_false (fun heq => ?_) (fun hright => hright.1 hempty)
    rw [heq, hrendering] at hlength
    simp at hlength
  have hpos : (s.body args).length ≠ 0 := mt List.length_eq_zero_iff.1 hempty
  rw [if_neg hpos] at hwritten
  rw [rendering_eq, hwritten, hw]
  cases hleft : s.left args with
  | true =>
      exact iff_of_true rfl ⟨hempty, .inl rfl⟩
  | false =>
      cases hzero : s.zero args with
      | true =>
          -- without a precision there is a digit
          rw [zero, Bool.and_eq_true, Option.isNone_iff_eq_none] at hzero
          obtain ⟨ch, ds, hdigits⟩ := List.exists_cons_of_ne_nil (digits_ne_nil hzero.2)
          have hch : ch ∈ s.digits args := hdigits ▸ List.mem_cons_self
          refine iff_of_false (fun heq => ?_) ?_
          · have hlength := congrArg List.length heq
            rw [length_padded, length_padded, ← body] at hlength
            simp only [Bool.not_false, Bool.and_self, Bool.false_and, if_true, Bool.false_eq_true,
              if_false] at hlength
            omega
          · rintro ⟨_, hfalse | hspaces⟩
            · cases hfalse
            · have hspace := hspaces ch (List.mem_append_right _ hch)
              exact s.space_not_mem_digits args (hspace ▸ hch)
      | false =>
          have hcomm := @spaces_comm_iff (2 ^ 31 - (s.body args).length) (s.body args) (by omega)
          have hside : s.body args ≠ [] ∧ (false = true ∨ ∀ ch ∈ s.body args, ch = ' '.toUInt8) ↔
              ∀ ch ∈ s.body args, ch = ' '.toUInt8 := by
            simp [hempty]
          rw [hside, ← hcomm, body]
          simp [padded]

theorem written_of_wide (hb : s.Buffered args)
    (hw : 2 ^ 31 < (s.width_value args).natAbs) : s.written args ≠ s.rendering args := by
  intro heq
  have hlen := length_body_lt hb
  have hlow := s.width.le_value args
  rw [← width_value] at hlow
  have hpad := @pad_count_le (s.width_value args) (s.body args).length (by omega)
  have hwritten := written_eq hb
  have hlength := congrArg List.length hwritten
  rw [heq, length_rendering, length_padded, ← body] at hlength
  by_cases hzero : (s.zero args && !s.flag '-') = true
  · rw [hzero] at hwritten
    rw [hzero, Bool.and_true] at hlength
    rw [Bool.and_eq_true, Bool.not_eq_true'] at hzero
    have hright : s.left args = false := by
      rw [left, hzero.2, decide_eq_false (by omega)]
      rfl
    -- the spaces tell the sides apart
    have hspaces := congrArg (List.count ' '.toUInt8) hwritten
    rw [heq, rendering_eq, hright, hzero.1, Bool.not_false, Bool.and_self,
      count_space_padded (s.space_not_mem_digits args),
      count_space_padded (s.space_not_mem_digits args)] at hspaces
    split_ifs at hlength hspaces <;> omega
  · rw [Bool.not_eq_true] at hzero
    rw [hzero, Bool.and_false, if_neg (by decide)] at hlength
    omega

theorem written_eq_rendering_iff (hb : s.Buffered args) :
    s.written args = s.rendering args ↔ s.OneSided args := by
  have hlen := length_body_lt hb
  have hlow := s.width.le_value args
  rw [← width_value] at hlow
  rw [OneSided]
  by_cases hboth : s.BothFlags args
  · rw [written_of_both hb hboth, ← Nat.not_lt]
    refine ⟨fun hle => ⟨fun h => hle h.2, .inl (by omega)⟩, fun h hlt => h.1 ⟨hboth, hlt⟩⟩
  · rw [and_iff_right (fun h => hboth h.1)]
    rcases Nat.lt_trichotomy (s.width_value args).natAbs (2 ^ 31) with hlt | heq | hgt
    · exact iff_of_true (written_of_int hb hboth hlt) (.inl hlt)
    · rw [written_of_least hb hboth heq]
      exact ⟨fun h => .inr ⟨heq, h⟩, fun h => (h.resolve_left (by omega)).2⟩
    · exact iff_of_false (written_of_wide hb hgt) (by omega)

end IntegerSpec

/-! ## The conversions -/

/-- The conversion outputs the rendering, whatever `output` does, and goes on behind it. -/
def IntegerSpec.Renders (s : IntegerSpec) (args : VaList) : Prop :=
  ∀ (floats : FloatConversions) (memory : BitVec 32 → UInt8) (Aux : Type)
    (output : UInt8 → Aux → Aux) (fuel : Nat) (format : Bytes) (aux : Aux),
      vprintf floats memory output (fuel + 1) (s.chars ++ format) args aux =
        vprintf floats memory output fuel format (s.rest args)
          (output_all output (s.rendering args) aux)

theorem IntegerSpec.renders_iff {s : IntegerSpec} {args : VaList} (hb : s.Buffered args) :
    s.Renders args ↔ s.OneSided args := by
  rw [← written_eq_rendering_iff hb]
  constructor
  · intro h
    have hround := h ⟨fun _ => 0, fun _ _ _ => 0, fun _ => false⟩ (fun _ => 0) Bytes
      (fun ch out => out ++ [ch]) 1 [0] []
    rw [s.vprintf_written args _ _ _ hb.precision_le, vprintf_nil, vprintf_nil,
      output_all_collect, output_all_collect] at hround
    simpa using hround
  · intro h floats memory Aux output fuel format aux
    rw [s.vprintf_written args _ _ _ hb.precision_le, h]

/-! ## Reading `%d` back -/

theorem isdigit_of_mem_digits_of {n : Nat} {ch : UInt8} (h : ch ∈ base_d.digits_of n) :
    isdigit ch = true := by
  obtain ⟨d, hd, rfl⟩ := List.mem_map.1 h
  have hlt : d < 10 := Nat.digits_lt_base (by decide) hd
  clear h hd
  decide +revert

theorem digits_val_concat {ds : Bytes} (hds : ∀ ch ∈ ds, isdigit ch = true) {ch : UInt8}
    (hch : isdigit ch = true) (acc : Nat) :
    digits_val acc (ds ++ [ch]) = digits_val acc ds * 10 + (ch.toNat - 48) := by
  induction ds generalizing acc with
  | nil =>
      simp [digits_val, hch]
  | cons d ds ih =>
      have hd := hds d List.mem_cons_self
      rw [List.cons_append, digits_val, if_pos hd, digits_val, if_pos hd]
      exact ih (fun c hc => hds c (List.mem_cons_of_mem d hc)) _

theorem digits_val_digits_of (n : Nat) : digits_val 0 (base_d.digits_of n).reverse = n := by
  induction n using Nat.strong_induction_on with
  | _ n ih =>
      rw [IntegerBase.digits_of]
      by_cases hpos : 0 < n
      · have hdigit : ∀ d < 10, isdigit (base_d.digits.getD d 0) = true ∧
            (base_d.digits.getD d 0).toNat - 48 = d := by decide
        have hmod : n % 10 < 10 := Nat.mod_lt n (by decide)
        have hrest := ih (n / 10) (Nat.div_lt_self hpos (by decide))
        have hbase : base_d.base = 10 := rfl
        rw [hbase, Nat.digits_def' (by decide) hpos, List.map_cons, List.reverse_cons]
        rw [IntegerBase.digits_of, hbase] at hrest
        rw [digits_val_concat _ (hdigit _ hmod).1, hrest, (hdigit _ hmod).2]
        · omega
        · intro ch hch
          exact isdigit_of_mem_digits_of (List.mem_reverse.1 hch)
      · have hzero : n = 0 := by omega
        subst hzero
        rfl

/-- The loop of `atoi` has the negated number. -/
theorem atoi_digits_eq {ds : Bytes} (hds : ∀ ch ∈ ds, isdigit ch = true) (n : Nat) :
    atoi_digits (-UInt32.ofNat n) ds = -UInt32.ofNat (digits_val n ds) := by
  induction ds generalizing n with
  | nil =>
      rfl
  | cons ch ds ih =>
      have hch := hds ch List.mem_cons_self
      have hge : (48 : UInt8) ≤ ch := by
        rw [isdigit, Bool.and_eq_true, decide_eq_true_iff] at hch
        exact hch.1
      have hval : (ch - 48).toUInt32 = UInt32.ofNat (ch.toNat - 48) := by
        have hlt := ch.toNat_lt
        apply UInt32.toNat_inj.1
        rw [UInt8.toNat_toUInt32, UInt8.toNat_sub_of_le _ _ hge, UInt32.toNat_ofNat',
          Nat.mod_eq_of_lt (by omega)]
        rfl
      have hstep : -UInt32.ofNat n * 10 - (ch - 48).toUInt32 =
          -UInt32.ofNat (n * 10 + (ch.toNat - 48)) := by
        rw [hval, UInt32.ofNat_add, UInt32.ofNat_mul]
        grind
      rw [atoi_digits, if_pos hch, hstep, digits_val, if_pos hch]
      exact ih (fun c hc => hds c (List.mem_cons_of_mem ch hc)) _

/-- `%d` -/
def plain_d : IntegerSpec where
  flags := []
  width := .digits [] (by simp)
  precision := none
  type := .INT
  conversion := .d
  flags_only := by simp
  width_first := by decide

theorem value_plain_d (args : VaList) : plain_d.value args = (args 0).toInt := by
  have hword : plain_d.value args = ((args 1 ++ args 0).setWidth 32).toInt := rfl
  rw [hword, low_word args (Nat.le_refl 32), BitVec.setWidth_eq]

theorem digits_plain_d (args : VaList) :
    (∀ ch ∈ plain_d.digits args, isdigit ch = true) ∧
      digits_val 0 (plain_d.digits args) = (args 0).toInt.natAbs := by
  have hdigits : plain_d.digits args =
      (base_d.digits_of (args 0).toInt.natAbs ++ List.replicate
        (1 - (base_d.digits_of (args 0).toInt.natAbs).length) '0'.toUInt8).reverse := by
    rw [← value_plain_d]
    rfl
  have hval := digits_val_digits_of (args 0).toInt.natAbs
  have hdigit := fun ch => @isdigit_of_mem_digits_of (args 0).toInt.natAbs ch
  rw [hdigits]
  cases hds : base_d.digits_of (args 0).toInt.natAbs with
  | nil =>
      rw [hds] at hval
      exact ⟨List.all_eq_true.1 (by decide), hval⟩
  | cons d ds =>
      rw [hds] at hval hdigit
      have hnone : 1 - (d :: ds).length = 0 := by
        rw [List.length_cons]
        omega
      rw [hnone, List.replicate_zero, List.append_nil]
      exact ⟨fun ch hch => hdigit ch (List.mem_reverse.1 hch), hval⟩

theorem rendering_plain_d (args : VaList) : plain_d.rendering args =
    (if (args 0).toInt < 0 then ['-'.toUInt8] else []) ++ plain_d.digits args := by
  have hwidth : plain_d.width_value args = 0 := rfl
  have hleft : plain_d.left args = false := rfl
  have hzero : plain_d.zero args = false := rfl
  have hhead : plain_d.head args = plain_d.sign args ++ [] := rfl
  have hsign : plain_d.sign args = if plain_d.value args < 0 then ['-'.toUInt8] else [] := rfl
  rw [IntegerSpec.rendering, hwidth, hleft, hzero, IntegerSpec.body, hhead, hsign, value_plain_d,
    List.append_nil, Int.natAbs_zero, Nat.zero_sub]
  rfl

theorem atoi_signed {ds : Bytes} (hne : ds ≠ []) (hds : ∀ ch ∈ ds, isdigit ch = true)
    (negative : Prop) [Decidable negative] :
    atoi ((if negative then ['-'.toUInt8] else []) ++ ds) =
      if negative then -UInt32.ofNat (digits_val 0 ds) else UInt32.ofNat (digits_val 0 ds) := by
  have hval := atoi_digits_eq hds 0
  have hzero : -UInt32.ofNat 0 = 0 := by decide
  rw [hzero] at hval
  by_cases hneg : negative
  · rw [if_pos hneg, if_pos hneg, ← hval]
    rfl
  · obtain ⟨d, ds, rfl⟩ := List.exists_cons_of_ne_nil hne
    obtain ⟨hspace, hminus, hplus⟩ := digit_plain (hds d List.mem_cons_self)
    have hhead : ∀ c, d ≠ c → (d :: ds).head? ≠ some c := fun c hc h => hc (Option.some.inj h)
    have hdrop : (d :: ds).dropWhile isspace = d :: ds := by
      rw [List.dropWhile_cons, hspace]
      rfl
    rw [if_neg hneg, if_neg hneg, List.nil_append, atoi, hdrop]
    simp only [if_neg (hhead _ hminus), if_neg (hhead _ hplus), hval, UInt32.neg_neg]

theorem renders_plain_d (args : VaList) : plain_d.Renders args := by
  have hb : plain_d.Buffered args := ⟨fun p h => (Option.not_mem_none p h).elim, fun _ => rfl⟩
  have hwidth : plain_d.width_value args = 0 := rfl
  apply (IntegerSpec.renders_iff hb).2
  rw [IntegerSpec.OneSided, IntegerSpec.BothFlags, hwidth]
  omega

theorem atoi_plain_d (floats : FloatConversions) (memory : BitVec 32 → UInt8) (fuel : Nat)
    (args : VaList) : ∃ out, printed floats memory (fuel + 2) (text "%d" ++ [0]) args = .ok out ∧
      atoi out = UInt32.ofBitVec (args 0) := by
  have hchars : text "%d" = plain_d.chars := by decide
  refine ⟨plain_d.rendering args, ?_, ?_⟩
  · rw [printed, hchars, renders_plain_d args, vprintf_nil, output_all_collect,
      List.nil_append]
  · rw [rendering_plain_d, atoi_signed (IntegerSpec.digits_ne_nil rfl) (digits_plain_d args).1,
      (digits_plain_d args).2]
    have hint := BitVec.toInt_eq_toNat_cond (args 0)
    have hlt := (args 0).isLt
    apply UInt32.toNat_inj.1
    change _ = (args 0).toNat
    split
    · have hsize : UInt32.size = 2 ^ 32 := rfl
      rw [UInt32.toNat_neg, UInt32.toNat_ofNat', hsize]
      split at hint <;> omega
    · rw [UInt32.toNat_ofNat']
      split at hint <;> omega

/-! ## Every integer conversion -/

theorem integer_conversions_iff (s : IntegerSpec) (args : VaList) (hb : s.Buffered args) :
    (s.Renders args ↔ s.OneSided args) ∧
    (∀ value < 2 ^ 64, ∀ b c, (integer_buf value b c).length ≤ 64) ∧
    ∀ floats memory fuel (args : VaList), ∃ out,
      printed floats memory (fuel + 2) (text "%d" ++ [0]) args = .ok out ∧
        atoi out = UInt32.ofBitVec (args 0) :=
  ⟨IntegerSpec.renders_iff hb, fun _ hvalue b c => integer_buf_fits hvalue b c, atoi_plain_d⟩

/-- `%-08.3hd` -/
def left_short_d : IntegerSpec where
  flags := text "-0"
  width := .digits (text "8") (List.all_eq_true.1 (by decide))
  precision := some (.digits (text "3") (List.all_eq_true.1 (by decide)))
  type := .SHORT
  conversion := .d
  flags_only := List.all_eq_true.1 (by decide)
  width_first := by decide

theorem integer_conversions_left_short :
    (left_short_d.Renders (fun _ => -5) ↔ left_short_d.OneSided fun _ => -5) ∧
    (∀ value < 2 ^ 64, ∀ b c, (integer_buf value b c).length ≤ 64) ∧
    ∀ floats memory fuel (args : VaList), ∃ out,
      printed floats memory (fuel + 2) (text "%d" ++ [0]) args = .ok out ∧
        atoi out = UInt32.ofBitVec (args 0) :=
  integer_conversions_iff left_short_d (fun _ => -5) ⟨by decide, by decide⟩

/-- `%0*d` -/
def zero_star_d : IntegerSpec where
  flags := text "0"
  width := .star
  precision := none
  type := .INT
  conversion := .d
  flags_only := List.all_eq_true.1 (by decide)
  width_first := by decide

/-- With the width -5 the number 1 is written as `00001` and four spaces. -/
theorem negative_width_pads_twice : zero_star_d.Buffered (fun i => if i = 0 then -5 else 1) ∧
    ¬ zero_star_d.Renders fun i => if i = 0 then -5 else 1 := by
  have hb : zero_star_d.Buffered fun i => if i = 0 then -5 else 1 := ⟨by decide, by decide⟩
  have hbody : zero_star_d.body (fun i => if i = 0 then -5 else 1) = text "1" := by decide
  refine ⟨hb, fun h => ?_⟩
  have hside := ((IntegerSpec.renders_iff hb).1 h).1
  rw [hbody] at hside
  exact hside ⟨⟨by decide, by decide, by decide, by decide⟩, by decide⟩

end Berk162
