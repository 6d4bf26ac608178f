import Berk162.LibC.StdioScan

/-!
# StdioOutput — the characters that `__vprintf` outputs

`__vprintf` calls `output` and never looks at what `aux` points to.  So the characters and their
order are the same for each `output`; `printed` has them in a list.
-/

namespace Berk162

section Output

variable {Aux : Type} (output : UInt8 → Aux → Aux)

/-- One call of `output` for each character of `s`. -/
def output_all (s : Bytes) (aux : Aux) : Aux := s.foldl (fun aux ch => output ch aux) aux

@[simp] theorem output_all_nil (aux : Aux) : output_all output [] aux = aux := rfl

@[simp] theorem output_all_cons (ch : UInt8) (s : Bytes) (aux : Aux) :
    output_all output (ch :: s) aux = output_all output s (output ch aux) := rfl

@[simp] theorem output_all_append (s t : Bytes) (aux : Aux) :
    output_all output (s ++ t) aux = output_all output t (output_all output s aux) :=
  List.foldl_append

theorem output_dup_eq (ch : UInt8) (cnt : Nat) (aux : Aux) :
    output_dup output ch cnt aux = output_all output (List.replicate cnt ch) aux := by
  induction cnt generalizing aux with
  | zero =>
      rfl
  | succ cnt ih =>
      exact ih (output ch aux)

theorem output_string_eq (string : Nat → UInt8) (i cnt : Nat) (aux : Aux) :
    output_string output string i cnt aux =
      output_all output ((List.range' i cnt).map string) aux := by
  induction cnt generalizing i aux with
  | zero =>
      rfl
  | succ cnt ih =>
      exact ih (i + 1) (output (string i) aux)

/-! ## Integers and strings -/

/-- The `x` of `format_integer`, or 0. -/
def integer_x (value : Nat) (b : IntegerBase) (c : PrintfConversion) : UInt8 :=
  if c.has POUND && value ≠ 0 then b.x else 0

/-- What `format_integer` has in front of the zeros of the field width. -/
def integer_head (sign x : UInt8) : Bytes :=
  (if sign ≠ 0 then [sign] else []) ++ if x ≠ 0 then ['0'.toUInt8, x] else []

/-- The two padded parts, with the padding that the flags ask for. -/
def pad_text (c : PrintfConversion) (pad_cnt : Nat) (head digits : Bytes) : Bytes :=
  (if c.has (MINUS ||| ZERO) then [] else List.replicate pad_cnt ' '.toUInt8) ++ head ++
    (if c.has ZERO then List.replicate pad_cnt '0'.toUInt8 else []) ++ digits ++
    if c.has MINUS then List.replicate pad_cnt ' '.toUInt8 else []

/-- What `format_integer` outputs. -/
def integer_text (value : Nat) (is_signed negative : Bool) (b : IntegerBase)
    (c : PrintfConversion) : Bytes :=
  let head := integer_head (integer_sign is_signed negative c) (integer_x value b c)
  let buf := integer_buf value b c
  pad_text c (int32 (c.width - (head.length + buf.length : Nat))).toNat head buf.reverse

theorem length_integer_head (sign x : UInt8) : ((integer_head sign x).length : Int) =
    (if x ≠ 0 then 2 else 0) + if sign ≠ 0 then 1 else 0 := by
  unfold integer_head
  split_ifs <;> rfl

theorem format_integer_eq (value : Nat) (is_signed negative : Bool) (b : IntegerBase)
    (c : PrintfConversion) (aux : Aux) : format_integer output value is_signed negative b c aux =
      output_all output (integer_text value is_signed negative b c) aux := by
  have hpad : ∀ z : Int, (if z < 0 then 0 else z.toNat) = z.toNat := by
    intro z
    split
    · exact (Int.toNat_of_nonpos (by omega)).symm
    · rfl
  have hwidth : ∀ n w h : Int, w - n - h - (if integer_sign is_signed negative c ≠ 0 then 1 else 0)
      = w - (h + (if integer_sign is_signed negative c ≠ 0 then 1 else 0) + n) := by
    intro n w h
    omega
  rw [format_integer, integer_text, ← integer_x]
  simp only [hpad, hwidth, ← length_integer_head, output_dup_eq, pad_text, output_all_append,
    integer_head, Nat.cast_add]
  generalize List.replicate _ _ = spaces
  generalize List.replicate _ _ = zeros
  split_ifs <;> rfl

/-- What `format_string` outputs. -/
def string_text (string : Nat → UInt8) (length : Int) (c : PrintfConversion) : Bytes :=
  let pad := List.replicate (to_size (int32 (c.width - length))) ' '.toUInt8
  (if length < c.width ∧ ¬ c.has MINUS then pad else []) ++
    (List.range' 0 length.toNat).map string ++
    if length < c.width ∧ c.has MINUS then pad else []

theorem format_string_eq (string : Nat → UInt8) (length : Int) (c : PrintfConversion) (aux : Aux) :
    format_string output string length c aux =
      output_all output (string_text string length c) aux := by
  rw [format_string, string_text]
  simp only [output_dup_eq, output_string_eq, output_all_append]
  split_ifs <;> rfl

end Output

/-! ## `__vprintf` -/

section Vprintf

variable (floats : FloatConversions) (memory : BitVec 32 → UInt8)

theorem convert_f_emits (c : PrintfConversion) (args : VaList) :
    ∃ p : VaList × Bytes, ∀ {Aux : Type} (output : UInt8 → Aux → Aux) (aux : Aux),
      convert_f floats output c args aux = (p.1, output_all output p.2 aux) := by
  have hjoin : ∀ (first rest : Bytes) {Aux : Type} (output : UInt8 → Aux → Aux) (aux : Aux),
      output_all output rest (output '.'.toUInt8 (output_all output first aux)) =
        output_all output (first ++ '.'.toUInt8 :: rest) aux := by
    intro first rest Aux output aux
    rw [output_all_append, output_all_cons]
  simp only [convert_f, format_integer_eq, hjoin]
  exact ⟨(_, _), fun _ _ => rfl⟩

/-- The nested `__printf` of the `default` case has to do the same. -/
theorem do_conversion_emits
    {print : ∀ {Aux : Type}, (UInt8 → Aux → Aux) → Bytes → VaList → Aux → Except PrintStop Aux}
    (hprint : ∀ format args, ∃ r : Except PrintStop Bytes, ∀ {Aux : Type}
      (output : UInt8 → Aux → Aux) (aux : Aux),
        print output format args aux = r.map fun out => output_all output out aux)
    (ch : UInt8) (c : PrintfConversion) (args : VaList) :
    ∃ r : Except PrintStop (VaList × Bytes), ∀ {Aux : Type} (output : UInt8 → Aux → Aux)
      (aux : Aux), do_conversion floats memory output (print output) ch c args aux =
        r.map fun p => (p.1, output_all output p.2 aux) := by
  have hmessage : ∀ format words, ∃ r : Except PrintStop (VaList × Bytes), ∀ {Aux : Type}
      (output : UInt8 → Aux → Aux) (aux : Aux),
        (do return (args, ← print output format words aux)) =
          r.map fun p => (p.1, output_all output p.2 aux) := by
    intro format words
    obtain ⟨r, hr⟩ := hprint format words
    refine ⟨r.map fun out => (args, out), fun output aux => ?_⟩
    rw [hr]
    cases r <;> rfl
  unfold do_conversion
  split
  · exact ⟨.ok (_, _), fun output aux => congrArg (fun aux => Except.ok (_, aux))
      (format_integer_eq output _ _ _ _ _ aux)⟩
  split
  · exact ⟨.ok (_, _), fun output aux => congrArg (fun aux => Except.ok (_, aux))
      (format_integer_eq output _ _ _ _ _ aux)⟩
  split
  · exact ⟨.ok (_, _), fun output aux => congrArg (fun aux => Except.ok (_, aux))
      (format_string_eq output _ _ _ aux)⟩
  split
  · exact ⟨.ok (_, _), fun output aux => congrArg (fun aux => Except.ok (_, aux))
      (format_string_eq output _ _ _ aux)⟩
  split
  · exact ⟨.ok (_, _), fun output aux => congrArg (fun aux => Except.ok (_, aux))
      (format_integer_eq output _ _ _ _ _ aux)⟩
  split
  · obtain ⟨p, hp⟩ := convert_f_emits floats c args
    exact ⟨.ok p, fun output aux => congrArg Except.ok (hp output aux)⟩
  split
  · exact hmessage _ _
  · exact hmessage _ _

theorem vprintf_emits (fuel : Nat) (format : Bytes) (args : VaList) :
    ∃ r : Except PrintStop Bytes, ∀ {Aux : Type} (output : UInt8 → Aux → Aux) (aux : Aux),
      vprintf floats memory output fuel format args aux =
        r.map fun out => output_all output out aux := by
  induction fuel generalizing format args with
  | zero =>
      exact ⟨.error .out_of_fuel, fun _ _ => rfl⟩
  | succ fuel ih =>
      have hcons : ∀ (ch : UInt8) (format : Bytes), ∃ r : Except PrintStop Bytes, ∀ {Aux : Type}
          (output : UInt8 → Aux → Aux) (aux : Aux),
            vprintf floats memory output fuel format args (output ch aux) =
              r.map fun out => output_all output out aux := by
        intro ch format
        obtain ⟨r, hr⟩ := ih format args
        refine ⟨r.map fun out => ch :: out, fun output aux => ?_⟩
        rw [hr]
        cases r <;> rfl
      simp only [vprintf]
      rcases format with _ | ⟨ch, format⟩
      · exact ⟨.error .past_null, fun _ _ => rfl⟩
      simp only [char_at_cons, bind, Except.bind, List.tail_cons]
      split
      · exact ⟨.ok [], fun _ _ => rfl⟩
      split
      · exact hcons ch format
      rcases hat : char_at format with e | ch'
      · exact ⟨.error e, fun _ _ => rfl⟩
      simp only
      split
      · exact hcons '%'.toUInt8 format.tail
      rcases parse_conversion format args with e | ⟨c, format', args'⟩
      · exact ⟨.error e, fun _ _ => rfl⟩
      simp only
      rcases char_at format' with e | ch''
      · exact ⟨.error e, fun _ _ => rfl⟩
      obtain ⟨r, hr⟩ := do_conversion_emits floats memory ih ch'' c args'
      simp only [hr]
      rcases r with e | ⟨args'', out⟩
      · exact ⟨.error e, fun _ _ => rfl⟩
      obtain ⟨r', hr'⟩ := ih format'.tail args''
      refine ⟨r'.map fun out' => out ++ out', fun output aux => ?_⟩
      simp only [Except.map, hr']
      cases r' with
      | error e =>
          rfl
      | ok out' =>
          exact congrArg Except.ok (output_all_append output out out' aux).symm

/-- The full output of `__vprintf`. -/
def printed (fuel : Nat) (format : Bytes) (args : VaList) : Except PrintStop Bytes :=
  vprintf floats memory (fun ch out => out ++ [ch]) fuel format args []

theorem output_all_collect (s out : Bytes) :
    output_all (fun ch out => out ++ [ch]) s out = out ++ s := by
  induction s generalizing out with
  | nil =>
      exact (List.append_nil out).symm
  | cons ch s ih =>
      rw [output_all_cons, ih, List.append_assoc, List.singleton_append]

theorem vprintf_eq_printed {Aux : Type} (output : UInt8 → Aux → Aux) (fuel : Nat) (format : Bytes)
    (args : VaList) (aux : Aux) : vprintf floats memory output fuel format args aux =
      (printed floats memory fuel format args).map fun out => output_all output out aux := by
  obtain ⟨r, hr⟩ := vprintf_emits floats memory fuel format args
  have hprinted : printed floats memory fuel format args = r := by
    rw [printed, hr]
    cases r with
    | error e =>
        rfl
    | ok out =>
        exact congrArg Except.ok (output_all_collect out [])
  rw [hr, hprinted]

end Vprintf

end Berk162
