import Berk162.LibC.Stdio

/-!
# StdioScan — where `__vprintf` reads its format string

`parse_conversion` always returns a pointer into the string, at the latest to the null byte.  The
loop then steps over the character of the conversion, which is one too many if it is the null byte.
`Complete` describes the strings in which that does not happen.
-/

namespace Berk162

/-! ## Conversion specifications -/

/-- What is left behind the flags. -/
def skip_flags (s : Bytes) : Bytes := s.dropWhile fun ch => (flag_of ch).isSome

/-- What is left behind a number or `*`. -/
def skip_number (s : Bytes) : Bytes :=
  if s.head? = some '*'.toUInt8 then s.tail else s.dropWhile isdigit

/-- What is left behind a precision. -/
def skip_precision (s : Bytes) : Bytes :=
  if s.head? = some '.'.toUInt8 then skip_number s.tail else s

/-- What is left behind the second of two equal letters. -/
def skip_doubled (ch : UInt8) (s : Bytes) : Bytes := if s.head? = some ch then s.tail else s

/-- What is left behind a length modifier. -/
def skip_type (s : Bytes) : Bytes :=
  if s.head? = some 'h'.toUInt8 then skip_doubled 'h'.toUInt8 s.tail
  else if s.head? = some 'l'.toUInt8 then skip_doubled 'l'.toUInt8 s.tail
  else if s.head? = some 'j'.toUInt8 ∨ s.head? = some 't'.toUInt8 ∨ s.head? = some 'z'.toUInt8 then
    s.tail
  else s

/-- What is left of a conversion specification: it begins with the conversion character. -/
def skip_specification (s : Bytes) : Bytes :=
  skip_type (skip_precision (skip_number (skip_flags s)))

/-- Each `%` begins `%%` or a specification with a conversion character. -/
inductive Complete : Bytes → Prop
  | nil : Complete []
  | literal {ch : UInt8} {s : Bytes} (hch : ch ≠ '%'.toUInt8) (hs : Complete s) : Complete (ch :: s)
  | percent {s : Bytes} (hs : Complete s) : Complete ('%'.toUInt8 :: '%'.toUInt8 :: s)
  | conversion {s rest : Bytes} {ch : UInt8} (hhead : s.head? ≠ some '%'.toUInt8)
      (hskip : skip_specification s = ch :: rest) (hrest : Complete rest) :
      Complete ('%'.toUInt8 :: s)

theorem skip_number_suffix (s : Bytes) : skip_number s <:+ s := by
  rw [skip_number]
  split
  · exact List.tail_suffix s
  · exact List.dropWhile_suffix _

theorem skip_precision_suffix (s : Bytes) : skip_precision s <:+ s := by
  rw [skip_precision]
  split
  · exact (skip_number_suffix _).trans (List.tail_suffix s)
  · exact List.suffix_refl s

theorem skip_doubled_suffix (ch : UInt8) (s : Bytes) : skip_doubled ch s <:+ s := by
  rw [skip_doubled]
  split
  · exact List.tail_suffix s
  · exact List.suffix_refl s

theorem skip_type_suffix (s : Bytes) : skip_type s <:+ s := by
  rw [skip_type]
  split_ifs
  · exact (skip_doubled_suffix _ _).trans (List.tail_suffix s)
  · exact (skip_doubled_suffix _ _).trans (List.tail_suffix s)
  · exact List.tail_suffix s
  · exact List.suffix_refl s

theorem skip_specification_suffix (s : Bytes) : skip_specification s <:+ s :=
  (((skip_type_suffix _).trans (skip_precision_suffix _)).trans (skip_number_suffix _)).trans
    (List.dropWhile_suffix _)

/-! ## The parser stays in the string -/

theorem char_at_cons (ch : UInt8) (s : Bytes) : char_at (ch :: s) = .ok ch := rfl

theorem char_at_append (s : Bytes) : char_at (s ++ [0]) = .ok (s.head?.getD 0) := by
  cases s <;> rfl

theorem head?_getD_eq {s : Bytes} {ch : UInt8} (hch : ch ≠ 0) :
    s.head?.getD 0 = ch ↔ s.head? = some ch := by
  cases s with
  | nil =>
      simpa using hch.symm
  | cons c s =>
      simp

theorem tail_append {s : Bytes} {ch : UInt8} (h : s.head? = some ch) :
    (s ++ [0]).tail = s.tail ++ [0] := by
  obtain ⟨t, rfl⟩ := List.head?_eq_some_iff.1 h
  rfl

theorem parse_flags_append (flags : BitVec 32) (s : Bytes) :
    ∃ flags', parse_flags flags (s ++ [0]) = .ok (flags', skip_flags s ++ [0]) := by
  induction s generalizing flags with
  | nil =>
      exact ⟨flags, rfl⟩
  | cons ch s ih =>
      rw [List.cons_append, parse_flags, skip_flags, List.dropWhile_cons]
      cases hflag : flag_of ch with
      | none =>
          exact ⟨flags, rfl⟩
      | some flag =>
          exact ih (flags ||| flag)

theorem parse_digits_append (n : Int) (s : Bytes) :
    ∃ n', parse_digits n (s ++ [0]) = .ok (n', s.dropWhile isdigit ++ [0]) := by
  induction s generalizing n with
  | nil =>
      exact ⟨n, rfl⟩
  | cons ch s ih =>
      rw [List.cons_append, parse_digits, List.dropWhile_cons]
      split
      · exact ih _
      · exact ⟨n, rfl⟩

theorem parse_number_append (s : Bytes) (args : VaList) :
    ∃ n args', parse_number (s ++ [0]) args = .ok (n, skip_number s ++ [0], args') := by
  have hstar : ('*'.toUInt8 : UInt8) ≠ 0 := by decide
  rw [parse_number, char_at_append, skip_number]
  simp only [bind, Except.bind, head?_getD_eq hstar]
  split
  case isTrue h =>
    rw [tail_append h]
    exact ⟨_, _, rfl⟩
  case isFalse =>
    obtain ⟨n, hn⟩ := parse_digits_append 0 s
    rw [hn]
    exact ⟨n, args, rfl⟩

theorem parse_precision_append (s : Bytes) (args : VaList) :
    ∃ n args', parse_precision (s ++ [0]) args = .ok (n, skip_precision s ++ [0], args') := by
  have hdot : ('.'.toUInt8 : UInt8) ≠ 0 := by decide
  rw [parse_precision, char_at_append, skip_precision]
  simp only [bind, Except.bind, head?_getD_eq hdot]
  split
  case isTrue h =>
    obtain ⟨n, args', hn⟩ := parse_number_append s.tail args
    rw [tail_append h, hn]
    exact ⟨_, args', rfl⟩
  case isFalse =>
    exact ⟨-1, args, rfl⟩

theorem parse_doubled_append {ch : UInt8} (hch : ch ≠ 0) (once twice : ArgType) (s : Bytes) :
    ∃ type, parse_doubled ch once twice (s ++ [0]) = .ok (type, skip_doubled ch s ++ [0]) := by
  rw [parse_doubled, char_at_append, skip_doubled]
  simp only [bind, Except.bind, head?_getD_eq hch]
  split
  case isTrue h =>
    rw [tail_append h]
    exact ⟨twice, rfl⟩
  case isFalse =>
    exact ⟨once, rfl⟩

theorem parse_type_append (s : Bytes) :
    ∃ type, parse_type (s ++ [0]) = .ok (type, skip_type s ++ [0]) := by
  have hh : ('h'.toUInt8 : UInt8) ≠ 0 := by decide
  have hj : ('j'.toUInt8 : UInt8) ≠ 0 := by decide
  have hl : ('l'.toUInt8 : UInt8) ≠ 0 := by decide
  have ht : ('t'.toUInt8 : UInt8) ≠ 0 := by decide
  have hz : ('z'.toUInt8 : UInt8) ≠ 0 := by decide
  rw [parse_type, char_at_append, skip_type]
  simp only [bind, Except.bind, head?_getD_eq hh, head?_getD_eq hj, head?_getD_eq hl,
    head?_getD_eq ht, head?_getD_eq hz]
  by_cases hhead : s.head? = some 'h'.toUInt8
  · rw [if_pos hhead, if_pos hhead, tail_append hhead]
    exact parse_doubled_append hh _ _ _
  rw [if_neg hhead, if_neg hhead]
  by_cases hlead : s.head? = some 'l'.toUInt8
  · have hnot : ¬ s.head? = some 'j'.toUInt8 := by
      rw [hlead]
      decide
    rw [if_neg hnot, if_pos hlead, if_pos hlead, tail_append hlead]
    exact parse_doubled_append hl _ _ _
  rw [if_neg hlead, if_neg hlead]
  by_cases hsingle : s.head? = some 'j'.toUInt8 ∨ s.head? = some 't'.toUInt8
      ∨ s.head? = some 'z'.toUInt8
  · rw [if_pos hsingle]
    rcases hsingle with h | h | h
    · rw [if_pos h, tail_append h]
      exact ⟨_, rfl⟩
    · rw [h, if_neg (by decide), if_pos rfl, tail_append h]
      exact ⟨_, rfl⟩
    · rw [h, if_neg (by decide), if_neg (by decide), if_pos rfl, tail_append h]
      exact ⟨_, rfl⟩
  · rw [if_neg hsingle]
    rw [not_or, not_or] at hsingle
    rw [if_neg hsingle.1, if_neg hsingle.2.1, if_neg hsingle.2.2]
    exact ⟨_, rfl⟩

/-- `parse_conversion` returns a pointer into the string, whatever the string. -/
theorem parse_conversion_append (s : Bytes) (args : VaList) :
    ∃ c args', parse_conversion (s ++ [0]) args = .ok (c, skip_specification s ++ [0], args') := by
  obtain ⟨flags, hflags⟩ := parse_flags_append 0 s
  obtain ⟨width, args₁, hwidth⟩ := parse_number_append (skip_flags s) args
  obtain ⟨precision, args₂, hprecision⟩ :=
    parse_precision_append (skip_number (skip_flags s)) args₁
  obtain ⟨type, htype⟩ := parse_type_append (skip_precision (skip_number (skip_flags s)))
  simp only [parse_conversion, hflags, hwidth, hprecision, htype, bind, Except.bind]
  exact ⟨_, args₂, rfl⟩

/-! ## One round of the loop -/

section Vprintf

variable {Aux : Type} (floats : FloatConversions) (memory : BitVec 32 → UInt8)
  (output : UInt8 → Aux → Aux)

theorem vprintf_nil (fuel : Nat) (args : VaList) (aux : Aux) :
    vprintf floats memory output (fuel + 1) [0] args aux = .ok aux := rfl

theorem vprintf_past (fuel : Nat) (args : VaList) (aux : Aux) :
    vprintf floats memory output (fuel + 1) [] args aux = .error .past_null := rfl

theorem vprintf_literal (fuel : Nat) {ch : UInt8} (hnull : ch ≠ 0) (hch : ch ≠ '%'.toUInt8)
    (format : Bytes) (args : VaList) (aux : Aux) :
    vprintf floats memory output (fuel + 1) (ch :: format) args aux =
      vprintf floats memory output fuel format args (output ch aux) := by
  rw [vprintf]
  simp only [char_at_cons, bind, Except.bind, List.tail_cons]
  rw [if_neg hnull, if_pos hch]

theorem vprintf_percent (fuel : Nat) (format : Bytes) (args : VaList) (aux : Aux) :
    vprintf floats memory output (fuel + 1) ('%'.toUInt8 :: '%'.toUInt8 :: format) args aux =
      vprintf floats memory output fuel format args (output '%'.toUInt8 aux) := rfl

/-- The loop converts at the character that `skip_specification` finds and steps over it. -/
theorem vprintf_conversion {s : Bytes} (hhead : s.head? ≠ some '%'.toUInt8) (args : VaList) :
    ∃ c args', ∀ fuel aux,
      vprintf floats memory output (fuel + 1) ('%'.toUInt8 :: s ++ [0]) args aux =
        (do_conversion floats memory output (vprintf floats memory output fuel)
          ((skip_specification s).head?.getD 0) c args' aux).bind fun p =>
            vprintf floats memory output fuel (skip_specification s ++ [0]).tail p.1 p.2 := by
  obtain ⟨c, args', hparse⟩ := parse_conversion_append s args
  refine ⟨c, args', fun fuel aux => ?_⟩
  have hpercent : ('%'.toUInt8 : UInt8) ≠ 0 := by decide
  have hnot := mt (head?_getD_eq hpercent).1 hhead
  rw [vprintf, List.cons_append]
  simp only [char_at_cons, char_at_append, hparse, bind, Except.bind, List.tail_cons]
  rw [if_neg hpercent, if_neg (by simp), if_neg hnot]

/-! ## The conversion -/

/-- The rounds that the two messages of `__vprintf` need. -/
def REPORT_STEPS : Nat := 24

/-- A character that the loop copies to the output. -/
def is_literal (ch : UInt8) : Bool := ch != 0 && ch != '%'.toUInt8

theorem vprintf_literals {l : Bytes} (hl : l.all is_literal = true) (fuel : Nat)
    (format : Bytes) (args : VaList) (aux : Aux) :
    vprintf floats memory output (fuel + l.length) (l ++ format) args aux =
      vprintf floats memory output fuel format args
        (l.foldl (fun aux ch => output ch aux) aux) := by
  induction l generalizing aux with
  | nil =>
      rfl
  | cons ch l ih =>
      rw [List.all_cons, Bool.and_eq_true, is_literal, Bool.and_eq_true, bne_iff_ne,
        bne_iff_ne] at hl
      obtain ⟨⟨hnull, hch⟩, hrest⟩ := hl
      rw [List.length_cons, ← Nat.add_assoc, List.cons_append,
        vprintf_literal floats memory output _ hnull hch, List.foldl_cons]
      exact ih hrest (output ch aux)

/-- The nested call of `__printf` returns: its only conversion is `%c`. -/
theorem vprintf_report {ending : Bytes} (hlen : ending.length + 8 ≤ REPORT_STEPS)
    (hending : ending.all is_literal = true) (args : VaList) (aux : Aux) :
    ∃ aux', ∀ fuel, REPORT_STEPS ≤ fuel →
      vprintf floats memory output fuel (text "<<no %%%c" ++ ending ++ [0]) args aux =
        .ok aux' := by
  have hbegin : (text "<<no ").all is_literal = true := rfl
  have hformat : text "<<no %%%c" ++ ending ++ [0] = text "<<no " ++
      ('%'.toUInt8 :: '%'.toUInt8 :: ('%'.toUInt8 :: ('c'.toUInt8 :: ending) ++ [0])) := rfl
  have hskip : skip_specification ('c'.toUInt8 :: ending) = 'c'.toUInt8 :: ending := rfl
  have hhead : ('c'.toUInt8 :: ending).head? ≠ some '%'.toUInt8 := by
    rw [List.head?_cons, Ne, Option.some_inj]
    decide
  obtain ⟨c, args₁, hround⟩ := vprintf_conversion floats memory output hhead args
  -- `%c` takes the one argument and prints it
  obtain ⟨p, hp⟩ : ∃ p, ∀ print, do_conversion floats memory output print 'c'.toUInt8 c args₁
      (output '%'.toUInt8 ((text "<<no ").foldl (fun aux ch => output ch aux) aux)) = .ok p :=
    ⟨_, fun _ => rfl⟩
  refine ⟨ending.foldl (fun aux ch => output ch aux) p.2, fun fuel hfuel => ?_⟩
  obtain ⟨n, rfl⟩ : ∃ n, fuel = n + 1 + ending.length + 1 + 1 + (text "<<no ").length := by
    have hfive : (text "<<no ").length = 5 := by decide
    exact ⟨fuel - (ending.length + 8), by omega⟩
  rw [hformat, vprintf_literals floats memory output hbegin, vprintf_percent, hround, hskip,
    List.head?_cons, Option.getD_some, hp]
  exact vprintf_literals floats memory output hending (n + 1) [0] p.1 p.2

theorem do_conversion_settles (ch : UInt8) (c : PrintfConversion) (args : VaList) (aux : Aux) :
    ∃ p, ∀ fuel, REPORT_STEPS ≤ fuel →
      do_conversion floats memory output (vprintf floats memory output fuel) ch c args aux =
        .ok p := by
  have hmessage : ∀ (words : VaList) (ending : Bytes), ending.length + 8 ≤ REPORT_STEPS →
      ending.all is_literal = true → ∃ p, ∀ fuel, REPORT_STEPS ≤ fuel → (do
        return (args, ← vprintf floats memory output fuel
          (text "<<no %%%c" ++ ending ++ [0]) words aux)) = Except.ok p := by
    intro words ending hlen hending
    obtain ⟨aux', h⟩ := vprintf_report floats memory output hlen hending words aux
    refine ⟨(args, aux'), fun fuel hfuel => ?_⟩
    rw [h fuel hfuel]
    rfl
  unfold do_conversion
  split
  · exact ⟨_, fun _ _ => rfl⟩
  split
  · exact ⟨_, fun _ _ => rfl⟩
  split
  · exact ⟨_, fun _ _ => rfl⟩
  split
  · exact ⟨_, fun _ _ => rfl⟩
  split
  · exact ⟨_, fun _ _ => rfl⟩
  split
  · exact ⟨_, fun _ _ => rfl⟩
  split
  · exact hmessage _ (text " in kernel>>") (by decide) rfl
  · exact hmessage _ (text " conversion>>") (by decide) rfl

/-! ## Runs -/

theorem vprintf_complete {s : Bytes} (hs : Complete s) (hnull : 0 ∉ s) (args : VaList) (aux : Aux) :
    ∃ aux', ∀ fuel, s.length + 1 + REPORT_STEPS ≤ fuel →
      vprintf floats memory output fuel (s ++ [0]) args aux = .ok aux' := by
  induction hs generalizing args aux with
  | nil =>
      refine ⟨aux, fun fuel hfuel => ?_⟩
      obtain ⟨n, rfl⟩ : ∃ n, fuel = n + 1 := ⟨fuel - 1, by omega⟩
      exact vprintf_nil floats memory output n args aux
  | @literal ch s hch _ ih =>
      rw [List.mem_cons, not_or] at hnull
      obtain ⟨aux', h⟩ := ih hnull.2 args (output ch aux)
      refine ⟨aux', fun fuel hfuel => ?_⟩
      rw [List.length_cons] at hfuel
      obtain ⟨n, rfl⟩ : ∃ n, fuel = n + 1 := ⟨fuel - 1, by omega⟩
      rw [List.cons_append, vprintf_literal floats memory output n (Ne.symm hnull.1) hch]
      exact h n (by omega)
  | @percent s _ ih =>
      simp only [List.mem_cons, not_or] at hnull
      obtain ⟨aux', h⟩ := ih hnull.2.2 args (output '%'.toUInt8 aux)
      refine ⟨aux', fun fuel hfuel => ?_⟩
      simp only [List.length_cons] at hfuel
      obtain ⟨n, rfl⟩ : ∃ n, fuel = n + 1 := ⟨fuel - 1, by omega⟩
      rw [List.cons_append, List.cons_append, vprintf_percent]
      exact h n (by omega)
  | @conversion s rest ch hhead hskip _ ih =>
      rw [List.mem_cons, not_or] at hnull
      have hsuffix := skip_specification_suffix s
      rw [hskip] at hsuffix
      have hrest : 0 ∉ rest := fun h => hnull.2 (hsuffix.mem (List.mem_cons_of_mem ch h))
      have hlen := hsuffix.length_le
      obtain ⟨c, args₁, hround⟩ := vprintf_conversion floats memory output hhead args
      obtain ⟨p, hp⟩ := do_conversion_settles floats memory output
        ((skip_specification s).head?.getD 0) c args₁ aux
      obtain ⟨aux', h⟩ := ih hrest p.1 p.2
      refine ⟨aux', fun fuel hfuel => ?_⟩
      rw [List.length_cons] at hlen hfuel
      obtain ⟨n, rfl⟩ : ∃ n, fuel = n + 1 := ⟨fuel - 1, by omega⟩
      rw [hround, hp n (by omega), hskip]
      exact h n (by omega)

/-- The forms that the rest of a format string has in front of the loop. -/
theorem format_cases (s : Bytes) : s = [] ∨ (∃ ch t, ch ≠ '%'.toUInt8 ∧ s = ch :: t) ∨
    (∃ t, s = '%'.toUInt8 :: '%'.toUInt8 :: t) ∨
    (∃ t, t.head? ≠ some '%'.toUInt8 ∧ s = '%'.toUInt8 :: t) := by
  cases s with
  | nil =>
      exact .inl rfl
  | cons ch t =>
      by_cases hch : ch = '%'.toUInt8
      · subst hch
        by_cases hhead : t.head? = some '%'.toUInt8
        · obtain ⟨u, rfl⟩ := List.head?_eq_some_iff.1 hhead
          exact .inr (.inr (.inl ⟨u, rfl⟩))
        · exact .inr (.inr (.inr ⟨t, hhead, rfl⟩))
      · exact .inr (.inl ⟨ch, t, hch, rfl⟩)

/-- Otherwise the loop reads behind the null byte, and nothing stops it before. -/
theorem vprintf_incomplete {s : Bytes} (hs : ¬ Complete s) (hnull : 0 ∉ s) (args : VaList)
    (aux : Aux) {fuel : Nat} (hfuel : s.length + 1 + REPORT_STEPS ≤ fuel) :
    vprintf floats memory output fuel (s ++ [0]) args aux = .error .past_null := by
  induction fuel generalizing s args aux with
  | zero =>
      omega
  | succ n ih =>
      rcases format_cases s with rfl | ⟨ch, t, hch, rfl⟩ | ⟨t, rfl⟩ | ⟨t, hhead, rfl⟩
      · exact absurd .nil hs
      · rw [List.mem_cons, not_or] at hnull
        rw [List.length_cons] at hfuel
        rw [List.cons_append, vprintf_literal floats memory output n (Ne.symm hnull.1) hch]
        exact ih (fun h => hs (.literal hch h)) hnull.2 _ _ (by omega)
      · simp only [List.mem_cons, not_or] at hnull
        simp only [List.length_cons] at hfuel
        rw [List.cons_append, List.cons_append, vprintf_percent]
        exact ih (fun h => hs (.percent h)) hnull.2.2 _ _ (by omega)
      · rw [List.mem_cons, not_or] at hnull
        rw [List.length_cons] at hfuel
        obtain ⟨c, args₁, hround⟩ := vprintf_conversion floats memory output hhead args
        obtain ⟨p, hp⟩ := do_conversion_settles floats memory output
          ((skip_specification t).head?.getD 0) c args₁ aux
        rw [hround, hp n (by omega)]
        have hsuffix := skip_specification_suffix t
        cases hskip : skip_specification t with
        | nil =>
            -- the conversion character is the null byte, and the loop steps over it
            obtain ⟨m, rfl⟩ : ∃ m, n = m + 1 := ⟨n - 1, by simp only [REPORT_STEPS] at hfuel; omega⟩
            exact vprintf_past floats memory output m p.1 p.2
        | cons ch rest =>
            rw [hskip] at hsuffix
            have hrest : 0 ∉ rest := fun h => hnull.2 (hsuffix.mem (List.mem_cons_of_mem ch h))
            have hlen := hsuffix.length_le
            rw [List.length_cons] at hlen
            exact ih (fun h => hs (.conversion hhead hskip h)) hrest _ _ (by omega)

/-- `__vprintf` returns, and all that it reads of the format string lies in it. -/
def Returns (format : CString) (args : VaList) (aux : Aux) : Prop :=
  ∃ steps aux', ∀ fuel, steps ≤ fuel →
    vprintf floats memory output fuel (format.chars ++ [0]) args aux = .ok aux'

theorem vprintf_returns_iff (format : CString) (args : VaList) (aux : Aux) :
    Returns floats memory output format args aux ↔ Complete format.chars := by
  constructor
  · rintro ⟨steps, aux', h⟩
    by_contra hs
    have hreturns := h (max steps (format.chars.length + 1 + REPORT_STEPS)) (le_max_left _ _)
    rw [vprintf_incomplete floats memory output hs format.no_null args aux (le_max_right _ _)]
      at hreturns
    cases hreturns
  · intro hs
    obtain ⟨aux', h⟩ := vprintf_complete floats memory output hs format.no_null args aux
    exact ⟨_, aux', h⟩

end Vprintf

/-- `printf ("%")` -/
theorem vprintf_percent_runs_on :
    ¬ Returns ⟨fun _ => 0, fun _ _ _ => 0, fun _ => false⟩ (fun _ => 0)
      (fun ch (out : Bytes) => out ++ [ch]) ⟨text "%", by decide⟩ (fun _ => 0) [] := by
  rintro ⟨steps, aux', h⟩
  have hincomplete : ¬ Complete (text "%") := by
    intro hs
    cases hs with
    | literal hch _ =>
        exact hch rfl
    | conversion _ hskip _ =>
        cases hskip
  have hpast := vprintf_incomplete ⟨fun _ => 0, fun _ _ _ => 0, fun _ => false⟩ (fun _ => 0)
    (fun ch (out : Bytes) => out ++ [ch]) hincomplete (by decide) (fun _ => 0) []
    (Nat.le_add_left _ steps)
  rw [h _ (Nat.le_add_right _ _)] at hpast
  cases hpast

end Berk162
