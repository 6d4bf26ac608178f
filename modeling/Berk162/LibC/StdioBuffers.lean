import Berk162.LibC.StdioIntegers

/-!
# StdioBuffers — `vsnprintf` of `lib/stdio.c` and `vhprintf` of `lib/user/console.c`

Both give `__vprintf` a function that stores characters and counts them in an `int`.  A pointer into
a buffer is its offset.  The strings that `__vprintf` reads do not lie in the buffer.
-/

namespace Berk162

/-! ## `vsnprintf` -/

/-- `struct vsnprintf_aux`, and what has been stored so far with its offset in the buffer. -/
structure VsnprintfAux where
  p : Nat
  length : Int
  max_length : Int
  stores : List (UInt8 × Nat)

/-- `vsnprintf_helper` -/
def vsnprintf_helper (ch : UInt8) (aux : VsnprintfAux) : VsnprintfAux :=
  let length := aux.length
  let aux := { aux with length := int32 (length + 1) }
  if length < aux.max_length then
    { aux with p := aux.p + 1, stores := aux.stores ++ [(ch, aux.p)] }
  else aux

section Vsnprintf

variable (floats : FloatConversions) (memory : BitVec 32 → UInt8)

/-- `vsnprintf`: the stores into the buffer and the value that is returned. -/
def vsnprintf (fuel buf_size : Nat) (format : Bytes) (args : VaList) :
    Except PrintStop (List (UInt8 × Nat) × Int) := do
  let max_length := if buf_size > 0 then int32 (size_sub buf_size 1) else 0
  let aux ← vprintf floats memory vsnprintf_helper fuel format args
    { p := 0, length := 0, max_length, stores := [] }
  let stores := if buf_size > 0 then aux.stores ++ [(0, aux.p)] else aux.stores
  return (stores, aux.length)

end Vsnprintf

/-! ## `vhprintf` -/

/-- `struct vhprintf_aux`, and the calls of `write` so far. -/
structure VhprintfAux where
  buf : Vector UInt8 64
  p : Nat
  char_cnt : Int
  handle : Int
  writes : List (Int × Bytes)

/-- `flush` -/
def flush (aux : VhprintfAux) : VhprintfAux :=
  let aux :=
    if aux.p > 0 then
      { aux with writes := aux.writes ++ [(aux.handle, aux.buf.toList.take aux.p)] }
    else aux
  { aux with p := 0 }

/-- `add_char`; `none` is a store behind the array. -/
def add_char (c : UInt8) (aux : Option VhprintfAux) : Option VhprintfAux := do
  let aux ← aux
  if h : aux.p < 64 then
    let aux := { aux with buf := aux.buf.set aux.p c h, p := aux.p + 1 }
    let aux := if aux.p ≥ 64 then flush aux else aux
    some { aux with char_cnt := int32 (aux.char_cnt + 1) }
  else none

section Vhprintf

variable (floats : FloatConversions) (memory : BitVec 32 → UInt8)

/-- `vhprintf`, with what is in the array before: the calls of `write` and the value that is
returned. -/
def vhprintf (buf : Vector UInt8 64) (fuel : Nat) (handle : Int) (format : Bytes) (args : VaList) :
    Except PrintStop (Option (List (Int × Bytes) × Int)) := do
  let aux ← vprintf floats memory add_char fuel format args
    (some { buf, p := 0, char_cnt := 0, handle, writes := [] })
  return aux.map fun aux =>
    let aux := flush aux
    (aux.writes, aux.char_cnt)

end Vhprintf

/-! ## The bounded buffer -/

theorem int32_succ (n : Nat) : int32 (int32 n + 1) = int32 (n + 1 : Nat) := by
  unfold int32
  omega

/-- The count is that of all characters, stored or not. -/
theorem length_helper_all (s : Bytes) (aux : VsnprintfAux) (n : Nat)
    (h : aux.length = int32 n) :
    (output_all vsnprintf_helper s aux).length = int32 (n + s.length : Nat) := by
  induction s generalizing aux n with
  | nil =>
      exact h
  | cons ch s ih =>
      have hstep : (vsnprintf_helper ch aux).length = int32 (n + 1 : Nat) := by
        rw [vsnprintf_helper, h]
        split <;> exact int32_succ n
      rw [output_all_cons, ih _ _ hstep, List.length_cons, Nat.add_assoc, Nat.add_comm 1]

/-- As long as the count is right, the first `m` characters are stored one behind the other. -/
theorem helper_all (s : Bytes) (k m : Nat) (stores : List (UInt8 × Nat))
    (h : k + s.length < 2 ^ 31) :
    output_all vsnprintf_helper s ⟨min k m, k, m, stores⟩ =
      ⟨min (k + s.length) m, (k + s.length : Nat), m, stores ++ (s.take (m - k)).zipIdx k⟩ := by
  induction s generalizing k stores with
  | nil =>
      simp
  | cons ch s ih =>
      rw [List.length_cons] at h
      have hlen : int32 (k + 1) = (k + 1 : Nat) := int32_eq (by omega) (by omega)
      by_cases hk : k < m
      · have hstep : vsnprintf_helper ch ⟨min k m, k, m, stores⟩ =
            ⟨min (k + 1) m, (k + 1 : Nat), m, stores ++ [(ch, k)]⟩ := by
          have hp : min k m = k := by omega
          have hp' : min (k + 1) m = k + 1 := by omega
          rw [vsnprintf_helper, if_pos (Int.ofNat_lt.2 hk), hlen, hp, hp']
        have hleft : m - k = m - (k + 1) + 1 := by omega
        rw [output_all_cons, hstep, ih _ _ (by omega), hleft, List.take_succ_cons,
          List.zipIdx_cons, List.append_assoc, List.singleton_append, List.length_cons,
          Nat.add_assoc, Nat.add_comm 1]
      · have hstep : vsnprintf_helper ch ⟨min k m, k, m, stores⟩ =
            ⟨min (k + 1) m, (k + 1 : Nat), m, stores⟩ := by
          have hp : min k m = min (k + 1) m := by omega
          rw [vsnprintf_helper, if_neg (mt Int.ofNat_lt.1 hk), hlen, hp]
        have hleft : m - k = 0 := by omega
        have hleft' : m - (k + 1) = 0 := by omega
        rw [output_all_cons, hstep, ih _ _ (by omega), hleft, hleft', List.take_zero,
          List.take_zero, List.length_cons, Nat.add_assoc, Nat.add_comm 1]
        rfl

variable {floats : FloatConversions} {memory : BitVec 32 → UInt8} {fuel size : Nat}
  {format out : Bytes} {args : VaList}

theorem max_length_eq (hsize : size < 2 ^ 31) :
    (if size > 0 then int32 (size_sub size 1) else 0) = ((size - 1 : Nat) : Int) := by
  split
  · rw [size_sub_eq (by omega) (by rw [WORD_eq]; omega)]
    exact int32_eq (by omega) (by omega)
  · have hzero : size = 0 := by omega
    rw [hzero]
    rfl

/-- The count does not overflow before the last character. -/
theorem vsnprintf_short (hsize : size < 2 ^ 31)
    (hout : printed floats memory fuel format args = .ok out) (hlen : out.length < 2 ^ 31) :
    vsnprintf floats memory fuel size format args =
      .ok (if size > 0 then (out.take (size - 1) ++ [0]).zipIdx else [], (out.length : Int)) := by
  have hall := helper_all out 0 (size - 1) [] (by omega)
  rw [Nat.zero_min, Nat.zero_add, List.nil_append, Nat.sub_zero, Nat.cast_zero] at hall
  rw [vsnprintf, max_length_eq hsize, vprintf_eq_printed, hout]
  simp only [bind, Except.bind, Except.map, pure, Except.pure, hall]
  split
  · have hp : min out.length (size - 1) = (out.take (size - 1)).length := by
      rw [List.length_take, Nat.min_comm]
    rw [List.zipIdx_append, hp, Nat.zero_add]
    rfl
  · have hzero : size = 0 := by omega
    rw [hzero]
    rfl

theorem vsnprintf_length (hout : printed floats memory fuel format args = .ok out) :
    ∃ stores, vsnprintf floats memory fuel size format args =
      .ok (stores, int32 (out.length : Nat)) := by
  have hlen := fun m => length_helper_all out ⟨0, 0, m, []⟩ 0 rfl
  rw [vsnprintf, vprintf_eq_printed, hout]
  simp only [bind, Except.bind, Except.map, pure, Except.pure, hlen, Nat.zero_add]
  exact ⟨_, rfl⟩

/-! ## The flushed buffer -/

/-- What has been written and what is in the array is `out`. -/
structure Flushes (aux : VhprintfAux) (handle : Int) (out : Bytes) : Prop where
  sent : aux.writes.flatMap (·.2) ++ aux.buf.toList.take aux.p = out
  handle_eq : aux.handle = handle
  nonempty : ∀ w ∈ aux.writes, w.1 = handle ∧ w.2 ≠ []

theorem Flushes.flushed {aux : VhprintfAux} {handle : Int} {out : Bytes}
    (h : Flushes aux handle out) : Flushes (flush aux) handle out ∧ (flush aux).p = 0 := by
  refine ⟨?_, rfl⟩
  rw [flush]
  by_cases hp : aux.p > 0
  · rw [if_pos hp]
    refine ⟨?_, h.handle_eq, ?_⟩
    · rw [List.flatMap_append, List.take_zero, List.append_nil, List.flatMap_singleton]
      exact h.sent
    · intro w hw
      rcases List.mem_append.1 hw with hw | hw
      · exact h.nonempty w hw
      · rw [List.mem_singleton.1 hw]
        refine ⟨h.handle_eq, fun hnil => ?_⟩
        have hlen := congrArg List.length hnil
        rw [List.length_take, Vector.length_toList, List.length_nil] at hlen
        omega
  · have hzero : aux.p = 0 := by omega
    rw [if_neg hp]
    refine ⟨?_, h.handle_eq, h.nonempty⟩
    rw [← hzero]
    exact h.sent

/-- A full array is flushed at once, so the next character has room. -/
theorem Flushes.added {aux : VhprintfAux} {handle : Int} {out : Bytes}
    (h : Flushes aux handle out) (hp : aux.p < 64) (c : UInt8) :
    ∃ aux', add_char c (some aux) = some aux' ∧ aux'.p < 64 ∧
      aux'.char_cnt = int32 (aux.char_cnt + 1) ∧ Flushes aux' handle (out ++ [c]) := by
  have hstored : Flushes { aux with buf := aux.buf.set aux.p c hp, p := aux.p + 1 } handle
      (out ++ [c]) := by
    refine ⟨?_, h.handle_eq, h.nonempty⟩
    have hlen : aux.p < aux.buf.toList.length := by rwa [Vector.length_toList]
    have htake : (aux.buf.set aux.p c hp).toList.take (aux.p + 1) =
        aux.buf.toList.take aux.p ++ [c] := by
      rw [Vector.toList_set, List.take_succ_eq_append_getElem (by simpa using hlen),
        List.take_set_of_le (Nat.le_refl _), List.getElem_set_self]
    rw [htake, ← List.append_assoc, h.sent]
  rw [add_char, Option.bind_eq_bind, Option.bind_some, dif_pos hp]
  by_cases hfull : aux.p + 1 ≥ 64
  · obtain ⟨hflushed, hempty⟩ := hstored.flushed
    refine ⟨_, rfl, ?_, ?_, ?_⟩
    · rw [if_pos hfull]
      exact hempty.trans_lt (by decide)
    · rw [if_pos hfull, flush]
      split <;> rfl
    · rw [if_pos hfull]
      exact ⟨hflushed.sent, hflushed.handle_eq, hflushed.nonempty⟩
  · refine ⟨_, rfl, ?_, ?_, ?_⟩
    · rw [if_neg hfull]
      exact Nat.lt_of_not_le hfull
    · rw [if_neg hfull]
    · rw [if_neg hfull]
      exact ⟨hstored.sent, hstored.handle_eq, hstored.nonempty⟩

theorem Flushes.added_all {aux : VhprintfAux} {handle : Int} {out : Bytes}
    (h : Flushes aux handle out) (hp : aux.p < 64) (s : Bytes) {n : Nat}
    (hcnt : aux.char_cnt = int32 n) : ∃ aux', output_all add_char s (some aux) = some aux' ∧
      aux'.char_cnt = int32 (n + s.length : Nat) ∧ Flushes aux' handle (out ++ s) := by
  induction s generalizing aux out n with
  | nil =>
      exact ⟨aux, rfl, hcnt, by rwa [List.append_nil]⟩
  | cons c s ih =>
      obtain ⟨aux', hadd, hp', hcnt', h'⟩ := h.added hp c
      rw [hcnt, int32_succ] at hcnt'
      obtain ⟨aux'', hall, hcnt'', h''⟩ := ih h' hp' hcnt'
      refine ⟨aux'', ?_, ?_, ?_⟩
      · rw [output_all_cons, hadd, hall]
      · rw [hcnt'', List.length_cons, Nat.add_assoc, Nat.add_comm 1]
      · rwa [List.append_assoc, List.singleton_append] at h''

theorem vhprintf_spec (buf : Vector UInt8 64) (handle : Int)
    (hout : printed floats memory fuel format args = .ok out) :
    ∃ writes, vhprintf floats memory buf fuel handle format args =
      .ok (some (writes, int32 (out.length : Nat))) ∧ writes.flatMap (·.2) = out ∧
        ∀ w ∈ writes, w.1 = handle ∧ w.2 ≠ [] := by
  have hstart : Flushes ⟨buf, 0, 0, handle, []⟩ handle [] := ⟨rfl, rfl, by simp⟩
  obtain ⟨aux, hall, hcnt, h⟩ := hstart.added_all (Nat.zero_lt_succ 63) out (n := 0) rfl
  obtain ⟨hflushed, hempty⟩ := h.flushed
  have hsent := hflushed.sent
  rw [hempty, List.take_zero, List.append_nil, List.nil_append] at hsent
  have hcnt' : (flush aux).char_cnt = int32 (out.length : Nat) := by
    rw [← Nat.zero_add out.length, ← hcnt, flush]
    split <;> rfl
  refine ⟨(flush aux).writes, ?_, hsent, hflushed.nonempty⟩
  rw [vhprintf, vprintf_eq_printed, hout]
  simp only [bind, Except.bind, Except.map, pure, Except.pure, hall, Option.map_some, hcnt']

/-! ## Both -/

section Outputs

variable (floats : FloatConversions) (memory : BitVec 32 → UInt8)

/-- The full output of a format string: some number of steps is enough for it. -/
def FullOutput (format : CString) (args : VaList) (out : Bytes) : Prop :=
  ∃ steps, ∀ fuel, steps ≤ fuel → printed floats memory fuel (format.chars ++ [0]) args = .ok out

/-- `vsnprintf` stores the first `size - 1` characters and a null, or nothing, and returns the
length. -/
def Snprintfs (fuel size : Nat) (format : CString) (args : VaList) (out : Bytes) : Prop :=
  vsnprintf floats memory fuel size (format.chars ++ [0]) args =
    .ok (if size > 0 then (out.take (size - 1) ++ [0]).zipIdx else [], (out.length : Int))

/-- `vhprintf` stays in its array, writes the output to the handle, no part of it empty, and returns
the length. -/
def Hprintfs (buf : Vector UInt8 64) (fuel : Nat) (handle : Int) (format : CString) (args : VaList)
    (out : Bytes) : Prop :=
  ∃ writes, vhprintf floats memory buf fuel handle (format.chars ++ [0]) args =
    .ok (some (writes, (out.length : Int))) ∧ writes.flatMap (·.2) = out ∧
      ∀ w ∈ writes, w.1 = handle ∧ w.2 ≠ []

variable {floats memory}

/-- An `int` cannot be the length of a longer output. -/
theorem int32_length_iff (n : Nat) : int32 (n : Nat) = n ↔ n < 2 ^ 31 := by
  unfold int32
  omega

theorem outputs_at {fuel size : Nat} {format : CString} {args : VaList} {out : Bytes}
    (hsize : size < 2 ^ 31) (buf : Vector UInt8 64) (handle : Int)
    (hout : printed floats memory fuel (format.chars ++ [0]) args = .ok out) :
    Snprintfs floats memory fuel size format args out ∧
      Hprintfs floats memory buf fuel handle format args out ↔ out.length < 2 ^ 31 := by
  constructor
  · rintro ⟨h, _⟩
    obtain ⟨stores, hlen⟩ := @vsnprintf_length _ _ _ size _ _ _ hout
    rw [Snprintfs, hlen] at h
    have hreturned := (Prod.mk.inj (Except.ok.inj h)).2
    exact (int32_length_iff _).1 hreturned
  · intro hlen
    obtain ⟨writes, hwrites⟩ := vhprintf_spec buf handle hout
    rw [(int32_length_iff _).2 hlen] at hwrites
    exact ⟨vsnprintf_short hsize hout hlen, writes, hwrites⟩

theorem buffered_output_iff {size : Nat} {format : CString} {args : VaList} {out : Bytes}
    (hsize : size < 2 ^ 31) (buf : Vector UInt8 64) (handle : Int)
    (hout : FullOutput floats memory format args out) :
    (∃ steps, ∀ fuel, steps ≤ fuel → Snprintfs floats memory fuel size format args out ∧
      Hprintfs floats memory buf fuel handle format args out) ↔ out.length < 2 ^ 31 := by
  obtain ⟨n, hout⟩ := hout
  constructor
  · rintro ⟨steps, h⟩
    exact (outputs_at hsize buf handle (hout _ (le_max_right steps n))).1 (h _ (le_max_left _ _))
  · intro hlen
    exact ⟨n, fun fuel hfuel => (outputs_at hsize buf handle (hout fuel hfuel)).2 hlen⟩

end Outputs

/-- Operations of a program without `double`. -/
def no_doubles : FloatConversions := ⟨fun _ => 0, fun _ _ _ => 0, fun _ => false⟩

/-- `ab` in a buffer of two characters. -/
theorem buffered_output_ab :
    (∃ steps, ∀ fuel, steps ≤ fuel →
      Snprintfs no_doubles (fun _ => 0) fuel 2 ⟨text "ab", by decide⟩ (fun _ => 0) (text "ab") ∧
      Hprintfs no_doubles (fun _ => 0) (Vector.replicate 64 0) fuel 1 ⟨text "ab", by decide⟩
        (fun _ => 0) (text "ab")) ↔ (text "ab").length < 2 ^ 31 := by
  refine buffered_output_iff (by decide) _ 1 ⟨3, fun fuel hfuel => ?_⟩
  obtain ⟨n, rfl⟩ := Nat.exists_eq_add_of_le' hfuel
  rfl

/-- `%2147483647d` -/
def wide_d : IntegerSpec where
  flags := []
  width := .digits (text "2147483647") (List.all_eq_true.1 (by decide))
  precision := none
  type := .INT
  conversion := .d
  flags_only := plain_d.flags_only
  width_first := by decide

theorem width_wide_d (args : VaList) : wide_d.width_value args = 2147483647 := by
  have hval : digits_val 0 (text "2147483647") = 2147483647 := by decide
  have hwidth : wide_d.width_value args = (digits_val 0 (text "2147483647") : Nat) := rfl
  rw [hwidth, hval]
  rfl

theorem renders_wide_d (args : VaList) : wide_d.Renders args := by
  have hb : wide_d.Buffered args := ⟨fun p h => (Option.not_mem_none p h).elim, fun _ => rfl⟩
  apply (IntegerSpec.renders_iff hb).2
  rw [IntegerSpec.OneSided, IntegerSpec.BothFlags, width_wide_d]
  omega

/-- Two numbers, the first as wide as an `int` can say. -/
theorem long_output_miscounted :
    ∃ out, FullOutput no_doubles (fun _ => 0) ⟨text "%2147483647d%d", by decide⟩ (fun _ => 1) out ∧
      ¬ ∃ steps, ∀ fuel, steps ≤ fuel →
        Snprintfs no_doubles (fun _ => 0) fuel 16 ⟨text "%2147483647d%d", by decide⟩ (fun _ => 1)
          out ∧
        Hprintfs no_doubles (fun _ => 0) (Vector.replicate 64 0) fuel 1
          ⟨text "%2147483647d%d", by decide⟩ (fun _ => 1) out := by
  have hformat : text "%2147483647d%d" ++ [0] = wide_d.chars ++ (plain_d.chars ++ [0]) := by decide
  have hout : ∀ n, printed no_doubles (fun _ => 0) (n + 3)
      (text "%2147483647d%d" ++ [0]) (fun _ => 1) =
        .ok (wide_d.rendering (fun _ => 1) ++ plain_d.rendering (wide_d.rest fun _ => 1)) := by
    intro n
    rw [printed, hformat, renders_wide_d, renders_plain_d, vprintf_nil, output_all_collect,
      output_all_collect, List.nil_append]
  have hwide := wide_d.length_rendering fun _ => 1
  have hplain := plain_d.length_rendering (wide_d.rest fun _ => 1)
  have hdigit : (plain_d.digits (wide_d.rest fun _ => 1)).length ≠ 0 :=
    mt List.length_eq_zero_iff.1 (IntegerSpec.digits_ne_nil rfl)
  rw [width_wide_d] at hwide
  rw [IntegerSpec.body, List.length_append] at hplain
  refine ⟨wide_d.rendering (fun _ => 1) ++ plain_d.rendering (wide_d.rest fun _ => 1),
    ⟨3, fun fuel hfuel => ?_⟩, ?_⟩
  · obtain ⟨n, rfl⟩ := Nat.exists_eq_add_of_le' hfuel
    exact hout n
  · rintro ⟨steps, h⟩
    have hlen := (outputs_at (by decide) _ 1 (hout steps)).1 (h _ (Nat.le_add_right _ _))
    rw [List.length_append] at hlen
    omega

end Berk162
