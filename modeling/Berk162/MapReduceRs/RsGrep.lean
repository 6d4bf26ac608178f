import Berk162.Lib.Utf8
import Berk162.MapReduce.Grep
import Berk162.MapReduceRs.Worker

/-!
# RsGrep — `map` of the application `grep` in Rust, `hw-map-reduce-rs/src/app/grep.rs`

A `str` is the bytes of its UTF-8.  The term is the argument that `deserialize_args` takes from
`aux`.
-/

namespace Berk162.MapReduceRs

theorem length_behind_newline {s : Bytes} {k : Nat} (h : findFirst [10] s = some k) :
    (s.drop (k + 1)).length < s.length := by
  have hbound := ((findFirst_eq_some (List.cons_ne_nil _ _)).1 h).occurs.bound
    (List.cons_ne_nil _ _)
  rw [List.length_singleton] at hbound
  rw [List.length_drop]
  omega

/-- `str::split_inclusive ('\\n')`. -/
def split_inclusive (s : Bytes) : List Bytes :=
  match h : findFirst [10] s with
  | none => if s = [] then [] else [s]
  | some k => s.take (k + 1) :: split_inclusive (s.drop (k + 1))
termination_by s.length
decreasing_by exact length_behind_newline h

/-- A piece less its newline, and less a carriage return in front of that. -/
def strip_line (line : Bytes) : Bytes :=
  if line.getLast? = some 10 then
    if line.dropLast.getLast? = some 13 then line.dropLast.dropLast else line.dropLast
  else line

/-- `str::lines`. -/
def str_lines (s : Bytes) : List Bytes := (split_inclusive s).map strip_line

/-- `BufMut::put_u64`: eight bytes, the most significant first. -/
def put_u64 (n : Nat) : Bytes := (le_bytes 8 n).reverse

/-- `string_from_bytes`, and `String::from_utf8` in `map` -/
def string_from_bytes (buf : Bytes) : Result Bytes :=
  match from_utf8 buf with
  | .ok _ => .ok buf
  | .error _ => .error .abort

/-- `deserialize_args (aux).unwrap ().term` -/
def unwrap_term (term : Bytes) : Result Bytes :=
  match string_from_bytes term with
  | .ok term => .ok term
  | .error _ => .error .panic

/-- `map`; `contains` looks for a part of the line. -/
def grep_map (kv : KeyValue) (term : Bytes) : Result (List KeyValue) := do
  let term ← unwrap_term term
  let s ← string_from_bytes kv.value
  let lines := ((str_lines s).zipIdx.filter fun l => decide (term <:+: l.1)).map fun l =>
    (l.2 + 1, l.1)
  return lines.map fun l => ⟨kv.key, put_u64 l.1 ++ l.2⟩

/-! ## Lines -/

variable {s a term : Bytes}

theorem split_inclusive_of_not_mem (h : 10 ∉ s) :
    split_inclusive s = if s = [] then [] else [s] := by
  rw [split_inclusive]
  split
  · rfl
  · rename_i k hk
    rw [findFirst_singleton_of_not_mem h] at hk
    cases hk

theorem split_inclusive_append (h : 10 ∉ a) :
    split_inclusive (a ++ 10 :: s) = (a ++ [10]) :: split_inclusive s := by
  have hk : findFirst [10] (a ++ 10 :: s) = some a.length := findFirst_singleton h
  rw [split_inclusive]
  split
  · rename_i hnone
    rw [hk] at hnone
    cases hnone
  · rename_i k hsome
    rw [hk] at hsome
    cases hsome
    have hdrop : (a ++ 10 :: s).drop (a.length + 1) = s := by
      rw [← List.drop_drop, List.drop_left, List.drop_succ_cons, List.drop_zero]
    have htake : (a ++ 10 :: s).take (a.length + 1) = a ++ [10] := by
      rw [List.append_cons, List.take_left' (by simp)]
    simp only [hdrop, htake]

theorem strip_line_of_not_mem (h : 10 ∉ s) : strip_line s = s := by
  rw [strip_line, if_neg]
  exact fun hlast => h (List.mem_of_getLast? hlast)

theorem strip_line_append (h : a.getLast? ≠ some 13) : strip_line (a ++ [10]) = a := by
  rw [strip_line, if_pos List.getLast?_concat, List.dropLast_concat, if_neg h]

/-- The lines of a text without carriage returns in front of its newlines. -/
theorem str_lines_eq (h : ¬ [13, 10] <:+: s) : str_lines s = lines 10 s := by
  induction s using line_induction (10 : UInt8) with
  | last s hs =>
      rw [str_lines, split_inclusive_of_not_mem hs, lines_of_not_mem hs]
      split
      · rfl
      · rw [List.map_singleton, strip_line_of_not_mem hs]
  | line a s ha ih =>
      have hend : a.getLast? ≠ some 13 := by
        intro hlast
        obtain ⟨b, rfl⟩ := List.getLast?_eq_some_iff.1 hlast
        exact h ⟨b, s, by simp⟩
      have hrest : ¬ [13, 10] <:+: s := fun hin =>
        h (hin.trans ⟨a ++ [10], [], by simp⟩)
      rw [str_lines, split_inclusive_append ha, List.map_cons, strip_line_append hend,
        lines_append ha, ← ih hrest, str_lines]

/-- A text that a `str` can hold. -/
def IsUtf8 (s : Bytes) : Prop := ∃ cs, from_utf8 s = .ok cs

theorem string_from_bytes_eq (h : IsUtf8 s) : string_from_bytes s = .ok s := by
  obtain ⟨cs, hcs⟩ := h
  rw [string_from_bytes, hcs]

theorem unwrap_term_eq (h : IsUtf8 term) : unwrap_term term = .ok term := by
  rw [unwrap_term, string_from_bytes_eq h]

theorem string_from_bytes_not (h : ¬ IsUtf8 s) : string_from_bytes s = .error .abort := by
  cases hs : from_utf8 s with
  | ok cs => exact absurd ⟨cs, hs⟩ h
  | error e => rw [string_from_bytes, hs]

theorem grep_map_eq {kv : KeyValue} (hterm : IsUtf8 term) (htext : IsUtf8 kv.value)
    (hcr : ¬ [13, 10] <:+: kv.value) :
    grep_map kv term = .ok ((MapReduce.selected term kv.value).map fun l =>
      ⟨kv.key, put_u64 l.2 ++ l.1⟩) := by
  have hnumber : (lines 10 kv.value).zipIdx 1 =
      (lines 10 kv.value).zipIdx.map fun l => (l.1, l.2 + 1) := by
    rw [List.zipIdx_eq_map_add]
    simp [Nat.add_comm]
  rw [grep_map, unwrap_term_eq hterm, string_from_bytes_eq htext, MapReduce.selected, MapReduce.matching,
    hnumber, List.filter_map, List.map_map]
  simp only [List.map_map, bind, Except.bind, str_lines_eq hcr]
  rfl

/-- `map` gets nowhere on a term or a text that is not UTF-8. -/
theorem isUtf8_of_grep_map {kv : KeyValue} {kvs : List KeyValue} (h : grep_map kv term = .ok kvs) :
    IsUtf8 term ∧ IsUtf8 kv.value := by
  by_cases hterm : IsUtf8 term
  · refine ⟨hterm, ?_⟩
    by_contra htext
    rw [grep_map, unwrap_term_eq hterm, string_from_bytes_not htext] at h
    cases h
  · have hpanic : unwrap_term term = .error .panic := by
      rw [unwrap_term, string_from_bytes_not hterm]
    rw [grep_map, hpanic] at h
    cases h

/-! ## Both applications -/

/-- Both applications select the lines that contain the term, each with its number. -/
structure SelectLines (input : MapReduce.KeyValue) (aux : MapReduce.SizedBuffer) : Prop where
  c : MapReduce.grep_map input aux =
    (MapReduce.selected aux.bytes input.value.bytes).map (MapReduce.line_pair input.key)
  rust : grep_map ⟨input.key.bytes, input.value.bytes⟩ aux.bytes =
    .ok ((MapReduce.selected aux.bytes input.value.bytes).map fun l =>
      ⟨input.key.bytes, put_u64 l.2 ++ l.1⟩)

theorem select_lines_iff {input : MapReduce.KeyValue} {aux : MapReduce.SizedBuffer}
    (hnull : 0 ∉ input.value.bytes) (hcr : ¬ [13, 10] <:+: input.value.bytes)
    (hterm : 0 ∉ aux.bytes) :
    SelectLines input aux ↔ MapReduce.GrepFits aux.bytes input.value.bytes ∧
      IsUtf8 aux.bytes ∧ IsUtf8 input.value.bytes := by
  have hc := @MapReduce.grep_map_lines_iff input aux hnull hterm
  constructor
  · intro h
    exact ⟨hc.1 h.c, isUtf8_of_grep_map h.rust⟩
  · rintro ⟨hfits, hutf8, htext⟩
    exact ⟨hc.2 hfits, grep_map_eq hutf8 htext hcr⟩

/-- `b` in the lines `ab` and `c`, both of which are ended. -/
theorem select_lines_text :
    SelectLines ⟨⟨[102], by decide⟩, ⟨[97, 98, 10, 99, 10], by decide⟩⟩ ⟨[98], by decide⟩ := by
  refine (@select_lines_iff ⟨⟨[102], by decide⟩, ⟨[97, 98, 10, 99, 10], by decide⟩⟩
    ⟨[98], by decide⟩ (by decide) (by decide) (by decide)).2
      ⟨⟨.inl ?_, ?_, ?_⟩, ⟨['b'], by decide⟩, ⟨['a', 'b', '\n', 'c', '\n'], by decide⟩⟩
  · decide
  · decide
  · decide

/-- `b` in the line `ab`, which is the last and is not ended. -/
theorem grep_misses_last_line :
    ¬ SelectLines ⟨⟨[102], by decide⟩, ⟨[97, 98], by decide⟩⟩ ⟨[98], by decide⟩ := by
  intro h
  have hfits := (MapReduce.grep_map_lines_iff (by decide) (by decide)).1 h.c
  have hlast : unended 10 ([97, 98] : Bytes) = [97, 98] := unended_of_not_mem (by decide)
  rcases hfits.ended with hnil | hno
  · rw [hlast] at hnil
    cases hnil
  · exact hno (by rw [hlast]; exact ⟨[97], [], rfl⟩)

end Berk162.MapReduceRs
