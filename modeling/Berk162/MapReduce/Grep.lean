import Berk162.Lib.CText
import Berk162.Lib.Lines
import Berk162.MapReduce.TaskHandler

/-!
# Grep — the application `grep`, `hw-map-reduce/app/grep`

`grep_map` makes a pair of each line in which the search term is found, with the number of the line
and its text.
-/

namespace Berk162.MapReduce

/-- The loop of `find_occurrences`: the occurrences from `rest` on, each with its `line_num`. -/
def find_occurrences (search : Bytes) (line_num : Int) (rest : Bytes) : List (Int × Bytes) :=
  match h : strstr rest [10] with
  | none => []
  | some k =>
      have : (rest.drop (k + 1)).length < rest.length := by
        have hbound := ((findFirst_eq_some (List.cons_ne_nil _ _)).1 h).occurs.bound
          (List.cons_ne_nil _ _)
        rw [List.length_singleton] at hbound
        rw [List.length_drop]
        omega
      let line := rest.take k
      let occurrences := find_occurrences search (int32 (line_num + 1)) (rest.drop (k + 1))
      if strstr line search ≠ none then (line_num, line) :: occurrences else occurrences
termination_by rest.length

/-- What `sprintf` writes with `"\t%d: %s"`. -/
def occurrence_text (line_num : Int) (line : Bytes) : Bytes :=
  9 :: (format_d line_num ++ 58 :: 32 :: line)

/-- A pair of `grep_map`; the value is `none` for a length of -1. -/
structure GrepPair where
  key : SizedBuffer
  value : Option Bytes
  deriving DecidableEq

/-- The value of an occurrence: `sprintf` fails where an `int` cannot hold the length. -/
def occurrence_value (line_num : Int) (line : Bytes) : Option Bytes :=
  if (occurrence_text line_num line).length < 2 ^ 31 then some (occurrence_text line_num line)
  else none

def grep_map (input : KeyValue) (aux : SizedBuffer) : List GrepPair :=
  (find_occurrences (c_chars aux.bytes) 1 (c_chars input.value.bytes)).map fun occ =>
    ⟨input.key, occurrence_value occ.1 occ.2⟩

/-! ## The lines that are found -/

variable {search contents : Bytes}

/-- The lines, with their numbers from `n` on, in which `search` is. -/
def matching (search : Bytes) (n : Nat) (ls : List Bytes) : List (Bytes × Nat) :=
  (ls.zipIdx n).filter fun l => decide (search <:+: l.1)

theorem matching_cons (n : Nat) (l : Bytes) (ls : List Bytes) :
    matching search n (l :: ls) =
      if search <:+: l then (l, n) :: matching search (n + 1) ls
      else matching search (n + 1) ls := by
  rw [matching, List.zipIdx_cons]
  by_cases h : search <:+: l
  · rw [if_pos h, List.filter_cons_of_pos (by simpa using h), matching]
  · rw [if_neg h, List.filter_cons_of_neg (by simpa using h), matching]

theorem strstr_ne_none {line : Bytes} : strstr line search ≠ none ↔ search <:+: line :=
  findFirst_ne_none

theorem int32_succ (n : Int) : int32 (int32 n + 1) = int32 (n + 1) := by
  unfold int32
  omega

/-- The loop looks at the lines that a newline ends. -/
theorem find_occurrences_eq (n : Nat) :
    find_occurrences search (int32 n) contents =
      (matching search n (ended 10 contents)).map fun l => (int32 l.2, l.1) := by
  induction contents using line_induction (10 : UInt8) generalizing n with
  | last s hs =>
      rw [find_occurrences]
      split
      · rw [ended_of_not_mem hs]
        rfl
      · rename_i k hk
        rw [strstr, findFirst_singleton_of_not_mem hs] at hk
        cases hk
  | line a s ha ih =>
      have hk : strstr (a ++ 10 :: s) [10] = some a.length := findFirst_singleton ha
      have hdrop : (a ++ 10 :: s).drop (a.length + 1) = s := by
        rw [← List.drop_drop, List.drop_left, List.drop_succ_cons, List.drop_zero]
      rw [find_occurrences]
      split
      · rename_i hnone
        rw [hk] at hnone
        cases hnone
      · rename_i k hsome
        rw [hk] at hsome
        cases hsome
        have hnext := ih (n + 1)
        rw [Nat.cast_succ, ← int32_succ] at hnext
        simp only [hdrop, List.take_left, hnext]
        rw [ended_append ha, matching_cons]
        by_cases h : search <:+: a
        · rw [if_pos (strstr_ne_none.2 h), if_pos h]
          rfl
        · rw [if_neg (mt strstr_ne_none.1 h), if_neg h]

/-! ## The lines that are looked for -/

/-- The numbered lines of `contents` that contain `search`. -/
def selected (search contents : Bytes) : List (Bytes × Nat) := matching search 1 (lines 10 contents)

theorem matching_append (n : Nat) (ls ms : List Bytes) :
    matching search n (ls ++ ms) = matching search n ls ++ matching search (n + ls.length) ms := by
  rw [matching, List.zipIdx_append, List.filter_append, matching, matching]

/-- The last line is missed where a newline does not end it. -/
theorem selected_eq : selected search contents = matching search 1 (ended 10 contents) ++
    if unended 10 contents ≠ [] ∧ search <:+: unended 10 contents then
      [(unended 10 contents, 1 + (ended 10 contents).length)] else [] := by
  rw [selected, lines, matching_append]
  congr 1
  by_cases hnil : unended 10 contents = []
  · rw [if_pos hnil, if_neg (by simp [hnil])]
    rfl
  · rw [if_neg hnil, matching_cons]
    by_cases h : search <:+: unended 10 contents
    · rw [if_pos h, if_pos ⟨hnil, h⟩]
      rfl
    · rw [if_neg h, if_neg (by simp [h])]
      rfl

theorem decimal_ne_cons (n : Nat) (s : Bytes) : decimal n ≠ 45 :: s := by
  intro h
  have hdigit : isdigit 45 = true := isdigit_of_mem_decimal (h ▸ List.mem_cons_self)
  exact absurd hdigit (by decide)

theorem format_d_inj {x y : Int} (h : format_d x = format_d y) : x = y := by
  have hdecimal {m n : Nat} (h : decimal m = decimal n) : m = n := by
    have hval (n : Nat) : digits_val 0 (decimal n) = n := by
      simpa using digits_val_decimal n (s := []) (by simp)
    rw [← hval m, h, hval n]
  rw [format_d, format_d] at h
  by_cases hx : x < 0 <;> by_cases hy : y < 0 <;> simp only [hx, hy, if_true, if_false] at h
  · have := hdecimal (List.cons.inj h).2
    omega
  · exact absurd h.symm (decimal_ne_cons _ _)
  · exact absurd h (decimal_ne_cons _ _)
  · have := hdecimal h
    omega

theorem occurrence_text_inj {x y : Int} {line : Bytes}
    (h : occurrence_text x line = occurrence_text y line) : x = y :=
  format_d_inj (List.append_cancel_right (List.cons.inj h).2)

/-- The value of an occurrence is that of the line with the number `n`. -/
theorem occurrence_value_iff {n : Nat} {line : Bytes} :
    occurrence_value (int32 n) line = some (occurrence_text n line) ↔
      n < 2 ^ 31 ∧ (occurrence_text n line).length < 2 ^ 31 := by
  rw [occurrence_value]
  constructor
  · intro h
    split at h
    · rename_i hlen
      have heq := occurrence_text_inj (Option.some.inj h)
      rw [heq] at hlen
      refine ⟨?_, hlen⟩
      unfold int32 at heq
      omega
    · cases h
  · rintro ⟨hlt, hlen⟩
    rw [int32_eq (by omega) (by omega), if_pos hlen]

/-- The pair of the line `l`. -/
def line_pair (key : SizedBuffer) (l : Bytes × Nat) : GrepPair :=
  ⟨key, some (occurrence_text l.2 l.1)⟩

/-- Every line that contains the term is ended by a newline, its number is an `int`, and so is the
length of what is written of it. -/
structure GrepFits (search contents : Bytes) : Prop where
  ended : unended 10 contents = [] ∨ ¬ search <:+: unended 10 contents
  number : ∀ l ∈ selected search contents, l.2 < 2 ^ 31
  length : ∀ l ∈ selected search contents, (occurrence_text l.2 l.1).length < 2 ^ 31

theorem grep_map_eq {input : KeyValue} {aux : SizedBuffer} (hnull : 0 ∉ input.value.bytes)
    (hterm : 0 ∉ aux.bytes) :
    grep_map input aux = (matching aux.bytes 1 (ended 10 input.value.bytes)).map fun l =>
      ⟨input.key, occurrence_value (int32 l.2) l.1⟩ := by
  have hc {bs : Bytes} (h : 0 ∉ bs) : c_chars bs = bs := cstr_of_no_null h
  have hloop := @find_occurrences_eq aux.bytes input.value.bytes 1
  have hone : int32 ((1 : Nat) : Int) = 1 := rfl
  rw [hone] at hloop
  rw [grep_map, hc hnull, hc hterm, hloop, List.map_map]
  rfl

theorem grep_map_lines_iff {input : KeyValue} {aux : SizedBuffer} (hnull : 0 ∉ input.value.bytes)
    (hterm : 0 ∉ aux.bytes) :
    grep_map input aux = (selected aux.bytes input.value.bytes).map (line_pair input.key) ↔
      GrepFits aux.bytes input.value.bytes := by
  rw [grep_map_eq hnull hterm]
  by_cases hlast : unended 10 input.value.bytes ≠ [] ∧ aux.bytes <:+: unended 10 input.value.bytes
  · constructor
    · intro h
      have hlen := congrArg List.length h
      rw [selected_eq, if_pos hlast] at hlen
      simp at hlen
    · intro h
      rcases h.ended with hnil | hno
      · exact absurd hnil hlast.1
      · exact absurd hlast.2 hno
  · have hall : selected aux.bytes input.value.bytes =
        matching aux.bytes 1 (ended 10 input.value.bytes) := by
      rw [selected_eq, if_neg hlast, List.append_nil]
    have hvalue (l : Bytes × Nat) : (⟨input.key, occurrence_value (int32 l.2) l.1⟩ : GrepPair) =
        line_pair input.key l ↔ l.2 < 2 ^ 31 ∧ (occurrence_text l.2 l.1).length < 2 ^ 31 := by
      rw [line_pair, GrepPair.mk.injEq, occurrence_value_iff]
      exact and_iff_right rfl
    rw [← hall, List.map_inj_left]
    constructor
    · intro h
      refine ⟨?_, fun l hl => ((hvalue l).1 (h l hl)).1, fun l hl => ((hvalue l).1 (h l hl)).2⟩
      by_contra hno
      exact hlast (not_or.1 hno |>.imp id not_not.1)
    · exact fun h l hl => (hvalue l).2 ⟨h.number l hl, h.length l hl⟩

end Berk162.MapReduce
