import Berk162.LibC.Stdio
import Berk162.Lib.Bytes
import Berk162.Lib.Window
import Berk162.Threads.Vaddr

/-!
# CommandLine — `read_command_line` of `threads/init.c`

The boot loader leaves a number of arguments and an area for their text in low memory.
`read_command_line` takes the area apart into `argv`.  What it prints then is not in the model.
-/

namespace Berk162

def LOADER_ARGS_LEN : Nat := 128

/-- `ptov (LOADER_ARGS)`. -/
def LOADER_ARGS : Nat := 0x7e00 - 2 - 64 - LOADER_ARGS_LEN + PHYS_BASE

/-- `ptov (LOADER_ARG_CNT)`. -/
def LOADER_ARG_CNT : Nat := LOADER_ARGS - 4

/-- The number of elements of `argv`. -/
def ARGV_LEN : Nat := LOADER_ARGS_LEN / 2 + 1

/-- The loop of `read_command_line`, with `left` passes to go, and the store behind it: what is
stored in `argv`, each element with its index, and whether the kernel panics. -/
def read_args (mem : Nat → UInt8) (argc : Int) : Nat → Nat → Nat → List (Int × Nat) × Bool
  | 0, _, _ => ([(argc, NULL)], false)
  | left + 1, i, p =>
      let args_end := LOADER_ARGS + LOADER_ARGS_LEN
      if p ≥ args_end then ([], true)
      else
        let r := read_args mem argc left (i + 1)
          (p + (strnlen (fun j => mem (p + j)) (args_end - p) 0 + 1))
        ((↑i, p) :: r.1, r.2)

/-- The count that the boot loader stored. -/
def arg_count (mem : Nat → UInt8) : Nat := le_val (window mem LOADER_ARG_CNT 4)

def argc (mem : Nat → UInt8) : Int := int32 (arg_count mem)

def read_command_line (mem : Nat → UInt8) : List (Int × Nat) × Bool :=
  read_args mem (argc mem) (argc mem).toNat 0 LOADER_ARGS

/-! ## The area -/

/-- The bytes of the area from `p` on. -/
def area_from (mem : Nat → UInt8) (p : Nat) : Bytes :=
  window mem p (LOADER_ARGS + LOADER_ARGS_LEN - p)

/-- The number of strings that begin in a piece of the area. -/
def strings : Bytes → Nat
  | [] => 0
  | s => s.dropLast.count 0 + 1

variable {mem : Nat → UInt8} {p i n : Nat} {s rest : Bytes}

theorem strnlen_eq (f : Nat → UInt8) (maxlen : Nat) {length : Nat} (h : length ≤ maxlen) :
    strnlen f maxlen length = length + (c_chars (window f length (maxlen - length))).length := by
  induction hd : maxlen - length generalizing length with
  | zero =>
      rw [strnlen, if_neg (by omega)]
      rfl
  | succ d ih =>
      have hw : window f length (d + 1) = f length :: window f (length + 1) d := by
        rw [Nat.add_comm d 1, window_add]
        rfl
      rw [strnlen, hw]
      by_cases hf : f length = 0
      · rw [if_neg (by simp [hf]), c_chars, List.takeWhile_cons_of_neg (by simp [hf])]
        rfl
      · rw [if_pos ⟨hf, by omega⟩, ih (by omega) (by omega), c_chars, c_chars,
          List.takeWhile_cons_of_pos (by simp [hf]), List.length_cons]
        omega

/-- A piece of the area is a string with its null and what is behind it, or a string without a
null. -/
theorem area_cases (s : Bytes) :
    (∃ a rest, s = a ++ 0 :: rest ∧ 0 ∉ a ∧ c_chars s = a) ∨ 0 ∉ s ∧ c_chars s = s := by
  induction s with
  | nil => exact Or.inr ⟨List.not_mem_nil, rfl⟩
  | cons c s ih =>
      by_cases hc : c = 0
      · exact Or.inl ⟨[], s, by rw [hc]; rfl, List.not_mem_nil, by simp [c_chars, hc]⟩
      · have hcons : c_chars (c :: s) = c :: c_chars s := by simp [c_chars, hc]
        rw [hcons]
        rcases ih with ⟨a, rest, rfl, ha, heq⟩ | ⟨hs, heq⟩
        · exact Or.inl ⟨c :: a, rest, rfl, by simp [ha, Ne.symm hc], by rw [heq]⟩
        · exact Or.inr ⟨by simp [hs, Ne.symm hc], by rw [heq]⟩

theorem area_from_eq_nil : area_from mem p = [] ↔ LOADER_ARGS + LOADER_ARGS_LEN ≤ p := by
  rw [← List.length_eq_zero_iff, area_from, length_window, Nat.sub_eq_zero_iff_le]

theorem area_from_next :
    area_from mem (p + ((c_chars (area_from mem p)).length + 1)) =
      (area_from mem p).drop ((c_chars (area_from mem p)).length + 1) := by
  generalize (c_chars (area_from mem p)).length + 1 = l
  rw [area_from, area_from]
  by_cases hl : l ≤ LOADER_ARGS + LOADER_ARGS_LEN - p
  · rw [drop_window hl, Nat.sub_add_eq]
  · rw [List.drop_eq_nil_of_le (by rw [length_window]; omega),
      Nat.sub_eq_zero_of_le (by omega), window_zero]

theorem strings_terminated (hs : 0 ∉ s) : strings (s ++ 0 :: rest) = strings rest + 1 := by
  have hcount := List.count_eq_zero.2 hs
  have hne : s ++ 0 :: rest ≠ [] := by simp
  rw [strings.eq_2 _ hne]
  cases rest with
  | nil => simp [strings, hcount]
  | cons c rest =>
      rw [List.dropLast_append_of_ne_nil (by simp), List.dropLast_cons_of_ne_nil (by simp),
        List.count_append, hcount, List.count_cons_self, strings.eq_2 _ (List.cons_ne_nil c rest)]
      omega

theorem strings_unterminated (hs : 0 ∉ s) (hne : s ≠ []) : strings s = 1 := by
  have hcount : s.dropLast.count 0 = 0 :=
    List.count_eq_zero.2 fun h => hs (List.dropLast_subset s h)
  rw [strings.eq_2 _ hne, hcount]

theorem drop_terminated : (s ++ 0 :: rest).drop (s.length + 1) = rest := by
  rw [← List.drop_drop, List.drop_left, List.drop_succ_cons, List.drop_zero]

/-- One string less begins behind the first one. -/
theorem strings_next (hne : s ≠ []) :
    strings s = strings (s.drop ((c_chars s).length + 1)) + 1 := by
  rcases area_cases s with ⟨a, rest, rfl, ha, heq⟩ | ⟨hs, heq⟩
  · rw [heq, drop_terminated, strings_terminated ha]
  · rw [heq, List.drop_eq_nil_of_le (by omega), strings_unterminated hs hne]
    rfl

/-- As many strings begin as there are nulls, and one more where the last one has none. -/
theorem count_le_strings (s : Bytes) : s.count 0 ≤ strings s := by
  rcases List.eq_nil_or_concat' s with rfl | ⟨s, c, rfl⟩
  · exact Nat.zero_le _
  · have hlast : List.count 0 [c] ≤ 1 := List.count_le_length
    rw [strings.eq_2 _ (by simp), List.dropLast_concat, List.count_append]
    omega

/-! ## The loop -/

theorem read_args_succ {argc : Int} (hne : area_from mem p ≠ []) :
    read_args mem argc (n + 1) i p =
      (((i : Int), p) :: (read_args mem argc n (i + 1)
        (p + ((c_chars (area_from mem p)).length + 1))).1,
      (read_args mem argc n (i + 1) (p + ((c_chars (area_from mem p)).length + 1))).2) := by
  have hp := mt area_from_eq_nil.2 hne
  have hlen : strnlen (fun j => mem (p + j)) (LOADER_ARGS + LOADER_ARGS_LEN - p) 0 =
      (c_chars (area_from mem p)).length := by
    rw [strnlen_eq _ _ (Nat.zero_le _), Nat.zero_add, Nat.sub_zero, area_from]
    congr 2
    exact window_shift fun j _ => by rw [Nat.zero_add]
  rw [read_args, if_neg hp, hlen]

/-- The elements that are stored, and when the kernel panics. -/
theorem read_args_indices {argc : Int} :
    (read_args mem argc n i p).1.map Prod.fst =
        (List.range' i (min n (strings (area_from mem p)))).map (Nat.cast : Nat → Int) ++
          (if n ≤ strings (area_from mem p) then [argc] else []) ∧
      (read_args mem argc n i p).2 = decide (strings (area_from mem p) < n) := by
  induction n generalizing i p with
  | zero => simp [read_args]
  | succ n ih =>
      by_cases hne : area_from mem p = []
      · have hp := area_from_eq_nil.1 hne
        rw [hne, read_args, if_pos hp]
        simp [strings]
      · have hnext := strings_next hne
        rw [← area_from_next] at hnext
        obtain ⟨hfst, hsnd⟩ := ih (i := i + 1) (p := p + ((c_chars (area_from mem p)).length + 1))
        rw [read_args_succ hne, hnext, Nat.add_min_add_right, List.range'_succ]
        simp only [List.map_cons, hfst, hsnd, Nat.add_le_add_iff_right, Nat.add_lt_add_iff_right,
          List.cons_append, and_self]

/-- The stores for the arguments `args`, the text of which begins at `p`. -/
def arg_stores : Nat → Nat → List CString → List (Int × Nat)
  | _, _, [] => []
  | i, p, a :: args => (↑i, p) :: arg_stores (i + 1) (p + (a.chars.length + 1)) args

/-- The text of the arguments, each with its null. -/
def arg_bytes (args : List CString) : Bytes := args.flatMap fun a => a.chars ++ [0]

theorem arg_bytes_cons (a : CString) (args : List CString) :
    arg_bytes (a :: args) = a.chars ++ 0 :: arg_bytes args := by
  simp [arg_bytes]

theorem count_arg_bytes (args : List CString) : (arg_bytes args).count 0 = args.length := by
  induction args with
  | nil => rfl
  | cons a args ih =>
      rw [arg_bytes_cons, List.count_append, List.count_cons_self, ih,
        List.count_eq_zero.2 a.no_null, List.length_cons, Nat.zero_add]

/-- As long as there are nulls, there are arguments. -/
theorem read_args_fills {argc : Int} (hn : n ≤ (area_from mem p).count 0) :
    ∃ args : List CString, args.length = n ∧ arg_bytes args <+: area_from mem p ∧
      (read_args mem argc n i p).1 = arg_stores i p args ++ [(argc, NULL)] := by
  induction n generalizing i p with
  | zero => exact ⟨[], rfl, List.nil_prefix, rfl⟩
  | succ n ih =>
      rcases area_cases (area_from mem p) with ⟨a, rest, hs, ha, heq⟩ | ⟨hs, heq⟩
      · have hne : area_from mem p ≠ [] := by rw [hs]; simp
        have hnext : area_from mem (p + (a.length + 1)) = rest := by
          rw [← heq, area_from_next, heq, hs, drop_terminated]
        have hcount : (area_from mem p).count 0 = rest.count 0 + 1 := by
          rw [hs, List.count_append, List.count_eq_zero.2 ha, List.count_cons_self, Nat.zero_add]
        obtain ⟨args, hlen, hpre, hstores⟩ :=
          ih (i := i + 1) (p := p + (a.length + 1)) (by rw [hnext]; omega)
        rw [hnext] at hpre
        refine ⟨⟨a, ha⟩ :: args, by rw [List.length_cons, hlen], ?_, ?_⟩
        · rw [arg_bytes_cons, hs]
          exact List.prefix_append_right_inj _ |>.2 (List.cons_prefix_cons.2 ⟨rfl, hpre⟩)
        · rw [read_args_succ hne, heq, hstores]
          rfl
      · rw [List.count_eq_zero.2 hs] at hn
        omega

/-! ## The call -/

/-- What the call has to do: every store is inside `argv`, and unless the kernel panics the stores
are pointers to as many arguments as the boot loader has counted, one behind the other in the area,
and the null behind them. -/
def ReadsCommandLine (mem : Nat → UInt8) : Prop :=
  (∀ w ∈ (read_command_line mem).1, 0 ≤ w.1 ∧ w.1 < ARGV_LEN) ∧
    ((read_command_line mem).2 = true ∨
      ∃ args : List CString, args.length = arg_count mem ∧
        arg_bytes args <+: window mem LOADER_ARGS LOADER_ARGS_LEN ∧
        (read_command_line mem).1 =
          arg_stores 0 LOADER_ARGS args ++ [((arg_count mem : Int), NULL)])

/-- The nulls of the area, and those of them that another byte of it comes behind. -/
def nulls (mem : Nat → UInt8) : Nat := (window mem LOADER_ARGS LOADER_ARGS_LEN).count 0

def inner_nulls (mem : Nat → UInt8) : Nat :=
  (window mem LOADER_ARGS (LOADER_ARGS_LEN - 1)).count 0

theorem area_from_start : area_from mem LOADER_ARGS = window mem LOADER_ARGS LOADER_ARGS_LEN := by
  rw [area_from, Nat.add_sub_cancel_left]

theorem strings_start : strings (area_from mem LOADER_ARGS) = inner_nulls mem + 1 := by
  have hne : window mem LOADER_ARGS LOADER_ARGS_LEN ≠ [] :=
    List.ne_nil_of_length_eq_add_one length_window
  rw [area_from_start, strings.eq_2 _ hne, List.dropLast_eq_take, length_window,
    take_window (by decide), inner_nulls]

/-- A count from 2³¹ on is a negative `argc`: no pass is taken, and the null is stored in front of
the array. -/
theorem read_command_line_negative (h : 2 ^ 31 ≤ arg_count mem) :
    argc mem < 0 ∧ read_command_line mem = ([(argc mem, NULL)], false) := by
  have hlt : arg_count mem < 256 ^ 4 := by
    have := le_val_lt (window mem LOADER_ARG_CNT 4)
    rwa [length_window] at this
  have hneg : argc mem < 0 := by
    rw [argc, int32]
    omega
  refine ⟨hneg, ?_⟩
  rw [read_command_line, Int.toNat_of_nonpos (le_of_lt hneg)]
  rfl

theorem read_command_line_eq (h : arg_count mem < 2 ^ 31) :
    read_command_line mem = read_args mem (arg_count mem) (arg_count mem) 0 LOADER_ARGS := by
  have hargc : argc mem = arg_count mem := int32_eq (by omega) (by omega)
  rw [read_command_line, hargc, Int.toNat_natCast]

theorem panics_iff (h : arg_count mem < 2 ^ 31) :
    (read_command_line mem).2 = true ↔ inner_nulls mem + 1 < arg_count mem := by
  rw [read_command_line_eq h, read_args_indices.2, strings_start, decide_eq_true_iff]

theorem stores_inside_iff (h : arg_count mem < 2 ^ 31) :
    (∀ w ∈ (read_command_line mem).1, 0 ≤ w.1 ∧ w.1 < ARGV_LEN) ↔
      (arg_count mem ≤ inner_nulls mem + 1 → arg_count mem < ARGV_LEN) ∧
        (inner_nulls mem + 1 < arg_count mem → inner_nulls mem < ARGV_LEN) := by
  have hfst := (@read_args_indices mem LOADER_ARGS 0 (arg_count mem) (arg_count mem)).1
  rw [strings_start] at hfst
  have hmap : (∀ w ∈ (read_command_line mem).1, 0 ≤ w.1 ∧ w.1 < ARGV_LEN) ↔
      ∀ x ∈ (read_command_line mem).1.map Prod.fst, 0 ≤ x ∧ x < (ARGV_LEN : Int) := by
    rw [List.forall_mem_map]
  rw [hmap, read_command_line_eq h, hfst]
  constructor
  · intro hall
    refine ⟨fun hle => ?_, fun hlt => ?_⟩
    · have := hall (arg_count mem) (by simp [hle])
      omega
    · have := hall (inner_nulls mem) (by simp; omega)
      omega
  · rintro ⟨hle, hlt⟩ x hx
    rcases List.mem_append.1 hx with hx | hx
    · obtain ⟨j, hj, rfl⟩ := List.mem_map.1 hx
      rw [List.mem_range'_1] at hj
      omega
    · split at hx
      · cases List.mem_singleton.1 hx
        omega
      · cases hx

theorem read_command_line_iff (mem : Nat → UInt8) :
    ReadsCommandLine mem ↔ arg_count mem < 2 ^ 31 ∧
      ((arg_count mem < ARGV_LEN ∧ arg_count mem ≤ nulls mem) ∨
        (inner_nulls mem + 1 < arg_count mem ∧ inner_nulls mem < ARGV_LEN)) := by
  by_cases hlt : arg_count mem < 2 ^ 31
  · have hle : nulls mem ≤ inner_nulls mem + 1 := by
      rw [← strings_start, nulls, ← area_from_start]
      exact count_le_strings _
    rw [ReadsCommandLine, stores_inside_iff hlt, panics_iff hlt]
    constructor
    · rintro ⟨⟨hfit, hpanic⟩, hpanics | ⟨args, hlen, hpre, -⟩⟩
      · exact ⟨hlt, Or.inr ⟨hpanics, hpanic hpanics⟩⟩
      · have hcount : arg_count mem ≤ nulls mem := by
          rw [← hlen, ← count_arg_bytes]
          exact hpre.sublist.count_le 0
        exact ⟨hlt, Or.inl ⟨hfit (by omega), hcount⟩⟩
    · rintro ⟨-, ⟨hfit, hcount⟩ | ⟨hpanics, hfit⟩⟩
      · refine ⟨⟨fun _ => hfit, by omega⟩, Or.inr ?_⟩
        have hcount' : arg_count mem ≤ (area_from mem LOADER_ARGS).count 0 := by
          rwa [area_from_start]
        obtain ⟨args, hlen, hpre, hstores⟩ := read_args_fills hcount'
        rw [area_from_start] at hpre
        exact ⟨args, hlen, hpre, by rw [read_command_line_eq hlt, hstores]⟩
      · exact ⟨⟨by omega, fun _ => hfit⟩, Or.inl hpanics⟩
  · refine ⟨fun h => ?_, fun h => absurd h.1 hlt⟩
    obtain ⟨hneg, heq⟩ := read_command_line_negative (Nat.le_of_not_lt hlt)
    have := h.1 (argc mem, NULL) (by rw [heq]; exact List.mem_singleton_self _)
    simp only at this
    omega

/-- 128 arguments of no characters: as many as the area has room for, and more than `argv` has. -/
def empty_args (a : Nat) : UInt8 := if a = LOADER_ARG_CNT then 128 else 0

theorem read_command_line_overruns : ¬ ReadsCommandLine empty_args := by
  intro h
  have hcount : arg_count empty_args = 128 := by decide
  have hinner : inner_nulls empty_args = 127 := by
    refine (List.count_eq_length.2 fun c hc => ?_).trans length_window
    obtain ⟨j, _, rfl⟩ := List.mem_map.1 hc
    rw [empty_args, if_neg]
    simp only [LOADER_ARG_CNT, LOADER_ARGS, PHYS_BASE, LOADER_ARGS_LEN]
    omega
  have hinside := ((stores_inside_iff (by rw [hcount]; decide)).1 h.1).1
  rw [hcount, hinner] at hinside
  exact absurd (hinside (by decide)) (by decide)

end Berk162
