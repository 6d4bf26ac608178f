import Berk162.Lib.Lines

/-!
# Rows — a text laid out in rows of a width

The separator breaks the text into lines, and a line goes on in a new row as soon as a row holds
`w` elements.  The last row is the one that the next element goes to.

`text_rows_snoc` says how a text that grows by one element changes its rows.
-/

namespace Berk162

variable {α : Type} {w : Nat} {l : List α} {c : α}

/-- The rows of a line that hold `w` elements. -/
def full_rows (w : Nat) (l : List α) : List (List α) :=
  (List.range (l.length / w)).map fun i => (l.drop (w * i)).take w

/-- What of a line is behind its full rows. -/
def last_row (w : Nat) (l : List α) : List α := l.drop (w * (l.length / w))

def line_rows (w : Nat) (l : List α) : List (List α) := full_rows w l ++ [last_row w l]

theorem length_last_row : (last_row w l).length = l.length % w := by
  rw [last_row, List.length_drop, Nat.mod_eq_sub]

/-- The full rows of a line stay as they are when the line grows. -/
theorem full_row_append (t : List α) {i : Nat} (hi : i < l.length / w) :
    ((l ++ t).drop (w * i)).take w = (l.drop (w * i)).take w := by
  have hle : w * i + w ≤ l.length := by
    calc w * i + w = w * (i + 1) := (Nat.mul_succ w i).symm
      _ ≤ w * (l.length / w) := Nat.mul_le_mul_left w hi
      _ ≤ l.length := Nat.mul_div_le _ _
  rw [List.drop_append_of_le_length (by omega), List.take_append_of_le_length]
  rw [List.length_drop]
  omega

theorem last_row_append (t : List α) :
    (l ++ t).drop (w * (l.length / w)) = last_row w l ++ t :=
  List.drop_append_of_le_length (Nat.mul_div_le _ _)

/-- A row with room for `c` and more. -/
theorem line_rows_snoc_of_lt (hw : 0 < w) (h : (last_row w l).length + 1 < w) :
    line_rows w (l ++ [c]) = full_rows w l ++ [last_row w l ++ [c]] := by
  rw [length_last_row] at h
  have hdiv : (l ++ [c]).length / w = l.length / w := by
    rw [List.length_append, List.length_singleton, Nat.div_eq_iff hw]
    have hmod := Nat.div_add_mod l.length w
    have hcomm := Nat.mul_comm w (l.length / w)
    omega
  rw [line_rows, full_rows, last_row, hdiv, last_row_append]
  congr 1
  exact List.map_congr_left fun i hi => full_row_append [c] (List.mem_range.1 hi)

/-- A row that `c` fills: the next one is begun at once. -/
theorem line_rows_snoc_of_eq (hw : 0 < w) (h : (last_row w l).length + 1 = w) :
    line_rows w (l ++ [c]) = full_rows w l ++ [last_row w l ++ [c], []] := by
  have hlast := h
  rw [length_last_row] at h
  have hmod := Nat.div_add_mod l.length w
  have hlen : (l ++ [c]).length = w * (l.length / w + 1) := by
    rw [List.length_append, List.length_singleton, Nat.mul_succ]
    omega
  have hdiv : (l ++ [c]).length / w = l.length / w + 1 := by
    rw [hlen, Nat.mul_div_cancel_left _ hw]
  have hfull : (last_row w l ++ [c]).take w = last_row w l ++ [c] := by
    apply List.take_of_length_le
    rw [List.length_append, List.length_singleton]
    exact hlast.le
  have hrest : (l ++ [c]).drop (w * (l.length / w + 1)) = [] := by
    rw [← hlen, List.drop_length]
  rw [line_rows, full_rows, last_row, hdiv, hrest, List.range_succ, List.map_append,
    List.map_singleton, last_row_append, hfull, List.append_assoc]
  congr 1
  exact List.map_congr_left fun i hi => full_row_append [c] (List.mem_range.1 hi)

/-! ## Texts -/

variable [DecidableEq α] {sep : α} {a s : List α}

def text_rows (sep : α) (w : Nat) (s : List α) : List (List α) :=
  (s.splitOn sep).flatMap (line_rows w)

theorem text_rows_of_not_mem (h : sep ∉ s) : text_rows sep w s = line_rows w s := by
  rw [text_rows, List.splitOn_eq_singleton h, List.flatMap_singleton]

theorem text_rows_append (h : sep ∉ a) :
    text_rows sep w (a ++ sep :: s) = line_rows w a ++ text_rows sep w s := by
  rw [text_rows, List.splitOn_append_cons_self_of_not_mem h, List.flatMap_cons, text_rows]

theorem text_rows_nil : text_rows sep w [] = [[]] := by
  rw [text_rows_of_not_mem List.not_mem_nil]
  simp [line_rows, full_rows, last_row]

/-- The separator begins a row. -/
theorem text_rows_snoc_sep : text_rows sep w (s ++ [sep]) = text_rows sep w s ++ [[]] := by
  induction s using line_induction sep with
  | last s h => rw [text_rows_append h, text_rows_nil, text_rows_of_not_mem h]
  | line a s h ih =>
      rw [List.append_assoc, List.cons_append, text_rows_append h, ih, text_rows_append h,
        List.append_assoc]

/-- Every other element goes to the end of the last row, and where it fills that row another one is
begun. -/
theorem text_rows_snoc (hw : 0 < w) (hc : c ≠ sep) :
    ∃ rows row, text_rows sep w s = rows ++ [row] ∧ row.length < w ∧
      text_rows sep w (s ++ [c]) =
        if row.length + 1 < w then rows ++ [row ++ [c]] else rows ++ [row ++ [c], []] := by
  induction s using line_induction sep with
  | last s h =>
      have hlt : (last_row w s).length < w := by
        rw [length_last_row]
        exact Nat.mod_lt _ hw
      have hmem : sep ∉ s ++ [c] := by
        rw [List.mem_append, List.mem_singleton, not_or]
        exact ⟨h, hc.symm⟩
      refine ⟨full_rows w s, last_row w s, text_rows_of_not_mem h, hlt, ?_⟩
      rw [text_rows_of_not_mem hmem]
      split
      · rename_i hroom
        exact line_rows_snoc_of_lt hw hroom
      · rename_i hroom
        exact line_rows_snoc_of_eq hw (by omega)
  | line a s h ih =>
      obtain ⟨rows, row, heq, hlt, hsnoc⟩ := ih
      refine ⟨line_rows w a ++ rows, row, ?_, hlt, ?_⟩
      · rw [text_rows_append h, heq, List.append_assoc]
      · rw [List.append_assoc, List.cons_append, text_rows_append h, hsnoc]
        split <;> rw [List.append_assoc]

end Berk162
