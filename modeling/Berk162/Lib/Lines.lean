import Berk162.Lib.Substring

/-!
# Lines — a string cut at a separator

`ended` are the pieces that the separator ends and `unended` is what is behind the last separator.
The lines of a text are the first and, if there is something of it, the second.
-/

namespace Berk162

variable {α : Type} [DecidableEq α] {sep : α} {a s : List α}

def ended (sep : α) (s : List α) : List (List α) := (s.splitOn sep).dropLast

def unended (sep : α) (s : List α) : List α := ((s.splitOn sep).getLast?).getD []

def lines (sep : α) (s : List α) : List (List α) :=
  ended sep s ++ if unended sep s = [] then [] else [unended sep s]

theorem ended_of_not_mem (h : sep ∉ s) : ended sep s = [] := by
  rw [ended, List.splitOn_eq_singleton h]
  rfl

theorem unended_of_not_mem (h : sep ∉ s) : unended sep s = s := by
  rw [unended, List.splitOn_eq_singleton h]
  rfl

theorem ended_append (h : sep ∉ a) : ended sep (a ++ sep :: s) = a :: ended sep s := by
  rw [ended, List.splitOn_append_cons_self_of_not_mem h,
    List.dropLast_cons_of_ne_nil (List.splitOn_ne_nil _ _), ended]

theorem unended_append (h : sep ∉ a) : unended sep (a ++ sep :: s) = unended sep s := by
  rw [unended, List.splitOn_append_cons_self_of_not_mem h,
    List.getLast?_cons_of_ne_nil (List.splitOn_ne_nil _ _), unended]

theorem lines_of_not_mem (h : sep ∉ s) : lines sep s = if s = [] then [] else [s] := by
  rw [lines, ended_of_not_mem h, unended_of_not_mem h, List.nil_append]

theorem lines_append (h : sep ∉ a) : lines sep (a ++ sep :: s) = a :: lines sep s := by
  rw [lines, ended_append h, unended_append h, lines, List.cons_append]

/-- Every string is a piece without the separator, or such a piece, the separator and a string. -/
@[elab_as_elim] theorem line_induction {motive : List α → Prop} (sep : α) (s : List α)
    (last : ∀ s, sep ∉ s → motive s)
    (line : ∀ a s, sep ∉ a → motive s → motive (a ++ sep :: s)) : motive s := by
  induction hn : s.length using Nat.strong_induction_on generalizing s with
  | _ n ih =>
      by_cases h : sep ∈ s
      · obtain ⟨a, t, rfl, ha⟩ := List.eq_append_cons_of_mem h
        refine line a t ha (ih t.length ?_ t rfl)
        rw [← hn, List.length_append, List.length_cons]
        omega
      · exact last s h

/-- The first separator of a string is behind its first piece. -/
theorem findFirst_singleton (h : sep ∉ a) : findFirst [sep] (a ++ sep :: s) = some a.length := by
  rw [findFirst_eq_some (List.cons_ne_nil _ _)]
  refine ⟨⟨s, by simp⟩, fun j hj hocc => h ?_⟩
  have hget := hocc.getElem? (i := 0) (by simp)
  rw [Nat.add_zero, List.getElem?_append_left hj] at hget
  exact List.mem_of_getElem? hget

theorem findFirst_singleton_of_not_mem (h : sep ∉ s) : findFirst [sep] s = none := by
  rw [findFirst_eq_none (List.cons_ne_nil _ _)]
  exact fun k hocc => h (hocc.mem List.mem_cons_self)

/-- A string is found just where it is a part of another. -/
theorem findFirst_ne_none : findFirst a s ≠ none ↔ a <:+: s := by
  rw [findFirst, ne_eq, List.find?_range_eq_none]
  simp only [Bool.not_eq_true', decide_eq_false_iff_not, not_forall, not_not]
  constructor
  · rintro ⟨k, _, hocc⟩
    exact hocc.isInfix.trans (List.drop_suffix k s).isInfix
  · rintro ⟨u, v, rfl⟩
    refine ⟨u.length, by simp only [List.length_append]; omega, ?_⟩
    exact ⟨v, by simp⟩

end Berk162
