import Mathlib.Data.List.GetD
import Mathlib.Tactic

/-!
# Window — strings cut out of and written into an array

An array is a function from positions to cells.  `window f ofs n` is the string of the `n` cells
from position `ofs` on, and `overlay f ofs xs` is the array after the string `xs` has been written
at `ofs`.

We provide:

* `window_add`, `overlay_append` — strings are read and written piece by piece;
* `window_overlay_self`, `window_overlay_of_disjoint` — what is read after a write.
-/

namespace Berk162

variable {α : Type*}

/-- The `n` cells from `ofs` on. -/
def window (f : Nat → α) (ofs n : Nat) : List α := (List.range n).map fun i => f (ofs + i)

variable {f g : Nat → α} {ofs n : Nat} {xs ys : List α}

@[simp] theorem length_window : (window f ofs n).length = n := by
  simp [window]

@[simp] theorem window_zero : window f ofs 0 = [] := rfl

theorem getElem_window {i : Nat} (h : i < (window f ofs n).length) :
    (window f ofs n)[i] = f (ofs + i) := by
  simp [window]

theorem getD_window {i : Nat} (h : i < n) (d : α) : (window f ofs n).getD i d = f (ofs + i) := by
  rw [List.getD_eq_getElem _ _ (by simpa using h), getElem_window]

theorem window_add (f : Nat → α) (ofs m n : Nat) :
    window f ofs (m + n) = window f ofs m ++ window f (ofs + m) n := by
  simp [window, List.range_add, List.map_map, Function.comp_def, Nat.add_assoc]

theorem window_congr (h : ∀ k, ofs ≤ k → k < ofs + n → f k = g k) :
    window f ofs n = window g ofs n := by
  refine List.map_congr_left fun i hi => ?_
  have hlt := List.mem_range.1 hi
  exact h (ofs + i) (by omega) (by omega)

/-- Windows on two arrays are equal where the arrays agree, each from its own position on. -/
theorem window_shift {m : Nat} (h : ∀ i, i < n → f (ofs + i) = g (m + i)) :
    window f ofs n = window g m n :=
  List.map_congr_left fun i hi => h i (List.mem_range.1 hi)

theorem take_window {m : Nat} (h : m ≤ n) : (window f ofs n).take m = window f ofs m := by
  rcases Nat.exists_eq_add_of_le h with ⟨r, rfl⟩
  rw [window_add]
  simp

theorem drop_window {m : Nat} (h : m ≤ n) :
    (window f ofs n).drop m = window f (ofs + m) (n - m) := by
  rcases Nat.exists_eq_add_of_le h with ⟨r, rfl⟩
  rw [window_add]
  simp

/-- A string is the window on itself. -/
theorem window_getD (xs : List α) (d : α) : window (fun i => xs.getD i d) 0 xs.length = xs := by
  refine List.ext_getElem (by simp) fun i hi hi' => ?_
  rw [getElem_window, Nat.zero_add, List.getD_eq_getElem _ _ hi']

/-! ## Writing -/

variable [Inhabited α]

/-- The array after the string `xs` has been written at `ofs`. -/
def overlay (f : Nat → α) (ofs : Nat) (xs : List α) : Nat → α := fun k =>
  if ofs ≤ k ∧ k < ofs + xs.length then xs.getD (k - ofs) default else f k

theorem overlay_of_mem {k : Nat} (h : ofs ≤ k) (h' : k < ofs + xs.length) :
    overlay f ofs xs k = xs.getD (k - ofs) default := by
  rw [overlay, if_pos ⟨h, h'⟩]

theorem overlay_of_not_mem {k : Nat} (h : k < ofs ∨ ofs + xs.length ≤ k) :
    overlay f ofs xs k = f k := by
  rw [overlay, if_neg (by omega)]

@[simp] theorem overlay_nil : overlay f ofs [] = f := by
  funext k
  exact overlay_of_not_mem (by simp only [List.length_nil]; omega)

/-- Two strings are written one after the other. -/
theorem overlay_append (f : Nat → α) (ofs : Nat) (xs ys : List α) :
    overlay (overlay f ofs xs) (ofs + xs.length) ys = overlay f ofs (xs ++ ys) := by
  funext k
  by_cases hx : k < ofs + xs.length
  · rw [overlay_of_not_mem (Or.inl hx)]
    by_cases hk : ofs ≤ k
    · rw [overlay_of_mem hk hx, overlay_of_mem hk (by rw [List.length_append]; omega),
        List.getD_append _ _ _ _ (by omega)]
    · rw [overlay_of_not_mem (by omega), overlay_of_not_mem (by omega)]
  · have hlen := @List.length_append _ xs ys
    by_cases hy : k < ofs + xs.length + ys.length
    · rw [overlay_of_mem (by omega) hy, overlay_of_mem (by omega) (by omega),
        List.getD_append_right _ _ _ _ (by omega), Nat.sub_sub]
    · rw [overlay_of_not_mem (by omega), overlay_of_not_mem (by omega),
        overlay_of_not_mem (by omega)]

/-- Storing a string element by element. -/
theorem foldl_update_zipIdx (f : Nat → α) (ofs k : Nat) (xs : List α) :
    (xs.zipIdx k).foldl (fun f s => Function.update f (ofs + s.2) s.1) f =
      overlay f (ofs + k) xs := by
  induction xs generalizing f k with
  | nil =>
      rw [List.zipIdx_nil, List.foldl_nil, overlay_nil]
  | cons x xs ih =>
      have hfirst : Function.update f (ofs + k) x = overlay f (ofs + k) [x] := by
        funext i
        by_cases hi : i = ofs + k
        · subst hi
          rw [Function.update_self, overlay_of_mem (Nat.le_refl _) (by simp)]
          simp
        · rw [Function.update_of_ne hi, overlay_of_not_mem]
          rw [List.length_singleton]
          omega
      have happend := overlay_append f (ofs + k) [x] xs
      rw [List.length_singleton, List.singleton_append] at happend
      rw [List.zipIdx_cons, List.foldl_cons, ih, hfirst, ← Nat.add_assoc, happend]

/-- What was written is read back. -/
theorem window_overlay_self : window (overlay f ofs xs) ofs xs.length = xs := by
  conv_rhs => rw [← window_getD xs default]
  refine window_shift fun i hi => ?_
  rw [overlay_of_mem (by omega) (by omega), Nat.add_sub_cancel_left, Nat.zero_add]

/-- What lies apart from the string is not changed. -/
theorem window_overlay_of_disjoint {m : Nat} (h : m + n ≤ ofs ∨ ofs + xs.length ≤ m) :
    window (overlay f ofs xs) m n = window f m n :=
  window_congr fun k hk hk' => overlay_of_not_mem (by omega)

end Berk162
