import Mathlib.Data.List.TakeDrop
import Mathlib.Tactic

/-!
# Substring — the first occurrence of a string in another

A string is a list over any alphabet.  What is in front of the first occurrence is passed piece by
piece: a piece that lacks the first letter of the needle, or one that lacks the needle and ends in a
letter that the needle lacks.
-/

namespace Berk162

variable {α : Type} {needle s a : List α} {c : α} {k n : Nat}

/-- The needle begins at position `k`. -/
def OccursAt (needle s : List α) (k : Nat) : Prop := needle <+: s.drop k

instance [DecidableEq α] (needle s : List α) (k : Nat) : Decidable (OccursAt needle s k) :=
  inferInstanceAs (Decidable (needle <+: s.drop k))

/-- The needle begins at position `k` and nowhere before. -/
structure FirstAt (needle s : List α) (k : Nat) : Prop where
  occurs : OccursAt needle s k
  first : ∀ j < k, ¬ OccursAt needle s j

/-- The needle is nowhere in the string. -/
def Absent (needle s : List α) : Prop := ∀ k, ¬ OccursAt needle s k

namespace OccursAt

theorem bound (h : OccursAt needle s k) (hne : needle ≠ []) : k + needle.length ≤ s.length := by
  have hlen := h.length_le
  have hpos : 0 < needle.length := List.length_pos_iff.2 hne
  rw [List.length_drop] at hlen
  omega

theorem mem (h : OccursAt needle s k) (hc : c ∈ needle) : c ∈ s :=
  List.mem_of_mem_drop (h.subset hc)

/-- An occurrence behind the first piece is one in the rest. -/
theorem append_iff : OccursAt needle (a ++ s) (a.length + k) ↔ OccursAt needle s k := by
  rw [OccursAt, OccursAt, List.drop_length_add_append]

theorem cons_succ_iff : OccursAt needle (c :: s) (k + 1) ↔ OccursAt needle s k := Iff.rfl

theorem getElem? (h : OccursAt needle s k) {i : Nat} (hi : i < needle.length) :
    s[k + i]? = needle[i]? := by
  obtain ⟨t, ht⟩ := h
  have hdrop : (s.drop k)[i]? = s[k + i]? := List.getElem?_drop
  rw [← hdrop, ← ht, List.getElem?_append_left hi]

/-- What lies inside the first `n` letters is seen there. -/
theorem take_iff (hne : needle ≠ []) :
    OccursAt needle (s.take n) k ↔ OccursAt needle s k ∧ k + needle.length ≤ n := by
  constructor
  · intro h
    have hbound := h.bound hne
    rw [List.length_take] at hbound
    refine ⟨?_, by omega⟩
    rw [OccursAt, List.drop_take] at h
    exact h.trans (List.take_prefix _ _)
  · rintro ⟨h, hn⟩
    rw [OccursAt, List.drop_take, List.prefix_take_iff]
    exact ⟨h, by omega⟩

/-- An occurrence does not reach over a letter that the needle lacks. -/
theorem of_barrier (hc : c ∉ needle) (hne : needle ≠ []) (h : OccursAt needle (a ++ c :: s) k)
    (hk : k ≤ a.length) : OccursAt needle a k := by
  have hlen : k + needle.length ≤ a.length := by
    by_contra hlong
    have hi : a.length - k < needle.length := by omega
    have hget := h.getElem? hi
    have hat : (a ++ c :: s)[k + (a.length - k)]? = some c := by
      rw [Nat.add_sub_cancel' hk]
      simp
    rw [hat] at hget
    exact hc (List.mem_of_getElem? hget.symm)
  have htake : OccursAt needle ((a ++ c :: s).take a.length) k := (take_iff hne).2 ⟨h, hlen⟩
  rwa [List.take_left'] at htake
  rfl

end OccursAt

namespace Absent

theorem of_not_mem (hc : c ∈ needle) (hs : c ∉ s) : Absent needle s := fun _ h => hs (h.mem hc)

theorem not_mem (h : Absent [c] s) : c ∉ s := by
  intro hc
  obtain ⟨i, hi, rfl⟩ := List.mem_iff_getElem.1 hc
  apply h i
  rw [OccursAt, List.drop_eq_getElem_cons hi]
  exact ⟨_, rfl⟩

end Absent

namespace FirstAt

theorem here (h : needle <+: s) : FirstAt needle s 0 := ⟨h, fun j hj => absurd hj (Nat.not_lt_zero j)⟩

/-- A first piece in which no occurrence begins. -/
theorem skip (ha : ∀ i < a.length, ¬ OccursAt needle (a ++ s) i) (h : FirstAt needle s k) :
    FirstAt needle (a ++ s) (a.length + k) where
  occurs := OccursAt.append_iff.2 h.occurs
  first j hj hocc := by
    rcases Nat.lt_or_ge j a.length with hlt | hge
    · exact ha j hlt hocc
    · obtain ⟨i, rfl⟩ := Nat.exists_eq_add_of_le hge
      exact h.first i (by omega) (OccursAt.append_iff.1 hocc)

/-- A first piece without the first letter of the needle. -/
theorem past_letters (hc : needle.head? = some c) (ha : c ∉ a) (h : FirstAt needle s k) :
    FirstAt needle (a ++ s) (a.length + k) := by
  apply skip _ h
  intro i hi hocc
  have hpos : 0 < needle.length := by
    cases needle with
    | nil =>
        cases hc
    | cons d needle =>
        exact Nat.zero_lt_succ _
  have hget := hocc.getElem? hpos
  rw [Nat.add_zero, List.getElem?_append_left hi, ← List.head?_eq_getElem?, hc] at hget
  exact ha (List.mem_of_getElem? hget)

/-- A first piece without the needle, up to a letter that the needle lacks. -/
theorem past_barrier (hc : c ∉ needle) (hne : needle ≠ []) (ha : Absent needle a)
    (h : FirstAt needle s k) : FirstAt needle (a ++ c :: s) (a.length + (k + 1)) := by
  have hcons : FirstAt needle (c :: s) (k + 1) := by
    refine ⟨OccursAt.cons_succ_iff.2 h.occurs, fun j hj hocc => ?_⟩
    cases j with
    | zero =>
        exact ha 0 (OccursAt.of_barrier (a := []) hc hne hocc (Nat.le_refl 0) |>.trans
          (List.nil_prefix))
    | succ j =>
        exact h.first j (by omega) (OccursAt.cons_succ_iff.1 hocc)
  apply skip _ hcons
  intro i hi hocc
  exact ha i (hocc.of_barrier hc hne (Nat.le_of_lt hi))

theorem take (hne : needle ≠ []) (h : FirstAt needle s k) (hn : k + needle.length ≤ n) :
    FirstAt needle (s.take n) k where
  occurs := (OccursAt.take_iff hne).2 ⟨h.occurs, hn⟩
  first j hj hocc := h.first j hj ((OccursAt.take_iff hne).1 hocc).1

/-- A prefix that ends before the end of the first occurrence lacks the needle. -/
theorem absent_take (hne : needle ≠ []) (h : FirstAt needle s k) (hn : n < k + needle.length) :
    Absent needle (s.take n) := by
  intro j hocc
  obtain ⟨hocc, hj⟩ := (OccursAt.take_iff hne).1 hocc
  rcases Nat.lt_or_ge j k with hlt | hge
  · exact h.first j hlt hocc
  · omega

theorem of_take (hne : needle ≠ []) (h : FirstAt needle (s.take n) k) : FirstAt needle s k where
  occurs := ((OccursAt.take_iff hne).1 h.occurs).1
  first j hj hocc := by
    have hbound := ((OccursAt.take_iff hne).1 h.occurs).2
    exact h.first j hj ((OccursAt.take_iff hne).2 ⟨hocc, by omega⟩)

end FirstAt

/-- The needle occurs, and `rest` is what follows its first occurrence. -/
def Finds (needle s rest : List α) : Prop :=
  ∃ k, FirstAt needle s k ∧ s.drop (k + needle.length) = rest

namespace Finds

variable {rest : List α}

theorem here (needle rest : List α) : Finds needle (needle ++ rest) rest :=
  ⟨0, FirstAt.here (List.prefix_append needle rest), by simp⟩

theorem skip (ha : ∀ i < a.length, ¬ OccursAt needle (a ++ s) i) (h : Finds needle s rest) :
    Finds needle (a ++ s) rest := by
  obtain ⟨k, hfirst, hrest⟩ := h
  refine ⟨a.length + k, hfirst.skip ha, ?_⟩
  rw [Nat.add_assoc, List.drop_length_add_append, hrest]

theorem past_letters (hc : needle.head? = some c) (ha : c ∉ a) (h : Finds needle s rest) :
    Finds needle (a ++ s) rest := by
  obtain ⟨k, hfirst, hrest⟩ := h
  refine ⟨a.length + k, hfirst.past_letters hc ha, ?_⟩
  rw [Nat.add_assoc, List.drop_length_add_append, hrest]

theorem past_barrier (hc : c ∉ needle) (hne : needle ≠ []) (ha : Absent needle a)
    (h : Finds needle s rest) : Finds needle (a ++ c :: s) rest := by
  obtain ⟨k, hfirst, hrest⟩ := h
  refine ⟨a.length + (k + 1), hfirst.past_barrier hc hne ha, ?_⟩
  have hsum : a.length + (k + 1) + needle.length = a.length + (k + needle.length + 1) := by omega
  rw [hsum, List.drop_length_add_append, List.drop_succ_cons, hrest]

end Finds

/-! ## Search -/

section

variable [DecidableEq α]

/-- The position of the first occurrence, which is at most the length of the string. -/
def findFirst (needle s : List α) : Option Nat :=
  (List.range (s.length + 1)).find? fun k => decide (OccursAt needle s k)

theorem findFirst_eq_some (hne : needle ≠ []) : findFirst needle s = some k ↔ FirstAt needle s k := by
  rw [findFirst, List.find?_range_eq_some]
  simp only [decide_eq_true_eq, List.mem_range, Bool.not_eq_true', decide_eq_false_iff_not]
  constructor
  · rintro ⟨hocc, -, hfirst⟩
    exact ⟨hocc, hfirst⟩
  · intro h
    have hbound := h.occurs.bound hne
    exact ⟨h.occurs, by omega, h.first⟩

theorem findFirst_eq_none (hne : needle ≠ []) : findFirst needle s = none ↔ Absent needle s := by
  rw [findFirst, List.find?_range_eq_none]
  simp only [Bool.not_eq_true', decide_eq_false_iff_not]
  constructor
  · intro h k hocc
    have hbound := hocc.bound hne
    exact h k (by omega) hocc
  · intro h k _
    exact h k

end

end Berk162
