import Mathlib.Data.List.Basic

/-!
# Fold — loops that may stop early

A loop over a list whose body may fail is `List.foldlM` in `Option`.  These are its rules: what
every pass keeps, when the loop fails, and when it cannot.
-/

namespace Berk162

universe u v

variable {α : Type u} {β : Type v} {f g : β → α → Option β} {l : List α}

/-- What every pass of the loop keeps holds when the loop ends. -/
theorem foldlM_invariant {I : β → Prop}
    (hstep : ∀ b a c, a ∈ l → I b → f b a = some c → I c)
    {b c : β} (h : l.foldlM f b = some c) (hb : I b) : I c := by
  induction l generalizing b with
  | nil =>
      cases h
      exact hb
  | cons a l ih =>
      rw [List.foldlM_cons] at h
      rcases Option.bind_eq_some_iff.1 h with ⟨d, hd, hrest⟩
      have hId : I d := hstep b a d List.mem_cons_self hb hd
      exact ih (fun b a c ha => hstep b a c (List.mem_cons_of_mem _ ha)) hrest hId

/-- A loop whose passes all succeed succeeds. -/
theorem foldlM_exists (hf : ∀ a ∈ l, ∀ b, ∃ c, f b a = some c) (b : β) :
    ∃ c, l.foldlM f b = some c := by
  induction l generalizing b with
  | nil =>
      exact ⟨b, rfl⟩
  | cons a l ih =>
      rcases hf a List.mem_cons_self b with ⟨d, hd⟩
      rcases ih (fun a ha => hf a (List.mem_cons_of_mem _ ha)) d with ⟨c, hc⟩
      exact ⟨c, by rw [List.foldlM_cons, hd]; exact hc⟩

/-- A loop fails when one of its passes fails in every state. -/
theorem foldlM_eq_none {a : α} (ha : a ∈ l) (hf : ∀ b, f b a = none) (b : β) :
    l.foldlM f b = none := by
  induction l generalizing b with
  | nil =>
      cases ha
  | cons a' l ih =>
      rw [List.foldlM_cons]
      rcases List.mem_cons.1 ha with rfl | ha
      · rw [hf b]
        rfl
      · cases f b a' with
        | none =>
            rfl
        | some d =>
            exact ih ha d

/-- A body that succeeds wherever `f` does, with the same state, ends as `f` does. -/
theorem foldlM_mono (hfg : ∀ b a c, f b a = some c → g b a = some c) {b c : β}
    (h : l.foldlM f b = some c) : l.foldlM g b = some c := by
  induction l generalizing b with
  | nil =>
      exact h
  | cons a l ih =>
      rw [List.foldlM_cons] at h ⊢
      rcases Option.bind_eq_some_iff.1 h with ⟨d, hd, hrest⟩
      rw [hfg b a d hd]
      exact ih hrest

end Berk162
