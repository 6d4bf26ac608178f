import Berk162.Lib.Transition

/-!
# Ranking — how long a run can keep something waiting

A goal is waited for in a set of states.  If every step either reaches the goal or goes on waiting,
with a rank that no step raises and that each step of some kind lowers, then a run with more steps
of that kind than the rank has passed through the goal.
-/

namespace Berk162

universe u v

namespace System

variable {σ : Type u} {ℓ : Type v} {M : System σ ℓ}

/-- The run `s ls t` passes through a state of `G`. -/
def Exec.Through (M : System σ ℓ) (G : σ → Prop) (s : σ) (ls : List ℓ) (t : σ) : Prop :=
  ∃ ls₁ u ls₂, ls = ls₁ ++ ls₂ ∧ M.Exec s ls₁ u ∧ G u ∧ M.Exec u ls₂ t

variable {G W : σ → Prop} {s t u : σ} {ls : List ℓ} {l : ℓ}

theorem Exec.through_last (h : M.Exec s ls t) (hg : G t) : Exec.Through M G s ls t :=
  ⟨ls, t, [], (List.append_nil ls).symm, h, hg, Exec.nil t⟩

theorem Exec.Through.snoc (h : Exec.Through M G s ls t) (hst : M.step t l u) :
    Exec.Through M G s (ls ++ [l]) u := by
  rcases h with ⟨ls₁, v, ls₂, rfl, hbefore, hg, hafter⟩
  exact ⟨ls₁, v, ls₂ ++ [l], List.append_assoc ls₁ ls₂ [l], hbefore, hg, Exec.snoc hafter hst⟩

/-- A run either passes through the goal or waits to its end, and then the rank has gone down by the
number of steps that lower it. -/
theorem Exec.through_or_waits (rank : σ → Nat) {q : ℓ → Bool} {I : σ → Prop}
    (hinv : ∀ s l t, I s → M.step s l t → I t)
    (hstep : ∀ s l t, I s → W s → M.step s l t →
      G t ∨ (W t ∧ rank t + (if q l then 1 else 0) ≤ rank s))
    (h : M.Exec s ls t) (hi : I s) (hw : W s) :
    Exec.Through M G s ls t ∨ (W t ∧ rank t + ls.countP q ≤ rank s) := by
  induction h with
  | nil =>
      exact Or.inr ⟨hw, Nat.le_refl _⟩
  | @snoc t u ls l hex hst ih =>
      rcases ih with hthrough | ⟨hwt, hrank⟩
      · exact Or.inl (hthrough.snoc hst)
      · rcases hstep t l u (hex.invariant hinv hi) hwt hst with hg | ⟨hwu, hlower⟩
        · exact Or.inl ((hex.snoc hst).through_last hg)
        · refine Or.inr ⟨hwu, ?_⟩
          rw [List.countP_append, List.countP_singleton]
          calc rank u + (ls.countP q + (if q l then 1 else 0))
              = rank u + (if q l then 1 else 0) + ls.countP q := by omega
            _ ≤ rank t + ls.countP q := Nat.add_le_add_right hlower _
            _ ≤ rank s := hrank

/-- A run with at least as many steps that lower the rank as the rank allows passes through the
goal. -/
theorem Exec.through_of_rank (rank : σ → Nat) {q : ℓ → Bool} {I : σ → Prop}
    (hinv : ∀ s l t, I s → M.step s l t → I t)
    (hstep : ∀ s l t, I s → W s → M.step s l t →
      G t ∨ (W t ∧ rank t + (if q l then 1 else 0) ≤ rank s))
    (hpos : ∀ s, W s → 0 < rank s)
    (h : M.Exec s ls t) (hi : I s) (hw : W s) (hmany : rank s ≤ ls.countP q) :
    Exec.Through M G s ls t := by
  rcases h.through_or_waits rank hinv hstep hi hw with hthrough | ⟨hwt, hrank⟩
  · exact hthrough
  · have hlast := hpos t hwt
    omega

end System

end Berk162
