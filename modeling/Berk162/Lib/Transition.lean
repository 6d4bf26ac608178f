import Mathlib.Logic.Relation

/-!
# Transition — labelled transition systems, runs and invariants

A `System` is a set of initial states together with a labelled step relation.  A labelled step
carries what a caller can see of it, so that two systems can be compared step by step.

We provide:

* `System.Reachable` — the states some run ends in;
* `System.Reachable.invariant` — a predicate that holds initially and is kept by every step holds
  in every reachable state;
* `System.Simulates` — forward simulation by an abstract system, and its consequence
  `Simulates.exec`: every labelled run of the concrete system is a labelled run of the abstract
  one;
* `System.restrict` — the runs all of whose steps meet a condition, and `Exec.good_iff_restrict`:
  where the condition decides at each step whether the next state is good, the runs that end in a
  good state are these;
* `System.within` — the runs all of whose states are good, and `Exec.within_iff_restrict`.
-/

namespace Berk162

universe u v w

/-- A labelled transition system. -/
structure System (σ : Type u) (ℓ : Type v) where
  init : σ → Prop
  step : σ → ℓ → σ → Prop

namespace System

variable {σ : Type u} {τ : Type w} {ℓ : Type v}

/-- `M.Exec s ls t`: the labels `ls` lead from `s` to `t`. -/
inductive Exec (M : System σ ℓ) : σ → List ℓ → σ → Prop
  | nil (s : σ) : Exec M s [] s
  | snoc {s t u : σ} {ls : List ℓ} {l : ℓ} :
      Exec M s ls t → M.step t l u → Exec M s (ls ++ [l]) u

/-- The states that some run from an initial state ends in. -/
inductive Reachable (M : System σ ℓ) : σ → Prop
  | init {s : σ} : M.init s → Reachable M s
  | step {s t : σ} {l : ℓ} : Reachable M s → M.step s l t → Reachable M t

variable {M : System σ ℓ} {A : System τ ℓ}

theorem Reachable.invariant {I : σ → Prop}
    (hinit : ∀ s, M.init s → I s)
    (hstep : ∀ s l t, I s → M.step s l t → I t)
    {s : σ} (h : M.Reachable s) : I s := by
  induction h with
  | init h0 =>
      exact hinit _ h0
  | step _ hst ih =>
      exact hstep _ _ _ ih hst

theorem Exec.invariant {I : σ → Prop}
    (hstep : ∀ s l t, I s → M.step s l t → I t)
    {s t : σ} {ls : List ℓ} (h : M.Exec s ls t) (hs : I s) : I t := by
  induction h with
  | nil =>
      exact hs
  | snoc _ hst ih =>
      exact hstep _ _ _ ih hst

theorem Exec.single {s t : σ} {l : ℓ} (h : M.step s l t) : M.Exec s [l] t :=
  Exec.snoc (Exec.nil s) h

/-- A run that goes on from where another one ends. -/
theorem Exec.append {s t u : σ} {ls ls' : List ℓ} (h : M.Exec s ls t) (h' : M.Exec t ls' u) :
    M.Exec s (ls ++ ls') u := by
  induction h' with
  | nil =>
      rwa [List.append_nil]
  | snoc _ hst ih =>
      rw [← List.append_assoc]
      exact Exec.snoc ih hst

theorem Reachable.exec {s t : σ} {ls : List ℓ} (hs : M.Reachable s) (h : M.Exec s ls t) :
    M.Reachable t := by
  induction h with
  | nil =>
      exact hs
  | snoc _ hst ih =>
      exact Reachable.step ih hst

/-- `R` relates every concrete step to an abstract step with the same label. -/
structure Simulates (M : System σ ℓ) (A : System τ ℓ) (R : σ → τ → Prop) : Prop where
  init : ∀ s, M.init s → ∃ a, A.init a ∧ R s a
  step : ∀ s l t a, R s a → M.step s l t → ∃ b, A.step a l b ∧ R t b

theorem Simulates.exec {R : σ → τ → Prop} (h : Simulates M A R) {s t : σ} {ls : List ℓ}
    (hex : M.Exec s ls t) {a : τ} (ha : R s a) : ∃ b, A.Exec a ls b ∧ R t b := by
  induction hex with
  | nil =>
      exact ⟨a, Exec.nil a, ha⟩
  | snoc _ hst ih =>
      rcases ih with ⟨b, hb, hRb⟩
      rcases h.step _ _ _ _ hRb hst with ⟨c, hc, hRc⟩
      exact ⟨c, Exec.snoc hb hc, hRc⟩

/-! ## Conditions on steps -/

/-- The system with only those steps that meet `P`. -/
def restrict (M : System σ ℓ) (P : σ → ℓ → Prop) : System σ ℓ where
  init := M.init
  step s l t := M.step s l t ∧ P s l

variable {P : σ → ℓ → Prop}

theorem Exec.of_restrict {s t : σ} {ls : List ℓ} (h : (M.restrict P).Exec s ls t) :
    M.Exec s ls t := by
  induction h with
  | nil =>
      exact Exec.nil _
  | snoc _ hst ih =>
      exact Exec.snoc ih hst.1

/-- A step from a good state leads to a good state if it meets the condition, and else to a bad
one, where the run ends. -/
theorem Exec.good_iff_restrict {I B : σ → Prop}
    (hstep : ∀ s l t, I s → M.step s l t → (P s l ∧ I t) ∨ (¬ P s l ∧ B t))
    (hdead : ∀ s l t, B s → ¬ M.step s l t) (hdisj : ∀ s, I s → ¬ B s)
    {s t : σ} {ls : List ℓ} (h : M.Exec s ls t) (hs : I s) :
    (I t ∨ B t) ∧ (I t ↔ (M.restrict P).Exec s ls t) := by
  have hall : ((M.restrict P).Exec s ls t ∧ I t) ∨ B t := by
    induction h with
    | nil =>
        exact Or.inl ⟨Exec.nil _, hs⟩
    | snoc _ hst ih =>
        rcases ih with ⟨hrun, hi⟩ | hb
        · rcases hstep _ _ _ hi hst with ⟨hp, hi'⟩ | ⟨_, hb⟩
          · exact Or.inl ⟨Exec.snoc hrun ⟨hst, hp⟩, hi'⟩
          · exact Or.inr hb
        · exact absurd hst (hdead _ _ _ hb)
  refine ⟨hall.imp_left And.right, fun ht => ?_, fun hrun => ?_⟩
  · rcases hall with ⟨hrun, _⟩ | hb
    · exact hrun
    · exact absurd hb (hdisj _ ht)
  · -- a step that meets the condition does not lead to a bad state
    refine Exec.invariant (M := M.restrict P) (I := I) (fun s l t hi hst => ?_) hrun hs
    rcases hstep s l t hi hst.1 with ⟨_, hi'⟩ | ⟨hnp, _⟩
    · exact hi'
    · exact absurd hst.2 hnp

/-- The system with only those steps that lead to states that are good. -/
def within (M : System σ ℓ) (Q : σ → Prop) : System σ ℓ where
  init s := M.init s ∧ Q s
  step s l t := M.step s l t ∧ Q t

/-- Where the condition decides at each step whether the next state is good, the runs through good
states alone are those whose steps meet the condition. -/
theorem Exec.within_iff_restrict {I Q : σ → Prop}
    (hstep : ∀ s l t, I s → M.step s l t → (P s l ∧ I t) ∨ (¬ P s l ∧ ¬ Q t))
    (hgood : ∀ s, I s → Q s) {s t : σ} {ls : List ℓ} (hs : I s) :
    (M.within Q).Exec s ls t ↔ (M.restrict P).Exec s ls t := by
  constructor
  · intro h
    have hboth : (M.restrict P).Exec s ls t ∧ I t := by
      induction h with
      | nil =>
          exact ⟨Exec.nil _, hs⟩
      | snoc _ hst ih =>
          rcases hstep _ _ _ ih.2 hst.1 with ⟨hp, hi⟩ | ⟨_, hbad⟩
          · exact ⟨Exec.snoc ih.1 ⟨hst.1, hp⟩, hi⟩
          · exact absurd hst.2 hbad
    exact hboth.1
  · intro h
    have hboth : (M.within Q).Exec s ls t ∧ I t := by
      induction h with
      | nil =>
          exact ⟨Exec.nil _, hs⟩
      | snoc _ hst ih =>
          rcases hstep _ _ _ ih.2 hst.1 with ⟨_, hi⟩ | ⟨hnp, _⟩
          · exact ⟨Exec.snoc ih.1 ⟨hst.1, hgood _ hi⟩, hi⟩
          · exact absurd hst.2 hnp
    exact hboth.1

/-- The system with only those steps of which `Q` holds. -/
def only (M : System σ ℓ) (Q : σ → ℓ → σ → Prop) : System σ ℓ where
  init := M.init
  step s l t := M.step s l t ∧ Q s l t

/-- Where the condition decides of each step whether it is good, the runs of good steps alone are those
whose steps meet the condition. -/
theorem Exec.only_iff_restrict {I : σ → Prop} {Q : σ → ℓ → σ → Prop}
    (hstep : ∀ s l t, I s → M.step s l t → (Q s l t ↔ P s l) ∧ (Q s l t → I t))
    {s t : σ} {ls : List ℓ} (hs : I s) : (M.only Q).Exec s ls t ↔ (M.restrict P).Exec s ls t := by
  constructor
  · intro h
    have hboth : (M.restrict P).Exec s ls t ∧ I t := by
      induction h with
      | nil =>
          exact ⟨Exec.nil _, hs⟩
      | snoc _ hst ih =>
          obtain ⟨hiff, hnext⟩ := hstep _ _ _ ih.2 hst.1
          exact ⟨Exec.snoc ih.1 ⟨hst.1, hiff.1 hst.2⟩, hnext hst.2⟩
    exact hboth.1
  · intro h
    have hboth : (M.only Q).Exec s ls t ∧ I t := by
      induction h with
      | nil =>
          exact ⟨Exec.nil _, hs⟩
      | snoc _ hst ih =>
          obtain ⟨hiff, hnext⟩ := hstep _ _ _ ih.2 hst.1
          exact ⟨Exec.snoc ih.1 ⟨hst.1, hiff.2 hst.2⟩, hnext (hiff.2 hst.2)⟩
    exact hboth.1

end System

end Berk162
