import Mathlib.Tactic

/-!
# Program — what holds after a program that may stop

A program takes a state and either returns a value or stops for a reason, in each case with the state
that it has reached.  `After x s Q E` says that from `s` it returns with `Q` or stops with `E`.  Since
a program does one thing only, `After` passes through `>>=` in both directions.
-/

namespace Berk162

variable {ε σ α β : Type}

/-- `x` from `s` returns in a state with `Q`, or stops in one with `E`. -/
def After (x : EStateM ε σ α) (s : σ) (Q : α → σ → Prop) (E : ε → σ → Prop) : Prop :=
  match x s with
  | .ok a t => Q a t
  | .error e t => E e t

variable {x : EStateM ε σ α} {f : α → EStateM ε σ β} {s t : σ} {Q Q' : α → σ → Prop}
  {R : β → σ → Prop} {E E' : ε → σ → Prop} {P : Prop}

theorem after_pure {a : α} : After (pure a : EStateM ε σ α) s Q E ↔ Q a s := Iff.rfl

theorem after_throw {e : ε} : After (throw e : EStateM ε σ α) s Q E ↔ E e s := Iff.rfl

theorem after_of_ok {a : α} (h : x s = .ok a t) : After x s Q E ↔ Q a t := by
  rw [After, h]

theorem after_of_error {e : ε} (h : x s = .error e t) : After x s Q E ↔ E e t := by
  rw [After, h]

theorem after_bind :
    After (x >>= f) s R E ↔ After x s (fun a t => After (f a) t R E) E := by
  change After (EStateM.bind x f) s R E ↔ _
  unfold After EStateM.bind
  cases x s with
  | ok a t =>
      exact Iff.rfl
  | error e t =>
      exact Iff.rfl

theorem After.mono (h : After x s Q E) (hQ : ∀ a t, Q a t → Q' a t) (hE : ∀ e t, E e t → E' e t) :
    After x s Q' E' := by
  unfold After at h ⊢
  cases hx : x s with
  | ok a t =>
      rw [hx] at h
      exact hQ a t h
  | error e t =>
      rw [hx] at h
      exact hE e t h

theorem After.returns (h : After x s Q fun _ _ => False) : ∃ a t, x s = .ok a t ∧ Q a t := by
  unfold After at h
  cases hx : x s with
  | ok a t =>
      rw [hx] at h
      exact ⟨a, t, rfl, h⟩
  | error e t =>
      rw [hx] at h
      exact h.elim

/-- Two things that are known of one program. -/
theorem After.and (h : After x s Q E) (h' : After x s Q' E') :
    After x s (fun a t => Q a t ∧ Q' a t) fun e t => E e t ∧ E' e t := by
  unfold After at h h' ⊢
  cases hx : x s with
  | ok a t =>
      rw [hx] at h h'
      exact ⟨h, h'⟩
  | error e t =>
      rw [hx] at h h'
      exact ⟨h, h'⟩

theorem After.bind (h : After x s Q E) (hf : ∀ a t, Q a t → After (f a) t R E)  :
    After (x >>= f) s R E :=
  after_bind.2 (h.mono hf fun _ _ he => he)

end Berk162
