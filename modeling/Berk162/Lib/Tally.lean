import Mathlib.Algebra.BigOperators.Pi
import Mathlib.Algebra.BigOperators.Ring.Finset

/-!
# Tally — counting the parties whose state satisfies a test

A system of finitely many parties is a function from parties to their states.  `tally p f` is the
number of parties in a state that satisfies `p`.  It is an integer, so that the changes that one
party's step makes can be added up.

We provide:

* `tally_update` — how the count changes when one party changes its state;
* `tally_pos_iff`, `tally_eq_zero_iff`, `tally_le_one_iff` — what small counts mean.
-/

namespace Berk162

variable {ι α : Type*} [Fintype ι]

/-- The number of parties whose state satisfies `p`. -/
def tally (p : α → Bool) (f : ι → α) : Int := ((Finset.univ.filter fun i => p (f i) = true).card : Int)

/-- A party's part in the count. -/
def vote (b : Bool) : Int := if b then 1 else 0

@[simp] theorem vote_true : vote true = 1 := rfl

@[simp] theorem vote_false : vote false = 0 := rfl

variable {p : α → Bool} {f : ι → α}

theorem tally_eq_sum (p : α → Bool) (f : ι → α) : tally p f = ∑ i, vote (p (f i)) := by
  exact (Finset.sum_boole _ _).symm

theorem tally_update [DecidableEq ι] (p : α → Bool) (f : ι → α) (i : ι) (a : α) :
    tally p (Function.update f i a) = tally p f - vote (p (f i)) + vote (p a) := by
  have hcomp : (fun j => vote (p (Function.update f i a j))) =
      Function.update (fun j => vote (p (f j))) i (vote (p a)) :=
    Function.comp_update (fun b => vote (p b)) f i a
  have hsplit : ∑ j, vote (p (f j)) =
      vote (p (f i)) + ∑ j ∈ Finset.univ \ {i}, vote (p (f j)) := by
    have hself := Finset.sum_update_of_mem (Finset.mem_univ i) (fun j => vote (p (f j)))
      (vote (p (f i)))
    rwa [Function.update_eq_self] at hself
  rw [tally_eq_sum, tally_eq_sum, hcomp, Finset.sum_update_of_mem (Finset.mem_univ i), hsplit]
  omega

theorem tally_nonneg (p : α → Bool) (f : ι → α) : 0 ≤ tally p f :=
  Int.natCast_nonneg _

theorem tally_pos_iff : 0 < tally p f ↔ ∃ i, p (f i) = true := by
  rw [tally, Int.natCast_pos, Finset.card_pos]
  constructor
  · rintro ⟨i, hi⟩
    exact ⟨i, (Finset.mem_filter.1 hi).2⟩
  · rintro ⟨i, hi⟩
    exact ⟨i, Finset.mem_filter.2 ⟨Finset.mem_univ i, hi⟩⟩

theorem tally_eq_zero_iff : tally p f = 0 ↔ ∀ i, p (f i) = false := by
  have hnn := tally_nonneg p f
  constructor
  · intro hzero i
    by_contra hi
    have hpos := tally_pos_iff.2 ⟨i, Bool.of_not_eq_false hi⟩
    omega
  · intro hall
    by_contra hne
    have hpos : 0 < tally p f := by omega
    rcases tally_pos_iff.1 hpos with ⟨i, hi⟩
    rw [hall i] at hi
    cases hi

theorem tally_le_one_iff : tally p f ≤ 1 ↔ ∀ i j, p (f i) = true → p (f j) = true → i = j := by
  have hcast : tally p f ≤ 1 ↔ (Finset.univ.filter fun i => p (f i) = true).card ≤ 1 := by
    rw [tally]
    omega
  rw [hcast, Finset.card_le_one]
  constructor
  · intro hall i j hi hj
    exact hall i (Finset.mem_filter.2 ⟨Finset.mem_univ i, hi⟩) j
      (Finset.mem_filter.2 ⟨Finset.mem_univ j, hj⟩)
  · intro hall i hi j hj
    exact hall i j (Finset.mem_filter.1 hi).2 (Finset.mem_filter.1 hj).2

end Berk162
