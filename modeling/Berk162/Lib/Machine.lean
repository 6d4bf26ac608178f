import Mathlib.Tactic

/-!
# Machine — the arithmetic of the i386 and `ASSERT`

`size_t`, `uint32_t` and pointers are 32 bits wide and wrap; `int` and `off_t` are 32-bit two's
complement.  Values are kept as `Nat` and `Int`, and each operation that can leave the type's range
says so in its definition.
-/

namespace Berk162

/-- `SIZE_MAX + 1`. -/
def WORD : Nat := 2 ^ 32

theorem WORD_eq : WORD = 4294967296 := rfl

/-- Addition in `size_t`. -/
def size_add (a b : Nat) : Nat := (a + b) % WORD

/-- Multiplication in `size_t`. -/
def size_mul (a b : Nat) : Nat := a * b % WORD

/-- Subtraction in `size_t`. -/
def size_sub (a b : Nat) : Nat := (a + WORD - b) % WORD

/-- `DIV_ROUND_UP (X, STEP)` of `lib/round.h`, on `size_t` operands. -/
def DIV_ROUND_UP (x step : Nat) : Nat := size_sub (size_add x step) 1 / step

/-- `ROUND_UP (X, STEP)`, likewise. -/
def ROUND_UP (x step : Nat) : Nat := size_mul (DIV_ROUND_UP x step) step

/-- The value a 32-bit two's complement register holds after computing `x`. -/
def int32 (x : Int) : Int := (x + 2 ^ 31) % 2 ^ 32 - 2 ^ 31

/-- Conversion of an `int` to `size_t`. -/
def to_size (x : Int) : Nat := (x % 2 ^ 32).toNat

theorem size_add_eq {a b : Nat} (h : a + b < WORD) : size_add a b = a + b :=
  Nat.mod_eq_of_lt h

theorem size_mul_eq {a b : Nat} (h : a * b < WORD) : size_mul a b = a * b :=
  Nat.mod_eq_of_lt h

theorem size_sub_eq {a b : Nat} (hb : b ≤ a) (ha : a < WORD) : size_sub a b = a - b := by
  have h : a + WORD - b = (a - b) + WORD := by omega
  rw [size_sub, h, Nat.add_mod_right, Nat.mod_eq_of_lt (by omega)]

/-- Also where the sum is just `SIZE_MAX + 1`. -/
theorem DIV_ROUND_UP_eq_of_le {x step : Nat} (hstep : 0 < step) (h : x + step ≤ WORD) :
    DIV_ROUND_UP x step = (x + step - 1) / step := by
  rw [DIV_ROUND_UP]
  rcases Nat.lt_or_eq_of_le h with hlt | heq
  · rw [size_add_eq hlt, size_sub_eq (by omega) hlt]
  · rw [size_add, heq, Nat.mod_self]
    rfl

theorem DIV_ROUND_UP_eq {x step : Nat} (hstep : 0 < step) (h : x + step < WORD) :
    DIV_ROUND_UP x step = (x + step - 1) / step :=
  DIV_ROUND_UP_eq_of_le hstep (Nat.le_of_lt h)

theorem int32_eq {x : Int} (hlo : -2 ^ 31 ≤ x) (hhi : x < 2 ^ 31) : int32 x = x := by
  unfold int32
  omega

theorem to_size_eq {x : Int} (hlo : 0 ≤ x) (hhi : x < 2 ^ 32) : to_size x = x.toNat := by
  unfold to_size
  omega

/-! ## Assertions -/

/-- `ASSERT (CONDITION)`: the kernel panics (`none`) when the condition is false. -/
def ASSERT (p : Prop) [Decidable p] : Option Unit := if p then some () else none

@[simp] theorem ASSERT_pos {p : Prop} [Decidable p] (hp : p) : ASSERT p = some () := if_pos hp

@[simp] theorem ASSERT_neg {p : Prop} [Decidable p] (hp : ¬ p) : ASSERT p = none := if_neg hp

@[simp] theorem ASSERT_eq_some {p : Prop} [Decidable p] {u : Unit} : ASSERT p = some u ↔ p := by
  by_cases hp : p <;> simp [hp]

end Berk162
