import Berk162.Lib.Machine

/-!
# FixedPoint — `threads/fixed-point.h`

Numbers with 16 bits of fraction in an `int`.  `fix_round` adds one half and truncates, which is
toward zero, so that it is right for what is positive and hardly for anything that is negative.
-/

namespace Berk162

def FIX_P : Nat := 16

def FIX_Q : Nat := 16

def FIX_F : Int := 2 ^ FIX_Q

def FIX_MAX_INT : Int := 2 ^ FIX_P - 1

def FIX_MIN_INT : Int := -FIX_MAX_INT

/-- The values of an `int`. -/
def IsInt (x : Int) : Prop := -2 ^ 31 ≤ x ∧ x < 2 ^ 31

instance (x : Int) : Decidable (IsInt x) := inferInstanceAs (Decidable (_ ∧ _))

theorem isInt_int32 (x : Int) : IsInt (int32 x) := by
  unfold IsInt int32
  omega

theorem int32_of_isInt {x : Int} (h : IsInt x) : int32 x = x := int32_eq h.1 h.2

/-- `fixed_point_t` -/
structure FixedPoint where
  f : Int
  isInt : IsInt f
  deriving DecidableEq

/-- `__mk_fix` of what a computation leaves in an `int`. -/
def mk_fix (f : Int) : FixedPoint := ⟨int32 f, isInt_int32 f⟩

def fix_int (n : Int) : Option FixedPoint := do
  ASSERT (n ≥ FIX_MIN_INT ∧ n ≤ FIX_MAX_INT)
  return mk_fix (n * FIX_F)

/-- `fix_round`.  Division truncates toward zero. -/
def fix_round (x : FixedPoint) : Int := (int32 (x.f + FIX_F / 2)).tdiv FIX_F

def fix_trunc (x : FixedPoint) : Int := x.f.tdiv FIX_F

/-! ## What they are for -/

/-- The number that `x` stands for. -/
def FixedPoint.val (x : FixedPoint) : ℚ := x.f / FIX_F

/-- No integer is nearer to `r` than `k`. -/
def Nearest (k : Int) (r : ℚ) : Prop := ∀ m : Int, |(k : ℚ) - r| ≤ |(m : ℚ) - r|

/-- `k` is `r` without its fraction. -/
def Truncated (k : Int) (r : ℚ) : Prop := if 0 ≤ r then k = ⌊r⌋ else k = ⌈r⌉

/-- An integer becomes the number that it is, and comes back from it. -/
def IntExact (n : Int) : Prop :=
  IsInt (n * FIX_F) ∧ ∃ x, fix_int n = some x ∧ fix_trunc x = n ∧ fix_round x = n

/-- `x` is rounded and truncated as it should be. -/
def RoundsRight (x : FixedPoint) : Prop :=
  IsInt (x.f + FIX_F / 2) ∧ Nearest (fix_round x) x.val ∧ Truncated (fix_trunc x) x.val

theorem FIX_F_eq : FIX_F = 65536 := rfl

variable {x : FixedPoint} {n k : Int}

theorem fix_int_eq (hlo : FIX_MIN_INT ≤ n) (hhi : n ≤ FIX_MAX_INT) :
    fix_int n = some (mk_fix (n * FIX_F)) := by
  rw [fix_int, ASSERT_pos ⟨hlo, hhi⟩]
  rfl

theorem FIX_F_pos : (0 : ℚ) < (FIX_F : ℚ) := by
  rw [FIX_F_eq]
  norm_num

/-- The division of an `int` by `FIX_F`. -/
theorem tdiv_FIX_F (f : Int) :
    f.tdiv FIX_F = if 0 ≤ f then f / 65536 else -(-f / 65536) := by
  split
  · next hpos => exact Int.tdiv_eq_ediv_of_nonneg hpos
  · next hneg =>
    have hdiv := Int.tdiv_eq_ediv_of_nonneg (b := 65536) (show 0 ≤ -f by omega)
    rw [Int.neg_tdiv] at hdiv
    rw [FIX_F_eq, ← hdiv, Int.neg_neg]

/-- How far an integer is away, in units of the fraction. -/
theorem distance_eq (k : Int) : |(k : ℚ) - x.val| = ((k * FIX_F - x.f).natAbs : ℚ) / FIX_F := by
  have hne := ne_of_gt FIX_F_pos
  have hsub : (k : ℚ) - x.val = ((k * FIX_F - x.f : Int) : ℚ) / FIX_F := by
    rw [FixedPoint.val]
    push_cast
    field_simp
  rw [hsub, abs_div, abs_of_pos FIX_F_pos, Nat.cast_natAbs, Int.cast_abs]

/-- A half is the most that a nearest integer can be away. -/
theorem nearest_iff : Nearest k x.val ↔ 2 * (k * FIX_F - x.f).natAbs ≤ FIX_F := by
  have hunits : Nearest k x.val ↔
      ∀ m : Int, (k * FIX_F - x.f).natAbs ≤ (m * FIX_F - x.f).natAbs := by
    refine forall_congr' fun m => ?_
    rw [distance_eq, distance_eq, div_le_div_iff_of_pos_right FIX_F_pos, Nat.cast_le]
  rw [hunits, FIX_F_eq]
  constructor
  · intro h
    -- the neighbours of `k` are not nearer
    have hnext := h (k + 1)
    have hprev := h (k - 1)
    omega
  · intro h m
    rcases lt_trichotomy m k with hlt | rfl | hgt
    · omega
    · exact Nat.le_refl _
    · omega

theorem val_nonneg_iff : 0 ≤ x.val ↔ 0 ≤ x.f := by
  rw [FixedPoint.val, div_nonneg_iff]
  constructor
  · rintro (⟨hf, _⟩ | ⟨_, hF⟩)
    · exact_mod_cast hf
    · exact absurd hF (not_le_of_gt FIX_F_pos)
  · intro hf
    exact Or.inl ⟨by exact_mod_cast hf, le_of_lt FIX_F_pos⟩

theorem floor_val : ⌊x.val⌋ = x.f / 65536 := by
  rw [Int.floor_eq_iff, FixedPoint.val, le_div_iff₀ FIX_F_pos, div_lt_iff₀ FIX_F_pos, FIX_F_eq]
  constructor
  · have hle : x.f / 65536 * 65536 ≤ x.f := by omega
    exact_mod_cast hle
  · have hlt : x.f < (x.f / 65536 + 1) * 65536 := by omega
    exact_mod_cast hlt

theorem ceil_val : ⌈x.val⌉ = -(-x.f / 65536) := by
  rw [Int.ceil_eq_iff, FixedPoint.val, lt_div_iff₀ FIX_F_pos, div_le_iff₀ FIX_F_pos, FIX_F_eq]
  constructor
  · have hlt : (-(-x.f / 65536) - 1) * 65536 < x.f := by omega
    exact_mod_cast hlt
  · have hle : x.f ≤ -(-x.f / 65536) * 65536 := by omega
    exact_mod_cast hle

/-- `fix_trunc` is right whatever the sign. -/
theorem fix_trunc_truncated (x : FixedPoint) : Truncated (fix_trunc x) x.val := by
  rw [Truncated, fix_trunc, tdiv_FIX_F, floor_val, ceil_val]
  simp only [val_nonneg_iff]
  split <;> rfl

/-! ## Where it is right -/

/-- Only integers that are not negative come back rounded; those from `2 ^ 15` on do not fit. -/
theorem intExact_iff (hlo : FIX_MIN_INT ≤ n) (hhi : n ≤ FIX_MAX_INT) :
    IntExact n ↔ 0 ≤ n ∧ n < 2 ^ 15 := by
  rw [IntExact, fix_int_eq hlo hhi]
  constructor
  · rintro ⟨hfits, x, hx, htrunc, hround⟩
    -- rounding adds the half also to a negative number, which is then truncated upwards
    obtain rfl := Option.some.inj hx
    have hf : (mk_fix (n * FIX_F)).f = n * FIX_F := int32_of_isInt hfits
    rw [fix_round, hf, tdiv_FIX_F, int32] at hround
    rw [IsInt] at hfits
    rw [FIX_F_eq] at hfits hround
    split at hround <;> omega
  · rintro ⟨hpos, hlt⟩
    have hfits : IsInt (n * FIX_F) := by
      rw [IsInt, FIX_F_eq]
      omega
    have hfits' : IsInt (n * FIX_F + FIX_F / 2) := by
      rw [IsInt, FIX_F_eq]
      omega
    have hf : (mk_fix (n * FIX_F)).f = n * FIX_F := int32_of_isInt hfits
    refine ⟨hfits, _, rfl, ?_, ?_⟩
    · rw [fix_trunc, hf, tdiv_FIX_F, FIX_F_eq]
      split <;> omega
    · rw [fix_round, hf, int32_of_isInt hfits', tdiv_FIX_F, FIX_F_eq]
      split <;> omega

/-- A number above the greatest that can be rounded up overflows.  One below minus a half is rounded
up as well, which is right only in the middle between two integers. -/
theorem roundsRight_iff (x : FixedPoint) :
    RoundsRight x ↔ (-2 ^ 15 ≤ x.f ∧ x.f < 2 ^ 31 - 2 ^ 15) ∨ (x.f < 0 ∧ x.f % 2 ^ 16 = 2 ^ 15) := by
  have hx := x.isInt
  rw [IsInt] at hx
  rw [RoundsRight, and_iff_left (fix_trunc_truncated x), nearest_iff, fix_round, tdiv_FIX_F]
  constructor
  · rintro ⟨hfits, hnear⟩
    -- below zero the result is too large by one, but for a tie
    rw [int32_of_isInt hfits] at hnear
    rw [IsInt] at hfits
    rw [FIX_F_eq] at hfits hnear
    split at hnear <;> omega
  · intro h
    have hfits : IsInt (x.f + FIX_F / 2) := by
      rw [IsInt, FIX_F_eq]
      omega
    refine ⟨hfits, ?_⟩
    rw [int32_of_isInt hfits, FIX_F_eq]
    split <;> omega

/-- Conversions are exact just for the integers from 0 on that fit, and rounding is right for what is
at least minus a half and can be rounded up, and in the middle between negative integers. -/
theorem fixed_point_exact_iff {n : Int} (hlo : FIX_MIN_INT ≤ n) (hhi : n ≤ FIX_MAX_INT)
    (x : FixedPoint) : (IntExact n ↔ 0 ≤ n ∧ n < 2 ^ 15) ∧
      (RoundsRight x ↔
        (-2 ^ 15 ≤ x.f ∧ x.f < 2 ^ 31 - 2 ^ 15) ∨ (x.f < 0 ∧ x.f % 2 ^ 16 = 2 ^ 15)) :=
  ⟨intExact_iff hlo hhi, roundsRight_iff x⟩

theorem fixed_point_exact_iff_two : (IntExact 2 ↔ (0 : Int) ≤ 2 ∧ (2 : Int) < 2 ^ 15) ∧
    (RoundsRight (mk_fix 1) ↔ (-2 ^ 15 ≤ (mk_fix 1).f ∧ (mk_fix 1).f < 2 ^ 31 - 2 ^ 15) ∨
      ((mk_fix 1).f < 0 ∧ (mk_fix 1).f % 2 ^ 16 = 2 ^ 15)) :=
  fixed_point_exact_iff (by decide) (by decide) (mk_fix 1)

/-- -1 becomes a number that is rounded to 0, and `2 ^ 15` becomes a negative one. -/
theorem negative_and_large_fail :
    fix_int (-1) = some (mk_fix (-65536)) ∧ fix_round (mk_fix (-65536)) = 0 ∧
      fix_int (2 ^ 15) = some (mk_fix (2 ^ 31)) ∧ fix_trunc (mk_fix (2 ^ 31)) = -2 ^ 15 := by
  decide

end Berk162
