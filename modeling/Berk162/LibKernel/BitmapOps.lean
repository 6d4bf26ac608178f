import Berk162.LibKernel.Bitmap
import Mathlib.Data.List.Count

/-!
# BitmapOps — bitmaps as arrays of bits

The functions on groups of bits do what they would do with an array of `bit_cnt` bits.  What is in
the last element beyond these bits has no part in it: bitmaps that `Agree` are handled alike.
-/

namespace Berk162

variable {b b' : Bitmap} {value : Bool} {start cnt i n : Nat}

/-! ## Counting -/

/-- Related values that related functions go on with. -/
theorem rel_bind {α β γ δ : Type*} {R : α → β → Prop} {S : γ → δ → Prop} {x : Option α}
    {y : Option β} {f : α → Option γ} {g : β → Option δ} (h : Option.Rel R x y)
    (hfg : ∀ a b, R a b → Option.Rel S (f a) (g b)) : Option.Rel S (x.bind f) (y.bind g) := by
  cases h with
  | some hab => exact hfg _ _ hab
  | none => exact .none

/-- The bitmaps are equal but for their padding. -/
structure Bitmap.Agree (b b' : Bitmap) : Prop where
  bit_cnt : b'.bit_cnt = b.bit_cnt
  test : ∀ i, i < b.bit_cnt → b'.test i = b.test i

namespace Bitmap.Agree

theorem bitmap_test (h : b.Agree b') (i : Nat) : bitmap_test b' i = Berk162.bitmap_test b i := by
  rw [Berk162.bitmap_test, Berk162.bitmap_test, h.bit_cnt]
  by_cases hi : i < b.bit_cnt
  · rw [ASSERT_pos hi, h.test i hi]
  · rw [ASSERT_neg hi]
    rfl

theorem contains_from (h : b.Agree b') (value : Bool) (n i : Nat) :
    contains_from b' value i n = Berk162.contains_from b value i n := by
  induction n generalizing i with
  | zero => rfl
  | succ n ih => simp only [Berk162.contains_from, h.bitmap_test, ih]

theorem bitmap_contains (h : b.Agree b') (start cnt : Nat) (value : Bool) :
    bitmap_contains b' start cnt value = Berk162.bitmap_contains b start cnt value := by
  simp only [Berk162.bitmap_contains, h.bit_cnt, h.contains_from]

theorem bitmap_scan (h : b.Agree b') (start cnt : Nat) (value : Bool) :
    bitmap_scan b' start cnt value = Berk162.bitmap_scan b start cnt value := by
  have hfrom : ∀ n i, scan_from b' cnt value i n = scan_from b cnt value i n := by
    intro n
    induction n with
    | zero => exact fun _ => rfl
    | succ n ih => simp only [scan_from, h.bitmap_contains, ih, implies_true]
  simp only [Berk162.bitmap_scan, h.bit_cnt, hfrom]

/-- One bit is set. -/
theorem bitmap_set (h : b.Agree b') (i : Nat) (value : Bool) :
    Option.Rel Agree (bitmap_set b i value) (Berk162.bitmap_set b' i value) := by
  by_cases hi : i < b.bit_cnt
  · obtain ⟨c, hc, hcnt, htest⟩ := bitmap_set_spec value hi
    obtain ⟨c', hc', hcnt', htest'⟩ := bitmap_set_spec value (b := b') (h.bit_cnt.symm ▸ hi)
    rw [hc, hc']
    -- the other bits of the element are as they were, those of the padding too
    refine .some ⟨by rw [hcnt', hcnt, h.bit_cnt], fun j hj => ?_⟩
    rw [htest, htest']
    split
    · rfl
    · exact h.test j (hcnt ▸ hj)
  · rw [Berk162.bitmap_set, Berk162.bitmap_set, h.bit_cnt, ASSERT_neg hi]
    exact .none

theorem set_from (h : b.Agree b') (value : Bool) (n i : Nat) :
    Option.Rel Agree (set_from value b i n) (Berk162.set_from value b' i n) := by
  induction n generalizing b b' i with
  | zero => exact .some h
  | succ n ih => exact rel_bind (h.bitmap_set i value) fun _ _ hc => ih hc (i + 1)

theorem bitmap_set_multiple (h : b.Agree b') (start cnt : Nat) (value : Bool) :
    Option.Rel Agree (bitmap_set_multiple b start cnt value)
      (Berk162.bitmap_set_multiple b' start cnt value) := by
  have hassert : ∀ p [Decidable p], Option.Rel (fun _ _ : Unit => True) (ASSERT p) (ASSERT p) := by
    intro p _
    by_cases hp : p
    · rw [ASSERT_pos hp]
      exact .some trivial
    · rw [ASSERT_neg hp]
      exact .none
  rw [Berk162.bitmap_set_multiple, Berk162.bitmap_set_multiple, h.bit_cnt]
  exact rel_bind (hassert _) fun _ _ _ =>
    rel_bind (hassert _) fun _ _ _ => h.set_from value cnt start

theorem bitmap_scan_and_flip (h : b.Agree b') (start cnt : Nat) (value : Bool) :
    Option.Rel (fun r r' => r.1.Agree r'.1 ∧ r'.2 = r.2) (bitmap_scan_and_flip b start cnt value)
      (Berk162.bitmap_scan_and_flip b' start cnt value) := by
  rw [Berk162.bitmap_scan_and_flip, Berk162.bitmap_scan_and_flip, h.bitmap_scan]
  cases Berk162.bitmap_scan b start cnt value with
  | none => exact .none
  | some idx =>
      change Option.Rel _ (if idx ≠ BITMAP_ERROR then _ else _) (if idx ≠ BITMAP_ERROR then _ else _)
      split
      · exact rel_bind (h.bitmap_set_multiple idx cnt (!value)) fun _ _ hc => .some ⟨hc, rfl⟩
      · exact .some ⟨h, rfl⟩

end Bitmap.Agree

/-! ## All of it -/

end Berk162
