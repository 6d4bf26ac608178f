import Mathlib.Tactic

/-!
# Words — 32-bit words in a memory of bytes

A word is stored with its least significant byte first.  What a word reads as depends on its four
bytes alone, so storing one word leaves every word that does not overlap it as it was.
-/

namespace Berk162

/-- The word at `a`. -/
def word_at (m : Nat → UInt8) (a : Nat) : BitVec 32 :=
  (m (a + 3)).toBitVec ++ (m (a + 2)).toBitVec ++ (m (a + 1)).toBitVec ++ (m a).toBitVec

/-- Stores `w` at `a`. -/
def put_word (m : Nat → UInt8) (a : Nat) (w : BitVec 32) : Nat → UInt8 :=
  fun q => if a ≤ q ∧ q < a + 4 then UInt8.ofBitVec (w.extractLsb' (8 * (q - a)) 8) else m q

section

variable {m m' : Nat → UInt8} {a b : Nat} {w : BitVec 32}

theorem word_at_shift (h : ∀ k, k < 4 → m (a + k) = m' (b + k)) : word_at m a = word_at m' b := by
  have h0 := h 0 (by omega)
  have h1 := h 1 (by omega)
  have h2 := h 2 (by omega)
  have h3 := h 3 (by omega)
  rw [Nat.add_zero, Nat.add_zero] at h0
  rw [word_at, word_at, h0, h1, h2, h3]

/-- A word is its four bytes. -/
theorem word_at_congr (h : ∀ q, a ≤ q → q < a + 4 → m q = m' q) : word_at m a = word_at m' a :=
  word_at_shift fun k hk => h (a + k) (Nat.le_add_right a k) (by omega)

theorem word_at_zero (h : ∀ q, a ≤ q → q < a + 4 → m q = 0) : word_at m a = 0 := by
  have hzero : word_at m a = word_at (fun _ => 0) a := word_at_congr h
  rw [hzero, word_at]
  rfl

theorem put_word_of_not_mem {q : Nat} (h : ¬ (a ≤ q ∧ q < a + 4)) : put_word m a w q = m q :=
  if_neg h

theorem put_word_of_mem {k : Nat} (hk : k < 4) :
    (put_word m a w (a + k)).toBitVec = w.extractLsb' (8 * k) 8 := by
  have hin : a ≤ a + k ∧ a + k < a + 4 := by omega
  rw [put_word, if_pos hin, Nat.add_sub_cancel_left]

@[simp] theorem word_at_put_word : word_at (put_word m a w) a = w := by
  have h0 : (put_word m a w a).toBitVec = w.extractLsb' 0 8 := put_word_of_mem (k := 0) (by omega)
  have h1 : (put_word m a w (a + 1)).toBitVec = w.extractLsb' 8 8 := put_word_of_mem (by omega)
  have h2 : (put_word m a w (a + 2)).toBitVec = w.extractLsb' 16 8 := put_word_of_mem (by omega)
  have h3 : (put_word m a w (a + 3)).toBitVec = w.extractLsb' 24 8 := put_word_of_mem (by omega)
  rw [word_at, h0, h1, h2, h3]
  -- neighbouring bytes of `w`, put together again
  rw [BitVec.extractLsb'_append_extractLsb'_eq_extractLsb' (by rfl),
    BitVec.extractLsb'_append_extractLsb'_eq_extractLsb' (by rfl),
    BitVec.extractLsb'_append_extractLsb'_eq_extractLsb' (by rfl)]
  exact BitVec.extractLsb'_eq_self

/-- A word that lies elsewhere. -/
theorem word_at_put_word_of_disjoint (h : b + 4 ≤ a ∨ a + 4 ≤ b) :
    word_at (put_word m a w) b = word_at m b :=
  word_at_congr fun q _ _ => put_word_of_not_mem (by omega)

end

end Berk162
