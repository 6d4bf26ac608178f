import Mathlib.Data.Nat.Digits.Defs
import Mathlib.Tactic

/-!
# Bytes — numbers as strings of bytes

`le_bytes n x` is `x` as `n` bytes, the least significant first, and `le_val` reads such a string
back.  A number that does not fit loses its high bytes, as it does in C.
-/

namespace Berk162

abbrev Bytes := List UInt8

/-- `x` as `n` bytes, the least significant first. -/
def le_bytes : Nat → Nat → Bytes
  | 0, _ => []
  | n + 1, x => UInt8.ofNat x :: le_bytes n (x / 256)

/-- The number that `bs` stands for, the least significant byte first. -/
def le_val (bs : Bytes) : Nat := Nat.ofDigits 256 (bs.map UInt8.toNat)

@[simp] theorem le_val_nil : le_val [] = 0 := rfl

@[simp] theorem le_val_cons (b : UInt8) (bs : Bytes) :
    le_val (b :: bs) = b.toNat + 256 * le_val bs := by
  simp [le_val, Nat.ofDigits_cons]

@[simp] theorem length_le_bytes (n x : Nat) : (le_bytes n x).length = n := by
  induction n generalizing x with
  | zero =>
      rfl
  | succ n ih =>
      simp [le_bytes, ih]

theorem le_val_lt (bs : Bytes) : le_val bs < 256 ^ bs.length := by
  have hdigit : ∀ x ∈ bs.map UInt8.toNat, x < 256 := by
    intro x hx
    rcases List.mem_map.1 hx with ⟨b, _, rfl⟩
    exact b.toNat_lt
  simpa [le_val] using Nat.ofDigits_lt_base_pow_length (by decide) hdigit

/-- What is read back is the number itself, less what does not fit into `n` bytes. -/
theorem le_val_le_bytes (n x : Nat) : le_val (le_bytes n x) = x % 256 ^ n := by
  induction n generalizing x with
  | zero =>
      simp [le_bytes, Nat.mod_one]
  | succ n ih =>
      have hbyte : (UInt8.ofNat x).toNat = x % 256 := by simp
      calc
        le_val (le_bytes (n + 1) x)
            = x % 256 + 256 * (x / 256 % 256 ^ n) := by rw [le_bytes, le_val_cons, hbyte, ih]
        _ = x % (256 * 256 ^ n) := (Nat.mod_mul).symm
        _ = x % 256 ^ (n + 1) := by rw [pow_succ']

theorem le_val_le_bytes_of_lt {n x : Nat} (h : x < 256 ^ n) : le_val (le_bytes n x) = x := by
  rw [le_val_le_bytes, Nat.mod_eq_of_lt h]

theorem le_bytes_le_val (bs : Bytes) : le_bytes bs.length (le_val bs) = bs := by
  induction bs with
  | nil =>
      rfl
  | cons b bs ih =>
      have hlow : UInt8.ofNat (b.toNat + 256 * le_val bs) = b := by
        apply UInt8.toNat_inj.1
        simp
      have hb : b.toNat < 256 := b.toNat_lt
      have hhigh : (b.toNat + 256 * le_val bs) / 256 = le_val bs := by omega
      rw [le_val_cons, List.length_cons, le_bytes, hlow, hhigh, ih]

end Berk162
