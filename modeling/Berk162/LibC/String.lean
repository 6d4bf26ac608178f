import Berk162.LibC.Stdlib

/-!
# String — `lib/string.c`, moving a block

`memmove` is given the object that it writes and the object that it reads; what it touches outside
of them has no value here.  The objects may overlap.
-/

namespace Berk162

variable {d s : Object} {mem : Nat → UInt8} {dst src size : Nat}

/-- The loop of `memmove` that counts up. -/
def move_up (d s : Object) : Nat → (Nat → UInt8) → Nat → Nat → Option ((Nat → UInt8) × Nat)
  | 0, mem, dst, _ => some (mem, dst)
  | size + 1, mem, dst, src => do
      let mem ← d.store mem dst (← s.load mem src)
      move_up d s size mem (size_add dst 1) (size_add src 1)

/-- The loop of `memmove` that counts down. -/
def move_down (d s : Object) : Nat → (Nat → UInt8) → Nat → Nat → Option ((Nat → UInt8) × Nat)
  | 0, mem, dst, _ => some (mem, dst)
  | size + 1, mem, dst, src => do
      let dst := size_sub dst 1
      let src := size_sub src 1
      let mem ← d.store mem dst (← s.load mem src)
      move_down d s size mem dst src

/-- The memory after the call and the pointer that it returns. -/
def memmove (d s : Object) (mem : Nat → UInt8) (dst src size : Nat) :
    Option ((Nat → UInt8) × Nat) := do
  ASSERT (dst ≠ 0 ∨ size = 0)
  ASSERT (src ≠ 0 ∨ size = 0)
  if dst < src then move_up d s size mem dst src
  else move_down d s size mem (size_add dst size) (size_add src size)

/-! ## The loops -/

/-- The memory after the `size` bytes at `src` have been moved to `dst`. -/
def memmoved (mem : Nat → UInt8) (dst src size : Nat) : Nat → UInt8 :=
  overlay mem dst (window mem src size)

theorem memmoved_of_mem {i : Nat} (h : i < size) :
    memmoved mem dst src size (dst + i) = mem (src + i) := by
  rw [memmoved, overlay_of_mem (by omega) (by simpa using h), Nat.add_sub_cancel_left,
    getD_window h]

theorem memmoved_of_not_mem {a : Nat} (h : ¬ (dst ≤ a ∧ a < dst + size)) :
    memmoved mem dst src size a = mem a :=
  overlay_of_not_mem (by rw [length_window]; omega)

@[simp] theorem memmoved_zero : memmoved mem dst src 0 = mem := overlay_nil

/-- The first byte is moved first where the others lie above it. -/
theorem memmoved_up (h : dst < src) :
    memmoved (Function.update mem dst (mem src)) (dst + 1) (src + 1) size =
      memmoved mem dst src (size + 1) := by
  funext a
  by_cases ha : dst ≤ a ∧ a < dst + (size + 1)
  · obtain ⟨i, rfl⟩ := Nat.exists_eq_add_of_le ha.1
    rw [memmoved_of_mem (by omega)]
    rcases i with _ | i
    · rw [memmoved_of_not_mem (by omega), Nat.add_zero, Function.update_self, Nat.add_zero]
    · rw [← Nat.add_assoc, Nat.add_right_comm, memmoved_of_mem (by omega),
        Function.update_of_ne (by omega), Nat.add_right_comm, Nat.add_assoc]
  · rw [memmoved_of_not_mem ha, memmoved_of_not_mem (by omega), Function.update_of_ne (by omega)]

/-- The last byte is moved first where the others lie below it. -/
theorem memmoved_down (h : src ≤ dst) :
    memmoved (Function.update mem (dst + size) (mem (src + size))) dst src size =
      memmoved mem dst src (size + 1) := by
  funext a
  by_cases ha : dst ≤ a ∧ a < dst + (size + 1)
  · obtain ⟨i, rfl⟩ := Nat.exists_eq_add_of_le ha.1
    have hall : memmoved mem dst src (size + 1) (dst + i) = mem (src + i) :=
      memmoved_of_mem (by omega)
    by_cases hi : i < size
    · rw [hall, memmoved_of_mem hi, Function.update_of_ne (by omega)]
    · have hlast : i = size := by omega
      rw [hall, memmoved_of_not_mem (by omega), hlast, Function.update_self]
  · rw [memmoved_of_not_mem ha, memmoved_of_not_mem (by omega), Function.update_of_ne (by omega)]

/-- The object `o` has the `size` bytes at `p`. -/
def Object.Has (o : Object) (p size : Nat) : Prop := o.lo ≤ p ∧ p + size ≤ o.hi ∧ o.hi ≤ WORD

theorem Object.load_eq {o : Object} {p : Nat} (h : o.lo ≤ p ∧ p < o.hi) :
    o.load mem p = some (mem p) := by
  rw [Object.load, ASSERT_pos h]
  rfl

theorem Object.store_eq {o : Object} {p : Nat} {x : UInt8} (h : o.lo ≤ p ∧ p < o.hi) :
    o.store mem p x = some (Function.update mem p x) := by
  rw [Object.store, ASSERT_pos h]
  rfl

/-- A pointer just past the end of memory is null. -/
theorem move_up_eq (hd : d.Has dst size) (hs : s.Has src size) (h : dst < src) :
    move_up d s size mem (dst % WORD) (src % WORD) =
      some (memmoved mem dst src size, (dst + size) % WORD) := by
  induction size generalizing mem dst src with
  | zero => simp [move_up]
  | succ size ih =>
      obtain ⟨hlo, hhi, hw⟩ := hd
      obtain ⟨hlo', hhi', hw'⟩ := hs
      have hnext : ∀ p, size_add (p % WORD) 1 = (p + 1) % WORD := fun p => by
        rw [size_add, Nat.mod_add_mod]
      rw [move_up, hnext, hnext, Nat.mod_eq_of_lt (by omega), Nat.mod_eq_of_lt (by omega),
        Object.load_eq ⟨hlo', by omega⟩]
      simp only [Option.bind_eq_bind, Option.bind_some]
      rw [Object.store_eq ⟨hlo, by omega⟩, Option.bind_some,
        ih ⟨by omega, by omega, hw⟩ ⟨by omega, by omega, hw'⟩ (by omega), memmoved_up h,
        Nat.add_right_comm, Nat.add_assoc]

theorem move_down_eq (hd : d.Has dst size) (hs : s.Has src size) (h : src ≤ dst) :
    move_down d s size mem ((dst + size) % WORD) ((src + size) % WORD) =
      some (memmoved mem dst src size, dst % WORD) := by
  induction size generalizing mem with
  | zero => simp [move_down]
  | succ size ih =>
      obtain ⟨hlo, hhi, hw⟩ := hd
      obtain ⟨hlo', hhi', hw'⟩ := hs
      have hprev : ∀ p, size_sub ((p + (size + 1)) % WORD) 1 = (p + size) % WORD := fun p => by
        rw [size_sub, WORD_eq]
        omega
      rw [move_down, hprev, hprev, Nat.mod_eq_of_lt (a := dst + size) (by omega),
        Nat.mod_eq_of_lt (a := src + size) (by omega), Object.load_eq ⟨by omega, by omega⟩]
      simp only [Option.bind_eq_bind, Option.bind_some]
      rw [Object.store_eq ⟨by omega, by omega⟩, Option.bind_some]
      have ih := @ih (Function.update mem (dst + size) (mem (src + size))) ⟨hlo, by omega, hw⟩
        ⟨hlo', by omega, hw'⟩
      rw [Nat.mod_eq_of_lt (by omega), Nat.mod_eq_of_lt (by omega)] at ih
      rw [ih, memmoved_down h]

/-! ## The call -/

/-- `size` bytes at `p` that a caller may name: no byte is past the end of memory, and only an empty
block is at the null pointer. -/
structure MemBlock (p size : Nat) : Prop where
  pointer : p < WORD
  fits : p + size ≤ WORD
  nonnull : p ≠ 0 ∨ size = 0

theorem MemBlock.has (h : MemBlock dst size) : Object.Has ⟨dst, dst + size⟩ dst size :=
  ⟨Nat.le_refl _, Nat.le_refl _, h.fits⟩

/-- Moving down, within objects that may be larger than what is moved. -/
theorem memmove_down_eq (hd : d.Has dst size) (hs : s.Has src size) (hpos : 0 < dst) (h : dst < src)
    (hw : src < WORD) :
    memmove d s mem dst src size = some (memmoved mem dst src size, (dst + size) % WORD) := by
  have hup := @move_up_eq _ _ mem _ _ _ hd hs h
  rw [Nat.mod_eq_of_lt hw, Nat.mod_eq_of_lt (h.trans hw)] at hup
  rw [memmove, ASSERT_pos (.inl hpos.ne'), ASSERT_pos (.inl (hpos.trans h).ne'), if_pos h]
  exact hup

/-- The bytes always arrive.  The pointer that counted up is not moved back. -/
theorem memmove_eq (hd : MemBlock dst size) (hs : MemBlock src size) :
    memmove ⟨dst, dst + size⟩ ⟨src, src + size⟩ mem dst src size =
      some (memmoved mem dst src size, if dst < src then size_add dst size else dst) := by
  have hup := @move_up_eq _ _ mem _ _ _ hd.has hs.has
  have hdown := @move_down_eq _ _ mem _ _ _ hd.has hs.has
  rw [Nat.mod_eq_of_lt hd.pointer] at hup hdown
  rw [Nat.mod_eq_of_lt hs.pointer] at hup
  rw [memmove, ASSERT_pos hd.nonnull, ASSERT_pos hs.nonnull]
  by_cases h : dst < src
  · rw [if_pos h, if_pos h]
    exact hup h
  · rw [if_neg h, if_neg h]
    exact hdown (Nat.le_of_not_lt h)

/-- What a call has to do: the bytes of the source are in the destination, the bytes outside of it
are as they were, and the pointer is that of the destination. -/
structure Memmoves (mem : Nat → UInt8) (dst src size : Nat) (r : (Nat → UInt8) × Nat) : Prop where
  copied : ∀ i < size, r.1 (dst + i) = mem (src + i)
  frame : ∀ a, ¬ (dst ≤ a ∧ a < dst + size) → r.1 a = mem a
  returned : r.2 = dst

theorem memmove_moves_iff (hd : MemBlock dst size) (hs : MemBlock src size) :
    (∃ r, memmove ⟨dst, dst + size⟩ ⟨src, src + size⟩ mem dst src size = some r ∧
      Memmoves mem dst src size r) ↔ src ≤ dst ∨ size = 0 := by
  rw [memmove_eq hd hs]
  constructor
  · rintro ⟨r, hr, h⟩
    cases hr
    by_contra hbad
    have hlt : dst < src := by omega
    have hret : size_add dst size = dst := by simpa [hlt] using h.returned
    have hw := hd.pointer
    have hfits := hs.fits
    rw [size_add_eq (by omega)] at hret
    omega
  · intro h
    have hret : (if dst < src then size_add dst size else dst) = dst := by
      rcases h with h | rfl
      · exact if_neg (by omega)
      · rw [size_add_eq hd.pointer, Nat.add_zero, ite_self]
    exact ⟨_, rfl, fun i hi => memmoved_of_mem hi, fun a ha => memmoved_of_not_mem ha, hret⟩

/-- Up by one byte: the last byte is moved first. -/
theorem memmove_moves_up_by_one : (∃ r, memmove ⟨0x1000, 0x1000 + 8⟩ ⟨0x0fff, 0x0fff + 8⟩
      (fun a => UInt8.ofNat a) 0x1000 0x0fff 8 = some r ∧
        Memmoves (fun a => UInt8.ofNat a) 0x1000 0x0fff 8 r) ↔ 0x0fff ≤ 0x1000 ∨ 8 = 0 :=
  memmove_moves_iff ⟨by decide, by decide, by decide⟩ ⟨by decide, by decide, by decide⟩

/-- One byte moved down: the pointer that is returned is the one past it. -/
theorem memmove_returns_end : MemBlock 0x1000 1 ∧ MemBlock 0x1001 1 ∧
    ¬ ∃ r, memmove ⟨0x1000, 0x1000 + 1⟩ ⟨0x1001, 0x1001 + 1⟩ (fun a => UInt8.ofNat a) 0x1000 0x1001
      1 = some r ∧ Memmoves (fun a => UInt8.ofNat a) 0x1000 0x1001 1 r := by
  have hd : MemBlock 0x1000 1 := ⟨by decide, by decide, by decide⟩
  have hs : MemBlock 0x1001 1 := ⟨by decide, by decide, by decide⟩
  refine ⟨hd, hs, ?_⟩
  rintro ⟨r, hr, h⟩
  rw [memmove_eq hd hs] at hr
  cases hr
  have hret : size_add 0x1000 1 = 0x1000 := h.returned
  exact absurd hret (by decide)

end Berk162
