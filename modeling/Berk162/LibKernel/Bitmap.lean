import Berk162.Lib.Machine

/-!
# Bitmap — `lib/kernel/bitmap.c`

A bitmap is an array of 32-bit elements (`elem_type` is `unsigned long` on the i386) that
simulates an array of bits.  The bits of the last element beyond `bit_cnt` are storage like any
other: `bitmap_create` leaves them as `malloc` returned them.

An operation that can fail an `ASSERT` returns `none` in that case.  Beside each operation stands
its effect on `Bitmap.test`, the view of a bitmap as an array of bits that the rest of the
development uses.
-/

namespace Berk162

/-- `BITMAP_ERROR`, which is `SIZE_MAX`. -/
def BITMAP_ERROR : Nat := WORD - 1

/-- `struct bitmap`. -/
structure Bitmap where
  bit_cnt : Nat
  bits : Nat → BitVec 32

/-- Number of bits in an element. -/
def ELEM_BITS : Nat := 32

def elem_idx (bit_idx : Nat) : Nat := bit_idx / ELEM_BITS

def bit_mask (bit_idx : Nat) : BitVec 32 := 1#32 <<< (bit_idx % ELEM_BITS)

def elem_cnt (bit_cnt : Nat) : Nat := DIV_ROUND_UP bit_cnt ELEM_BITS

def byte_cnt (bit_cnt : Nat) : Nat := size_mul 4 (elem_cnt bit_cnt)

/-- `sizeof (struct bitmap)`: a `size_t` and a pointer. -/
def sizeof_bitmap : Nat := 8

def bitmap_buf_size (bit_cnt : Nat) : Nat := size_add sizeof_bitmap (byte_cnt bit_cnt)

/-! ## Single bits -/

/-- `bitmap_test` without its assertions: the bit numbered `idx`. -/
def Bitmap.test (b : Bitmap) (idx : Nat) : Bool := (b.bits (elem_idx idx) &&& bit_mask idx) != 0

def bitmap_test (b : Bitmap) (idx : Nat) : Option Bool := do
  ASSERT (idx < b.bit_cnt)
  return b.test idx

def bitmap_mark (b : Bitmap) (bit_idx : Nat) : Bitmap :=
  let idx := elem_idx bit_idx
  let mask := bit_mask bit_idx
  { b with bits := Function.update b.bits idx (b.bits idx ||| mask) }

def bitmap_reset (b : Bitmap) (bit_idx : Nat) : Bitmap :=
  let idx := elem_idx bit_idx
  let mask := bit_mask bit_idx
  { b with bits := Function.update b.bits idx (b.bits idx &&& ~~~mask) }

def bitmap_set (b : Bitmap) (idx : Nat) (value : Bool) : Option Bitmap := do
  ASSERT (idx < b.bit_cnt)
  return if value then bitmap_mark b idx else bitmap_reset b idx

theorem Bitmap.test_eq_getLsbD (b : Bitmap) (i : Nat) :
    b.test i = (b.bits (i / 32)).getLsbD (i % 32) := by
  have hlt : i % 32 < 32 := Nat.mod_lt _ (by omega)
  have hmask : bit_mask i = BitVec.twoPow 32 (i % 32) := rfl
  rw [Bitmap.test, elem_idx, ELEM_BITS, hmask, BitVec.and_twoPow]
  cases hbit : (b.bits (i / 32)).getLsbD (i % 32) with
  | false =>
      simp
  | true =>
      have hne : BitVec.twoPow 32 (i % 32) ≠ 0#32 := by
        intro h0
        have := congrArg (fun v => v.getLsbD (i % 32)) h0
        simp [hlt] at this
      simpa using hne

theorem test_mark (b : Bitmap) (i j : Nat) :
    (bitmap_mark b i).test j = (decide (j = i) || b.test j) := by
  have hlt : j % 32 < 32 := Nat.mod_lt _ (by omega)
  have hmask : bit_mask i = BitVec.twoPow 32 (i % 32) := rfl
  rw [Bitmap.test_eq_getLsbD, Bitmap.test_eq_getLsbD]
  by_cases hidx : j / 32 = i / 32
  · have hij : j % 32 = i % 32 ↔ j = i := by omega
    simp [bitmap_mark, elem_idx, ELEM_BITS, hidx, hmask, hlt, hij, Bool.or_comm]
  · have hij : j ≠ i := fun h => hidx (by rw [h])
    simp [bitmap_mark, elem_idx, ELEM_BITS, hidx, hij]

theorem test_reset (b : Bitmap) (i j : Nat) :
    (bitmap_reset b i).test j = (!decide (j = i) && b.test j) := by
  have hlt : j % 32 < 32 := Nat.mod_lt _ (by omega)
  have hmask : bit_mask i = BitVec.twoPow 32 (i % 32) := rfl
  rw [Bitmap.test_eq_getLsbD, Bitmap.test_eq_getLsbD]
  by_cases hidx : j / 32 = i / 32
  · have hij : j % 32 = i % 32 ↔ j = i := by omega
    simp [bitmap_reset, elem_idx, ELEM_BITS, hidx, hmask, hlt, hij, Bool.and_comm]
  · have hij : j ≠ i := fun h => hidx (by rw [h])
    simp [bitmap_reset, elem_idx, ELEM_BITS, hidx, hij]

/-- `bitmap_set` within the bitmap never panics and changes one bit. -/
theorem bitmap_set_spec {b : Bitmap} {idx : Nat} (value : Bool) (h : idx < b.bit_cnt) :
    ∃ b', bitmap_set b idx value = some b' ∧ b'.bit_cnt = b.bit_cnt ∧
      ∀ j, b'.test j = if j = idx then value else b.test j := by
  cases value with
  | false =>
      refine ⟨bitmap_reset b idx, by simp [bitmap_set, h], rfl, fun j => ?_⟩
      by_cases hj : j = idx <;> simp [test_reset, hj]
  | true =>
      refine ⟨bitmap_mark b idx, by simp [bitmap_set, h], rfl, fun j => ?_⟩
      by_cases hj : j = idx <;> simp [test_mark, hj]

/-! ## Groups of bits -/

/-- The loop of `bitmap_set_multiple`: `n` bits starting at `i`. -/
def set_from (value : Bool) : Bitmap → Nat → Nat → Option Bitmap
  | b, _, 0 => some b
  | b, i, n + 1 => do
      let b ← bitmap_set b i value
      set_from value b (i + 1) n

def bitmap_set_multiple (b : Bitmap) (start cnt : Nat) (value : Bool) : Option Bitmap := do
  ASSERT (start ≤ b.bit_cnt)
  ASSERT (size_add start cnt ≤ b.bit_cnt)
  set_from value b start cnt

def bitmap_set_all (b : Bitmap) (value : Bool) : Option Bitmap :=
  bitmap_set_multiple b 0 b.bit_cnt value

/-- The loop of `bitmap_contains`: some bit among the `n` starting at `i` equals `value`. -/
def contains_from (b : Bitmap) (value : Bool) : Nat → Nat → Option Bool
  | _, 0 => some false
  | i, n + 1 => do
      if (← bitmap_test b i) = value then
        return true
      contains_from b value (i + 1) n

def bitmap_contains (b : Bitmap) (start cnt : Nat) (value : Bool) : Option Bool := do
  ASSERT (start ≤ b.bit_cnt)
  ASSERT (size_add start cnt ≤ b.bit_cnt)
  contains_from b value start cnt

def bitmap_all (b : Bitmap) (start cnt : Nat) : Option Bool := do
  return !(← bitmap_contains b start cnt false)

/-- The bits `start .. start + cnt - 1` all equal `value`. -/
def Bitmap.RunAt (b : Bitmap) (start cnt : Nat) (value : Bool) : Prop :=
  ∀ i, start ≤ i → i < start + cnt → b.test i = value

theorem set_from_spec (value : Bool) (n : Nat) :
    ∀ (b : Bitmap) (i : Nat), i + n ≤ b.bit_cnt →
      ∃ b', set_from value b i n = some b' ∧ b'.bit_cnt = b.bit_cnt ∧
        ∀ j, b'.test j = if i ≤ j ∧ j < i + n then value else b.test j := by
  induction n with
  | zero =>
      intro b i _
      refine ⟨b, rfl, rfl, fun j => ?_⟩
      rw [if_neg (by omega)]
  | succ n ih =>
      intro b i hle
      rcases bitmap_set_spec value (show i < b.bit_cnt by omega) with ⟨b₁, hset, hcnt₁, htest₁⟩
      rcases ih b₁ (i + 1) (by omega) with ⟨b₂, hrest, hcnt₂, htest₂⟩
      refine ⟨b₂, by simp [set_from, hset, hrest], hcnt₂.trans hcnt₁, fun j => ?_⟩
      rw [htest₂, htest₁]
      split_ifs <;> first | rfl | omega

/-- `bitmap_set_multiple` on a group inside the bitmap sets exactly that group. -/
theorem bitmap_set_multiple_spec {b : Bitmap} {start cnt : Nat} (value : Bool)
    (hin : start + cnt ≤ b.bit_cnt) (hcnt : b.bit_cnt < WORD) :
    ∃ b', bitmap_set_multiple b start cnt value = some b' ∧ b'.bit_cnt = b.bit_cnt ∧
      ∀ j, b'.test j = if start ≤ j ∧ j < start + cnt then value else b.test j := by
  rcases set_from_spec value cnt b start hin with ⟨b', hset, hcnt', htest⟩
  refine ⟨b', ?_, hcnt', htest⟩
  have hadd : size_add start cnt = start + cnt := size_add_eq (by omega)
  have hstart : start ≤ b.bit_cnt := by omega
  simp [bitmap_set_multiple, hadd, hin, hstart, hset]

theorem contains_from_spec (b : Bitmap) (value : Bool) (n : Nat) :
    ∀ i, i + n ≤ b.bit_cnt →
      ∃ r, contains_from b value i n = some r ∧ (r = false ↔ b.RunAt i n (!value)) := by
  induction n with
  | zero =>
      intro i _
      refine ⟨false, rfl, ?_⟩
      simp only [true_iff]
      intro j hj hj'
      omega
  | succ n ih =>
      intro i hle
      have htest : bitmap_test b i = some (b.test i) := by
        simp [bitmap_test, show i < b.bit_cnt by omega]
      by_cases hi : b.test i = value
      · refine ⟨true, by simp [contains_from, htest, hi], ?_⟩
        simp only [Bool.true_eq_false, false_iff]
        intro hrun
        have := hrun i (le_refl i) (by omega)
        simp [hi] at this
      · rcases ih (i + 1) (by omega) with ⟨r, hr, hiff⟩
        refine ⟨r, by simp [contains_from, htest, hi, hr], hiff.trans ?_⟩
        have hi' : b.test i = !value := by
          cases hv : value <;> simp_all
        constructor
        · intro hrun j hj hj'
          rcases Nat.eq_or_lt_of_le hj with rfl | hlt
          · exact hi'
          · exact hrun j hlt (by omega)
        · intro hrun j hj hj'
          exact hrun j (by omega) (by omega)

theorem bitmap_contains_spec {b : Bitmap} {start cnt : Nat} (value : Bool)
    (hin : start + cnt ≤ b.bit_cnt) (hcnt : b.bit_cnt < WORD) :
    ∃ r, bitmap_contains b start cnt value = some r ∧
      (r = false ↔ b.RunAt start cnt (!value)) := by
  rcases contains_from_spec b value cnt start hin with ⟨r, hr, hiff⟩
  refine ⟨r, ?_, hiff⟩
  have hadd : size_add start cnt = start + cnt := size_add_eq (by omega)
  have hstart : start ≤ b.bit_cnt := by omega
  simp [bitmap_contains, hadd, hin, hstart, hr]

theorem bitmap_all_spec {b : Bitmap} {start cnt : Nat}
    (hin : start + cnt ≤ b.bit_cnt) (hcnt : b.bit_cnt < WORD) :
    ∃ r, bitmap_all b start cnt = some r ∧ (r = true ↔ b.RunAt start cnt true) := by
  rcases bitmap_contains_spec false hin hcnt with ⟨r, hr, hiff⟩
  refine ⟨!r, by simp [bitmap_all, hr], ?_⟩
  cases r <;> simpa using hiff

/-- A group that the loop of `bitmap_contains` goes through to its end lies in the bitmap. -/
theorem contains_from_false {b : Bitmap} {value : Bool} {n : Nat} :
    ∀ {i : Nat}, i ≤ b.bit_cnt → contains_from b value i n = some false →
      i + n ≤ b.bit_cnt ∧ b.RunAt i n (!value) := by
  induction n with
  | zero =>
      intro i hi _
      refine ⟨hi, fun j hj hj' => ?_⟩
      omega
  | succ n ih =>
      intro i hi h
      by_cases hlt : i < b.bit_cnt
      · have htest : bitmap_test b i = some (b.test i) := by
          simp [bitmap_test, hlt]
        by_cases hv : b.test i = value
        · simp [contains_from, htest, hv] at h
        · rcases ih hlt (by simpa [contains_from, htest, hv] using h) with ⟨hfit, hrun⟩
          have hv' : b.test i = !value := Bool.eq_not_of_ne hv
          refine ⟨by omega, fun j hj hj' => ?_⟩
          rcases Nat.eq_or_lt_of_le hj with rfl | hlt'
          · exact hv'
          · exact hrun j hlt' (by omega)
      · simp [contains_from, bitmap_test, hlt] at h

theorem bitmap_all_true {b : Bitmap} {start cnt : Nat} (h : bitmap_all b start cnt = some true) :
    start + cnt ≤ b.bit_cnt ∧ b.RunAt start cnt true := by
  have hcontains : bitmap_contains b start cnt false = some false := by
    cases hc : bitmap_contains b start cnt false with
    | none =>
        simp [bitmap_all, hc] at h
    | some r =>
        simpa [bitmap_all, hc] using h
  by_cases hstart : start ≤ b.bit_cnt
  · by_cases hadd : size_add start cnt ≤ b.bit_cnt
    · exact contains_from_false hstart (by simpa [bitmap_contains, hstart, hadd] using hcontains)
    · simp [bitmap_contains, hadd] at hcontains
  · simp [bitmap_contains, hstart] at hcontains

/-! ## Finding set or unset bits -/

/-- The loop of `bitmap_scan` over the `n` candidate positions starting at `i`. -/
def scan_from (b : Bitmap) (cnt : Nat) (value : Bool) : Nat → Nat → Option Nat
  | _, 0 => some BITMAP_ERROR
  | i, n + 1 => do
      if !(← bitmap_contains b i cnt (!value)) then
        return i
      scan_from b cnt value (i + 1) n

def bitmap_scan (b : Bitmap) (start cnt : Nat) (value : Bool) : Option Nat := do
  ASSERT (start ≤ b.bit_cnt)
  if cnt ≤ b.bit_cnt then
    let last := b.bit_cnt - cnt
    scan_from b cnt value start (last + 1 - start)
  else
    return BITMAP_ERROR

def bitmap_scan_and_flip (b : Bitmap) (start cnt : Nat) (value : Bool) :
    Option (Bitmap × Nat) := do
  let idx ← bitmap_scan b start cnt value
  if idx ≠ BITMAP_ERROR then
    let b ← bitmap_set_multiple b idx cnt (!value)
    return (b, idx)
  else
    return (b, idx)

/-- The least position from `start` on of a run of `cnt` bits equal to `value`. -/
structure Bitmap.FirstRun (b : Bitmap) (start cnt : Nat) (value : Bool) (idx : Nat) : Prop where
  ge : start ≤ idx
  fits : idx + cnt ≤ b.bit_cnt
  run : b.RunAt idx cnt value
  least : ∀ k, start ≤ k → k < idx → ¬ b.RunAt k cnt value

theorem Bitmap.FirstRun.unique {b : Bitmap} {start cnt k l : Nat} {value : Bool}
    (hk : b.FirstRun start cnt value k) (hl : b.FirstRun start cnt value l) : k = l := by
  rcases Nat.lt_trichotomy k l with hlt | heq | hgt
  · exact absurd hk.run (hl.least k hk.ge hlt)
  · exact heq
  · exact absurd hl.run (hk.least l hl.ge hgt)

/-- No run of `cnt` bits equal to `value` lies in the bitmap from `start` on. -/
def Bitmap.NoRun (b : Bitmap) (start cnt : Nat) (value : Bool) : Prop :=
  ∀ k, start ≤ k → k + cnt ≤ b.bit_cnt → ¬ b.RunAt k cnt value

theorem scan_from_spec {b : Bitmap} {cnt : Nat} (value : Bool) (hcnt : b.bit_cnt < WORD)
    (n : Nat) : ∀ i, i + n + cnt = b.bit_cnt + 1 →
      (∃ idx, scan_from b cnt value i n = some idx ∧ b.FirstRun i cnt value idx) ∨
        (scan_from b cnt value i n = some BITMAP_ERROR ∧ b.NoRun i cnt value) := by
  induction n with
  | zero =>
      intro i hi
      right
      refine ⟨rfl, fun k hk hk' _ => ?_⟩
      omega
  | succ n ih =>
      intro i hi
      rcases bitmap_contains_spec (!value) (show i + cnt ≤ b.bit_cnt by omega) hcnt with ⟨r, hr, hiff⟩
      rw [Bool.not_not] at hiff
      cases r with
      | false =>
          left
          refine ⟨i, by simp [scan_from, hr], ⟨le_refl i, by omega, hiff.1 rfl, ?_⟩⟩
          intro k hk hk'
          omega
      | true =>
          have hnot : ¬ b.RunAt i cnt value := fun h => by simpa using hiff.2 h
          have hstep : scan_from b cnt value i (n + 1) = scan_from b cnt value (i + 1) n := by
            simp [scan_from, hr]
          rcases ih (i + 1) (by omega) with ⟨idx, hidx, hfirst⟩ | ⟨herr, hno⟩
          · left
            refine ⟨idx, hstep.trans hidx, ⟨?_, hfirst.fits, hfirst.run, ?_⟩⟩
            · have := hfirst.ge
              omega
            · intro k hk hk'
              rcases Nat.eq_or_lt_of_le hk with rfl | hlt
              · exact hnot
              · exact hfirst.least k hlt hk'
          · right
            refine ⟨hstep.trans herr, fun k hk hk' => ?_⟩
            rcases Nat.eq_or_lt_of_le hk with rfl | hlt
            · exact hnot
            · exact hno k hlt hk'

/-- `bitmap_scan` finds the first run, or reports that there is none. -/
theorem bitmap_scan_spec {b : Bitmap} {start : Nat} (cnt : Nat) (value : Bool)
    (hstart : start ≤ b.bit_cnt) (hcnt : b.bit_cnt < WORD) :
    (∃ idx, bitmap_scan b start cnt value = some idx ∧ b.FirstRun start cnt value idx) ∨
      (bitmap_scan b start cnt value = some BITMAP_ERROR ∧ b.NoRun start cnt value) := by
  by_cases hfit : start + cnt ≤ b.bit_cnt
  · have hle : cnt ≤ b.bit_cnt := by omega
    have h := scan_from_spec value hcnt (b.bit_cnt - cnt + 1 - start) start
      (show start + (b.bit_cnt - cnt + 1 - start) + cnt = b.bit_cnt + 1 by omega)
    simpa [bitmap_scan, hstart, hle] using h
  · right
    refine ⟨?_, fun k hk hk' _ => by omega⟩
    by_cases hle : cnt ≤ b.bit_cnt
    · have hzero : b.bit_cnt - cnt + 1 - start = 0 := by omega
      simp [bitmap_scan, hstart, hle, hzero, scan_from]
    · simp [bitmap_scan, hstart, hle]

/-- `bitmap_scan_and_flip` flips the run that `bitmap_scan` found and nothing else.  The bitmap
must be shorter than `SIZE_MAX` bits, so that an index is never mistaken for `BITMAP_ERROR`. -/
theorem bitmap_scan_and_flip_spec {b : Bitmap} {start : Nat} (cnt : Nat) (value : Bool)
    (hstart : start ≤ b.bit_cnt) (hcnt : b.bit_cnt < BITMAP_ERROR) :
    (∃ b' idx, bitmap_scan_and_flip b start cnt value = some (b', idx) ∧ idx ≠ BITMAP_ERROR ∧
        b.FirstRun start cnt value idx ∧ b'.bit_cnt = b.bit_cnt ∧
        ∀ j, b'.test j = if idx ≤ j ∧ j < idx + cnt then !value else b.test j) ∨
      (bitmap_scan_and_flip b start cnt value = some (b, BITMAP_ERROR) ∧
        b.NoRun start cnt value) := by
  have hword : b.bit_cnt < WORD := by
    simp only [BITMAP_ERROR, WORD] at hcnt ⊢
    omega
  rcases bitmap_scan_spec cnt value hstart hword with ⟨idx, hscan, hfirst⟩ | ⟨hscan, hno⟩
  · left
    have hfits := hfirst.fits
    have hne : idx ≠ BITMAP_ERROR := by omega
    rcases bitmap_set_multiple_spec (!value) hfits hword with ⟨b', hset, hcnt', htest⟩
    exact ⟨b', idx, by simp [bitmap_scan_and_flip, hscan, hne, hset], hne, hfirst, hcnt', htest⟩
  · right
    exact ⟨by simp [bitmap_scan_and_flip, hscan], hno⟩

/-! ## Creation -/

/-- `bitmap_create_in_buf`, on storage that holds the words `storage`. -/
def bitmap_create_in_buf (bit_cnt block_size : Nat) (storage : Nat → BitVec 32) :
    Option Bitmap := do
  ASSERT (block_size ≥ bitmap_buf_size bit_cnt)
  bitmap_set_all { bit_cnt := bit_cnt, bits := storage } false

theorem bitmap_set_all_spec (b : Bitmap) (value : Bool) (hcnt : b.bit_cnt < WORD) :
    ∃ b', bitmap_set_all b value = some b' ∧ b'.bit_cnt = b.bit_cnt ∧
      ∀ j, b'.test j = if j < b.bit_cnt then value else b.test j := by
  rcases bitmap_set_multiple_spec value (show 0 + b.bit_cnt ≤ b.bit_cnt by omega) hcnt with
      ⟨b', hset, hcnt', htest⟩
  refine ⟨b', hset, hcnt', fun j => ?_⟩
  rw [htest]
  simp

end Berk162
