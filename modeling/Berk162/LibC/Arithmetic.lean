import Berk162.Lib.Machine

/-!
# Arithmetic — `lib/arithmetic.c`

Division of 64-bit integers with the DIVL instruction.  `none` is the trap of DIVL.

`udiv64` divides by more than 32 bits with an estimate: `v`, the leading 32 bits of the divisor,
divides half of the dividend.  `estimate_le` and `le_estimate` say how far off the quotient is.
-/

namespace Berk162

/-- The instruction traps if the quotient does not fit in 32 bits. -/
def divl (n : BitVec 64) (d : BitVec 32) : Option (BitVec 32) :=
  if d = 0 ∨ 2 ^ 32 ≤ n.toNat / d.toNat then none else some (BitVec.ofNat 32 (n.toNat / d.toNat))

/-- One of the tests of `nlz`, on `n` and `x`. -/
def nlz_test (limit : BitVec 32) (bits : Nat) (p : Nat × BitVec 32) : Nat × BitVec 32 :=
  if p.2 ≤ limit then (p.1 + bits, p.2 <<< bits) else p

/-- `nlz` -/
def nlz (x : BitVec 32) : Nat :=
  let p := (0, x)
  let p := nlz_test 0x0000FFFF 16 p
  let p := nlz_test 0x00FFFFFF 8 p
  let p := nlz_test 0x0FFFFFFF 4 p
  let p := nlz_test 0x3FFFFFFF 2 p
  -- the source does not shift `x` here, which it does not use any more
  let p := nlz_test 0x7FFFFFFF 1 p
  p.1

/-- `udiv64` -/
def udiv64 (n d : BitVec 64) : Option (BitVec 64) :=
  if d >>> 32 = 0 then do
    let b : BitVec 64 := 1#64 <<< 32
    let n1 : BitVec 32 := (n >>> 32).setWidth 32
    let n0 : BitVec 32 := n.setWidth 32
    let d0 : BitVec 32 := d.setWidth 32
    let q ← divl (b * (n1 % d0).setWidth 64 + n0.setWidth 64) d0
    return q.setWidth 64 + b * (n1 / d0).setWidth 64
  else if n < d then some 0
  else do
    let d1 : BitVec 32 := (d >>> 32).setWidth 32
    let s := nlz d1
    let q ← divl (n >>> 1) (((d <<< s) >>> 32).setWidth 32)
    let q : BitVec 64 := (q >>> (31 - s)).setWidth 64
    return if n - (q - 1) * d < d then q - 1 else q

/-- `umod64`, which returns a `uint32_t`. -/
def umod64 (n d : BitVec 64) : Option (BitVec 32) := do
  let q ← udiv64 n d
  return (n - d * q).setWidth 32

/-- `n_abs` and `d_abs` of `sdiv64`. -/
def abs64 (n : BitVec 64) : BitVec 64 := if 0 ≤ n.toInt then n else -n

/-- `sdiv64`.  The negation of an `int64_t` wraps around. -/
def sdiv64 (n d : BitVec 64) : Option (BitVec 64) := do
  let q_abs ← udiv64 (abs64 n) (abs64 d)
  return if (n.toInt < 0) = (d.toInt < 0) then q_abs else -q_abs

/-- `smod64`, which returns an `int32_t`. -/
def smod64 (n d : BitVec 64) : Option (BitVec 32) := do
  let q ← sdiv64 n d
  return (n - d * q).setWidth 32

/-- `__divdi3` -/
def divdi3 (n d : BitVec 64) : Option (BitVec 64) := sdiv64 n d

/-- `__moddi3` -/
def moddi3 (n d : BitVec 64) : Option (BitVec 64) := (smod64 n d).map (BitVec.signExtend 64)

/-- `__udivdi3` -/
def udivdi3 (n d : BitVec 64) : Option (BitVec 64) := udiv64 n d

/-- `__umoddi3` -/
def umoddi3 (n d : BitVec 64) : Option (BitVec 64) := (umod64 n d).map (BitVec.setWidth 64)

/-! ## Leading zeros -/

theorem toNat_pos {w : Nat} {x : BitVec w} (h : x ≠ 0) : 0 < x.toNat := by
  rw [Nat.pos_iff_ne_zero]
  exact fun hzero => h (BitVec.eq_of_toNat_eq hzero)

/-- After some tests: `x` has been shifted to the left by `p.1`, and its first `k` bits at most are
zeros. -/
def Shifted (x : BitVec 32) (k : Nat) (p : Nat × BitVec 32) : Prop :=
  p.2.toNat = x.toNat * 2 ^ p.1 ∧ 2 ^ 32 ≤ p.2.toNat * 2 ^ (k + 1)

theorem Shifted.test {x : BitVec 32} {p : Nat × BitVec 32} {k : Nat} (h : Shifted x k p)
    (limit : BitVec 32) (bits : Nat) (hlimit : (limit.toNat + 1) * 2 ^ bits = 2 ^ 32)
    (hk : k + 1 = 2 * bits) : Shifted x (bits - 1) (nlz_test limit bits p) := by
  obtain ⟨hx, hzeros⟩ := h
  rw [nlz_test]
  split
  · next hle =>
    have hlt : p.2.toNat * 2 ^ bits < 2 ^ 32 := by
      rw [← hlimit]
      exact Nat.mul_lt_mul_of_pos_right (Nat.lt_succ_of_le hle) (Nat.two_pow_pos bits)
    have hshift : (p.2 <<< bits).toNat = p.2.toNat * 2 ^ bits := by
      rw [BitVec.toNat_shiftLeft, Nat.shiftLeft_eq, Nat.mod_eq_of_lt hlt]
    refine ⟨?_, ?_⟩
    · rw [hshift, hx, Nat.mul_assoc, ← Nat.pow_add]
    · rw [hshift, Nat.mul_assoc, ← Nat.pow_add]
      have hexp : bits + (bits - 1 + 1) = k + 1 := by omega
      rwa [hexp]
  · next hgt =>
    refine ⟨hx, ?_⟩
    have hexp : bits - 1 + 1 = bits := by omega
    rw [hexp, ← hlimit]
    exact Nat.mul_le_mul_right _ (Nat.lt_of_not_le hgt)

/-- Shifted by `nlz x`, `x` has its first bit set. -/
theorem nlz_spec {x : BitVec 32} (h : x ≠ 0) :
    nlz x < 32 ∧ 2 ^ 31 ≤ x.toNat * 2 ^ nlz x ∧ x.toNat * 2 ^ nlz x < 2 ^ 32 := by
  have hpos := toNat_pos h
  have hstart : Shifted x 31 (0, x) := by
    refine ⟨by rw [Nat.pow_zero, Nat.mul_one], ?_⟩
    exact Nat.le_mul_of_pos_left _ hpos
  have h16 := hstart.test 0x0000FFFF 16 (by decide) rfl
  have h8 := h16.test 0x00FFFFFF 8 (by decide) rfl
  have h4 := h8.test 0x0FFFFFFF 4 (by decide) rfl
  have h2 := h4.test 0x3FFFFFFF 2 (by decide) rfl
  obtain ⟨hx, hfirst⟩ := h2.test 0x7FFFFFFF 1 (by decide) rfl
  change _ = x.toNat * 2 ^ nlz x at hx
  rw [hx] at hfirst
  have hlt : x.toNat * 2 ^ nlz x < 2 ^ 32 := hx ▸ BitVec.isLt _
  refine ⟨?_, by omega, hlt⟩
  exact (Nat.pow_lt_pow_iff_right (by decide)).1 (Nat.lt_of_le_of_lt (Nat.le_mul_of_pos_left _ hpos) hlt)

/-! ## The estimate -/

section Estimate

variable {n d s v : Nat}

/-- The divisor that the estimate divides by instead of `d` is at most `d`. -/
theorem estimate_divisor_le (hs : s ≤ 32) (hv : v * 2 ^ 32 ≤ d * 2 ^ s) : v * 2 ^ (32 - s) ≤ d := by
  have hsplit : 2 ^ 32 = 2 ^ (32 - s) * 2 ^ s := by rw [← Nat.pow_add, Nat.sub_add_cancel hs]
  rw [hsplit, ← Nat.mul_assoc] at hv
  exact Nat.le_of_mul_le_mul_right hv (Nat.two_pow_pos s)

theorem lt_estimate_divisor (hs : s ≤ 32) (hv : d * 2 ^ s < (v + 1) * 2 ^ 32) :
    d < (v + 1) * 2 ^ (32 - s) := by
  have hsplit : 2 ^ 32 = 2 ^ (32 - s) * 2 ^ s := by rw [← Nat.pow_add, Nat.sub_add_cancel hs]
  rw [hsplit, ← Nat.mul_assoc] at hv
  exact Nat.lt_of_mul_lt_mul_right hv

/-- The estimate is the quotient by that divisor. -/
theorem estimate_eq (hs : s < 32) : n / 2 / v / 2 ^ (31 - s) = n / (v * 2 ^ (32 - s)) := by
  have hexp : 32 - s = 31 - s + 1 := by omega
  rw [Nat.div_div_eq_div_mul, Nat.div_div_eq_div_mul, hexp, Nat.pow_succ]
  congr 1
  ring

/-- It is at most one too large. -/
theorem estimate_le (hs : s < 32) (hn : n < 2 ^ 64) (hv : 2 ^ 31 ≤ v) (hle : v * 2 ^ (32 - s) ≤ d)
    (hlt : d < (v + 1) * 2 ^ (32 - s)) : n / (v * 2 ^ (32 - s)) ≤ n / d + 1 := by
  have hpow : 2 ^ (32 - s) ∣ 2 ^ 33 := pow_dvd_pow 2 (by omega)
  have hc : 2 ^ (32 - s) = 2 ∨ 4 ≤ 2 ^ (32 - s) := by
    rcases Nat.lt_or_ge s 31 with h | h
    · exact Or.inr (Nat.pow_le_pow_right Nat.two_pos (by omega : 2 ≤ 32 - s))
    · exact Or.inl (by rw [show 32 - s = 1 by omega, Nat.pow_one])
  generalize 2 ^ (32 - s) = c at hpow hc hle hlt ⊢
  have hcpos : 0 < c := by omega
  have hvc : 2 ^ 31 * c ≤ v * c := Nat.mul_le_mul_right c hv
  have hd : n < (n / d + 1) * d := Nat.lt_mul_of_div_lt (Nat.lt_succ_self _) (by omega)
  -- the quotient is less than `2 ^ 33 / c`, of which `c` is a divisor
  have hquot : (n / d + 1) * c ≤ 2 ^ 33 := by
    have hlt' : n / d * c * 2 ^ 31 < 2 ^ 33 * 2 ^ 31 :=
      calc n / d * c * 2 ^ 31 = n / d * (2 ^ 31 * c) := by ring
        _ ≤ n / d * d := Nat.mul_le_mul_left _ (hvc.trans hle)
        _ ≤ n := Nat.div_mul_le_self n d
        _ < 2 ^ 33 * 2 ^ 31 := hn
    obtain ⟨m, hm⟩ := hpow
    have hquot' : n / d * c < 2 ^ 33 := Nat.lt_of_mul_lt_mul_right hlt'
    rw [hm, Nat.mul_comm] at hquot' ⊢
    exact Nat.mul_le_mul_left c (Nat.lt_of_mul_lt_mul_left hquot')
  -- so the `c - 1` by which the divisors differ at most matter less than one divisor
  have herror : (n / d + 1) * (c - 1) ≤ v * c := by
    rcases hc with rfl | hfour
    · omega
    · calc (n / d + 1) * (c - 1) ≤ (n / d + 1) * c := Nat.mul_le_mul_left _ (Nat.sub_le c 1)
        _ ≤ 2 ^ 31 * c := by omega
        _ ≤ v * c := hvc
  have hstep : (n / d + 1) * d ≤ (n / d + 1) * (v * c) + (n / d + 1) * (c - 1) := by
    rw [← Nat.mul_add]
    refine Nat.mul_le_mul_left _ ?_
    rw [Nat.add_mul, Nat.one_mul] at hlt
    omega
  rw [← Nat.lt_succ_iff, Nat.div_lt_iff_lt_mul (by omega), Nat.succ_mul]
  omega

end Estimate

/-! ## Division -/

variable {n d : BitVec 64}

theorem divl_eq {d : BitVec 32} (hd : d ≠ 0) (h : n.toNat / d.toNat < 2 ^ 32) :
    ∃ q, divl n d = some q ∧ q.toNat = n.toNat / d.toNat := by
  refine ⟨_, if_neg (not_or.2 ⟨hd, Nat.not_le.2 h⟩), ?_⟩
  rw [BitVec.toNat_ofNat, Nat.mod_eq_of_lt h]

/-- The high word of a dividend or a divisor. -/
theorem toNat_high (x : BitVec 64) : ((x >>> 32).setWidth 32).toNat = x.toNat / 2 ^ 32 := by
  have hx := x.isLt
  rw [BitVec.toNat_setWidth, BitVec.toNat_ushiftRight, Nat.shiftRight_eq_div_pow,
    Nat.mod_eq_of_lt (by omega)]

/-- Long division by one digit. -/
theorem udiv64_short (hd : d ≠ 0) (hhigh : d >>> 32 = 0) :
    ∃ q, udiv64 n d = some q ∧ q.toNat = n.toNat / d.toNat := by
  have hpos := toNat_pos hd
  have hn := n.isLt
  have hhigh' : d.toNat / 2 ^ 32 = 0 := by
    rw [← Nat.shiftRight_eq_div_pow, ← BitVec.toNat_ushiftRight, hhigh]
    rfl
  have hd0 : (d.setWidth 32).toNat = d.toNat := by
    rw [BitVec.toNat_setWidth, Nat.mod_eq_of_lt (by omega)]
  have hd0' : d.setWidth 32 ≠ 0 := by
    intro hzero
    rw [hzero] at hd0
    exact Nat.ne_of_gt hpos hd0.symm
  have hn1 := toNat_high n
  have hmod : n.toNat / 2 ^ 32 % d.toNat < d.toNat := Nat.mod_lt _ hpos
  have hb : (1#64 <<< 32).toNat = 2 ^ 32 := rfl
  -- what is left of the first digit, with the second one behind it
  have harg : ((1#64 <<< 32) * ((n >>> 32).setWidth 32 % d.setWidth 32).setWidth 64 +
      (n.setWidth 32).setWidth 64).toNat =
      2 ^ 32 * (n.toNat / 2 ^ 32 % d.toNat) + n.toNat % 2 ^ 32 := by
    rw [BitVec.toNat_add, BitVec.toNat_mul, BitVec.toNat_setWidth, BitVec.toNat_umod, hd0, hn1, hb,
      BitVec.toNat_setWidth, BitVec.toNat_setWidth]
    omega
  have hdivmod : n.toNat = d.toNat * (2 ^ 32 * (n.toNat / 2 ^ 32 / d.toNat)) +
      (2 ^ 32 * (n.toNat / 2 ^ 32 % d.toNat) + n.toNat % 2 ^ 32) :=
    calc n.toNat = 2 ^ 32 * (n.toNat / 2 ^ 32) + n.toNat % 2 ^ 32 := (Nat.div_add_mod _ _).symm
      _ = 2 ^ 32 * (d.toNat * (n.toNat / 2 ^ 32 / d.toNat) + n.toNat / 2 ^ 32 % d.toNat) +
          n.toNat % 2 ^ 32 := by rw [Nat.div_add_mod (n.toNat / 2 ^ 32), Nat.div_add_mod]
      _ = _ := by ring
  have hquot : n.toNat / d.toNat = 2 ^ 32 * (n.toNat / 2 ^ 32 / d.toNat) +
      (2 ^ 32 * (n.toNat / 2 ^ 32 % d.toNat) + n.toNat % 2 ^ 32) / d.toNat := by
    conv_lhs => rw [hdivmod]
    exact Nat.mul_add_div hpos _ _
  -- the second DIVL does not trap: the rest of the first digit is less than the divisor
  obtain ⟨q, hq, hqval⟩ := @divl_eq ((1#64 <<< 32) *
    ((n >>> 32).setWidth 32 % d.setWidth 32).setWidth 64 + (n.setWidth 32).setWidth 64) _ hd0' (by
      rw [harg, hd0, Nat.div_lt_iff_lt_mul hpos]
      omega)
  rw [harg, hd0] at hqval
  refine ⟨q.setWidth 64 + (1#64 <<< 32) * ((n >>> 32).setWidth 32 / d.setWidth 32).setWidth 64, ?_, ?_⟩
  · rw [udiv64, if_pos hhigh]
    simp only [hq]
    rfl
  · have hle := Nat.div_le_self n.toNat d.toNat
    have hq64 := q.isLt
    have hn1d0 : ((n >>> 32).setWidth 32 / d.setWidth 32).toNat = n.toNat / 2 ^ 32 / d.toNat := by
      rw [BitVec.toNat_udiv, hn1, hd0]
    rw [BitVec.toNat_add, BitVec.toNat_mul, BitVec.toNat_setWidth, BitVec.toNat_setWidth, hn1d0, hb,
      hquot, hqval]
    omega

/-- The leading 32 bits of a divisor that is shifted as far as it can be. -/
theorem leading_bits (hhigh : d >>> 32 ≠ 0) {s : Nat} (hs : s = nlz ((d >>> 32).setWidth 32)) :
    s < 32 ∧ (((d <<< s) >>> 32).setWidth 32).toNat = d.toNat * 2 ^ s / 2 ^ 32 ∧
      2 ^ 31 ≤ d.toNat * 2 ^ s / 2 ^ 32 := by
  have hd := d.isLt
  have hd1 := toNat_high d
  have hne : (d >>> 32).setWidth 32 ≠ 0 := by
    intro hzero
    have hpos := toNat_pos hhigh
    rw [BitVec.toNat_ushiftRight, Nat.shiftRight_eq_div_pow, ← hd1, hzero] at hpos
    exact Nat.lt_irrefl 0 hpos
  obtain ⟨hlt, hfirst, hfit⟩ := nlz_spec hne
  rw [← hs] at hlt hfirst hfit
  rw [hd1] at hfirst hfit
  -- also the bits of `d` after the first 32 fit
  have hshift : d.toNat * 2 ^ s < 2 ^ 64 := by
    have hsplit : 2 ^ 32 = 2 ^ (32 - s) * 2 ^ s := by
      rw [← Nat.pow_add, Nat.sub_add_cancel (Nat.le_of_lt hlt)]
    have hsucc : (d.toNat / 2 ^ 32 + 1) * 2 ^ s ≤ 2 ^ 32 := by
      have hfit' : d.toNat / 2 ^ 32 * 2 ^ s < 2 ^ (32 - s) * 2 ^ s := by rwa [← hsplit]
      have hlt' := Nat.lt_of_mul_lt_mul_right hfit'
      exact (Nat.mul_le_mul_right _ (Nat.succ_le_of_lt hlt')).trans (Nat.le_of_eq hsplit.symm)
    calc d.toNat * 2 ^ s < (d.toNat / 2 ^ 32 + 1) * 2 ^ 32 * 2 ^ s :=
          Nat.mul_lt_mul_of_pos_right (by omega) (Nat.two_pow_pos s)
      _ = (d.toNat / 2 ^ 32 + 1) * 2 ^ s * 2 ^ 32 := by ring
      _ ≤ 2 ^ 32 * 2 ^ 32 := Nat.mul_le_mul_right _ hsucc
      _ = 2 ^ 64 := rfl
  have hv : ((d <<< s) >>> 32).toNat = d.toNat * 2 ^ s / 2 ^ 32 := by
    rw [BitVec.toNat_ushiftRight, BitVec.toNat_shiftLeft, Nat.shiftLeft_eq,
      Nat.shiftRight_eq_div_pow, Nat.mod_eq_of_lt hshift]
  refine ⟨hlt, ?_, ?_⟩
  · rw [BitVec.toNat_setWidth, hv, Nat.mod_eq_of_lt (by omega)]
  · calc 2 ^ 31 ≤ d.toNat / 2 ^ 32 * 2 ^ s := hfirst
      _ = d.toNat / 2 ^ 32 * 2 ^ s * 2 ^ 32 / 2 ^ 32 := (Nat.mul_div_cancel _ (by decide)).symm
      _ = d.toNat / 2 ^ 32 * 2 ^ 32 * 2 ^ s / 2 ^ 32 := by rw [Nat.mul_right_comm]
      _ ≤ d.toNat * 2 ^ s / 2 ^ 32 :=
          Nat.div_le_div_right (Nat.mul_le_mul_right _ (Nat.div_mul_le_self _ _))

/-- What is left after the correction of an estimate. -/
theorem corrected_eq {q : BitVec 64} (hd : d ≠ 0) (hpos : 0 < n.toNat / d.toNat)
    (hq : q.toNat = n.toNat / d.toNat ∨ q.toNat = n.toNat / d.toNat + 1) :
    (if n - (q - 1) * d < d then q - 1 else q).toNat = n.toNat / d.toNat := by
  have hdpos := toNat_pos hd
  have hn := n.isLt
  have hqlt := q.isLt
  have hpred : (q - 1).toNat = q.toNat - 1 := by
    rw [BitVec.toNat_sub]
    change (2 ^ 64 - 1 + q.toNat) % 2 ^ 64 = _
    omega
  have hle : (q.toNat - 1) * d.toNat ≤ n.toNat :=
    (Nat.mul_le_mul_right _ (by omega)).trans (Nat.div_mul_le_self n.toNat d.toNat)
  have hrest : (n - (q - 1) * d).toNat = n.toNat - (q.toNat - 1) * d.toNat := by
    rw [BitVec.toNat_sub_of_le, BitVec.toNat_mul, hpred, Nat.mod_eq_of_lt (by omega)]
    rw [BitVec.le_def, BitVec.toNat_mul, hpred, Nat.mod_eq_of_lt (by omega)]
    exact hle
  have hdivmod := Nat.div_add_mod n.toNat d.toNat
  have hmod := Nat.mod_lt n.toNat hdpos
  rcases hq with hexact | hmore
  · -- the exact quotient leaves a divisor more when it is made smaller
    rw [if_neg, hexact]
    rw [BitVec.lt_def, hrest, hexact, Nat.sub_one_mul, Nat.mul_comm]
    have hge : d.toNat ≤ d.toNat * (n.toNat / d.toNat) := Nat.le_mul_of_pos_right _ hpos
    omega
  · -- one too large, it leaves the remainder when it is made smaller
    rw [if_pos, hpred, hmore, Nat.add_sub_cancel]
    rw [BitVec.lt_def, hrest, hmore, Nat.add_sub_cancel, Nat.mul_comm]
    omega

theorem udiv64_long (hhigh : d >>> 32 ≠ 0) :
    ∃ q, udiv64 n d = some q ∧ q.toNat = n.toNat / d.toNat := by
  have hn := n.isLt
  have hd : d ≠ 0 := by
    rintro rfl
    exact hhigh rfl
  have hdpos := toNat_pos hd
  rw [udiv64, if_neg hhigh]
  split
  · next hlt =>
    -- `n < d`
    refine ⟨0, rfl, (Nat.div_eq_of_lt ?_).symm⟩
    exact BitVec.lt_def.1 hlt
  · next hge =>
    have hle : d.toNat ≤ n.toNat := by
      rw [BitVec.lt_def] at hge
      exact Nat.le_of_not_lt hge
    obtain ⟨hs, hv, hfirst⟩ := leading_bits hhigh rfl
    simp only []
    generalize nlz ((d >>> 32).setWidth 32) = s at hs hv hfirst ⊢
    have hhalf : (n >>> 1).toNat = n.toNat / 2 := by
      rw [BitVec.toNat_ushiftRight, Nat.shiftRight_eq_div_pow, Nat.pow_one]
    have hvne : ((d <<< s) >>> 32).setWidth 32 ≠ 0 := by
      intro hzero
      rw [hzero] at hv
      change 0 = _ at hv
      omega
    -- DIVL does not trap: half of `n` has less than 64 bits, and `v` has its first bit set
    obtain ⟨q, hq, hqval⟩ := @divl_eq (n >>> 1) _ hvne (by
      rw [hhalf, hv, Nat.div_lt_iff_lt_mul (by omega)]
      omega)
    rw [hhalf, hv] at hqval
    rw [hq]
    -- the estimate
    have hlow := Nat.div_mul_le_self (d.toNat * 2 ^ s) (2 ^ 32)
    have hup : d.toNat * 2 ^ s < (d.toNat * 2 ^ s / 2 ^ 32 + 1) * 2 ^ 32 :=
      Nat.lt_mul_of_div_lt (Nat.lt_succ_self _) (by decide)
    have hdivisor := estimate_divisor_le (Nat.le_of_lt hs) hlow
    have hdivisor' := lt_estimate_divisor (Nat.le_of_lt hs) hup
    have hestimate : ((q >>> (31 - s)).setWidth 64).toNat =
        n.toNat / (d.toNat * 2 ^ s / 2 ^ 32 * 2 ^ (32 - s)) := by
      rw [BitVec.toNat_setWidth, BitVec.toNat_ushiftRight, Nat.shiftRight_eq_div_pow, hqval,
        estimate_eq hs, Nat.mod_eq_of_lt]
      exact Nat.lt_of_le_of_lt (Nat.div_le_self _ _) hn
    refine ⟨_, rfl, corrected_eq hd (Nat.div_pos hle hdpos) ?_⟩
    have hle' := estimate_le hs hn hfirst hdivisor hdivisor'
    have hge' : n.toNat / d.toNat ≤ n.toNat / (d.toNat * 2 ^ s / 2 ^ 32 * 2 ^ (32 - s)) :=
      Nat.div_le_div_left hdivisor (Nat.mul_pos (by omega) (Nat.two_pow_pos _))
    rw [hestimate]
    omega

theorem udiv64_eq (hd : d ≠ 0) : ∃ q, udiv64 n d = some q ∧ q.toNat = n.toNat / d.toNat := by
  by_cases hhigh : d >>> 32 = 0
  · exact udiv64_short hd hhigh
  · exact udiv64_long hhigh

/-! ## Signed division -/

theorem toInt_eq (x : BitVec 64) :
    x.toInt = if 2 * x.toNat < 2 ^ 64 then (x.toNat : Int) else (x.toNat : Int) - 2 ^ 64 := by
  have hcond := x.toInt_eq_toNat_cond
  split at hcond
  · next hlt => rw [if_pos hlt, hcond]
  · next hge => rw [if_neg hge, hcond]; rfl

theorem toNat_neg (x : BitVec 64) : (-x).toNat = (2 ^ 64 - x.toNat) % 2 ^ 64 := BitVec.toNat_neg x

theorem toNat_abs64 (x : BitVec 64) : (abs64 x).toNat = x.toInt.natAbs := by
  have hint := toInt_eq x
  have hx := x.isLt
  rw [abs64]
  split
  · next hle =>
    split at hint
    · omega
    · omega
  · next hneg =>
    rw [toNat_neg]
    split at hint
    · omega
    · omega

/-- A quotient of absolute values, with its sign. -/
theorem tdiv_eq (a b : Int) :
    a.tdiv b = if (a < 0) = (b < 0) then ((a.natAbs / b.natAbs : Nat) : Int)
      else -((a.natAbs / b.natAbs : Nat) : Int) := by
  have habs : ∀ x : Int, x = if x < 0 then -(x.natAbs : Int) else x.natAbs := by
    intro x
    split <;> omega
  have hquot := Int.ofNat_tdiv a.natAbs b.natAbs
  conv_lhs => rw [habs a, habs b]
  by_cases ha : a < 0
  · by_cases hb : b < 0
    · rw [if_pos ha, if_pos hb, if_pos (by rw [eq_true ha, eq_true hb]), Int.neg_tdiv_neg, hquot]
    · rw [if_pos ha, if_neg hb, if_neg (by simp [ha, hb]), Int.neg_tdiv, hquot]
  · by_cases hb : b < 0
    · rw [if_neg ha, if_pos hb, if_neg (by simp [ha, hb]), Int.tdiv_neg, hquot]
    · rw [if_neg ha, if_neg hb, if_pos (by rw [eq_false ha, eq_false hb]), hquot]

theorem sdiv64_eq (hd : d ≠ 0) (hfits : ¬ (n = BitVec.intMin 64 ∧ d = -1)) :
    ∃ q, sdiv64 n d = some q ∧ q.toInt = n.toInt.tdiv d.toInt := by
  have hn := n.isLt
  have hnint := toInt_eq n
  have hdint := toInt_eq d
  have hdpos := toNat_pos hd
  have hdabs : abs64 d ≠ 0 := by
    intro hzero
    have habs := toNat_abs64 d
    rw [hzero] at habs
    change 0 = _ at habs
    split at hdint
    · omega
    · have hlt := d.isLt
      omega
  obtain ⟨q, hq, hqval⟩ := @udiv64_eq (abs64 n) _ hdabs
  rw [toNat_abs64, toNat_abs64] at hqval
  have hnabs : n.toInt.natAbs ≤ 2 ^ 63 := by
    split at hnint <;> omega
  have hqle : q.toNat ≤ n.toInt.natAbs := hqval ▸ Nat.div_le_self _ _
  rw [sdiv64, hq, tdiv_eq]
  refine ⟨_, rfl, ?_⟩
  rw [← hqval]
  split
  · next hsign =>
    have hlt : q.toNat < 2 ^ 63 := by
      by_contra hge
      -- only the least integer has this absolute value, and only 1 and -1 leave it as it is
      have hmin : n.toNat = 2 ^ 63 := by split at hnint <;> omega
      have hone : d.toInt.natAbs = 1 := by
        by_contra hmore
        have hlt : n.toInt.natAbs / d.toInt.natAbs < n.toInt.natAbs :=
          Nat.div_lt_self (by omega) (by split at hdint <;> omega)
        omega
      have hnneg : n.toInt < 0 := by
        rw [hnint, hmin]
        decide
      have hdneg : d.toInt < 0 := by rwa [← eq_iff_iff.1 hsign]
      refine hfits ⟨BitVec.eq_of_toNat_eq hmin, BitVec.eq_of_toInt_eq ?_⟩
      have hminus : d.toInt = -1 := by omega
      rw [hminus]
      rfl
    rw [toInt_eq, if_pos (by omega)]
  · -- the signs differ, and the negation cannot overflow
    have hle : (-q).toNat = (2 ^ 64 - q.toNat) % 2 ^ 64 := toNat_neg q
    rw [toInt_eq]
    split <;> omega

/-- Division is exact but for the sign of the greatest quotient, and DIVL does not trap. -/
theorem udiv64_sdiv64_exact (n d : BitVec 64) (hd : d ≠ 0) :
    (∃ q, udiv64 n d = some q ∧ q.toNat = n.toNat / d.toNat) ∧
      (¬ (n = BitVec.intMin 64 ∧ d = -1) →
        ∃ q, divdi3 n d = some q ∧ q.toInt = n.toInt.tdiv d.toInt) :=
  ⟨udiv64_eq hd, sdiv64_eq hd⟩

/-- The divisor has more than 32 bits. -/
theorem udiv64_sdiv64_exact_long :
    (∃ q, udiv64 0xFFFFFFFFFFFFFFFF 0x100000001 = some q ∧ q.toNat = 0xFFFFFFFF) ∧
      ∃ q, divdi3 (-7) 2 = some q ∧ q.toInt = -3 :=
  ⟨(udiv64_sdiv64_exact _ _ (by decide)).1,
    (udiv64_sdiv64_exact _ _ (by decide)).2 (by decide)⟩

/-! ## Remainders -/

/-- `r` is the remainder of the division of `n` by `d` that truncates toward zero. -/
structure Remainder (n d r : Int) : Prop where
  eq : n = n.tdiv d * d + r
  lt : r.natAbs < d.natAbs
  sign : r = 0 ∨ (r < 0 ↔ n < 0)

theorem remainder_iff {n d r : Int} (hd : d ≠ 0) : Remainder n d r ↔ r = n.tmod d := by
  have hdivmod := Int.tdiv_mul_add_tmod n d
  constructor
  · intro h
    have heq := h.eq
    omega
  · rintro rfl
    refine ⟨hdivmod.symm, ?_, ?_⟩
    · rw [Int.natAbs_tmod]
      exact Nat.mod_lt _ (Int.natAbs_pos.2 hd)
    · rcases lt_or_ge n 0 with hneg | hpos
      · have hle := Int.tmod_nonneg d (Int.neg_nonneg_of_nonpos (Int.le_of_lt hneg))
        rw [Int.neg_tmod] at hle
        omega
      · have hle := Int.tmod_nonneg d hpos
        omega

/-- The remainder that the multiplication leaves, before it is cut to 32 bits. -/
theorem toNat_rest {q : BitVec 64} (hq : q.toNat = n.toNat / d.toNat) :
    (n - d * q).toNat = n.toNat % d.toNat := by
  have hn := n.isLt
  have hle : d.toNat * (n.toNat / d.toNat) ≤ n.toNat := Nat.mul_div_le n.toNat d.toNat
  rw [BitVec.toNat_sub_of_le, BitVec.toNat_mul, hq, Nat.mod_eq_of_lt (by omega)]
  · exact (Nat.mod_eq_sub _ _).symm
  · rw [BitVec.le_def, BitVec.toNat_mul, hq, Nat.mod_eq_of_lt (by omega)]
    exact hle

theorem toInt_rest {q : BitVec 64} (hd : d ≠ 0) (hq : q.toInt = n.toInt.tdiv d.toInt) :
    (n - d * q).toInt = n.toInt.tmod d.toInt := by
  have hrest : n.toInt - d.toInt * q.toInt = n.toInt.tmod d.toInt := by
    rw [hq, Int.tmod_def]
  -- less than the divisor, so nothing wraps around
  have habs : (n.toInt.tmod d.toInt).natAbs < 2 ^ 63 := by
    have hdlt := d.isLt
    have hdint := toInt_eq d
    have hdpos := toNat_pos hd
    have hlt : n.toInt.natAbs % d.toInt.natAbs < d.toInt.natAbs :=
      Nat.mod_lt _ (by split at hdint <;> omega)
    rw [Int.natAbs_tmod]
    split at hdint <;> omega
  rw [BitVec.toInt_sub, BitVec.toInt_mul, Int.sub_bmod_bmod, hrest]
  apply Int.bmod_eq_of_le_mul_two
  · norm_num
    omega
  · norm_num
    omega

/-- The `int32_t` that is left of an `int64_t`. -/
theorem toInt_low (x : BitVec 64) : (x.setWidth 32).toInt = int32 x.toInt := by
  have hx := x.isLt
  rw [BitVec.toInt_eq_toNat_cond, BitVec.toNat_setWidth, toInt_eq, int32]
  split <;> split <;> omega

theorem umoddi3_eq (hd : d ≠ 0) :
    ∃ r, umoddi3 n d = some r ∧ r.toNat = n.toNat % d.toNat % 2 ^ 32 := by
  obtain ⟨q, hq, hqval⟩ := udiv64_eq (n := n) hd
  refine ⟨((n - d * q).setWidth 32).setWidth 64, ?_, ?_⟩
  · rw [umoddi3, umod64, hq]
    rfl
  · rw [BitVec.toNat_setWidth, BitVec.toNat_setWidth, toNat_rest hqval]
    omega

theorem moddi3_eq (hd : d ≠ 0) (hfits : ¬ (n = BitVec.intMin 64 ∧ d = -1)) :
    ∃ r, moddi3 n d = some r ∧ r.toInt = int32 (n.toInt.tmod d.toInt) := by
  obtain ⟨q, hq, hqval⟩ := sdiv64_eq hd hfits
  refine ⟨((n - d * q).setWidth 32).signExtend 64, ?_, ?_⟩
  · rw [moddi3, smod64, hq]
    rfl
  · rw [BitVec.toInt_signExtend_of_le (by decide), toInt_low, toInt_rest hd hqval]

/-- The routines return the remainder just where it fits in the 32 bits that `umod64` and `smod64`
return. -/
theorem remainder_iff_fits (n d : BitVec 64) (hd : d ≠ 0) :
    ((∃ r, umoddi3 n d = some r ∧ Remainder n.toNat d.toNat r.toNat) ↔
        n.toNat % d.toNat < 2 ^ 32) ∧
      (¬ (n = BitVec.intMin 64 ∧ d = -1) →
        ((∃ r, moddi3 n d = some r ∧ Remainder n.toInt d.toInt r.toInt) ↔
          -2 ^ 31 ≤ n.toInt.tmod d.toInt ∧ n.toInt.tmod d.toInt < 2 ^ 31)) := by
  have hdnat : (d.toNat : Int) ≠ 0 := by
    have hpos := toNat_pos hd
    omega
  have hdint : d.toInt ≠ 0 := by
    have hcond := toInt_eq d
    have hlt := d.isLt
    split at hcond <;> omega
  constructor
  · obtain ⟨r, hr, hval⟩ := umoddi3_eq (n := n) hd
    constructor
    · rintro ⟨r', hr', hrem⟩
      obtain rfl := Option.some.inj (hr.symm.trans hr')
      rw [remainder_iff hdnat, ← Int.ofNat_tmod] at hrem
      omega
    · intro hfits
      refine ⟨r, hr, (remainder_iff hdnat).2 ?_⟩
      rw [hval, Nat.mod_eq_of_lt hfits, Int.ofNat_tmod]
  · intro hmin
    obtain ⟨r, hr, hval⟩ := moddi3_eq hd hmin
    constructor
    · rintro ⟨r', hr', hrem⟩
      obtain rfl := Option.some.inj (hr.symm.trans hr')
      rw [remainder_iff hdint, hval, int32] at hrem
      omega
    · rintro ⟨hlo, hhi⟩
      exact ⟨r, hr, (remainder_iff hdint).2 (hval.trans (int32_eq hlo hhi))⟩

theorem remainder_iff_fits_long :
    ((∃ r, umoddi3 7 0x100000000 = some r ∧ Remainder 7 0x100000000 r.toNat) ↔
        (7 : Nat) % 0x100000000 < 2 ^ 32) ∧
      ((∃ r, moddi3 (-7) 2 = some r ∧ Remainder (-7) 2 r.toInt) ↔
        -2 ^ 31 ≤ (-7 : Int).tmod 2 ∧ (-7 : Int).tmod 2 < 2 ^ 31) :=
  ⟨(remainder_iff_fits _ _ (by decide)).1, (remainder_iff_fits _ _ (by decide)).2 (by decide)⟩

/-- `2 ^ 32` divided by `2 ^ 33` leaves `2 ^ 32`. -/
theorem long_remainder_is_cut :
    umoddi3 0x100000000 0x200000000 = some 0 ∧ moddi3 0x100000000 0x200000000 = some 0 ∧
      ¬ Remainder 0x100000000 0x200000000 0 := by
  refine ⟨by decide, by decide, fun h => ?_⟩
  have heq := h.eq
  omega

end Berk162
