import Berk162.Lib.Machine

/-!
# Timer — the timer interrupt and the calibrated delays of `devices/timer.c`

`timer_calibrate` finds by trial how many rounds of a loop fit in a timer tick, first the highest
bit and then the nine below it, and `real_time_delay` waits for a fraction of a second by that
number.  The processor comes in as `fit`: the number of rounds that fit in the tick of each trial,
in the order of the trials, which need not be the same every time.
-/

namespace Berk162

/-- Number of timer interrupts per second. -/
def TIMER_FREQ : Int := 100

/-- The value a 64-bit two's complement register holds after computing `x`. -/
def int64 (x : Int) : Int := (x + 2 ^ 63) % 2 ^ 64 - 2 ^ 63

theorem int64_eq {x : Int} (hlo : -2 ^ 63 ≤ x) (hhi : x < 2 ^ 63) : int64 x = x := by
  unfold int64
  omega

theorem int64_natCast {n : Nat} (h : n < 2 ^ 63) : int64 (n : Int) = n :=
  int64_eq (by omega) (by omega)

/-! ## The interval timer of `devices/pit.c` -/

/-- PIT cycles per second. -/
def PIT_HZ : Int := 1193180

/-- The counter for `frequency`; the conversion to `uint16_t` keeps the low bits. -/
def pit_count (frequency : Int) : UInt16 :=
  if frequency < 19 then 0
  else if frequency > PIT_HZ then 2
  else UInt16.ofNat ((PIT_HZ + frequency.tdiv 2).tdiv frequency).toNat

/-- The bytes that are written, with their ports. -/
def pit_configure_channel (channel mode : Nat) (frequency : Int) : Option (List (Nat × UInt8)) := do
  ASSERT (channel = 0 ∨ channel = 2)
  ASSERT (mode = 2 ∨ mode = 3)
  let count := pit_count frequency
  return [(0x43, UInt8.ofNat ((channel <<< 6) ||| 0x30 ||| (mode <<< 1))),
    (0x40 + channel, count.toUInt8), (0x40 + channel, (count >>> 8).toUInt8)]

/-- `timer_init`, as far as the interval timer goes. -/
def timer_init : Option (List (Nat × UInt8)) := pit_configure_channel 0 2 TIMER_FREQ

/-- Between the bounds the counter fits its 16 bits and is the whole number nearest to the quotient
of the frequencies. -/
theorem pit_count_nearest {frequency : Int} (hlow : 19 ≤ frequency) (hhigh : frequency ≤ PIT_HZ) :
    |(pit_count frequency).toNat * frequency - PIT_HZ| ≤ frequency / 2 := by
  have hhalf : frequency.tdiv 2 = frequency / 2 := Int.tdiv_eq_ediv_of_nonneg (by omega)
  have hdiv : (PIT_HZ + frequency / 2).tdiv frequency = (PIT_HZ + frequency / 2) / frequency :=
    Int.tdiv_eq_ediv_of_nonneg (by rw [PIT_HZ]; omega)
  have hle := Int.ediv_mul_le (PIT_HZ + frequency / 2) (by omega : frequency ≠ 0)
  have hlt := Int.lt_ediv_add_one_mul_self (PIT_HZ + frequency / 2) (by omega : 0 < frequency)
  have hnonneg : 0 ≤ (PIT_HZ + frequency / 2) / frequency :=
    Int.ediv_nonneg (by rw [PIT_HZ]; omega) (by omega)
  have hfits : (PIT_HZ + frequency / 2) / frequency < 65536 := by
    refine Int.ediv_lt_of_lt_mul (by omega) ?_
    rw [PIT_HZ]
    omega
  have hcount : ((pit_count frequency).toNat : Int) = (PIT_HZ + frequency / 2) / frequency := by
    rw [pit_count, if_neg (by omega), if_neg (by omega), hhalf, hdiv, UInt16.toNat_ofNat']
    omega
  rw [hcount, abs_le]
  rw [add_one_mul] at hlt
  constructor <;> omega

example : timer_init = some [(0x43, 0x34), (0x40, 0x9c), (0x40, 0x2e)] := by decide

/-! ## Calibration -/

inductive CalibrateError
  /-- `ASSERT (loops_per_tick != 0)`. -/
  | assertion
  /-- The loop of the model has no rounds left. -/
  | rounds
  deriving DecidableEq, Repr

/-- `busy_wait`: how often its loop goes round. -/
def busy_wait (loops : Int) : Nat := loops.toNat

/-- The trial `n`: after a tick, `loops` rounds are run; too many if the next tick comes before
their end. -/
def too_many_loops (fit : Nat → Nat) (n loops : Nat) : Bool :=
  decide (fit n < busy_wait loops)

/-- The `while` loop of `timer_calibrate`, with the number of the next trial. -/
def find_power (fit : Nat → Nat) : Nat → Nat → Nat → Except CalibrateError (Nat × Nat)
  | 0, _, _ => .error .rounds
  | rounds + 1, n, loops_per_tick =>
      let doubled := (loops_per_tick <<< 1) % WORD
      if too_many_loops fit n doubled then .ok (n + 1, loops_per_tick)
      else if doubled = 0 then .error .assertion
      else find_power fit rounds (n + 1) doubled

/-- The `for` loop of `timer_calibrate`, up to the bit `stop`. -/
def refine_bits (fit : Nat → Nat) (stop : Nat) : Nat → Nat → Nat → Nat → Except CalibrateError Nat
  | 0, _, _, _ => .error .rounds
  | rounds + 1, n, test_bit, loops_per_tick =>
      if test_bit = stop then .ok loops_per_tick
      else refine_bits fit stop rounds (n + 1) (test_bit >>> 1)
        (if too_many_loops fit n (loops_per_tick ||| test_bit) then loops_per_tick
        else loops_per_tick ||| test_bit)

/-- No loop over the bits of an `unsigned` goes round more than 32 times. -/
def timer_calibrate (fit : Nat → Nat) : Except CalibrateError Nat := do
  let (n, high_bit) ← find_power fit 32 0 (1 <<< 10)
  refine_bits fit (high_bit >>> 10) 32 n (high_bit >>> 1) high_bit

variable {fit : Nat → Nat} {lo hi n : Nat}

theorem too_many_loops_iff {loops : Nat} : too_many_loops fit n loops = true ↔ fit n < loops := by
  rw [too_many_loops, decide_eq_true_iff, busy_wait, Int.toNat_natCast]

/-- The power of two that is found has been tried, or is the first, and its double is too much. -/
theorem find_power_spec (hlo : ∀ i, lo ≤ fit i) (k rounds : Nat) (hk : k ≤ 31)
    (hrounds : 32 ≤ k + rounds) (n : Nat) :
    (∃ m j, find_power fit rounds n (2 ^ k) = .ok (m, 2 ^ j) ∧ k ≤ j ∧ j ≤ 30 ∧
      lo < 2 ^ (j + 1) ∧ (j = k ∨ ∃ i, 2 ^ j ≤ fit i)) ∨
    (find_power fit rounds n (2 ^ k) = .error .assertion ∧ (k = 31 ∨ ∃ i, 2 ^ 31 ≤ fit i)) := by
  induction rounds generalizing k n with
  | zero =>
      omega
  | succ rounds ih =>
      rw [find_power]
      have hdouble : 2 ^ k <<< 1 = 2 ^ (k + 1) := by rw [Nat.shiftLeft_eq, Nat.pow_add]
      rcases Nat.lt_or_eq_of_le hk with hlt | rfl
      · -- the double is a power of two of 32 bits
        have hmod : (2 ^ k <<< 1) % WORD = 2 ^ (k + 1) := by
          rw [hdouble, WORD, Nat.mod_eq_of_lt (Nat.pow_lt_pow_right (by omega) (by omega))]
        simp only [hmod]
        by_cases hmany : too_many_loops fit n (2 ^ (k + 1)) = true
        · rw [if_pos hmany]
          have hover := too_many_loops_iff.1 hmany
          exact Or.inl ⟨n + 1, k, rfl, le_rfl, by omega, (hlo n).trans_lt hover, Or.inl rfl⟩
        · rw [if_neg hmany, if_neg (Nat.two_pow_pos _).ne']
          have hfits : 2 ^ (k + 1) ≤ fit n :=
            Nat.le_of_not_lt fun h => hmany (too_many_loops_iff.2 h)
          rcases ih (k + 1) (by omega) (by omega) (n + 1) with
            ⟨m, j, hfind, hkj, hj, hover, hpow⟩ | ⟨hfind, hbig⟩
          · refine Or.inl ⟨m, j, hfind, by omega, hj, hover, Or.inr ?_⟩
            rcases hpow with rfl | hpow
            · exact ⟨n, hfits⟩
            · exact hpow
          · refine Or.inr ⟨hfind, Or.inr ?_⟩
            rcases hbig with heq | hbig
            · exact ⟨n, heq ▸ hfits⟩
            · exact hbig
      · -- the double is zero, and nothing is less than zero
        have hmod : (2 ^ 31 <<< 1) % WORD = 0 := by decide
        have hmany : too_many_loops fit n 0 = false := by
          rw [← Bool.not_eq_true, too_many_loops_iff]
          omega
        simp only [hmod, hmany]
        exact Or.inr ⟨rfl, Or.inl trivial⟩

/-- What the bits from `test_bit` down to the one above `stop` add. -/
theorem refine_bits_spec (hlo : ∀ i, lo ≤ fit i) (s b rounds : Nat) (hs : s ≤ b)
    (hrounds : b < s + rounds) (n loops : Nat) (hdvd : 2 ^ (b + 1) ∣ loops)
    (hover : lo < loops + 2 ^ (b + 1)) :
    ∃ r, refine_bits fit (2 ^ s) rounds n (2 ^ b) loops = .ok r ∧ loops ≤ r ∧
      (r = loops ∨ ∃ i, r ≤ fit i) ∧ r + 2 ^ (s + 1) ≤ loops + 2 ^ (b + 1) ∧
      lo < r + 2 ^ (s + 1) := by
  induction rounds generalizing b n loops with
  | zero =>
      omega
  | succ rounds ih =>
      rw [refine_bits]
      rcases Nat.lt_or_eq_of_le hs with hlt | rfl
      · have hne : (2 : Nat) ^ b ≠ 2 ^ s := (Nat.pow_lt_pow_right (by omega) hlt).ne'
        obtain ⟨c, rfl⟩ : ∃ c, b = c + 1 := ⟨b - 1, by omega⟩
        have hshift : 2 ^ (c + 1) >>> 1 = 2 ^ c := by
          rw [Nat.shiftRight_eq_div_pow, Nat.pow_succ, Nat.pow_one, Nat.mul_div_cancel _ (by omega)]
        have hor : loops ||| 2 ^ (c + 1) = loops + 2 ^ (c + 1) := by
          rcases hdvd with ⟨a, rfl⟩
          exact (Nat.two_pow_add_eq_or_of_lt (Nat.pow_lt_pow_right (by omega) (by omega)) a).symm
        have hpow : (2 : Nat) ^ (c + 1 + 1) = 2 ^ (c + 1) + 2 ^ (c + 1) := by
          rw [Nat.pow_succ, Nat.mul_two]
        have hdvd' : 2 ^ (c + 1) ∣ loops := (Nat.pow_dvd_pow 2 (Nat.le_succ _)).trans hdvd
        rw [if_neg hne, hshift, hor]
        by_cases hmany : too_many_loops fit n (loops + 2 ^ (c + 1)) = true
        · rw [if_pos hmany]
          rcases ih c (by omega) (by omega) (n + 1) loops hdvd'
            ((hlo n).trans_lt (too_many_loops_iff.1 hmany)) with
            ⟨r, hr, hle, hbound, hupper, hlast⟩
          exact ⟨r, hr, hle, hbound, by omega, hlast⟩
        · rw [if_neg hmany]
          have hfits : loops + 2 ^ (c + 1) ≤ fit n :=
            Nat.le_of_not_lt fun h => hmany (too_many_loops_iff.2 h)
          rcases ih c (by omega) (by omega) (n + 1) (loops + 2 ^ (c + 1)) (hdvd'.add dvd_rfl)
            (by omega) with ⟨r, hr, hle, hbound, hupper, hlast⟩
          refine ⟨r, hr, by omega, Or.inr ?_, by omega, hlast⟩
          rcases hbound with rfl | hbound
          · exact ⟨n, hfits⟩
          · exact hbound
      · rw [if_pos rfl]
        exact ⟨loops, rfl, le_rfl, Or.inl rfl, le_rfl, hover⟩

/-- The calibration comes to its end however the trials vary.  The result has passed a trial, or is
the first one, and is at most one part in 512 below the least tick. -/
theorem timer_calibrate_spec (hlo : ∀ i, lo ≤ fit i) :
    (∃ r, timer_calibrate fit = .ok r ∧ 2 ^ 10 ≤ r ∧ r < 2 ^ 31 ∧
      (r = 2 ^ 10 ∨ ∃ i, r ≤ fit i) ∧ 512 * lo < 513 * r) ∨
    (timer_calibrate fit = .error .assertion ∧ ∃ i, 2 ^ 31 ≤ fit i) := by
  rcases find_power_spec hlo 10 32 (by omega) (by omega) 0 with
    ⟨m, j, hfind, hkj, hj, hover, hpow⟩ | ⟨hfind, hbig⟩
  · obtain ⟨s, rfl⟩ : ∃ s, j = s + 10 := ⟨j - 10, by omega⟩
    have hstop : 2 ^ (s + 10) >>> 10 = 2 ^ s := by
      rw [Nat.shiftRight_eq_div_pow, Nat.pow_add, Nat.mul_div_cancel _ (by omega)]
    have htest : 2 ^ (s + 10) >>> 1 = 2 ^ (s + 9) := by
      rw [Nat.shiftRight_eq_div_pow, Nat.pow_succ, Nat.pow_one, Nat.mul_div_cancel _ (by omega)]
    have hdouble : (2 : Nat) ^ (s + 10 + 1) = 2 ^ (s + 10) + 2 ^ (s + 10) := by
      rw [Nat.pow_succ, Nat.mul_two]
    rcases refine_bits_spec hlo s (s + 9) 32 (by omega) (by omega) m (2 ^ (s + 10)) dvd_rfl
      (hover.trans_eq hdouble) with ⟨r, hr, hle, hbound, hupper, hlast⟩
    have hrun : timer_calibrate fit = .ok r := by
      rw [timer_calibrate, show 1 <<< 10 = 2 ^ 10 from rfl, hfind]
      simpa [Except.bind, bind, hstop, htest] using hr
    have hlow : (2 : Nat) ^ 10 ≤ 2 ^ (s + 10) := Nat.pow_le_pow_right (by omega) (by omega)
    have hhigh : (2 : Nat) ^ (s + 10) ≤ 2 ^ 30 := Nat.pow_le_pow_right (by omega) hj
    have hunit : (2 : Nat) ^ (s + 10) = 2 ^ (s + 1) * 512 := by
      rw [show 512 = 2 ^ 9 from rfl, ← Nat.pow_add]
    refine Or.inl ⟨r, hrun, hlow.trans hle, by omega, ?_, by omega⟩
    rcases hbound with rfl | hbound
    · rcases hpow with hfirst | hpow
      · exact Or.inl (by rw [hfirst])
      · exact Or.inr hpow
    · exact Or.inr hbound
  · refine Or.inr ⟨?_, ?_⟩
    · rw [timer_calibrate, show 1 <<< 10 = 2 ^ 10 from rfl, hfind]
      rfl
    · rcases hbig with heq | hbig
      · omega
      · exact hbig

/-! ## Delays -/

/-- `denom` is one of the constants of the callers, none of them zero. -/
def real_time_delay (loops_per_tick : Nat) (num denom : Int) : Option Nat := do
  ASSERT (denom.tmod 1000 = 0)
  return busy_wait ((int64 ((int64 (loops_per_tick * num)).tdiv 1000 * TIMER_FREQ)).tdiv
    (denom.tdiv 1000))

/-- What a sleep comes to: `timer_sleep` for a number of ticks, or rounds of the loop. -/
inductive TimerWait
  | ticks (n : Int)
  | loops (n : Nat)
  deriving DecidableEq, Repr

def real_time_sleep (loops_per_tick : Nat) (num denom : Int) : Option TimerWait :=
  let ticks := (int64 (num * TIMER_FREQ)).tdiv denom
  if 0 < ticks then some (.ticks ticks)
  else (real_time_delay loops_per_tick num denom).map .loops

def timer_msleep (loops_per_tick : Nat) (ms : Int) : Option TimerWait :=
  real_time_sleep loops_per_tick ms 1000

def timer_usleep (loops_per_tick : Nat) (us : Int) : Option TimerWait :=
  real_time_sleep loops_per_tick us (1000 * 1000)

def timer_nsleep (loops_per_tick : Nat) (ns : Int) : Option TimerWait :=
  real_time_sleep loops_per_tick ns (1000 * 1000 * 1000)

def timer_mdelay (loops_per_tick : Nat) (ms : Int) : Option Nat :=
  real_time_delay loops_per_tick ms 1000

def timer_udelay (loops_per_tick : Nat) (us : Int) : Option Nat :=
  real_time_delay loops_per_tick us (1000 * 1000)

def timer_ndelay (loops_per_tick : Nat) (ns : Int) : Option Nat :=
  real_time_delay loops_per_tick ns (1000 * 1000 * 1000)

/-- `n` rounds, where between `lo` and `hi` of them fit in a tick, are not more than `num / denom`
seconds, and less than them by one part in 513, one round and the rounding of the arithmetic at
most. -/
structure DelayAccurate (lo hi num denom n : Nat) : Prop where
  not_over : n * denom ≤ hi * (100 * num)
  not_under : 512 * lo * (100 * num) ≤ 513 * ((n + 1) * denom + 98900)

/-- What a calibrated sleep comes to. -/
def TimerWait.Accurate (lo hi num denom : Nat) : TimerWait → Prop
  | .ticks n => n * denom ≤ (100 * num : Nat) ∧ (100 * num : Nat) < (n + 1) * denom
  | .loops n => 100 * num < denom ∧ DelayAccurate lo hi num denom n

variable {num denom : Nat}

theorem tdiv_natCast (a b : Nat) : (a : Int).tdiv b = (a / b : Nat) := by
  rw [Int.tdiv_eq_ediv_of_nonneg (Int.natCast_nonneg _)]
  rfl

/-- The arithmetic of `real_time_delay` in natural numbers. -/
theorem real_time_delay_eq {r d : Nat} (hsmall : r * num < 2 ^ 63) :
    real_time_delay r num (1000 * d : Nat) = some (r * num / 1000 * 100 / d) := by
  have hround : r * num / 1000 * 100 < 2 ^ 63 := by omega
  have hcast : ((r : Int) * num) = (r * num : Nat) := (Int.natCast_mul _ _).symm
  have hscaled : ((r * num / 1000 : Nat) : Int) * TIMER_FREQ = (r * num / 1000 * 100 : Nat) :=
    (Int.natCast_mul _ 100).symm
  have hdenom : ((1000 * d : Nat) : Int).tmod 1000 = 0 := by
    rw [Int.tmod_eq_emod_of_nonneg (Int.natCast_nonneg _)]
    omega
  have hdiv : ((1000 * d : Nat) : Int).tdiv 1000 = d := by
    rw [Int.tdiv_eq_ediv_of_nonneg (Int.natCast_nonneg _)]
    omega
  have htick : ((r * num : Nat) : Int).tdiv 1000 = (r * num / 1000 : Nat) := tdiv_natCast _ 1000
  rw [real_time_delay, hcast, int64_natCast hsmall, htick, hscaled, int64_natCast hround, hdiv,
    tdiv_natCast, ASSERT_pos hdenom]
  rfl

theorem real_time_sleep_eq {r d : Nat} (hsmall : r * num < 2 ^ 63) (hticks : 100 * num < 2 ^ 63) :
    real_time_sleep r num (1000 * d : Nat) =
      if 0 < 100 * num / (1000 * d) then some (.ticks (100 * num / (1000 * d) : Nat))
      else some (.loops (r * num / 1000 * 100 / d)) := by
  have hscaled : (num : Int) * TIMER_FREQ = (100 * num : Nat) := by
    rw [Nat.mul_comm]
    exact (Int.natCast_mul _ 100).symm
  rw [real_time_sleep, hscaled, int64_natCast hticks, tdiv_natCast, real_time_delay_eq hsmall]
  simp only [Int.natCast_pos, Option.map_some]

/-- `a / d` rounds down by less than one. -/
theorem delay_rounds {r d n : Nat} (hd : 0 < d) (hn : n = r * num / 1000 * 100 / d) :
    n * (1000 * d) ≤ r * (100 * num) ∧ r * (100 * num) ≤ (n + 1) * (1000 * d) + 98900 := by
  have hlow : n * d ≤ r * num / 1000 * 100 := hn ▸ Nat.div_mul_le_self _ _
  have hhigh : r * num / 1000 * 100 < (n + 1) * d := by
    rw [hn, Nat.mul_comm _ d]
    exact Nat.lt_mul_div_succ _ hd
  have hassoc : n * (1000 * d) = n * d * 1000 ∧ (n + 1) * (1000 * d) = (n + 1) * d * 1000 ∧
      r * (100 * num) = r * num * 100 := by
    refine ⟨?_, ?_, ?_⟩ <;> ring
  rw [hassoc.1, hassoc.2.1, hassoc.2.2]
  generalize r * num = p at hlow hhigh
  generalize (n + 1) * d = q at hhigh
  omega

theorem delay_accurate {r n : Nat} (hover : 512 * lo < 513 * r) (hr : r ≤ hi)
    (hlow : n * denom ≤ r * (100 * num)) (hhigh : r * (100 * num) ≤ (n + 1) * denom + 98900) :
    DelayAccurate lo hi num denom n where
  not_over := hlow.trans (Nat.mul_le_mul_right _ hr)
  not_under := by
    calc 512 * lo * (100 * num) ≤ 513 * r * (100 * num) := Nat.mul_le_mul_right _ hover.le
      _ = 513 * (r * (100 * num)) := Nat.mul_assoc _ _ _
      _ ≤ 513 * ((n + 1) * denom + 98900) := Nat.mul_le_mul_left _ hhigh

/-- After the calibration every delay is accurate, and every sleep is a delay of less than a tick or
the number of whole ticks. -/
theorem calibrated_delays (hlo : ∀ i, lo ≤ fit i) (hhi : ∀ i, fit i ≤ hi) (hmin : 2 ^ 10 ≤ hi)
    (hmax : hi < 2 ^ 31) : ∃ r, timer_calibrate fit = .ok r ∧ ∀ num : Nat, hi * num < 2 ^ 63 →
      ∀ d > 0, (∃ n, real_time_delay r num (1000 * d : Nat) = some n ∧
          DelayAccurate lo hi num (1000 * d) n) ∧
        ∃ w, real_time_sleep r num (1000 * d : Nat) = some w ∧
          w.Accurate lo hi num (1000 * d) := by
  rcases timer_calibrate_spec hlo with ⟨r, hr, _, _, hbound, hover⟩ | ⟨_, i, hbig⟩
  · have hle : r ≤ hi := by
      rcases hbound with rfl | ⟨i, hfit⟩
      · exact hmin
      · exact hfit.trans (hhi i)
    refine ⟨r, hr, fun num hsmall d hd => ?_⟩
    have hprod : r * num < 2 ^ 63 := (Nat.mul_le_mul_right _ hle).trans_lt hsmall
    rcases delay_rounds hd rfl with ⟨hlow, hhigh⟩
    have haccurate : DelayAccurate lo hi num (1000 * d) _ := delay_accurate hover hle hlow hhigh
    refine ⟨⟨_, real_time_delay_eq hprod, haccurate⟩, ?_⟩
    have hticks : 100 * num < 2 ^ 63 :=
      (Nat.mul_le_mul_right num (by omega : 100 ≤ hi)).trans_lt hsmall
    rw [real_time_sleep_eq hprod hticks]
    by_cases hwhole : 0 < 100 * num / (1000 * d)
    · refine ⟨_, if_pos hwhole, ?_, ?_⟩
      · exact_mod_cast Nat.div_mul_le_self _ _
      · have hlt := Nat.lt_mul_div_succ (100 * num) (Nat.mul_pos (by omega : 0 < 1000) hd)
        rw [Nat.mul_comm (1000 * d)] at hlt
        exact_mod_cast hlt
    · refine ⟨_, if_neg hwhole, ?_, haccurate⟩
      exact (Nat.div_eq_zero_iff_lt (Nat.mul_pos (by omega) hd)).1 (Nat.eq_zero_of_not_pos hwhole)
  · exact absurd ((hbig.trans (hhi i)).trans_lt hmax) (lt_irrefl _)

/-- A processor on which between 5000 and 5006 rounds fit in a tick: a sleep of 15 ms is one tick,
and a delay of 3 ms is a delay of about 0.3 ticks. -/
theorem calibrated_delays_jitter : ∃ r, timer_calibrate (fun i => 5000 + i % 7) = .ok r ∧
    (∃ n, timer_mdelay r 3 = some n ∧ DelayAccurate 5000 5006 3 1000 n) ∧
    ∃ w, timer_msleep r 15 = some w ∧ w.Accurate 5000 5006 15 1000 := by
  rcases @calibrated_delays (fun i => 5000 + i % 7) 5000 5006
    (fun i => by omega) (fun i => by omega) (by decide) (by decide) with ⟨r, hr, hdelay⟩
  exact ⟨r, hr, (hdelay 3 (by decide) 1 (by decide)).1, (hdelay 15 (by decide) 1 (by decide)).2⟩

end Berk162
