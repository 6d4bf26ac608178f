import Berk162.Lib.Machine
import Mathlib.Data.List.GetD

/-!
# Rtc — `devices/rtc.c`

The real time clock holds the time in registers of two decimal digits.  `rtc_get_time` reads them
until the seconds stay as they are and counts seconds from the beginning of 1970.
-/

namespace Berk162

/-! ## The clock -/

def RTC_REG_SEC : Nat := 0

def RTC_REG_MIN : Nat := 2

def RTC_REG_HOUR : Nat := 4

def RTC_REG_MDAY : Nat := 7

def RTC_REG_MON : Nat := 8

def RTC_REG_YEAR : Nat := 9

/-- What each register holds when a byte is read for the `n`th time. -/
abbrev Cmos := Nat → Nat → UInt8

/-- `cmos_read` -/
def cmos_read (cmos : Cmos) (index : Nat) : StateM Nat UInt8 := fun n => (cmos n index, n + 1)

/-- `bcd_to_bin` -/
def bcd_to_bin (x : UInt8) : Int := (x &&& 0x0f).toNat + (x >>> 4).toNat * 10

/-- The time components. -/
structure TimeComponents where
  sec : Int
  min : Int
  hour : Int
  mday : Int
  mon : Int
  year : Int

/-- The loop of `rtc_get_time` that reads the clock. -/
def read_clock (cmos : Cmos) : Nat → StateM Nat (Option TimeComponents)
  | 0 => return none
  | passes + 1 => do
      let sec := bcd_to_bin (← cmos_read cmos RTC_REG_SEC)
      let min := bcd_to_bin (← cmos_read cmos RTC_REG_MIN)
      let hour := bcd_to_bin (← cmos_read cmos RTC_REG_HOUR)
      let mday := bcd_to_bin (← cmos_read cmos RTC_REG_MDAY)
      let mon := bcd_to_bin (← cmos_read cmos RTC_REG_MON)
      let year := bcd_to_bin (← cmos_read cmos RTC_REG_YEAR)
      if sec ≠ bcd_to_bin (← cmos_read cmos RTC_REG_SEC) then read_clock cmos passes
      else return some ⟨sec, min, hour, mday, mon, year⟩

def days_per_month : List Int := [31, 28, 31, 30, 31, 30, 31, 31, 30, 31, 30, 31]

/-- Addition to a `time_t`, which is an `unsigned long`. -/
def time_add (time : Nat) (x : Int) : Nat := size_add time (to_size x)

/-- The loop over the months, from `i` on. -/
def add_months (mon : Int) : Nat → Nat → Nat → Nat
  | 0, _, time => time
  | passes + 1, i, time =>
      if (i : Int) ≤ mon then
        add_months mon passes (i + 1) (time_add time (days_per_month.getD (i - 1) 0 * 24 * 60 * 60))
      else time

/-- The rest of `rtc_get_time`. -/
def to_time (c : TimeComponents) : Nat :=
  let year := if c.year < 70 then c.year + 100 else c.year
  let year := year - 70
  let time := to_size (int32 ((year * 365 + (year - 1).tdiv 4) * 24 * 60 * 60))
  let time := add_months c.mon c.mon.toNat 1 time
  let time := if c.mon > 2 ∧ year.tmod 4 = 0 then time_add time (24 * 60 * 60) else time
  let time := time_add time ((c.mday - 1) * 24 * 60 * 60)
  let time := time_add time (c.hour * 60 * 60)
  let time := time_add time (c.min * 60)
  time_add time c.sec

/-- `rtc_get_time` -/
def rtc_get_time (cmos : Cmos) (passes n : Nat) : Option Nat :=
  (read_clock cmos passes n).1.map to_time

/-! ## The calendar -/

def LeapYear (year : Nat) : Prop := year % 4 = 0 ∧ (year % 100 ≠ 0 ∨ year % 400 = 0)

instance (year : Nat) : Decidable (LeapYear year) := inferInstanceAs (Decidable (_ ∧ _))

/-- The number of days of a month, the first of which is number 1. -/
def month_length (year month : Nat) : Nat :=
  if month = 2 then if LeapYear year then 29 else 28
  else if month = 4 ∨ month = 6 ∨ month = 9 ∨ month = 11 then 30 else 31

/-- A date and a time of day. -/
structure Instant where
  year : Nat
  month : Nat
  day : Nat
  hour : Nat
  minute : Nat
  second : Nat
  month_pos : 1 ≤ month
  month_le : month ≤ 12
  day_pos : 1 ≤ day
  day_le : day ≤ month_length year month
  hour_lt : hour < 24
  minute_lt : minute < 60
  second_lt : second < 60

/-- The days of the `n` years from 1970 on. -/
def days_of_years : Nat → Nat
  | 0 => 0
  | n + 1 => days_of_years n + if LeapYear (1970 + n) then 366 else 365

/-- The days of the first `n` months of a year. -/
def days_of_months (year : Nat) : Nat → Nat
  | 0 => 0
  | n + 1 => days_of_months year n + month_length year (n + 1)

namespace Instant

/-- The days from the beginning of 1970 to the day. -/
def days (t : Instant) : Nat :=
  days_of_years (t.year - 1970) + days_of_months t.year (t.month - 1) + (t.day - 1)

/-- The seconds from the beginning of 1970 to the instant. -/
def seconds (t : Instant) : Nat := ((t.days * 24 + t.hour) * 60 + t.minute) * 60 + t.second

end Instant

/-- A number below 100 in a register. -/
def bcd (k : Nat) : UInt8 := UInt8.ofNat (k / 10 * 16 + k % 10)

/-- The clock holds the instant `t` and does not change. -/
structure ClockShows (cmos : Cmos) (t : Instant) : Prop where
  sec : ∀ n, cmos n RTC_REG_SEC = bcd t.second
  min : ∀ n, cmos n RTC_REG_MIN = bcd t.minute
  hour : ∀ n, cmos n RTC_REG_HOUR = bcd t.hour
  mday : ∀ n, cmos n RTC_REG_MDAY = bcd t.day
  mon : ∀ n, cmos n RTC_REG_MON = bcd t.month
  year : ∀ n, cmos n RTC_REG_YEAR = bcd (t.year % 100)

/-! ## Reading the clock -/

variable {cmos : Cmos} {t : Instant}

theorem bcd_to_bin_bcd {k : Nat} (h : k < 100) : bcd_to_bin (bcd k) = k := by
  have hall : ∀ k : Fin 100, bcd_to_bin (bcd k) = (k : Nat) := by decide
  exact hall ⟨k, h⟩

theorem month_length_le (year month : Nat) : month_length year month ≤ 31 := by
  unfold month_length
  split_ifs <;> decide

theorem read_clock_eq (h : ClockShows cmos t) (passes n : Nat) :
    (read_clock cmos (passes + 1) n).1 =
      some ⟨t.second, t.minute, t.hour, t.day, t.month, (t.year % 100 : Nat)⟩ := by
  have hmonth := t.month_le
  have hday := t.day_le.trans (month_length_le t.year t.month)
  have hhour := t.hour_lt
  have hminute := t.minute_lt
  have hsecond := t.second_lt
  -- the seconds are read first and once more at the end
  have hread : read_clock cmos (passes + 1) n =
      if bcd_to_bin (cmos n RTC_REG_SEC) ≠ bcd_to_bin (cmos (n + 6) RTC_REG_SEC) then
        read_clock cmos passes (n + 7)
      else (some ⟨bcd_to_bin (cmos n RTC_REG_SEC), bcd_to_bin (cmos (n + 1) RTC_REG_MIN),
        bcd_to_bin (cmos (n + 2) RTC_REG_HOUR), bcd_to_bin (cmos (n + 3) RTC_REG_MDAY),
        bcd_to_bin (cmos (n + 4) RTC_REG_MON), bcd_to_bin (cmos (n + 5) RTC_REG_YEAR)⟩, n + 7) := by
    rw [read_clock]
    change (ite _ _ _ : StateM Nat _) _ = _
    split <;> rfl
  rw [hread, h.sec, h.sec, h.min, h.hour, h.mday, h.mon, h.year, if_neg (not_not.2 rfl),
    bcd_to_bin_bcd (by omega), bcd_to_bin_bcd (by omega), bcd_to_bin_bcd (by omega),
    bcd_to_bin_bcd (by omega), bcd_to_bin_bcd (by omega), bcd_to_bin_bcd (by omega)]

/-! ## Seconds -/

theorem time_add_mod (time : Nat) (x : Int) : (time_add time x : Int) = (time + x) % 2 ^ 32 := by
  rw [time_add, size_add, to_size, WORD_eq]
  omega

theorem sum_take_succ (l : List Int) (k n : Nat) :
    ((l.drop k).take (n + 1)).sum = l.getD k 0 + ((l.drop (k + 1)).take n).sum := by
  rcases Nat.lt_or_ge k l.length with hk | hk
  · rw [List.drop_eq_getElem_cons hk, List.take_succ_cons, List.sum_cons, List.getD_eq_getElem _ _ hk]
  · rw [List.drop_eq_nil_of_le hk, List.drop_eq_nil_of_le (Nat.le_succ_of_le hk),
      List.getD_eq_default _ _ hk]
    simp

/-- The loop adds each month up to the current one, which is the mistake: that month is not over. -/
theorem add_months_mod {m : Nat} (n : Nat) {i : Nat} (hi : 1 ≤ i) (hn : i + n = m + 1) (time : Nat) :
    (add_months m n i time : Int) % 2 ^ 32 =
      (time + ((days_per_month.drop (i - 1)).take n).sum * 86400) % 2 ^ 32 := by
  induction n generalizing i time with
  | zero =>
      rw [add_months, List.take_zero, List.sum_nil, Int.zero_mul, Int.add_zero]
  | succ n ih =>
      have hle : (i : Int) ≤ m := by omega
      have hstep := ih (Nat.le_succ_of_le hi) (by omega)
        (time_add time (days_per_month.getD (i - 1) 0 * 24 * 60 * 60))
      have hpred : i + 1 - 1 = i - 1 + 1 := by omega
      rw [add_months, if_pos hle, hstep, time_add_mod, sum_take_succ, hpred]
      omega

theorem days_of_years_eq {n : Nat} (h : n < 130) : days_of_years n = 365 * n + (n + 1) / 4 := by
  induction n with
  | zero => rfl
  | succ n ih =>
      -- up to 2099 every fourth year is a leap year, also 2000
      have hleap : LeapYear (1970 + n) ↔ n % 4 = 2 := by
        rw [LeapYear]
        omega
      rw [days_of_years, ih (Nat.lt_of_succ_lt h)]
      simp only [hleap]
      split <;> omega

/-- The months that are over, and the current one as in a year that is no leap year. -/
theorem sum_months (year : Nat) {m : Nat} (hpos : 1 ≤ m) (hle : m ≤ 12) :
    (days_per_month.take m).sum = days_of_months year (m - 1) + days_per_month.getD (m - 1) 0 -
      if m > 2 ∧ LeapYear year then 1 else 0 := by
  interval_cases m <;> by_cases hleap : LeapYear year <;>
    simp [days_of_months, month_length, days_per_month, hleap]

/-- The length of the current month is more than the other mistakes can make up for. -/
theorem current_month_ge {m : Nat} (hpos : 1 ≤ m) (hle : m ≤ 12) :
    28 ≤ days_per_month.getD (m - 1) 0 ∧ days_per_month.getD (m - 1) 0 ≤ 31 := by
  interval_cases m <;> decide

/-- By how many days the result is too large. -/
def surplus_days (t : Instant) : Int :=
  let year : Int := t.year - 1970
  days_per_month.getD (t.month - 1) 0 + ((year - 1).tdiv 4 - (year + 1) / 4) +
    ((if t.month > 2 ∧ year % 4 = 0 then 1 else 0) - if t.month > 2 ∧ year % 4 = 2 then 1 else 0)

/-- In 1970 the division truncates toward zero. -/
theorem pred_tdiv_four (y : Nat) :
    ((y : Int) - 1).tdiv 4 = if y = 0 then 0 else ((y : Int) - 1) / 4 := by
  split
  · next hzero =>
    subst hzero
    rfl
  · next hpos => exact Int.tdiv_eq_ediv_of_nonneg (by omega)

/-- The years are counted as they should be, but for the leap years among them. -/
theorem to_time_eq (hlo : 1970 ≤ t.year) (hhi : t.year ≤ 2037) :
    (to_time ⟨t.second, t.minute, t.hour, t.day, t.month, (t.year % 100 : Nat)⟩ : Int) =
      (t.seconds + surplus_days t * 86400) % 2 ^ 32 := by
  obtain ⟨y, hy⟩ : ∃ y, t.year = 1970 + y := ⟨t.year - 1970, by omega⟩
  -- the two digits of the clock name the year without doubt
  have hyear : (if ((t.year % 100 : Nat) : Int) < 70 then ((t.year % 100 : Nat) : Int) + 100
      else (t.year % 100 : Nat)) - 70 = y := by
    split <;> omega
  have hmonths := add_months_mod t.month (Nat.le_refl 1) (Nat.add_comm 1 t.month)
  have hsum := sum_months t.year t.month_pos t.month_le
  have hyears := days_of_years_eq (n := y) (by omega)
  have hleap : LeapYear t.year ↔ y % 4 = 2 := by
    rw [LeapYear]
    omega
  have hdiv := pred_tdiv_four y
  have hmod : (y : Int).tmod 4 = (y : Int) % 4 := Int.tmod_eq_emod_of_nonneg (by omega)
  have hday := t.day_pos
  -- the `int` in which the years are counted does not overflow before 2038
  have hbase : (to_size (int32 (((y : Int) * 365 + ((y : Int) - 1).tdiv 4) * 24 * 60 * 60)) : Int) =
      ((y : Int) * 365 + ((y : Int) - 1).tdiv 4) * 86400 := by
    have hsmall : 0 ≤ ((y : Int) - 1).tdiv 4 ∧ ((y : Int) - 1).tdiv 4 ≤ y := by
      rw [hdiv]
      split <;> omega
    rw [int32_eq (by omega) (by omega), to_size_eq (by omega) (by omega)]
    omega
  -- the months, on top of the years
  have hadd := hmonths (to_size (int32 (((y : Int) * 365 + ((y : Int) - 1).tdiv 4) * 24 * 60 * 60)))
  rw [List.drop_zero, hsum, hbase] at hadd
  have hsub : (t.year : Int) - 1970 = y := by omega
  have hsub' : t.year - 1970 = y := by omega
  rw [to_time, surplus_days, Instant.seconds, Instant.days, hsub, hsub', hyears]
  simp only [hyear, time_add_mod, Int.toNat_natCast, hmod]
  generalize add_months _ _ _ _ = months at hadd ⊢
  generalize days_of_months t.year (t.month - 1) = before at hadd ⊢
  generalize days_per_month.getD (t.month - 1) 0 = current at hadd ⊢
  generalize ((y : Int) - 1).tdiv 4 = quarter at hadd ⊢
  simp only [hleap] at hadd
  -- whatever is added to the months, only their remainder matters
  have hrest : ∀ x : Int, ((months : Int) + x) % 2 ^ 32 =
      (((y : Int) * 365 + quarter) * 86400 +
        (before + current - if t.month > 2 ∧ y % 4 = 2 then 1 else 0) * 86400 + x) % 2 ^ 32 := by
    intro x
    rw [← Int.emod_add_emod, hadd, Int.emod_add_emod]
  have hmonth : ((t.month : Int) > 2 ∧ (y : Int) % 4 = 0) ↔ (t.month > 2 ∧ (y : Int) % 4 = 0) := by
    omega
  have htwo : (t.month > 2 ∧ (y : Int) % 4 = 2) ↔ (t.month > 2 ∧ y % 4 = 2) := by
    omega
  simp only [hmonth, htwo]
  by_cases hfour : t.month > 2 ∧ (y : Int) % 4 = 0
  · simp only [if_pos hfour, time_add_mod, Int.emod_add_emod, Int.add_assoc]
    rw [hrest]
    refine congrArg (fun seconds : Int => seconds % 2 ^ 32) ?_
    push_cast
    omega
  · simp only [if_neg hfour, Int.emod_add_emod, Int.add_assoc]
    rw [hrest]
    refine congrArg (fun seconds : Int => seconds % 2 ^ 32) ?_
    push_cast
    omega

/-- The surplus is never made up for. -/
theorem surplus_pos (hlo : 1970 ≤ t.year) (hhi : t.year ≤ 2037) :
    26 ≤ surplus_days t ∧ surplus_days t ≤ 32 := by
  obtain ⟨y, hy⟩ : ∃ y, t.year = 1970 + y := ⟨t.year - 1970, by omega⟩
  have hsub : (t.year : Int) - 1970 = y := by omega
  have hcurrent := current_month_ge t.month_pos t.month_le
  have hdiv := pred_tdiv_four y
  simp only [surplus_days, hsub, hdiv]
  split_ifs <;> omega

theorem days_of_months_le (year n : Nat) : days_of_months year n ≤ 31 * n := by
  induction n with
  | zero => exact Nat.le_refl 0
  | succ n ih =>
      have hlen := month_length_le year (n + 1)
      rw [days_of_months]
      omega

theorem seconds_lt (hlo : 1970 ≤ t.year) (hhi : t.year ≤ 2037) : t.seconds < 2 ^ 31 := by
  obtain ⟨y, hy⟩ : ∃ y, t.year = 1970 + y := ⟨t.year - 1970, by omega⟩
  have hyears := days_of_years_eq (n := y) (by omega)
  have hsub : t.year - 1970 = y := by omega
  have hmonths := days_of_months_le t.year (t.month - 1)
  have hmonth := t.month_le
  have hday := t.day_le.trans (month_length_le t.year t.month)
  have hhour := t.hour_lt
  have hminute := t.minute_lt
  have hsecond := t.second_lt
  rw [Instant.seconds, Instant.days, hsub, hyears]
  omega

/-- The result is 26 days or more too large, whatever the date. -/
theorem rtc_get_time_eq (h : ClockShows cmos t) (hlo : 1970 ≤ t.year) (hhi : t.year ≤ 2037)
    (passes n : Nat) : ∃ time, rtc_get_time cmos (passes + 1) n = some time ∧
      (time : Int) = t.seconds + surplus_days t * 86400 := by
  have heq := to_time_eq hlo hhi
  have hsurplus := surplus_pos hlo hhi
  have hlt := seconds_lt hlo hhi
  refine ⟨_, by rw [rtc_get_time, read_clock_eq h, Option.map_some], ?_⟩
  rw [heq]
  omega

/-- At no date and time from 1970 to 2037 is the result the number of seconds. -/
theorem rtc_get_time_never_exact (cmos : Cmos) (t : Instant) (h : ClockShows cmos t)
    (hlo : 1970 ≤ t.year) (hhi : t.year ≤ 2037) (passes n : Nat) :
    rtc_get_time cmos passes n ≠ some t.seconds := by
  cases passes with
  | zero =>
      exact (Option.some_ne_none _).symm
  | succ passes =>
      -- not even modulo `2 ^ 32`
      obtain ⟨time, htime, heq⟩ := rtc_get_time_eq h hlo hhi passes n
      have hsurplus := surplus_pos hlo hhi
      rw [htime]
      intro hsome
      obtain rfl := Option.some.inj hsome
      omega

/-- The first second of 1970. -/
def epoch : Instant where
  year := 1970
  month := 1
  day := 1
  hour := 0
  minute := 0
  second := 0
  month_pos := by decide
  month_le := by decide
  day_pos := by decide
  day_le := by decide
  hour_lt := by decide
  minute_lt := by decide
  second_lt := by decide

/-- A clock that stands at it. -/
def epoch_clock : Cmos := fun _ index =>
  if index = RTC_REG_MDAY ∨ index = RTC_REG_MON then 0x01 else if index = RTC_REG_YEAR then 0x70 else 0

theorem epoch_clock_shows : ClockShows epoch_clock epoch :=
  ⟨fun _ => rfl, fun _ => rfl, fun _ => rfl, fun _ => rfl, fun _ => rfl, fun _ => rfl⟩

theorem rtc_get_time_never_exact_epoch : rtc_get_time epoch_clock 1 0 ≠ some epoch.seconds :=
  rtc_get_time_never_exact epoch_clock epoch epoch_clock_shows (by decide) (by decide) 1 0

/-- The first second of January comes out as that of February. -/
theorem epoch_is_in_february :
    epoch.seconds = 0 ∧ rtc_get_time epoch_clock 1 0 = some (31 * 24 * 60 * 60) := by
  decide

end Berk162
