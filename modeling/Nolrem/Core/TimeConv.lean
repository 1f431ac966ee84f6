import Mathlib.Tactic.Common

/-!
# Times

`kernel/core/timeconv.c`. A time value is the number of microseconds since 1601, in 64 bits. What
the code computes in 32 bits is cut to 32 bits here; where no value can be too wide it is left alone.
-/

namespace Nolrem.Core.TimeConv

/-! ## The code -/

/-- `struct ostime` -/
structure Ostime where
  sec : UInt8
  min : UInt8
  hour : UInt8
  day : UInt8
  month : UInt8
  year : Int
  microsec : Int
deriving DecidableEq, Repr

/-- `SECS_PER_DAY` -/
def secsPerDay : Nat := 86400

/-- `cumulative_days_in_months` -/
def cumulativeDaysInMonths (i : Nat) : Nat :=
  [0, 31, 59, 90, 120, 151, 181, 212, 243, 273, 304, 334, 365].getD i 0

/-- `IsLeapYear` -/
def isLeapYear (year : Int) : Bool := year % 4 = 0 ∧ (year % 100 ≠ 0 ∨ year % 400 = 0)

/-- The loop of `GetFullLeapYearsSince1601`, which goes round `n` times at most -/
def leapsFrom (year : Int) : Nat → Int → Nat → Nat
  | 0, _, leaps => leaps
  | n + 1, i, leaps =>
    if i < year then leapsFrom year n (i + 4) (if isLeapYear i then leaps + 1 else leaps)
    else leaps

/-- `GetFullLeapYearsSince1601` -/
def getFullLeapYearsSince1601 (year : Int) : Nat := leapsFrom year (year - 1604).toNat 1604 0

/-- The `days` that `TimeStructToValue` counts -/
def dayNumber (t : Ostime) : Nat :=
  let days := t.day.toNat - 1 + cumulativeDaysInMonths (t.month.toNat - 1)
  let days := if isLeapYear t.year ∧ t.month ≥ 3 then days + 1 else days
  days + 365 * (t.year - 1601).toNat + getFullLeapYearsSince1601 t.year

/-- `TimeStructToValue` -/
def timeStructToValue (t : Ostime) : Nat :=
  if t.year < 1601 ∨ t.year > 2400 then 0
  else if t.month < 1 ∨ t.month > 12 then 0
  else if t.day < 1 ∨ t.day > 31 then 0
  else
    let totalSecs := t.sec.toNat + t.min.toNat * 60 + t.hour.toNat * 3600
    let totalSecs := totalSecs + dayNumber t * secsPerDay
    ((totalSecs * 1000000 + t.microsec) % 18446744073709551616).toNat

/-- The days before month `i + 1`: the sum `days + leap` of `TimeValueToStruct` -/
def daysBefore (year : Int) (i : Nat) : Nat :=
  cumulativeDaysInMonths i + if i ≥ 2 ∧ isLeapYear year then 1 else 0

/-- The loop over the months, with `n` of them left -/
def monthLoop (year : Int) : Nat → Nat → Nat → Nat → Nat × Nat
  | 0, _, month, daysLeft => (month, daysLeft)
  | n + 1, i, month, daysLeft =>
    if daysLeft ≥ daysBefore year i then monthLoop year n (i + 1) (month + 1) daysLeft
    else (month, daysLeft - daysBefore year (i - 1))

/-- The loop over the years, which goes round `n` times at most -/
def yearLoop : Nat → Int → Nat → Nat → Int × Nat × Nat
  | 0, year, month, daysLeft => (year, month, daysLeft)
  | n + 1, year, month, daysLeft =>
    if year > 2400 then (year, month, daysLeft)
    else
      let (month, daysLeft) := monthLoop year 12 1 1 daysLeft
      if month = 13 then
        yearLoop n (year + 1) month (daysLeft - if isLeapYear year then 366 else 365)
      else (year, month, daysLeft)

/-- `TimeValueToStruct` -/
def timeValueToStruct (t : Nat) : Ostime :=
  let daysLeft := t / 4096 / 21093750 % 4294967296
  -- Both products are of 32 bits.
  let microsecInDay := (t + 18446744073709551616 -
    daysLeft * (1000000 * secsPerDay % 4294967296) % 4294967296) % 18446744073709551616
  let secInDay := microsecInDay / 1000000 % 4294967296
  let (year, month, daysLeft) := yearLoop 801 1601 0 daysLeft
  { microsec := (microsecInDay % 1000000 : Nat)
    sec := UInt8.ofNat (secInDay % 60)
    min := UInt8.ofNat (secInDay / 60 % 60)
    hour := UInt8.ofNat (secInDay / 3600 % 24)
    year
    month := UInt8.ofNat month
    day := UInt8.ofNat (daysLeft + 1) }

/-- `GetWeekday` -/
def getWeekday (t : Nat) : Nat := (1 + t / 1000000 / secsPerDay) % 7 + 1

/-! ## Calendar times -/

/-- The length of a month -/
def daysInMonth (year : Int) (month : Nat) : Nat :=
  if month = 2 then if isLeapYear year then 29 else 28
  else if month = 4 ∨ month = 6 ∨ month = 9 ∨ month = 11 then 30 else 31

/-- A time from 1601 to 2400 -/
structure Valid (t : Ostime) : Prop where
  year : 1601 ≤ t.year ∧ t.year ≤ 2400
  month : 1 ≤ t.month.toNat ∧ t.month.toNat ≤ 12
  day : 1 ≤ t.day.toNat ∧ t.day.toNat ≤ daysInMonth t.year t.month.toNat
  hour : t.hour.toNat < 24
  min : t.min.toNat < 60
  sec : t.sec.toNat < 60
  microsec : 0 ≤ t.microsec ∧ t.microsec < 1000000

/-- The fields, by their weight -/
def Ostime.fields (t : Ostime) : List Int :=
  [t.year, t.month.toNat, t.day.toNat, t.hour.toNat, t.min.toNat, t.sec.toNat, t.microsec]

/-- The microseconds of a day -/
def microsecsPerDay : Nat := 86400000000

/-- The first value after the year 2400 -/
def endOf2400 : Nat := 292194 * microsecsPerDay

/-- What the product of 32 bits leaves out on a day does not show in the time. -/
def Harmless (days : Nat) : Prop := 1000000 ∣ microsecsPerDay * days / 4294967296

/-! ## Years -/

/-- The leap years before a year, by the rule -/
def leapsBefore (year : Int) : Int := (year - 1) / 4 - (year - 1) / 100 + (year - 1) / 400

theorem isLeapYear_iff (year : Int) :
    isLeapYear year = true ↔ year % 4 = 0 ∧ (year % 100 ≠ 0 ∨ year % 400 = 0) :=
  decide_eq_true_iff

theorem leapsBefore_succ (year : Int) :
    leapsBefore (year + 1) = leapsBefore year + if isLeapYear year then 1 else 0 := by
  unfold leapsBefore
  by_cases h : isLeapYear year = true
  · rw [if_pos h]
    rw [isLeapYear_iff] at h
    omega
  · rw [if_neg h]
    rw [isLeapYear_iff] at h
    omega

theorem leapsFrom_eq {year i : Int} (n leaps : Nat) (h4 : i % 4 = 0) (hi : i - 4 < year)
    (hn : year ≤ i + n) :
    (leapsFrom year n i leaps : Int) = leaps + leapsBefore year - leapsBefore i := by
  have hdone (h : year ≤ i) : leapsBefore year = leapsBefore i := by
    unfold leapsBefore
    omega
  induction n generalizing i leaps with
  | zero =>
    rw [leapsFrom, hdone (by omega)]
    omega
  | succ n ih =>
    rw [leapsFrom]
    by_cases hlt : i < year
    · have hstep : leapsBefore (i + 4) = leapsBefore i + if isLeapYear i then 1 else 0 := by
        rw [← leapsBefore_succ]
        unfold leapsBefore
        omega
      rw [if_pos hlt, ih _ (by omega) (by omega) (by omega) (fun h => by unfold leapsBefore; omega),
        hstep]
      split
      · omega
      · omega
    · rw [if_neg hlt, hdone (by omega)]
      omega

/-- The days before a year -/
def yearStart (year : Int) : Int := 365 * (year - 1601) + leapsBefore year - 388

theorem getFullLeapYears_eq {year : Int} (h : 1601 ≤ year) :
    (getFullLeapYearsSince1601 year : Int) = leapsBefore year - 388 := by
  unfold getFullLeapYearsSince1601
  rw [leapsFrom_eq _ _ (by decide) (by omega) (by omega)]
  have h1604 : leapsBefore 1604 = 388 := by decide
  omega

theorem yearStart_succ (year : Int) :
    yearStart (year + 1) = yearStart year + if isLeapYear year then 366 else 365 := by
  unfold yearStart
  rw [leapsBefore_succ]
  split
  · omega
  · omega

theorem yearStart_le {a b : Int} (h : a ≤ b) : yearStart a ≤ yearStart b := by
  unfold yearStart leapsBefore
  omega

/-! ## Months -/

theorem daysInMonth_le (year : Int) (month : Nat) : daysInMonth year month ≤ 31 := by
  unfold daysInMonth
  split
  · split <;> decide
  split <;> decide

theorem daysBefore_succ (year : Int) : ∀ m, 1 ≤ m → m ≤ 12 →
    daysBefore year m = daysBefore year (m - 1) + daysInMonth year m := by
  unfold daysBefore daysInMonth
  generalize isLeapYear year = leap
  have hall : ∀ m < 13, 1 ≤ m →
      (cumulativeDaysInMonths m + if m ≥ 2 ∧ leap = true then 1 else 0) =
        (cumulativeDaysInMonths (m - 1) + if m - 1 ≥ 2 ∧ leap = true then 1 else 0) +
          if m = 2 then if leap = true then 29 else 28
          else if m = 4 ∨ m = 6 ∨ m = 9 ∨ m = 11 then 30 else 31 := by
    cases leap <;> decide
  exact fun m h1 h12 => hall m (by omega) h1

theorem daysBefore_twelve (year : Int) :
    daysBefore year 12 = if isLeapYear year then 366 else 365 := by
  unfold daysBefore
  cases isLeapYear year <;> rfl

theorem daysBefore_le {year : Int} {m n : Nat} (h : m ≤ n) (hn : n ≤ 12) :
    daysBefore year m ≤ daysBefore year n := by
  induction n with
  | zero =>
    obtain rfl : m = 0 := by omega
    exact Nat.le_refl _
  | succ n ih =>
    rcases Nat.lt_or_eq_of_le h with hlt | rfl
    · rw [daysBefore_succ year (n + 1) (by omega) hn, Nat.add_sub_cancel]
      exact Nat.le_add_right_of_le (ih (by omega) (by omega))
    · exact Nat.le_refl _

/-- The loop over the months finds the month, or that the year is over. -/
theorem monthLoop_spec (year : Int) (n i d : Nat) (hi : 1 ≤ i) (hn : n + i = 13)
    (hd : daysBefore year (i - 1) ≤ d) :
    ∃ m, 1 ≤ m ∧ m ≤ 13 ∧ daysBefore year (m - 1) ≤ d ∧ (m ≤ 12 → d < daysBefore year m) ∧
      monthLoop year n i i d = (m, if m = 13 then d else d - daysBefore year (m - 1)) := by
  induction n generalizing i with
  | zero =>
    obtain rfl : i = 13 := by omega
    exact ⟨13, by omega, Nat.le_refl _, hd, fun h => absurd h (by decide), rfl⟩
  | succ n ih =>
    rw [monthLoop]
    by_cases hge : d ≥ daysBefore year i
    · rw [if_pos hge]
      exact ih (i + 1) (by omega) (by omega) (by rw [Nat.add_sub_cancel]; exact hge)
    · rw [if_neg hge]
      refine ⟨i, hi, by omega, hd, fun _ => Nat.lt_of_not_ge hge, ?_⟩
      rw [if_neg (by omega)]

/-- A date, and how many days after 1601 it is; the days of the month count from 0. -/
structure DateOf (days y : Int) (m d : Nat) : Prop where
  year : 1601 ≤ y ∧ y ≤ 2400
  month : 1 ≤ m ∧ m ≤ 12
  day : d < daysInMonth y m
  count : yearStart y + daysBefore y (m - 1) + d = days

theorem yearLoop_spec (n : Nat) (year : Int) (month d : Nat) (hy : 1601 ≤ year)
    (hn : 2401 - year ≤ n) (hd : yearStart year + d < 292194) :
    ∃ Y M D, yearLoop n year month d = (Y, M, D) ∧ DateOf (yearStart year + d) Y M D := by
  have hend : yearStart 2401 = 292194 := by decide
  have hle : year ≤ 2400 := by
    by_contra hgt
    have := yearStart_le (show 2401 ≤ year by omega)
    omega
  induction n generalizing year month d with
  | zero => omega
  | succ n ih =>
    obtain ⟨m, h1, h13, hbefore, hafter, hloop⟩ :=
      monthLoop_spec year 12 1 d (Nat.le_refl _) rfl (Nat.zero_le _)
    rw [yearLoop, if_neg (by omega), hloop]
    simp only
    by_cases hm : m = 13
    · subst hm
      have h12 := daysBefore_twelve year
      have hstep := yearStart_succ year
      have hlen : (if isLeapYear year = true then 366 else 365) ≤ d := by
        rw [← h12]
        exact hbefore
      have hcast : ((d - if isLeapYear year = true then 366 else 365 : Nat) : Int) +
          (yearStart (year + 1)) = yearStart year + d := by
        rw [hstep]
        split at hlen
        · next h => rw [if_pos h, if_pos h]; omega
        · next h => rw [if_neg h, if_neg h]; omega
      have hlt : year + 1 ≤ 2400 := by
        by_contra hgt
        have := yearStart_le (show 2401 ≤ year + 1 by omega)
        omega
      obtain ⟨Y, M, D, heq, hdate⟩ := ih (year + 1) 13
        (d - if isLeapYear year = true then 366 else 365) (by omega) (by omega) (by omega) hlt
      rw [if_pos rfl, if_pos rfl]
      exact ⟨Y, M, D, heq, by rw [← hcast, Int.add_comm]; exact hdate⟩
    · rw [if_neg hm, if_neg hm]
      have hlen := daysBefore_succ year m h1 (by omega)
      have := hafter (by omega)
      exact ⟨year, m, _, rfl, ⟨hy, hle⟩, ⟨h1, by omega⟩, by omega, by omega⟩

/-! ## Order -/

/-- A date is before a later one. -/
theorem DateOf.lt {a b y y' : Int} {m m' d d' : Nat} (h : DateOf a y m d) (h' : DateOf b y' m' d')
    (hlt : y < y' ∨ y = y' ∧ (m < m' ∨ m = m' ∧ d < d')) : a < b := by
  have hm := daysBefore_succ y m h.month.1 h.month.2
  have hd := h.day
  have he := h.count
  have he' := h'.count
  rcases hlt with hy | ⟨rfl, hmon | ⟨rfl, hday⟩⟩
  · have hnext := yearStart_le (show y + 1 ≤ y' by omega)
    have hstep := yearStart_succ y
    have h12 := daysBefore_twelve y
    have hle := @daysBefore_le y m 12 h.month.2 (Nat.le_refl _)
    split at hstep
    · next hl =>
      rw [if_pos hl] at h12
      omega
    · next hl =>
      rw [if_neg hl] at h12
      omega
  · have hle := @daysBefore_le y m (m' - 1) (by omega) (by have := h'.month.2; omega)
    omega
  · omega

/-- Only one date is a number of days after 1601. -/
theorem DateOf.unique {a y y' : Int} {m m' d d' : Nat} (h : DateOf a y m d)
    (h' : DateOf a y' m' d') : y = y' ∧ m = m' ∧ d = d' := by
  have hlt := mt (h.lt h') (Int.lt_irrefl a)
  have hgt := mt (h'.lt h) (Int.lt_irrefl a)
  omega

theorem DateOf.lt_end {a y : Int} {m d : Nat} (h : DateOf a y m d) : a < 292194 := by
  have hend : yearStart 2401 = 292194 := by decide
  have hnext := yearStart_le (show y + 1 ≤ 2401 by have := h.year.2; omega)
  have hstep := yearStart_succ y
  have h12 := daysBefore_twelve y
  have hm := daysBefore_succ y m h.month.1 h.month.2
  have hle := @daysBefore_le y m 12 h.month.2 (Nat.le_refl _)
  have hd := h.day
  have hc := h.count
  split at hstep
  · next hl =>
    rw [if_pos hl] at h12
    omega
  · next hl =>
    rw [if_neg hl] at h12
    omega

/-! ## Values -/

/-- The microseconds since midnight -/
def timeOfDay (t : Ostime) : Nat :=
  (t.sec.toNat + t.min.toNat * 60 + t.hour.toNat * 3600) * 1000000 + t.microsec.toNat

theorem timeOfDay_lt {t : Ostime} (h : Valid t) : timeOfDay t < microsecsPerDay := by
  have hh := h.hour
  have hm := h.min
  have hs := h.sec
  have hu := h.microsec
  unfold timeOfDay microsecsPerDay
  omega

theorem dateOf_dayNumber {t : Ostime} (h : Valid t) :
    DateOf (dayNumber t) t.year t.month.toNat (t.day.toNat - 1) := by
  have hy := h.year
  have hd := h.day
  have hleaps := getFullLeapYears_eq hy.1
  refine ⟨hy, h.month, by omega, ?_⟩
  have hb : daysBefore t.year (t.month.toNat - 1) = cumulativeDaysInMonths (t.month.toNat - 1) +
      if isLeapYear t.year = true ∧ t.month ≥ 3 then 1 else 0 := by
    unfold daysBefore
    congr 1
    refine if_congr ?_ rfl rfl
    rw [and_comm]
    refine and_congr_right fun _ => ?_
    rw [ge_iff_le, ge_iff_le, UInt8.le_iff_toNat_le, show (3 : UInt8).toNat = 3 from rfl]
    omega
  unfold dayNumber yearStart
  rw [hb]
  by_cases hl : isLeapYear t.year = true ∧ t.month ≥ 3
  · simp only [if_pos hl]
    omega
  · simp only [if_neg hl]
    omega

/-- The value of a time is no wider than 64 bits. -/
theorem value_fits {days secs : Nat} {microsec : Int} (hd : days < 292194)
    (hs : secs < 86400) (hu : 0 ≤ microsec ∧ microsec < 1000000) :
    (((secs + days * 86400 : Nat) * 1000000 + microsec) % 18446744073709551616).toNat =
      days * 86400000000 + (secs * 1000000 + microsec.toNat) := by
  have hvalue : ((secs + days * 86400 : Nat) * 1000000 + microsec) =
      ((days * 86400000000 + (secs * 1000000 + microsec.toNat) : Nat) : Int) := by omega
  rw [hvalue, Int.emod_eq_of_lt (Int.natCast_nonneg _) (by omega), Int.toNat_natCast]

theorem timeStructToValue_eq {t : Ostime} (h : Valid t) :
    timeStructToValue t = dayNumber t * microsecsPerDay + timeOfDay t := by
  have hy := h.year
  have hm := h.month
  have hd := h.day
  have hu := h.microsec
  have hlen := daysInMonth_le t.year t.month.toNat
  have hend := (dateOf_dayNumber h).lt_end
  have h1 : (1 : UInt8).toNat = 1 := rfl
  have h12 : (12 : UInt8).toNat = 12 := rfl
  have h31 : (31 : UInt8).toNat = 31 := rfl
  unfold timeStructToValue
  rw [if_neg (by omega), if_neg, if_neg]
  · have hh := h.hour
    have hmin := h.min
    have hs := h.sec
    exact value_fits (by omega) (by omega) hu
  · simp only [gt_iff_lt, UInt8.lt_iff_toNat_lt, h1, h31]
    omega
  · simp only [gt_iff_lt, UInt8.lt_iff_toNat_lt, h1, h12]
    omega

/-- What `microsec_in_day` is in place of the microseconds since midnight -/
def shifted (v : Nat) : Nat :=
  v % microsecsPerDay + 4294967296 * (microsecsPerDay * (v / microsecsPerDay) / 4294967296)

/-- What `sec_in_day` is -/
def shiftedSecs (v : Nat) : Nat := shifted v / 1000000 % 4294967296

/-- The low half of the product is taken away only. -/
theorem microsecInDay_eq {v days us : Nat} (hd : days < 292194) (hus : us < 86400000000)
    (hv : v = days * 86400000000 + us) :
    (v + 18446744073709551616 - days * 500654080 % 4294967296) % 18446744073709551616 =
      us + 4294967296 * (86400000000 * days / 4294967296) := by
  have hlow : days * 500654080 % 4294967296 +
      4294967296 * (86400000000 * days / 4294967296) = 86400000000 * days := by omega
  omega

theorem timeValueToStruct_eq {v : Nat} (hv : v < endOf2400) :
    ∃ Y M D, DateOf (v / microsecsPerDay : Nat) Y M D ∧
      timeValueToStruct v =
        { microsec := (shifted v % 1000000 : Nat)
          sec := UInt8.ofNat (shiftedSecs v % 60)
          min := UInt8.ofNat (shiftedSecs v / 60 % 60)
          hour := UInt8.ofNat (shiftedSecs v / 3600 % 24)
          year := Y
          month := UInt8.ofNat M
          day := UInt8.ofNat (D + 1) } := by
  have hdays : v / 4096 / 21093750 % 4294967296 = v / microsecsPerDay := by
    unfold endOf2400 microsecsPerDay at *
    omega
  have hlt : v / microsecsPerDay < 292194 := by
    unfold endOf2400 microsecsPerDay at *
    omega
  have hmicro : (v + 18446744073709551616 - v / microsecsPerDay *
      (1000000 * secsPerDay % 4294967296) % 4294967296) % 18446744073709551616 = shifted v := by
    have hproduct : 1000000 * secsPerDay % 4294967296 = 500654080 := by decide
    rw [hproduct]
    unfold shifted microsecsPerDay at *
    exact microsecInDay_eq hlt (by omega) (by omega)
  have hstart : yearStart 1601 = 0 := by decide
  obtain ⟨Y, M, D, heq, hdate⟩ :=
    yearLoop_spec 801 1601 0 (v / microsecsPerDay) (by omega) (by omega) (by omega)
  rw [hstart, Int.zero_add] at hdate
  refine ⟨Y, M, D, hdate, ?_⟩
  unfold timeValueToStruct
  simp only [hdays, hmicro, heq]
  rfl

/-! ## The two ways -/

/-- A multiple is not seen by a remainder if the rest of the divisor divides it. -/
theorem dvd_of_add_mod {g n c x y : Nat} (hc : Nat.Coprime n c)
    (h : (x + g * c * y) % (g * n) = x % (g * n)) (hg : 0 < g) : n ∣ y := by
  have hz := Nat.sub_mod_eq_zero_of_mod_eq h
  rw [Nat.add_sub_cancel_left, Nat.mul_assoc] at hz
  exact hc.dvd_of_dvd_mul_left (Nat.dvd_of_mul_dvd_mul_left hg (Nat.dvd_of_mod_eq_zero hz))

/-- The time of day is right on the days on which the product does not show. -/
theorem time_right_iff (v : Nat) :
    (shifted v % 1000000 = v % microsecsPerDay % 1000000 ∧
        shiftedSecs v % 86400 = v % microsecsPerDay / 1000000) ↔
      Harmless (v / microsecsPerDay) := by
  unfold Harmless shiftedSecs shifted
  have hus : v % microsecsPerDay < 86400000000 := Nat.mod_lt _ (by decide)
  generalize v % microsecsPerDay = us at *
  generalize microsecsPerDay * (v / microsecsPerDay) / 4294967296 = q
  constructor
  · rintro ⟨hmicro, hsec⟩
    obtain ⟨r, rfl⟩ : 15625 ∣ q := @dvd_of_add_mod 64 15625 67108864 us q (by decide) hmicro
      (by decide)
    have hs : (us + 4294967296 * (15625 * r)) / 1000000 = us / 1000000 + 67108864 * r := by omega
    have hlt : us / 1000000 < 86400 := by omega
    rw [hs] at hsec
    generalize us / 1000000 = s at *
    have hwrap : (s + 67108864 * r) % 4294967296 = s + 67108864 * (r % 64) := by omega
    rw [hwrap] at hsec
    have hr : 675 ∣ r % 64 := @dvd_of_add_mod 128 675 524288 s _ (by decide)
      (hsec.trans (Nat.mod_eq_of_lt hlt).symm) (by decide)
    have h64 : r % 64 = 0 := Nat.eq_zero_of_dvd_of_lt hr (by omega)
    omega
  · rintro ⟨k, rfl⟩
    constructor
    · omega
    · omega

/-- The fields that are found are in their ranges. -/
theorem timeValueToStruct_valid {v : Nat} (hv : v < endOf2400) :
    Valid (timeValueToStruct v) ∧ dayNumber (timeValueToStruct v) = v / microsecsPerDay ∧
      timeOfDay (timeValueToStruct v) =
        shiftedSecs v % 86400 * 1000000 + shifted v % 1000000 := by
  obtain ⟨Y, M, D, hdate, heq⟩ := timeValueToStruct_eq hv
  have hlen := daysInMonth_le Y M
  have hbyte (n : Nat) (hn : n < 256) : (UInt8.ofNat n).toNat = n := by
    rw [UInt8.toNat_ofNat']
    omega
  have hm := hdate.month
  have hd := hdate.day
  have hM := hbyte M (by omega)
  have hD := hbyte (D + 1) (by omega)
  have hH := hbyte (shiftedSecs v / 3600 % 24) (by omega)
  have hN := hbyte (shiftedSecs v / 60 % 60) (by omega)
  have hS := hbyte (shiftedSecs v % 60) (by omega)
  have hvalid : Valid (timeValueToStruct v) := by
    rw [heq]
    refine ⟨hdate.year, by rw [hM]; exact hm, ?_, by rw [hH]; omega, by rw [hN]; omega,
      by rw [hS]; omega, by simp only; omega⟩
    rw [hM, hD]
    exact ⟨by omega, by simp only; omega⟩
  have hnumber := dateOf_dayNumber hvalid
  refine ⟨hvalid, ?_, ?_⟩
  · have hsame : DateOf (dayNumber (timeValueToStruct v)) Y M D := by
      rw [heq] at hnumber ⊢
      simp only [hM, hD, Nat.add_sub_cancel] at hnumber
      exact hnumber
    have h1 := hsame.count
    have h2 := hdate.count
    omega
  · rw [heq]
    unfold timeOfDay
    simp only [hH, hN, hS]
    omega

/-- A time is known by its day and the microseconds since midnight. -/
theorem eq_of_value {a b : Ostime} (ha : Valid a) (hb : Valid b)
    (hday : dayNumber a = dayNumber b) (htime : timeOfDay a = timeOfDay b) : a = b := by
  have hda := dateOf_dayNumber ha
  have hdb := dateOf_dayNumber hb
  rw [hday] at hda
  obtain ⟨hy, hm, hd⟩ := hda.unique hdb
  have hda1 := ha.day.1
  have hdb1 := hb.day.1
  have hsa := ha.sec
  have hsb := hb.sec
  have hma := ha.min
  have hmb := hb.min
  have hua := ha.microsec
  have hub := hb.microsec
  unfold timeOfDay at htime
  have hsec : a.sec = b.sec := UInt8.toNat_inj.mp (by omega)
  have hmin : a.min = b.min := UInt8.toNat_inj.mp (by omega)
  have hhour : a.hour = b.hour := UInt8.toNat_inj.mp (by omega)
  have hday' : a.day = b.day := UInt8.toNat_inj.mp (by omega)
  have hmon : a.month = b.month := UInt8.toNat_inj.mp hm
  have hmic : a.microsec = b.microsec := by omega
  cases a
  cases b
  simp only [Ostime.mk.injEq]
  exact ⟨hsec, hmin, hhour, hday', hmon, hy, hmic⟩

theorem value_of_valid {t : Ostime} (h : Valid t) :
    timeStructToValue t < endOf2400 ∧ timeStructToValue t / microsecsPerDay = dayNumber t ∧
      timeStructToValue t % microsecsPerDay = timeOfDay t := by
  have hlt := timeOfDay_lt h
  have hend := (dateOf_dayNumber h).lt_end
  rw [timeStructToValue_eq h]
  unfold endOf2400 microsecsPerDay at *
  omega

/-- The time of day that is found for a value -/
theorem timeOfDay_iff {v : Nat} (hv : v < endOf2400) :
    timeOfDay (timeValueToStruct v) = v % microsecsPerDay ↔ Harmless (v / microsecsPerDay) := by
  rw [← time_right_iff, (timeValueToStruct_valid hv).2.2]
  constructor
  · intro h
    omega
  · rintro ⟨h1, h2⟩
    omega

theorem struct_roundTrip_iff {t : Ostime} (h : Valid t) :
    timeValueToStruct (timeStructToValue t) = t ↔ Harmless (dayNumber t) := by
  obtain ⟨hlt, hday, htime⟩ := value_of_valid h
  obtain ⟨hvalid, hday', -⟩ := timeValueToStruct_valid hlt
  rw [← hday, ← timeOfDay_iff hlt, htime]
  constructor
  · intro he
    rw [he]
  · intro he
    exact eq_of_value hvalid h (hday'.trans hday) he

theorem value_roundTrip_iff {v : Nat} (hv : v < endOf2400) :
    timeStructToValue (timeValueToStruct v) = v ↔ Harmless (v / microsecsPerDay) := by
  obtain ⟨hvalid, hday, -⟩ := timeValueToStruct_valid hv
  rw [timeStructToValue_eq hvalid, hday, ← timeOfDay_iff hv]
  have hsplit := Nat.div_add_mod' v microsecsPerDay
  omega

/-- Later times have larger values. -/
theorem value_lt_of_fields_lt {a b : Ostime} (ha : Valid a) (hb : Valid b)
    (h : a.fields < b.fields) : timeStructToValue a < timeStructToValue b := by
  rw [timeStructToValue_eq ha, timeStructToValue_eq hb]
  have hda := dateOf_dayNumber ha
  have hdb := dateOf_dayNumber hb
  have hla := timeOfDay_lt ha
  have hday (hlt : a.year < b.year ∨ a.year = b.year ∧ (a.month.toNat < b.month.toNat ∨
      a.month.toNat = b.month.toNat ∧ a.day.toNat - 1 < b.day.toNat - 1)) :
      dayNumber a * microsecsPerDay + timeOfDay a < dayNumber b * microsecsPerDay + timeOfDay b := by
    have hnum : dayNumber a < dayNumber b := Int.ofNat_lt.mp (hda.lt hdb hlt)
    unfold microsecsPerDay at *
    omega
  have hpos := ha.day.1
  simp only [Ostime.fields, List.cons_lt_cons_iff, Int.ofNat_lt, Int.natCast_inj] at h
  rcases h with hy | ⟨hy, hm | ⟨hm, hd | ⟨hd, htime⟩⟩⟩
  · exact hday (.inl hy)
  · exact hday (.inr ⟨hy, .inl hm⟩)
  · exact hday (.inr ⟨hy, .inr ⟨hm, by omega⟩⟩)
  · have hnum : dayNumber a = dayNumber b := by
      have h1 := hda.count
      have h2 := hdb.count
      rw [hy, hm, hd] at h1
      omega
    have hma := ha.min
    have hsa := ha.sec
    have hua := ha.microsec
    have hub := hb.microsec
    rw [hnum]
    unfold timeOfDay
    rcases htime with hh | ⟨hh, hmin | ⟨hmin, hs | ⟨hs, hu | ⟨-, hnil⟩⟩⟩⟩
    · omega
    · omega
    · omega
    · omega
    · cases hnil

theorem getWeekday_succ (v : Nat) :
    getWeekday (v + microsecsPerDay) = getWeekday v % 7 + 1 := by
  have hd : (v + microsecsPerDay) / 1000000 / secsPerDay = v / 1000000 / secsPerDay + 1 := by
    unfold microsecsPerDay secsPerDay
    omega
  unfold getWeekday
  rw [hd]
  omega

/--
**Times and values are converted into each other on the days on which the product does not show.**

Later times have larger values on all days, and each day is the next one of the week.
-/
theorem time_conversion_iff (t : Ostime) (v : Nat) :
    (Valid t → (timeValueToStruct (timeStructToValue t) = t ↔ Harmless (dayNumber t))) ∧
      (v < endOf2400 → Valid (timeValueToStruct v) ∧
        (timeStructToValue (timeValueToStruct v) = v ↔ Harmless (v / microsecsPerDay))) ∧
      (∀ b, Valid t → Valid b → t.fields < b.fields →
        timeStructToValue t < timeStructToValue b) ∧
      getWeekday (v + microsecsPerDay) = getWeekday v % 7 + 1 :=
  ⟨struct_roundTrip_iff, fun hv => ⟨(timeValueToStruct_valid hv).1, value_roundTrip_iff hv⟩,
    fun _ => value_lt_of_fields_lt, getWeekday_succ v⟩

/-- The second of January 1601 begins at 23:51:39. -/
theorem time_conversion_second_day :
    let t : Ostime := ⟨0, 0, 0, 2, 1, 1601, 0⟩
    Valid t ∧ timeStructToValue t = 86400000000 ∧
      timeValueToStruct (timeStructToValue t) = ⟨39, 51, 23, 2, 1, 1601, 345920⟩ ∧
      timeStructToValue (timeValueToStruct 86400000000) ≠ 86400000000 := by
  refine ⟨⟨by decide, by decide, by decide, by decide, by decide, by decide, by decide⟩, ?_⟩
  decide +kernel

end Nolrem.Core.TimeConv
