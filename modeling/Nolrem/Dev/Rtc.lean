import Nolrem.Core.TimeConv

/-!
# The clock chip

`kernel/arch/x86/dev/rtc.c`, with the registers of the CMOS as a memory that does not tick.
-/

namespace Nolrem.Dev.Rtc

open Core.TimeConv

/-! ## The code -/

def rtcSecond : UInt8 := 0x00

def rtcMinute : UInt8 := 0x02

def rtcHour : UInt8 := 0x04

def rtcDay : UInt8 := 0x07

def rtcMonth : UInt8 := 0x08

def rtcYear : UInt8 := 0x09

def rtcWeekday : UInt8 := 0x06

/-- Register B, where the chip says how it counts -/
def rtcRegB : UInt8 := 0x0B

/-- `CURRENT_YEAR` -/
def currentYear : Int := 2026

/-- The registers that are in use for something else than the century -/
def otherRegisters : List UInt8 :=
  [rtcSecond, rtcMinute, rtcHour, rtcDay, rtcMonth, rtcYear, rtcRegB]

/--
The registers of the CMOS, and `x86_rtc_century_register`, which is `none` where the code has `-1`.
-/
structure Cmos where
  reg : UInt8 → UInt8
  centuryRegister : Option UInt8
  apart : ∀ r ∈ centuryRegister, (r &&& 0x7F) ∉ otherRegisters

/-- `ReadCmos` -/
def readCmos (c : Cmos) (reg : UInt8) : UInt8 := c.reg (reg &&& 0x7F)

/-- `WriteCmos` -/
def writeCmos (c : Cmos) (reg data : UInt8) : Cmos :=
  { c with reg := Function.update c.reg (reg &&& 0x7F) data }

/-- The `uint8_t` that a number is stored as -/
def byteOf (n : Int) : UInt8 := UInt8.ofNat (n % 256).toNat

/-- `BcdToBinary` -/
def bcdToBinary (val : UInt8) : UInt8 := (val &&& (0xF : UInt8)) + (val >>> 4) * 10

/-- `BinaryToBcd` -/
def binaryToBcd (val : UInt8) : UInt8 := val % 10 + (val / 10) <<< 4

/-- `Convert12HourTo24` -/
def convert12HourTo24 (hour : Int) (pm : Bool) : Int :=
  let hour := if hour = 12 then 0 else hour
  if pm then hour + 12 else hour

/-- `Convert24HourTo12`: the hour, and `pm` -/
def convert24HourTo12 (hour : Int) : Int × Bool :=
  let pm := hour ≥ 12
  let hour := hour % 12
  (if hour = 0 then 12 else hour, pm)

/-- `GetCenturyGuess` -/
def getCenturyGuess (lowYear : Int) : Int :=
  let year := lowYear + currentYear / 100 * 100
  let year := if year < currentYear then year + 100 else year
  year / 100

/-- `GetCentury` -/
def getCentury (c : Cmos) (lowYear : Int) (rtcInBcdMode : Bool) : Int :=
  match c.centuryRegister with
  | none => getCenturyGuess lowYear
  | some r =>
    let century := readCmos c r
    (if rtcInBcdMode then bcdToBinary century else century).toNat

/-- `SetCentury` -/
def setCentury (c : Cmos) (century : Int) (rtcInBcdMode : Bool) : Cmos :=
  match c.centuryRegister with
  | none => c
  | some r => writeCmos c r (if rtcInBcdMode then binaryToBcd (byteOf century) else byteOf century)

/-- `AreTimesEqual` -/
def areTimesEqual (a b : Ostime) : Bool :=
  a.sec = b.sec ∧ a.min = b.min ∧ a.hour = b.hour ∧ a.day = b.day ∧ a.month = b.month ∧
    a.year = b.year

/-- `bcd`, as register B has it -/
def isBcd (c : Cmos) : Bool := readCmos c rtcRegB &&& 0x04 = 0

/-- `twelve_hour`, as register B has it -/
def isTwelveHour (c : Cmos) : Bool := readCmos c rtcRegB &&& 0x02 = 0

/-- A field that is stored as it is, or in BCD -/
def decoded (bcd : Bool) (val : UInt8) : UInt8 := if bcd then bcdToBinary val else val

def encoded (bcd : Bool) (val : UInt8) : UInt8 := if bcd then binaryToBcd val else val

/-- The hour that `ReadTimeState` finds in the register for it -/
def readHour (bcd twelveHour : Bool) (val : UInt8) : UInt8 :=
  let hour := if bcd then bcdToBinary (val &&& 0x7F) else val
  if twelveHour then byteOf (convert12HourTo24 hour.toNat (hour &&& 0x80 ≠ 0)) else hour

/-- What `WriteTimeState` stores in the register for the hour -/
def writtenHour (bcd twelveHour : Bool) (hour : UInt8) : UInt8 :=
  let (hour, pm) :=
    if twelveHour then
      let (hour, pm) := convert24HourTo12 hour.toNat
      (byteOf hour, pm)
    else (hour, false)
  let hour := encoded bcd hour
  if pm then hour ||| 0x80 else hour

/-- `ReadTimeState` -/
def readTimeState (c : Cmos) : Ostime :=
  let bcd := isBcd c
  let lowYear : Int := (decoded bcd (readCmos c rtcYear)).toNat
  { microsec := 0
    sec := decoded bcd (readCmos c rtcSecond)
    min := decoded bcd (readCmos c rtcMinute)
    hour := readHour bcd (isTwelveHour c) (readCmos c rtcHour)
    day := decoded bcd (readCmos c rtcDay)
    month := decoded bcd (readCmos c rtcMonth)
    year := lowYear + getCentury c lowYear bcd * 100 }

/-- `WriteTimeState` -/
def writeTimeState (c : Cmos) (t : Ostime) : Cmos :=
  let bcd := isBcd c
  let hour := writtenHour bcd (isTwelveHour c) t.hour
  let c := setCentury c (t.year.tdiv 100) bcd
  let year := encoded bcd (byteOf (t.year.tmod 100))
  let c := writeCmos c rtcSecond (encoded bcd t.sec)
  let c := writeCmos c rtcMinute (encoded bcd t.min)
  let c := writeCmos c rtcHour hour
  let c := writeCmos c rtcDay (encoded bcd t.day)
  let c := writeCmos c rtcMonth (encoded bcd t.month)
  writeCmos c rtcYear year

/-- The loop of `ArchSetUtcTime`, for `rounds` rounds at most; `none` if it has not ended by then -/
def retryLoop (rtime : Ostime) : Nat → Cmos → Option Cmos
  | 0, _ => none
  | rounds + 1, c =>
    let c := writeTimeState c rtime
    if areTimesEqual rtime (readTimeState c) then some c else retryLoop rtime rounds c

/-- `ArchSetUtcTime` -/
def archSetUtcTime (rounds : Nat) (c : Cmos) (time : Nat) (timezoneOffset : Int) : Option Cmos :=
  let time := ((time + timezoneOffset) % 18446744073709551616).toNat
  (retryLoop (timeValueToStruct time) rounds c).map fun c =>
    writeCmos c rtcWeekday (byteOf (getWeekday time))

/-! ## Fields -/

/-- Two decimal digits are decoded as they were encoded. -/
theorem decoded_encoded (bcd : Bool) {v : UInt8} (h : v.toNat < 100) :
    decoded bcd (encoded bcd v) = v := by
  have hall : ∀ n < 100, bcdToBinary (binaryToBcd (UInt8.ofNat n)) = UInt8.ofNat n := by decide
  cases bcd with
  | false => rfl
  | true =>
    have hv := hall v.toNat h
    rw [UInt8.ofNat_toNat] at hv
    exact hv

/-- An hour is read as it was written if the half of the day need not be told. -/
theorem readHour_writtenHour_iff (bcd twelveHour : Bool) {hour : UInt8} (h : hour.toNat < 24) :
    readHour bcd twelveHour (writtenHour bcd twelveHour hour) = hour ↔
      twelveHour = false ∨ hour.toNat < 12 := by
  have hall : ∀ n < 24,
      (readHour bcd twelveHour (writtenHour bcd twelveHour (UInt8.ofNat n)) = UInt8.ofNat n ↔
        twelveHour = false ∨ (UInt8.ofNat n).toNat < 12) := by
    cases bcd <;> cases twelveHour <;> decide +kernel
  have hv := hall hour.toNat h
  rw [UInt8.ofNat_toNat] at hv
  exact hv

theorem toNat_byteOf {n : Int} (h : 0 ≤ n ∧ n < 256) : ((byteOf n).toNat : Int) = n := by
  unfold byteOf
  rw [UInt8.toNat_ofNat']
  omega

/-! ## The registers -/

/-- The registers after a time was written to them -/
structure Holds (c c' : Cmos) (t : Ostime) : Prop where
  century : c'.centuryRegister = c.centuryRegister
  regB : readCmos c' rtcRegB = readCmos c rtcRegB
  sec : readCmos c' rtcSecond = encoded (isBcd c) t.sec
  min : readCmos c' rtcMinute = encoded (isBcd c) t.min
  hour : readCmos c' rtcHour = writtenHour (isBcd c) (isTwelveHour c) t.hour
  day : readCmos c' rtcDay = encoded (isBcd c) t.day
  month : readCmos c' rtcMonth = encoded (isBcd c) t.month
  year : readCmos c' rtcYear = encoded (isBcd c) (byteOf (t.year.tmod 100))
  centuryHeld : ∀ r ∈ c.centuryRegister,
    readCmos c' r = encoded (isBcd c) (byteOf (t.year.tdiv 100))

theorem readCmos_writeCmos (c : Cmos) (reg data : UInt8) :
    readCmos (writeCmos c reg data) reg = data :=
  Function.update_self ..

theorem readCmos_writeCmos_ne (c : Cmos) {reg other : UInt8} (data : UInt8)
    (h : (other &&& 0x7F) ≠ (reg &&& 0x7F)) :
    readCmos (writeCmos c reg data) other = readCmos c other := Function.update_of_ne h _ _

theorem centuryRegister_setCentury (c : Cmos) (century : Int) (bcd : Bool) :
    (setCentury c century bcd).centuryRegister = c.centuryRegister := by
  unfold setCentury
  split <;> rfl

/-- The century has a register of its own. -/
theorem readCmos_setCentury (c : Cmos) (century : Int) (bcd : Bool) {reg : UInt8}
    (h : (reg &&& 0x7F) ∈ otherRegisters) :
    readCmos (setCentury c century bcd) reg = readCmos c reg := by
  unfold setCentury
  split
  · rfl
  · next r hr =>
    refine readCmos_writeCmos_ne c _ fun he => ?_
    exact c.apart r hr (he ▸ h)

theorem writeTimeState_holds (c : Cmos) (t : Ostime) : Holds c (writeTimeState c t) t := by
  have hapart (r : UInt8) (hr : r ∈ c.centuryRegister) (reg : UInt8)
      (hreg : (reg &&& 0x7F) ∈ otherRegisters) : (r &&& 0x7F) ≠ (reg &&& 0x7F) :=
    fun he => c.apart r hr (he ▸ hreg)
  have hset := centuryRegister_setCentury c (t.year.tdiv 100) (isBcd c)
  unfold writeTimeState
  simp only
  refine ⟨hset, ?_, ?_, ?_, ?_, ?_, ?_, ?_, ?_⟩
  · repeat rw [readCmos_writeCmos_ne _ _ (by decide)]
    exact readCmos_setCentury _ _ _ (by decide)
  · iterate 5 rw [readCmos_writeCmos_ne _ _ (by decide)]
    exact readCmos_writeCmos _ _ _
  · iterate 4 rw [readCmos_writeCmos_ne _ _ (by decide)]
    exact readCmos_writeCmos _ _ _
  · iterate 3 rw [readCmos_writeCmos_ne _ _ (by decide)]
    exact readCmos_writeCmos _ _ _
  · iterate 2 rw [readCmos_writeCmos_ne _ _ (by decide)]
    exact readCmos_writeCmos _ _ _
  · rw [readCmos_writeCmos_ne _ _ (by decide)]
    exact readCmos_writeCmos _ _ _
  · exact readCmos_writeCmos _ _ _
  · intro r hr
    rw [readCmos_writeCmos_ne _ _ (hapart r hr _ (by decide)),
      readCmos_writeCmos_ne _ _ (hapart r hr _ (by decide)),
      readCmos_writeCmos_ne _ _ (hapart r hr _ (by decide)),
      readCmos_writeCmos_ne _ _ (hapart r hr _ (by decide)),
      readCmos_writeCmos_ne _ _ (hapart r hr _ (by decide)),
      readCmos_writeCmos_ne _ _ (hapart r hr _ (by decide))]
    unfold setCentury
    rw [Option.mem_def.mp hr]
    exact readCmos_writeCmos _ _ _

/-! ## Reading back -/

/-- Without a register for the century, the year is one of those that the code guesses. -/
def CenturyKnown (c : Cmos) (t : Ostime) : Prop :=
  c.centuryRegister = none → 2026 ≤ t.year ∧ t.year ≤ 2125

/-- The half of the day need not be told. -/
def HourKept (c : Cmos) (t : Ostime) : Prop := isTwelveHour c = false ∨ t.hour.toNat < 12

theorem isBcd_writeTimeState (c : Cmos) (t : Ostime) : isBcd (writeTimeState c t) = isBcd c := by
  unfold isBcd
  rw [(writeTimeState_holds c t).regB]

theorem isTwelveHour_writeTimeState (c : Cmos) (t : Ostime) :
    isTwelveHour (writeTimeState c t) = isTwelveHour c := by
  unfold isTwelveHour
  rw [(writeTimeState_holds c t).regB]

theorem getCenturyGuess_eq {year : Int} (h1 : 2026 ≤ year) (h2 : year ≤ 2125) :
    getCenturyGuess (year % 100) = year / 100 := by
  have hcur : currentYear = 2026 := rfl
  unfold getCenturyGuess
  by_cases hlt : year % 100 + currentYear / 100 * 100 < currentYear
  · simp only [if_pos hlt]
    omega
  · simp only [if_neg hlt]
    omega

theorem year_readBack {c : Cmos} {t : Ostime} (h : Valid t) (hc : CenturyKnown c t) :
    (readTimeState (writeTimeState c t)).year = t.year := by
  have hy := h.year
  have hheld := writeTimeState_holds c t
  have hdiv : t.year.tdiv 100 = t.year / 100 := Int.tdiv_eq_ediv_of_nonneg (by omega)
  have hmod : t.year.tmod 100 = t.year % 100 := Int.tmod_eq_emod_of_nonneg (by omega)
  have hlow := @toNat_byteOf (t.year % 100) (by omega)
  have hhigh := @toNat_byteOf (t.year / 100) (by omega)
  have hyear : decoded (isBcd c) (readCmos (writeTimeState c t) rtcYear) =
      byteOf (t.year % 100) := by
    rw [hheld.year, hmod]
    exact decoded_encoded _ (by omega)
  unfold readTimeState
  simp only [isBcd_writeTimeState, hyear, hlow]
  unfold getCentury
  rw [hheld.century]
  cases hr : c.centuryRegister with
  | none =>
    obtain ⟨h1, h2⟩ := hc hr
    simp only [getCenturyGuess_eq h1 h2]
    omega
  | some r =>
    have hcentury : decoded (isBcd c) (readCmos (writeTimeState c t) r) =
        byteOf (t.year / 100) := by
      rw [hheld.centuryHeld r hr, hdiv]
      exact decoded_encoded _ (by omega)
    unfold decoded at hcentury
    simp only [hcentury, hhigh]
    omega

/-- All but the hour is read as it was written. -/
theorem readTimeState_writeTimeState {c : Cmos} {t : Ostime} (h : Valid t) (hc : CenturyKnown c t) :
    readTimeState (writeTimeState c t) =
      { t with
        microsec := 0
        hour := readHour (isBcd c) (isTwelveHour c)
          (writtenHour (isBcd c) (isTwelveHour c) t.hour) } := by
  have hheld := writeTimeState_holds c t
  have hyear := year_readBack h hc
  have hlen := daysInMonth_le t.year t.month.toNat
  have hs := h.sec
  have hm := h.min
  have hd := h.day
  have hmon := h.month
  unfold readTimeState at hyear ⊢
  rw [isBcd_writeTimeState] at hyear ⊢
  simp only at hyear ⊢
  rw [hyear, hheld.sec, hheld.min, hheld.hour, hheld.day, hheld.month,
    isTwelveHour_writeTimeState, decoded_encoded _ (by omega), decoded_encoded _ (by omega),
    decoded_encoded _ (by omega), decoded_encoded _ (by omega)]

theorem areTimesEqual_iff {c : Cmos} {t : Ostime} (h : Valid t) (hc : CenturyKnown c t) :
    areTimesEqual t (readTimeState (writeTimeState c t)) = true ↔ HourKept c t := by
  rw [readTimeState_writeTimeState h hc]
  unfold areTimesEqual HourKept
  rw [decide_eq_true_iff, ← readHour_writtenHour_iff (isBcd c) (isTwelveHour c) h.hour]
  simp only [true_and, and_true]
  exact eq_comm

/-- An hour that is not kept is not kept in the next round either. -/
theorem retryLoop_none {c : Cmos} {t : Ostime} (h : Valid t) (hc : CenturyKnown c t)
    (hk : ¬HourKept c t) (rounds : Nat) : retryLoop t rounds c = none := by
  induction rounds generalizing c with
  | zero => rfl
  | succ rounds ih =>
    rw [retryLoop, if_neg (mt (areTimesEqual_iff h hc).mp hk)]
    refine ih (fun hn => hc ?_) ?_
    · rw [← (writeTimeState_holds c t).century]
      exact hn
    · unfold HourKept
      rw [isTwelveHour_writeTimeState]
      exact hk

theorem retryLoop_once {c : Cmos} {t : Ostime} (h : Valid t) (hc : CenturyKnown c t) :
    retryLoop t 1 c = some (writeTimeState c t) ↔ HourKept c t := by
  rw [← areTimesEqual_iff h hc, retryLoop]
  split
  · next he => exact iff_of_true rfl he
  · next he => exact iff_of_false (by rw [retryLoop]; simp) he

theorem readBack_iff {c : Cmos} {t : Ostime} (h : Valid t) (hc : CenturyKnown c t) :
    readTimeState (writeTimeState c t) = { t with microsec := 0 } ↔ HourKept c t := by
  rw [readTimeState_writeTimeState h hc]
  simp only [Ostime.mk.injEq, true_and, and_true]
  exact readHour_writtenHour_iff _ _ h.hour

/--
**The chip reads back what was written, unless it counts twelve hours and it is afternoon.**

The setting of the time ends after one round then, and never otherwise.
-/
theorem clock_reads_back_iff {c : Cmos} {t : Ostime} (h : Valid t) (hc : CenturyKnown c t) :
    ((readTimeState (writeTimeState c t) = { t with microsec := 0 } ∧
        retryLoop t 1 c = some (writeTimeState c t)) ↔ HourKept c t) ∧
      (¬HourKept c t → ∀ (rounds time : Nat) (timezoneOffset : Int),
        timeValueToStruct ((time + timezoneOffset) % 18446744073709551616).toNat = t →
          archSetUtcTime rounds c time timezoneOffset = none) := by
  refine ⟨?_, fun hk rounds time offset ht => ?_⟩
  · rw [readBack_iff h hc, retryLoop_once h hc, and_self]
  · unfold archSetUtcTime
    simp only
    rw [ht, retryLoop_none h hc hk]
    rfl

/-- A chip in BCD with twelve hours and the century in register `0x32` -/
def twelveHourCmos : Cmos where
  reg _ := 0
  centuryRegister := some 0x32
  apart := by
    rintro r ⟨⟩
    decide

/-- Nine in the morning -/
theorem clock_reads_back_morning :
    readTimeState (writeTimeState twelveHourCmos ⟨30, 15, 9, 29, 2, 2024, 0⟩) =
      ⟨30, 15, 9, 29, 2, 2024, 0⟩ :=
  ((@clock_reads_back_iff twelveHourCmos ⟨30, 15, 9, 29, 2, 2024, 0⟩
    ⟨by decide, by decide, by decide, by decide, by decide, by decide, by decide⟩
    (fun h => absurd h (by decide))).1.mpr (.inr (by decide))).1

/-- One in the afternoon is read as one at night. -/
theorem clock_forgets_afternoon :
    Valid ⟨0, 0, 13, 1, 1, 2026, 0⟩ ∧
      readTimeState (writeTimeState twelveHourCmos ⟨0, 0, 13, 1, 1, 2026, 0⟩) =
        ⟨0, 0, 1, 1, 1, 2026, 0⟩ ∧
      retryLoop ⟨0, 0, 13, 1, 1, 2026, 0⟩ 1 twelveHourCmos = none := by
  refine ⟨⟨by decide, by decide, by decide, by decide, by decide, by decide, by decide⟩, ?_, ?_⟩
  · decide +kernel
  · rfl

end Nolrem.Dev.Rtc
