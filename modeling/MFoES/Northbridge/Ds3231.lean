import MFoES.Lib.Calendar
import MFoES.Lib.LittleEndian
import Mathlib.Data.Fintype.Basic

/-!
# The real-time clock

The DS3231 keeps the time in seven registers of binary coded decimals, with the century in the
month and a flag for a stopped oscillator in the status.  The driver reads and writes them in
transactions on the I2C bus, each of which may fail.  A write that fails writes nothing here.

A time is valid in the driver where the calendar has it, between 2000 and 2199 (`timeValid_iff`),
and its weekday is the day of the week (`ds3231Weekday_eq`).
-/

namespace MFoES.Northbridge.Ds3231

open Calendar LittleEndian

/-! ## Times -/

/-- `Ds3231Time`. -/
structure Ds3231Time where
  year : UInt16 := 0
  month : UInt8 := 0
  day : UInt8 := 0
  hour : UInt8 := 0
  minute : UInt8 := 0
  second : UInt8 := 0
  weekday : UInt8 := 0
deriving DecidableEq

/-- `bcd_to_bin`. -/
def bcdToBin (v : UInt8) : UInt8 := (v >>> 4) * 10 + (v &&& 0x0f)

/-- `bin_to_bcd`. -/
def binToBcd (v : UInt8) : UInt8 := (v / 10) <<< 4 ||| v % 10

/-- `is_leap`. -/
def isLeap (y : UInt16) : Bool := (y % 4 == 0 && y % 100 != 0) || y % 400 == 0

/-- `days_in_month`. -/
def daysInMonth (y : UInt16) (m : UInt8) : UInt8 :=
  if m < 1 ∨ m > 12 then 0
  else if m = 2 ∧ isLeap y then 29
  else [31, 28, 31, 30, 31, 30, 31, 31, 30, 31, 30, 31].getD (m.toNat - 1) 0

/-- `time_valid`. -/
def timeValid (t : Ds3231Time) : Bool :=
  if t.year < 2000 ∨ t.year > 2199 ∨ t.month < 1 ∨ t.month > 12 then false
  else if t.day < 1 ∨ t.day > daysInMonth t.year t.month then false
  else t.hour < 24 && t.minute < 60 && t.second < 60

/-- `ds3231_weekday`: Sakamoto's method, from 1 for Sunday. -/
def ds3231Weekday (year : UInt16) (month day : UInt8) : UInt8 :=
  let kShift := [0, 3, 2, 5, 0, 3, 5, 1, 4, 6, 2, 4]
  let y := (if month < 3 then year - 1 else year).toNat
  let dow := (y + y / 4 - y / 100 + y / 400 + kShift.getD (month.toNat - 1) 0 + day.toNat) % 7
  UInt8.ofNat (dow + 1)

/-- `ds3231_compare`. -/
def ds3231Compare (a b : Ds3231Time) : Int :=
  let days (t : Ds3231Time) := t.year.toUInt32 * 10000 + t.month.toUInt32 * 100 + t.day.toUInt32
  let secs (t : Ds3231Time) := t.hour.toUInt32 * 3600 + t.minute.toUInt32 * 60 + t.second.toUInt32
  if days a ≠ days b then if days a < days b then -1 else 1
  else if secs a ≠ secs b then if secs a < secs b then -1 else 1
  else 0

/-! ## The chip on its bus -/

/-- The registers: `REG_SECONDS` and `REG_STATUS`. -/
def regSeconds : UInt8 := 0x00
def regStatus : UInt8 := 0x0f

/-- `HOUR_12_MODE`, `HOUR_PM`, `MONTH_CENTURY` and `STATUS_OSF`. -/
def hour12Mode : UInt8 := 0x40
def hourPm : UInt8 := 0x20
def monthCentury : UInt8 := 0x80
def statusOsf : UInt8 := 0x80

/-- `I2cError`. -/
inductive I2cError where
  | notInit
  | arg
  | busy
  | queueFull
  | timeout
  | nack
deriving DecidableEq

/-- The value of an `I2cError`. -/
def I2cError.code : I2cError → Int
  | .notInit => -10
  | .arg => -11
  | .busy => -12
  | .queueFull => -13
  | .timeout => -14
  | .nack => -15

/-- `DS3231_ERR_BAD_TIME` and `DS3231_ERR_ARG`. -/
def ds3231ErrBadTime : Int := -30
def ds3231ErrArg : Int := -31

/-- The chip, with the transactions that there were and what was written. -/
structure Bus where
  regs : UInt8 → UInt8
  transactions : Nat := 0
  written : List (UInt8 × List UInt8) := []

/-- What comes of each transaction, by its number. -/
abbrev Failures := Nat → Option I2cError

namespace Bus

/-- The registers from `reg` on. -/
def read (b : Bus) (reg : UInt8) (len : Nat) : List UInt8 :=
  (List.range len).map fun i => b.regs (reg + UInt8.ofNat i)

/-- `i2c_read_reg`. -/
def i2cReadReg (f : Failures) (b : Bus) (reg : UInt8) (len : Nat) :
    Except I2cError (List UInt8) × Bus :=
  let b' := { b with transactions := b.transactions + 1 }
  match f b.transactions with
  | some e => (.error e, b')
  | none => (.ok (b.read reg len), b')

/-- `i2c_write_reg`.  What it returns is negative only for an error. -/
def i2cWriteReg (f : Failures) (b : Bus) (reg : UInt8) (src : List UInt8) : Int × Bus :=
  match f b.transactions with
  | some e => (e.code, { b with transactions := b.transactions + 1 })
  | none => (src.length + 1,
    { regs := fun a => if (a - reg).toNat < src.length then src.getD (a - reg).toNat 0 else b.regs a
      transactions := b.transactions + 1
      written := b.written ++ [(reg, src)] })

end Bus

/-! ## The driver -/

/-- The fields that the seven registers hold. -/
def decodeTime (raw : List UInt8) (out : Ds3231Time) : Ds3231Time :=
  let at_ (i : Nat) : UInt8 := raw.getD i 0
  { out with
    second := bcdToBin (at_ 0 &&& 0x7f)
    minute := bcdToBin (at_ 1 &&& 0x7f)
    hour :=
      if at_ 2 &&& hour12Mode ≠ 0 then
        bcdToBin (at_ 2 &&& 0x1f) % 12 + if at_ 2 &&& hourPm ≠ 0 then 12 else 0
      else bcdToBin (at_ 2 &&& 0x3f)
    day := bcdToBin (at_ 4 &&& 0x3f)
    month := bcdToBin (at_ 5 &&& 0x1f)
    year := 2000 + (bcdToBin (at_ 6)).toUInt16 + if at_ 5 &&& monthCentury ≠ 0 then 100 else 0 }

/-- The seven registers of a time. -/
def encodeTime (t : Ds3231Time) : List UInt8 :=
  let yearInCentury := t.year - if t.year ≥ 2100 then 2100 else 2000
  [binToBcd t.second, binToBcd t.minute, binToBcd t.hour, ds3231Weekday t.year t.month t.day,
    binToBcd t.day, binToBcd t.month ||| (if t.year ≥ 2100 then monthCentury else 0),
    binToBcd yearInCentury.toUInt8]

section Driver

variable (f : Failures)

/-- `ds3231_get_time`, with what `out` holds afterwards. -/
def ds3231GetTime (b : Bus) (out : Ds3231Time) : Int × Ds3231Time × Bus :=
  match b.i2cReadReg f regSeconds 7 with
  | (.error e, b) => (e.code, out, b)
  | (.ok raw, b) =>
    let out := decodeTime raw out
    if timeValid out then
      (0, { out with weekday := ds3231Weekday out.year out.month out.day }, b)
    else (ds3231ErrBadTime, out, b)

/-- `ds3231_set_time`. -/
def ds3231SetTime (b : Bus) (t : Ds3231Time) : Int × Bus :=
  if timeValid t then b.i2cWriteReg f regSeconds (encodeTime t) else (ds3231ErrArg, b)

/-- `ds3231_lost_power`, with what `lost` holds afterwards. -/
def ds3231LostPower (b : Bus) (lost : Bool) : Int × Bool × Bus :=
  match b.i2cReadReg f regStatus 1 with
  | (.error e, b) => (e.code, lost, b)
  | (.ok status, b) => (0, status.getD 0 0 &&& statusOsf != 0, b)

/-- `ds3231_clear_lost_power`. -/
def ds3231ClearLostPower (b : Bus) : Int × Bus :=
  match b.i2cReadReg f regStatus 1 with
  | (.error e, b) => (e.code, b)
  | (.ok status, b) => b.i2cWriteReg f regStatus [status.getD 0 0 &&& ~~~statusOsf]

end Driver

/-! ## Valid times -/

/-- A time as the C library has it. -/
def tmOf (t : Ds3231Time) : Tm where
  year := t.year.toNat - 1900
  mon := t.month.toNat - 1
  mday := t.day.toNat
  hour := t.hour.toNat
  min := t.minute.toNat
  sec := t.second.toNat

theorem isLeap_iff (y : UInt16) : isLeap y = true ↔ IsLeap y.toNat := by
  simp only [isLeap, IsLeap, Bool.or_eq_true, Bool.and_eq_true, beq_iff_eq, bne_iff_ne, ne_eq,
    ← UInt16.toNat_inj, UInt16.toNat_mod, UInt16.toNat_ofNat, Nat.reducePow, Nat.reduceMod]
  omega

theorem month_cases {m : UInt8} (hlow : 1 ≤ m) (hhigh : m ≤ 12) :
    m = 1 ∨ m = 2 ∨ m = 3 ∨ m = 4 ∨ m = 5 ∨ m = 6 ∨ m = 7 ∨ m = 8 ∨ m = 9 ∨ m = 10 ∨ m = 11 ∨
      m = 12 := by
  simp only [UInt8.le_iff_toNat_le, ← UInt8.toNat_inj, UInt8.toNat_ofNat, Nat.reducePow,
    Nat.reduceMod] at *
  omega

theorem daysInMonth_eq (y : UInt16) {m : UInt8} (hlow : 1 ≤ m) (hhigh : m ≤ 12) :
    ((daysInMonth y m).toNat : Int) = monthLength y.toNat (m.toNat - 1) := by
  rcases month_cases hlow hhigh with
      rfl | rfl | rfl | rfl | rfl | rfl | rfl | rfl | rfl | rfl | rfl | rfl <;>
    by_cases hleap : isLeap y = true <;>
    simp [daysInMonth, monthLength, hleap, ← isLeap_iff]

theorem timeValid_eq_true (t : Ds3231Time) :
    timeValid t = true ↔ (2000 ≤ t.year ∧ t.year ≤ 2199 ∧ 1 ≤ t.month ∧ t.month ≤ 12) ∧
      (1 ≤ t.day ∧ t.day ≤ daysInMonth t.year t.month) ∧
      t.hour < 24 ∧ t.minute < 60 ∧ t.second < 60 := by
  simp only [timeValid, Bool.if_false_left, Bool.and_eq_true, Bool.not_eq_true',
    decide_eq_false_iff_not, decide_eq_true_eq, not_or, UInt16.not_lt, UInt8.not_lt, gt_iff_lt,
    and_assoc]

/-- The driver takes the times that the calendar has from 2000 to 2199. -/
theorem timeValid_iff (t : Ds3231Time) :
    timeValid t = true ↔ (2000 ≤ t.year ∧ t.year ≤ 2199) ∧ (tmOf t).Valid := by
  have hmonth : 1 ≤ t.month ∧ t.month ≤ 12 ↔ 0 ≤ (tmOf t).mon ∧ (tmOf t).mon ≤ 11 := by
    simp only [tmOf, UInt8.le_iff_toNat_le, UInt8.toNat_ofNat, Nat.reducePow, Nat.reduceMod]
    omega
  have hday : 1 ≤ t.month → t.month ≤ 12 → (1 ≤ t.day ∧ t.day ≤ daysInMonth t.year t.month ↔
      1 ≤ (tmOf t).mday ∧ (tmOf t).mday ≤ monthLength ((tmOf t).year + 1900) (tmOf t).mon) := by
    intro hlow hhigh
    have hlength := daysInMonth_eq t.year hlow hhigh
    simp only [tmOf, UInt8.le_iff_toNat_le, UInt8.toNat_ofNat, Nat.reducePow, Nat.reduceMod,
      Int.sub_add_cancel]
    omega
  have hclock : t.hour < 24 ∧ t.minute < 60 ∧ t.second < 60 ↔
      (0 ≤ (tmOf t).hour ∧ (tmOf t).hour ≤ 23) ∧ (0 ≤ (tmOf t).min ∧ (tmOf t).min ≤ 59) ∧
        (0 ≤ (tmOf t).sec ∧ (tmOf t).sec ≤ 59) := by
    simp only [tmOf, UInt8.lt_iff_toNat_lt, UInt8.toNat_ofNat, Nat.reducePow, Nat.reduceMod]
    omega
  rw [timeValid_eq_true]
  constructor
  · rintro ⟨⟨hlow, hhigh, hm⟩, hd, hc⟩
    obtain ⟨hhour, hmin, hsec⟩ := hclock.mp hc
    exact ⟨⟨hlow, hhigh⟩, hmonth.mp hm, (hday hm.1 hm.2).mp hd, hhour, hmin, hsec⟩
  · rintro ⟨⟨hlow, hhigh⟩, hvalid⟩
    have hm := hmonth.mpr hvalid.mon
    exact ⟨⟨hlow, hhigh, hm⟩, (hday hm.1 hm.2).mpr hvalid.mday,
      hclock.mpr ⟨hvalid.hour, hvalid.min, hvalid.sec⟩⟩

/-- The table of the weekdays has the days from March to each month, up to whole weeks. -/
theorem kShift_eq {m : Nat} (h : m < 12) :
    (([0, 3, 2, 5, 0, 3, 5, 1, 4, 6, 2, 4].getD m 0 : Nat) : Int) % 7 =
      ((153 * (if (m : Int) < 2 then (m : Int) + 10 else m - 2) + 2) / 5 + 2) % 7 := by
  decide +revert

/-- The weekday is the day of the week, from 1 for Sunday. -/
theorem ds3231Weekday_eq {t : Ds3231Time} (h : (tmOf t).Valid) (hyear : 2000 ≤ t.year) :
    ((ds3231Weekday t.year t.month t.day).toNat : Int) =
      dayOfWeek (timegm (tmOf t) / 86400) + 1 := by
  obtain ⟨hlow, hhigh⟩ := h.mon
  have hyear' : 2000 ≤ t.year.toNat := UInt16.le_iff_toNat_le.mp hyear
  have hpred : (t.year - 1).toNat = t.year.toNat - 1 :=
    UInt16.toNat_sub_of_le _ _ (UInt16.le_iff_toNat_le.mpr (Nat.le_trans (by decide) hyear'))
  have hmon : (tmOf t).mon = (t.month.toNat - 1 : Nat) := by
    simp only [tmOf] at *
    omega
  have hmarch : (if (tmOf t).mon < 2 then (tmOf t).year + 1899 else (tmOf t).year + 1900) =
      ((if t.month < 3 then t.year - 1 else t.year).toNat : Int) := by
    have hfirst : (tmOf t).mon < 2 ↔ t.month < 3 := by
      simp only [hmon, UInt8.lt_iff_toNat_lt, UInt8.toNat_ofNat, Nat.reducePow, Nat.reduceMod]
      omega
    simp only [hfirst]
    split
    · simp only [hpred, tmOf]
      omega
    · exact Int.sub_add_cancel _ _
  rw [timegm_days h, dayOfWeek_daysFrom, ds3231Weekday,
    UInt8.toNat_ofNat_of_lt' (show _ % 7 + 1 < 256 by omega), hmarch, hmon]
  have hshift := @kShift_eq (t.month.toNat - 1) (by omega)
  have hday : (tmOf t).mday = t.day.toNat := rfl
  rw [hday]
  generalize (if t.month < 3 then t.year - 1 else t.year).toNat = y
  generalize (153 * (if ((t.month.toNat - 1 : Nat) : Int) < 2 then _ else _) + 2) / 5 = d
    at hshift ⊢
  generalize List.getD _ (t.month.toNat - 1) 0 = k at hshift ⊢
  omega

/-- Times are compared as the calendar orders them. -/
theorem ds3231Compare_neg {a b : Ds3231Time} (ha : (tmOf a).Valid) (hb : (tmOf b).Valid) :
    ds3231Compare a b < 0 ↔ timegm (tmOf a) < timegm (tmOf b) := by
  have hdays : ∀ t : Ds3231Time, (t.year.toUInt32 * 10000 + t.month.toUInt32 * 100 +
      t.day.toUInt32).toNat = t.year.toNat * 10000 + t.month.toNat * 100 + t.day.toNat := by
    intro t
    have hyear := t.year.toNat_lt
    have hmonth := t.month.toNat_lt
    have hday := t.day.toNat_lt
    simp only [UInt32.toNat_add, UInt32.toNat_mul, UInt16.toNat_toUInt32, UInt8.toNat_toUInt32,
      UInt32.toNat_ofNat]
    omega
  have hsecs : ∀ t : Ds3231Time, (t.hour.toUInt32 * 3600 + t.minute.toUInt32 * 60 +
      t.second.toUInt32).toNat = t.hour.toNat * 3600 + t.minute.toNat * 60 + t.second.toNat := by
    intro t
    have hhour := t.hour.toNat_lt
    have hminute := t.minute.toNat_lt
    have hsecond := t.second.toNat_lt
    simp only [UInt32.toNat_add, UInt32.toNat_mul, UInt8.toNat_toUInt32, UInt32.toNat_ofNat]
    omega
  rw [ds3231Compare]
  simp only [ne_eq, ← UInt32.toNat_inj, UInt32.lt_iff_toNat_lt, hdays, hsecs]
  have hfields : ∀ t : Ds3231Time, (tmOf t).Valid →
      (tmOf t).month = 12 * t.year.toNat + (t.month.toNat - 1) ∧
        (1 ≤ t.month.toNat ∧ t.month.toNat ≤ 12) ∧ 1 ≤ t.day.toNat ∧ t.day.toNat ≤ 31 := by
    intro t ht
    have hmon := ht.mon
    have hmday := ht.mday
    have hlength := (monthLength_bounds ((tmOf t).year + 1900) (tmOf t).mon).2
    simp only [tmOf, Tm.month] at hmon hmday hlength ⊢
    omega
  obtain ⟨hmonth, hrange, hday⟩ := hfields a ha
  obtain ⟨hmonth', hrange', hday'⟩ := hfields b hb
  rcases Int.lt_trichotomy (tmOf a).month (tmOf b).month with h | h | h
  · rw [if_pos (by omega), if_pos (by omega)]
    exact iff_of_true (by decide) (timegm_lt_of_month ha hb h)
  · have hclock : ∀ t : Ds3231Time, (tmOf t).Valid →
        t.hour.toNat * 3600 + t.minute.toNat * 60 + t.second.toNat < 86400 := by
      intro t ht
      have hsecond := ht.second
      simp only [tmOf] at hsecond
      omega
    have hclocka := hclock a ha
    have hclockb := hclock b hb
    rw [timegm_eq ha, timegm_eq hb, h]
    simp only [tmOf]
    split_ifs <;> omega
  · rw [if_pos (by omega), if_neg (by omega)]
    exact iff_of_false (by decide) (Int.not_lt.mpr (Int.le_of_lt (timegm_lt_of_month hb ha h)))

/-! ## The registers of a time -/

/-- The decimals of every field are read back. -/
theorem bcd_fields : ∀ v : UInt8,
    (v < 60 → bcdToBin (binToBcd v &&& 0x7f) = v) ∧
    (v < 24 → binToBcd v &&& hour12Mode = 0 ∧ bcdToBin (binToBcd v &&& 0x3f) = v) ∧
    (v ≤ 31 → bcdToBin (binToBcd v &&& 0x3f) = v) ∧
    (∀ c : Bool, v ≤ 12 →
      ((binToBcd v ||| if c then monthCentury else 0) &&& monthCentury ≠ 0 ↔ c) ∧
        bcdToBin ((binToBcd v ||| if c then monthCentury else 0) &&& 0x1f) = v) ∧
    (v < 100 → bcdToBin (binToBcd v) = v) :=
  forall_uint8 (by decide +kernel)

theorem sixty_bcd (v : UInt8) : v < 60 → bcdToBin (binToBcd v &&& 0x7f) = v :=
  (bcd_fields v).1

theorem hour_bcd (v : UInt8) : v < 24 →
    binToBcd v &&& hour12Mode = 0 ∧ bcdToBin (binToBcd v &&& 0x3f) = v :=
  (bcd_fields v).2.1

theorem day_bcd (v : UInt8) : v ≤ 31 → bcdToBin (binToBcd v &&& 0x3f) = v :=
  (bcd_fields v).2.2.1

theorem month_bcd (c : Bool) (v : UInt8) : v ≤ 12 →
    ((binToBcd v ||| if c then monthCentury else 0) &&& monthCentury ≠ 0 ↔ c) ∧
      bcdToBin ((binToBcd v ||| if c then monthCentury else 0) &&& 0x1f) = v :=
  (bcd_fields v).2.2.2.1 c

theorem year_bcd (v : UInt8) : v < 100 → bcdToBin (binToBcd v) = v :=
  (bcd_fields v).2.2.2.2

theorem daysInMonth_le (y : UInt16) (m : UInt8) : daysInMonth y m ≤ 31 := by
  rw [daysInMonth]
  split
  · decide
  · next hm =>
    rw [not_or, UInt8.not_lt, UInt8.not_lt] at hm
    split
    · decide
    · rcases month_cases hm.1 hm.2 with rfl | rfl | rfl | rfl | rfl | rfl | rfl | rfl | rfl | rfl |
        rfl | rfl <;> decide

/-- The century and the year in it make up the year. -/
theorem year_century {y : UInt16} (hlow : 2000 ≤ y) (hhigh : y ≤ 2199) :
    (y - if y ≥ 2100 then 2100 else 2000).toUInt8 < 100 ∧
      2000 + (y - if y ≥ 2100 then 2100 else 2000).toUInt8.toUInt16 +
        (if y ≥ 2100 then 100 else 0) = y := by
  have hlow' : 2000 ≤ y.toNat := UInt16.le_iff_toNat_le.mp hlow
  have hhigh' : y.toNat ≤ 2199 := UInt16.le_iff_toNat_le.mp hhigh
  by_cases hc : y ≥ 2100
  · have hc' : 2100 ≤ y.toNat := UInt16.le_iff_toNat_le.mp hc
    have hsub : (y - 2100).toNat = y.toNat - 2100 := UInt16.toNat_sub_of_le _ _ hc
    simp only [if_pos hc, UInt8.lt_iff_toNat_lt, ← UInt16.toNat_inj, UInt16.toNat_add,
      UInt8.toNat_toUInt16, UInt16.toNat_toUInt8, hsub, UInt16.toNat_ofNat, UInt8.toNat_ofNat]
    omega
  · have hc' : y.toNat < 2100 := UInt16.lt_iff_toNat_lt.mp (UInt16.not_le.mp hc)
    have hsub : (y - 2000).toNat = y.toNat - 2000 := UInt16.toNat_sub_of_le _ _ hlow
    simp only [if_neg hc, UInt8.lt_iff_toNat_lt, ← UInt16.toNat_inj, UInt16.toNat_add,
      UInt8.toNat_toUInt16, UInt16.toNat_toUInt8, hsub, UInt16.toNat_ofNat, UInt8.toNat_ofNat]
    omega

/-- The driver reads the time that it wrote. -/
theorem decodeTime_encodeTime {t : Ds3231Time} (h : timeValid t = true) (out : Ds3231Time) :
    decodeTime (encodeTime t) out = { t with weekday := out.weekday } := by
  obtain ⟨⟨hyear, hyear', -, hmonth⟩, ⟨-, hday⟩, hhour, hminute, hsecond⟩ :=
    (timeValid_eq_true t).mp h
  obtain ⟨hnot12, hhour'⟩ := hour_bcd _ hhour
  obtain ⟨hcentury, hmonth'⟩ := month_bcd (decide (t.year ≥ 2100)) _ hmonth
  simp only [decide_eq_true_eq] at hcentury hmonth'
  simp only [decodeTime, encodeTime, List.getD_cons_zero, List.getD_cons_succ,
    sixty_bcd _ hsecond, sixty_bcd _ hminute, hnot12, hhour',
    day_bcd _ (UInt8.le_trans hday (daysInMonth_le _ _)), hcentury, hmonth', ne_eq,
    not_true_eq_false, if_false]
  obtain ⟨hlt, hsum⟩ := year_century hyear hyear'
  rw [year_bcd _ hlt, hsum]

/-- What is written is read. -/
theorem read_i2cWriteReg {f : Failures} {b : Bus} (hf : f b.transactions = none) (reg : UInt8)
    {src : List UInt8} (hsrc : src.length ≤ 256) :
    (b.i2cWriteReg f reg src).2.read reg src.length = src := by
  rw [Bus.i2cWriteReg, hf]
  apply List.ext_getElem
  · rw [Bus.read, List.length_map, List.length_range]
  · intro i hi hi'
    have hoffset : (reg + UInt8.ofNat i - reg).toNat = i := by
      have hlt : i < 256 := Nat.lt_of_lt_of_le hi' hsrc
      rw [UInt8.add_comm, UInt8.add_sub_cancel, UInt8.toNat_ofNat_of_lt' hlt]
    simp only [Bus.read, List.getElem_map, List.getElem_range, hoffset, if_pos hi']
    exact (List.getElem_eq_getD 0).symm

theorem I2cError.code_range (e : I2cError) : -15 ≤ e.code ∧ e.code ≤ -10 := by
  cases e <;> decide

theorem i2cReadReg_none {f : Failures} {b : Bus} (hf : f b.transactions = none) (reg : UInt8)
    (len : Nat) : b.i2cReadReg f reg len =
      (.ok (b.read reg len), { b with transactions := b.transactions + 1 }) := by
  rw [Bus.i2cReadReg, hf]

theorem i2cReadReg_some {f : Failures} {b : Bus} {e : I2cError} (hf : f b.transactions = some e)
    (reg : UInt8) (len : Nat) :
    b.i2cReadReg f reg len = (.error e, { b with transactions := b.transactions + 1 }) := by
  rw [Bus.i2cReadReg, hf]

/-- A time that is returned with 0 is valid. -/
theorem timeValid_ds3231GetTime {f : Failures} {b : Bus} {out : Ds3231Time}
    (h : (ds3231GetTime f b out).1 = 0) :
    timeValid (ds3231GetTime f b out).2.1 = true := by
  rw [ds3231GetTime] at h ⊢
  cases hf : f b.transactions with
  | some e =>
      rw [i2cReadReg_some hf] at h
      have hcode := e.code_range
      dsimp only at h
      omega
  | none =>
      rw [i2cReadReg_none hf] at h ⊢
      dsimp only at h ⊢
      split at h
      · next hvalid =>
        rw [if_pos hvalid]
        exact hvalid
      · exact absurd h (show ds3231ErrBadTime ≠ 0 by decide)

theorem ds3231GetTime_of_read {f : Failures} {b : Bus} (hf : f b.transactions = none)
    {t : Ds3231Time} (ht : timeValid t = true) (hread : b.read regSeconds 7 = encodeTime t)
    (out : Ds3231Time) :
    ds3231GetTime f b out = (0, { t with weekday := ds3231Weekday t.year t.month t.day },
      { b with transactions := b.transactions + 1 }) := by
  rw [ds3231GetTime, i2cReadReg_none hf]
  dsimp only
  rw [hread, decodeTime_encodeTime ht]
  exact if_pos ht

/-- The driver reads every valid time from 2000 to 2199 back as it wrote it, with the right weekday.
Whatever the registers hold, a time that it returns with 0 is one that the calendar has. -/
theorem time_round_trip :
    (∀ (t : Ds3231Time) (time : Int), 2000 ≤ t.year → t.year ≤ 2199 → tmOf t = gmtime time →
      ∀ (f : Failures) (b : Bus), f b.transactions = none → f (b.transactions + 1) = none →
        0 ≤ (ds3231SetTime f b t).1 ∧
        ∀ out, ∃ weekday : UInt8,
          (ds3231GetTime f (ds3231SetTime f b t).2 out).1 = 0 ∧
          (ds3231GetTime f (ds3231SetTime f b t).2 out).2.1 = { t with weekday } ∧
          (weekday.toNat : Int) = dayOfWeek (time / 86400) + 1) ∧
    ∀ (f : Failures) (b : Bus) (out : Ds3231Time), (ds3231GetTime f b out).1 = 0 →
      2000 ≤ (ds3231GetTime f b out).2.1.year ∧ (ds3231GetTime f b out).2.1.year ≤ 2199 ∧
      ∃ time, tmOf (ds3231GetTime f b out).2.1 = gmtime time := by
  refine ⟨fun t time hlow hhigh htime f b hf hf' => ?_, fun f b out h => ?_⟩
  · have hvalid : (tmOf t).Valid := by
      rw [htime]
      exact valid_gmtime time
    have ht : timeValid t = true := (timeValid_iff t).mpr ⟨⟨hlow, hhigh⟩, hvalid⟩
    have hset : ds3231SetTime f b t = b.i2cWriteReg f regSeconds (encodeTime t) := if_pos ht
    have hlength : (encodeTime t).length = 7 := rfl
    have hread := read_i2cWriteReg hf regSeconds (show (encodeTime t).length ≤ 256 by omega)
    have hcount : (b.i2cWriteReg f regSeconds (encodeTime t)).2.transactions =
        b.transactions + 1 := by
      rw [Bus.i2cWriteReg, hf]
    rw [hset]
    refine ⟨?_, fun out => ⟨ds3231Weekday t.year t.month t.day, ?_⟩⟩
    · rw [Bus.i2cWriteReg, hf]
      exact Int.natCast_nonneg 8
    · rw [ds3231GetTime_of_read (by rw [hcount, hf']) ht hread]
      refine ⟨rfl, rfl, ?_⟩
      rw [ds3231Weekday_eq hvalid hlow, htime, timegm_gmtime]
  · obtain ⟨⟨hlow, hhigh⟩, hvalid⟩ := (timeValid_iff _).mp (timeValid_ds3231GetTime h)
    exact ⟨hlow, hhigh, _, (gmtime_timegm hvalid).symm⟩

/-- A chip whose registers are all 0. -/
def blank : Bus := { regs := fun _ => 0 }

theorem time_round_trip_leapDay :
    ∃ weekday : UInt8,
      (ds3231GetTime (fun _ => none) (ds3231SetTime (fun _ => none) blank
        ⟨2000, 2, 29, 12, 30, 59, 0⟩).2 {}).2.1 = ⟨2000, 2, 29, 12, 30, 59, weekday⟩ ∧
      (weekday.toNat : Int) = dayOfWeek 11016 + 1 := by
  obtain ⟨-, h⟩ := time_round_trip.1 ⟨2000, 2, 29, 12, 30, 59, 0⟩ 951827459 (by decide) (by decide)
    (by decide) (fun _ => none) blank rfl rfl
  obtain ⟨weekday, -, hread, hday⟩ := h {}
  exact ⟨weekday, hread, hday⟩

end MFoES.Northbridge.Ds3231
