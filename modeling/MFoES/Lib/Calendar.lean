import Mathlib.Data.Int.Init
import Mathlib.Tactic.Common

/-!
# The calendar of the C library

`timegm` and `gmtime` between broken-down time and seconds since 1970, in the Gregorian calendar
of all times.  Years are counted from March here, so that the leap day is the last of its year,
and in eras of 400 years, which all have the same days.
-/

namespace Calendar

/-- `struct tm`: the year from 1900, the month from 0 and the day from 1. -/
structure Tm where
  year : Int
  mon : Int
  mday : Int
  hour : Int
  min : Int
  sec : Int
  deriving DecidableEq

/-- The days from 1970 to a day of the year from March. -/
def daysFrom (marchYear dayOfYear : Int) : Int :=
  let era := marchYear / 400
  let yearOfEra := marchYear % 400
  era * 146097 + (yearOfEra * 365 + yearOfEra / 4 - yearOfEra / 100 + dayOfYear) - 719468

/-- `timegm`; a day past the end of its month is one of the next. -/
def timegm (t : Tm) : Int :=
  let marchYear := if t.mon < 2 then t.year + 1899 else t.year + 1900
  let month := if t.mon < 2 then t.mon + 10 else t.mon - 2
  let days := daysFrom marchYear ((153 * month + 2) / 5 + t.mday - 1)
  days * 86400 + t.hour * 3600 + t.min * 60 + t.sec

/-- The year from March and the day of it, for a day from 1970. -/
def marchDate (days : Int) : Int × Int :=
  let era := (days + 719468) / 146097
  let dayOfEra := (days + 719468) % 146097
  let century := min 3 (dayOfEra / 36524)
  let dayOfCentury := dayOfEra - 36524 * century
  let cycle := dayOfCentury / 1461
  let dayOfCycle := dayOfCentury % 1461
  let year := min 3 (dayOfCycle / 365)
  (400 * era + 100 * century + 4 * cycle + year, dayOfCycle - 365 * year)

/-- `gmtime`. -/
def gmtime (time : Int) : Tm :=
  let (marchYear, dayOfYear) := marchDate (time / 86400)
  let month := (5 * dayOfYear + 2) / 153
  let second := time % 86400
  { year := if month < 10 then marchYear - 1900 else marchYear - 1899
    mon := if month < 10 then month + 2 else month - 10
    mday := dayOfYear - (153 * month + 2) / 5 + 1
    hour := second / 3600
    min := second % 3600 / 60
    sec := second % 60 }

/-- A year has its century, its cycle of four years and its place there. -/
theorem exists_cycles (marchYear : Int) : ∃ era century cycle year : Int,
    (0 ≤ century ∧ century ≤ 3) ∧ (0 ≤ cycle ∧ cycle ≤ 24) ∧ (0 ≤ year ∧ year ≤ 3) ∧
      marchYear = 400 * era + 100 * century + 4 * cycle + year :=
  ⟨marchYear / 400, marchYear % 400 / 100, marchYear % 100 / 4, marchYear % 4, by omega, by omega,
    by omega, by omega⟩

/-- The days of a year that is given by its century, its cycle of four years and its place
there. -/
theorem daysFrom_cycles {era century cycle year dayOfYear : Int} (hcentury : 0 ≤ century)
    (hcentury' : century ≤ 3) (hcycle : 0 ≤ cycle) (hcycle' : cycle ≤ 24) (hyear : 0 ≤ year)
    (hyear' : year ≤ 3) :
    daysFrom (400 * era + 100 * century + 4 * cycle + year) dayOfYear =
      era * 146097 + (36524 * century + 1461 * cycle + 365 * year + dayOfYear) - 719468 := by
  dsimp only [daysFrom]
  have hera : (400 * era + 100 * century + 4 * cycle + year) / 400 = era := by omega
  have hof : (400 * era + 100 * century + 4 * cycle + year) % 400 =
      100 * century + 4 * cycle + year := by omega
  have hleap : (100 * century + 4 * cycle + year) / 4 = 25 * century + cycle := by omega
  have hcommon : (100 * century + 4 * cycle + year) / 100 = century := by omega
  rw [hera, hof, hleap, hcommon]
  omega

theorem daysFrom_marchDate (days : Int) :
    daysFrom (marchDate days).1 (marchDate days).2 = days := by
  dsimp only [marchDate]
  rw [daysFrom_cycles (by omega) (by omega) (by omega) (by omega) (by omega) (by omega)]
  omega

theorem dayOfYear_bounds (days : Int) : 0 ≤ (marchDate days).2 ∧ (marchDate days).2 ≤ 365 := by
  dsimp only [marchDate]
  omega

/-- `gmtime` gives the fields their ranges. -/
theorem gmtime_bounds (time : Int) :
    (0 ≤ (gmtime time).mon ∧ (gmtime time).mon ≤ 11) ∧
      (1 ≤ (gmtime time).mday ∧ (gmtime time).mday ≤ 31) ∧
      (0 ≤ (gmtime time).hour ∧ (gmtime time).hour ≤ 23) ∧
      (0 ≤ (gmtime time).min ∧ (gmtime time).min ≤ 59) ∧
      (0 ≤ (gmtime time).sec ∧ (gmtime time).sec ≤ 59) := by
  obtain ⟨hlow, hhigh⟩ := dayOfYear_bounds (time / 86400)
  dsimp only [gmtime]
  generalize (marchDate (time / 86400)).2 = dayOfYear at hlow hhigh
  generalize (marchDate (time / 86400)).1 = marchYear
  refine ⟨?_, ?_, ?_, ?_, ?_⟩
  · omega
  · omega
  · omega
  · omega
  · omega

/-- `timegm` takes `gmtime` back. -/
theorem timegm_gmtime (time : Int) : timegm (gmtime time) = time := by
  have hdays := daysFrom_marchDate (time / 86400)
  obtain ⟨hlow, hhigh⟩ := dayOfYear_bounds (time / 86400)
  dsimp only [timegm, gmtime]
  generalize (marchDate (time / 86400)).2 = dayOfYear at hdays hlow hhigh
  generalize (marchDate (time / 86400)).1 = marchYear at hdays
  have hmonth : (5 * dayOfYear + 2) / 153 ≤ 11 := by omega
  have hmonth' : 0 ≤ (5 * dayOfYear + 2) / 153 := by omega
  generalize (5 * dayOfYear + 2) / 153 = month at hmonth hmonth'
  by_cases hten : month < 10
  · have hshift : ¬ month + 2 < 2 := by omega
    rw [if_pos hten, if_pos hten, if_neg hshift, if_neg hshift,
      show marchYear - 1900 + 1900 = marchYear by omega,
      show month + 2 - 2 = month by omega,
      show (153 * month + 2) / 5 + (dayOfYear - (153 * month + 2) / 5 + 1) - 1 = dayOfYear by omega,
      hdays]
    omega
  · have hshift : month - 10 < 2 := by omega
    rw [if_neg hten, if_neg hten, if_pos hshift, if_pos hshift,
      show marchYear - 1899 + 1899 = marchYear by omega,
      show month - 10 + 10 = month by omega,
      show (153 * month + 2) / 5 + (dayOfYear - (153 * month + 2) / 5 + 1) - 1 = dayOfYear by omega,
      hdays]
    omega

/-! ## Dates -/

/-- A leap year. -/
def IsLeap (year : Int) : Prop := year % 4 = 0 ∧ (year % 100 ≠ 0 ∨ year % 400 = 0)

instance (year : Int) : Decidable (IsLeap year) := inferInstanceAs (Decidable (_ ∧ _))

/-- The days of a month from 0. -/
def monthLength (year mon : Int) : Int :=
  if mon = 1 then if IsLeap year then 29 else 28
  else if mon = 3 ∨ mon = 5 ∨ mon = 8 ∨ mon = 10 then 30 else 31

/-- The day of the week, from Sunday.  1970 began on a Thursday. -/
def dayOfWeek (days : Int) : Int := (days + 4) % 7

/-- A year whose place in its era is known is a leap year where it ends a cycle of four years, and
not the last cycle of a century but the last. -/
theorem isLeap_cycles {era century cycle year : Int} (hcentury : 0 ≤ century ∧ century ≤ 3)
    (hcycle : 0 ≤ cycle ∧ cycle ≤ 24) (hyear : 0 ≤ year ∧ year ≤ 3) :
    IsLeap (400 * era + 100 * century + 4 * cycle + year + 1) ↔
      year = 3 ∧ (cycle ≠ 24 ∨ century = 3) := by
  rw [IsLeap]
  omega

/-- Only a year that ends in a leap day has 366 days. -/
theorem isLeap_of_dayOfYear {days : Int} (h : (marchDate days).2 = 365) :
    IsLeap ((marchDate days).1 + 1) := by
  dsimp only [marchDate] at h ⊢
  rw [isLeap_cycles (by omega) (by omega) (by omega)]
  omega

/-- `marchDate` takes `daysFrom` back. -/
theorem marchDate_daysFrom {marchYear dayOfYear : Int} (hlow : 0 ≤ dayOfYear)
    (hhigh : dayOfYear ≤ 365) (hleap : dayOfYear = 365 → IsLeap (marchYear + 1)) :
    marchDate (daysFrom marchYear dayOfYear) = (marchYear, dayOfYear) := by
  obtain ⟨era, century, cycle, year, hcentury, hcycle, hyear, hsplit⟩ := exists_cycles marchYear
  rw [hsplit] at hleap ⊢
  rw [isLeap_cycles hcentury hcycle hyear] at hleap
  rw [daysFrom_cycles hcentury.1 hcentury.2 hcycle.1 hcycle.2 hyear.1 hyear.2, marchDate]
  have hera : (era * 146097 + (36524 * century + 1461 * cycle + 365 * year + dayOfYear) - 719468 +
      719468) / 146097 = era := by omega
  have hday : (era * 146097 + (36524 * century + 1461 * cycle + 365 * year + dayOfYear) - 719468 +
      719468) % 146097 = 36524 * century + 1461 * cycle + 365 * year + dayOfYear := by omega
  have hcentury' : min 3 ((36524 * century + 1461 * cycle + 365 * year + dayOfYear) / 36524) =
      century := by omega
  have hcycle' : (36524 * century + 1461 * cycle + 365 * year + dayOfYear - 36524 * century) /
      1461 = cycle := by omega
  have hrest : (36524 * century + 1461 * cycle + 365 * year + dayOfYear - 36524 * century) %
      1461 = 365 * year + dayOfYear := by omega
  have hyear' : min 3 ((365 * year + dayOfYear) / 365) = year := by omega
  simp only [hera, hday, hcentury', hcycle', hrest, hyear']
  rw [Int.add_comm (365 * year), Int.add_sub_cancel]

/-- The fields of a time are in their ranges. -/
structure Tm.Valid (t : Tm) : Prop where
  mon : 0 ≤ t.mon ∧ t.mon ≤ 11
  mday : 1 ≤ t.mday ∧ t.mday ≤ monthLength (t.year + 1900) t.mon
  hour : 0 ≤ t.hour ∧ t.hour ≤ 23
  min : 0 ≤ t.min ∧ t.min ≤ 59
  sec : 0 ≤ t.sec ∧ t.sec ≤ 59

theorem mon_cases {mon : Int} (h : 0 ≤ mon ∧ mon ≤ 11) :
    mon = 0 ∨ mon = 1 ∨ mon = 2 ∨ mon = 3 ∨ mon = 4 ∨ mon = 5 ∨ mon = 6 ∨ mon = 7 ∨ mon = 8 ∨
      mon = 9 ∨ mon = 10 ∨ mon = 11 := by
  omega

/-- The months from March have the lengths that cut the year every `153 / 5` days, but for the
last one, which is February. -/
theorem monthLength_fromMarch {marchYear month : Int} (hmonth : 0 ≤ month ∧ month ≤ 11) :
    monthLength (if month < 10 then marchYear else marchYear + 1)
        (if month < 10 then month + 2 else month - 10) =
      if month = 11 then if IsLeap (marchYear + 1) then 29 else 28
      else (153 * (month + 1) + 2) / 5 - (153 * month + 2) / 5 := by
  rw [monthLength]
  rcases mon_cases hmonth with
      rfl | rfl | rfl | rfl | rfl | rfl | rfl | rfl | rfl | rfl | rfl | rfl <;> rfl

/-- The months from March cut a year where their lengths say. -/
theorem monthLength_march {marchYear month dayOfYear : Int} (hmonth : 0 ≤ month ∧ month ≤ 11) :
    (0 ≤ dayOfYear ∧ dayOfYear ≤ 365 ∧ (dayOfYear = 365 → IsLeap (marchYear + 1)) ∧
      (5 * dayOfYear + 2) / 153 = month) ↔
    1 ≤ dayOfYear - (153 * month + 2) / 5 + 1 ∧ dayOfYear - (153 * month + 2) / 5 + 1 ≤
      monthLength (if month < 10 then marchYear else marchYear + 1)
        (if month < 10 then month + 2 else month - 10) := by
  rw [monthLength_fromMarch hmonth]
  split
  next hlast =>
    subst hlast
    split
    next hleap =>
      simp only [hleap, implies_true, true_and]
      omega
    next hleap =>
      simp only [hleap, imp_false]
      omega
  next hlast => omega

/-- `gmtime` gives valid times. -/
theorem valid_gmtime (time : Int) : (gmtime time).Valid := by
  obtain ⟨hmon, -, hhour, hmin, hsec⟩ := gmtime_bounds time
  refine ⟨hmon, ?_, hhour, hmin, hsec⟩
  obtain ⟨hlow, hhigh⟩ := dayOfYear_bounds (time / 86400)
  have hleap := @isLeap_of_dayOfYear (time / 86400)
  dsimp only [gmtime]
  generalize (marchDate (time / 86400)).2 = dayOfYear at hlow hhigh hleap
  generalize (marchDate (time / 86400)).1 = marchYear at hleap
  have hlength := (@monthLength_march marchYear _ dayOfYear (by omega)).mp
    ⟨hlow, hhigh, hleap, rfl⟩
  have hyear : (if (5 * dayOfYear + 2) / 153 < 10 then marchYear - 1900 else marchYear - 1899) +
      1900 = if (5 * dayOfYear + 2) / 153 < 10 then marchYear else marchYear + 1 := by
    split <;> omega
  rw [hyear]
  exact hlength

/-- The second of a time in its day. -/
theorem Tm.Valid.second {t : Tm} (h : t.Valid) :
    0 ≤ t.hour * 3600 + t.min * 60 + t.sec ∧ t.hour * 3600 + t.min * 60 + t.sec < 86400 := by
  have hhour := h.hour
  have hmin := h.min
  have hsec := h.sec
  omega

/-- The day of a time. -/
theorem timegm_days {t : Tm} (h : t.Valid) :
    timegm t / 86400 = daysFrom (if t.mon < 2 then t.year + 1899 else t.year + 1900)
      ((153 * (if t.mon < 2 then t.mon + 10 else t.mon - 2) + 2) / 5 + t.mday - 1) := by
  have hsecond := h.second
  rw [timegm]
  omega

theorem timegm_second {t : Tm} (h : t.Valid) :
    timegm t % 86400 = t.hour * 3600 + t.min * 60 + t.sec := by
  have hsecond := h.second
  rw [timegm]
  omega

/-- The weekday of a day of the year from March: a year of 365 days goes on by one weekday, and a
leap year by one more. -/
theorem dayOfWeek_daysFrom (marchYear dayOfYear : Int) :
    dayOfWeek (daysFrom marchYear dayOfYear) =
      (marchYear + marchYear / 4 - marchYear / 100 + marchYear / 400 + dayOfYear + 3) % 7 := by
  have hfour : marchYear / 4 = 100 * (marchYear / 400) + marchYear % 400 / 4 := by omega
  have hhundred : marchYear / 100 = 4 * (marchYear / 400) + marchYear % 400 / 100 := by omega
  have hyear : marchYear = 400 * (marchYear / 400) + marchYear % 400 := by omega
  rw [dayOfWeek, daysFrom, hfour, hhundred]
  generalize marchYear / 400 = era at hyear ⊢
  generalize marchYear % 400 = yearOfEra at hyear ⊢
  rw [hyear]
  generalize yearOfEra / 4 = leaps
  generalize yearOfEra / 100 = centuries
  omega

/-! ## The order of dates -/

theorem daysFrom_add (marchYear dayOfYear : Int) :
    daysFrom marchYear dayOfYear = daysFrom marchYear 0 + dayOfYear := by
  rw [daysFrom, daysFrom]
  omega

theorem daysFrom_succ (marchYear : Int) :
    daysFrom (marchYear + 1) 0 =
      daysFrom marchYear 0 + if IsLeap (marchYear + 1) then 366 else 365 := by
  obtain ⟨era, century, cycle, year, hcentury, hcycle, hyear, rfl⟩ := exists_cycles marchYear
  rw [daysFrom_cycles hcentury.1 hcentury.2 hcycle.1 hcycle.2 hyear.1 hyear.2]
  simp only [isLeap_cycles hcentury hcycle hyear]
  rcases Int.lt_or_eq_of_le hyear.2 with hinside | rfl
  · -- the next year is of the same cycle
    rw [if_neg (by omega), Int.add_assoc, daysFrom_cycles hcentury.1 hcentury.2 hcycle.1 hcycle.2
      (by omega) (by omega)]
    omega
  rcases Int.lt_or_eq_of_le hcycle.2 with hinside | rfl
  · rw [if_pos (by omega), show 400 * era + 100 * century + 4 * cycle + 3 + 1 =
      400 * era + 100 * century + 4 * (cycle + 1) + 0 by omega, daysFrom_cycles hcentury.1
      hcentury.2 (by omega) (by omega) (by decide) (by decide)]
    omega
  rcases Int.lt_or_eq_of_le hcentury.2 with hinside | rfl
  · rw [if_neg (by omega), show 400 * era + 100 * century + 4 * 24 + 3 + 1 =
      400 * era + 100 * (century + 1) + 4 * 0 + 0 by omega, daysFrom_cycles (by omega) (by omega)
      (by decide) (by decide) (by decide) (by decide)]
    omega
  · rw [if_pos (by omega), show 400 * era + 100 * 3 + 4 * 24 + 3 + 1 =
      400 * (era + 1) + 100 * 0 + 4 * 0 + 0 by omega, daysFrom_cycles (by decide) (by decide)
      (by decide) (by decide) (by decide) (by decide)]
    omega

/-- The first day of a month.  Months are counted from the first January. -/
def monthStart (month : Int) : Int :=
  daysFrom (if month % 12 < 2 then month / 12 - 1 else month / 12)
    ((153 * (if month % 12 < 2 then month % 12 + 10 else month % 12 - 2) + 2) / 5)

theorem monthStart_eq (year : Int) {mon : Int} (hlow : 0 ≤ mon) (hhigh : mon ≤ 11) :
    monthStart (12 * year + mon) = daysFrom (if mon < 2 then year - 1 else year)
      ((153 * (if mon < 2 then mon + 10 else mon - 2) + 2) / 5) := by
  have hdiv : (12 * year + mon) / 12 = year := by omega
  have hmod : (12 * year + mon) % 12 = mon := by omega
  rw [monthStart, hdiv, hmod]

theorem monthStart_fromMarch (marchYear : Int) {month : Int} (hmonth : 0 ≤ month ∧ month ≤ 11) :
    monthStart (12 * marchYear + month + 2) = daysFrom marchYear 0 + (153 * month + 2) / 5 := by
  by_cases hnext : month < 10
  · rw [Int.add_assoc, monthStart_eq marchYear (by omega) (by omega), if_neg (by omega),
      if_neg (by omega), Int.add_sub_cancel, daysFrom_add]
  · rw [show 12 * marchYear + month + 2 = 12 * (marchYear + 1) + (month - 10) by omega,
      monthStart_eq (marchYear + 1) (by omega) (by omega), if_pos (by omega), if_pos (by omega),
      Int.add_sub_cancel, Int.sub_add_cancel, daysFrom_add]

theorem monthStart_fromMarch_succ (marchYear : Int) {month : Int}
    (hmonth : 0 ≤ month ∧ month ≤ 11) :
    monthStart (12 * marchYear + month + 2 + 1) = monthStart (12 * marchYear + month + 2) +
      monthLength (if month < 10 then marchYear else marchYear + 1)
        (if month < 10 then month + 2 else month - 10) := by
  rw [monthLength_fromMarch hmonth, monthStart_fromMarch marchYear hmonth]
  by_cases hlast : month = 11
  · rw [show 12 * marchYear + month + 2 + 1 = 12 * (marchYear + 1) + 0 + 2 by omega,
      monthStart_fromMarch (marchYear + 1) (by decide), daysFrom_succ, if_pos hlast, hlast]
    split <;> omega
  · rw [show 12 * marchYear + month + 2 + 1 = 12 * marchYear + (month + 1) + 2 by omega,
      monthStart_fromMarch marchYear (by omega), if_neg hlast]
    omega

theorem monthStart_succ (year : Int) {mon : Int} (hlow : 0 ≤ mon) (hhigh : mon ≤ 11) :
    monthStart (12 * year + mon + 1) = monthStart (12 * year + mon) + monthLength year mon := by
  by_cases hmarch : mon < 2
  · -- January and February belong to the year from the March before
    have hsucc := @monthStart_fromMarch_succ (year - 1) (mon + 10) (by omega)
    rw [if_neg (by omega), if_neg (by omega), Int.sub_add_cancel, Int.add_sub_cancel,
      show 12 * (year - 1) + (mon + 10) + 2 = 12 * year + mon by omega] at hsucc
    exact hsucc
  · have hsucc := @monthStart_fromMarch_succ year (mon - 2) (by omega)
    rw [if_pos (by omega), if_pos (by omega), Int.sub_add_cancel,
      show 12 * year + (mon - 2) + 2 = 12 * year + mon by omega] at hsucc
    exact hsucc

theorem monthLength_bounds (year mon : Int) :
    28 ≤ monthLength year mon ∧ monthLength year mon ≤ 31 := by
  rw [monthLength]
  split
  · split <;> decide
  · split <;> decide

theorem monthStart_le {month month' : Int} (h : month + 1 ≤ month') :
    monthStart month + monthLength (month / 12) (month % 12) ≤ monthStart month' := by
  induction month', h using Int.leInduction with
  | base =>
      have hsucc := @monthStart_succ (month / 12) (month % 12) (by omega) (by omega)
      rw [show 12 * (month / 12) + month % 12 = month by omega] at hsucc
      exact Int.le_of_eq hsucc.symm
  | succ later _ ih =>
      have hsucc := @monthStart_succ (later / 12) (later % 12) (by omega) (by omega)
      rw [show 12 * (later / 12) + later % 12 = later by omega] at hsucc
      have hpos := (monthLength_bounds (later / 12) (later % 12)).1
      omega

/-- The months since the first January. -/
def Tm.month (t : Tm) : Int := 12 * (t.year + 1900) + t.mon

/-- A time by its month, its day and its second. -/
theorem timegm_eq {t : Tm} (h : t.Valid) :
    timegm t =
      (monthStart t.month + (t.mday - 1)) * 86400 + (t.hour * 3600 + t.min * 60 + t.sec) := by
  have hdays := timegm_days h
  have hrest := timegm_second h
  have hyear : (if t.mon < 2 then t.year + 1899 else t.year + 1900) =
      if t.mon < 2 then t.year + 1900 - 1 else t.year + 1900 := by
    split <;> omega
  rw [hyear, daysFrom_add] at hdays
  rw [Tm.month, monthStart_eq _ h.mon.1 h.mon.2, daysFrom_add]
  omega

/-- Times are ordered by their month first, then by their day, then by their second. -/
theorem timegm_lt_of_month {s t : Tm} (hs : s.Valid) (ht : t.Valid) (h : s.month < t.month) :
    timegm s < timegm t := by
  have hle := monthStart_le h
  have hday : s.mday ≤ monthLength (s.month / 12) (s.month % 12) := by
    have hmon := hs.mon
    have hyear : s.month / 12 = s.year + 1900 := by
      rw [Tm.month]
      omega
    have hmod : s.month % 12 = s.mon := by
      rw [Tm.month]
      omega
    rw [hyear, hmod]
    exact hs.mday.2
  have hday' := ht.mday.1
  have hsecond := hs.second
  have hsecond' := ht.second
  rw [timegm_eq hs, timegm_eq ht]
  omega

/-- `gmtime` takes `timegm` back. -/
theorem gmtime_timegm {t : Tm} (h : t.Valid) : gmtime (timegm t) = t := by
  have hsecond := h.second
  have hrest := timegm_second h
  obtain ⟨hmon, hmday, hhour, hmin, hsec⟩ := h
  obtain ⟨marchYear, month, hmonth, hyear, hmon', hgm⟩ : ∃ marchYear month : Int,
      (0 ≤ month ∧ month ≤ 11) ∧
      t.year + 1900 = (if month < 10 then marchYear else marchYear + 1) ∧
      t.mon = (if month < 10 then month + 2 else month - 10) ∧
      timegm t = daysFrom marchYear ((153 * month + 2) / 5 + t.mday - 1) * 86400 +
        (t.hour * 3600 + t.min * 60 + t.sec) := by
    refine ⟨if t.mon < 2 then t.year + 1899 else t.year + 1900,
      if t.mon < 2 then t.mon + 10 else t.mon - 2, ?_, ?_, ?_, ?_⟩
    · split <;> omega
    · split <;> split <;> omega
    · split <;> split <;> omega
    · rw [timegm]
      omega
  rw [hyear, hmon'] at hmday
  generalize hdoy : (153 * month + 2) / 5 + t.mday - 1 = dayOfYear at hgm
  have hday : dayOfYear - (153 * month + 2) / 5 + 1 = t.mday := by omega
  rw [← hday] at hmday
  obtain ⟨hlow, hhigh, hleap, hdiv⟩ := (monthLength_march hmonth).mpr hmday
  have hdays : timegm t / 86400 = daysFrom marchYear dayOfYear := by omega
  have hparts : (t.hour * 3600 + t.min * 60 + t.sec) / 3600 = t.hour ∧
      (t.hour * 3600 + t.min * 60 + t.sec) % 3600 / 60 = t.min ∧
      (t.hour * 3600 + t.min * 60 + t.sec) % 60 = t.sec := by omega
  simp only [gmtime, hdays, hrest, marchDate_daysFrom hlow hhigh hleap, hdiv, hday, hparts]
  have hyear' : (if month < 10 then marchYear - 1900 else marchYear - 1899) = t.year := by
    split at hyear <;> split <;> omega
  rw [hyear', ← hmon']

example : gmtime 1735689600 = ⟨125, 0, 1, 0, 0, 0⟩ := by decide

end Calendar
