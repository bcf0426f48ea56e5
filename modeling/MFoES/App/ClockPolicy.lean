import MFoES.Lib.Calendar
import MFoES.Lib.Transition

/-!
# The clock policy

The App takes the time of the RTC at boot where the system clock looks unset.  Once an hour it
compares the clocks, and writes the RTC where they are apart.  It should do so only when something
else, such as NTP, has set the system clock; what it looks at is a flag, that it has not set the
clock itself.

The two are the same only where the App has adopted the time and nothing else sets the clock, or
has not and something else does (`followsPolicy_iff`).
-/

namespace MFoES.App

open Calendar Transition

/-! ## Times on the wire -/

/-- `NbTimeWire`, as far as it is read. -/
structure NbTimeWire where
  year : UInt16
  month : UInt8
  day : UInt8
  hour : UInt8
  minute : UInt8
  second : UInt8
  deriving DecidableEq

/-- `kSaneYear`. -/
def saneYear : Int := 2025

/-- `kClockSkewToleranceSec`. -/
def clockSkewToleranceSec : Int := 30

/-- `kClockCheckIntervalMs`. -/
def clockCheckIntervalMs : UInt32 := 60 * 60 * 1000

/-- `wire_to_tm`. -/
def wireToTm (w : NbTimeWire) : Option Tm :=
  if w.year < 1970 ∨ w.month < 1 ∨ w.month > 12 ∨ w.day < 1 ∨ w.day > 31 then none
  else if w.hour > 23 ∨ w.minute > 59 ∨ w.second > 59 then none
  else some
    { year := w.year.toNat - 1900, mon := w.month.toNat - 1, mday := w.day.toNat,
      hour := w.hour.toNat, min := w.minute.toNat, sec := w.second.toNat }

/-- `tm_to_wire`. -/
def tmToWire (t : Tm) : NbTimeWire where
  year := .ofInt (t.year + 1900)
  month := .ofInt (t.mon + 1)
  day := .ofInt t.mday
  hour := .ofInt t.hour
  minute := .ofInt t.min
  second := .ofInt t.sec

/-- The year of a time, as `gmtime_r` has it. -/
def yearOf (time : Int) : Int := (gmtime time).year + 1900

theorem toNat_ofInt8 {x : Int} (h : 0 ≤ x) (h' : x < 256) : ((UInt8.ofInt x).toNat : Int) = x := by
  have hmod : x % 2 ^ 8 = x := Int.emod_eq_of_lt h (by omega)
  rw [UInt8.ofInt, hmod, UInt8.toNat_ofNat']
  omega

theorem toNat_ofInt16 {x : Int} (h : 0 ≤ x) (h' : x < 65536) :
    ((UInt16.ofInt x).toNat : Int) = x := by
  have hmod : x % 2 ^ 16 = x := Int.emod_eq_of_lt h (by omega)
  rw [UInt16.ofInt, hmod, UInt16.toNat_ofNat']
  omega

/-- What is written of a time reads as the same time. -/
theorem wireToTm_tmToWire {time : Int} (hyear : 1970 ≤ yearOf time) (hyear' : yearOf time < 65536) :
    wireToTm (tmToWire (gmtime time)) = some (gmtime time) := by
  obtain ⟨⟨hmon, hmon'⟩, ⟨hday, hday'⟩, ⟨hhour, hhour'⟩, ⟨hmin, hmin'⟩, hsec, hsec'⟩ :=
    gmtime_bounds time
  unfold yearOf at hyear hyear'
  generalize gmtime time = t at *
  have year := toNat_ofInt16 (x := t.year + 1900) (by omega) (by omega)
  have month := toNat_ofInt8 (x := t.mon + 1) (by omega) (by omega)
  have day := toNat_ofInt8 (x := t.mday) (by omega) (by omega)
  have hour := toNat_ofInt8 (x := t.hour) (by omega) (by omega)
  have minute := toNat_ofInt8 (x := t.min) (by omega) (by omega)
  have second := toNat_ofInt8 (x := t.sec) (by omega) (by omega)
  have hdate : ¬ ((tmToWire t).year < 1970 ∨ (tmToWire t).month < 1 ∨ (tmToWire t).month > 12 ∨
      (tmToWire t).day < 1 ∨ (tmToWire t).day > 31) := by
    simp only [tmToWire, UInt16.lt_iff_toNat_lt, UInt8.lt_iff_toNat_lt, gt_iff_lt,
      UInt16.reduceToNat,
      UInt8.reduceToNat]
    omega
  have htime :
      ¬ ((tmToWire t).hour > 23 ∨ (tmToWire t).minute > 59 ∨ (tmToWire t).second > 59) := by
    simp only [tmToWire, UInt8.lt_iff_toNat_lt, gt_iff_lt, UInt8.reduceToNat]
    omega
  rw [wireToTm, if_neg hdate, if_neg htime, Option.some.injEq]
  obtain ⟨y, mo, d, h, mi, s⟩ := t
  simp only [tmToWire, Tm.mk.injEq]
  dsimp only at *
  omega

/-- A sane year is after 1970. -/
theorem pos_of_saneYear {time : Int} (h : yearOf time ≥ saneYear) : 0 < time := by
  have hdays := daysFrom_marchDate (time / 86400)
  obtain ⟨hlow, hhigh⟩ := dayOfYear_bounds (time / 86400)
  dsimp only [yearOf, gmtime, saneYear] at h
  dsimp only [daysFrom] at hdays
  generalize (marchDate (time / 86400)).2 = dayOfYear at *
  generalize (marchDate (time / 86400)).1 = marchYear at *
  split at h <;> omega

/-! ## The App's clocks -/

/-- `App`, as far as its clocks go. -/
structure NbApp where
  /-- `nb`, the link is there. -/
  nb : Bool := false
  nbOnline : Bool := false
  /-- `nbInfo.features & NB_FEAT_RTC`. -/
  featRtc : Bool := false
  nbClockFromRtc : Bool := false
  nbLastClockCheck : UInt32 := 0
  deriving DecidableEq

/-- What a request of the link comes back with; `none` when it fails. -/
abbrev Reply (α : Type) := Option α

namespace NbApp

/-- `nbReadTime`. -/
def nbReadTime (a : NbApp) (rtc : Reply NbTimeWire) : Option NbTimeWire :=
  if !a.nb || !a.nbOnline then none else rtc

/-- `nbAdoptRtcTime`, with the time that it sets the system clock to; `settable` says whether
`settimeofday` succeeds. -/
def nbAdoptRtcTime (a : NbApp) (now : Int) (rtc : Reply NbTimeWire) (settable : Bool) :
    NbApp × Option Int :=
  match a.nbReadTime rtc with
  | none => (a, none)
  | some w =>
      if (w.year.toNat : Int) < saneYear then (a, none)
      else if yearOf now ≥ saneYear then (a, none)
      else
        match wireToTm w with
        | none => (a, none)
        | some t =>
            if timegm t ≤ 0 then (a, none)
            else if !settable then (a, none)
            else ({ a with nbClockFromRtc := true }, some (timegm t))

/-- `initNorthbridge`; `info` answers `GET_INFO` with whether the RTC is there. -/
def initNorthbridge (a : NbApp) (start : Bool) (info : Reply Bool) (now : Int)
    (rtc : Reply NbTimeWire) (settable : Bool) : NbApp × Option Int :=
  if !start then ({ a with nb := false }, none)
  else
    let a := { a with nb := true }
    match info with
    | none => (a, none)
    | some featRtc =>
        let a := { a with nbOnline := true, featRtc := featRtc }
        if featRtc then a.nbAdoptRtcTime now rtc settable else (a, none)

/-- `nbPushSystemTime`, with the time of its `SET_TIME`. -/
def nbPushSystemTime (a : NbApp) (now : Int) : Option NbTimeWire :=
  if !a.nb || !a.nbOnline then none
  else if yearOf now < saneYear then none
  else some (tmToWire (gmtime now))

/-- The check of `nbService` is due. -/
def due (a : NbApp) (nowMs : UInt32) : Bool :=
  a.nb && a.nbOnline && a.featRtc &&
    !(a.nbLastClockCheck != 0 && nowMs - a.nbLastClockCheck < clockCheckIntervalMs)

/-- The two clocks are too far apart. -/
def skewed (now rtc : Int) : Bool :=
  (if now > rtc then now - rtc else rtc - now) > clockSkewToleranceSec

/-- `nbService`, with the time of its `SET_TIME`. -/
def nbService (a : NbApp) (nowMs : UInt32) (now : Int) (rtc : Reply NbTimeWire) :
    NbApp × Option NbTimeWire :=
  if !a.due nowMs then (a, none)
  else
    let a := { a with nbLastClockCheck := nowMs }
    if a.nbClockFromRtc then (a, none)
    else
      match (a.nbReadTime rtc).bind wireToTm with
      | none => (a, none)
      | some t =>
          if timegm t ≤ 0 ∨ now ≤ 0 then (a, none)
          else (a, if skewed now (timegm t) then a.nbPushSystemTime now else none)

/-- `SET_TIME` is requested at a due check whose reading is far off, while the App has not set
the clock and the clock looks set. -/
theorem nbService_eq {a : NbApp} {nowMs : UInt32} (hdue : a.due nowMs = true) (now : Int)
    {rtc : Reply NbTimeWire} {t : Tm} (hrtc : rtc.bind wireToTm = some t) (ht : 0 < timegm t) :
    (a.nbService nowMs now rtc).2 =
      if a.nbClockFromRtc = false ∧ yearOf now ≥ saneYear ∧ skewed now (timegm t) = true then
        some (tmToWire (gmtime now))
      else none := by
  have honline : (!a.nb || !a.nbOnline) = false := by
    rw [due] at hdue
    simp only [Bool.and_eq_true] at hdue
    rw [hdue.1.1.1, hdue.1.1.2]
    rfl
  rw [nbService, hdue]
  cases hflag : a.nbClockFromRtc with
  | true => simp
  | false =>
      simp only [nbReadTime, nbPushSystemTime, honline, Bool.not_true, Bool.false_eq_true, if_false,
        hrtc, true_and]
      rcases Decidable.em (yearOf now ≥ saneYear) with hsane | hinsane
      · have hpos := pos_of_saneYear hsane
        rw [if_neg (by omega)]
        simp [hsane, show ¬ yearOf now < saneYear by omega]
      · rw [if_pos (show yearOf now < saneYear by omega)]
        simp [hinsane]

end NbApp

/-! ## Runs -/

/-- A check at which the RTC can be read. -/
structure Check where
  /-- Something other than the App has set the system clock since boot. -/
  moved : Bool
  now : Int
  /-- The time of the RTC. -/
  rtc : Int
  /-- The time that the RTC is set to. -/
  wrote : Option NbTimeWire
  deriving DecidableEq

/-- The RTC is set from the system clock exactly when something else has set that, and the two
are too far apart. -/
def Check.Follows (c : Check) : Prop :=
  c.wrote =
    if c.moved = true ∧ NbApp.skewed c.now c.rtc = true then some (tmToWire (gmtime c.now))
    else none

instance (c : Check) : Decidable c.Follows := by
  unfold Check.Follows
  infer_instance

/-- The App, the system clock and the checks so far. -/
structure Pi where
  app : NbApp := {}
  clock : Int
  booted : Bool := false
  moved : Bool := false
  checks : List Check := []
  deriving DecidableEq

/-- What happens to the clocks. -/
inductive PiEvent
  /-- `initNorthbridge`. -/
  | init (start : Bool) (info : Reply Bool) (rtc : Reply NbTimeWire) (settable : Bool)
  /-- `nbService`; `taken` says whether the RTC takes a `SET_TIME`. -/
  | service (nowMs : UInt32) (rtc : Reply NbTimeWire) (taken : Bool)
  /-- Something else sets the system clock. -/
  | set (time : Int)
  /-- The system clock goes on. -/
  | pass (seconds : Nat)
  deriving DecidableEq

namespace Pi

/-- The time that the RTC gives at a check. -/
def reading (rtc : Reply NbTimeWire) : Option Int :=
  ((rtc.bind wireToTm).map timegm).filter fun time => 0 < time

def step (s : Pi) : PiEvent → Option Pi
  | .init start info rtc settable =>
      if s.booted then none
      else
        let r := s.app.initNorthbridge start info s.clock rtc settable
        some { s with app := r.1, clock := r.2.getD s.clock, booted := true }
  | .service nowMs rtc taken =>
      let r := s.app.nbService nowMs s.clock rtc
      some { s with
        app := r.1
        checks :=
          match s.app.due nowMs, reading rtc with
          | true, some time =>
              s.checks ++ [⟨s.moved, s.clock, time, if taken then r.2 else none⟩]
          | _, _ => s.checks }
  | .set time => some { s with clock := time, moved := true }
  | .pass seconds => some { s with clock := s.clock + seconds }

/-- The clocks are close, or the App would write exactly when it should: the clock looks set, the
App has not set it and the RTC takes the time, or else nothing else has set the clock. -/
def Legitimate (s : Pi) : PiEvent → Prop
  | .service nowMs rtc taken =>
      s.app.due nowMs = true → ∀ time ∈ reading rtc, NbApp.skewed s.clock time = true →
        ((s.app.nbClockFromRtc = false ∧ yearOf s.clock ≥ saneYear ∧ taken = true) ↔
          s.moved = true)
  | .init _ _ _ _ => True
  | .set _ => True
  | .pass _ => True

instance (s : Pi) (e : PiEvent) : Decidable (s.Legitimate e) := by
  unfold Legitimate
  split <;> infer_instance

/-- All checks so far follow the policy. -/
def Followed (s : Pi) : Prop := ∀ c ∈ s.checks, c.Follows

/-- One step keeps the policy exactly when it is legitimate. -/
theorem followed_step_iff {s t : Pi} {e : PiEvent} (hstep : step s e = some t) :
    t.Followed ↔ s.Followed ∧ s.Legitimate e := by
  cases e with
  | init start info rtc settable =>
      simp only [step] at hstep
      split at hstep
      · cases hstep
      · cases hstep
        exact (and_iff_left trivial).symm
  | set time =>
      cases hstep
      exact (and_iff_left trivial).symm
  | pass seconds =>
      cases hstep
      exact (and_iff_left trivial).symm
  | service nowMs rtc taken =>
      simp only [step, Option.some.injEq] at hstep
      subst hstep
      unfold Followed Legitimate
      dsimp only
      cases hdue : s.app.due nowMs with
      | false => simp
      | true =>
          cases hreading : reading rtc with
          | none => simp
          | some time =>
              obtain ⟨htime, hpos⟩ := Option.filter_eq_some_iff.mp hreading
              obtain ⟨tm, htm, rfl⟩ := Option.map_eq_some_iff.mp htime
              rw [s.app.nbService_eq hdue s.clock htm (of_decide_eq_true hpos)]
              simp only [List.forall_mem_append, List.forall_mem_singleton, Option.mem_def,
                Option.some.injEq, forall_eq', forall_const, Check.Follows]
              refine and_congr_right fun _ => ?_
              cases NbApp.skewed s.clock (timegm tm) with
              | false => cases taken <;> simp
              | true => cases taken <;> cases s.moved <;> simp

theorem followed_run_iff {s t : Pi} {es : List PiEvent} (hrun : run step s es = some t) :
    t.Followed ↔ s.Followed ∧ Throughout step Legitimate s es := by
  induction es generalizing s with
  | nil =>
      cases hrun
      exact (and_iff_left trivial).symm
  | cons e es ih =>
      cases hstep : step s e with
      | none =>
          rw [run, hstep] at hrun
          cases hrun
      | some u =>
          rw [run_cons hstep] at hrun
          rw [ih hrun, followed_step_iff hstep, throughout_cons, hstep, and_assoc]
          rfl

/-- A boot with this system clock; `moved` says whether something has set it before. -/
def boot (clock : Int) (moved : Bool) : Pi := { clock := clock, moved := moved }

/-- All checks of a run follow the policy. -/
def FollowsPolicy (s : Pi) (es : List PiEvent) : Prop := ∀ t, run step s es = some t → t.Followed

/-- The policy is followed by all checks of a run exactly when all its steps are legitimate. -/
theorem followsPolicy_iff (clock : Int) (moved : Bool) {es : List PiEvent}
    (hrun : (run step (boot clock moved) es).isSome) :
    (boot clock moved).FollowsPolicy es ↔ Throughout step Legitimate (boot clock moved) es := by
  obtain ⟨t, ht⟩ := Option.isSome_iff_exists.mp hrun
  have hnone : (boot clock moved).Followed := nofun
  have hiff : t.Followed ↔ Throughout step Legitimate (boot clock moved) es :=
    (followed_run_iff ht).trans (and_iff_right hnone)
  constructor
  · intro hall
    exact hiff.mp (hall t ht)
  · intro hall u hu
    rw [ht] at hu
    cases hu
    exact hiff.mpr hall

/-- The RTC answers with a time of the first day of 2026. -/
def newYear (hour minute second : UInt8) : Reply NbTimeWire :=
  some ⟨2026, 1, 1, hour, minute, second⟩

/-- The system clock looks set at boot, NTP sets it, and two checks find the RTC off and then
close. -/
def ntpAlone : List PiEvent :=
  [.init true (some true) (newYear 0 0 0) true, .set 1767229300,
    .service 5000 (newYear 1 0 0) true, .pass 3600, .service 3605000 (newYear 2 1 40) true]

theorem followsPolicy_ntpAlone : (boot 1767225600 false).FollowsPolicy ntpAlone :=
  (followsPolicy_iff 1767225600 false (by decide)).mpr (by decide)

/-- The clock that the file system has recorded, of June 2025, looks set at boot; nothing sets it
before the first check. -/
def staleBoot : List PiEvent :=
  [.init true (some true) (newYear 0 0 0) true, .service 5000 (newYear 0 0 5) true]

/-- The RTC takes the stale time. -/
theorem run_staleBoot : (run step (boot 1748736000 false) staleBoot).map Pi.checks =
    some [⟨false, 1748736000, 1767225605, some ⟨2025, 6, 1, 0, 0, 0⟩⟩] := by
  decide

/-- The App adopts the time of the RTC, which is 400 seconds late, and NTP sets the clock then. -/
def ntpAfterAdoption : List PiEvent :=
  [.init true (some true) (newYear 0 0 0) true, .set 1767226010,
    .service 5000 (newYear 0 0 10) true]

/-- The RTC stays late. -/
theorem run_ntpAfterAdoption : (run step (boot 0 false) ntpAfterAdoption).map Pi.checks =
    some [⟨true, 1767226010, 1767225610, none⟩] := by
  decide

/-- The App writes the RTC where nothing else has set the clock, and leaves it where something
else has. -/
theorem not_followsPolicy :
    ¬ (boot 1748736000 false).FollowsPolicy staleBoot ∧
      ¬ (boot 0 false).FollowsPolicy ntpAfterAdoption := by
  constructor
  · intro hall
    obtain ⟨t, ht, hchecks⟩ := Option.map_eq_some_iff.mp run_staleBoot
    have hfollowed := hall t ht
    rw [Followed, hchecks, List.forall_mem_singleton] at hfollowed
    exact absurd hfollowed (by decide)
  · intro hall
    obtain ⟨t, ht, hchecks⟩ := Option.map_eq_some_iff.mp run_ntpAfterAdoption
    have hfollowed := hall t ht
    rw [Followed, hchecks, List.forall_mem_singleton] at hfollowed
    exact absurd hfollowed (by decide)

end Pi

end MFoES.App
