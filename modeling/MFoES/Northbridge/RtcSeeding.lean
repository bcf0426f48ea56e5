import MFoES.Northbridge.Ds3231

/-!
# Seeding the clock

`ds3231_sync_to_build_time` writes the time of the build to a clock that cannot be trusted.  What
it returns is true but in one case: it does not look at what came of clearing the flag of the
stopped oscillator, and returns 1 with the flag still set.  The next boot then takes the clock for
one that stopped, and writes the time of the build again.
-/

namespace MFoES.Northbridge.Ds3231

open Calendar LittleEndian

/-- `BuildStamp`. -/
structure BuildStamp where
  year : UInt16
  month : UInt8
  day : UInt8
  hour : UInt8
  minute : UInt8
  second : UInt8
deriving DecidableEq

/-- `ds3231_build_time`. -/
def ds3231BuildTime (stamp : BuildStamp) : Ds3231Time where
  year := stamp.year
  month := stamp.month
  day := stamp.day
  hour := stamp.hour
  minute := stamp.minute
  second := stamp.second
  weekday := ds3231Weekday stamp.year stamp.month stamp.day

/-- `ds3231_sync_to_build_time`. -/
def ds3231SyncToBuildTime (f : Failures) (stamp : BuildStamp) (b : Bus) (force : Bool) :
    Int × Bus :=
  let reference := ds3231BuildTime stamp
  if force then
    let (rc, b) := ds3231SetTime f b reference
    if rc < 0 then (rc, b)
    else
      let (_, b) := ds3231ClearLostPower f b
      (1, b)
  else
    let (rc, lost, b) := ds3231LostPower f b false
    if rc < 0 then (rc, b)
    else
      let (readRc, now, b) := ds3231GetTime f b {}
      if readRc < 0 ∧ readRc > ds3231ErrBadTime then (readRc, b)
      else if ¬ (lost ∨ readRc = ds3231ErrBadTime ∨ ds3231Compare now reference < 0) then (0, b)
      else
        let (rc, b) := ds3231SetTime f b reference
        if rc < 0 then (rc, b)
        else
          let (_, b) := ds3231ClearLostPower f b
          (1, b)

/-! ## What the chip holds -/

namespace Bus

/-- The oscillator stop flag. -/
def osf (b : Bus) : Bool := b.regs regStatus &&& statusOsf != 0

/-- The time in the registers, if they hold one. -/
def held (b : Bus) : Option Ds3231Time :=
  let t := decodeTime (b.read regSeconds 7) {}
  if timeValid t then some { t with weekday := ds3231Weekday t.year t.month t.day } else none

end Bus

/-- A time is not earlier than the reference: the driver's comparison and, where the reference is a
time, the calendar say so. -/
def NotEarlier (reference t : Ds3231Time) : Prop :=
  0 ≤ ds3231Compare t reference ∧
    (timeValid reference = true → timegm (tmOf reference) ≤ timegm (tmOf t))

/-- What a result says of the chip.  0: it was not written, holds a time that is not earlier than
the reference, and has not lost power.  1: it holds the reference, and its flag is clear.  Below 0:
its time is as before. -/
structure Truthful (reference : Ds3231Time) (b : Bus) (result : Int × Bus) : Prop where
  kept : result.1 = 0 → result.2.written = b.written ∧ result.2.regs = b.regs ∧
    result.2.osf = false ∧ ∃ t ∈ result.2.held, NotEarlier reference t
  written : result.1 = 1 → result.2.held = some reference ∧ result.2.osf = false
  failed : result.1 < 0 → result.2.read regSeconds 7 = b.read regSeconds 7

/-- A set flag is cleared where the clock is seeded: once the status and the time are read and a
valid reference is written, the two transactions that clear the flag succeed. -/
def Clears (f : Failures) (reference : Ds3231Time) (b : Bus) : Prop :=
  b.osf = true → timeValid reference = true → f b.transactions = none →
    f (b.transactions + 1) = none → f (b.transactions + 2) = none →
      f (b.transactions + 3) = none ∧ f (b.transactions + 4) = none

/-! ## The steps -/

variable {f : Failures} {b : Bus}

/-- A transaction that leaves the chip alone. -/
def Bus.tick (b : Bus) : Bus := { b with transactions := b.transactions + 1 }

theorem ds3231LostPower_none (hf : f b.transactions = none) (lost : Bool) :
    ds3231LostPower f b lost = (0, b.osf, b.tick) := by
  rw [ds3231LostPower, i2cReadReg_none hf]
  rfl

theorem ds3231LostPower_some {e : I2cError} (hf : f b.transactions = some e) (lost : Bool) :
    ds3231LostPower f b lost = (e.code, lost, b.tick) := by
  rw [ds3231LostPower, i2cReadReg_some hf]
  rfl

theorem ds3231GetTime_some {e : I2cError} (hf : f b.transactions = some e) (out : Ds3231Time) :
    ds3231GetTime f b out = (e.code, out, b.tick) := by
  rw [ds3231GetTime, i2cReadReg_some hf]
  rfl

theorem ds3231GetTime_none (hf : f b.transactions = none) :
    (∃ t, b.held = some t ∧ ds3231GetTime f b {} = (0, t, b.tick)) ∨
      (b.held = none ∧ ∃ out, ds3231GetTime f b {} = (ds3231ErrBadTime, out, b.tick)) := by
  rw [ds3231GetTime, i2cReadReg_none hf, Bus.held]
  dsimp only
  split
  · exact .inl ⟨_, rfl, rfl⟩
  · exact .inr ⟨rfl, _, rfl⟩

theorem i2cWriteReg_some {e : I2cError} (hf : f b.transactions = some e) (reg : UInt8)
    (src : List UInt8) : b.i2cWriteReg f reg src = (e.code, b.tick) := by
  rw [Bus.i2cWriteReg, hf]
  rfl

/-- A time that is written is held. -/
theorem held_i2cWriteReg (hf : f b.transactions = none) {t : Ds3231Time} (ht : timeValid t = true) :
    (b.i2cWriteReg f regSeconds (encodeTime t)).2.held =
      some { t with weekday := ds3231Weekday t.year t.month t.day } := by
  have hlength : (encodeTime t).length = 7 := rfl
  have hread := read_i2cWriteReg hf regSeconds (show (encodeTime t).length ≤ 256 by omega)
  rw [hlength] at hread
  rw [Bus.held, hread, decodeTime_encodeTime ht]
  exact if_pos ht

/-- The seven registers of the time are not the status. -/
theorem osf_i2cWriteReg (hf : f b.transactions = none) (t : Ds3231Time) :
    (b.i2cWriteReg f regSeconds (encodeTime t)).2.osf = b.osf := by
  rw [Bus.i2cWriteReg, hf]
  rfl

theorem held_clear (hf : f b.transactions = none) (status : UInt8) :
    (b.i2cWriteReg f regStatus [status]).2.held = b.held := by
  have hread : (b.i2cWriteReg f regStatus [status]).2.read regSeconds 7 = b.read regSeconds 7 := by
    rw [Bus.i2cWriteReg, hf]
    rfl
  rw [Bus.held, hread]
  rfl

theorem osf_clear (hf : f b.transactions = none) (status : UInt8) :
    (b.i2cWriteReg f regStatus [status &&& ~~~statusOsf]).2.osf = false := by
  have hclear : ∀ status : UInt8, (status &&& ~~~statusOsf &&& statusOsf != 0) = false :=
    forall_uint8 (by decide +kernel)
  rw [Bus.i2cWriteReg, hf]
  exact hclear status

/-- The flag is cleared where both transactions succeed, and otherwise stays. -/
theorem ds3231ClearLostPower_spec (f : Failures) (b : Bus) :
    (ds3231ClearLostPower f b).2.held = b.held ∧
      ((ds3231ClearLostPower f b).2.osf = false ↔
        b.osf = true → f b.transactions = none ∧ f (b.transactions + 1) = none) := by
  rw [ds3231ClearLostPower]
  cases hread : f b.transactions with
  | some e =>
      rw [i2cReadReg_some hread]
      exact ⟨rfl, by simp [Bus.osf]⟩
  | none =>
      rw [i2cReadReg_none hread]
      dsimp only
      cases hwrite : f (b.transactions + 1) with
      | some e =>
          rw [i2cWriteReg_some hwrite]
          exact ⟨rfl, by simp [Bus.osf, Bus.tick]⟩
      | none =>
          rw [held_clear hwrite, osf_clear hwrite]
          exact ⟨rfl, by simp⟩

/-! ## The result -/

theorem timeValid_of_held {t : Ds3231Time} (h : t ∈ b.held) : timeValid t = true := by
  rw [Bus.held] at h
  split at h
  · next hvalid =>
    cases h
    exact hvalid
  · cases h

theorem notEarlier_of_compare {reference t : Ds3231Time} (ht : t ∈ b.held)
    (h : 0 ≤ ds3231Compare t reference) : NotEarlier reference t := by
  refine ⟨h, fun hvalid => Int.not_lt.mp fun hlt => ?_⟩
  have hneg := (ds3231Compare_neg ((timeValid_iff t).mp (timeValid_of_held ht)).2
    ((timeValid_iff reference).mp hvalid).2).mpr hlt
  omega

/-- What comes of the reads, where both succeed. -/
theorem sync_of_reads (stamp : BuildStamp) (hstatus : f b.transactions = none)
    (htime : f (b.transactions + 1) = none) :
    (∃ t ∈ b.held, b.osf = false ∧ 0 ≤ ds3231Compare t (ds3231BuildTime stamp) ∧
        ds3231SyncToBuildTime f stamp b false = (0, b.tick.tick)) ∨
      ds3231SyncToBuildTime f stamp b false =
        if (ds3231SetTime f b.tick.tick (ds3231BuildTime stamp)).1 < 0 then
          ds3231SetTime f b.tick.tick (ds3231BuildTime stamp)
        else
          (1, (ds3231ClearLostPower f
            (ds3231SetTime f b.tick.tick (ds3231BuildTime stamp)).2).2) := by
  rw [ds3231SyncToBuildTime, if_neg Bool.false_ne_true, ds3231LostPower_none hstatus]
  dsimp only
  rw [if_neg (Int.lt_irrefl 0)]
  rcases ds3231GetTime_none (b := b.tick) htime with ⟨t, hheld, hget⟩ | ⟨hheld, out, hget⟩
  · rw [hget]
    dsimp only
    rw [if_neg fun h => Int.lt_irrefl 0 h.1]
    split
    · next hkept =>
      rw [not_or, not_or, Bool.not_eq_true, Int.not_lt] at hkept
      exact .inl ⟨t, hheld, hkept.1, hkept.2.2, rfl⟩
    · exact .inr rfl
  · rw [hget]
    dsimp only
    rw [if_neg fun h => Int.lt_irrefl ds3231ErrBadTime h.2, if_neg fun h => h (.inr (.inl rfl))]
    exact .inr rfl

/-- A negative result that left the registers alone is true. -/
theorem Truthful.of_failed {reference : Ds3231Time} {rc : Int} {b' : Bus} (hrc : rc < 0)
    (hregs : b'.regs = b.regs) : Truthful reference b (rc, b') where
  kept := fun h => by
    dsimp only at h
    omega
  written := fun h => by
    dsimp only at h
    omega
  failed := fun _ => by rw [Bus.read, Bus.read, hregs]

/-- Where the clock is seeded, the result is true if the flag is clear in the end. -/
theorem truthful_seeded {stamp : BuildStamp} (hstatus : f b.transactions = none)
    (htime : f (b.transactions + 1) = none) :
    Truthful (ds3231BuildTime stamp) b
        (if (ds3231SetTime f b.tick.tick (ds3231BuildTime stamp)).1 < 0 then
          ds3231SetTime f b.tick.tick (ds3231BuildTime stamp)
        else
          (1, (ds3231ClearLostPower f
            (ds3231SetTime f b.tick.tick (ds3231BuildTime stamp)).2).2)) ↔
      Clears f (ds3231BuildTime stamp) b := by
  rw [ds3231SetTime]
  cases hvalid : timeValid (ds3231BuildTime stamp) with
  | false =>
      rw [if_neg Bool.false_ne_true, if_pos (show ds3231ErrArg < 0 by decide)]
      refine iff_of_true (.of_failed (by decide) rfl) fun _ h => ?_
      rw [hvalid] at h
      cases h
  | true =>
      rw [if_pos rfl]
      cases hwrite : f (b.transactions + 2) with
      | some e =>
          have hcode := e.code_range
          rw [i2cWriteReg_some (b := b.tick.tick) hwrite, if_pos (show e.code < 0 by omega)]
          refine iff_of_true (.of_failed (by omega) rfl) fun _ _ _ _ h => ?_
          rw [hwrite] at h
          cases h
      | none =>
          have hlength : ¬ (b.tick.tick.i2cWriteReg f regSeconds
              (encodeTime (ds3231BuildTime stamp))).1 < 0 := by
            rw [Bus.i2cWriteReg, show f b.tick.tick.transactions = none from hwrite]
            exact Int.not_lt.mpr (Int.natCast_nonneg 8)
          obtain ⟨hheld, hosf⟩ := ds3231ClearLostPower_spec f
            (b.tick.tick.i2cWriteReg f regSeconds (encodeTime (ds3231BuildTime stamp))).2
          rw [if_neg hlength]
          rw [held_i2cWriteReg (b := b.tick.tick) hwrite hvalid] at hheld
          have hcount : (b.tick.tick.i2cWriteReg f regSeconds
              (encodeTime (ds3231BuildTime stamp))).2.transactions = b.transactions + 3 := by
            rw [Bus.i2cWriteReg, show f b.tick.tick.transactions = none from hwrite]
            rfl
          rw [osf_i2cWriteReg (b := b.tick.tick) hwrite, hcount] at hosf
          constructor
          · intro h hset _ _ _ _
            exact hosf.mp (h.written rfl).2 hset
          · intro h
            refine ⟨fun hrc => ?_, fun _ => ⟨hheld, ?_⟩, fun hrc => ?_⟩
            · exact absurd hrc (show (1 : Int) ≠ 0 by decide)
            · exact hosf.mpr fun hset => h hset hvalid hstatus htime hwrite
            · exact absurd hrc (show ¬ (1 : Int) < 0 by decide)

/-- The result is true exactly where a set flag is cleared. -/
theorem truthful_iff_clears (f : Failures) (stamp : BuildStamp) (b : Bus) :
    Truthful (ds3231BuildTime stamp) b (ds3231SyncToBuildTime f stamp b false) ↔
      Clears f (ds3231BuildTime stamp) b := by
  cases hstatus : f b.transactions with
  | some e =>
      have hcode := e.code_range
      rw [ds3231SyncToBuildTime, if_neg Bool.false_ne_true, ds3231LostPower_some hstatus]
      dsimp only
      rw [if_pos (show e.code < 0 by omega)]
      refine iff_of_true (.of_failed (by omega) rfl) fun _ _ h => ?_
      rw [hstatus] at h
      cases h
  | none =>
      cases htime : f (b.transactions + 1) with
      | some e =>
          have hcode := e.code_range
          rw [ds3231SyncToBuildTime, if_neg Bool.false_ne_true, ds3231LostPower_none hstatus]
          dsimp only
          rw [if_neg (Int.lt_irrefl 0), ds3231GetTime_some (b := b.tick) htime]
          dsimp only
          rw [if_pos ⟨by omega, by rw [ds3231ErrBadTime]; omega⟩]
          refine iff_of_true (.of_failed (by omega) rfl) fun _ _ _ h => ?_
          rw [htime] at h
          cases h
      | none =>
          rcases sync_of_reads stamp hstatus htime with
            ⟨t, ht, hosf, hcompare, hsync⟩ | hsync
          · rw [hsync]
            refine iff_of_true ⟨fun _ => ⟨rfl, rfl, hosf, t, ht, notEarlier_of_compare ht hcompare⟩,
              fun h => ?_, fun h => ?_⟩ fun h => ?_
            · exact absurd h (show (0 : Int) ≠ 1 by decide)
            · exact absurd h (Int.lt_irrefl 0)
            · rw [hosf] at h
              cases h
          · rw [hsync]
            exact truthful_seeded hstatus htime

/-- A chip that lost power, and the transactions of which the last fails. -/
def stopped : Bus := { regs := fun a => if a = regStatus then statusOsf else 0 }

/-- The time is written and the write of the status is not acknowledged: the result is 1 with the
flag still set. -/
theorem not_truthful_stopped :
    (ds3231SyncToBuildTime (fun n => if n = 4 then some .nack else none)
        ⟨2026, 1, 1, 12, 0, 0⟩ stopped false).1 = 1 ∧
      (ds3231SyncToBuildTime (fun n => if n = 4 then some .nack else none)
        ⟨2026, 1, 1, 12, 0, 0⟩ stopped false).2.osf = true ∧
      ¬ Truthful (ds3231BuildTime ⟨2026, 1, 1, 12, 0, 0⟩) stopped
        (ds3231SyncToBuildTime (fun n => if n = 4 then some .nack else none)
          ⟨2026, 1, 1, 12, 0, 0⟩ stopped false) := by
  have hrun : (ds3231SyncToBuildTime (fun n => if n = 4 then some .nack else none)
        ⟨2026, 1, 1, 12, 0, 0⟩ stopped false).1 = 1 ∧
      (ds3231SyncToBuildTime (fun n => if n = 4 then some .nack else none)
        ⟨2026, 1, 1, 12, 0, 0⟩ stopped false).2.osf = true := by
    decide
  refine ⟨hrun.1, hrun.2, fun h => ?_⟩
  have hclear := (h.written hrun.1).2
  rw [hrun.2] at hclear
  cases hclear

end MFoES.Northbridge.Ds3231
