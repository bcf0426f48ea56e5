import MFoES.Lib.Reactive
import MFoES.Northbridge.Handlers

/-!
# The clock of the board

The dispatcher's handlers and `rtc_task` share the clock chip, and an event is a message that is
handled or a transaction of `rtc_task`.  The chip counts seconds by itself, and each transaction
may fail.

Seen from outside, the clock is a register (`clock_register`): it holds the time of the last
`NB_CMD_SET_TIME` that was answered with `NB_OK`, or that of the build where it was seeded after,
counts from there, and is what each answer to `NB_CMD_GET_TIME` reads.  A refused or failed
`NB_CMD_SET_TIME` leaves it alone.
-/

namespace MFoES.Northbridge.Handlers

open Dspi Ds3231 LittleEndian Calendar

/-! ## The task of the clock -/

/-- `REG_CONTROL` and `CONTROL_EOSC`. -/
def regControl : UInt8 := 0x0e
def controlEosc : UInt8 := 0x80

/-- Where `rtc_task` is, before its next transaction. -/
inductive RtcTask where
  /-- In `ds3231_init`. -/
  | init
  | oscillator (control : UInt8)
  /-- In `ds3231_sync_to_build_time`. -/
  | lostPower
  | compare (lost : Bool)
  | seed
  /-- In its `ds3231_clear_lost_power`. -/
  | status
  | clear (status : UInt8)
  /-- In its loop. -/
  | time
  | temperature
  | deleted
deriving DecidableEq

/-- The firmware, as far as the clock goes. -/
structure Firmware where
  table : Dispatcher.Table Unit Board
  board : Board
  rtcTask : RtcTask := .init

/-- The firmware when its scheduler starts. -/
def Firmware.start (f : Failures) (stamp : BuildStamp) (board : Board) : Firmware where
  table := booted f stamp
  board := board

/-- What happens to the clock. -/
inductive Event where
  /-- The dispatcher takes a message. -/
  | receive (req : DspiMsg)
  /-- The next transaction of `rtc_task`. -/
  | rtcTask
  /-- The chip counts a second. -/
  | second
  /-- The other tasks change what the handlers read. -/
  | others (stable : Chip → UInt16) (position : Int32) (pressed : Bool) (ticks : UInt32)
      (selftestDone selftestPassed : Bool)

/-- What comes of it. -/
inductive Output where
  /-- A message is handled. -/
  | handled (req : DspiMsg) (reply : Option Dispatcher.Reply)
  /-- The clock is set to the time of the build. -/
  | seeded
  | second
deriving DecidableEq

section Steps

variable (f : Failures) (stamp : BuildStamp)

/-- A transaction of `rtc_task`: the chip, the place where the task is then, and whether the clock
was seeded. -/
def rtcStep (rtc : Bus) : RtcTask → Bus × RtcTask × Bool
  | .init =>
    match rtc.i2cReadReg f regControl 1 with
    | (.error _, rtc) => (rtc, .deleted, false)
    | (.ok control, rtc) =>
      let control := control.getD 0 0
      if control &&& controlEosc ≠ 0 then (rtc, .oscillator (control &&& ~~~controlEosc), false)
      else (rtc, .lostPower, false)
  | .oscillator control =>
    let (rc, rtc) := rtc.i2cWriteReg f regControl [control]
    (rtc, if rc < 0 then .deleted else .lostPower, false)
  | .lostPower =>
    let (rc, lost, rtc) := ds3231LostPower f rtc false
    (rtc, if rc < 0 then .time else .compare lost, false)
  | .compare lost =>
    let (rc, now, rtc) := ds3231GetTime f rtc {}
    if rc < 0 ∧ rc > ds3231ErrBadTime then (rtc, .time, false)
    else if lost ∨ rc = ds3231ErrBadTime ∨ ds3231Compare now (ds3231BuildTime stamp) < 0 then
      (rtc, .seed, false)
    else (rtc, .time, false)
  | .seed =>
    let (rc, rtc) := ds3231SetTime f rtc (ds3231BuildTime stamp)
    if rc < 0 then (rtc, .time, false) else (rtc, .status, true)
  | .status =>
    match rtc.i2cReadReg f regStatus 1 with
    | (.error _, rtc) => (rtc, .time, false)
    | (.ok status, rtc) => (rtc, .clear (status.getD 0 0 &&& ~~~statusOsf), false)
  | .clear status =>
    let (_, rtc) := rtc.i2cWriteReg f regStatus [status]
    (rtc, .time, false)
  | .time =>
    let (rc, _, rtc) := ds3231GetTime f rtc {}
    (rtc, if rc = 0 then .temperature else .time, false)
  | .temperature =>
    let (_, _, rtc) := ds3231TemperatureCenti f rtc 0
    (rtc, .time, false)
  | .deleted => (rtc, .deleted, false)

/-- `ds3231_init` is done, and did not fail. -/
def RtcTask.up : RtcTask → Bool
  | .init => false
  | .oscillator _ => false
  | .deleted => false
  | _ => true

/-- An event.  `count` is what a second makes of the registers of the chip. -/
def Firmware.react (count : (UInt8 → UInt8) → UInt8 → UInt8) (s : Firmware) :
    Event → Firmware × List Output
  | .receive req =>
    let r := s.table.dispatch s.board req
    ({ s with table := r.1.1, board := r.1.2 }, [.handled req r.2])
  | .rtcTask =>
    let r := rtcStep f stamp s.board.rtc s.rtcTask
    let board := { s.board with rtc := r.1, rtcOk := s.board.rtcOk || r.2.1.up }
    ({ s with board, rtcTask := r.2.1 }, if r.2.2 then [.seeded] else [])
  | .second =>
    let rtc := { s.board.rtc with regs := count s.board.rtc.regs }
    ({ s with board := { s.board with rtc } }, [.second])
  | .others stable position pressed ticks selftestDone selftestPassed =>
    let board := { s.board with stable, position, pressed, ticks, selftestDone, selftestPassed }
    ({ s with board }, [])

end Steps

/-! ## The register -/

/-- The time that the chip holds, in seconds. -/
def clockOf (b : Bus) : Option Int := b.held.map fun t => timegm (tmOf t)

/-- The first second of 2200, which the chip cannot hold. -/
def clockEnd : Int := timegm ⟨300, 0, 1, 0, 0, 0⟩

/-- The time that a request asks for, if the clock can hold it. -/
def requested (req : DspiMsg) : Option Int :=
  if req.len.toNat < NbTimeWire.size then none
  else
    let t := (NbTimeWire.ofBytes req.payload.toList).time
    if timeValid t then some (timegm (tmOf t)) else none

/-- The time that an answer gives. -/
def answered (data : List UInt8) : Option Int :=
  let t := (NbTimeWire.ofBytes data).time
  if data.length = NbTimeWire.size ∧ timeValid t then some (timegm (tmOf t)) else none

/-- What an output says of the clock before and after it.  A clock whose time is invalid, or the
last that it can hold, may count to anything. -/
def Allows (stamp : BuildStamp) (c : Option Int) : Output → Option Int → Prop
  | .second, c' => ∀ time ∈ c, time + 1 < clockEnd → c' = some (time + 1)
  | .seeded, c' => c' = some (timegm (tmOf (ds3231BuildTime stamp)))
  | .handled _ none, c' => c' = c
  | .handled req (some r), c' =>
      if req.type = nbCmdSetTime then
        ∃ code, r.data = [code] ∧ (code = nbErrArg ↔ requested req = none) ∧
          c' = if code = nbOk then requested req else c
      else c' = c ∧ (req.type = nbCmdGetTime → c.isSome ∧ answered r.data = c)

/-- The chip counts seconds, as long as it holds the next. -/
def Counts (count : (UInt8 → UInt8) → UInt8 → UInt8) : Prop :=
  ∀ regs, ∀ time ∈ clockOf { regs }, time + 1 < clockEnd →
    clockOf { regs := count regs } = some (time + 1)

/-! ## What a transaction does to the clock -/

variable {f : Failures} {stamp : BuildStamp} {b : Bus}

theorem clockOf_regs {b b' : Bus} (h : b'.regs = b.regs) : clockOf b' = clockOf b := by
  rw [clockOf, clockOf, Bus.held, Bus.held, Bus.read, Bus.read, h]

theorem clockOf_read (f : Failures) (b : Bus) (reg : UInt8) (len : Nat) :
    clockOf (b.i2cReadReg f reg len).2 = clockOf b := by
  refine clockOf_regs ?_
  rw [Bus.i2cReadReg]
  split <;> rfl

theorem clockOf_getTime (f : Failures) (b : Bus) (out : Ds3231Time) :
    clockOf (ds3231GetTime f b out).2.2 = clockOf b := by
  have hread := clockOf_read f b regSeconds 7
  rw [ds3231GetTime]
  split
  · next heq =>
    rw [heq] at hread
    exact hread
  · next heq =>
    rw [heq] at hread
    dsimp only
    split <;> exact hread

theorem clockOf_temperature (f : Failures) (b : Bus) (centi : Int16) :
    clockOf (ds3231TemperatureCenti f b centi).2.2 = clockOf b := by
  have hread := clockOf_read f b 0x11 2
  rw [ds3231TemperatureCenti]
  split <;> next heq => rw [heq] at hread; exact hread

/-- The control and the status are not the time. -/
theorem clockOf_write {reg : UInt8} (hreg : reg = regControl ∨ reg = regStatus) (f : Failures)
    (b : Bus) (v : UInt8) : clockOf (b.i2cWriteReg f reg [v]).2 = clockOf b := by
  cases hf : f b.transactions with
  | some e =>
      rw [i2cWriteReg_some hf]
      exact clockOf_regs rfl
  | none =>
      have hread : (b.i2cWriteReg f reg [v]).2.read regSeconds 7 = b.read regSeconds 7 := by
        rw [Bus.i2cWriteReg, hf]
        rcases hreg with rfl | rfl <;> rfl
      rw [clockOf, clockOf, Bus.held, Bus.held, hread]

/-- A time is set, refused or left. -/
theorem setTime_cases (f : Failures) (b : Bus) (t : Ds3231Time) :
    (timeValid t = false ∧ ds3231SetTime f b t = (ds3231ErrArg, b)) ∨
      (timeValid t = true ∧ (ds3231SetTime f b t).1 < 0 ∧
        (ds3231SetTime f b t).1 ≠ ds3231ErrArg ∧ clockOf (ds3231SetTime f b t).2 = clockOf b) ∨
      (timeValid t = true ∧ 0 ≤ (ds3231SetTime f b t).1 ∧
        clockOf (ds3231SetTime f b t).2 = some (timegm (tmOf t))) := by
  rw [ds3231SetTime]
  cases hvalid : timeValid t with
  | false => exact .inl ⟨rfl, rfl⟩
  | true =>
      rw [if_pos rfl]
      cases hf : f b.transactions with
      | some e =>
          have hcode := e.code_range
          rw [i2cWriteReg_some hf]
          refine .inr (.inl ⟨rfl, ?_, ?_, clockOf_regs rfl⟩)
          · show e.code < 0
            omega
          · show e.code ≠ -31
            omega
      | none =>
          refine .inr (.inr ⟨rfl, ?_, ?_⟩)
          · rw [Bus.i2cWriteReg, hf]
            exact Int.natCast_nonneg 8
          · rw [clockOf, held_i2cWriteReg hf hvalid]
            rfl

theorem clockOf_lostPower (f : Failures) (b : Bus) (lost : Bool) :
    clockOf (ds3231LostPower f b lost).2.2 = clockOf b := by
  have hread := clockOf_read f b regStatus 1
  rw [ds3231LostPower]
  split <;> next heq => rw [heq] at hread; exact hread

/-- A transaction of `rtc_task` leaves the time, or seeds it. -/
theorem clockOf_rtcStep (f : Failures) (stamp : BuildStamp) (b : Bus) (task : RtcTask) :
    ((rtcStep f stamp b task).2.2 = false ∧ clockOf (rtcStep f stamp b task).1 = clockOf b) ∨
      (task = .seed ∧ (rtcStep f stamp b task).2.2 = true ∧ clockOf (rtcStep f stamp b task).1 =
        some (timegm (tmOf (ds3231BuildTime stamp)))) := by
  cases task with
  | init =>
      have hread := clockOf_read f b regControl 1
      rw [rtcStep]
      split
      · next heq =>
        rw [heq] at hread
        exact .inl ⟨rfl, hread⟩
      · next heq =>
        rw [heq] at hread
        dsimp only
        split <;> exact .inl ⟨rfl, hread⟩
  | oscillator control => exact .inl ⟨rfl, clockOf_write (.inl rfl) f b control⟩
  | lostPower => exact .inl ⟨rfl, clockOf_lostPower f b false⟩
  | compare lost =>
      have hget := clockOf_getTime f b {}
      rw [rtcStep]
      dsimp only
      split
      · exact .inl ⟨rfl, hget⟩
      · split <;> exact .inl ⟨rfl, hget⟩
  | seed =>
      have hstep : rtcStep f stamp b .seed =
          if (ds3231SetTime f b (ds3231BuildTime stamp)).1 < 0 then
            ((ds3231SetTime f b (ds3231BuildTime stamp)).2, .time, false)
          else ((ds3231SetTime f b (ds3231BuildTime stamp)).2, .status, true) := rfl
      rw [hstep]
      rcases setTime_cases f b (ds3231BuildTime stamp) with
        ⟨-, hset⟩ | ⟨-, hneg, -, hclock⟩ | ⟨-, hnot, hclock⟩
      · rw [hset, if_pos (show ds3231ErrArg < 0 by decide)]
        exact .inl ⟨rfl, rfl⟩
      · rw [if_pos hneg]
        exact .inl ⟨rfl, hclock⟩
      · rw [if_neg (Int.not_lt.mpr hnot)]
        exact .inr ⟨rfl, rfl, hclock⟩
  | status =>
      have hread := clockOf_read f b regStatus 1
      rw [rtcStep]
      split <;> next heq => rw [heq] at hread; exact .inl ⟨rfl, hread⟩
  | clear status => exact .inl ⟨rfl, clockOf_write (.inr rfl) f b status⟩
  | time => exact .inl ⟨rfl, clockOf_getTime f b {}⟩
  | temperature => exact .inl ⟨rfl, clockOf_temperature f b 0⟩
  | deleted => exact .inl ⟨rfl, rfl⟩

/-! ## What a handler does to the clock -/

theorem data_written (l : List UInt8) (h : l.length ≤ dspiPayloadMax) : (written l).data = l := by
  have hfits : DspiReply.empty.data.length + l.length ≤ dspiPayloadMax := by
    rw [DspiReply.empty]
    exact (Nat.zero_add _).trans_le h
  rw [written, DspiReply.write, dif_pos hfits]
  exact (List.nil_append _).trans (List.take_length)

theorem length_bytes (w : NbTimeWire) : w.bytes.length = NbTimeWire.size := rfl

/-- A wire is copied as it was written. -/
theorem ofBytes_bytes (w : NbTimeWire) : NbTimeWire.ofBytes w.bytes = w := by
  have hyear : get16 w.bytes 0 = w.year := ofLE16_le16 w.year
  have htemp : get16 w.bytes 8 = w.tempCenti.toUInt16 := ofLE16_le16 w.tempCenti.toUInt16
  rw [NbTimeWire.ofBytes, hyear, htemp]
  rfl

/-- `on_set_time` answers with a code, and sets the clock exactly where that is `NB_OK`. -/
theorem onSetTime_spec (f : Failures) (req : DspiMsg) (user : Option Unit) (w : Board) :
    ∃ code, (onSetTime f req user w).1.data = [code] ∧ (code = nbErrArg ↔ requested req = none) ∧
      clockOf (onSetTime f req user w).2.rtc =
        if code = nbOk then requested req else clockOf w.rtc := by
  rw [onSetTime, requested]
  by_cases hlen : req.len.toNat < NbTimeWire.size
  · rw [if_pos hlen, if_pos hlen]
    exact ⟨nbErrArg, rfl, iff_of_true rfl rfl, rfl⟩
  · rw [if_neg hlen, if_neg hlen]
    dsimp only
    rcases setTime_cases f w.rtc (NbTimeWire.ofBytes req.payload.toList).time with
      ⟨hvalid, hset⟩ | ⟨hvalid, hneg, hne, hclock⟩ | ⟨hvalid, hnot, hclock⟩
    · rw [hset, hvalid]
      exact ⟨nbErrArg, rfl, iff_of_true rfl rfl, rfl⟩
    · rw [if_neg hne, if_pos hneg, hvalid, if_pos rfl]
      cases w.rtcOk with
      | true => exact ⟨nbErrHardware, rfl, iff_of_false (by decide) nofun, hclock⟩
      | false => exact ⟨nbErrUnsupported, rfl, iff_of_false (by decide) nofun, hclock⟩
    · have hcode : ¬ (ds3231SetTime f w.rtc (NbTimeWire.ofBytes req.payload.toList).time).1 =
          ds3231ErrArg := by
        intro heq
        rw [heq] at hnot
        exact absurd hnot (by decide)
      rw [if_neg hcode, if_neg (Int.not_lt.mpr hnot), hvalid, if_pos rfl]
      exact ⟨nbOk, rfl, iff_of_false (by decide) nofun, hclock⟩

/-- `on_get_time` leaves the clock, and what it answers is its time. -/
theorem onGetTime_spec (f : Failures) (req : DspiMsg) (user : Option Unit) (w : Board) :
    clockOf (onGetTime f req user w).2.rtc = clockOf w.rtc ∧
      (0 < (onGetTime f req user w).1.data.length → (clockOf w.rtc).isSome ∧
        answered (onGetTime f req user w).1.data = clockOf w.rtc) := by
  have hget := clockOf_getTime f w.rtc {}
  have htemp := clockOf_temperature f (ds3231GetTime f w.rtc {}).2.2 0
  rw [onGetTime]
  dsimp only
  by_cases hrc : (ds3231GetTime f w.rtc {}).1 ≠ 0
  · rw [if_pos hrc]
    exact ⟨hget, fun h => absurd h (Nat.lt_irrefl 0)⟩
  · rw [if_neg hrc]
    refine ⟨htemp.trans hget, fun _ => ?_⟩
    rw [not_not] at hrc
    cases hf : f w.rtc.transactions with
    | some e =>
        have hcode := e.code_range
        rw [ds3231GetTime_some hf] at hrc
        dsimp only at hrc
        omega
    | none =>
        rcases ds3231GetTime_none (b := w.rtc) hf with ⟨t, hheld, heq⟩ | ⟨-, out, heq⟩
        · have hclock : clockOf w.rtc = some (timegm (tmOf t)) := by rw [clockOf, hheld]; rfl
          have hvalid := timeValid_of_held (Option.mem_def.mpr hheld)
          rw [heq, hclock, data_written _ (by rw [length_bytes]; decide), answered, ofBytes_bytes]
          exact ⟨rfl, if_pos ⟨rfl, hvalid⟩⟩
        · rw [heq] at hrc
          exact absurd hrc (show ds3231ErrBadTime ≠ 0 by decide)

/-- The other handlers leave the chip alone. -/
theorem rtc_of_registered (f : Failures) (stamp : BuildStamp) {type : UInt8} (hset : type ≠ nbCmdSetTime) (hget : type ≠ nbCmdGetTime)
    (req : DspiMsg) (user : Option Unit) (w : Board) :
    ((((registrations f stamp).lookup type).getD onUnknown) req user w).2.rtc = w.rtc := by
  cases hlookup : (registrations f stamp).lookup type with
  | none => rfl
  | some fn =>
      have hmem : (type, fn) ∈ registrations f stamp := by
        obtain ⟨before, after, heq, -⟩ := List.lookup_eq_some_iff.mp hlookup
        rw [heq]
        exact List.mem_append_right before List.mem_cons_self
      simp only [registrations, List.mem_cons, Prod.mk.injEq, List.not_mem_nil, or_false] at hmem
      rw [Option.getD_some]
      rcases hmem with ⟨-, rfl⟩ | ⟨-, rfl⟩ | ⟨-, rfl⟩ | ⟨htype, -⟩ | ⟨htype, -⟩ | ⟨-, rfl⟩ | ⟨-, rfl⟩
      · rfl
      · rw [onSetLeds]
        split <;> rfl
      · rfl
      · exact absurd htype hget
      · exact absurd htype hset
      · rfl
      · rfl

/-! ## The clock is a register -/

/-- The dispatcher has the handlers that `main` registers. -/
def Firmware.Booted (f : Failures) (stamp : BuildStamp) (s : Firmware) : Prop :=
  ∀ type, s.table.binding type = (booted f stamp).binding type

/-- A message is dropped, or goes to its handler. -/
theorem dispatch_booted {s : Firmware} (hs : s.Booted f stamp) (req : DspiMsg) :
    (∀ type, (s.table.dispatch s.board req).1.1.binding type = s.table.binding type) ∧
      (s.table.dispatch s.board req = ((s.table, s.board), none) ∨
        ∃ r, r = (((registrations f stamp).lookup req.type).getD onUnknown) req none s.board ∧
          (s.table.dispatch s.board req).1.2 = r.2 ∧
            (s.table.dispatch s.board req).2 = Dispatcher.replyOf req.type r.1) := by
  have hbinding := hs req.type
  rw [binding_booted] at hbinding
  rw [Dispatcher.Table.dispatch]
  split
  · exact ⟨fun _ => rfl, .inl rfl⟩
  · rw [hbinding]
    exact ⟨fun _ => rfl, .inr ⟨_, rfl, rfl, rfl⟩⟩

theorem Firmware.Booted.react {count : (UInt8 → UInt8) → UInt8 → UInt8} {s : Firmware}
    (hs : s.Booted f stamp) (e : Event) : (s.react f stamp count e).1.Booted f stamp := by
  cases e with
  | receive req => exact fun type => ((dispatch_booted hs req).1 type).trans (hs type)
  | rtcTask => exact hs
  | second => exact hs
  | others _ _ _ _ _ _ => exact hs

/-- What a message does to the clock. -/
theorem allows_handled {s : Firmware} (hs : s.Booted f stamp) (req : DspiMsg) :
    Allows stamp (clockOf s.board.rtc) (.handled req (s.table.dispatch s.board req).2)
      (clockOf (s.table.dispatch s.board req).1.2.rtc) := by
  rcases (dispatch_booted hs req).2 with heq | ⟨r, hr, hboard, hreply⟩
  · rw [heq]
    exact rfl
  · rw [hboard, hreply, Dispatcher.replyOf]
    by_cases hset : req.type = nbCmdSetTime
    · have hfn : ((registrations f stamp).lookup req.type).getD onUnknown = onSetTime f := by
        rw [hset]
        rfl
      rw [hfn] at hr
      obtain ⟨code, hdata, hcode, hclock⟩ := onSetTime_spec f req none s.board
      rw [hr, hdata, if_pos (show 0 < [code].length from Nat.one_pos), Allows, if_pos hset]
      exact ⟨code, rfl, hcode, hclock⟩
    · by_cases hget : req.type = nbCmdGetTime
      · have hfn : ((registrations f stamp).lookup req.type).getD onUnknown = onGetTime f := by
          rw [hget]
          rfl
        rw [hfn] at hr
        obtain ⟨hclock, hanswer⟩ := onGetTime_spec f req none s.board
        rw [hr]
        split
        · next hlen =>
          rw [Allows, if_neg hset]
          exact ⟨hclock, fun _ => hanswer hlen⟩
        · exact hclock
      · have hrtc := rtc_of_registered f stamp hset hget req none s.board
        rw [← hr] at hrtc
        rw [hrtc]
        split
        · rw [Allows, if_neg hset]
          exact ⟨rfl, fun h => absurd h hget⟩
        · exact rfl

/-- An event does to the clock what its outputs say. -/
theorem trace_react {count : (UInt8 → UInt8) → UInt8 → UInt8} (hcount : Counts count) {s : Firmware}
    (hs : s.Booted f stamp) (e : Event) :
    Reactive.Trace (Allows stamp) (clockOf s.board.rtc) (s.react f stamp count e).2
      (clockOf (s.react f stamp count e).1.board.rtc) := by
  cases e with
  | receive req => exact .single (allows_handled hs req)
  | rtcTask =>
      rw [Firmware.react]
      dsimp only
      rcases clockOf_rtcStep f stamp s.board.rtc s.rtcTask with ⟨hno, hclock⟩ | ⟨-, hyes, hclock⟩
      · rw [hno, hclock]
        exact .nil
      · rw [hyes, hclock]
        exact .single rfl
  | second => exact .single fun time htime hend => hcount s.board.rtc.regs time htime hend
  | others _ _ _ _ _ _ => exact .nil

/-! ### A chip that counts -/

/-- The fields of a time. -/
def ofTm (t : Tm) : Ds3231Time where
  year := .ofNat (t.year + 1900).toNat
  month := .ofNat (t.mon + 1).toNat
  day := .ofNat t.mday.toNat
  hour := .ofNat t.hour.toNat
  minute := .ofNat t.min.toNat
  second := .ofNat t.sec.toNat

theorem tmOf_ofTm {t : Tm} (h : t.Valid) (hlow : 2000 ≤ t.year + 1900)
    (hhigh : t.year + 1900 ≤ 2199) : tmOf (ofTm t) = t := by
  have hlength := (monthLength_bounds (t.year + 1900) t.mon).2
  obtain ⟨hmon, hmday, hhour, hmin, hsec⟩ := h
  have hbyte : ∀ x : Int, x < 256 → (UInt8.ofNat x.toNat).toNat = x.toNat := by
    intro x hx
    exact UInt8.toNat_ofNat_of_lt' (show x.toNat < 256 by omega)
  have hyear : (UInt16.ofNat (t.year + 1900).toNat).toNat = (t.year + 1900).toNat :=
    UInt16.toNat_ofNat_of_lt' (show (t.year + 1900).toNat < 65536 by omega)
  obtain ⟨year, mon, mday, hour, min, sec⟩ := t
  dsimp only at *
  simp only [tmOf, ofTm, hyear, hbyte (mon + 1) (by omega), hbyte mday (by omega),
    hbyte hour (by omega), hbyte min (by omega), hbyte sec (by omega), Tm.mk.injEq]
  omega

/-- The years that the clock holds, in seconds. -/
theorem year_of_second {t : Tm} {time : Int} (ht : t.Valid) (hyear : 2000 ≤ t.year + 1900)
    (hlow : timegm t ≤ time) (hend : time < clockEnd) :
    2000 ≤ (gmtime time).year + 1900 ∧ (gmtime time).year + 1900 ≤ 2199 := by
  have hvalid := valid_gmtime time
  have hmon := hvalid.mon
  have hmon' := ht.mon
  constructor
  · by_contra hnot
    have hlt := timegm_lt_of_month hvalid ht (by rw [Tm.month, Tm.month]; omega)
    rw [timegm_gmtime] at hlt
    omega
  · by_contra hnot
    have hlast : (⟨299, 11, 31, 23, 59, 59⟩ : Tm).Valid := by
      constructor <;> decide
    have hlt := timegm_lt_of_month hlast hvalid (by rw [Tm.month, Tm.month]; dsimp only; omega)
    rw [timegm_gmtime] at hlt
    have hnext : timegm ⟨299, 11, 31, 23, 59, 59⟩ + 1 = clockEnd := by decide
    omega

/-- The registers a second later, where they hold a time. -/
def countSecond (regs : UInt8 → UInt8) : UInt8 → UInt8 :=
  match Bus.held { regs } with
  | none => regs
  | some t =>
    let next := ofTm (gmtime (timegm (tmOf t) + 1))
    (Bus.i2cWriteReg (fun _ => none) { regs } regSeconds (encodeTime next)).2.regs

theorem counts_countSecond : Counts countSecond := by
  intro regs time htime hend
  obtain ⟨t, hheld, rfl⟩ := Option.map_eq_some_iff.mp htime
  have hvalid := (timeValid_iff t).mp (timeValid_of_held (Option.mem_def.mpr hheld))
  have hyear : (2000 : Int) ≤ (tmOf t).year + 1900 := by
    have hlow := UInt16.le_iff_toNat_le.mp hvalid.1.1
    rw [tmOf]
    dsimp only
    have hword : (2000 : UInt16).toNat = 2000 := rfl
    omega
  obtain ⟨hlow, hhigh⟩ := year_of_second hvalid.2 hyear (show timegm (tmOf t) ≤ timegm (tmOf t) + 1
    by omega) hend
  have htm := tmOf_ofTm (valid_gmtime (timegm (tmOf t) + 1)) hlow hhigh
  have hnext : timeValid (ofTm (gmtime (timegm (tmOf t) + 1))) = true := by
    rw [timeValid_iff, htm]
    refine ⟨?_, valid_gmtime _⟩
    have hyears : ((ofTm (gmtime (timegm (tmOf t) + 1))).year.toNat : Int) - 1900 =
        (gmtime (timegm (tmOf t) + 1)).year := congrArg Tm.year htm
    simp only [UInt16.le_iff_toNat_le]
    have hfirst : (2000 : UInt16).toNat = 2000 := rfl
    have hlast : (2199 : UInt16).toNat = 2199 := rfl
    omega
  have hcount : clockOf { regs := countSecond regs } = clockOf (Bus.i2cWriteReg (fun _ => none)
      { regs } regSeconds (encodeTime (ofTm (gmtime (timegm (tmOf t) + 1))))).2 := by
    refine clockOf_regs ?_
    rw [countSecond, hheld]
  rw [hcount, clockOf, held_i2cWriteReg rfl hnext, Option.map_some]
  exact congrArg some ((congrArg timegm htm).trans (timegm_gmtime _))

/-- In every run from the start of the scheduler, the clock is a register that the accepted
`NB_CMD_SET_TIME`s, the seeding and the seconds write, and that `NB_CMD_GET_TIME` reads. -/
theorem clock_register {count : (UInt8 → UInt8) → UInt8 → UInt8} (hcount : Counts count)
    (f : Failures) (stamp : BuildStamp) (board : Board) (es : List Event) :
    Reactive.Trace (Allows stamp) (clockOf board.rtc)
      (Reactive.run (Firmware.react f stamp count) (Firmware.start f stamp board) es).2
      (clockOf (Reactive.run (Firmware.react f stamp count)
        (Firmware.start f stamp board) es).1.board.rtc) :=
  (Reactive.run_trace (I := Firmware.Booted f stamp)
    (fun e hs => ⟨hs.react e, trace_react hcount hs e⟩)
    (show (Firmware.start f stamp board).Booted f stamp from fun _ => rfl) es).2

/-- The last second before a leap day is set, and read a second later. -/
def leapDay : List Event :=
  [.receive (msgOf nbCmdSetTime
      { year := 2028, month := 2, day := 28, hour := 23, minute := 59, second := 59 :
        NbTimeWire }.bytes 10 0),
    .second, .receive (msgOf nbCmdGetTime [] 0 0)]

/-- A firmware whose transactions succeed, with a chip whose registers are all 0. -/
def fresh : Firmware :=
  .start (fun _ => none) ⟨2026, 1, 1, 12, 0, 0⟩ { rtc := blank }

/-- Its reactions. -/
def freshReact : Firmware → Event → Firmware × List Output :=
  Firmware.react (fun _ => none) ⟨2026, 1, 1, 12, 0, 0⟩ countSecond

theorem clock_register_leapDay :
    Reactive.Trace (Allows ⟨2026, 1, 1, 12, 0, 0⟩) (clockOf blank)
        (Reactive.run freshReact fresh leapDay).2
        (clockOf (Reactive.run freshReact fresh leapDay).1.board.rtc) ∧
      clockOf (Reactive.run freshReact fresh leapDay).1.board.rtc = some 1835395200 := by
  constructor
  · exact clock_register counts_countSecond (fun _ => none) ⟨2026, 1, 1, 12, 0, 0⟩ { rtc := blank }
      leapDay
  · decide

end MFoES.Northbridge.Handlers
