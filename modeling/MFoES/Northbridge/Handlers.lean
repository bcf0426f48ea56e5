import MFoES.Northbridge.Dispatcher
import MFoES.Northbridge.Pcf8575
import MFoES.Northbridge.RtcSeeding

/-!
# The handlers of the firmware

The host asks for the state of the panel, the encoder, the clock and the board, and sets the LEDs
and the clock.  The structures on the wire are packed and little-endian, and the firmware and the
host have them from one header.

A handler runs as a whole.  `on_get_time` reads the clock in one transaction and the temperature in
another; nothing that it answers depends on what happens between the two.
-/

namespace MFoES.Northbridge.Handlers

open Dspi Ds3231 LittleEndian

/-! ## The protocol -/

/-- `NB_PROTO_VERSION` and `NB_FW_VERSION_MAJOR`, `NB_FW_VERSION_MINOR`, `NB_FW_VERSION_PATCH`. -/
def nbProtoVersion : UInt8 := 2
def nbFwVersionMajor : UInt8 := 0
def nbFwVersionMinor : UInt8 := 3
def nbFwVersionPatch : UInt8 := 0

/-- `NB_CMD_PING`, `NB_CMD_SET_LEDS` and so on. -/
def nbCmdPing : UInt8 := 0x01
def nbCmdSetLeds : UInt8 := 0x11
def nbCmdGetPanel : UInt8 := 0x12
def nbCmdGetTime : UInt8 := 0x13
def nbCmdSetTime : UInt8 := 0x14
def nbCmdGetInfo : UInt8 := 0x15
def nbCmdGetEnc : UInt8 := 0x17

/-- `NB_FEAT_RTC`, `NB_FEAT_PANEL`, `NB_FEAT_ENCODER` and `NB_FEAT_POST_OK`. -/
def nbFeatRtc : UInt8 := 0x01
def nbFeatPanel : UInt8 := 0x02
def nbFeatEncoder : UInt8 := 0x04
def nbFeatPostOk : UInt8 := 0x08

/-- `NB_OK`, `NB_ERR_UNSUPPORTED`, `NB_ERR_ARG` and `NB_ERR_HARDWARE`. -/
def nbOk : UInt8 := 0
def nbErrUnsupported : UInt8 := 1
def nbErrArg : UInt8 := 2
def nbErrHardware : UInt8 := 3

/-- `NbTimeWire`. -/
structure NbTimeWire where
  year : UInt16 := 0
  month : UInt8 := 0
  day : UInt8 := 0
  hour : UInt8 := 0
  minute : UInt8 := 0
  second : UInt8 := 0
  weekday : UInt8 := 0
  tempCenti : Int16 := 0
deriving DecidableEq

/-- `sizeof(NbTimeWire)`. -/
def NbTimeWire.size : Nat := 10

/-- The bytes of an `NbTimeWire`. -/
def NbTimeWire.bytes (w : NbTimeWire) : List UInt8 :=
  le16 w.year ++ [w.month, w.day, w.hour, w.minute, w.second, w.weekday] ++
    le16 w.tempCenti.toUInt16

/-- The `NbTimeWire` that is copied from a payload. -/
def NbTimeWire.ofBytes (l : List UInt8) : NbTimeWire where
  year := get16 l 0
  month := l.getD 2 0
  day := l.getD 3 0
  hour := l.getD 4 0
  minute := l.getD 5 0
  second := l.getD 6 0
  weekday := l.getD 7 0
  tempCenti := (get16 l 8).toInt16

/-- `NbPanelWire`. -/
structure NbPanelWire where
  buttons : UInt32
  toggles : UInt8
  leds : UInt8

/-- The bytes of an `NbPanelWire`. -/
def NbPanelWire.bytes (w : NbPanelWire) : List UInt8 := le32 w.buttons ++ [w.toggles, w.leds]

/-- `NbEncoderWire`. -/
structure NbEncoderWire where
  position : Int32
  delta : Int8
  pressed : UInt8
  flags : UInt8

/-- The bytes of an `NbEncoderWire`. -/
def NbEncoderWire.bytes (w : NbEncoderWire) : List UInt8 :=
  le32 w.position.toUInt32 ++ [w.delta.toUInt8, w.pressed, w.flags]

/-- `NbInfoWire`, with the bytes of `board_id`. -/
structure NbInfoWire where
  protoVersion : UInt8
  fwMajor : UInt8
  fwMinor : UInt8
  fwPatch : UInt8
  build : BuildStamp
  uptimeS : UInt32
  boardId : Vector UInt8 8
  features : UInt8

/-- The bytes of an `NbInfoWire`. -/
def NbInfoWire.bytes (w : NbInfoWire) : List UInt8 :=
  [w.protoVersion, w.fwMajor, w.fwMinor, w.fwPatch] ++ le16 w.build.year ++
    [w.build.month, w.build.day, w.build.hour, w.build.minute, w.build.second] ++ le32 w.uptimeS ++
      w.boardId.toList ++ [w.features]

/-! ## The board -/

/-- What the handlers read and write. -/
structure Board where
  rtc : Bus
  rtcOk : Bool := false
  panelOk : Bool := true
  encoderOk : Bool := true
  ledState : UInt16 := 0
  /-- The words that `on_set_leds` has written to the expander. -/
  ledWords : List UInt16 := []
  /-- The debounced words of the expanders. -/
  stable : Chip → UInt16 := fun _ => 0xffff
  position : Int32 := 0
  pressed : Bool := false
  selftestDone : Bool := false
  selftestPassed : Bool := false
  /-- `xTaskGetTickCount()`. -/
  ticks : UInt32 := 0
  boardId : Vector UInt8 8 := Vector.replicate 8 0

/-- `DspiCommandFn`, on the board. -/
abbrev Handler := Dispatcher.CommandFn Unit Board

/-- The reply that a handler writes to its buffer. -/
def written (l : List UInt8) : DspiReply := (DspiReply.empty.write l l.length).2

section Handlers

variable (f : Failures)

/-- `ds3231_temperature_centi`, with what `centi` holds afterwards. -/
def ds3231TemperatureCenti (b : Bus) (centi : Int16) : Int × Int16 × Bus :=
  match b.i2cReadReg f 0x11 2 with
  | (.error e, b) => (e.code, centi, b)
  | (.ok raw, b) =>
    let whole : Int16 := (raw.getD 0 0).toInt8.toInt16
    let quarters : UInt8 := raw.getD 1 0 >>> 6
    (0, whole * 100 + quarters.toUInt16.toInt16 * 25, b)

/-- `on_ping`. -/
def onPing : Handler := fun req _ w => (Dspi.onPing req w, w)

/-- `on_set_leds`. -/
def onSetLeds : Handler := fun req _ w =>
  if 1 ≤ req.len.toNat then
    let ledState := ledNibble (req.payload.toList.getD 0 0)
    let ledWords :=
      if w.selftestDone then w.ledWords ++ [ledStateWord ledState] else w.ledWords
    (.empty, { w with ledState, ledWords })
  else (.empty, w)

/-- `on_get_panel`. -/
def onGetPanel : Handler := fun _ _ w =>
  let panel : NbPanelWire :=
    ⟨pcf8575Buttons w.stable, (pcf8575Toggles w.stable).toUInt8, w.ledState.toUInt8⟩
  (written panel.bytes, w)

/-- `on_get_encoder`. -/
def onGetEncoder : Handler := fun _ _ w =>
  let wire : NbEncoderWire := ⟨w.position, 0, if w.pressed then 1 else 0, 0⟩
  (written wire.bytes, w)

/-- `on_get_time`. -/
def onGetTime : Handler := fun _ _ w =>
  let (rc, now, rtc) := ds3231GetTime f w.rtc {}
  if rc ≠ 0 then (.empty, { w with rtc })
  else
    let (rc, centi, rtc) := ds3231TemperatureCenti f rtc 0
    let wire : NbTimeWire :=
      { year := now.year, month := now.month, day := now.day, hour := now.hour,
        minute := now.minute, second := now.second, weekday := now.weekday,
        tempCenti := if rc = 0 then centi else 0 }
    (written wire.bytes, { w with rtc })

/-- The time that `on_set_time` takes from its wire. -/
def NbTimeWire.time (w : NbTimeWire) : Ds3231Time where
  year := w.year
  month := w.month
  day := w.day
  hour := w.hour
  minute := w.minute
  second := w.second

/-- `on_set_time`. -/
def onSetTime : Handler := fun req _ w =>
  if req.len.toNat < NbTimeWire.size then (written [nbErrArg], w)
  else
    let (rc, rtc) := ds3231SetTime f w.rtc (NbTimeWire.ofBytes req.payload.toList).time
    let code :=
      if rc = ds3231ErrArg then nbErrArg
      else if rc < 0 then if w.rtcOk then nbErrHardware else nbErrUnsupported
      else nbOk
    (written [code], { w with rtc })

/-- `on_get_info`, of a firmware that was built at `stamp`. -/
def onGetInfo (stamp : BuildStamp) : Handler := fun _ _ w =>
  let info : NbInfoWire :=
    { protoVersion := nbProtoVersion, fwMajor := nbFwVersionMajor, fwMinor := nbFwVersionMinor,
      fwPatch := nbFwVersionPatch, build := stamp, uptimeS := w.ticks * 1 / 1000,
      boardId := w.boardId,
      features := (if w.rtcOk then nbFeatRtc else 0) ||| (if w.panelOk then nbFeatPanel else 0) |||
        (if w.encoderOk then nbFeatEncoder else 0) |||
          (if w.selftestPassed then nbFeatPostOk else 0) }
  (written info.bytes, w)

/-- `on_unknown`. -/
def onUnknown : Handler := fun _ _ w => (.empty, w)

/-- The registrations in `main`. -/
def registrations (stamp : BuildStamp) : List (UInt8 × Handler) :=
  [(nbCmdPing, onPing), (nbCmdSetLeds, onSetLeds), (nbCmdGetPanel, onGetPanel),
    (nbCmdGetTime, onGetTime f), (nbCmdSetTime, onSetTime f), (nbCmdGetInfo, onGetInfo stamp),
    (nbCmdGetEnc, onGetEncoder)]

/-- The table of the dispatcher, as `main` fills it. -/
def booted (stamp : BuildStamp) : Dispatcher.Table Unit Board :=
  let table : Dispatcher.Table Unit Board :=
    (registrations f stamp).foldl (fun t r => (t.dspiOn r.1 (some r.2) none).1) {}
  table.dspiOnUnknown (some onUnknown) none

end Handlers

/-! ## The handlers by type -/

/-- The handler of a type, once `main` has registered them. -/
theorem binding_booted (f : Failures) (stamp : BuildStamp) (type : UInt8) :
    (booted f stamp).binding type =
      some (((registrations f stamp).lookup type).getD onUnknown, none) := by
  have htypes : (registrations f stamp).map Prod.fst = [nbCmdPing, nbCmdSetLeds, nbCmdGetPanel,
      nbCmdGetTime, nbCmdSetTime, nbCmdGetInfo, nbCmdGetEnc] := rfl
  have hidle : ∀ r ∈ registrations f stamp, r.1 ≠ dspiTypeIdle := by
    intro r hr hidle
    have hmem := List.mem_map_of_mem (f := Prod.fst) hr
    rw [htypes, hidle] at hmem
    exact absurd hmem (by decide)
  obtain ⟨m, hserves, -, hlookup⟩ := (Dispatcher.serves_init (U := Unit) (W := Board)).registered
    hidle (by rw [htypes]; decide) (show 0 + 7 ≤ 16 by decide)
  rw [booted, (hserves.onUnknown (some onUnknown) none).binding_eq, Dispatcher.Handlers.handler,
    hlookup]
  cases (registrations f stamp).lookup type with
  | none => rfl
  | some fn => rfl

end MFoES.Northbridge.Handlers
