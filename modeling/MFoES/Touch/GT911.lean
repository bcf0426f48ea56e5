import Mathlib.Data.Fintype.Basic
import Mathlib.Logic.Function.Basic
import MFoES.Lib.Transition

/-!
# The touch controller

`GT911` reads samples of contacts and keeps a `TrackState` for each finger that is down, by its
track id.  Out of both it makes events: a finger that was not tracked is pressed, one that is not
in the sample any more is released, and one that stays moves or is held.  A finger that comes back
soon after its release is tracked without a press; the field `debouncing` says so.
-/

namespace MFoES.Touch

/-- `TouchEvent`. -/
inductive TouchEvent
  | press
  | release
  | move
  | hold
  deriving DecidableEq

/-- `TouchPoint`. -/
structure TouchPoint where
  id : UInt8
  x : UInt16
  y : UInt16
  size : UInt16
  active : Bool
  deriving DecidableEq

/-- `TouchEventData`. -/
structure TouchEventData where
  event : TouchEvent
  point : TouchPoint
  dx : Int16
  dy : Int16
  durationMs : UInt32
  deriving DecidableEq

/-- `GTPoint`, as far as it is read. -/
structure GTPoint where
  trackId : UInt8
  x : UInt16
  y : UInt16
  area : UInt16

/-- A point of one finger. -/
abbrev PointOf (id : UInt8) := {point : TouchPoint // point.id = id}

/-- `TrackState`.  Times are in nanoseconds. -/
structure TrackState (id : UInt8) where
  point : PointOf id
  pressTime : Int
  releaseTime : Int
  startX : UInt16
  startY : UInt16
  holdFired : Bool
  debouncing : Bool
  deriving DecidableEq

/-- The settings. -/
structure Settings where
  moveThreshold : UInt16 := 5
  holdMs : UInt32 := 500
  debounceMs : UInt32 := 75

/-- `std::sqrt((float)(dx*dx + dy*dy))`. -/
def distance (dx dy : Int16) : Float32 :=
  Float32.sqrt (Float32.ofInt (dx.toInt * dx.toInt + dy.toInt * dy.toInt))

/-- A time in milliseconds, as `uint32_t`. -/
def millis (nanos : Int) : UInt32 := UInt32.ofInt (nanos.tdiv 1000000)

/-! ## One finger -/

namespace TrackState

variable {id : UInt8}

/-- The distance since the last event is at the threshold. -/
def moves (cfg : Settings) (state : TrackState id) (tp : PointOf id) : Bool :=
  distance (tp.val.x.toInt16 - state.point.val.x.toInt16)
    (tp.val.y.toInt16 - state.point.val.y.toInt16) ≥ Float32.ofNat cfg.moveThreshold.toNat

/-- The finger stays near where it came down, for long enough. -/
def holds (cfg : Settings) (now : Int) (state : TrackState id) (tp : PointOf id) : Bool :=
  !state.holdFired && decide (millis (now - state.pressTime) ≥ cfg.holdMs) &&
    decide (distance (tp.val.x.toInt16 - state.startX.toInt16)
      (tp.val.y.toInt16 - state.startY.toInt16) < Float32.ofNat (cfg.moveThreshold.toNat * 3))

/-- A finger that comes down. -/
def pressed (now : Int) (tp : PointOf id) : TrackState id × List TouchEventData :=
  (⟨tp, now, 0, tp.val.x, tp.val.y, false, false⟩, [⟨.press, tp, 0, 0, 0⟩])

/-- A finger that comes back too soon after its release. -/
def debounced (releaseTime : Int) (tp : PointOf id) : TrackState id × List TouchEventData :=
  (⟨tp, releaseTime, releaseTime, tp.val.x, tp.val.y, false, true⟩, [])

/-- A finger that is tracked already. -/
def stays (cfg : Settings) (now : Int) (state : TrackState id) (tp : PointOf id) :
    TrackState id × List TouchEventData :=
  let dx := tp.val.x.toInt16 - state.point.val.x.toInt16
  let dy := tp.val.y.toInt16 - state.point.val.y.toInt16
  let dur := millis (now - state.pressTime)
  let moved := if state.moves cfg tp then [⟨.move, tp, dx, dy, dur⟩] else []
  let held := if state.holds cfg now tp then [⟨.hold, tp, 0, 0, dur⟩] else []
  ({ state with
      point := if state.moves cfg tp then tp else state.point
      holdFired := state.holdFired || state.holds cfg now tp }, moved ++ held)

/-- The body of the loop over the contacts of a sample. -/
def touched (cfg : Settings) (now : Int) (tracked : Option (TrackState id))
    (lastRelease : Option Int) (tp : PointOf id) : TrackState id × List TouchEventData :=
  match tracked with
  | none =>
      match lastRelease with
      | none => pressed now tp
      | some releaseTime =>
          if 0 < cfg.debounceMs ∧ millis (now - releaseTime) < cfg.debounceMs then
            debounced releaseTime tp
          else pressed now tp
  | some state => state.stays cfg now tp

/-- The `RELEASE` of a tracked finger. -/
def releaseEvent (now : Int) (state : TrackState id) : TouchEventData :=
  ⟨.release, state.point, 0, 0, millis (now - state.pressTime)⟩

/-- What the body of the loop over the released fingers fires. -/
def released (now : Int) (state : TrackState id) : List TouchEventData :=
  if state.debouncing then [] else [state.releaseEvent now]

end TrackState

/-! ## All fingers -/

/-- `GT911`, with what it has fired. -/
structure GT911 where
  settings : Settings
  tracked : (id : UInt8) → Option (TrackState id)
  lastRelease : UInt8 → Option Int
  /-- `pollLoop` is running. -/
  polling : Bool
  /-- The first `lastCount` of `points`. -/
  points : List GTPoint
  fired : List TouchEventData

/-- The keys of a `std::map<uint8_t, …>`, in order. -/
@[irreducible] def ids : List UInt8 := (List.range 256).map UInt8.ofNat

/-- `currentMap`. -/
def currentMap (gtPoints : List GTPoint) : (id : UInt8) → Option (PointOf id) :=
  gtPoints.foldl
    (fun current p => Function.update current p.trackId
      (some ⟨⟨p.trackId, p.x, p.y, p.area, true⟩, rfl⟩))
    fun _ => none

namespace GT911

/-- Before the first `startPolling`. -/
def init : GT911 := ⟨{}, fun _ => none, fun _ => none, false, [], []⟩

/-- The body of the loop over the released fingers. -/
def releaseFinger (now : Int) (s : GT911) (id : UInt8) : GT911 :=
  match s.tracked id with
  | none => s
  | some state =>
      { s with
        tracked := Function.update s.tracked id none
        lastRelease := Function.update s.lastRelease id (some now)
        fired := s.fired ++ state.released now }

/-- The body of the loop over the contacts. -/
def touchFinger (cfg : Settings) (now : Int)
    (current : (id : UInt8) → Option (PointOf id)) (s : GT911) (id : UInt8) : GT911 :=
  match current id with
  | none => s
  | some tp =>
      let (state, events) := TrackState.touched cfg now (s.tracked id) (s.lastRelease id) tp
      { s with
        tracked := Function.update s.tracked id (some state)
        fired := s.fired ++ events }

/-- `processTouches`. -/
def processTouches (s : GT911) (gtPoints : List GTPoint) (now : Int) : GT911 :=
  let current := currentMap gtPoints
  let released := ids.filter fun id => (s.tracked id).isSome && (current id).isNone
  ids.foldl (touchFinger s.settings now current) (released.foldl (releaseFinger now) s)

/-- The loop over the fingers behind the loop of `pollLoop`. -/
def shutdownFinger (now : Int) (s : GT911) (id : UInt8) : GT911 :=
  match s.tracked id with
  | none => s
  | some state => { s with fired := s.fired ++ [state.releaseEvent now] }

/-- What happens to the controller. -/
inductive Event
  | setMoveThreshold (px : UInt16)
  | setHoldDuration (ms : UInt32)
  | setDebounceMs (ms : UInt32)
  | startPolling
  | stopPolling (now : Int)
  /-- `waitForInterrupt` returns `true`, and `readRawTouches` has a sample or a negative count. -/
  | interrupt (sample : Option (List GTPoint)) (now : Int)
  /-- `waitForInterrupt` returns `false`. -/
  | timeout (now : Int)

/-- No finger is tracked. -/
def trackedEmpty (s : GT911) : Bool := ids.all fun id => (s.tracked id).isNone

/-- One event. -/
def step (s : GT911) : Event → Option GT911
  | .setMoveThreshold px => some { s with settings := { s.settings with moveThreshold := px } }
  | .setHoldDuration ms => some { s with settings := { s.settings with holdMs := ms } }
  | .setDebounceMs ms => some { s with settings := { s.settings with debounceMs := ms } }
  | .startPolling => if s.polling then none else some { s with polling := true, points := [] }
  | .stopPolling now =>
      if s.polling then
        some { ids.foldl (shutdownFinger now) s with tracked := fun _ => none, polling := false }
      else some s
  | .interrupt sample now =>
      if s.polling then
        match sample with
        | none => some s
        | some points => some ({ s with points := points }.processTouches points now)
      else none
  | .timeout now =>
      if s.polling then
        if s.trackedEmpty then some s else some (s.processTouches s.points now)
      else none

end GT911

end MFoES.Touch
