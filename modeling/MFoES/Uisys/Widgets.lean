import MFoES.Touch.GT911

/-!
# Buttons, sliders and dials

Each widget reacts to the touch events that it is given with a new state and with calls of its
callback.  A button fires states, a slider and a dial fire values.  Coordinates are unbounded
integers here, and values are single-precision numbers.
-/

namespace MFoES.Uisys

open MFoES.Touch

/-- A point in a rectangle, all four edges included. -/
def inRect (x y w h tx ty : Int) : Bool := tx ≥ x && tx ≤ x + w && ty ≥ y && ty ≤ y + h

/-! ## Buttons -/

/-- `ButtonMode`. -/
inductive ButtonMode
  | trigger
  | hold
  | toggle
  | triggerHold
  | holdSwipe
  deriving DecidableEq

/-- The constants of `ButtonState` that are fired. -/
inductive ButtonState
  | trigger
  | toggleOn
  | toggleOff
  | holdStart
  | holdEnd
  | holdCancel
  | swipeDone
  | swipeCancel
  deriving DecidableEq

/-- `ButtonWidget`, without its looks. -/
structure ButtonWidget where
  x : Int
  y : Int
  w : Int
  h : Int
  mode : ButtonMode
  visibleWidget : Bool := true
  pressed : Bool := false
  toggleState : Bool := false
  holdActive : Bool := false
  swipeDurationMs : UInt32 := 1000
  swipePressedAt : UInt32 := 0
  swipeProgress : Float32 := 0
  swipeFired : Bool := false
  deriving DecidableEq

namespace ButtonWidget

/-- `hitTest`. -/
def hitTest (b : ButtonWidget) (p : TouchPoint) : Bool :=
  inRect b.x b.y b.w b.h p.x.toNat p.y.toNat

/-- The modes with `HOLD_START`. -/
def holdMode (b : ButtonWidget) : Bool := b.mode = .hold || b.mode = .triggerHold

/-- The case `PRESS`, inside the button. -/
def onPress (b : ButtonWidget) : ButtonWidget × List ButtonState :=
  let b := { b with pressed := true }
  match b.mode with
  | .trigger => (b, [.trigger])
  | .triggerHold => (b, [.trigger])
  | .toggle =>
      let b := { b with toggleState := !b.toggleState }
      (b, [if b.toggleState then .toggleOn else .toggleOff])
  | .holdSwipe => ({ b with swipePressedAt := 0, swipeProgress := 0, swipeFired := false }, [])
  | .hold => (b, [])

/-- What ends with the press: a hold, with the state that says how, and a swipe. -/
def letGo (b : ButtonWidget) (holdState : ButtonState) : ButtonWidget × List ButtonState :=
  let held := b.holdMode && b.holdActive
  let swipe := b.mode = .holdSwipe && !b.swipeFired
  ({ b with
      pressed := false
      holdActive := if held then false else b.holdActive
      swipeProgress := if swipe then 0 else b.swipeProgress },
    (if held then [holdState] else []) ++ if swipe then [.swipeCancel] else [])

/-- `handleEvent`. -/
def handleEvent (b : ButtonWidget) (e : TouchEventData) : ButtonWidget × List ButtonState :=
  if b.visibleWidget then
    match e.event with
    | .press => if b.hitTest e.point then b.onPress else (b, [])
    | .hold =>
        if b.pressed && b.hitTest e.point && b.holdMode && !b.holdActive then
          ({ b with holdActive := true }, [.holdStart])
        else (b, [])
    | .move => if b.pressed && !b.hitTest e.point then b.letGo .holdCancel else (b, [])
    | .release => if b.pressed then b.letGo .holdEnd else (b, [])
  else (b, [])

/-- `update`. -/
def update (b : ButtonWidget) (nowMs : UInt32) : ButtonWidget × List ButtonState :=
  if b.mode ≠ .holdSwipe ∨ b.pressed = false ∨ b.swipeFired ∨ b.swipeDurationMs = 0 then (b, [])
  else
    let pressedAt := if b.swipePressedAt = 0 then nowMs else b.swipePressedAt
    let progress :=
      Float32.ofNat (nowMs - pressedAt).toNat / Float32.ofNat b.swipeDurationMs.toNat
    let progress := if progress > 1 then 1 else progress
    let b := { b with swipePressedAt := pressedAt, swipeProgress := progress }
    if progress ≥ 1 then ({ b with swipeFired := true }, [.swipeDone]) else (b, [])

end ButtonWidget

/-! ## Sliders -/

/-- `SliderOrientation`. -/
inductive SliderOrientation
  | horizontal
  | vertical
  deriving DecidableEq

/-- `SliderWidget`, without its looks. -/
structure SliderWidget where
  x : Int
  y : Int
  w : Int
  h : Int
  orientation : SliderOrientation
  value : Float32 := 0
  minVal : Float32 := 0
  maxVal : Float32 := 1
  dragging : Bool := false
  visibleWidget : Bool := true
  deriving DecidableEq

namespace SliderWidget

/-- `THUMB_SIZE`. -/
def thumbSize : Int := 20

/-- `trackHitTest`. -/
def trackHitTest (s : SliderWidget) (p : TouchPoint) : Bool :=
  inRect s.x s.y s.w s.h p.x.toNat p.y.toNat

/-- `pointToValue`. -/
def pointToValue (s : SliderWidget) (p : TouchPoint) : Float32 :=
  let v : Float32 :=
    match s.orientation with
    | .horizontal =>
        let denom := s.w - thumbSize
        if denom > 0 then
          Float32.ofInt (p.x.toNat - s.x - thumbSize / 2) / Float32.ofInt denom
        else 0
    | .vertical =>
        let denom := s.h - thumbSize
        if denom > 0 then
          1 - Float32.ofInt (p.y.toNat - s.y - thumbSize / 2) / Float32.ofInt denom
        else 0
  if v < 0 then 0 else if v > 1 then 1 else v

/-- `mappedValue`. -/
def mappedValue (s : SliderWidget) : Float32 := s.minVal + s.value * (s.maxVal - s.minVal)

/-- The value at a point, and `onChange` of it. -/
def follow (s : SliderWidget) (p : TouchPoint) : SliderWidget × List Float32 :=
  let s := { s with value := s.pointToValue p }
  (s, [s.mappedValue])

/-- `handleEvent`. -/
def handleEvent (s : SliderWidget) (e : TouchEventData) : SliderWidget × List Float32 :=
  if s.visibleWidget then
    match e.event with
    | .press =>
        if s.trackHitTest e.point then { s with dragging := true }.follow e.point else (s, [])
    | .move => if s.dragging then s.follow e.point else (s, [])
    | .hold => if s.dragging then s.follow e.point else (s, [])
    | .release => if s.dragging then { s with dragging := false }.follow e.point else (s, [])
  else (s, [])

end SliderWidget

/-! ## Dials -/

/-- `DialWidget`, without its looks. -/
structure DialWidget where
  cx : Int
  cy : Int
  radius : Int
  value : Float32 := 0
  minVal : Float32 := 0
  maxVal : Float32 := 1
  dragging : Bool := false
  visibleWidget : Bool := true
  deriving DecidableEq

namespace DialWidget

/-- `START_ANGLE`. -/
def startAngle : Float32 := 225

/-- `SWEEP`. -/
def sweep : Float32 := 270

/-- `PI`. -/
def pi : Float32 := 3.14159265

/-- `pointToValue`. -/
def pointToValue (d : DialWidget) (p : TouchPoint) : Float32 :=
  let dx := Float32.ofInt (p.x.toNat - d.cx)
  let dy := Float32.ofInt (p.y.toNat - d.cy)
  let ang := Float32.atan2 dy dx * 180 / pi
  let ang := if ang < 0 then ang + 360 else ang
  let rel := ang - startAngle
  let rel := if rel < 0 then rel + 360 else rel
  let rel := if rel > sweep then if rel - sweep < 360 - rel then sweep else 0 else rel
  rel / sweep

/-- `hitTest`. -/
def hitTest (d : DialWidget) (p : TouchPoint) : Bool :=
  let dx := Float32.ofInt (p.x.toNat - d.cx)
  let dy := Float32.ofInt (p.y.toNat - d.cy)
  Float32.sqrt (dx * dx + dy * dy) ≤ Float32.ofInt d.radius

/-- `clampValue`. -/
def clampValue (v : Float32) : Float32 :=
  let v := if v < 0 then 0 else v
  if v > 1 then 1 else v

/-- `mappedValue`. -/
def mappedValue (d : DialWidget) : Float32 := d.minVal + d.value * (d.maxVal - d.minVal)

/-- The value at a point, and `onChange` of it. -/
def follow (d : DialWidget) (p : TouchPoint) : DialWidget × List Float32 :=
  let d := { d with value := clampValue (d.pointToValue p) }
  (d, [d.mappedValue])

/-- `handleEvent`. -/
def handleEvent (d : DialWidget) (e : TouchEventData) : DialWidget × List Float32 :=
  if d.visibleWidget then
    match e.event with
    | .press =>
        if d.hitTest e.point then { d with dragging := true }.follow e.point else (d, [])
    | .move => if d.dragging then d.follow e.point else (d, [])
    | .release => ({ d with dragging := false }, [])
    | .hold => (d, [])
  else (d, [])

end DialWidget

end MFoES.Uisys
