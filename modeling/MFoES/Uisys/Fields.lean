import MFoES.Uisys.Widgets

/-!
# The keyboard and the input fields

All fields share one keyboard.  A field that is tapped binds the callback of the keyboard to
itself and shows the keyboard with its text.  The keyboard keeps its own buffer and gives it to
the field that is bound, after every key.

The keyboard can hide itself, with the keys OK and X.  It drops its callback then, and the field
that it was bound to is not told.
-/

namespace MFoES.Uisys

open MFoES.Touch

/-- A `std::string`; the texts of the keys are ASCII. -/
abbrev Text := List Char

/-- A field that can be bound to the keyboard, by its place among its kind. -/
inductive Field
  | edit (i : Nat)
  | spin (i : Nat)
  deriving DecidableEq

/-! ## The keyboard -/

/-- The actions of keys. -/
inductive KeyAction
  | none
  | bksp
  | enter
  | close
  | shift
  | caps
  | num
  | space
  deriving DecidableEq

/-- `KeyboardWidget::Key`. -/
structure Key where
  label : Text
  shifted : Text := []
  action : KeyAction := .none
  x : Int
  y : Int
  w : Int
  h : Int
  deriving DecidableEq

/-- `KeyboardWidget`, without its looks. -/
structure KeyboardWidget where
  x : Int
  y : Int
  w : Int
  h : Int
  visible : Bool := false
  shiftActive : Bool := false
  capsLock : Bool := false
  numericMode : Bool := false
  internalBuf : Text := []
  maxLen : Nat := 64
  onChange : Option Field := none
  pressedKeyIdx : Option Nat := none
  keys : List Key := []
  deriving DecidableEq

namespace KeyboardWidget

/-- A row of keys, from a place on. -/
def keyRow (labels shifted : Text) (x y kw kh pad : Int) : List Key :=
  (labels.zip shifted).zipIdx.map fun ((label, shift), i) =>
    { label := [label], shifted := [shift], x := x + i * kw + pad, y := y + pad,
      w := kw - pad * 2, h := kh - pad * 2 }

/-- `buildQWERTY`. -/
def buildQWERTY (kb : KeyboardWidget) : List Key :=
  let kw := kb.w.tdiv 11
  let kh := kb.h.tdiv 5
  let pad := 2
  let off1 := kw.tdiv 4
  let off2 := kw.tdiv 2
  let off3 := kw
  let special (label : Text) (action : KeyAction) (x y w : Int) : Key :=
    { label := label, action := action, x := x + pad, y := y + pad, w := w - pad * 2,
      h := kh - pad * 2 }
  keyRow ['1', '2', '3', '4', '5', '6', '7', '8', '9', '0']
      ['!', '@', '#', '$', '%', '^', '&', '*', '(', ')'] kb.x kb.y kw kh pad ++
    [special ['<'] .bksp (kb.x + 10 * kw) kb.y kw] ++
    keyRow ['q', 'w', 'e', 'r', 't', 'y', 'u', 'i', 'o', 'p']
      ['Q', 'W', 'E', 'R', 'T', 'Y', 'U', 'I', 'O', 'P'] (kb.x + off1) (kb.y + kh) kw kh pad ++
    keyRow ['a', 's', 'd', 'f', 'g', 'h', 'j', 'k', 'l']
      ['A', 'S', 'D', 'F', 'G', 'H', 'J', 'K', 'L'] (kb.x + off2) (kb.y + 2 * kh) kw kh pad ++
    [special ['O', 'K'] .enter (kb.x + off2 + 9 * kw) (kb.y + 2 * kh) (kw + kw.tdiv 2)] ++
    [special ['S', 'H'] .shift kb.x (kb.y + 3 * kh) kw] ++
    keyRow ['z', 'x', 'c', 'v', 'b', 'n', 'm'] ['Z', 'X', 'C', 'V', 'B', 'N', 'M']
      (kb.x + off3) (kb.y + 3 * kh) kw kh pad ++
    keyRow ['.', '-'] ['>', '_'] (kb.x + off3 + 7 * kw) (kb.y + 3 * kh) kw kh pad ++
    [special ['1', '2', '3'] .num kb.x (kb.y + 4 * kh) (kw * 2),
      special [' '] .space (kb.x + 2 * kw) (kb.y + 4 * kh) (kw * 6),
      special ['@'] .none (kb.x + 8 * kw) (kb.y + 4 * kh) kw,
      special ['X'] .close (kb.x + 9 * kw) (kb.y + 4 * kh) (kw * 2)]

/-- The labels and the actions of the number pad. -/
def numpadKeys : List (Text × KeyAction) :=
  [(['7'], .none), (['8'], .none), (['9'], .none), (['<'], .bksp),
    (['4'], .none), (['5'], .none), (['6'], .none), (['-'], .none),
    (['1'], .none), (['2'], .none), (['3'], .none), (['.'], .none),
    (['X'], .close), (['0'], .none), (['0', '0'], .none), (['O', 'K'], .enter)]

/-- `buildNumpad`. -/
def buildNumpad (kb : KeyboardWidget) : List Key :=
  let kw := kb.w.tdiv 4
  let kh := kb.h.tdiv 4
  let pad := 3
  numpadKeys.zipIdx.map fun ((label, action), i) =>
    { label := label, action := action, x := kb.x + (i % 4 : Nat) * kw + pad,
      y := kb.y + (i / 4 : Nat) * kh + pad, w := kw - pad * 2, h := kh - pad * 2 }

/-- `rebuildLayout`. -/
def rebuildLayout (kb : KeyboardWidget) : KeyboardWidget :=
  { kb with keys := if kb.numericMode then kb.buildNumpad else kb.buildQWERTY }

/-- `hitTestKey`. -/
def hitTestKey (kb : KeyboardWidget) (p : TouchPoint) : Option Nat :=
  kb.keys.findIdx? fun k => inRect k.x k.y k.w k.h p.x.toNat p.y.toNat

/-- A call of `onChange` with the buffer. -/
abbrev Delivery := Option (Field × Text)

/-- `fireChange`. -/
def fireChange (kb : KeyboardWidget) : Delivery := kb.onChange.map fun f => (f, kb.internalBuf)

/-- `hide`. -/
def hide (kb : KeyboardWidget) : KeyboardWidget :=
  { kb with onChange := none, visible := false, pressedKeyIdx := none }

/-- The text that a key writes. -/
def written (kb : KeyboardWidget) (k : Key) : Text :=
  if (kb.shiftActive ^^ kb.capsLock) && !k.shifted.isEmpty then k.shifted else k.label

/-- The buffer with a text behind it, where it is not full. -/
def append (kb : KeyboardWidget) (text : Text) : KeyboardWidget :=
  { kb with
    internalBuf :=
      if kb.internalBuf.length < kb.maxLen then kb.internalBuf ++ text else kb.internalBuf }

/-- `processKey`. -/
def processKey (kb : KeyboardWidget) (k : Key) : KeyboardWidget × Delivery :=
  match k.action with
  | .bksp =>
      let kb := { kb with internalBuf := kb.internalBuf.dropLast }
      (kb, kb.fireChange)
  | .enter => (kb.hide, kb.fireChange)
  | .close => (kb.hide, none)
  | .shift => ({ kb with shiftActive := !kb.shiftActive }, none)
  | .caps => ({ kb with capsLock := !kb.capsLock }, none)
  | .num => ({ kb with numericMode := !kb.numericMode }.rebuildLayout, none)
  | .space =>
      let kb := kb.append [' ']
      (kb, kb.fireChange)
  | .none =>
      let kb := { kb.append (kb.written k) with shiftActive := false }
      (kb, kb.fireChange)

/-- `setCallback`, `setMaxLen` and `showWithText`, as a field calls them. -/
def showFor (kb : KeyboardWidget) (field : Field) (maxLen : Nat) (initialText : Text)
    (numericOnly : Bool) : KeyboardWidget :=
  { kb with
    onChange := some field
    maxLen := maxLen
    internalBuf := initialText
    numericMode := numericOnly
    visible := true
    shiftActive := false }.rebuildLayout

/-- `handleEvent`; `none` when the keyboard does not consume the event. -/
def handleEvent (kb : KeyboardWidget) (e : TouchEventData) : Option (KeyboardWidget × Delivery) :=
  if kb.visible then
    match e.event with
    | .press =>
        let idx := kb.hitTestKey e.point
        let kb := { kb with pressedKeyIdx := idx }
        match idx.bind fun i => kb.keys[i]? with
        | some k => some (kb.processKey k)
        | none => some (kb, none)
    | .release => some ({ kb with pressedKeyIdx := none }, none)
    | .move => some (kb, none)
    | .hold => some (kb, none)
  else none

end KeyboardWidget

/-! ## Text fields -/

/-- `TextEditWidget`, without its looks. -/
structure TextEditWidget where
  x : Int
  y : Int
  w : Int
  h : Int
  text : Text := []
  focused : Bool := false
  numericOnly : Bool := false
  maxLen : Nat := 64
  visibleWidget : Bool := true
  deriving DecidableEq

namespace TextEditWidget

/-- `hitTest`. -/
def hitTest (t : TextEditWidget) (p : TouchPoint) : Bool :=
  inRect t.x t.y t.w t.h p.x.toNat p.y.toNat

/-- `focus`, of the `i`-th field. -/
def focus (t : TextEditWidget) (i : Nat) (kb : KeyboardWidget) : TextEditWidget × KeyboardWidget :=
  ({ t with focused := true }, kb.showFor (.edit i) t.maxLen t.text t.numericOnly)

/-- `unfocus`, and whether it calls `onConfirm`. -/
def unfocus (t : TextEditWidget) (kb : KeyboardWidget) : TextEditWidget × KeyboardWidget × Bool :=
  if t.focused then ({ t with focused := false }, if kb.visible then kb.hide else kb, true)
  else (t, kb, false)

/-- `handleEvent`, of the `i`-th field, and whether it calls `onConfirm`. -/
def handleEvent (t : TextEditWidget) (i : Nat) (kb : KeyboardWidget) (e : TouchEventData) :
    TextEditWidget × KeyboardWidget × Bool :=
  if t.visibleWidget && e.event = .press then
    if t.hitTest e.point then
      if t.focused then (t, kb, false)
      else
        let (t, kb) := t.focus i kb
        (t, kb, false)
    else t.unfocus kb
  else (t, kb, false)

end TextEditWidget

/-! ## Number fields -/

/-- `SpinBoxType`. -/
inductive SpinBoxType
  | int
  | float
  deriving DecidableEq

/-- `SpinBoxWidget`, without its looks. -/
structure SpinBoxWidget where
  x : Int
  y : Int
  w : Int
  h : Int
  type : SpinBoxType
  value : Float32 := 0
  minVal : Float32 := 0
  maxVal : Float32 := 100
  step : Float32 := 1
  decimals : Int := 2
  showButtons : Bool := true
  editBuf : Text := []
  editing : Bool := false
  plusPressed : Bool := false
  minusPressed : Bool := false
  visibleWidget : Bool := true
  deriving DecidableEq

/-- The two functions of the C library on numbers in texts. -/
structure NumberText where
  /-- `snprintf` with `%.*f`, into the 32 bytes of `formatValue`. -/
  fixed (decimals : Int) (value : Float32) : Text
  /-- `std::stof`; `none` when it throws. -/
  stof (text : Text) : Option Float32

namespace SpinBoxWidget

/-- `BTN_W`. -/
def btnW : Int := 40

/-- `hitValueBox`. -/
def hitValueBox (s : SpinBoxWidget) (p : TouchPoint) : Bool :=
  if s.showButtons then inRect (s.x + btnW) s.y (s.w - btnW * 2) s.h p.x.toNat p.y.toNat
  else inRect s.x s.y s.w s.h p.x.toNat p.y.toNat

/-- `hitPlus`. -/
def hitPlus (s : SpinBoxWidget) (p : TouchPoint) : Bool :=
  s.showButtons && inRect (s.x + s.w - btnW) s.y btnW s.h p.x.toNat p.y.toNat

/-- `hitMinus`. -/
def hitMinus (s : SpinBoxWidget) (p : TouchPoint) : Bool :=
  s.showButtons && inRect s.x s.y btnW s.h p.x.toNat p.y.toNat

/-- `clamp`. -/
def clamp (s : SpinBoxWidget) : SpinBoxWidget :=
  let v := if s.value < s.minVal then s.minVal else s.value
  let v := if v > s.maxVal then s.maxVal else v
  { s with value := if s.type = .int then v.round else v }

/-- `increment` and `decrement`, by a step up or down, with `onChange`. -/
def bump (s : SpinBoxWidget) (step : Float32) : SpinBoxWidget × List Float32 :=
  let s := { s with value := s.value + step }.clamp
  (s, [s.value])

/-- `formatValue`. -/
def formatValue (lib : NumberText) (s : SpinBoxWidget) : Text :=
  match s.type with
  | .int => (toString s.value.toInt32.toInt).toList
  | .float => lib.fixed s.decimals s.value

/-- `commitEdit`. -/
def commitEdit (lib : NumberText) (s : SpinBoxWidget) (kb : KeyboardWidget) :
    SpinBoxWidget × KeyboardWidget × List Float32 :=
  let parsed := if s.editBuf.isEmpty then none else lib.stof s.editBuf
  let (s, values) :=
    match parsed with
    | none => (s, [])
    | some v =>
        let s := { s with value := v }.clamp
        (s, [s.value])
  let kb := { kb with onChange := none }
  ({ s with editing := false, editBuf := [] }, if kb.visible then kb.hide else kb, values)

/-- `handleEvent`, of the `i`-th field. -/
def handleEvent (lib : NumberText) (s : SpinBoxWidget) (i : Nat) (kb : KeyboardWidget)
    (e : TouchEventData) : SpinBoxWidget × KeyboardWidget × List Float32 :=
  if s.visibleWidget then
    match e.event with
    | .press =>
        if s.hitPlus e.point then
          let s := { s with plusPressed := true }
          if s.editing then (s, kb, [])
          else
            let (s, values) := s.bump s.step
            (s, kb, values)
        else if s.hitMinus e.point then
          let s := { s with minusPressed := true }
          if s.editing then (s, kb, [])
          else
            let (s, values) := s.bump (-s.step)
            (s, kb, values)
        else if s.hitValueBox e.point then
          if s.editing then (s, kb, [])
          else
            let s := { s with editing := true, editBuf := s.formatValue lib }
            (s, kb.showFor (.spin i) 16 s.editBuf true, [])
        else if s.editing then s.commitEdit lib kb
        else (s, kb, [])
    | .hold =>
        let (s, up) :=
          if s.plusPressed && s.hitPlus e.point then s.bump s.step else (s, [])
        let (s, down) :=
          if s.minusPressed && s.hitMinus e.point then s.bump (-s.step) else (s, [])
        (s, kb, up ++ down)
    | .release => ({ s with plusPressed := false, minusPressed := false }, kb, [])
    | .move => (s, kb, [])
  else (s, kb, [])

end SpinBoxWidget

end MFoES.Uisys
