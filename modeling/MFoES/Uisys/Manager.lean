import MFoES.Uisys.Fields

/-!
# The manager

`Manager` holds the widgets of each kind, the keyboard and the dialogs, and gives every touch
event to those that should have it: to the first open dialog alone, else to the keyboard alone
while it is visible, else to every widget in turn.

The callbacks of the application run inside of `handleEvent` and may act on the widgets
themselves.  What they do is an argument here, `app`: for each call of a callback, the actions
that the application takes.
-/

namespace MFoES.Uisys

open MFoES.Touch

/-! ## Combo boxes and dialogs -/

/-- `ComboBoxWidget`, without its looks. -/
structure ComboBoxWidget where
  x : Int
  y : Int
  w : Int
  h : Int
  items : List Text
  /-- `font.charH() + 12`. -/
  itemH : Int
  selectedIndex : Int := 0
  isOpen : Bool := false
  scrollOffset : Int := 0
  maxVisible : Int := 4
  hoveredIndex : Int := -1
  visibleWidget : Bool := true
  deriving DecidableEq

namespace ComboBoxWidget

/-- `SCROLL_W`. -/
def scrollW : Int := 12

/-- `ARROW_BTN_H`. -/
def arrowBtnH : Int := 24

/-- `dropdownH`. -/
def dropdownH (c : ComboBoxWidget) : Int :=
  (if (c.items.length : Int) < c.maxVisible then (c.items.length : Int) else c.maxVisible) * c.itemH

/-- `needsScroll`. -/
def needsScroll (c : ComboBoxWidget) : Bool := (c.items.length : Int) > c.maxVisible

/-- `hitTestHeader`. -/
def hitTestHeader (c : ComboBoxWidget) (p : TouchPoint) : Bool :=
  inRect c.x c.y c.w c.h p.x.toNat p.y.toNat

/-- `hitTestDropdown`. -/
def hitTestDropdown (c : ComboBoxWidget) (p : TouchPoint) : Int :=
  let dropW := if c.needsScroll then c.w - scrollW else c.w
  let idx := c.scrollOffset + ((p.y.toNat : Int) - (c.y + c.h)).tdiv c.itemH
  if c.isOpen && inRect c.x (c.y + c.h) dropW c.dropdownH p.x.toNat p.y.toNat &&
      idx ≥ 0 && idx < c.items.length then idx
  else -1

/-- `hitScrollUp`. -/
def hitScrollUp (c : ComboBoxWidget) (p : TouchPoint) : Bool :=
  c.isOpen && c.needsScroll &&
    inRect (c.x + c.w - scrollW) (c.y + c.h) scrollW arrowBtnH p.x.toNat p.y.toNat

/-- `hitScrollDown`. -/
def hitScrollDown (c : ComboBoxWidget) (p : TouchPoint) : Bool :=
  c.isOpen && c.needsScroll &&
    inRect (c.x + c.w - scrollW) (c.y + c.h + c.dropdownH - arrowBtnH) scrollW arrowBtnH
      p.x.toNat p.y.toNat

/-- `clampScroll`, for a new offset. -/
def scrollTo (c : ComboBoxWidget) (offset : Int) : ComboBoxWidget :=
  let maxOff := max 0 ((c.items.length : Int) - c.maxVisible)
  { c with scrollOffset := min (max 0 offset) maxOff }

/-- `handleEvent`, with the index given to `onChange`. -/
def handleEvent (c : ComboBoxWidget) (e : TouchEventData) : ComboBoxWidget × Option Int :=
  if c.visibleWidget then
    match e.event with
    | .press =>
        if c.isOpen then
          if c.hitScrollUp e.point then (c.scrollTo (c.scrollOffset - 1), none)
          else if c.hitScrollDown e.point then (c.scrollTo (c.scrollOffset + 1), none)
          else
            let idx := c.hitTestDropdown e.point
            if idx ≥ 0 then ({ c with selectedIndex := idx, isOpen := false }, some idx)
            else ({ c with isOpen := false }, none)
        else if c.hitTestHeader e.point then
          ({ c with isOpen := true }.scrollTo c.selectedIndex, none)
        else (c, none)
    | .move =>
        if c.isOpen then
          let dropY := c.y + c.h
          let py : Int := e.point.y.toNat
          let c := { c with hoveredIndex := c.hitTestDropdown e.point }
          if py < dropY + 20 ∧ py > dropY then (c.scrollTo (c.scrollOffset - 1), none)
          else if py > dropY + c.dropdownH - 20 ∧ py < dropY + c.dropdownH then
            (c.scrollTo (c.scrollOffset + 1), none)
          else (c, none)
        else (c, none)
    | .release => ({ c with hoveredIndex := -1 }, none)
    | .hold => (c, none)
  else (c, none)

end ComboBoxWidget

/-- `DialogMode`. -/
inductive DialogMode
  | notice
  | yesNo
  | yesNoCancel
  deriving DecidableEq

/-- `DialogState`. -/
inductive DialogState
  | notAsked
  | asking
  | asked
  deriving DecidableEq

/-- The constants of `DialogResult`. -/
inductive DialogResult
  | cancel
  | no
  | yes
  deriving DecidableEq

/-- `DialogWidget`, without its looks. -/
structure DialogWidget where
  boxX : Int
  boxY : Int
  boxW : Int
  boxH : Int
  mode : DialogMode
  state : DialogState := .notAsked
  buttonsHidden : Bool := false
  pressedBtn : Option DialogResult := none
  deriving DecidableEq

namespace DialogWidget

/-- The constructor, for a screen of this size. -/
def make (screenW screenH : Int) (mode : DialogMode) : DialogWidget :=
  let boxW := if screenW > 800 then 560 else (screenW * 7).tdiv 10
  { boxX := (screenW - boxW).tdiv 2, boxY := (screenH - 280).tdiv 2, boxW := boxW, boxH := 280,
    mode := mode }

/-- `isVisible`. -/
def isVisible (d : DialogWidget) : Bool := d.state = .asking

/-- The buttons of `_buildButtons`, from left to right. -/
def results : DialogMode → List DialogResult
  | .notice => [.yes]
  | .yesNo => [.no, .yes]
  | .yesNoCancel => [.cancel, .no, .yes]

/-- `_hitTestBtn`. -/
def hitTestBtn (d : DialogWidget) (p : TouchPoint) : Option DialogResult :=
  let totalBtns := (results d.mode).length
  let totalW : Int := totalBtns * 110 + (totalBtns - 1) * 12
  let startX := d.boxX + (d.boxW - totalW).tdiv 2
  let btnY := d.boxY + d.boxH - 40 - 12
  if d.buttonsHidden then none
  else ((results d.mode).zipIdx.find? fun (_, i) =>
    inRect (startX + (110 + 12) * i) btnY 110 40 p.x.toNat p.y.toNat).map Prod.fst

/-- `fire`. -/
def fire (d : DialogWidget) : DialogWidget := { d with state := .asking, pressedBtn := none }

/-- `dismiss`, without its callback. -/
def dismiss (d : DialogWidget) : DialogWidget :=
  if d.isVisible then { d with state := .asked, pressedBtn := none } else d

/-- `handleEvent`, with the result given to `onResult`. -/
def handleEvent (d : DialogWidget) (e : TouchEventData) : DialogWidget × Option DialogResult :=
  if d.isVisible then
    match e.event with
    | .press => ({ d with pressedBtn := d.hitTestBtn e.point }, none)
    | .release =>
        match d.hitTestBtn e.point with
        | none => ({ d with pressedBtn := none }, none)
        | some r => ({ d with pressedBtn := none, state := .asked }, some r)
    | .move => (d, none)
    | .hold => (d, none)
  else (d, none)

end DialogWidget

/-! ## The manager -/

/-- A widget with its id. -/
structure Entry (ω : Type) where
  id : String
  widget : ω

/-- A call of a callback of the application. -/
inductive Call
  | button (i : Nat) (state : ButtonState)
  | slider (i : Nat) (value : Float32)
  | dial (i : Nat) (value : Float32)
  | combo (i : Nat) (index : Int)
  | editChange (i : Nat) (text : Text)
  | editConfirm (i : Nat) (text : Text)
  | spin (i : Nat) (value : Float32)
  | dialog (i : Nat) (result : DialogResult)
  deriving DecidableEq

/-- `Manager`, with the calls of callbacks that it has made. -/
structure Manager where
  buttons : List (Entry ButtonWidget) := []
  sliders : List (Entry SliderWidget) := []
  dials : List (Entry DialWidget) := []
  combos : List (Entry ComboBoxWidget) := []
  edits : List (Entry TextEditWidget) := []
  spins : List (Entry SpinBoxWidget) := []
  keyboard : KeyboardWidget
  dialogs : List (Entry DialogWidget) := []
  calls : List Call := []

/-- What the application does to the widgets. -/
inductive Action
  /-- `setVisible`, also behind `show` and `hide`. -/
  | setVisible (id : String) (v : Bool)
  /-- `getButton(id)->setToggleState`. -/
  | setToggleState (id : String) (s : Bool)
  /-- `addDialog` or `quickFireDialog` with a dialog that fires. -/
  | openDialog (id : String) (dialog : DialogWidget)
  | fireDialog (id : String)
  | dismissDialog (id : String)
  /-- The end of `quickFireDialog`. -/
  | eraseDialog (id : String)

/-- Change the widget of an entry. -/
def Entry.map {ω : Type} (f : ω → ω) (en : Entry ω) : Entry ω := { en with widget := f en.widget }

/-- Change the first widget with an id, where there is one. -/
def onId {ω : Type} (id : String) (f : ω → ω) (entries : List (Entry ω)) :
    Option (List (Entry ω)) :=
  (entries.findIdx? fun en => en.id == id).map fun i => entries.modify i (Entry.map f)

namespace Manager

/-- `setVisible`: of the first kind that has the id. -/
def setVisible (m : Manager) (id : String) (v : Bool) : Manager :=
  match onId id (fun b => { b with visibleWidget := v }) m.buttons with
  | some buttons => { m with buttons := buttons }
  | none =>
  match onId id (fun s => { s with visibleWidget := v }) m.sliders with
  | some sliders => { m with sliders := sliders }
  | none =>
  match onId id (fun d => { d with visibleWidget := v }) m.dials with
  | some dials => { m with dials := dials }
  | none =>
  match onId id (fun c => { c with visibleWidget := v }) m.combos with
  | some combos => { m with combos := combos }
  | none =>
  match onId id (fun t => { t with visibleWidget := v }) m.edits with
  | some edits => { m with edits := edits }
  | none =>
  match onId id (fun s => { s with visibleWidget := v }) m.spins with
  | some spins => { m with spins := spins }
  | none => m

/-- An action of the application. -/
def act (m : Manager) : Action → Manager
  | .setVisible id v => m.setVisible id v
  | .setToggleState id s =>
      { m with
        buttons := (onId id (fun b => { b with toggleState := s }) m.buttons).getD m.buttons }
  | .openDialog id dialog => { m with dialogs := m.dialogs ++ [⟨id, dialog.fire⟩] }
  | .fireDialog id => { m with dialogs := (onId id DialogWidget.fire m.dialogs).getD m.dialogs }
  | .dismissDialog id =>
      { m with dialogs := (onId id DialogWidget.dismiss m.dialogs).getD m.dialogs }
  | .eraseDialog id => { m with dialogs := m.dialogs.filter fun en => en.id != id }

/-- A callback of the application, with what it does. -/
def call (app : Call → List Action) (m : Manager) (c : Call) : Manager :=
  (app c).foldl act { m with calls := m.calls ++ [c] }

/-- Several calls in a row. -/
def callAll (app : Call → List Action) (m : Manager) (cs : List Call) : Manager :=
  cs.foldl (call app) m

section Events

variable (lib : NumberText) (app : Call → List Action) (e : TouchEventData)

/-- The loop over the buttons. -/
def buttonEvent (m : Manager) (i : Nat) : Manager :=
  match m.buttons[i]? with
  | none => m
  | some en =>
      let (b, states) := en.widget.handleEvent e
      callAll app { m with buttons := m.buttons.set i { en with widget := b } }
        (states.map (.button i))

/-- The loop over the sliders. -/
def sliderEvent (m : Manager) (i : Nat) : Manager :=
  match m.sliders[i]? with
  | none => m
  | some en =>
      let (s, values) := en.widget.handleEvent e
      callAll app { m with sliders := m.sliders.set i { en with widget := s } }
        (values.map (.slider i))

/-- The loop over the dials. -/
def dialEvent (m : Manager) (i : Nat) : Manager :=
  match m.dials[i]? with
  | none => m
  | some en =>
      let (d, values) := en.widget.handleEvent e
      callAll app { m with dials := m.dials.set i { en with widget := d } } (values.map (.dial i))

/-- The loop over the combo boxes. -/
def comboEvent (m : Manager) (i : Nat) : Manager :=
  match m.combos[i]? with
  | none => m
  | some en =>
      let (c, idx) := en.widget.handleEvent e
      callAll app { m with combos := m.combos.set i { en with widget := c } }
        (idx.toList.map (.combo i))

/-- The loop over the text fields. -/
def editEvent (m : Manager) (i : Nat) : Manager :=
  match m.edits[i]? with
  | none => m
  | some en =>
      let (t, kb, confirmed) := en.widget.handleEvent i m.keyboard e
      callAll app
        { m with edits := m.edits.set i { en with widget := t }, keyboard := kb }
        (if confirmed then [.editConfirm i t.text] else [])

/-- The loop over the number fields. -/
def spinEvent (m : Manager) (i : Nat) : Manager :=
  match m.spins[i]? with
  | none => m
  | some en =>
      let (s, kb, values) := en.widget.handleEvent lib i m.keyboard e
      callAll app
        { m with spins := m.spins.set i { en with widget := s }, keyboard := kb }
        (values.map (.spin i))

/-- The text of a key comes to the field that is bound. -/
def deliver (m : Manager) : KeyboardWidget.Delivery → Manager
  | none => m
  | some (.edit i, text) =>
      callAll app
        { m with
          edits := m.edits.modify i (Entry.map fun t => { t with text := text }) }
        [.editChange i text]
  | some (.spin i, text) =>
      { m with spins := m.spins.modify i (Entry.map fun s => { s with editBuf := text }) }

/-- The loops over all widgets. -/
def widgetsEvent (m : Manager) : Manager :=
  let m := (List.range m.buttons.length).foldl (buttonEvent app e) m
  let m := (List.range m.sliders.length).foldl (sliderEvent app e) m
  let m := (List.range m.dials.length).foldl (dialEvent app e) m
  let m := (List.range m.combos.length).foldl (comboEvent app e) m
  let m := (List.range m.edits.length).foldl (editEvent app e) m
  (List.range m.spins.length).foldl (spinEvent lib app e) m

/-- The open dialog. -/
def dialogEvent (m : Manager) (i : Nat) : Manager :=
  match m.dialogs[i]? with
  | none => m
  | some en =>
      let (d, result) := en.widget.handleEvent e
      callAll app { m with dialogs := m.dialogs.set i { en with widget := d } }
        (result.toList.map (.dialog i))

/-- `handleEvent`. -/
def handleEvent (m : Manager) : Manager :=
  match m.dialogs.findIdx? fun en => en.widget.isVisible with
  | some i => m.dialogEvent app e i
  | none =>
      match m.keyboard.handleEvent e with
      | some (kb, delivery) => { m with keyboard := kb }.deliver app delivery
      | none => m.widgetsEvent lib app e

/-- The loop of `update`. -/
def buttonUpdate (nowMs : UInt32) (m : Manager) (i : Nat) : Manager :=
  match m.buttons[i]? with
  | none => m
  | some en =>
      let (b, states) := en.widget.update nowMs
      callAll app { m with buttons := m.buttons.set i { en with widget := b } }
        (states.map (.button i))

/-- `update`. -/
def update (nowMs : UInt32) (m : Manager) : Manager :=
  (List.range m.buttons.length).foldl (buttonUpdate app nowMs) m

end Events

end Manager

end MFoES.Uisys
