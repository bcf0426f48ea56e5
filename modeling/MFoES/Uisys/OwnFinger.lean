import MFoES.Lib.Reactive
import MFoES.Touch.Bracketing
import MFoES.Uisys.Widgets

/-!
# Widgets and foreign fingers

The touch layer gives every event the id of its finger, but no widget looks at it: a button has
one flag for pressed, and a slider and a dial have one for dragging.  A finger that comes down
elsewhere does nothing to a widget that waits.  Once the widget is engaged, it takes the release
and the moves of any finger, wherever they are, for those of its own (`handleEvent_outside_iff`).

So the events of other fingers can be left out when none of these comes while the widget is
engaged (`run_ownFinger`).
-/

namespace MFoES.Uisys

open MFoES.Touch Reactive

/-- A widget that follows a finger. -/
inductive Widget
  | button (b : ButtonWidget)
  | slider (s : SliderWidget)
  | dial (d : DialWidget)
  deriving DecidableEq

/-- A call of a widget's callback. -/
inductive Callback
  | action (state : ButtonState)
  | change (value : Float32)
  deriving DecidableEq

/-- What a widget is given. -/
inductive WidgetEvent
  | touch (e : TouchEventData)
  /-- `update`, with the time. -/
  | update (nowMs : UInt32)

namespace Widget

/-- A reaction of one kind of widget. -/
def reaction {ω ο : Type} (widget : ω → Widget) (callback : ο → Callback) (r : ω × List ο) :
    Widget × List Callback := (widget r.1, r.2.map callback)

/-- `handleEvent`. -/
def handleEvent (e : TouchEventData) : Widget → Widget × List Callback
  | .button b => reaction .button .action (b.handleEvent e)
  | .slider s => reaction .slider .change (s.handleEvent e)
  | .dial d => reaction .dial .change (d.handleEvent e)

/-- `handleEvent` and `update`. -/
def react (w : Widget) : WidgetEvent → Widget × List Callback
  | .touch e => w.handleEvent e
  | .update nowMs =>
      match w with
      | .button b => reaction .button .action (b.update nowMs)
      | w => (w, [])

/-- A point is inside the widget. -/
def inside (p : TouchPoint) : Widget → Bool
  | .button b => b.hitTest p
  | .slider s => s.trackHitTest p
  | .dial d => d.hitTest p

/-- The widget reacts to such an event at any point. -/
def engaged (event : TouchEvent) : Widget → Bool
  | .button b => b.visibleWidget && b.pressed && (event = .move || event = .release)
  | .slider s => s.visibleWidget && s.dragging && event ≠ .press
  | .dial d => d.visibleWidget && d.dragging && (event = .move || event = .release)

/-! ## One event -/

theorem letGo_ne {b : ButtonWidget} (state : ButtonState) (h : b.pressed = true) :
    b.letGo state ≠ (b, []) := by
  intro heq
  have hpressed : (b.letGo state).1.pressed = false := rfl
  rw [heq, h] at hpressed
  cases hpressed

theorem button_outside_iff {b : ButtonWidget} {e : TouchEventData}
    (hout : b.hitTest e.point = false) :
    b.handleEvent e = (b, []) ↔ (button b).engaged e.event = false := by
  rw [ButtonWidget.handleEvent, engaged]
  cases hvisible : b.visibleWidget with
  | false => simp
  | true =>
      cases hpressed : b.pressed with
      | false => cases e.event <;> simp [hout]
      | true =>
          cases e.event with
          | press => simp [hout]
          | hold => simp [hout]
          | move => simp [hout, letGo_ne _ hpressed]
          | release => simp [letGo_ne _ hpressed]

theorem slider_outside_iff {s : SliderWidget} {e : TouchEventData}
    (hout : s.trackHitTest e.point = false) :
    s.handleEvent e = (s, []) ↔ (slider s).engaged e.event = false := by
  rw [SliderWidget.handleEvent, engaged]
  cases hvisible : s.visibleWidget with
  | false => simp
  | true =>
      cases hdragging : s.dragging with
      | false => cases e.event <;> simp [hout]
      | true => cases e.event <;> simp [hout, SliderWidget.follow]

theorem dial_outside_iff {d : DialWidget} {e : TouchEventData}
    (hout : d.hitTest e.point = false) :
    d.handleEvent e = (d, []) ↔ (dial d).engaged e.event = false := by
  obtain ⟨cx, cy, radius, value, minVal, maxVal, dragging, visibleWidget⟩ := d
  rw [DialWidget.handleEvent, engaged]
  cases visibleWidget with
  | false => simp
  | true =>
      cases dragging with
      | false => cases e.event <;> simp [hout]
      | true => cases e.event <;> simp [hout, DialWidget.follow]

/-- An event outside the widget does nothing exactly when the widget is not engaged. -/
theorem handleEvent_outside_iff {w : Widget} {e : TouchEventData}
    (hout : w.inside e.point = false) :
    w.handleEvent e = (w, []) ↔ w.engaged e.event = false := by
  cases w with
  | button b =>
      rw [← button_outside_iff hout]
      simp [handleEvent, reaction, Prod.ext_iff]
  | slider s =>
      rw [← slider_outside_iff hout]
      simp [handleEvent, reaction, Prod.ext_iff]
  | dial d =>
      rw [← dial_outside_iff hout]
      simp [handleEvent, reaction, Prod.ext_iff]

/-! ## Widgets stay where they are -/

/-- A button stays where it is. -/
theorem hitTest_handleEvent (b : ButtonWidget) (e : TouchEventData) (p : TouchPoint) :
    (b.handleEvent e).1.hitTest p = b.hitTest p := by
  unfold ButtonWidget.handleEvent
  split
  · split
    · split
      · unfold ButtonWidget.onPress
        dsimp only
        split <;> rfl
      · rfl
    · split <;> rfl
    · split <;> rfl
    · split <;> rfl
  · rfl

theorem hitTest_update (b : ButtonWidget) (nowMs : UInt32) (p : TouchPoint) :
    (b.update nowMs).1.hitTest p = b.hitTest p := by
  unfold ButtonWidget.update
  dsimp only
  repeat' split
  all_goals rfl

theorem inside_react (w : Widget) (e : WidgetEvent) (p : TouchPoint) :
    (w.react e).1.inside p = w.inside p := by
  cases w with
  | button b =>
      cases e with
      | touch e => exact hitTest_handleEvent b e p
      | update nowMs => exact hitTest_update b nowMs p
  | slider s =>
      cases e with
      | touch e =>
          show (s.handleEvent e).1.trackHitTest p = s.trackHitTest p
          unfold SliderWidget.handleEvent
          split
          · split <;> split <;> rfl
          · rfl
      | update nowMs => rfl
  | dial d =>
      cases e with
      | touch e =>
          show (d.handleEvent e).1.hitTest p = d.hitTest p
          unfold DialWidget.handleEvent
          split
          · split
            · split <;> rfl
            · split <;> rfl
            · rfl
            · rfl
          · rfl
      | update nowMs => rfl

/-! ## Every input -/

/-- The event is of a finger that does not follow the widget. -/
def foreign (others : UInt8 → Bool) : WidgetEvent → Bool
  | .touch e => others e.point.id
  | .update _ => false

/-- A foreign event comes from outside the widget. -/
def ComesOutside (w : Widget) (others : UInt8 → Bool) : WidgetEvent → Prop
  | .touch e => others e.point.id = true → w.inside e.point = false
  | .update _ => True

/-- A foreign event does not come while the widget is engaged. -/
def Waits (others : UInt8 → Bool) (w : Widget) : WidgetEvent → Prop
  | .touch e => others e.point.id = true → w.engaged e.event = false
  | .update _ => True

/-- Foreign events from outside, none of them while the widget is engaged, change neither what
the widget is nor what it gives to its callback. -/
theorem run_ownFinger (w : Widget) (others : UInt8 → Bool) (es : List WidgetEvent)
    (houtside : ∀ e ∈ es, w.ComesOutside others e) (hwaits : Along react (Waits others) w es) :
    run react w (es.filter fun e => !foreign others e) = run react w es := by
  refine run_filter ?_
  induction es generalizing w with
  | nil => trivial
  | cons e es ih =>
      obtain ⟨hwait, hwaits⟩ := hwaits
      refine ⟨?_, ih _ ?_ hwaits⟩
      · intro hkeep
        cases e with
        | update nowMs => cases hkeep
        | touch t =>
            have hothers : others t.point.id = true := by simpa [foreign] using hkeep
            exact (handleEvent_outside_iff (houtside _ List.mem_cons_self hothers)).mpr
              (hwait hothers)
      · intro e' he'
        have hout := houtside e' (List.mem_cons_of_mem _ he')
        cases e' with
        | update nowMs => trivial
        | touch t =>
            intro hothers
            rw [inside_react]
            exact hout hothers

/-! ## A button that is held -/

instance (w : Widget) (others : UInt8 → Bool) (e : WidgetEvent) :
    Decidable (w.ComesOutside others e) := by
  unfold ComesOutside
  split <;> infer_instance

instance (w : Widget) (others : UInt8 → Bool) (e : WidgetEvent) :
    Decidable (w.Waits others e) := by
  unfold Waits
  split <;> infer_instance

/-- The events of one finger. -/
def wordOf (id : UInt8) (es : List WidgetEvent) : List TouchEvent :=
  es.filterMap fun e =>
    match e with
    | .touch t => if t.point.id = id then some t.event else none
    | .update _ => none

/-- A finger at a place. -/
def touchAt (event : TouchEvent) (id : UInt8) (x y : UInt16) : WidgetEvent :=
  .touch ⟨event, ⟨id, x, y, 5, true⟩, 0, 0, 0⟩

/-- A `HOLD` button, as `boost` of the demo. -/
def boost : Widget := .button { x := 450, y := 600, w := 180, h := 60, mode := .hold }

/-- Finger 2 comes and goes before finger 1 comes to the button, and comes down while it holds
the button. -/
def patientFinger : List WidgetEvent :=
  [touchAt .press 2 50 50, touchAt .move 2 60 50, touchAt .release 2 60 50,
    touchAt .press 1 500 620, touchAt .press 2 50 50, touchAt .hold 1 500 620,
    touchAt .hold 2 50 50, touchAt .release 1 500 620]

theorem run_patientFinger :
    run react boost (patientFinger.filter fun e => !foreign (· == 2) e) =
      run react boost patientFinger :=
  run_ownFinger boost (· == 2) patientFinger (by decide) (by decide)

/-- Finger 2 taps elsewhere while finger 1 holds the button. -/
def impatientFinger : List WidgetEvent :=
  [touchAt .press 1 500 620, touchAt .hold 1 500 620, touchAt .press 2 50 50,
    touchAt .release 2 50 50, touchAt .move 1 505 620]

/-- The tap ends the hold. -/
theorem run_impatientFinger :
    (run react boost impatientFinger).2 = [.action .holdStart, .action .holdEnd] ∧
      (run react boost (impatientFinger.filter fun e => !foreign (· == 2) e)).2 =
        [.action .holdStart] := by
  decide

/-- Foreign events can change what a widget does, also where they are brackets and outside. -/
theorem not_ownFinger :
    ¬ ∀ (w : Widget) (others : UInt8 → Bool) (es : List WidgetEvent),
      (∀ e ∈ es, w.ComesOutside others e) →
      (∀ id, others id = true → Transition.run Phase.next .up (wordOf id es) = some .up) →
      run react w (es.filter fun e => !foreign others e) = run react w es := by
  intro h
  have hsame := h boost (· == 2) impatientFinger (by decide) ?_
  · obtain ⟨hall, hown⟩ := run_impatientFinger
    rw [← hsame, hown] at hall
    cases hall
  · intro id hid
    rw [eq_of_beq hid]
    rfl

end Widget

end MFoES.Uisys
