import MFoES.App.RemoteInput
import MFoES.Lib.Reactive
import MFoES.Libgfx.DrawReplayWire
import MFoES.Touch.Bracketing

/-!
# The finger of the remote viewer

The mouse in the window of the viewer becomes touch on the panel.  The callback of the window
makes records of buttons and motion, and the main loop adds the hold; both use the same flag, last
position and latch.

What is sent is a finger, but for two things: a button that goes down while another one is down
presses a second time, and a hold is put at the last position, which a panel that has become
smaller need not have (`faithful_iff`).
-/

namespace MFoES.Tools

open MFoES.Libgfx MFoES.Touch
open MFoES.App (TouchRecord touchOf)

/-- `EV_PRESS`. -/
def evPress : UInt8 := 0

/-- `EV_RELEASE`. -/
def evRelease : UInt8 := 1

/-- `EV_MOVE`. -/
def evMove : UInt8 := 2

/-- `EV_HOLD`. -/
def evHold : UInt8 := 3

/-! ## The window -/

/-- The events of SDL that the window hands on. -/
inductive SdlEvent
  | mouseMotion (x y : Int32)
  | mouseButtonDown (x y : Int32) (button : UInt8)
  | mouseButtonUp (x y : Int32) (button : UInt8)

/-- `GFXEventType`. -/
inductive GFXEventType
  | mouseMove
  | mouseButtonDown
  | mouseButtonUp

/-- `GFXInputEvent`. -/
structure GFXInputEvent where
  type : GFXEventType
  x : Int16
  y : Int16
  button : UInt8

/-- What `processEvents` hands to the callback. -/
def processEvent : SdlEvent → GFXInputEvent
  | .mouseMotion x y => ⟨.mouseMove, x.toInt16, y.toInt16, 0⟩
  | .mouseButtonDown x y button => ⟨.mouseButtonDown, x.toInt16, y.toInt16, button - 1⟩
  | .mouseButtonUp x y button => ⟨.mouseButtonUp, x.toInt16, y.toInt16, button - 1⟩

/-! ## The viewer -/

/-- `Options`, as far as the touch emulation reads them. -/
structure Options where
  width : Int
  height : Int
  noInput : Bool
  holdMs : UInt32
  holdTolerance : Int

/-- The variables of `main` that the touch emulation uses. -/
structure Viewer where
  sizeChecked : Bool
  deviceW : Int
  deviceH : Int
  pointerDown : Bool
  lastX : Int
  lastY : Int
  pressX : Int
  pressY : Int
  pressMs : UInt32
  holdSent : Bool

/-- The viewer before its main loop. -/
def Options.start (opt : Options) : Viewer :=
  { sizeChecked := false, deviceW := opt.width, deviceH := opt.height, pointerDown := false,
    lastX := 0, lastY := 0, pressX := 0, pressY := 0, pressMs := 0, holdSent := false }

/-- A coordinate of the window, on the panel.  The product fits an `int` for every size that a
window can have. -/
def toDevice (v : Int16) (device window : Int) : Int :=
  let p := (v.toInt * device).tdiv (if 0 < window then window else 1)
  let p := if p < 0 then 0 else p
  if device ≤ p then device - 1 else p

namespace Viewer

/-- What a blob tells of the panel. -/
def checkSize (s : Viewer) (blob : List UInt8) : Viewer :=
  if s.sizeChecked then s
  else
    match drPeek (some blob) with
    | .ok hdr =>
        if 0 < hdr.width ∧ 0 < hdr.height then
          { s with sizeChecked := true, deviceW := hdr.width.toInt, deviceH := hdr.height.toInt }
        else { s with sizeChecked := true }
    | .error _ => { s with sizeChecked := true }

/-- The callback of the window. -/
def callback (opt : Options) (s : Viewer) (ev : GFXInputEvent) (nowMs : UInt32) :
    Viewer × List TouchRecord :=
  let px := toDevice ev.x s.deviceW opt.width
  let py := toDevice ev.y s.deviceH opt.height
  let r : TouchRecord :=
    { event := evPress, id := 0, x := .ofInt px, y := .ofInt py, size := 1, active := 0,
      durationMs := 0, dx := 0, dy := 0 }
  match ev.type with
  | .mouseButtonDown =>
      ({ s with
          pointerDown := true, pressMs := nowMs, pressX := px, pressY := py, holdSent := false,
          lastX := px, lastY := py },
        [{ r with event := evPress, active := 1 }])
  | .mouseButtonUp =>
      if !s.pointerDown then (s, [])
      else
        ({ s with pointerDown := false, holdSent := false, lastX := px, lastY := py },
          [{ r with event := evRelease, active := 0, durationMs := nowMs - s.pressMs }])
  | .mouseMove =>
      if !s.pointerDown then (s, [])
      else if px = s.lastX ∧ py = s.lastY then (s, [])
      else
        ({ s with lastX := px, lastY := py },
          [{ r with
              event := evMove, active := 1, durationMs := nowMs - s.pressMs,
              dx := .ofInt (px - s.lastX), dy := .ofInt (py - s.lastY) }])

/-- The main loop is to send a hold. -/
def holdDue (opt : Options) (s : Viewer) (nowMs : UInt32) : Prop :=
  opt.noInput = false ∧ s.pointerDown = true ∧ s.holdSent = false ∧ 0 < opt.holdMs ∧
    opt.holdMs ≤ nowMs - s.pressMs ∧
    (s.lastX - s.pressX) * (s.lastX - s.pressX) + (s.lastY - s.pressY) * (s.lastY - s.pressY) ≤
      opt.holdTolerance * opt.holdTolerance

instance (opt : Options) (s : Viewer) (nowMs : UInt32) : Decidable (s.holdDue opt nowMs) :=
  inferInstanceAs (Decidable (_ ∧ _ ∧ _ ∧ _ ∧ _ ∧ _ ≤ _))

/-- The hold that the main loop sends. -/
def holdRecord (s : Viewer) (nowMs : UInt32) : TouchRecord :=
  { event := evHold, id := 0, x := .ofInt s.lastX, y := .ofInt s.lastY, size := 1, active := 1,
    durationMs := nowMs - s.pressMs, dx := 0, dy := 0 }

/-- What comes to the viewer until its window is closed. -/
inductive Event
  /-- The session has a blob. -/
  | blob (blob : List UInt8)
  /-- The main loop looks at the clock. -/
  | round (nowMs : UInt32)
  | window (ev : SdlEvent) (nowMs : UInt32)

/-- What an event does, and the records that it sends. -/
def react (opt : Options) (s : Viewer) : Event → Viewer × List TouchRecord
  | .blob blob => (s.checkSize blob, [])
  | .round nowMs =>
      if s.holdDue opt nowMs then ({ s with holdSent := true }, [s.holdRecord nowMs]) else (s, [])
  | .window ev nowMs => if opt.noInput then (s, []) else s.callback opt (processEvent ev) nowMs

end Viewer

/-! ## A finger -/

/-- The event that a record stands for. -/
def eventOf (r : TouchRecord) : Option TouchEvent := (touchOf r).map TouchEventData.event

/-- The events of records. -/
def wordOfRecords (records : List TouchRecord) : List TouchEvent := records.filterMap eventOf

/-- The delta of a move. -/
def deltaOf (delta : TouchRecord → Int16) (r : TouchRecord) : Int :=
  match eventOf r with
  | some .move => (delta r).toInt
  | _ => 0

/-- The deltas of the moves, added up. -/
def moved (delta : TouchRecord → Int16) : List TouchRecord → Int
  | [] => 0
  | r :: records => deltaOf delta r + moved delta records

/-- Every move after a press is where the press and the deltas since then put it. -/
def AddsUp (records : List TouchRecord) : Prop :=
  ∀ before press since move after, records = before ++ press :: (since ++ move :: after) →
    eventOf press = some .press →
    (∀ r ∈ since, eventOf r = some .move ∨ eventOf r = some .hold) →
    eventOf move = some .move →
    (move.x.toNat : Int) = press.x.toNat + moved TouchRecord.dx (since ++ [move]) ∧
      (move.y.toNat : Int) = press.y.toNat + moved TouchRecord.dy (since ++ [move])

namespace Viewer

/-- A record lies on the panel. -/
def OnPanel (s : Viewer) (r : TouchRecord) : Prop :=
  (r.x.toNat : Int) < s.deviceW ∧ (r.y.toNat : Int) < s.deviceH

/-- What is sent in a run is what a finger would do. -/
structure Faithful (opt : Options) (es : List Event) : Prop where
  /-- Brackets, the last one possibly open, with at most one hold in each. -/
  brackets : ∃ phase, Transition.run Phase.next .up
    (wordOfRecords (Reactive.run (react opt) opt.start es).2) = some phase
  onPanel : Reactive.Along (react opt) (fun s e => ∀ r ∈ (s.react opt e).2, s.OnPanel r)
    opt.start es
  addsUp : AddsUp (Reactive.run (react opt) opt.start es).2

/-- No button goes down while the pointer is down, and a hold that is due has its place on the
panel. -/
def OneFinger (opt : Options) (s : Viewer) : Event → Prop
  | .blob _ => True
  | .round nowMs => s.holdDue opt nowMs → s.lastX < s.deviceW ∧ s.lastY < s.deviceH
  | .window (.mouseButtonDown ..) _ => s.pointerDown = false
  | .window .. => True

end Viewer

/-! ## Reading records -/

/-- Where a finger is, by the records so far. -/
inductive Stroke
  | up
  | down (x y : Int) (held : Bool)

/-- The next record of a finger. -/
def Stroke.next (st : Stroke) (r : TouchRecord) : Option Stroke :=
  match st, eventOf r with
  | .up, some .press => some (.down r.x.toNat r.y.toNat false)
  | .down x y held, some .move =>
      if (r.x.toNat : Int) = x + r.dx.toInt ∧ (r.y.toNat : Int) = y + r.dy.toInt then
        some (.down r.x.toNat r.y.toNat held)
      else none
  | .down x y false, some .hold => some (.down x y true)
  | .down .., some .release => some .up
  | _, _ => none

/-- The phase of a finger. -/
def Stroke.phase : Stroke → Phase
  | .up => .up
  | .down _ _ false => .down
  | .down _ _ true => .held

theorem phase_next {st st' : Stroke} {r : TouchRecord} (h : st.next r = some st') :
    ∃ ev, eventOf r = some ev ∧ Phase.next st.phase ev = some st'.phase := by
  unfold Stroke.next at h
  split at h
  · next hev =>
    cases h
    exact ⟨_, hev, rfl⟩
  · next hev =>
    split at h
    · cases h
      refine ⟨_, hev, ?_⟩
      unfold Stroke.phase
      split <;> simp_all [Phase.next]
    · cases h
  · next hev =>
    cases h
    exact ⟨_, hev, rfl⟩
  · next x y held hev =>
    cases h
    refine ⟨_, hev, ?_⟩
    cases held <;> rfl
  · cases h

/-- The events of a finger's records are brackets. -/
theorem phase_run {st st' : Stroke} {records : List TouchRecord}
    (h : Transition.run Stroke.next st records = some st') :
    Transition.run Phase.next st.phase (wordOfRecords records) = some st'.phase := by
  induction records generalizing st with
  | nil =>
      cases h
      rfl
  | cons r records ih =>
      rw [Transition.run, Option.bind_eq_some_iff] at h
      obtain ⟨mid, hnext, hrest⟩ := h
      obtain ⟨ev, hev, hphase⟩ := phase_next hnext
      rw [wordOfRecords, List.filterMap_cons_some hev, Transition.run_cons hphase]
      exact ih hrest

/-- Moves and holds leave a finger where the deltas put it. -/
theorem run_down {records : List TouchRecord} {x y : Int} {held : Bool} {st : Stroke}
    (hmid : ∀ r ∈ records, eventOf r = some .move ∨ eventOf r = some .hold)
    (h : Transition.run Stroke.next (.down x y held) records = some st) :
    ∃ held', st =
      .down (x + moved TouchRecord.dx records) (y + moved TouchRecord.dy records) held' := by
  induction records generalizing x y held with
  | nil =>
      cases h
      exact ⟨held, by simp [moved]⟩
  | cons r records ih =>
      rw [Transition.run, Option.bind_eq_some_iff] at h
      obtain ⟨mid, hnext, hrest⟩ := h
      have hmid' := fun r' hr' => hmid r' (List.mem_cons_of_mem r hr')
      rcases hmid r List.mem_cons_self with hev | hev
      · simp only [Stroke.next, hev, Option.ite_none_right_eq_some, Option.some.injEq] at hnext
        obtain ⟨⟨hx, hy⟩, rfl⟩ := hnext
        rw [hx, hy] at hrest
        obtain ⟨held', rfl⟩ := ih hmid' hrest
        refine ⟨held', ?_⟩
        simp only [moved, deltaOf, hev, Int.add_assoc]
      · cases held with
        | true => simp [Stroke.next, hev] at hnext
        | false =>
            simp only [Stroke.next, hev, Option.some.injEq] at hnext
            subst hnext
            obtain ⟨held', rfl⟩ := ih hmid' hrest
            refine ⟨held', ?_⟩
            simp only [moved, deltaOf, hev, Int.zero_add]

/-- The records of a finger add up. -/
theorem addsUp_of_run {st : Stroke} {records : List TouchRecord}
    (h : Transition.run Stroke.next .up records = some st) : AddsUp records := by
  intro before press since move after heq hpress hsince hmove
  subst heq
  obtain ⟨st₁, -, h⟩ := Transition.run_of_append h
  rw [Transition.run, Option.bind_eq_some_iff] at h
  obtain ⟨st₂, hnext, h⟩ := h
  have hst₂ : st₂ = .down press.x.toNat press.y.toNat false := by
    cases st₁ with
    | up => simpa [Stroke.next, hpress] using hnext.symm
    | down x y held => cases held <;> simp [Stroke.next, hpress] at hnext
  subst hst₂
  rw [List.append_cons] at h
  obtain ⟨st₃, hrun, -⟩ := Transition.run_of_append h
  obtain ⟨st₄, hbefore, hlast⟩ := Transition.run_of_append hrun
  -- where the last move ends, by its own coordinates and by the deltas
  obtain ⟨held, rfl⟩ := run_down hsince hbefore
  have hall : ∀ r ∈ since ++ [move], eventOf r = some .move ∨ eventOf r = some .hold := by
    intro r hr
    rw [List.mem_append, List.mem_singleton] at hr
    rcases hr with hr | rfl
    · exact hsince r hr
    · exact Or.inl hmove
  obtain ⟨held', rfl⟩ := run_down hall hrun
  rw [Transition.run, Option.bind_eq_some_iff] at hlast
  obtain ⟨st₅, hlast, hend⟩ := hlast
  cases hend
  simp only [Stroke.next, hmove, Option.ite_none_right_eq_some, Option.some.injEq,
    Stroke.down.injEq] at hlast
  exact ⟨hlast.2.1, hlast.2.2.1⟩

/-! ## Places -/

/-- A side of the panel: that of the window, or one that a blob gave. -/
def Side (window device : Int) : Prop := 0 < device ∧ (device = window ∨ device < 2 ^ 15)

/-- A coordinate that a record can have. -/
def Fits (p : Int) : Prop := 0 ≤ p ∧ p < 2 ^ 15

theorem fits_zero : Fits 0 := ⟨Int.le_refl 0, by decide⟩

theorem toNat_of_fits {p : Int} (h : Fits p) : ((UInt16.ofInt p).toNat : Int) = p := by
  obtain ⟨hp, hlt⟩ := h
  have hmod : p % 2 ^ 16 = p := Int.emod_eq_of_lt hp (by omega)
  rw [UInt16.ofInt, hmod, UInt16.toNat_ofNat_of_lt' (by simp; omega)]
  exact Int.toNat_of_nonneg hp

theorem toInt_of_fits {p q : Int} (hp : Fits p) (hq : Fits q) :
    (Int16.ofInt (p - q)).toInt = p - q := by
  unfold Fits at hp hq
  exact Int16.toInt_ofInt_of_le (by omega) (by omega)

/-- A place of the window is one of the panel. -/
theorem toDevice_bounds {window device : Int} (hside : Side window device) (v : Int16) :
    Fits (toDevice v device window) ∧ toDevice v device window < device := by
  obtain ⟨hpos, hdev⟩ := hside
  have hlt := Int16.toInt_lt v
  have hv : device = window →
      (v.toInt * device).tdiv (if 0 < window then window else 1) = v.toInt := by
    rintro rfl
    rw [if_pos hpos, Int.mul_tdiv_cancel _ (Int.ne_of_gt hpos)]
  unfold Fits toDevice
  generalize hq : (v.toInt * device).tdiv (if 0 < window then window else 1) = q at hv ⊢
  dsimp only
  rcases hdev with hdev | hdev
  · rw [hv hdev]
    split <;> split <;> omega
  · split <;> split <;> omega

namespace Viewer

/-- What holds in every run. -/
structure Sane (opt : Options) (s : Viewer) : Prop where
  watching : opt.noInput = true → s.pointerDown = false
  width : Side opt.width s.deviceW
  height : Side opt.height s.deviceH
  lastX : Fits s.lastX
  lastY : Fits s.lastY

variable {opt : Options} {s : Viewer}

theorem Sane.start (hw : 0 < opt.width) (hh : 0 < opt.height) : opt.start.Sane opt where
  watching := fun _ => rfl
  width := ⟨hw, Or.inl rfl⟩
  height := ⟨hh, Or.inl rfl⟩
  lastX := fits_zero
  lastY := fits_zero

/-- A blob leaves all but the panel, and gives this no other sides than positive ones of 16 bits. -/
theorem checkSize_cases (s : Viewer) (blob : List UInt8) :
    ∃ w h, s.checkSize blob = { s with sizeChecked := true, deviceW := w, deviceH := h } ∧
      (w = s.deviceW ∧ h = s.deviceH ∨ (0 < w ∧ w < 2 ^ 15) ∧ 0 < h ∧ h < 2 ^ 15) := by
  unfold checkSize
  split
  · next hchecked => exact ⟨_, _, by rw [← hchecked], Or.inl ⟨rfl, rfl⟩⟩
  · split
    · next hdr _ =>
      split
      · next hpos =>
        exact ⟨_, _, rfl, Or.inr ⟨⟨Int16.lt_iff_toInt_lt.mp hpos.1, hdr.width.toInt_lt⟩,
          Int16.lt_iff_toInt_lt.mp hpos.2, hdr.height.toInt_lt⟩⟩
      · exact ⟨_, _, rfl, Or.inl ⟨rfl, rfl⟩⟩
    · exact ⟨_, _, rfl, Or.inl ⟨rfl, rfl⟩⟩

theorem Sane.checkSize (h : s.Sane opt) (blob : List UInt8) : (s.checkSize blob).Sane opt := by
  obtain ⟨w, height, heq, ⟨rfl, rfl⟩ | ⟨⟨hw, hw'⟩, hh, hh'⟩⟩ := s.checkSize_cases blob
  · rw [heq]
    exact ⟨h.watching, h.width, h.height, h.lastX, h.lastY⟩
  · rw [heq]
    exact ⟨h.watching, ⟨hw, Or.inr hw'⟩, ⟨hh, Or.inr hh'⟩, h.lastX, h.lastY⟩

/-- The finger as the viewer has it. -/
def stroke (s : Viewer) : Stroke :=
  if s.pointerDown then .down s.lastX s.lastY s.holdSent else .up

/-- A finger goes on from the viewer's flag, place and latch to the next ones, on the panel. -/
structure Goes (s t : Viewer) (records : List TouchRecord) : Prop where
  stroke : Transition.run Stroke.next s.stroke records = some t.stroke
  onPanel : ∀ r ∈ records, s.OnPanel r

theorem Goes.still {t : Viewer} (h : t.stroke = s.stroke) : s.Goes t [] :=
  ⟨by rw [h]; rfl, nofun⟩

theorem Goes.one {t : Viewer} {r : TouchRecord} (h : s.stroke.next r = some t.stroke)
    (hpanel : s.OnPanel r) : s.Goes t [r] := by
  refine ⟨Transition.run_cons h [], fun r' hr' => ?_⟩
  rw [List.mem_singleton] at hr'
  rw [hr']
  exact hpanel

theorem stroke_checkSize (s : Viewer) (blob : List UInt8) :
    (s.checkSize blob).stroke = s.stroke := by
  obtain ⟨w, h, heq, -⟩ := s.checkSize_cases blob
  rw [heq]
  rfl

/-- The callback keeps what holds in every run. -/
theorem Sane.callback (h : s.Sane opt) (hinput : opt.noInput = false) (ev : GFXInputEvent)
    (nowMs : UInt32) : (s.callback opt ev nowMs).1.Sane opt := by
  have hx := (toDevice_bounds h.width ev.x).1
  have hy := (toDevice_bounds h.height ev.y).1
  have hwatch : ∀ t : Viewer, opt.noInput = true → t.pointerDown = false := by
    intro t hno
    rw [hinput] at hno
    cases hno
  unfold Viewer.callback
  split
  · exact ⟨hwatch _, h.width, h.height, hx, hy⟩
  · dsimp only
    split
    · exact h
    · exact ⟨hwatch _, h.width, h.height, hx, hy⟩
  · dsimp only
    split
    · exact h
    · split
      · exact h
      · exact ⟨hwatch _, h.width, h.height, hx, hy⟩

theorem Sane.react (h : s.Sane opt) (e : Event) : (s.react opt e).1.Sane opt := by
  cases e with
  | blob blob => exact h.checkSize blob
  | round nowMs =>
      rw [Viewer.react]
      split
      · exact ⟨h.watching, h.width, h.height, h.lastX, h.lastY⟩
      · exact h
  | window ev nowMs =>
      rw [Viewer.react]
      split
      · exact h
      · next hinput => exact h.callback (Bool.eq_false_iff.mpr hinput) _ nowMs

theorem onPanel_of_fits {r : TouchRecord} {px py : Int} (hx : Fits px) (hy : Fits py)
    (hrx : r.x = .ofInt px) (hry : r.y = .ofInt py) (hw : px < s.deviceW) (hh : py < s.deviceH) :
    s.OnPanel r := by
  unfold OnPanel
  rw [hrx, hry, toNat_of_fits hx, toNat_of_fits hy]
  exact ⟨hw, hh⟩

/-- The callback is that of a finger, unless a second button goes down. -/
theorem goes_callback (h : s.Sane opt) (ev : GFXInputEvent) (nowMs : UInt32)
    (hone : ev.type = .mouseButtonDown → s.pointerDown = false) :
    s.Goes (s.callback opt ev nowMs).1 (s.callback opt ev nowMs).2 := by
  obtain ⟨hx, hw⟩ := toDevice_bounds h.width ev.x
  obtain ⟨hy, hh⟩ := toDevice_bounds h.height ev.y
  unfold Viewer.callback
  generalize toDevice ev.x s.deviceW opt.width = px at hx hw
  generalize toDevice ev.y s.deviceH opt.height = py at hy hh
  have hpx := toNat_of_fits hx
  have hpy := toNat_of_fits hy
  split
  · next htype =>
    refine Goes.one ?_ (onPanel_of_fits hx hy rfl rfl hw hh)
    simp [stroke, hone htype, Stroke.next, eventOf, touchOf, evPress, hpx, hpy]
  · dsimp only
    cases hdown : s.pointerDown with
    | false => exact Goes.still rfl
    | true =>
        refine Goes.one ?_ (onPanel_of_fits hx hy rfl rfl hw hh)
        simp [stroke, hdown, Stroke.next, eventOf, touchOf, evRelease]
  · dsimp only
    cases hdown : s.pointerDown with
    | false => exact Goes.still rfl
    | true =>
        have hdx := toInt_of_fits hx h.lastX
        have hdy := toInt_of_fits hy h.lastY
        rw [Bool.not_true, if_neg Bool.false_ne_true]
        split
        · exact Goes.still rfl
        · refine Goes.one ?_ (onPanel_of_fits hx hy rfl rfl hw hh)
          generalize Int16.ofInt (px - s.lastX) = dx at hdx ⊢
          generalize Int16.ofInt (py - s.lastY) = dy at hdy ⊢
          simp [stroke, hdown, Stroke.next, eventOf, touchOf, evMove, hpx, hpy, hdx, hdy]

/-- Every event is that of a finger, if it is one of one finger. -/
theorem goes_react (h : s.Sane opt) (e : Event) (hone : s.OneFinger opt e) :
    s.Goes (s.react opt e).1 (s.react opt e).2 := by
  cases e with
  | blob blob => exact Goes.still (stroke_checkSize s blob)
  | round nowMs =>
      rw [Viewer.react]
      split
      · next hdue =>
        obtain ⟨hw, hh⟩ := hone hdue
        refine Goes.one ?_ (onPanel_of_fits h.lastX h.lastY rfl rfl hw hh)
        simp [stroke, hdue.2.1, hdue.2.2.1, Stroke.next, eventOf, touchOf, holdRecord, evHold]
      · exact Goes.still rfl
  | window ev nowMs =>
      rw [Viewer.react]
      split
      · exact Goes.still rfl
      · refine goes_callback h _ nowMs fun htype => ?_
        cases ev with
        | mouseMotion x y => cases htype
        | mouseButtonDown x y button => exact hone
        | mouseButtonUp x y button => cases htype

/-- A second button makes a word of no finger, and a hold that has no place on the panel is sent
off it. -/
theorem broken_react (h : s.Sane opt) (e : Event) (hmany : ¬ s.OneFinger opt e) :
    Transition.run Phase.next s.stroke.phase (wordOfRecords (s.react opt e).2) = none ∨
      ¬ ∀ r ∈ (s.react opt e).2, s.OnPanel r := by
  cases e with
  | blob blob => exact absurd trivial hmany
  | round nowMs =>
      right
      rw [OneFinger, Classical.not_imp] at hmany
      obtain ⟨hdue, hoff⟩ := hmany
      rw [Viewer.react, if_pos hdue]
      intro hpanel
      have hp := hpanel _ (List.mem_singleton_self _)
      unfold OnPanel holdRecord at hp
      rw [toNat_of_fits h.lastX, toNat_of_fits h.lastY] at hp
      exact hoff hp
  | window ev nowMs =>
      left
      cases ev with
      | mouseMotion x y => exact absurd trivial hmany
      | mouseButtonUp x y button => exact absurd trivial hmany
      | mouseButtonDown x y button =>
          have hdown : s.pointerDown = true := Bool.eq_true_of_not_eq_false hmany
          have hinput : opt.noInput = false := by
            rw [← Bool.not_eq_true]
            intro hno
            rw [h.watching hno] at hdown
            cases hdown
          rw [Viewer.react, hinput]
          cases hheld : s.holdSent <;>
            simp [processEvent, Viewer.callback, wordOfRecords, eventOf, touchOf, evPress, stroke,
              hdown, hheld, Stroke.phase, Transition.run, Phase.next]

/-! ## Every run -/

open Reactive

/-- While there is one finger, the records are a finger's, on the panel. -/
theorem goes_run {es : List Event} (h : s.Sane opt)
    (hone : Along (react opt) (OneFinger opt) s es) :
    Transition.run Stroke.next s.stroke (run (react opt) s es).2 =
        some (run (react opt) s es).1.stroke ∧
      Along (react opt) (fun s e => ∀ r ∈ (s.react opt e).2, s.OnPanel r) s es := by
  induction es generalizing s with
  | nil => exact ⟨rfl, trivial⟩
  | cons e es ih =>
      have hgo := goes_react h e hone.1
      obtain ⟨hrest, hpanel⟩ := ih (h.react e) hone.2
      exact ⟨Transition.run_trans hgo.stroke hrest, hgo.onPanel, hpanel⟩

/-- Records that are brackets on the panel are of one finger. -/
theorem oneFinger_of_brackets {es : List Event} {phase : Phase} (h : s.Sane opt)
    (hword : Transition.run Phase.next s.stroke.phase
      (wordOfRecords (run (react opt) s es).2) = some phase)
    (hpanel : Along (react opt) (fun s e => ∀ r ∈ (s.react opt e).2, s.OnPanel r) s es) :
    Along (react opt) (OneFinger opt) s es := by
  induction es generalizing s with
  | nil => trivial
  | cons e es ih =>
      rw [run, wordOfRecords, List.filterMap_append] at hword
      obtain ⟨mid, hfirst, hrest⟩ := Transition.run_of_append hword
      have hone : s.OneFinger opt e := by
        by_contra hmany
        rcases broken_react h e hmany with hnone | hoff
        · rw [wordOfRecords, hfirst] at hnone
          cases hnone
        · exact hoff hpanel.1
      have hmid := phase_run (goes_react h e hone).stroke
      rw [wordOfRecords, hfirst, Option.some.injEq] at hmid
      subst hmid
      exact ⟨hone, ih (h.react e) hrest hpanel.2⟩

/-- The viewer's records are those of a finger exactly while no button goes down in a press and
no hold is due off the panel. -/
theorem faithful_iff (opt : Options) (hw : 0 < opt.width) (hh : 0 < opt.height)
    (es : List Event) : Faithful opt es ↔ Along (react opt) (OneFinger opt) opt.start es := by
  have hstart := Sane.start hw hh
  constructor
  · intro hfaithful
    obtain ⟨phase, hword⟩ := hfaithful.brackets
    exact oneFinger_of_brackets hstart hword hfaithful.onPanel
  · intro hone
    obtain ⟨hrun, hpanel⟩ := goes_run hstart hone
    exact ⟨⟨_, phase_run hrun⟩, hpanel, addsUp_of_run hrun⟩

/-- The options of a plain start. -/
def defaultOptions : Options :=
  { width := 1280, height := 720, noInput := false, holdMs := 500, holdTolerance := 3 }

/-- A press, a motion, and a hold at the end of it. -/
def drag : List Event :=
  [.window (.mouseButtonDown 10 20 1) 0, .window (.mouseMotion 12 19) 100, .round 600,
    .window (.mouseButtonUp 12 19 1) 700]

theorem faithful_drag : Faithful defaultOptions drag :=
  (faithful_iff defaultOptions (by decide) (by decide) drag).mpr
    ⟨rfl, trivial, fun _ => by decide, trivial, trivial⟩

/-- The right button goes down while the left one is. -/
def twoButtons : List Event :=
  [.window (.mouseButtonDown 10 20 1) 0, .window (.mouseButtonDown 10 20 3) 100]

/-- The pointer is at the far corner of the window when the first blob tells of a panel of 320 by
240. -/
def smallPanel : List Event :=
  [.window (.mouseButtonDown 1279 719 1) 0,
    .blob (drSyncMagic ++ [1, 0, 0, 0, 0x40, 1, 0xF0, 0, 0, 0, 0, 0, 0, 0, 0, 0]), .round 600]

/-- Two buttons are two presses, and the hold is sent off the new panel. -/
theorem not_faithful :
    ¬ Faithful defaultOptions twoButtons ∧ ¬ Faithful defaultOptions smallPanel := by
  constructor
  · intro h
    obtain ⟨phase, hword⟩ := h.brackets
    have hnone : Transition.run Phase.next .up
        (wordOfRecords (run (react defaultOptions) defaultOptions.start twoButtons).2) = none := by
      decide
    rw [hnone] at hword
    cases hword
  · intro h
    have hhold := h.onPanel.2.2.1 ⟨evHold, 0, 1279, 719, 1, 1, 600, 0, 0⟩ (by decide)
    exact absurd hhold.1 (by decide)

end Viewer

end MFoES.Tools
