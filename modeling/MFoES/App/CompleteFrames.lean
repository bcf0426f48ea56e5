import MFoES.App.RedrawFlags

/-!
# Complete frames

A swap clears the buffer of the next frame, so a frame has to be drawn with everything that is to
be seen.  `planFrame` asks of each element whether there is a reason to draw it.  A reason that it
comes to later does not bring in what it has left out by then: a status message alone brings in the
widgets and neither the picture nor the system information, and one that is set while the plan is
made not even the widgets.  Otherwise every frame is complete (`complete_run`).
-/

namespace MFoES.App

open Transition

/-- What is to be seen.  The main thread changes it between two frames only. -/
def View.visible (v : View) : Layer → Bool
  | .black => false
  | .dts => v.hasFrame
  | .dataIn => v.showDataIn
  | .about => v.showAbout
  | .sysInfo => v.ssui
  | .widgets => !v.hideUi
  | .status => true

theorem visible_mem_drawFrame {plan : RenderPlan} {v : View}
    (hdts : v.hasFrame = true → plan.dts = true) (hdataIn : plan.dataIn = v.showDataIn)
    (habout : plan.about = v.showAbout) (hsysInfo : v.ssui = true → plan.sysInfo = true)
    (hwidgets : v.hideUi = false → plan.widgets = true) (hstatus : plan.status = true) (l : Layer)
    (hl : v.visible l = true) : l ∈ drawFrame plan v.hasFrame := by
  cases l with
  | black => cases hl
  | dts =>
      change v.hasFrame = true at hl
      simp [drawFrame, hdts hl, hl]
  | dataIn =>
      change v.showDataIn = true at hl
      simp [drawFrame, hdataIn, hl]
  | about =>
      change v.showAbout = true at hl
      simp [drawFrame, habout, hl]
  | sysInfo => simp [drawFrame, hsysInfo hl]
  | widgets =>
      have hshown : v.hideUi = false := by simpa [View.visible] using hl
      simp [drawFrame, hwidgets hshown]
  | status => exact status_mem_drawFrame hstatus _

/-! ## The application -/

/-- The screen, and the flag by which `usbLoop` hands over a picture. -/
structure Mfd where
  screen : Screen
  frameReady : Bool := false

/-- What happens in the application. -/
inductive MfdEvent
  /-- A thread sets the status message. -/
  | message
  /-- `usbLoop` has copied a tile. -/
  | tile
  /-- `usbLoop` has lost the connection. -/
  | disconnect
  /-- `process` takes the picture over. -/
  | take
  /-- An input or an action changes what is shown, or asks for a redraw. -/
  | act (v : View)
  /-- An action sets `RRFF`. -/
  | force
  /-- `process` updates the system information. -/
  | tick
  /-- The main thread calls `render`. -/
  | call (arg : Bool)
  /-- `render` does its next line. -/
  | line (attached : Bool)
  deriving DecidableEq

namespace Mfd

/-- The main thread does something between two frames. -/
def between (m : Mfd) (s : Screen) : Option Mfd :=
  if m.screen.render.isSome then none else some { m with screen := s }

def step (m : Mfd) : MfdEvent → Option Mfd
  | .message => some { m with screen := m.screen.raise .sysMsg }
  | .tile => some { m with frameReady := true }
  | .disconnect => some { m with frameReady := false }
  | .take =>
      if m.frameReady then m.between ({ m.screen with view.hasFrame := true }.raise .dts)
      else m.between m.screen
  | .act v =>
      m.between { m.screen with
        view := { v with hasFrame := m.screen.view.hasFrame, sysInfo := m.screen.view.sysInfo } }
  | .force => m.between (m.screen.raise .force)
  | .tick => m.between { m.screen with view.sysInfo := true }
  | .call arg => (m.screen.step (.call arg)).map fun s => { m with screen := s }
  | .line attached => (m.screen.step (.line attached)).map fun s => { m with screen := s }

/-- A frame that is to be swapped in has what was to be seen. -/
def Complete (m : Mfd) : Prop :=
  ∀ r ∈ m.screen.render, r.line = .swap → r.plan.any = true →
    ∀ l, m.screen.view.visible l = true → l ∈ r.drawn

end Mfd

namespace Screen

/-! ## Reasons to draw -/

/-- The picture, the data or the about view is drawn, or the frame is forced. -/
def paints (s : Screen) (r : Render) : Bool :=
  r.forceRender || s.raised .dts || s.view.showDataIn || s.view.showAbout

/-- There is a reason for a frame other than a message. -/
def asks (s : Screen) (r : Render) : Bool :=
  s.paints r || (s.view.ssui && (s.view.sysInfo || s.view.needsRedraw)) ||
    (!s.view.hideUi && s.view.needsRedraw)

/-- A frame that is drawn has a reason for the picture, if there is one, and for the system
information, if it is on. -/
def Justified (s : Screen) (r : Render) : Prop :=
  (s.raised .sysMsg || s.asks r) = true →
    (s.view.hasFrame = true → (s.raised .dts || r.forceRender) = true) ∧
    (s.view.ssui = true → (s.paints r || s.view.sysInfo || s.view.needsRedraw) = true)

instance (s : Screen) (r : Render) : Decidable (s.Justified r) := by
  unfold Justified
  infer_instance

end Screen

namespace Mfd

/-- When `planFrame` comes to the status line, the frame is justified; and no message is set after
it has planned the widgets, unless there is another reason to draw them. -/
def Keeps (m : Mfd) : MfdEvent → Prop
  | .line _ => ∀ r ∈ m.screen.render, r.line = .planStatus → m.screen.Justified r
  | .message => ∀ r ∈ m.screen.render, r.line = .planStatus →
      (m.screen.raised .sysMsg || m.screen.view.hideUi || m.screen.asks r) = true
  | _ => True

instance (m : Mfd) (e : MfdEvent) : Decidable (m.Keeps e) := by
  cases e with
  | line attached =>
      unfold Keeps
      infer_instance
  | message =>
      unfold Keeps
      infer_instance
  | _ => exact .isTrue trivial

end Mfd

namespace Screen

/-! ## What the plan knows -/

/-- What is planned up to the system information. -/
structure PlansViews (s : Screen) (r : Render) : Prop where
  redraw : r.redraw = s.view.needsRedraw
  dts : r.plan.dts = (s.raised .dts || r.forceRender)
  dataIn : r.plan.dataIn = s.view.showDataIn
  about : r.plan.about = s.view.showAbout
  sysInfo : r.plan.sysInfo =
    (s.view.ssui && (s.paints r || s.view.sysInfo || s.view.needsRedraw))

/-- What is planned up to the widgets. -/
structure PlansWidgets (s : Screen) (r : Render) : Prop extends PlansViews s r where
  nr : r.nr = (r.plan.dts || r.plan.dataIn || r.plan.about || r.plan.sysInfo || r.plan.widgets)
  needed : r.plan.widgets = true → (s.raised .sysMsg || s.asks r) = true
  planned : s.view.hideUi = false → (s.raised .sysMsg || s.asks r) = true → r.plan.widgets = true

/-- What is known of a call of `render` at its next line. -/
def Planned (s : Screen) (r : Render) : Prop :=
  match r.line with
  | .loadForce | .resetForce => True
  | .planClear | .planClearMsg | .planDts => r.redraw = s.view.needsRedraw
  | .planSysInfo =>
      r.redraw = s.view.needsRedraw ∧ r.plan.dts = (s.raised .dts || r.forceRender) ∧
        r.nr = r.plan.dts
  | .planWidgets =>
      s.PlansViews r ∧
        r.nr = (r.plan.dts || r.plan.dataIn || r.plan.about || r.plan.sysInfo)
  | .planStatus => s.PlansWidgets r
  | .drawPanel =>
      r.plan.any = true →
        ∀ l, s.view.visible l = true → l ∈ drawFrame r.plan s.view.hasFrame
  | .drawRemote | .dropDts | .dropSysInfo | .dropSysMsg | .askRedraw | .swap =>
      r.plan.any = true → ∀ l, s.view.visible l = true → l ∈ r.drawn

variable {s : Screen} {r : Render}

/-- The widgets are planned for every reason that there is. -/
theorem PlansViews.widgets (h : s.PlansViews r)
    (hnr : r.nr = (r.plan.dts || r.plan.dataIn || r.plan.about || r.plan.sysInfo)) :
    (!s.view.hideUi && (s.raised .sysMsg || r.redraw || r.nr || r.forceRender)) =
      (!s.view.hideUi && (s.raised .sysMsg || s.asks r)) := by
  rw [hnr, h.redraw, h.dts, h.dataIn, h.about, h.sysInfo, asks, paints]
  cases s.view.hideUi with
  | true => rfl
  | false =>
      generalize s.raised .sysMsg = message, s.view.needsRedraw = needs, r.forceRender = force,
        s.raised .dts = dts, s.view.showDataIn = dataIn, s.view.showAbout = about,
        s.view.ssui = ssui, s.view.sysInfo = sysInfo, s.view.hideUi = hideUi
      revert message needs force dts dataIn about ssui sysInfo hideUi
      decide

/-- A frame is drawn for a message, or another reason. -/
theorem PlansWidgets.any (h : s.PlansWidgets r)
    (hany : (r.forceRender || r.nr || (s.raised .sysMsg || r.forceRender || r.nr)) = true) :
    (s.raised .sysMsg || s.asks r) = true := by
  cases hwidgets : r.plan.widgets with
  | true => exact h.needed hwidgets
  | false =>
      rw [h.nr, h.dts, h.dataIn, h.about, h.sysInfo, hwidgets] at hany
      rw [asks, paints] at *
      revert hany
      generalize s.raised .sysMsg = message, s.view.needsRedraw = needs, r.forceRender = force,
        s.raised .dts = dts, s.view.showDataIn = dataIn, s.view.showAbout = about,
        s.view.ssui = ssui, s.view.sysInfo = sysInfo, s.view.hideUi = hideUi
      revert message needs force dts dataIn about ssui sysInfo hideUi
      decide

/-- A frame that is justified is planned with everything that is to be seen. -/
theorem PlansWidgets.complete (h : s.PlansWidgets r) (hjust : s.Justified r)
    (hany : (r.forceRender || r.nr || (s.raised .sysMsg || r.forceRender || r.nr)) = true)
    (l : Layer) (hl : s.view.visible l = true) :
    l ∈ drawFrame { r.plan with
      status := s.raised .sysMsg || r.forceRender || r.nr
      any := r.forceRender || r.nr || (s.raised .sysMsg || r.forceRender || r.nr) }
        s.view.hasFrame := by
  have hreason := h.any hany
  obtain ⟨hdts, hinfo⟩ := hjust hreason
  refine visible_mem_drawFrame ?_ ?_ ?_ ?_ ?_ ?_ l hl
  · intro hframe
    exact h.dts.trans (hdts hframe)
  · exact h.dataIn
  · exact h.about
  · intro hssui
    show r.plan.sysInfo = true
    rw [h.sysInfo, hssui, hinfo hssui]
    rfl
  · intro hshown
    exact h.planned hshown hreason
  · show (s.raised .sysMsg || r.forceRender || r.nr) = true
    revert hany
    cases s.raised .sysMsg <;> cases r.forceRender <;> cases r.nr <;> simp

/-- A line of `render` keeps what is known. -/
theorem Planned.advance (h : s.Planned r) (hkeeps : r.line = .planStatus → s.Justified r)
    (attached : Bool) : ∀ r' ∈ (s.advance r attached).render, (s.advance r attached).Planned r' := by
  obtain ⟨line, arg, forceRender, redraw, nr, plan, drawn⟩ := r
  cases line with
  | loadForce =>
      rintro r' ⟨rfl⟩
      trivial
  | resetForce =>
      rintro r' ⟨rfl⟩
      rfl
  | planClear =>
      rintro r' ⟨rfl⟩
      exact h
  | planClearMsg =>
      rintro r' ⟨rfl⟩
      exact h
  | planDts =>
      rintro r' ⟨rfl⟩
      exact ⟨h, rfl, rfl⟩
  | planSysInfo =>
      rintro r' ⟨rfl⟩
      obtain ⟨hredraw, hdts, hnr⟩ := h
      change nr = plan.dts at hnr
      change plan.dts = (s.raised .dts || forceRender) at hdts
      change redraw = s.view.needsRedraw at hredraw
      refine ⟨⟨hredraw, hdts, rfl, rfl, ?_⟩, ?_⟩
      · show (s.view.ssui && (s.view.sysInfo || redraw ||
          (nr || s.view.showDataIn || s.view.showAbout) || forceRender)) =
          (s.view.ssui && (forceRender || s.raised .dts || s.view.showDataIn || s.view.showAbout ||
            s.view.sysInfo || s.view.needsRedraw))
        rw [hnr, hdts, hredraw]
        cases s.view.ssui with
        | false => rfl
        | true => ac_rfl
      · show (nr || s.view.showDataIn || s.view.showAbout || _) = _
        rw [hnr]
  | planWidgets =>
      rintro r' ⟨rfl⟩
      obtain ⟨hviews, hnr⟩ := h
      have hwidgets := hviews.widgets hnr
      refine ⟨⟨hviews.redraw, hviews.dts, hviews.dataIn, hviews.about, hviews.sysInfo⟩, ?_, ?_, ?_⟩
      · exact congrArg (· || _) hnr
      · intro hplanned
        exact (Bool.and_eq_true_iff.mp (hwidgets.symm.trans hplanned)).2
      · intro hshown hreason
        change s.view.hideUi = false at hshown
        refine hwidgets.trans ?_
        rw [hshown]
        exact hreason
  | planStatus =>
      rintro r' ⟨rfl⟩
      intro hany
      exact h.complete (hkeeps rfl) hany
  | drawPanel =>
      rintro r' ⟨rfl⟩
      exact h
  | drawRemote =>
      rintro r' ⟨rfl⟩
      exact h
  | dropDts =>
      rw [advance]
      dsimp only
      split <;> rintro r' ⟨rfl⟩ <;> exact h
  | dropSysInfo =>
      rintro r' ⟨rfl⟩
      exact h
  | dropSysMsg =>
      rw [advance]
      dsimp only
      split <;> rintro r' ⟨rfl⟩ <;> exact h
  | askRedraw =>
      rintro r' ⟨rfl⟩
      exact h
  | swap => exact fun r' hr' => nomatch hr'

/-- A message is one more reason to draw. -/
theorem Planned.message (h : s.Planned r)
    (hkeeps : r.line = .planStatus →
      (s.raised .sysMsg || s.view.hideUi || s.asks r) = true) :
    (s.raise .sysMsg).Planned r := by
  have hdts : (s.raise .sysMsg).raised .dts = s.raised .dts := rfl
  obtain ⟨line, arg, forceRender, redraw, nr, plan, drawn⟩ := r
  cases line with
  | planWidgets => exact ⟨⟨h.1.redraw, h.1.dts, h.1.dataIn, h.1.about, h.1.sysInfo⟩, h.2⟩
  | planStatus =>
      refine ⟨⟨h.redraw, h.dts, h.dataIn, h.about, h.sysInfo⟩, h.nr, fun _ => rfl, ?_⟩
      intro hshown _
      have hreason := hkeeps rfl
      change s.view.hideUi = false at hshown
      rw [hshown, Bool.or_false] at hreason
      exact h.planned hshown hreason
  | _ => exact h

end Screen

namespace Mfd

/-! ## Runs -/

variable {m n : Mfd}

/-- What is known of the frame that `render` is making. -/
def Inv (m : Mfd) : Prop := ∀ r ∈ m.screen.render, m.screen.Planned r

theorem inv_between {s : Screen} (hs : s.render = m.screen.render)
    (hstep : m.between s = some n) : n.Inv := by
  rw [Mfd.between] at hstep
  split at hstep
  · cases hstep
  · next hidle =>
    cases hstep
    rintro r hr
    change r ∈ s.render at hr
    rw [hs, Option.not_isSome_iff_eq_none.mp hidle] at hr
    cases hr

theorem Inv.step {e : MfdEvent} (h : m.Inv) (hkeeps : m.Keeps e) (hstep : m.step e = some n) :
    n.Inv := by
  cases e with
  | message =>
      cases hstep
      intro r hr
      exact (h r hr).message (hkeeps r hr)
  | tile =>
      cases hstep
      exact h
  | disconnect =>
      cases hstep
      exact h
  | take =>
      rw [Mfd.step] at hstep
      split at hstep
      · refine inv_between ?_ hstep
        rfl
      · exact inv_between rfl hstep
  | act v =>
      refine inv_between ?_ hstep
      rfl
  | force =>
      refine inv_between ?_ hstep
      rfl
  | tick =>
      refine inv_between ?_ hstep
      rfl
  | call arg =>
      obtain ⟨s, hs, rfl⟩ := Option.map_eq_some_iff.mp hstep
      rw [Screen.step] at hs
      split at hs
      · cases hs
      · cases hs
        rintro r ⟨rfl⟩
        trivial
  | line attached =>
      obtain ⟨s, hs, rfl⟩ := Option.map_eq_some_iff.mp hstep
      obtain ⟨r, hr, rfl⟩ := Option.map_eq_some_iff.mp hs
      exact (h r hr).advance (hkeeps r hr) attached

theorem Inv.complete (h : m.Inv) : m.Complete := by
  intro r hr hline hany
  have hplanned := h r hr
  rw [Screen.Planned, hline] at hplanned
  exact hplanned hany

/-- Before the first frame. -/
def start (raised : Flag → Bool) (view : View) : Mfd where
  screen := Screen.start raised view

/-- In every state of a run, a frame that is to be swapped in is complete. -/
def StaysComplete (m : Mfd) (es : List MfdEvent) : Prop :=
  ∀ es₁ es₂ n, es = es₁ ++ es₂ → run step m es₁ = some n → n.Complete

/-- In a run whose frames are justified, every frame is complete. -/
theorem complete_run (raised : Flag → Bool) (view : View) {es : List MfdEvent}
    (hkeeps : Throughout step Keeps (start raised view) es) :
    (start raised view).StaysComplete es := by
  intro es₁ es₂ n hes hrun
  subst hes
  refine (run_invariant (I := Inv) Inv.step ?_ (throughout_of_append hkeeps) hrun).complete
  intro r hr
  cases hr

/-- The lines of `render` up to the swap. -/
def toSwap : List MfdEvent := .call false :: List.replicate 14 (.line false)

/-- A picture arrives and is drawn; the system view is turned on, and its frame is drawn. -/
def busyRun : List MfdEvent :=
  [.tile, .message, .take] ++ toSwap ++ [.line false, .act { ssui := true, needsRedraw := true },
    .message, .take] ++ toSwap

theorem complete_busyRun :
    (start (fun _ => false) { showAbout := true }).StaysComplete busyRun :=
  complete_run (fun _ => false) { showAbout := true } (by decide)

/-- The connection is lost after the picture was drawn. -/
def lostPicture : List MfdEvent :=
  [.tile, .message, .take] ++ toSwap ++ [.line false, .disconnect, .message, .take] ++ toSwap

/-- A message, while the system information is shown. -/
def lostInfo : List MfdEvent :=
  .act { ssui := true, needsRedraw := true } :: toSwap ++ [.line false, .message] ++ toSwap

/-- A message, after the widgets were left out of the plan. -/
def lostWidgets : List MfdEvent :=
  .act { needsRedraw := true } :: toSwap ++ .line false ::
    .call false :: List.replicate 7 (.line false) ++ .message :: List.replicate 7 (.line false)

/-- What is to be seen of the frame that is swapped in next, and is not in it. -/
def missing (m : Mfd) : List Layer :=
  match m.screen.render with
  | some r =>
      if r.line = .swap ∧ r.plan.any = true then
        [.dts, .dataIn, .about, .sysInfo, .widgets, .status].filter fun l =>
          m.screen.view.visible l && !decide (l ∈ r.drawn)
      else []
  | none => []

/-- The state that the program starts in. -/
def boot : Mfd := start (fun _ => false) { showAbout := true }

theorem run_lostPicture : (run step boot lostPicture).map missing = some [.dts] := by
  decide

theorem run_lostInfo : (run step boot lostInfo).map missing = some [.sysInfo] := by
  decide

theorem run_lostWidgets : (run step boot lostWidgets).map missing = some [.widgets] := by
  decide

/-- A run that ends with something missing has a frame that is not complete. -/
theorem not_complete_of_missing {es : List MfdEvent} {l : Layer}
    (h : (run step m es).map missing = some [l]) : ¬ m.StaysComplete es := by
  intro hcomplete
  obtain ⟨n, hrun, hmissing⟩ := Option.map_eq_some_iff.mp h
  have hn := hcomplete es [] n (List.append_nil _).symm hrun
  have hl : l ∈ n.missing := by
    rw [hmissing]
    exact List.mem_singleton_self l
  unfold missing at hl
  split at hl
  · next r hr =>
    split at hl
    · next hswap =>
      have hfilter := (List.mem_filter.mp hl).2
      rw [Bool.and_eq_true, Bool.not_eq_true', decide_eq_false_iff_not] at hfilter
      exact hfilter.2 (hn r hr hswap.1 hswap.2 l hfilter.1)
    · cases hl
  · cases hl

/-- Each of the three runs ends with a frame that misses something. -/
theorem not_complete :
    ¬ boot.StaysComplete lostPicture ∧ ¬ boot.StaysComplete lostInfo ∧
      ¬ boot.StaysComplete lostWidgets :=
  ⟨not_complete_of_missing run_lostPicture, not_complete_of_missing run_lostInfo,
    not_complete_of_missing run_lostWidgets⟩

end Mfd

end MFoES.App
