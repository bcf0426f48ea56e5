import Mathlib.Logic.Function.Basic
import MFoES.Lib.Transition

/-!
# The redraw flags

Threads ask for a redraw by setting a flag.  `render` reads the flags while it plans a frame, and
takes down those that the plan goes by when it has drawn the frame.  A flag that is set in between
is taken down with the request that was set before, and the frame does not show what was asked for.

`render` also overwrites its argument, so that a frame that the caller forces is drawn only where
there is another reason to draw.  Otherwise no request is lost (`good_run`).
-/

namespace MFoES.App

open Transition

/-! ## The plan of a frame -/

/-- The flags that other threads set. -/
inductive Flag
  /-- `RRFSYSMSG`. -/
  | sysMsg
  /-- `RRFDTS`. -/
  | dts
  /-- `RRFF`. -/
  | force
  deriving DecidableEq

/-- `RenderPlan`. -/
structure RenderPlan where
  clear : Bool := false
  dts : Bool := false
  dataIn : Bool := false
  about : Bool := false
  sysInfo : Bool := false
  widgets : Bool := false
  status : Bool := false
  any : Bool := false
  askRedraw : Bool := false
  deriving DecidableEq

/-- What a frame is made of. -/
inductive Layer
  | black
  | dts
  | dataIn
  | about
  | sysInfo
  | widgets
  | status
  deriving DecidableEq

/-- `drawFrame`. -/
def drawFrame (plan : RenderPlan) (hasFrame : Bool) : List Layer :=
  (if plan.clear then [.black] else []) ++
    (if plan.dts && hasFrame then [.dts] else []) ++
    (if plan.dataIn then [.dataIn] else []) ++
    (if plan.about then [.about] else []) ++
    (if plan.sysInfo then [.sysInfo] else []) ++
    (if plan.widgets then [.widgets] else []) ++
    if plan.status then [.status] else []

theorem status_mem_drawFrame {plan : RenderPlan} (h : plan.status = true) (hasFrame : Bool) :
    Layer.status ∈ drawFrame plan hasFrame := by
  simp [drawFrame, h]

/-! ## The lines of `render` -/

/-- The next line of `render` and, while it plans, of `planFrame`. -/
inductive Line
  /-- `forceRender = RRFF`. -/
  | loadForce
  /-- `RRFF = false`. -/
  | resetForce
  /-- `p.clear`, up to its last operand. -/
  | planClear
  /-- The last operand of `p.clear`, `RRFSYSMSG`. -/
  | planClearMsg
  /-- `p.dts`. -/
  | planDts
  /-- `p.dataIn`, `p.about`, `p.sysInfo` and `p.askRedraw`: flags of the main thread. -/
  | planSysInfo
  /-- `p.widgets`. -/
  | planWidgets
  /-- `p.status` and `p.any`. -/
  | planStatus
  /-- The pass to the panel. -/
  | drawPanel
  /-- The pass to a remote renderer. -/
  | drawRemote
  | dropDts
  | dropSysInfo
  | dropSysMsg
  | askRedraw
  | swap
  deriving DecidableEq

/-- A call of `render`. -/
structure Render where
  line : Line := .loadForce
  /-- The argument. -/
  arg : Bool
  /-- `forceRender`, once it is overwritten. -/
  forceRender : Bool := false
  redraw : Bool := false
  /-- `nr` of `planFrame`. -/
  nr : Bool := false
  plan : RenderPlan := {}
  drawn : List Layer := []
  deriving DecidableEq

/-- A frame that `render` is through with. -/
structure Frame where
  arg : Bool
  drawn : List Layer
  swapped : Bool
  deriving DecidableEq

/-- What the main thread draws by. -/
structure View where
  /-- `ui.needsRedraw()`. -/
  needsRedraw : Bool := false
  showDataIn : Bool := false
  showAbout : Bool := false
  /-- `ui.getButton("ssui")->isToggleOn()`. -/
  ssui : Bool := false
  hideUi : Bool := false
  hasFrame : Bool := false
  /-- `RRFSYSINFO`. -/
  sysInfo : Bool := false
  deriving DecidableEq

/-- The flags, the main thread and what it has drawn. -/
structure Screen where
  raised : Flag → Bool := fun _ => false
  view : View
  render : Option Render := none
  frames : List Frame := []
  /-- The frames that were recorded for a remote renderer. -/
  recorded : List (List Layer) := []
  /-- The flag was set, and no plan has read it since then. -/
  owed : Flag → Bool := fun _ => false

/-- What happens. -/
inductive Event
  /-- A thread sets a flag. -/
  | set (f : Flag)
  /-- The main thread does something else between two frames. -/
  | view (v : View)
  /-- The main thread calls `render`. -/
  | call (arg : Bool)
  /-- `render` does its next line; `attached` is `drRemoteAttached()`. -/
  | line (attached : Bool)
  deriving DecidableEq

namespace Screen

/-- A flag is set. -/
def raise (s : Screen) (f : Flag) : Screen :=
  { s with raised := Function.update s.raised f true, owed := Function.update s.owed f true }

/-- A flag is taken down. -/
def drop (s : Screen) (f : Flag) : Screen :=
  { s with raised := Function.update s.raised f false }

/-- The plan has read a flag, for the last time. -/
def noted (s : Screen) (f : Flag) : Screen :=
  { s with owed := Function.update s.owed f false }

/-- `render` goes on. -/
def goes (s : Screen) (r : Render) : Screen := { s with render := some r }

/-- A line of `render`. -/
def advance (s : Screen) (r : Render) (attached : Bool) : Screen :=
  let p := r.plan
  match r.line with
  | .loadForce =>
      (s.noted .force).goes { r with line := .resetForce, forceRender := s.raised .force }
  | .resetForce =>
      (s.drop .force).goes { r with line := .planClear, redraw := s.view.needsRedraw }
  | .planClear =>
      let clear :=
        r.forceRender || s.raised .dts || r.redraw || s.view.showDataIn || s.view.showAbout
      s.goes { r with line := .planClearMsg, plan := { p with clear := clear } }
  | .planClearMsg =>
      let clear := p.clear || s.raised .sysMsg
      s.goes { r with line := .planDts, plan := { p with clear := clear } }
  | .planDts =>
      let dts := s.raised .dts || r.forceRender
      (s.noted .dts).goes { r with line := .planSysInfo, nr := dts, plan := { p with dts := dts } }
  | .planSysInfo =>
      let nr := r.nr || s.view.showDataIn || s.view.showAbout
      let sysInfo := s.view.ssui && (s.view.sysInfo || r.redraw || nr || r.forceRender)
      s.goes { r with
        line := .planWidgets
        nr := nr || sysInfo
        plan := { p with
          dataIn := s.view.showDataIn
          about := s.view.showAbout
          sysInfo := sysInfo
          askRedraw := sysInfo && s.view.sysInfo } }
  | .planWidgets =>
      let widgets := !s.view.hideUi && (s.raised .sysMsg || r.redraw || r.nr || r.forceRender)
      s.goes { r with
        line := .planStatus, nr := r.nr || widgets, plan := { p with widgets := widgets } }
  | .planStatus =>
      let status := s.raised .sysMsg || r.forceRender || r.nr
      (s.noted .sysMsg).goes { r with
        line := .drawPanel
        nr := r.nr || status
        plan := { p with status := status, any := r.forceRender || r.nr || status } }
  | .drawPanel =>
      { s with view.needsRedraw := if p.widgets then false else s.view.needsRedraw }.goes
        { r with line := .drawRemote, drawn := drawFrame p s.view.hasFrame }
  | .drawRemote =>
      { s with
        recorded :=
          if p.any && attached then
            s.recorded ++ [drawFrame { p with clear := true } s.view.hasFrame]
          else s.recorded }.goes { r with line := .dropDts }
  | .dropDts => (if p.dts then s.drop .dts else s).goes { r with line := .dropSysInfo }
  | .dropSysInfo =>
      { s with view.sysInfo := if p.sysInfo then false else s.view.sysInfo }.goes
        { r with line := .dropSysMsg }
  | .dropSysMsg => (if p.status then s.drop .sysMsg else s).goes { r with line := .askRedraw }
  | .askRedraw =>
      { s with view.needsRedraw := if p.askRedraw then true else s.view.needsRedraw }.goes
        { r with line := .swap }
  | .swap =>
      { s with render := none, frames := s.frames ++ [⟨r.arg, r.drawn, p.any⟩] }

def step (s : Screen) : Event → Option Screen
  | .set f => some (s.raise f)
  | .view v => if s.render.isSome then none else some { s with view := v }
  | .call arg => if s.render.isSome then none else some (s.goes { arg := arg })
  | .line attached => s.render.map fun r => s.advance r attached

/-! ## What is promised -/

/-- No request is lost: a flag that no plan has read since it was set is still set, and a frame
that the caller forces is drawn and swapped. -/
structure Good (s : Screen) : Prop where
  kept : ∀ f, s.owed f = true → s.raised f = true
  forced : ∀ frame ∈ s.frames, frame.arg = true →
    frame.swapped = true ∧ Layer.status ∈ frame.drawn

/-- A line takes down no flag that was set after the plan has read it, and a plan that the caller
forces finds a reason to draw. -/
def Keeps (s : Screen) : Event → Prop
  | .line _ => ∀ r ∈ s.render,
      match r.line with
      | .resetForce => s.owed .force = false
      | .dropDts => r.plan.dts = true → s.owed .dts = false
      | .dropSysMsg => r.plan.status = true → s.owed .sysMsg = false
      | .planStatus => r.arg = true → (r.forceRender || r.nr || s.raised .sysMsg) = true
      | _ => True
  | .set _ => True
  | .view _ => True
  | .call _ => True

instance (s : Screen) (e : Event) : Decidable (s.Keeps e) := by
  cases e with
  | line attached =>
      unfold Keeps
      have : DecidablePred fun r : Render => match r.line with
          | .resetForce => s.owed .force = false
          | .dropDts => r.plan.dts = true → s.owed .dts = false
          | .dropSysMsg => r.plan.status = true → s.owed .sysMsg = false
          | .planStatus => r.arg = true → (r.forceRender || r.nr || s.raised .sysMsg) = true
          | _ => True := by
        intro r
        dsimp only
        split <;> infer_instance
      infer_instance
  | set f => exact .isTrue trivial
  | view v => exact .isTrue trivial
  | call arg => exact .isTrue trivial

/-! ## One line -/

variable {s t : Screen}

theorem Good.raise (h : s.Good) (f : Flag) : (s.raise f).Good := by
  obtain ⟨hkept, hforced⟩ := h
  refine ⟨fun g => ?_, hforced⟩
  simp only [Screen.raise, Function.update_apply]
  split
  · exact fun _ => rfl
  · exact hkept g

/-- What else the main thread does loses nothing. -/
theorem Good.same (h : s.Good) (hraised : t.raised = s.raised) (howed : t.owed = s.owed)
    (hframes : t.frames = s.frames) : t.Good := by
  obtain ⟨hkept, hforced⟩ := h
  rw [← hraised, ← howed] at hkept
  rw [← hframes] at hforced
  exact ⟨hkept, hforced⟩

theorem Good.noted (h : s.Good) (f : Flag) : (s.noted f).Good := by
  obtain ⟨hkept, hforced⟩ := h
  refine ⟨fun g => ?_, hforced⟩
  simp only [Screen.noted, Function.update_apply]
  split
  · exact nofun
  · exact hkept g

/-- A flag can be taken down when the plan has read it since it was set. -/
theorem Good.drop (h : s.Good) {f : Flag} (hf : s.owed f = false) : (s.drop f).Good := by
  obtain ⟨hkept, hforced⟩ := h
  refine ⟨fun g howed => ?_, hforced⟩
  simp only [Screen.drop, Function.update_apply] at howed ⊢
  split
  · next heq =>
    rw [heq, hf] at howed
    cases howed
  · exact hkept g howed

/-- What is known of a call of `render` at its next line: a frame that the caller forces has a
reason to be drawn, and later on it is drawn. -/
def Sound (r : Render) : Prop :=
  match r.line with
  | .drawPanel => r.arg = true → r.plan.any = true ∧ r.plan.status = true
  | .drawRemote | .dropDts | .dropSysInfo | .dropSysMsg | .askRedraw | .swap =>
      r.arg = true → r.plan.any = true ∧ Layer.status ∈ r.drawn
  | _ => True

/-- On the way, nothing is lost, and what `render` is doing is sound. -/
structure Inv (s : Screen) : Prop where
  good : s.Good
  sound : ∀ r ∈ s.render, Sound r

/-- `render` goes on, where nothing is lost. -/
theorem Good.goes (h : s.Good) {r : Render} (hr : Sound r) : (s.goes r).Inv where
  good := ⟨h.kept, h.forced⟩
  sound := by
    intro r' hr'
    cases hr'
    exact hr

theorem Inv.advance (h : s.Inv) {r : Render} (hr : s.render = some r) (attached : Bool)
    (hkeeps : s.Keeps (.line attached)) : (s.advance r attached).Inv := by
  obtain ⟨hgood, hsound⟩ := h
  have hsound := hsound r hr
  have hkeeps := hkeeps r hr
  obtain ⟨line, arg, forceRender, redraw, nr, plan, drawn⟩ := r
  cases line with
  | loadForce => exact (hgood.noted .force).goes trivial
  | resetForce => exact (hgood.drop hkeeps).goes trivial
  | planClear => exact hgood.goes trivial
  | planClearMsg => exact hgood.goes trivial
  | planDts => exact (hgood.noted .dts).goes trivial
  | planSysInfo => exact hgood.goes trivial
  | planWidgets => exact hgood.goes trivial
  | planStatus =>
      refine (hgood.noted .sysMsg).goes fun harg => ?_
      have hreason := hkeeps harg
      simp only [Bool.or_eq_true] at hreason ⊢
      rcases hreason with (hforce | hnr) | hmsg
      · exact ⟨Or.inl (Or.inl hforce), Or.inl (Or.inr hforce)⟩
      · exact ⟨Or.inl (Or.inr hnr), Or.inr hnr⟩
      · exact ⟨Or.inr (Or.inl (Or.inl hmsg)), Or.inl (Or.inl hmsg)⟩
  | drawPanel =>
      refine Good.goes ?_ ?_
      · exact hgood.same rfl rfl rfl
      · intro harg
        obtain ⟨hany, hstatus⟩ := hsound harg
        exact ⟨hany, status_mem_drawFrame hstatus _⟩
  | drawRemote =>
      refine Good.goes ?_ hsound
      exact hgood.same rfl rfl rfl
  | dropDts =>
      refine Good.goes ?_ hsound
      split
      · next hdts => exact hgood.drop (hkeeps hdts)
      · exact hgood
  | dropSysInfo =>
      refine Good.goes ?_ hsound
      exact hgood.same rfl rfl rfl
  | dropSysMsg =>
      refine Good.goes ?_ hsound
      split
      · next hstatus => exact hgood.drop (hkeeps hstatus)
      · exact hgood
  | askRedraw =>
      refine Good.goes ?_ hsound
      exact hgood.same rfl rfl rfl
  | swap =>
      refine ⟨⟨hgood.kept, fun frame hframe harg => ?_⟩, fun r hr => by cases hr⟩
      rcases List.mem_append.mp hframe with hframe | hframe
      · exact hgood.forced frame hframe harg
      · rw [List.mem_singleton] at hframe
        subst hframe
        exact hsound harg

/-! ## Runs -/

theorem Inv.step {e : Event} (h : s.Inv) (hkeeps : s.Keeps e) (hstep : step s e = some t) :
    t.Inv := by
  cases e with
  | set f =>
      cases hstep
      exact ⟨h.good.raise f, h.sound⟩
  | view v =>
      simp only [Screen.step] at hstep
      split at hstep
      · cases hstep
      · cases hstep
        exact ⟨⟨h.good.kept, h.good.forced⟩, h.sound⟩
  | call arg =>
      simp only [Screen.step] at hstep
      split at hstep
      · cases hstep
      · cases hstep
        exact h.good.goes trivial
  | line attached =>
      obtain ⟨r, hr, rfl⟩ := Option.map_eq_some_iff.mp hstep
      exact h.advance hr attached hkeeps

/-- Before the first frame. -/
def start (raised : Flag → Bool) (view : View) : Screen := { raised := raised, view := view }

theorem inv_start (raised : Flag → Bool) (view : View) : (start raised view).Inv where
  good :=
    { kept := fun f howed => by cases howed
      forced := fun frame hframe => by cases hframe }
  sound := fun r hr => by cases hr

/-- No state of a run loses a request. -/
def StaysGood (s : Screen) (es : List Event) : Prop :=
  ∀ es₁ es₂ t, es = es₁ ++ es₂ → run step s es₁ = some t → t.Good

/-- In a run whose lines keep what was asked for, no request is lost. -/
theorem good_run (raised : Flag → Bool) (view : View) {es : List Event}
    (hkeeps : Throughout step Keeps (start raised view) es) :
    (start raised view).StaysGood es := by
  intro es₁ es₂ t hes hrun
  subst hes
  exact (run_invariant (I := Inv) Inv.step (inv_start raised view) (throughout_of_append hkeeps)
    hrun).good

/-- A call of `render` from its first line to its last. -/
def frameOf (arg : Bool) : List Event := .call arg :: List.replicate 15 (.line true)

/-- A message is set before a frame, and one after the frame has drawn it and taken the flag
down; the caller forces a third frame while the widgets ask for a redraw. -/
def patientRun : List Event :=
  .set .sysMsg :: frameOf false ++ .set .sysMsg :: frameOf false ++
    .view { needsRedraw := true } :: frameOf true

theorem good_patientRun : (start (fun _ => false) {}).StaysGood patientRun :=
  good_run (fun _ => false) {} (by decide)

/-- A second message is set while the frame of the first is drawn. -/
def lateMessage : List Event :=
  .set .sysMsg :: .call false :: List.replicate 9 (.line true) ++
    .set .sysMsg :: List.replicate 6 (.line true)

/-- A redraw is forced between the two lines that read and reset the flag. -/
def lateForce : List Event := [.call false, .line true, .set .force, .line true]

/-- The caller forces a frame, and nothing else asks for one. -/
def forcedFrame : List Event := frameOf true

/-- A flag, whether it is owed and whether it is set. -/
def seen (f : Flag) (s : Screen) : Bool × Bool := (s.owed f, s.raised f)

theorem run_lateMessage : (run step (start (fun _ => false) {}) lateMessage).map (seen .sysMsg) =
    some (true, false) := by
  decide

theorem run_lateForce : (run step (start (fun _ => false) {}) lateForce).map (seen .force) =
    some (true, false) := by
  decide

theorem run_forcedFrame : (run step (start (fun _ => false) {}) forcedFrame).map frames =
    some [⟨true, [], false⟩] := by
  decide

/-- A flag that is owed and not set is lost. -/
theorem not_good_of_seen {f : Flag} (h : t.seen f = (true, false)) : ¬ t.Good := by
  intro hgood
  simp only [seen, Prod.mk.injEq] at h
  have hraised := hgood.kept f h.1
  rw [h.2] at hraised
  cases hraised

/-- Each of the three runs ends in a state where a request is lost. -/
theorem not_good :
    ¬ (start (fun _ => false) {}).StaysGood lateMessage ∧
      ¬ (start (fun _ => false) {}).StaysGood lateForce ∧
        ¬ (start (fun _ => false) {}).StaysGood forcedFrame := by
  constructor
  · intro hgood
    obtain ⟨t, hrun, hseen⟩ := Option.map_eq_some_iff.mp run_lateMessage
    exact not_good_of_seen hseen (hgood lateMessage [] t (List.append_nil _).symm hrun)
  constructor
  · intro hgood
    obtain ⟨t, hrun, hseen⟩ := Option.map_eq_some_iff.mp run_lateForce
    exact not_good_of_seen hseen (hgood lateForce [] t (List.append_nil _).symm hrun)
  · intro hgood
    obtain ⟨t, hrun, hframes⟩ := Option.map_eq_some_iff.mp run_forcedFrame
    have hforced :=
      (hgood forcedFrame [] t (List.append_nil _).symm hrun).forced ⟨true, [], false⟩
    rw [hframes] at hforced
    obtain ⟨hswapped, -⟩ := hforced List.mem_cons_self rfl
    cases hswapped

end Screen

end MFoES.App
