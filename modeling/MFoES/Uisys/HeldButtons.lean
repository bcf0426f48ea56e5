import MFoES.Lib.Transition
import MFoES.Uisys.Manager

/-!
# Buttons that stay held

A button that is pressed waits for the release of the finger.  The manager gives the release to
the open dialog or to the keyboard alone where there is one, and a hidden button takes no event.
So a button that is hidden, or covered by a dialog or the keyboard, between its press and the
release of the finger stays pressed, and a hold that it started is not ended.

That is the only way (`atRest_iff_delivered`): no button is held while no finger is down exactly
when every release comes to all buttons that are pressed (`Delivered`).
-/

namespace MFoES.Uisys

open MFoES.Touch Transition

/-! ## One button -/

/-- Every hold that was started was ended or cancelled later. -/
def Settled (states : List ButtonState) : Prop :=
  ∀ before after, states = before ++ .holdStart :: after →
    .holdEnd ∈ after ∨ .holdCancel ∈ after

theorem settled_nil : Settled [] := by
  intro before after h
  simp at h

/-- A state that starts no hold leaves the list settled. -/
theorem Settled.snoc {states : List ButtonState} {state : ButtonState} (h : Settled states)
    (hstate : state ≠ .holdStart) : Settled (states ++ [state]) := by
  intro before after heq
  rcases split_concat heq with ⟨-, hlast, -⟩ | ⟨rest, rfl, hstates⟩
  · exact absurd hlast hstate
  · rcases h before rest hstates with hend | hcancel
    · exact Or.inl (by simp [hend])
    · exact Or.inr (by simp [hcancel])

/-- A hold that ends settles all holds before. -/
theorem settled_end {states : List ButtonState} {state : ButtonState}
    (hstate : state = .holdEnd ∨ state = .holdCancel) : Settled (states ++ [state]) := by
  intro before after heq
  rcases split_concat heq with ⟨-, hlast, -⟩ | ⟨rest, rfl, -⟩
  · rcases hstate with rfl | rfl <;> cases hlast
  · rcases hstate with rfl | rfl
    · exact Or.inl (by simp)
    · exact Or.inr (by simp)

/-- A button and the states it has fired. -/
structure Sane (b : ButtonWidget) (states : List ButtonState) : Prop where
  held : b.holdActive = true → b.holdMode = true
  settled : b.holdActive = false → Settled states

/-- A button that is changed elsewhere, and fires a state that starts no hold. -/
theorem Sane.snoc {b b' : ButtonWidget} {states : List ButtonState} {state : ButtonState}
    (h : Sane b states) (hactive : b'.holdActive = b.holdActive) (hmode : b'.mode = b.mode)
    (hstate : state ≠ .holdStart) : Sane b' (states ++ [state]) := by
  obtain ⟨hheld, hsettled⟩ := h
  rw [ButtonWidget.holdMode, ← hactive, ← hmode] at hheld
  rw [← hactive] at hsettled
  exact ⟨hheld, fun ha => (hsettled ha).snoc hstate⟩

/-- A button that is changed elsewhere, and fires nothing. -/
theorem Sane.quiet {b b' : ButtonWidget} {states : List ButtonState} (h : Sane b states)
    (hactive : b'.holdActive = b.holdActive) (hmode : b'.mode = b.mode) : Sane b' states := by
  obtain ⟨hheld, hsettled⟩ := h
  rw [ButtonWidget.holdMode, ← hactive, ← hmode] at hheld
  rw [← hactive] at hsettled
  exact ⟨hheld, hsettled⟩

theorem Sane.same {b b' : ButtonWidget} {states : List ButtonState} (h : Sane b states)
    (hactive : b'.holdActive = b.holdActive) (hmode : b'.mode = b.mode) :
    Sane b' (states ++ []) := by
  rw [List.append_nil]
  exact h.quiet hactive hmode

theorem Sane.onPress {b : ButtonWidget} {states : List ButtonState} (h : Sane b states) :
    Sane b.onPress.1 (states ++ b.onPress.2) := by
  unfold ButtonWidget.onPress
  dsimp only
  split
  · exact h.snoc rfl rfl nofun
  · exact h.snoc rfl rfl nofun
  · refine h.snoc rfl rfl ?_
    split <;> exact nofun
  · exact h.same rfl rfl
  · exact h.same rfl rfl

/-- Whatever ends the press ends the hold. -/
theorem Sane.letGo {b : ButtonWidget} {states : List ButtonState} {state : ButtonState}
    (h : Sane b states) (hstate : state = .holdEnd ∨ state = .holdCancel) :
    Sane (b.letGo state).1 (states ++ (b.letGo state).2) := by
  obtain ⟨hheld, hsettled⟩ := h
  unfold ButtonWidget.letGo
  cases hactive : b.holdActive with
  | true =>
      have hmode := hheld hactive
      have hswipe : (decide (b.mode = .holdSwipe)) = false := by
        cases hm : b.mode with
        | holdSwipe => simp [ButtonWidget.holdMode, hm] at hmode
        | trigger => rfl
        | hold => rfl
        | toggle => rfl
        | triggerHold => rfl
      simp only [hmode, hswipe, Bool.true_and, Bool.false_and, if_true, Bool.false_eq_true,
        if_false, List.append_nil]
      exact ⟨nofun, fun _ => settled_end hstate⟩
  | false =>
      simp only [Bool.and_false, Bool.false_eq_true, if_false, List.nil_append]
      refine ⟨fun h => absurd h (by simp), fun _ => ?_⟩
      split
      · exact (hsettled hactive).snoc nofun
      · rw [List.append_nil]
        exact hsettled hactive

theorem Sane.handleEvent {b : ButtonWidget} {states : List ButtonState} (h : Sane b states)
    (e : TouchEventData) : Sane (b.handleEvent e).1 (states ++ (b.handleEvent e).2) := by
  unfold ButtonWidget.handleEvent
  split
  · split
    · split
      · exact h.onPress
      · exact h.same rfl rfl
    · split
      · next hhold =>
        simp only [Bool.and_eq_true] at hhold
        exact ⟨fun _ => hhold.1.2, nofun⟩
      · exact h.same rfl rfl
    · split
      · exact h.letGo (Or.inr rfl)
      · exact h.same rfl rfl
    · split
      · exact h.letGo (Or.inl rfl)
      · exact h.same rfl rfl
  · exact h.same rfl rfl

theorem Sane.update {b : ButtonWidget} {states : List ButtonState} (h : Sane b states)
    (nowMs : UInt32) : Sane (b.update nowMs).1 (states ++ (b.update nowMs).2) := by
  unfold ButtonWidget.update
  dsimp only
  repeat' split
  all_goals first
    | exact h.same rfl rfl
    | exact h.snoc rfl rfl nofun

/-- The press or the hold of a finger is not over for the button. -/
def ButtonWidget.held (b : ButtonWidget) : Bool := b.pressed || b.holdActive

/-- `update` starts and ends neither. -/
theorem held_update (b : ButtonWidget) (nowMs : UInt32) :
    (b.update nowMs).1.held = b.held := by
  unfold ButtonWidget.update
  dsimp only
  repeat' split
  all_goals rfl

/-- A release ends what a button holds when it comes to it while the button is pressed and
visible, and only then. -/
theorem held_release {b : ButtonWidget} {states : List ButtonState} (h : Sane b states)
    {e : TouchEventData} (he : e.event = .release) :
    (b.handleEvent e).1.held = false ↔
      (b.held = true → b.pressed = true ∧ b.visibleWidget = true) := by
  obtain ⟨hheld, -⟩ := h
  unfold ButtonWidget.handleEvent
  rw [he]
  cases hvisible : b.visibleWidget with
  | false => simp
  | true =>
      cases hpressed : b.pressed with
      | false => simp
      | true =>
          cases hactive : b.holdActive with
          | false => simp [ButtonWidget.letGo, ButtonWidget.held, hactive]
          | true => simp [ButtonWidget.letGo, ButtonWidget.held, hactive, hheld hactive]

/-! ## What the application does to buttons -/

/-- What the holds of a button depend on. -/
def ButtonWidget.grip (b : ButtonWidget) : Bool × Bool × ButtonMode :=
  (b.pressed, b.holdActive, b.mode)

theorem Sane.of_grip {b b' : ButtonWidget} {states : List ButtonState} (h : Sane b states)
    (hgrip : b'.grip = b.grip) : Sane b' states := by
  simp only [ButtonWidget.grip, Prod.mk.injEq] at hgrip
  obtain ⟨-, hactive, hmode⟩ := hgrip
  exact h.quiet hactive hmode

theorem held_of_grip {b b' : ButtonWidget} (hgrip : b'.grip = b.grip) : b'.held = b.held := by
  simp only [ButtonWidget.grip, Prod.mk.injEq] at hgrip
  obtain ⟨hpressed, hactive, -⟩ := hgrip
  rw [ButtonWidget.held, hpressed, hactive]
  rfl

/-- The states that a button has fired. -/
def statesOf (i : Nat) (calls : List Call) : List ButtonState :=
  calls.filterMap fun c =>
    match c with
    | .button j state => if j = i then some state else none
    | _ => none

namespace Manager

variable {lib : NumberText} {app : Call → List Action} {e : TouchEventData}

/-- The grips of all buttons. -/
def grips (m : Manager) : List (Bool × Bool × ButtonMode) :=
  m.buttons.map fun en => en.widget.grip

/-- A change of the widget with an id leaves what it leaves of each widget. -/
theorem map_onId {ω β : Type} (g : ω → β) (f : ω → ω) (hf : ∀ w, g (f w) = g w) {id : String}
    {entries entries' : List (Entry ω)} (h : onId id f entries = some entries') :
    (entries'.map fun en => g en.widget) = entries.map fun en => g en.widget := by
  obtain ⟨i, -, rfl⟩ := Option.map_eq_some_iff.mp h
  refine List.ext_getElem (by simp) fun j hj _ => ?_
  rw [List.getElem_map, List.getElem_map, List.getElem_modify]
  split
  · exact hf _
  · rfl

theorem grips_setVisible (m : Manager) (id : String) (v : Bool) :
    (m.setVisible id v).grips = m.grips := by
  unfold setVisible
  split
  · next h =>
    exact map_onId ButtonWidget.grip (fun b => { b with visibleWidget := v }) (fun _ => rfl) h
  · repeat' split
    all_goals rfl

/-- No action presses, releases or holds a button. -/
theorem grips_act (m : Manager) (a : Action) : (m.act a).grips = m.grips := by
  cases a with
  | setVisible id v => exact grips_setVisible m id v
  | setToggleState id s =>
      show List.map _ (Option.getD (onId id _ m.buttons) m.buttons) = _
      cases h : onId id (fun b => { b with toggleState := s }) m.buttons with
      | none => rfl
      | some buttons =>
          exact map_onId ButtonWidget.grip (fun b => { b with toggleState := s }) (fun _ => rfl) h
  | openDialog id dialog => rfl
  | fireDialog id => rfl
  | dismissDialog id => rfl
  | eraseDialog id => rfl

theorem calls_setVisible (m : Manager) (id : String) (v : Bool) :
    (m.setVisible id v).calls = m.calls := by
  unfold setVisible
  repeat' split
  all_goals rfl

theorem calls_act (m : Manager) (a : Action) : (m.act a).calls = m.calls := by
  cases a with
  | setVisible id v => exact calls_setVisible m id v
  | setToggleState id s => rfl
  | openDialog id dialog => rfl
  | fireDialog id => rfl
  | dismissDialog id => rfl
  | eraseDialog id => rfl

theorem acts_frame (acts : List Action) (m : Manager) :
    (acts.foldl act m).grips = m.grips ∧ (acts.foldl act m).calls = m.calls := by
  induction acts generalizing m with
  | nil => exact ⟨rfl, rfl⟩
  | cons a acts ih =>
      obtain ⟨hgrips, hcalls⟩ := ih (m.act a)
      exact ⟨hgrips.trans (grips_act m a), hcalls.trans (calls_act m a)⟩

variable (app) in
/-- Calls add to the list of calls, and what the application does leaves the grips. -/
theorem callAll_frame (cs : List Call) (m : Manager) :
    (m.callAll app cs).grips = m.grips ∧ (m.callAll app cs).calls = m.calls ++ cs := by
  induction cs generalizing m with
  | nil => exact ⟨rfl, (List.append_nil _).symm⟩
  | cons c cs ih =>
      obtain ⟨hgrips, hcalls⟩ := ih (m.call app c)
      obtain ⟨hgrips', hcalls'⟩ := acts_frame (app c) { m with calls := m.calls ++ [c] }
      refine ⟨hgrips.trans hgrips', ?_⟩
      rw [callAll, List.foldl_cons]
      refine hcalls.trans ?_
      rw [call, hcalls', List.append_assoc]
      rfl

/-! ## What leaves the buttons -/

/-- The buttons hold what they held, and have fired nothing more. -/
structure Quiet (m m' : Manager) : Prop where
  grips : m'.grips = m.grips
  fired : ∀ i, statesOf i m'.calls = statesOf i m.calls

theorem Quiet.refl (m : Manager) : Quiet m m := ⟨rfl, fun _ => rfl⟩

theorem Quiet.trans {m m' m'' : Manager} (h : Quiet m m') (h' : Quiet m' m'') : Quiet m m'' :=
  ⟨h'.grips.trans h.grips, fun i => (h'.fired i).trans (h.fired i)⟩

/-- Calls of other callbacks, after a change that leaves the buttons. -/
theorem Quiet.callAll {m m' : Manager} (hbuttons : m'.buttons = m.buttons)
    (hcalls : m'.calls = m.calls) {cs : List Call} (hcs : ∀ i, statesOf i cs = []) :
    Quiet m (m'.callAll app cs) := by
  obtain ⟨hgrips, happended⟩ := callAll_frame app cs m'
  refine ⟨hgrips.trans (by rw [Manager.grips, hbuttons]; rfl), fun i => ?_⟩
  rw [happended, statesOf, List.filterMap_append, hcalls]
  exact (congrArg _ (hcs i)).trans (List.append_nil _)

theorem Quiet.fire {m m' : Manager} (hbuttons : m'.buttons = m.buttons)
    (hcalls : m'.calls = m.calls) {α : Type} {f : α → Call} (hf : ∀ i a, statesOf i [f a] = [])
    (as : List α) : Quiet m (m'.callAll app (as.map f)) := by
  refine Quiet.callAll hbuttons hcalls fun i => ?_
  induction as with
  | nil => rfl
  | cons a as ih =>
      rw [List.map_cons, statesOf, ← List.singleton_append, List.filterMap_append]
      exact (congrArg (· ++ _) (hf i a)).trans ih

theorem quiet_act (m : Manager) (a : Action) : Quiet m (m.act a) :=
  ⟨grips_act m a, fun i => by rw [calls_act]⟩

theorem quiet_sliderEvent (m : Manager) (i : Nat) : Quiet m (m.sliderEvent app e i) := by
  unfold sliderEvent
  split
  · exact Quiet.refl m
  · split
    exact Quiet.fire (by rfl) (by rfl) (fun _ _ => by rfl) _

theorem quiet_dialEvent (m : Manager) (i : Nat) : Quiet m (m.dialEvent app e i) := by
  unfold dialEvent
  split
  · exact Quiet.refl m
  · split
    exact Quiet.fire (by rfl) (by rfl) (fun _ _ => by rfl) _

theorem quiet_comboEvent (m : Manager) (i : Nat) : Quiet m (m.comboEvent app e i) := by
  unfold comboEvent
  split
  · exact Quiet.refl m
  · split
    exact Quiet.fire (by rfl) (by rfl) (fun _ _ => by rfl) _

theorem quiet_editEvent (m : Manager) (i : Nat) : Quiet m (m.editEvent app e i) := by
  unfold editEvent
  split
  · exact Quiet.refl m
  · split
    refine Quiet.callAll (by rfl) (by rfl) fun j => ?_
    split <;> rfl

theorem quiet_spinEvent (m : Manager) (i : Nat) : Quiet m (m.spinEvent lib app e i) := by
  unfold spinEvent
  split
  · exact Quiet.refl m
  · split
    exact Quiet.fire (by rfl) (by rfl) (fun _ _ => by rfl) _

theorem quiet_dialogEvent (m : Manager) (i : Nat) : Quiet m (m.dialogEvent app e i) := by
  unfold dialogEvent
  split
  · exact Quiet.refl m
  · split
    exact Quiet.fire (by rfl) (by rfl) (fun _ _ => by rfl) _

theorem quiet_deliver (m : Manager) (delivery : KeyboardWidget.Delivery) :
    Quiet m (m.deliver app delivery) := by
  unfold deliver
  split
  · exact Quiet.refl m
  · exact Quiet.callAll (by rfl) (by rfl) fun _ => by rfl
  · exact ⟨rfl, fun _ => rfl⟩

theorem quiet_foldl {f : Manager → Nat → Manager} (hf : ∀ m i, Quiet m (f m i)) (is : List Nat)
    (m : Manager) : Quiet m (is.foldl f m) := by
  induction is generalizing m with
  | nil => exact Quiet.refl m
  | cons i is ih => exact (hf m i).trans (ih _)

/-! ## The loop over the buttons -/

/-- Every button is sane. -/
def AllSane (m : Manager) : Prop :=
  ∀ (i : Nat) (en : Entry ButtonWidget), m.buttons[i]? = some en →
    Sane en.widget (statesOf i m.calls)

/-- No button is held. -/
def NoneHeld (m : Manager) : Prop := ∀ en ∈ m.buttons, en.widget.held = false

instance (m : Manager) : Decidable (NoneHeld m) :=
  inferInstanceAs (Decidable (∀ en ∈ m.buttons, en.widget.held = false))

theorem grips_getElem? (m : Manager) (i : Nat) :
    m.grips[i]? = m.buttons[i]?.map fun en : Entry ButtonWidget => en.widget.grip :=
  List.getElem?_map ..

/-- A button with the same grip before. -/
theorem button_of_grips {m m' : Manager} {i : Nat} (h : m'.grips[i]? = m.grips[i]?)
    {en' : Entry ButtonWidget} (hen : m'.buttons[i]? = some en') :
    ∃ en, m.buttons[i]? = some en ∧ en'.widget.grip = en.widget.grip := by
  rw [grips_getElem?, grips_getElem?, hen] at h
  obtain ⟨en, hen', hgrip⟩ := Option.map_eq_some_iff.mp h.symm
  exact ⟨en, hen', hgrip.symm⟩

theorem AllSane.quiet {m m' : Manager} (h : AllSane m) (hq : Quiet m m') : AllSane m' := by
  intro i en' hen'
  obtain ⟨en, hen, hgrip⟩ := button_of_grips (congrArg (·[i]?) hq.grips) hen'
  rw [hq.fired]
  exact (h i en hen).of_grip hgrip

theorem NoneHeld.quiet {m m' : Manager} (h : NoneHeld m) (hgrips : m'.grips = m.grips) :
    NoneHeld m' := by
  intro en' hen'
  obtain ⟨i, hi⟩ := List.mem_iff_getElem?.mp hen'
  obtain ⟨en, hen, hgrip⟩ := button_of_grips (congrArg (·[i]?) hgrips) hi
  rw [held_of_grip hgrip]
  exact h en (List.mem_of_getElem? hen)

theorem statesOf_button (i j : Nat) (states : List ButtonState) :
    statesOf j (states.map (.button i)) = if i = j then states else [] := by
  induction states with
  | nil => split <;> rfl
  | cons state states ih =>
      rw [List.map_cons, statesOf, ← List.singleton_append, List.filterMap_append]
      refine (congrArg (_ ++ ·) ih).trans ?_
      by_cases hij : i = j
      · simp [hij]
      · simp [hij]

variable (app) in
/-- One button reacts and fires; the others are left. -/
theorem react_frame (m : Manager) (i : Nat) (en : Entry ButtonWidget) (b : ButtonWidget)
    (states : List ButtonState) :
    let m' := callAll app { m with buttons := m.buttons.set i { en with widget := b } }
      (states.map (.button i))
    m'.grips = m.grips.set i b.grip ∧
      ∀ j, statesOf j m'.calls = statesOf j m.calls ++ if i = j then states else [] := by
  obtain ⟨hgrips, hcalls⟩ := callAll_frame app (states.map (.button i))
    { m with buttons := m.buttons.set i { en with widget := b } }
  refine ⟨hgrips.trans (List.map_set ..), fun j => ?_⟩
  rw [hcalls, statesOf, List.filterMap_append]
  exact congrArg _ (statesOf_button i j states)

/-- A button after the reaction is the one that reacted, or was there before. -/
theorem button_react {m : Manager} {i j : Nat} {en en' : Entry ButtonWidget}
    (hen : m.buttons[i]? = some en) {b : ButtonWidget} {states : List ButtonState}
    (hen' : (callAll app { m with buttons := m.buttons.set i { en with widget := b } }
      (states.map (.button i))).buttons[j]? = some en') :
    (i = j ∧ en'.widget.grip = b.grip) ∨
      (i ≠ j ∧ ∃ en₀, m.buttons[j]? = some en₀ ∧ en'.widget.grip = en₀.widget.grip) := by
  have hgrip := congrArg (·[j]?) (react_frame app m i en b states).1
  by_cases hij : i = j
  · subst hij
    rw [grips_getElem?, hen', List.getElem?_set_self (by
      rw [grips, List.length_map]
      exact (List.getElem?_eq_some_iff.mp hen).1)] at hgrip
    exact Or.inl ⟨rfl, Option.some.inj hgrip⟩
  · rw [List.getElem?_set_ne hij] at hgrip
    exact Or.inr ⟨hij, button_of_grips hgrip hen'⟩

/-- Where each button reacts sanely, all stay sane. -/
theorem AllSane.react {m : Manager} {i : Nat} {en : Entry ButtonWidget} (h : AllSane m)
    (hen : m.buttons[i]? = some en) {b : ButtonWidget} {states : List ButtonState}
    (hb : Sane b (statesOf i m.calls ++ states)) :
    AllSane (callAll app { m with buttons := m.buttons.set i { en with widget := b } }
      (states.map (.button i))) := by
  intro j en' hen'
  rw [(react_frame app m i en b states).2 j]
  rcases button_react hen hen' with ⟨rfl, hgrip⟩ | ⟨hij, en₀, hen₀, hgrip⟩
  · rw [if_pos rfl]
    exact hb.of_grip hgrip
  · rw [if_neg hij, List.append_nil]
    exact (h j en₀ hen₀).of_grip hgrip

theorem AllSane.buttonEvent {m : Manager} (h : AllSane m) (i : Nat) :
    AllSane (m.buttonEvent app e i) := by
  unfold Manager.buttonEvent
  split
  · exact h
  · next en hen => exact h.react hen ((h i en hen).handleEvent e)

theorem AllSane.buttonUpdate {m : Manager} (h : AllSane m) (nowMs : UInt32) (i : Nat) :
    AllSane (m.buttonUpdate app nowMs i) := by
  unfold Manager.buttonUpdate
  split
  · exact h
  · next en hen => exact h.react hen ((h i en hen).update nowMs)

theorem NoneHeld.buttonUpdate {m : Manager} (h : NoneHeld m) (nowMs : UInt32) (i : Nat) :
    NoneHeld (m.buttonUpdate app nowMs i) := by
  unfold Manager.buttonUpdate
  split
  · exact h
  · next en hen =>
    intro en' hen'
    obtain ⟨j, hj⟩ := List.mem_iff_getElem?.mp hen'
    rcases button_react (b := (en.widget.update nowMs).1) hen hj with
      ⟨-, hgrip⟩ | ⟨-, en₀, hen₀, hgrip⟩
    · rw [held_of_grip hgrip, held_update]
      exact h en (List.mem_of_getElem? hen)
    · rw [held_of_grip hgrip]
      exact h en₀ (List.mem_of_getElem? hen₀)

/-- What one round keeps, the loop keeps. -/
theorem foldl_keeps {I : Manager → Prop} {f : Manager → Nat → Manager}
    (hf : ∀ m i, I m → I (f m i)) (is : List Nat) {m : Manager} (h : I m) : I (is.foldl f m) := by
  induction is generalizing m with
  | nil => exact h
  | cons i is ih => exact ih (hf m i h)

variable (app e) in
theorem grips_buttonEvent (m : Manager) (i : Nat) :
    (m.buttonEvent app e i).grips =
      (m.buttons[i]?.elim m.grips fun en => m.grips.set i (en.widget.handleEvent e).1.grip) := by
  unfold Manager.buttonEvent
  split
  · next hen => rw [hen]; rfl
  · next en hen =>
    rw [hen]
    exact (react_frame app m i en _ _).1

variable (app e) in
/-- The loop leaves the buttons that it does not come to. -/
theorem grips_foldl_ne {j : Nat} (is : List Nat) (hj : j ∉ is) (m : Manager) :
    (is.foldl (buttonEvent app e) m).grips[j]? = m.grips[j]? := by
  induction is generalizing m with
  | nil => rfl
  | cons i is ih =>
      rw [List.mem_cons, not_or] at hj
      rw [List.foldl_cons, ih hj.2, grips_buttonEvent]
      cases m.buttons[i]? with
      | none => rfl
      | some en => exact List.getElem?_set_ne (Ne.symm hj.1)

variable (app e) in
/-- A release comes to every button of the loop that holds something, while it is still pressed
and visible. -/
def AllReached : Manager → List Nat → Prop
  | _, [] => True
  | m, i :: is =>
      (∀ en ∈ m.buttons[i]?,
        en.widget.held = true → en.widget.pressed = true ∧ en.widget.visibleWidget = true) ∧
      AllReached (m.buttonEvent app e i) is

instance decidableAllReached : ∀ (is : List Nat) (m : Manager), Decidable (AllReached app e m is)
  | [], _ => .isTrue trivial
  | i :: is, m =>
      have : Decidable (AllReached app e (m.buttonEvent app e i) is) := decidableAllReached is _
      inferInstanceAs (Decidable ((∀ en ∈ m.buttons[i]?,
        en.widget.held = true → en.widget.pressed = true ∧ en.widget.visibleWidget = true) ∧
          AllReached app e (m.buttonEvent app e i) is))

/-- After the loop of a release, no button that it came to is held exactly when all were
reached. -/
theorem noneHeld_foldl_iff (he : e.event = .release) (is : List Nat) (hnodup : is.Nodup)
    {m : Manager} (h : AllSane m) :
    (∀ i ∈ is, ∀ en, (is.foldl (buttonEvent app e) m).buttons[i]? = some en →
      en.widget.held = false) ↔ AllReached app e m is := by
  induction is generalizing m with
  | nil => simp [AllReached]
  | cons i is ih =>
      rw [List.nodup_cons] at hnodup
      obtain ⟨hi, hnodup⟩ := hnodup
      rw [List.forall_mem_cons, AllReached, List.foldl_cons, ih hnodup (h.buttonEvent i)]
      refine and_congr_left fun _ => ?_
      have hgrips := grips_foldl_ne app e is hi (m.buttonEvent app e i)
      rw [grips_buttonEvent] at hgrips
      cases hen : m.buttons[i]? with
      | none =>
          rw [hen, Option.elim_none] at hgrips
          constructor
          · intro _ en hen'
            cases hen'
          · intro _ en hen'
            obtain ⟨en₀, hen₀, -⟩ := button_of_grips hgrips hen'
            rw [hen] at hen₀
            cases hen₀
      | some en =>
          rw [hen, Option.elim_some, List.getElem?_set_self (by
            rw [grips, List.length_map]
            exact (List.getElem?_eq_some_iff.mp hen).1), grips_getElem?] at hgrips
          obtain ⟨en', hen', hgrip⟩ := Option.map_eq_some_iff.mp hgrips
          rw [hen']
          simp only [Option.mem_def, Option.some.injEq, forall_eq']
          rw [held_of_grip hgrip]
          exact held_release (h i en hen) he

variable (app e) in
theorem length_foldl (is : List Nat) (m : Manager) :
    (is.foldl (buttonEvent app e) m).buttons.length = m.buttons.length := by
  induction is generalizing m with
  | nil => rfl
  | cons i is ih =>
      have hgrips := congrArg List.length (grips_buttonEvent app e m i)
      rw [grips, List.length_map] at hgrips
      rw [List.foldl_cons, ih, hgrips]
      cases m.buttons[i]? with
      | none => exact List.length_map _
      | some en =>
          rw [Option.elim_some, List.length_set]
          exact List.length_map _

/-! ## A touch event -/

/-- A dialog or the keyboard takes every touch event. -/
def blocked (m : Manager) : Bool :=
  (m.dialogs.any fun en => en.widget.isVisible) || m.keyboard.visible

variable (lib app e) in
/-- The loops over the other widgets leave the buttons. -/
theorem quiet_widgetsEvent (m : Manager) :
    Quiet ((List.range m.buttons.length).foldl (buttonEvent app e) m)
      (m.widgetsEvent lib app e) := by
  unfold widgetsEvent
  exact ((((quiet_foldl quiet_sliderEvent _ _).trans (quiet_foldl quiet_dialEvent _ _)).trans
    (quiet_foldl quiet_comboEvent _ _)).trans (quiet_foldl quiet_editEvent _ _)).trans
    (quiet_foldl quiet_spinEvent _ _)

variable (lib app e) in
theorem handleEvent_blocked {m : Manager} (h : m.blocked = true) :
    Quiet m (m.handleEvent lib app e) := by
  unfold handleEvent
  split
  · exact quiet_dialogEvent m _
  · next hnone =>
    split
    · next kb delivery _ =>
      have hkeyboard : Quiet m { m with keyboard := kb } := ⟨rfl, fun _ => rfl⟩
      exact hkeyboard.trans (quiet_deliver _ delivery)
    · next hkb =>
      have hdialogs : (m.dialogs.any fun en => en.widget.isVisible) = false := by
        simpa using List.findIdx?_eq_none_iff.mp hnone
      rw [blocked, hdialogs, Bool.false_or] at h
      unfold KeyboardWidget.handleEvent at hkb
      rw [h, if_pos rfl] at hkb
      split at hkb
      · dsimp only at hkb
        split at hkb <;> cases hkb
      · cases hkb
      · cases hkb
      · cases hkb

theorem handleEvent_open {m : Manager} (h : m.blocked = false) :
    m.handleEvent lib app e = m.widgetsEvent lib app e := by
  rw [blocked, Bool.or_eq_false_iff] at h
  obtain ⟨hdialogs, hkb⟩ := h
  have hnone : (m.dialogs.findIdx? fun en => en.widget.isVisible) = none := by
    rw [List.findIdx?_eq_none_iff]
    simpa using hdialogs
  rw [handleEvent, hnone]
  dsimp only
  rw [KeyboardWidget.handleEvent, hkb]
  rfl

theorem AllSane.handleEvent {m : Manager} (h : AllSane m) :
    AllSane (m.handleEvent lib app e) := by
  cases hblocked : m.blocked with
  | true => exact h.quiet (handleEvent_blocked lib app e hblocked)
  | false =>
      rw [handleEvent_open hblocked]
      exact (foldl_keeps (fun m i hm => hm.buttonEvent i) _ h).quiet
        (quiet_widgetsEvent lib app e m)

variable (app e) in
/-- A release comes to every button that holds something. -/
def Delivers (m : Manager) : Prop :=
  if m.blocked then NoneHeld m else AllReached app e m (List.range m.buttons.length)

instance (m : Manager) : Decidable (Delivers app e m) := by
  unfold Delivers
  split <;> infer_instance

/-- After a release no button is held exactly when the release came to all that were. -/
theorem noneHeld_release_iff {m : Manager} (h : AllSane m) (he : e.event = .release) :
    NoneHeld (m.handleEvent lib app e) ↔ Delivers app e m := by
  rw [Delivers]
  cases hblocked : m.blocked with
  | true =>
      rw [if_pos rfl]
      have hgrips := (handleEvent_blocked lib app e hblocked).grips
      exact ⟨fun hnone => hnone.quiet hgrips.symm, fun hnone => hnone.quiet hgrips⟩
  | false =>
      rw [if_neg (by simp), handleEvent_open hblocked,
        ← noneHeld_foldl_iff he _ List.nodup_range h]
      have hgrips := (quiet_widgetsEvent lib app e m).grips
      constructor
      · intro hnone i _ en hen
        exact hnone.quiet hgrips.symm en (List.mem_of_getElem? hen)
      · intro hnone
        refine NoneHeld.quiet (fun en hen => ?_) hgrips
        obtain ⟨i, hi⟩ := List.mem_iff_getElem?.mp hen
        refine hnone i ?_ en hi
        rw [List.mem_range, ← length_foldl app e (List.range m.buttons.length) m]
        exact (List.getElem?_eq_some_iff.mp hi).1

end Manager

/-! ## Runs -/

/-- The manager and the finger. -/
structure Ui where
  manager : Manager
  down : Bool := false

/-- What happens to the manager. -/
inductive UiEvent
  /-- A touch event, with what the application does in the callbacks. -/
  | touch (e : TouchEventData) (app : Call → List Action)
  /-- An action of the application between two events. -/
  | act (a : Action)
  /-- `update`. -/
  | update (nowMs : UInt32) (app : Call → List Action)
  /-- `setPressed(false)`, which the application calls where a dialog of the button is closed. -/
  | letGo (id : String)

namespace Ui

/-- Touch events are those of one finger: a press, moves and holds, a release. -/
def step (lib : NumberText) (s : Ui) : UiEvent → Option Ui
  | .touch e app =>
      match e.event, s.down with
      | .press, false => some { manager := s.manager.handleEvent lib app e, down := true }
      | .move, true => some { manager := s.manager.handleEvent lib app e, down := true }
      | .hold, true => some { manager := s.manager.handleEvent lib app e, down := true }
      | .release, true => some { manager := s.manager.handleEvent lib app e, down := false }
      | _, _ => none
  | .act a => some { s with manager := s.manager.act a }
  | .update nowMs app => some { s with manager := s.manager.update app nowMs }
  | .letGo id =>
      let buttons := s.manager.buttons
      some { s with
        manager := { s.manager with
          buttons := (onId id (fun b => { b with pressed := false }) buttons).getD buttons } }

/-- While no finger is down, no button is pressed or held, and every hold was ended. -/
def AtRest (s : Ui) : Prop :=
  s.down = false → ∀ (i : Nat) (en : Entry ButtonWidget), s.manager.buttons[i]? = some en →
    en.widget.pressed = false ∧ en.widget.holdActive = false ∧
      Settled (statesOf i s.manager.calls)

/-- A release comes to every button that holds something. -/
def Delivered (s : Ui) : UiEvent → Prop
  | .touch e app => e.event = .release → s.down = true → s.manager.Delivers app e
  | .act _ => True
  | .update _ _ => True
  | .letGo _ => True

instance (s : Ui) (e : UiEvent) : Decidable (s.Delivered e) := by
  unfold Delivered
  split <;> infer_instance

variable {lib : NumberText}

/-- What is known of a manager that was made by `addButton` calls alone. -/
structure Fresh (s : Ui) : Prop where
  up : s.down = false
  idle : ∀ en ∈ s.manager.buttons, en.widget.pressed = false ∧ en.widget.holdActive = false
  uncalled : s.manager.calls = []

theorem Fresh.allSane {s : Ui} (h : s.Fresh) : s.manager.AllSane := by
  intro i en hen
  obtain ⟨-, hidle, hcalls⟩ := h
  obtain ⟨-, hactive⟩ := hidle en (List.mem_of_getElem? hen)
  refine ⟨fun ha => ?_, fun _ => ?_⟩
  · rw [hactive] at ha
    cases ha
  · rw [hcalls]
    exact settled_nil

theorem Fresh.noneHeld {s : Ui} (h : s.Fresh) : s.manager.NoneHeld := by
  intro en hen
  obtain ⟨hpressed, hactive⟩ := h.idle en hen
  rw [ButtonWidget.held, hpressed, hactive]
  rfl

/-- Between sane buttons and no held button there is only the list of calls. -/
theorem atRest_iff_noneHeld {s : Ui} (h : s.manager.AllSane) :
    s.AtRest ↔ (s.down = false → s.manager.NoneHeld) := by
  refine forall_congr' fun _ => ⟨fun hrest en hen => ?_, fun hnone i en hen => ?_⟩
  · obtain ⟨i, hi⟩ := List.mem_iff_getElem?.mp hen
    obtain ⟨hpressed, hactive, -⟩ := hrest i en hi
    rw [ButtonWidget.held, hpressed, hactive]
    rfl
  · have hheld := hnone en (List.mem_of_getElem? hen)
    rw [ButtonWidget.held, Bool.or_eq_false_iff] at hheld
    exact ⟨hheld.1, hheld.2, (h i en hen).settled hheld.2⟩

/-- `setPressed(false)` of the first button with the id. -/
theorem button_letGo {id : String} {buttons : List (Entry ButtonWidget)} {i : Nat}
    {en' : Entry ButtonWidget}
    (hen' :
      ((onId id (fun b => { b with pressed := false }) buttons).getD buttons)[i]? = some en') :
    ∃ en, buttons[i]? = some en ∧
      (en'.widget = en.widget ∨ en'.widget = { en.widget with pressed := false }) := by
  unfold onId at hen'
  cases hfind : buttons.findIdx? fun en => en.id == id with
  | none =>
      rw [hfind] at hen'
      exact ⟨en', hen', Or.inl rfl⟩
  | some j =>
      rw [hfind, Option.map_some, Option.getD_some, List.getElem?_modify] at hen'
      obtain ⟨en, hen, rfl⟩ := Option.map_eq_some_iff.mp hen'
      refine ⟨en, hen, ?_⟩
      split
      · exact Or.inr rfl
      · exact Or.inl rfl

theorem allSane_step {s t : Ui} {e : UiEvent} (h : s.manager.AllSane)
    (hstep : step lib s e = some t) : t.manager.AllSane := by
  cases e with
  | touch e app =>
      simp only [Ui.step] at hstep
      split at hstep <;> cases hstep
      all_goals exact h.handleEvent
  | act a =>
      cases hstep
      exact h.quiet (Manager.quiet_act s.manager a)
  | update nowMs app =>
      cases hstep
      exact Manager.foldl_keeps (fun m i hm => hm.buttonUpdate nowMs i) _ h
  | letGo id =>
      cases hstep
      intro i en' hen'
      obtain ⟨en, hen, hwidget⟩ := button_letGo hen'
      rcases hwidget with hwidget | hwidget
      · exact (h i en hen).quiet (by rw [hwidget]) (by rw [hwidget])
      · exact (h i en hen).quiet (by rw [hwidget]) (by rw [hwidget])

/-- A step keeps that no button is held while no finger is down exactly when it is delivered. -/
theorem noneHeld_step_iff {s t : Ui} {e : UiEvent} (h : s.manager.AllSane)
    (hnone : s.down = false → s.manager.NoneHeld) (hstep : step lib s e = some t) :
    (t.down = false → t.manager.NoneHeld) ↔ Delivered s e := by
  cases e with
  | touch e app =>
      simp only [Ui.step] at hstep
      rw [Delivered]
      split at hstep
      · next he hdown =>
        cases hstep
        simp [he]
      · next he hdown =>
        cases hstep
        simp [he]
      · next he hdown =>
        cases hstep
        simp [he]
      · next he hdown =>
        cases hstep
        simp only [he, hdown, forall_const]
        exact Manager.noneHeld_release_iff h he
      · cases hstep
  | act a =>
      cases hstep
      exact iff_of_true (fun hdown => (hnone hdown).quiet (Manager.grips_act s.manager a)) trivial
  | update nowMs app =>
      cases hstep
      exact iff_of_true (fun hdown =>
        Manager.foldl_keeps (fun m i hm => hm.buttonUpdate nowMs i) _ (hnone hdown)) trivial
  | letGo id =>
      cases hstep
      refine iff_of_true (fun hdown en' hen' => ?_) trivial
      obtain ⟨i, hi⟩ := List.mem_iff_getElem?.mp hen'
      obtain ⟨en, hen, hwidget⟩ := button_letGo hi
      have hheld := hnone hdown en (List.mem_of_getElem? hen)
      rw [ButtonWidget.held, Bool.or_eq_false_iff] at hheld
      rcases hwidget with hwidget | hwidget
      · rw [hwidget, ButtonWidget.held, hheld.1, hheld.2]
        rfl
      · rw [hwidget]
        exact hheld.2

/-- On the way, buttons stay sane, and none is held while no finger is down. -/
def Inv (s : Ui) : Prop := s.manager.AllSane ∧ (s.down = false → s.manager.NoneHeld)

theorem Fresh.inv {s : Ui} (h : s.Fresh) : s.Inv := ⟨h.allSane, fun _ => h.noneHeld⟩

theorem Inv.step {s t : Ui} {e : UiEvent} (h : s.Inv) (he : Delivered s e)
    (hstep : step lib s e = some t) : t.Inv := by
  obtain ⟨hsane, hnone⟩ := h
  exact ⟨allSane_step hsane hstep, (noneHeld_step_iff hsane hnone hstep).mpr he⟩

/-- All states of a run are at rest while no finger is down. -/
def StaysAtRest (lib : NumberText) (s : Ui) (es : List UiEvent) : Prop :=
  ∀ es₁ es₂ t, es = es₁ ++ es₂ → run (step lib) s es₁ = some t → t.AtRest

/-- Buttons are at rest in all states of a run exactly when every release of the run comes to
all buttons that hold something. -/
theorem atRest_iff_delivered (lib : NumberText) {s : Ui} (hs : s.Fresh) (es : List UiEvent) :
    s.StaysAtRest lib es ↔ Throughout (step lib) Delivered s es := by
  constructor
  · intro hrest
    apply Classical.byContradiction
    intro hbad
    obtain ⟨es₁, e, es₂, t, rfl, hall, hrun, he⟩ := first_violation hbad
    obtain ⟨hsane, hnone⟩ := run_invariant (I := Inv) Inv.step hs.inv hall hrun
    cases hstep : step lib t e with
    | none =>
        -- an event that cannot come is no release of the finger
        cases e with
        | touch e app =>
            refine he fun hrelease hdown => ?_
            simp [step, hrelease, hdown] at hstep
        | act a => cases hstep
        | update nowMs app => cases hstep
        | letGo id => cases hstep
    | some u =>
        have hu : u.AtRest := by
          refine hrest (es₁ ++ [e]) es₂ u (by simp) (run_trans hrun ?_)
          rw [run_cons hstep]
          rfl
        rw [atRest_iff_noneHeld (allSane_step hsane hstep)] at hu
        exact he ((noneHeld_step_iff hsane hnone hstep).mp hu)
  · intro hall es₁ es₂ t hes hrun
    subst hes
    obtain ⟨hsane, hnone⟩ :=
      run_invariant (I := Inv) Inv.step hs.inv (throughout_of_append hall) hrun
    exact (atRest_iff_noneHeld hsane).mpr hnone

/-! ## Two buttons of the application -/

/-- A finger at a place. -/
def touchAt (event : TouchEvent) (x y : UInt16) (app : Call → List Action) : UiEvent :=
  .touch ⟨event, ⟨1, x, y, 5, true⟩, 0, 0, 0⟩ app

/-- The buttons `quit` and `boost`, both shown. -/
def panel : Ui :=
  { manager :=
      { buttons :=
          [⟨"quit", { x := 20, y := 20, w := 180, h := 60, mode := .trigger }⟩,
            ⟨"boost", { x := 450, y := 600, w := 180, h := 60, mode := .hold }⟩]
        keyboard := { x := 0, y := 400, w := 1280, h := 320 } } }

/-- Texts of numbers, for a panel without number fields. -/
def noNumbers : NumberText := { fixed := fun _ _ => [], stof := fun _ => none }

/-- The dialog that `quit` asks with. -/
def askQuit : Action := .openDialog "__qfd_tmp__" (.make 1280 720 .yesNo)

/-- A hold on `boost`, and a tap on `quit` whose dialog comes after the release. -/
def calmRun : List UiEvent :=
  [touchAt .press 500 620 fun _ => [], touchAt .hold 500 620 fun _ => [],
    touchAt .release 500 620 fun _ => [], touchAt .press 50 50 fun _ => [],
    touchAt .release 50 50 fun _ => [], .act askQuit, .letGo "quit"]

theorem fresh_panel : panel.Fresh := ⟨rfl, by decide, rfl⟩

theorem atRest_calmRun : panel.StaysAtRest noNumbers calmRun :=
  (atRest_iff_delivered noNumbers fresh_panel calmRun).mpr (by decide)

/-- A tap on `quit` whose dialog comes before the release. -/
def coveredTap : List UiEvent :=
  [touchAt .press 50 50 fun _ => [], .act askQuit, touchAt .release 50 50 fun _ => []]

/-- The view changes while a finger holds `boost`. -/
def hiddenHold : List UiEvent :=
  [touchAt .press 500 620 fun _ => [], touchAt .hold 500 620 fun _ => [],
    .act (.setVisible "boost" false), touchAt .release 500 620 fun _ => []]

/-- What is seen of the buttons. -/
def view (s : Ui) : Bool × List (Bool × Bool) × List Call :=
  (s.down, s.manager.buttons.map fun en => (en.widget.pressed, en.widget.holdActive),
    s.manager.calls)

theorem run_coveredTap : (run (step noNumbers) panel coveredTap).map view =
    some (false, [(true, false), (false, false)], [.button 0 .trigger]) := by
  decide

theorem run_hiddenHold : (run (step noNumbers) panel hiddenHold).map view =
    some (false, [(false, false), (true, true)], [.button 1 .holdStart]) := by
  decide

/-- A button that is seen pressed while no finger is down. -/
theorem not_atRest_of_view {t : Ui} {buttons : List (Bool × Bool)} {calls : List Call} {i : Nat}
    {active : Bool} (hview : t.view = (false, buttons, calls))
    (hi : buttons[i]? = some (true, active)) : ¬ t.AtRest := by
  intro hrest
  simp only [view, Prod.mk.injEq] at hview
  obtain ⟨hdown, hbuttons, -⟩ := hview
  rw [← hbuttons, List.getElem?_map] at hi
  obtain ⟨en, hen, hseen⟩ := Option.map_eq_some_iff.mp hi
  obtain ⟨hpressed, -⟩ := hrest hdown i en hen
  rw [hpressed] at hseen
  cases hseen

/-- Both runs leave a button pressed while no finger is down. -/
theorem not_atRest :
    panel.Fresh ∧ ∀ es ∈ [coveredTap, hiddenHold],
      ∃ t, run (step noNumbers) panel es = some t ∧ ¬ t.AtRest := by
  refine ⟨fresh_panel, ?_⟩
  rw [List.forall_mem_cons, List.forall_mem_singleton]
  constructor
  · obtain ⟨t, hrun, hview⟩ := Option.map_eq_some_iff.mp run_coveredTap
    exact ⟨t, hrun, not_atRest_of_view (i := 0) hview rfl⟩
  · obtain ⟨t, hrun, hview⟩ := Option.map_eq_some_iff.mp run_hiddenHold
    exact ⟨t, hrun, not_atRest_of_view (i := 1) hview rfl⟩

end Ui

end MFoES.Uisys
