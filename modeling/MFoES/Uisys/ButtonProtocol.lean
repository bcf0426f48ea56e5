import Mathlib.Data.List.Chain
import Mathlib.Algebra.Order.Field.Basic
import Mathlib.Algebra.Order.Field.Rat
import Mathlib.Tactic.NormNum
import MFoES.Uisys.Widgets

/-!
# The callbacks of a button

A button takes touches, changes of its visibility and calls of `update`, and answers with calls of
its callback.  `ButtonWidget.Step` says once what an input can do.

* `HOLD_START` comes in turn with `HOLD_END` or `HOLD_CANCEL` (`HoldInv`).
* From a press to the next one, a swipe is done or cancelled once at most (`SwipeInv`).
* A swipe is done when the button was pressed for the duration, since the first `update` behind
  the press.  The button keeps the time of that `update` and takes a zero for no time, so a first
  `update` at time zero is forgotten, and the swipe counts from a later one
  (`ButtonWatch.SeededLate`).

The last is the only way to break the protocol (`protocolKept_iff`).
-/

namespace MFoES.Uisys

open MFoES.Touch

/-- What a button is given. -/
inductive ButtonInput
  | touch (e : TouchEventData)
  | setVisible (v : Bool)
  | update (nowMs : UInt32)

/-- The time of an `update`. -/
def ButtonInput.time : ButtonInput → Option UInt32
  | .touch _ => none
  | .setVisible _ => none
  | .update nowMs => some nowMs

namespace ButtonWidget

/-! ## The progress of a swipe -/

/-- `update`, with what is shown of the progress and the test that it is complete. -/
def updateBy (shown : UInt32 → UInt32 → Float32) (complete : UInt32 → UInt32 → Bool)
    (b : ButtonWidget) (nowMs : UInt32) : ButtonWidget × List ButtonState :=
  if b.mode ≠ .holdSwipe ∨ b.pressed = false ∨ b.swipeFired ∨ b.swipeDurationMs = 0 then (b, [])
  else
    let pressedAt := if b.swipePressedAt = 0 then nowMs else b.swipePressedAt
    let elapsed := nowMs - pressedAt
    let b' :=
      { b with swipePressedAt := pressedAt, swipeProgress := shown elapsed b.swipeDurationMs }
    if complete elapsed b.swipeDurationMs then ({ b' with swipeFired := true }, [.swipeDone])
    else (b', [])

/-- `_swipeProgress` in `float`. -/
def floatProgress (elapsed duration : UInt32) : Float32 :=
  let progress := Float32.ofNat elapsed.toNat / Float32.ofNat duration.toNat
  if progress > 1 then 1 else progress

theorem update_eq_updateBy (b : ButtonWidget) (nowMs : UInt32) :
    b.update nowMs =
      b.updateBy floatProgress (fun elapsed duration => floatProgress elapsed duration ≥ 1)
        nowMs := by
  rw [update, updateBy]
  refine if_congr Iff.rfl rfl ?_
  exact if_congr decide_eq_true_iff.symm rfl rfl

/-- `_swipeProgress`, computed exactly. -/
def exactProgress (elapsed duration : UInt32) : ℚ :=
  let progress : ℚ := (elapsed.toNat : ℚ) / duration.toNat
  if progress > 1 then 1 else progress

theorem one_le_exactProgress_iff {elapsed duration : UInt32} (h : duration ≠ 0) :
    1 ≤ exactProgress elapsed duration ↔ duration ≤ elapsed := by
  have hpos : (0 : ℚ) < duration.toNat := by
    have hne : duration.toNat ≠ 0 := fun h0 => h (UInt32.toNat_inj.mp h0)
    exact_mod_cast Nat.pos_of_ne_zero hne
  rw [exactProgress, UInt32.le_iff_toNat_le]
  split_ifs with hprogress
  · rw [gt_iff_lt, one_lt_div hpos] at hprogress
    have hlt : duration.toNat < elapsed.toNat := by exact_mod_cast hprogress
    exact iff_of_true le_rfl (Nat.le_of_lt hlt)
  · rw [one_le_div hpos]
    exact_mod_cast Iff.rfl

/-! ## One input -/

section Inputs

variable (shown : UInt32 → UInt32 → Float32) (b : ButtonWidget)

/-- The button and its callbacks for an input, with the progress computed exactly. -/
def respond : ButtonInput → ButtonWidget × List ButtonState
  | .touch e => b.handleEvent e
  | .setVisible v => ({ b with visibleWidget := v }, [])
  | .update nowMs =>
      b.updateBy shown (fun elapsed duration => decide (1 ≤ exactProgress elapsed duration)) nowMs

/-- The input is a press, and the button takes it. -/
def accepts : ButtonInput → Bool
  | .touch e => b.visibleWidget && decide (e.event = .press) && b.hitTest e.point
  | .setVisible _ => false
  | .update _ => false

/-- A swipe is under way. -/
structure Swiping : Prop where
  mode : b.mode = .holdSwipe
  pressed : b.pressed = true
  unfired : b.swipeFired = false
  duration : b.swipeDurationMs ≠ 0

/-- The time from which `update` counts. -/
def countedFrom (nowMs : UInt32) : UInt32 :=
  if b.swipePressedAt = 0 then nowMs else b.swipePressedAt

/-- The button behind an `update` that counts. -/
def counted (nowMs : UInt32) : ButtonWidget :=
  { b with
    swipePressedAt := b.countedFrom nowMs
    swipeProgress := shown (nowMs - b.countedFrom nowMs) b.swipeDurationMs }

/-- Everything that an input can do to a button. -/
inductive Step : ButtonInput → ButtonWidget × List ButtonState → Prop
  | shows (v : Bool) : Step (.setVisible v) ({ b with visibleWidget := v }, [])
  | ignores (e : TouchEventData) (haccepts : b.accepts (.touch e) = false) :
      Step (.touch e) (b, [])
  | presses (e : TouchEventData) (haccepts : b.accepts (.touch e) = true) :
      Step (.touch e) b.onPress
  | holds (e : TouchEventData) (haccepts : b.accepts (.touch e) = false)
      (hmode : b.holdMode = true) (hactive : b.holdActive = false) :
      Step (.touch e) ({ b with holdActive := true }, [.holdStart])
  | letsGo (e : TouchEventData) (haccepts : b.accepts (.touch e) = false)
      (hpressed : b.pressed = true) (state : ButtonState)
      (hstate : state = .holdEnd ∨ state = .holdCancel) : Step (.touch e) (b.letGo state)
  | idles (nowMs : UInt32) (hidle : ¬ b.Swiping) : Step (.update nowMs) (b, [])
  | counts (nowMs : UInt32) (hswiping : b.Swiping)
      (hearly : nowMs - b.countedFrom nowMs < b.swipeDurationMs) :
      Step (.update nowMs) (b.counted shown nowMs, [])
  | completes (nowMs : UInt32) (hswiping : b.Swiping)
      (hdone : b.swipeDurationMs ≤ nowMs - b.countedFrom nowMs) :
      Step (.update nowMs) ({ b.counted shown nowMs with swipeFired := true }, [.swipeDone])

theorem swiping_iff : b.Swiping ↔
    ¬ (b.mode ≠ .holdSwipe ∨ b.pressed = false ∨ b.swipeFired ∨ b.swipeDurationMs = 0) := by
  simp only [not_or, not_not, Bool.not_eq_false, Bool.not_eq_true]
  exact ⟨fun ⟨hm, hp, hu, hd⟩ => ⟨hm, hp, hu, hd⟩, fun ⟨hm, hp, hu, hd⟩ => ⟨hm, hp, hu, hd⟩⟩

theorem step_touch (e : TouchEventData) : b.Step shown (.touch e) (b.handleEvent e) := by
  rw [handleEvent]
  by_cases hvisible : b.visibleWidget = true
  · rw [if_pos hvisible]
    have hnot : e.event ≠ .press → b.accepts (.touch e) = false := by
      intro he
      simp [accepts, he]
    cases hevent : e.event with
    | press =>
        cases hhit : b.hitTest e.point with
        | true => exact .presses e (by simp [accepts, hvisible, hevent, hhit])
        | false => exact .ignores e (by simp [accepts, hhit])
    | hold =>
        have hna := hnot (by simp [hevent])
        dsimp only
        split_ifs with hholds
        · simp only [Bool.and_eq_true, Bool.not_eq_true'] at hholds
          exact .holds e hna hholds.1.2 hholds.2
        · exact .ignores e hna
    | move =>
        have hna := hnot (by simp [hevent])
        dsimp only
        split_ifs with hout
        · rw [Bool.and_eq_true] at hout
          exact .letsGo e hna hout.1 _ (.inr rfl)
        · exact .ignores e hna
    | release =>
        have hna := hnot (by simp [hevent])
        dsimp only
        split_ifs with hpressed
        · exact .letsGo e hna hpressed _ (.inl rfl)
        · exact .ignores e hna
  · rw [if_neg hvisible]
    exact .ignores e (by simp [accepts, hvisible])

/-- The inversion of `respond`. -/
theorem step_respond (i : ButtonInput) : b.Step shown i (b.respond shown i) := by
  cases i with
  | touch e => exact step_touch shown b e
  | setVisible v => exact .shows v
  | update nowMs =>
      rw [respond, updateBy]
      by_cases hidle : b.mode ≠ .holdSwipe ∨ b.pressed = false ∨ b.swipeFired ∨
          b.swipeDurationMs = 0
      · rw [if_pos hidle]
        exact .idles nowMs fun h => (swiping_iff b).mp h hidle
      · have hswiping := (swiping_iff b).mpr hidle
        have hcomplete := @one_le_exactProgress_iff (nowMs - b.countedFrom nowMs) _
          hswiping.duration
        rw [if_neg hidle]
        show b.Step shown _ (if decide (1 ≤ exactProgress (nowMs - b.countedFrom nowMs)
          b.swipeDurationMs) = true then _ else _)
        by_cases hdone : b.swipeDurationMs ≤ nowMs - b.countedFrom nowMs
        · rw [if_pos (decide_eq_true (hcomplete.mpr hdone))]
          exact .completes nowMs hswiping hdone
        · rw [if_neg (by simpa using mt hcomplete.mp hdone)]
          exact .counts nowMs hswiping (UInt32.not_le.mp hdone)

end Inputs

/-- The button as it is constructed: not pressed, and with no hold and no swipe. -/
def fresh (b : ButtonWidget) : ButtonWidget :=
  { b with
    visibleWidget := true
    pressed := false
    holdActive := false
    swipePressedAt := 0
    swipeProgress := 0
    swipeFired := false }

end ButtonWidget

/-! ## A run -/

/-- A button, and what happened to it so far. -/
structure ButtonWatch where
  button : ButtonWidget
  /-- All callbacks, in order. -/
  states : List ButtonState := []
  /-- The callbacks since the last press that the button took. -/
  since : List ButtonState := []
  /-- The button has stayed pressed since then. -/
  stayed : Bool := false
  /-- The time of the first `update` since then. -/
  first : Option UInt32 := none

namespace ButtonWatch

variable (shown : UInt32 → UInt32 → Float32)

/-- An input. -/
def next (w : ButtonWatch) (i : ButtonInput) : ButtonWatch :=
  let r := w.button.respond shown i
  if w.button.accepts i then
    { button := r.1, states := w.states ++ r.2, since := r.2, stayed := true, first := none }
  else
    { button := r.1, states := w.states ++ r.2, since := w.since ++ r.2,
      stayed := w.stayed && r.1.pressed, first := w.first.or i.time }

/-- A run of inputs on a new button. -/
def run (b : ButtonWidget) (inputs : List ButtonInput) : ButtonWatch :=
  inputs.foldl (next shown) { button := b.fresh }

theorem run_snoc (b : ButtonWidget) (inputs : List ButtonInput) (i : ButtonInput) :
    run shown b (inputs ++ [i]) = (run shown b inputs).next shown i := by
  rw [run, run, List.foldl_append]
  rfl

@[simp] theorem button_next (w : ButtonWatch) (i : ButtonInput) :
    (w.next shown i).button = (w.button.respond shown i).1 := by
  rw [next]
  split_ifs <;> rfl

@[simp] theorem states_next (w : ButtonWatch) (i : ButtonInput) :
    (w.next shown i).states = w.states ++ (w.button.respond shown i).2 := by
  rw [next]
  split_ifs <;> rfl

theorem next_of_accepts {w : ButtonWatch} {i : ButtonInput} {b : ButtonWidget}
    {states : List ButtonState} (h : w.button.accepts i = true)
    (hrespond : w.button.respond shown i = (b, states)) :
    w.next shown i =
      { button := b, states := w.states ++ states, since := states, stayed := true,
        first := none } := by
  rw [next, if_pos h, hrespond]

theorem next_of_not_accepts {w : ButtonWatch} {i : ButtonInput} {b : ButtonWidget}
    {states : List ButtonState} (h : w.button.accepts i = false)
    (hrespond : w.button.respond shown i = (b, states)) :
    w.next shown i =
      { button := b, states := w.states ++ states, since := w.since ++ states,
        stayed := w.stayed && b.pressed, first := w.first.or i.time } := by
  rw [next, if_neg (by simp [h]), hrespond]

/-! ## The holds -/

/-- The starts and the ends of holds among the callbacks. -/
def holdFlags (states : List ButtonState) : List Bool :=
  states.filterMap fun
    | .holdStart => some true
    | .holdEnd => some false
    | .holdCancel => some false
    | _ => none

theorem holdFlags_append (states more : List ButtonState) :
    holdFlags (states ++ more) = holdFlags states ++ holdFlags more :=
  List.filterMap_append

/-- A start comes first, and no two starts and no two ends follow each other. -/
def HoldsAlternate (states : List ButtonState) : Prop :=
  (false :: holdFlags states).IsChain (· ≠ ·)

/-- The holds alternate, and `holdActive` is the last of them. -/
structure HoldInv (w : ButtonWatch) : Prop where
  held : w.button.holdActive = true → w.button.holdMode = true
  alternate : HoldsAlternate w.states
  last : (false :: holdFlags w.states).getLast? = some w.button.holdActive

variable {shown} {w : ButtonWatch} {i : ButtonInput}

theorem HoldInv.start (b : ButtonWidget) : HoldInv { button := b.fresh } :=
  ⟨nofun, List.isChain_singleton _, rfl⟩

/-- The callbacks start and end no hold. -/
theorem HoldInv.quiet {b : ButtonWidget} {states : List ButtonState} (h : HoldInv w)
    (hrespond : w.button.respond shown i = (b, states)) (hflags : holdFlags states = [])
    (hactive : b.holdActive = w.button.holdActive) (hmode : b.mode = w.button.mode) :
    HoldInv (w.next shown i) := by
  obtain ⟨hheld, halternate, hlast⟩ := h
  have hstates : holdFlags (w.next shown i).states = holdFlags w.states := by
    rw [states_next, hrespond, holdFlags_append, hflags, List.append_nil]
  have hbutton : (w.next shown i).button = b := by rw [button_next, hrespond]
  refine ⟨?_, ?_, ?_⟩
  · rw [hbutton, hactive, ButtonWidget.holdMode, hmode]
    exact hheld
  · rw [HoldsAlternate, hstates]
    exact halternate
  · rw [hstates, hbutton, hactive]
    exact hlast

/-- One callback starts a hold, or ends it. -/
theorem HoldInv.turn {b : ButtonWidget} {states : List ButtonState} (h : HoldInv w)
    (hrespond : w.button.respond shown i = (b, states))
    (hflags : holdFlags states = [!w.button.holdActive])
    (hactive : b.holdActive = !w.button.holdActive) (hmode : b.mode = w.button.mode)
    (hhold : w.button.holdMode = true) : HoldInv (w.next shown i) := by
  obtain ⟨-, halternate, hlast⟩ := h
  have hstates : holdFlags (w.next shown i).states =
      holdFlags w.states ++ [!w.button.holdActive] := by
    rw [states_next, hrespond, holdFlags_append, hflags]
  have hbutton : (w.next shown i).button = b := by rw [button_next, hrespond]
  refine ⟨?_, ?_, ?_⟩
  · rw [hbutton, ButtonWidget.holdMode, hmode]
    exact fun _ => hhold
  · rw [HoldsAlternate, hstates, ← List.cons_append, List.isChain_append]
    refine ⟨halternate, List.isChain_singleton _, ?_⟩
    rw [hlast]
    simp
  · rw [hstates, hbutton, hactive, ← List.cons_append, List.getLast?_append]
    simp

theorem HoldInv.next (h : HoldInv w) (i : ButtonInput) : HoldInv (w.next shown i) := by
  have hstep := w.button.step_respond shown i
  generalize hrespond : w.button.respond shown i = r at hstep
  cases hstep with
  | shows v => exact h.quiet hrespond rfl rfl rfl
  | ignores e _ => exact h.quiet hrespond rfl rfl rfl
  | idles nowMs _ => exact h.quiet hrespond rfl rfl rfl
  | counts nowMs _ _ => exact h.quiet hrespond rfl rfl rfl
  | completes nowMs _ _ => exact h.quiet hrespond rfl rfl rfl
  | presses e _ =>
      rw [ButtonWidget.onPress] at hrespond
      dsimp only at hrespond
      split at hrespond
      · exact h.quiet hrespond rfl rfl rfl
      · exact h.quiet hrespond rfl rfl rfl
      · refine h.quiet hrespond ?_ rfl rfl
        split_ifs <;> rfl
      · exact h.quiet hrespond rfl rfl rfl
      · exact h.quiet hrespond rfl rfl rfl
  | holds e _ hmode hactive =>
      exact h.turn hrespond (by rw [hactive]; rfl) (by rw [hactive]; rfl) rfl hmode
  | letsGo e _ _ state hstate =>
      have hswipe : ∀ p : Prop, [Decidable p] →
          holdFlags (if p then [.swipeCancel] else []) = [] := by
        intro p _
        split_ifs <;> rfl
      have hflag : holdFlags [state] = [false] := by
        rcases hstate with rfl | rfl <;> rfl
      rw [ButtonWidget.letGo] at hrespond
      cases hactive : w.button.holdActive with
      | true =>
          have hmode := h.held hactive
          refine h.turn hrespond ?_ ?_ rfl hmode
          · rw [hmode, hactive, if_pos (by rfl), holdFlags_append, hswipe, hflag]
            rfl
          · simp [hmode, hactive]
      | false =>
          refine h.quiet hrespond ?_ ?_ rfl
          · rw [hactive, Bool.and_false, if_neg (by decide), List.nil_append]
            exact hswipe _
          · simp [hactive]

theorem holdInv_run (b : ButtonWidget) (inputs : List ButtonInput) :
    HoldInv (run shown b inputs) := by
  induction inputs using List.reverseRecOn with
  | nil => exact .start b
  | append_singleton inputs i ih =>
      rw [run_snoc]
      exact ih.next i

/-! ## The swipes -/

/-- `SWIPE_DONE` and `SWIPE_CANCEL`. -/
def isSwipe : ButtonState → Bool
  | .swipeDone => true
  | .swipeCancel => true
  | _ => false

/-- What holds of a button of mode `HOLD_SWIPE`. -/
structure SwipeInv (w : ButtonWatch) : Prop where
  mode : w.button.mode = .holdSwipe
  atMost : w.since.countP isSwipe ≤ 1
  unfired : w.button.pressed = true → w.button.swipeFired = false → w.since.countP isSwipe = 0
  stayed : w.stayed = w.button.pressed
  unseeded : w.button.pressed = true → w.first = none →
    w.button.swipePressedAt = 0 ∧ w.button.swipeFired = false
  seeded : w.button.pressed = true → w.button.swipeDurationMs ≠ 0 →
    ∀ first, w.first = some first → first ≠ 0 → w.button.swipePressedAt = first

theorem SwipeInv.start {b : ButtonWidget} (h : b.mode = .holdSwipe) :
    SwipeInv { button := b.fresh } :=
  ⟨h, Nat.zero_le 1, fun _ _ => rfl, rfl, nofun, nofun⟩

/-- A press starts over. -/
theorem SwipeInv.press (h : SwipeInv w) (haccepts : w.button.accepts i = true)
    (hrespond : w.button.respond shown i = w.button.onPress) : SwipeInv (w.next shown i) := by
  have hpress : w.button.onPress =
      ({ w.button with
          pressed := true
          swipePressedAt := 0
          swipeProgress := 0
          swipeFired := false }, []) := by
    simp only [ButtonWidget.onPress, h.mode]
  rw [next_of_accepts shown haccepts (hrespond.trans hpress)]
  exact ⟨h.mode, Nat.zero_le 1, fun _ _ => rfl, rfl, fun _ _ => ⟨rfl, rfl⟩, nofun⟩

/-- The button keeps its swipe, and no callback is of one. -/
theorem SwipeInv.quiet {b : ButtonWidget} {states : List ButtonState} (h : SwipeInv w)
    (haccepts : w.button.accepts i = false)
    (hrespond : w.button.respond shown i = (b, states)) (hstates : states.countP isSwipe = 0)
    (htime : w.first.or i.time = w.first) (hmode : b.mode = w.button.mode)
    (hpressed : b.pressed = w.button.pressed) (hfired : b.swipeFired = w.button.swipeFired)
    (hat : b.swipePressedAt = w.button.swipePressedAt)
    (hduration : b.swipeDurationMs = w.button.swipeDurationMs) : SwipeInv (w.next shown i) := by
  have hcount : (w.since ++ states).countP isSwipe = w.since.countP isSwipe := by
    rw [List.countP_append, hstates, Nat.add_zero]
  rw [next_of_not_accepts shown haccepts hrespond, htime]
  refine ⟨hmode.trans h.mode, ?_, ?_, ?_, ?_, ?_⟩
  · rw [hcount]
    exact h.atMost
  · rw [hpressed, hfired, hcount]
    exact h.unfired
  · rw [hpressed, h.stayed, Bool.and_self]
  · rw [hpressed, hfired, hat]
    exact h.unseeded
  · rw [hpressed, hat, hduration]
    exact h.seeded

/-- A swipe is cancelled with its press, if it was not done. -/
theorem SwipeInv.letGo {e : TouchEventData} {state : ButtonState} (h : SwipeInv w)
    (haccepts : w.button.accepts (.touch e) = false) (hpressed : w.button.pressed = true)
    (hrespond : w.button.respond shown (.touch e) = w.button.letGo state) :
    SwipeInv (w.next shown (.touch e)) := by
  have hhold : w.button.holdMode = false := by rw [ButtonWidget.holdMode, h.mode]; rfl
  rw [ButtonWidget.letGo, hhold, h.mode] at hrespond
  rw [next_of_not_accepts shown haccepts hrespond]
  refine ⟨rfl, ?_, nofun, Bool.and_false _, nofun, nofun⟩
  rw [List.countP_append]
  cases hfired : w.button.swipeFired with
  | true => exact h.atMost
  | false =>
      rw [h.unfired hpressed hfired]
      exact Nat.le_refl 1

/-- An `update` of a swipe: the first one since the press is the one that is counted from. -/
theorem SwipeInv.count {nowMs : UInt32} {b : ButtonWidget} {states : List ButtonState}
    (h : SwipeInv w) (hswiping : w.button.Swiping)
    (hrespond : w.button.respond shown (.update nowMs) = (b, states))
    (hat : b.swipePressedAt = w.button.countedFrom nowMs) (hmode : b.mode = w.button.mode)
    (hpressed : b.pressed = true) (hstates : states.countP isSwipe ≤ 1)
    (hunfired : b.swipeFired = false → states.countP isSwipe = 0) :
    SwipeInv (w.next shown (.update nowMs)) := by
  have hcount : (w.since ++ states).countP isSwipe = states.countP isSwipe := by
    rw [List.countP_append, h.unfired hswiping.pressed hswiping.unfired, Nat.zero_add]
  rw [next_of_not_accepts shown rfl hrespond]
  refine ⟨hmode.trans h.mode, ?_, ?_, ?_, ?_, ?_⟩
  · rw [hcount]
    exact hstates
  · intro _ hfired
    rw [hcount, hunfired hfired]
  · rw [hpressed, h.stayed, hswiping.pressed, Bool.and_self]
  · intro _ hnone
    cases (Option.or_eq_none_iff.mp hnone).2
  · intro _ hne first hsome hzero
    rw [hat, ButtonWidget.countedFrom]
    rcases Option.or_eq_some_iff.mp hsome with hw | ⟨hw, hnow⟩
    · rw [h.seeded hswiping.pressed hswiping.duration first hw hzero, if_neg hzero]
    · rw [(h.unseeded hswiping.pressed hw).1, if_pos rfl]
      exact Option.some.inj hnow

/-- An `update` of no swipe. -/
theorem SwipeInv.idle {nowMs : UInt32} (h : SwipeInv w) (hidle : ¬ w.button.Swiping)
    (hrespond : w.button.respond shown (.update nowMs) = (w.button, [])) :
    SwipeInv (w.next shown (.update nowMs)) := by
  rw [next_of_not_accepts shown rfl hrespond, List.append_nil, List.append_nil]
  refine ⟨h.mode, h.atMost, h.unfired, ?_, ?_, ?_⟩
  · rw [h.stayed, Bool.and_self]
  · intro _ hnone
    cases (Option.or_eq_none_iff.mp hnone).2
  · intro hpressed hne first hsome hzero
    rcases Option.or_eq_some_iff.mp hsome with hw | ⟨hw, -⟩
    · exact h.seeded hpressed hne first hw hzero
    · have hfired := (h.unseeded hpressed hw).2
      exact absurd ⟨h.mode, hpressed, hfired, hne⟩ hidle

theorem SwipeInv.next (h : SwipeInv w) (i : ButtonInput) : SwipeInv (w.next shown i) := by
  have hstep := w.button.step_respond shown i
  generalize hrespond : w.button.respond shown i = r at hstep
  cases hstep with
  | shows v =>
      exact h.quiet rfl hrespond rfl (Option.or_none) rfl rfl rfl rfl rfl
  | ignores e haccepts =>
      exact h.quiet haccepts hrespond rfl (Option.or_none) rfl rfl rfl rfl rfl
  | presses e haccepts => exact h.press haccepts hrespond
  | holds e haccepts hmode hactive =>
      exact h.quiet haccepts hrespond rfl (Option.or_none) rfl rfl rfl rfl rfl
  | letsGo e haccepts hpressed state hstate => exact h.letGo haccepts hpressed hrespond
  | idles nowMs hidle => exact h.idle hidle hrespond
  | counts nowMs hswiping hearly =>
      exact h.count hswiping hrespond rfl rfl hswiping.pressed (Nat.zero_le 1) (fun _ => rfl)
  | completes nowMs hswiping hdone =>
      exact h.count hswiping hrespond rfl rfl hswiping.pressed (Nat.le_refl 1) nofun

theorem swipeInv_run {b : ButtonWidget} (h : b.mode = .holdSwipe) (inputs : List ButtonInput) :
    SwipeInv (run shown b inputs) := by
  induction inputs using List.reverseRecOn with
  | nil => exact .start h
  | append_singleton inputs i ih =>
      rw [run_snoc]
      exact ih.next i

/-! ## When a swipe is done -/

/-- If the input completes a swipe, it is an `update`, the button has stayed pressed since the
last press, and the duration has passed since the first `update` behind it. -/
def Timely (shown : UInt32 → UInt32 → Float32) (w : ButtonWatch) (i : ButtonInput) : Prop :=
  .swipeDone ∈ (w.button.respond shown i).2 → w.stayed = true ∧
    ∃ nowMs, i.time = some nowMs ∧ w.button.swipeDurationMs ≤ nowMs - w.first.getD nowMs

/-- The first `update` since the press was at time zero, the swipe is counted from a later one,
and the duration has passed since then (modulo `2 ^ 32`), but not since time zero. -/
structure SeededLate (w : ButtonWatch) (i : ButtonInput) : Prop where
  swiping : w.button.Swiping
  first : w.first = some 0
  later : w.button.swipePressedAt ≠ 0
  passed : ∃ nowMs, i.time = some nowMs ∧
    w.button.swipeDurationMs ≤ nowMs - w.button.swipePressedAt ∧ nowMs < w.button.swipeDurationMs

/-- A swipe is done by an `update` that counts the duration. -/
theorem swipeDone_mem_iff (h : w.button.mode = .holdSwipe) :
    .swipeDone ∈ (w.button.respond shown i).2 ↔ w.button.Swiping ∧ ∃ nowMs, i.time = some nowMs ∧
      w.button.swipeDurationMs ≤ nowMs - w.button.countedFrom nowMs := by
  have hstep := w.button.step_respond shown i
  generalize w.button.respond shown i = r at hstep
  cases hstep with
  | shows v => simp [ButtonInput.time]
  | ignores e _ => simp [ButtonInput.time]
  | presses e _ => simp [ButtonInput.time, ButtonWidget.onPress, h]
  | holds e _ _ _ => simp [ButtonInput.time]
  | letsGo e _ _ state hstate =>
      rcases hstate with rfl | rfl <;> simp [ButtonInput.time, ButtonWidget.letGo]
  | idles nowMs hidle => simp [hidle]
  | counts nowMs _ hearly =>
      have hnot := UInt32.not_le.mpr hearly
      simp [ButtonInput.time, hnot]
  | completes nowMs hswiping hdone => simp [ButtonInput.time, hswiping, hdone]

/-- No time has passed since now. -/
theorem not_duration_le_sub_self {duration nowMs : UInt32} (h : duration ≠ 0) :
    ¬ duration ≤ nowMs - nowMs := by
  rw [UInt32.sub_self, UInt32.le_iff_toNat_le]
  intro hle
  exact h (UInt32.toNat_inj.mp (Nat.le_zero.mp hle))

theorem timely_iff (h : SwipeInv w) : w.Timely shown i ↔ ¬ w.SeededLate i := by
  rw [Timely, swipeDone_mem_iff h.mode]
  constructor
  · rintro htimely ⟨hswiping, hfirst, hlater, nowMs, htime, hpassed, hshort⟩
    rw [← if_neg hlater (t := nowMs) (e := w.button.swipePressedAt)] at hpassed
    obtain ⟨-, nowMs', htime', hduration⟩ := htimely ⟨hswiping, nowMs, htime, hpassed⟩
    obtain rfl : nowMs = nowMs' := Option.some.inj (htime.symm.trans htime')
    rw [hfirst, Option.getD_some, UInt32.sub_zero] at hduration
    exact UInt32.not_le.mpr hshort hduration
  · rintro hlate ⟨hswiping, nowMs, htime, hpassed⟩
    refine ⟨h.stayed.trans hswiping.pressed, nowMs, htime, ?_⟩
    have hcounted : w.button.swipePressedAt ≠ 0 := by
      intro hzero
      rw [ButtonWidget.countedFrom, if_pos hzero] at hpassed
      exact not_duration_le_sub_self hswiping.duration hpassed
    rw [ButtonWidget.countedFrom, if_neg hcounted] at hpassed
    cases hfirst : w.first with
    | none => exact absurd (h.unseeded hswiping.pressed hfirst).1 hcounted
    | some first =>
        rw [Option.getD_some]
        by_cases hzero : first = 0
        · subst hzero
          rw [UInt32.sub_zero]
          by_contra hshort
          exact hlate ⟨hswiping, hfirst, hcounted, nowMs, htime, hpassed,
            UInt32.not_le.mp hshort⟩
        · rw [← h.seeded hswiping.pressed hswiping.duration first hfirst hzero]
          exact hpassed

end ButtonWatch

open ButtonWatch

/-- The callbacks of a button keep their protocol, in a run of inputs. -/
structure ProtocolKept (shown : UInt32 → UInt32 → Float32) (b : ButtonWidget)
    (inputs : List ButtonInput) : Prop where
  holds : HoldsAlternate (run shown b inputs).states
  swipes : b.mode = .holdSwipe → ∀ before, before <+: inputs →
    (run shown b before).since.countP isSwipe ≤ 1
  timely : b.mode = .holdSwipe → ∀ before i, before ++ [i] <+: inputs →
    (run shown b before).Timely shown i

/-- The protocol is kept exactly where no swipe completes that is counted from an `update` behind
a first one at time zero, before the duration has passed since time zero. -/
theorem protocolKept_iff (shown : UInt32 → UInt32 → Float32) (b : ButtonWidget)
    (inputs : List ButtonInput) :
    ProtocolKept shown b inputs ↔ b.mode = .holdSwipe → ∀ before i, before ++ [i] <+: inputs →
      ¬ (run shown b before).SeededLate i := by
  constructor
  · intro h hmode before i hprefix
    exact (timely_iff (swipeInv_run hmode before)).mp (h.timely hmode before i hprefix)
  · intro h
    refine ⟨(holdInv_run b inputs).alternate, ?_, ?_⟩
    · intro hmode before _
      exact (swipeInv_run hmode before).atMost
    · intro hmode before i hprefix
      exact (timely_iff (swipeInv_run hmode before)).mpr (h hmode before i hprefix)

/-- A button to swipe for a second. -/
def swipeButton : ButtonWidget where
  x := 0
  y := 0
  w := 10
  h := 10
  mode := .holdSwipe

/-- A press in its middle. -/
def middlePress : TouchEventData where
  event := .press
  point := ⟨0, 5, 5, 0, true⟩
  dx := 0
  dy := 0
  durationMs := 0

/-- The first `update` behind the press is at time zero. -/
def zeroFirst : List ButtonInput := [.touch middlePress, .update 0, .update 1]

/-- At time zero again, the swipe has lasted `2 ^ 32 - 1` by the button's count. -/
theorem not_protocolKept_zeroFirst :
    ¬ ∀ (shown : UInt32 → UInt32 → Float32) (b : ButtonWidget) (inputs : List ButtonInput),
      ProtocolKept shown b inputs := by
  intro h
  have htimely := (h (fun _ _ => 0) swipeButton (zeroFirst ++ [.update 0])).timely rfl zeroFirst
    (.update 0) (List.prefix_refl _)
  obtain ⟨-, nowMs, htime, hduration⟩ := htimely (by decide +kernel)
  obtain rfl : 0 = nowMs := Option.some.inj htime
  exact absurd hduration (by decide +kernel)

end MFoES.Uisys
