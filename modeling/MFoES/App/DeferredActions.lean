import MFoES.Lib.Transition

/-!
# Deferred actions

A callback that wants a dialog cannot open it where it is, inside of `process`, and defers it.
`run` runs what was deferred between two calls of `process`.  A dialog calls `process` again, from
inside of the action that opened it, so calls nest: the state has a stack of what the main thread is
in the middle of.

There is one place for a deferred action.  What was run, and what stands there, is what was
deferred, in order, as long as nothing is deferred over an action that stands there (`Obeyed`).
`obeyed_iff` says that an action is lost exactly in that case.  Posted actions have a queue, and do
not get lost like this.
-/

namespace MFoES.App

open Transition

/-- Where `process` is. -/
inductive ProcessPhase
  /-- `inputHandle`, with the lock of the touch queue. -/
  | input
  /-- It runs the posted actions that it took, of which so many are left. -/
  | actions (left : Nat)
  /-- `ui.update` and what follows. -/
  | update
  deriving DecidableEq

/-- What the main thread is in the middle of, inside of `run`. -/
inductive MainFrame (α : Type)
  | process (phase : ProcessPhase)
  /-- A callback of a widget, under `inputHandle`. -/
  | touched
  /-- A posted action, or a callback under `ui.update`. -/
  | callback
  /-- A deferred action, called by `run`. -/
  | action (fn : α)
  /-- `quickFireDialog`, which pumps `process` until it is answered. -/
  | dialog
  deriving DecidableEq

/-- The main thread, with what was deferred and run so far. -/
structure MainThread (α : Type) where
  running : Bool := true
  /-- `_pendingAction`; an empty function is `none`. -/
  pendingAction : Option α := none
  touchQueue : Nat := 0
  actionQueue : Nat := 0
  stack : List (MainFrame α) := []
  /-- `process` returned to `run`, which has not looked at `_pendingAction` yet. -/
  processed : Bool := false
  deferred : List α := []
  ran : List α := []
  deriving DecidableEq

/-- A step of the main thread, or what another thread or the user does to it. -/
inductive MainEvent (α : Type)
  /-- The touch thread queues an event. -/
  | touch
  /-- `postAction`, by any thread. -/
  | post
  /-- `stop`, by any thread. -/
  | stop
  /-- `run` calls `process`. -/
  | iterate
  /-- `inputHandle` takes an event to its callback. -/
  | input
  /-- `inputHandle` is done, and `process` takes the queue of posted actions. -/
  | swap
  /-- `process` calls a posted action. -/
  | posted
  /-- No posted action is left. -/
  | drained
  /-- `ui.update` calls a callback. -/
  | update
  /-- `process` returns. -/
  | processReturns
  /-- `run` looks at `_pendingAction`, and calls what it finds there. -/
  | check
  /-- A callback or an action defers. -/
  | defer (fn : Option α)
  /-- One that does not hold the lock of the touch queue opens a dialog. -/
  | openDialog
  | pump
  | answer
  /-- A callback or an action returns. -/
  | return

namespace MainThread

variable {α : Type}

/-- `inputHandle` holds the lock of the touch queue. -/
def touchLocked (s : MainThread α) : Bool :=
  s.stack.any fun frame =>
    match frame with
    | .process .input => true
    | _ => false

/-- A callback or an action has the main thread. -/
def calling (s : MainThread α) : Bool :=
  match s.stack with
  | .touched :: _ | .callback :: _ | .action _ :: _ => true
  | _ => false

/-- A step. -/
def step (s : MainThread α) : MainEvent α → Option (MainThread α)
  | .touch => if s.touchLocked then none else some { s with touchQueue := s.touchQueue + 1 }
  | .post => some { s with actionQueue := s.actionQueue + 1 }
  | .stop => some { s with running := false }
  | .iterate =>
      if s.stack = [] ∧ s.processed = false ∧ s.running = true then
        some { s with stack := [.process .input] }
      else none
  | .input =>
      match s.stack with
      | .process .input :: rest =>
          if s.touchQueue = 0 then none
          else some {
            s with touchQueue := s.touchQueue - 1, stack := .touched :: .process .input :: rest }
      | _ => none
  | .swap =>
      match s.stack with
      | .process .input :: rest =>
          if s.touchQueue = 0 then
            some { s with actionQueue := 0, stack := .process (.actions s.actionQueue) :: rest }
          else none
      | _ => none
  | .posted =>
      match s.stack with
      | .process (.actions (left + 1)) :: rest =>
          some { s with stack := .callback :: .process (.actions left) :: rest }
      | _ => none
  | .drained =>
      match s.stack with
      | .process (.actions 0) :: rest => some { s with stack := .process .update :: rest }
      | _ => none
  | .update =>
      match s.stack with
      | .process .update :: rest => some { s with stack := .callback :: .process .update :: rest }
      | _ => none
  | .processReturns =>
      match s.stack with
      | .process .update :: rest =>
          some { s with stack := rest, processed := rest.isEmpty }
      | _ => none
  | .check =>
      if s.stack = [] ∧ s.processed = true then
        match s.pendingAction with
        | some fn =>
            some { s with
              pendingAction := none, stack := [.action fn], processed := false
              ran := s.ran ++ [fn] }
        | none => some { s with processed := false }
      else none
  | .defer fn =>
      if s.calling then some { s with pendingAction := fn, deferred := s.deferred ++ fn.toList }
      else none
  | .openDialog =>
      match s.stack with
      | .callback :: _ | .action _ :: _ => some { s with stack := .dialog :: s.stack }
      | _ => none
  | .pump =>
      match s.stack with
      | .dialog :: _ => some { s with stack := .process .input :: s.stack }
      | _ => none
  | .answer =>
      match s.stack with
      | .dialog :: rest => some { s with stack := rest }
      | _ => none
  | .return =>
      match s.stack with
      | .touched :: rest | .callback :: rest | .action _ :: rest => some { s with stack := rest }
      | _ => none

/-! ## What is kept -/

/-- What was run, and what is pending, is what was deferred, in order. -/
def Kept (s : MainThread α) : Prop := s.ran ++ s.pendingAction.toList = s.deferred

/-- Nothing is deferred over a pending action. -/
def SlotEmpty (s : MainThread α) : MainEvent α → Prop
  | .defer _ => s.calling = true → s.pendingAction = none
  | _ => True

/-- A step that neither defers nor looks at `_pendingAction` leaves both. -/
theorem step_frame {s t : MainThread α} {e : MainEvent α} (hstep : s.step e = some t)
    (hdefer : ∀ fn, e ≠ .defer fn) (hcheck : e ≠ .check) :
    t.pendingAction = s.pendingAction ∧ t.deferred = s.deferred ∧ t.ran = s.ran := by
  cases e with
  | defer fn => exact absurd rfl (hdefer fn)
  | check => exact absurd rfl hcheck
  | _ =>
      simp only [step] at hstep
      repeat' split at hstep
      all_goals first
        | (cases hstep; done)
        | (cases hstep; exact ⟨rfl, rfl, rfl⟩)

/-- `check` runs what is pending. -/
theorem step_check {s t : MainThread α} (hstep : s.step .check = some t) :
    t.pendingAction = none ∧ t.deferred = s.deferred ∧
      t.ran = s.ran ++ s.pendingAction.toList := by
  obtain ⟨-, hstep⟩ := Option.ite_none_right_eq_some.mp hstep
  cases hpending : s.pendingAction with
  | none =>
      simp only [hpending] at hstep
      cases hstep
      exact ⟨rfl, rfl, (List.append_nil _).symm⟩
  | some fn =>
      simp only [hpending] at hstep
      cases hstep
      exact ⟨rfl, rfl, rfl⟩

theorem step_defer {s t : MainThread α} {fn : Option α} :
    s.step (.defer fn) = some t ↔
      s.calling = true ∧
        { s with pendingAction := fn, deferred := s.deferred ++ fn.toList } = t :=
  Option.ite_none_right_eq_some.trans (and_congr_right fun _ => Option.some_inj)

/-- A step keeps what was deferred exactly if it defers over nothing. -/
theorem kept_iff {s : MainThread α} {e : MainEvent α} (h : s.Kept) :
    (∀ t, s.step e = some t → t.Kept) ↔ s.SlotEmpty e := by
  have h : s.ran ++ s.pendingAction.toList = s.deferred := h
  cases e with
  | defer fn =>
      have hkept (hslot : s.ran ++ fn.toList = s.deferred ++ fn.toList) :
          s.pendingAction = none := by
        rw [← h, List.append_left_inj] at hslot
        cases hpending : s.pendingAction with
        | none => rfl
        | some b =>
            have hlen := congrArg List.length hslot
            rw [hpending, List.length_append, Option.toList_some, List.length_singleton] at hlen
            omega
      constructor
      · exact fun hall hcalling => hkept (hall _ (step_defer.mpr ⟨hcalling, rfl⟩))
      · intro hslot t hstep
        obtain ⟨hcalling, rfl⟩ := step_defer.mp hstep
        rw [hslot hcalling, Option.toList_none, List.append_nil] at h
        rw [Kept, h]
  | check =>
      refine iff_of_true (fun t hstep => ?_) trivial
      obtain ⟨hpending, hdeferred, hran⟩ := step_check hstep
      rw [Kept, hpending, hdeferred, hran, h, Option.toList_none, List.append_nil]
  | _ =>
      refine iff_of_true (fun t hstep => ?_) trivial
      obtain ⟨hpending, hdeferred, hran⟩ :=
        step_frame hstep (fun fn he => by cases he) (fun he => by cases he)
      rw [Kept, hpending, hdeferred, hran, h]

/-! ## `run` gets there -/

/-- What was deferred and run is the same in both states. -/
structure Same (s t : MainThread α) : Prop where
  running : t.running = s.running
  pendingAction : t.pendingAction = s.pendingAction
  deferred : t.deferred = s.deferred
  ran : t.ran = s.ran

theorem Same.refl (s : MainThread α) : Same s s := ⟨rfl, rfl, rfl, rfl⟩

/-- Where the call on top returns: the rest of the stack is left, and `run` knows it if that was
its own call of `process`. -/
def Returned (s : MainThread α) (rest : List (MainFrame α)) (t : MainThread α) : Prop :=
  t.stack = rest ∧ t.processed = rest.isEmpty ∧ Same s t

theorem update_returns {s₀ s : MainThread α} {rest : List (MainFrame α)}
    (hstack : s.stack = .process .update :: rest) (hsame : Same s₀ s) :
    ∃ es t, run step s es = some t ∧ Returned s₀ rest t := by
  refine ⟨[.processReturns], { s with stack := rest, processed := rest.isEmpty }, ?_, rfl, rfl,
    ⟨hsame.running, hsame.pendingAction, hsame.deferred, hsame.ran⟩⟩
  have hreturns : s.step .processReturns =
      some { s with stack := rest, processed := rest.isEmpty } := by
    cases s
    cases hstack
    rfl
  rw [run_cons hreturns, run_nil]

/-- The posted actions that `process` took come to an end. -/
theorem actions_return {s₀ s : MainThread α} {left : Nat} {rest : List (MainFrame α)}
    (hstack : s.stack = .process (.actions left) :: rest) (hsame : Same s₀ s) :
    ∃ es t, run step s es = some t ∧ Returned s₀ rest t := by
  induction left generalizing s with
  | zero =>
      have hstep : s.step .drained = some { s with stack := .process .update :: rest } := by
        cases s
        cases hstack
        rfl
      exact reaches_cons hstep (update_returns rfl
        ⟨hsame.running, hsame.pendingAction, hsame.deferred, hsame.ran⟩)
  | succ left ih =>
      have hposted : s.step .posted =
          some { s with stack := .callback :: .process (.actions left) :: rest } := by
        cases s
        cases hstack
        rfl
      exact reaches_cons hposted (reaches_cons (e := .return) rfl (ih rfl
        ⟨hsame.running, hsame.pendingAction, hsame.deferred, hsame.ran⟩))

/-- So does the queue of touch events, which is locked. -/
theorem input_returns {s₀ s : MainThread α} {rest : List (MainFrame α)}
    (hstack : s.stack = .process .input :: rest) (hsame : Same s₀ s) :
    ∃ es t, run step s es = some t ∧ Returned s₀ rest t := by
  induction hqueue : s.touchQueue generalizing s with
  | zero =>
      have hswap : s.step .swap =
          some { s with actionQueue := 0, stack := .process (.actions s.actionQueue) :: rest } := by
        cases s
        cases hstack
        cases hqueue
        rfl
      exact reaches_cons hswap (actions_return rfl
        ⟨hsame.running, hsame.pendingAction, hsame.deferred, hsame.ran⟩)
  | succ n ih =>
      have hinput : s.step .input =
          some { s with touchQueue := n, stack := .touched :: .process .input :: rest } := by
        cases s
        cases hstack
        cases hqueue
        rfl
      exact reaches_cons hinput (reaches_cons (e := .return) rfl (ih rfl
        ⟨hsame.running, hsame.pendingAction, hsame.deferred, hsame.ran⟩ rfl))

theorem process_returns {s₀ s : MainThread α} {phase : ProcessPhase} {rest : List (MainFrame α)}
    (hstack : s.stack = .process phase :: rest) (hsame : Same s₀ s) :
    ∃ es t, run step s es = some t ∧ Returned s₀ rest t := by
  cases phase with
  | input => exact input_returns hstack hsame
  | actions left => exact actions_return hstack hsame
  | update => exact update_returns hstack hsame

/-- Every call that the main thread is in the middle of can return. -/
theorem unwinds {s₀ s : MainThread α} (hsame : Same s₀ s) :
    ∃ es t, run step s es = some t ∧ t.stack = [] ∧ Same s₀ t := by
  induction hstack : s.stack generalizing s with
  | nil => exact ⟨[], s, rfl, hstack, hsame⟩
  | cons frame rest ih =>
      have hpop (e : MainEvent α) (h : s.step e = some { s with stack := rest }) :
          ∃ es t, run step s es = some t ∧ t.stack = [] ∧ Same s₀ t :=
        reaches_cons h
          (ih ⟨hsame.running, hsame.pendingAction, hsame.deferred, hsame.ran⟩ rfl)
      cases frame with
      | process phase =>
          obtain ⟨es, t, hrun, ht, -, hsame⟩ := process_returns hstack hsame
          obtain ⟨fs, u, hrest, hu⟩ := ih hsame ht
          exact ⟨es ++ fs, u, run_trans hrun hrest, hu⟩
      | touched => exact hpop .return (by cases s; cases hstack; rfl)
      | callback => exact hpop .return (by cases s; cases hstack; rfl)
      | action fn => exact hpop .return (by cases s; cases hstack; rfl)
      | dialog => exact hpop .answer (by cases s; cases hstack; rfl)

/-- As long as it is running, `run` can come to look at `_pendingAction`. -/
theorem reaches_check {s : MainThread α} (hrunning : s.running = true) :
    ∃ es t, run step s es = some t ∧ (t.stack = [] ∧ t.processed = true) ∧ Same s t := by
  obtain ⟨es, t, hrun, hstack, hsame⟩ := unwinds (Same.refl s)
  cases hprocessed : t.processed with
  | true => exact ⟨es, t, hrun, ⟨hstack, hprocessed⟩, hsame⟩
  | false =>
      have hiterate : t.step .iterate = some { t with stack := [.process .input] } :=
        if_pos ⟨hstack, hprocessed, hsame.running.trans hrunning⟩
      obtain ⟨fs, u, hrest, hu, hprocessed, hsame⟩ := reaches_cons hiterate (input_returns rfl
        ⟨hsame.running, hsame.pendingAction, hsame.deferred, hsame.ran⟩)
      exact ⟨es ++ fs, u, run_trans hrun hrest, ⟨hu, hprocessed⟩, hsame⟩

/-! ## No deferred action is lost -/

/-- No deferred action is lost: what was run or stands at `_pendingAction` is what was deferred,
once each and in order; when `run` has looked, all of it was run; and while it is running, it can
get there. -/
structure Obeyed (s : MainThread α) : Prop where
  kept : s.Kept
  checked : ∀ t, s.step .check = some t → t.ran = s.deferred
  runs : s.running = true →
    ∃ es t, run step s es = some t ∧ t.deferred = s.deferred ∧ t.ran = s.deferred

theorem Kept.obeyed {s : MainThread α} (h : s.Kept) : s.Obeyed where
  kept := h
  checked t hstep := (step_check hstep).2.2.trans h
  runs hrunning := by
    obtain ⟨es, t, hrun, hready, hsame⟩ := reaches_check hrunning
    have hcheck : ∃ u, t.step .check = some u := by
      rw [step, if_pos hready]
      cases t.pendingAction with
      | none => exact ⟨_, rfl⟩
      | some fn => exact ⟨_, rfl⟩
    obtain ⟨u, hu⟩ := hcheck
    obtain ⟨-, hdeferred, hran⟩ := step_check hu
    refine ⟨es ++ [.check], u, run_trans hrun ?_, hdeferred.trans hsame.deferred, ?_⟩
    · rw [run_cons hu, run_nil]
    · rw [hran, hsame.pendingAction, hsame.ran]
      exact h

/-- No deferred action is lost in a run exactly if none is deferred while another one is pending. -/
theorem obeyed_iff (es : List (MainEvent α)) :
    Always step Obeyed ({} : MainThread α) es ↔ Throughout step SlotEmpty {} es := by
  have hstep {s : MainThread α} {e : MainEvent α} (h : s.Obeyed) :
      (∀ t, s.step e = some t → t.Obeyed) ↔ s.SlotEmpty e := by
    rw [← kept_iff h.kept]
    exact ⟨fun hall t ht => (hall t ht).kept, fun hall t ht => (hall t ht).obeyed⟩
  have hstart : Obeyed ({} : MainThread α) := Kept.obeyed rfl
  rw [always_iff (I := fun _ => True) (fun _ _ _ _ => trivial) (fun _ h => hstep h) trivial,
    and_iff_right hstart]

/-- Two touch events in one call of `process`, with a callback each that defers: the first one is
gone. -/
theorem not_obeyed :
    ¬ Always step Obeyed ({} : MainThread Nat)
      [.touch, .touch, .iterate, .input, .defer (some 1), .return, .input, .defer (some 2), .return,
        .swap, .drained, .processReturns, .check, .return] := by
  intro h
  have hkept : [2] = [1, 2] := (h _ _ (List.prefix_refl _) rfl).kept
  exact absurd hkept (by decide)

end MainThread

end MFoES.App
