import MFoES.Northbridge.Pcf8575
import MFoES.Lib.Transition

/-!
# Who writes the LEDs

Three tasks write the LEDs.  The self test does so until it is done.  The dispatcher handles
`NB_CMD_SET_LEDS` frames: it stores the state in `g_led_state`, and writes it once the self test is
done.  `panel_task` writes the stored state once, when the self test is done.

A write goes through the queue of the I2C bus, and its task waits for it.  An event is a step of a
task as far as its next access to something shared, or the bus worker's next write.

`panel_task` loads `g_led_state` and queues the write in two steps.  A frame that is handled between
them is overtaken by the older state.
-/

namespace MFoES.Northbridge

namespace LedCommands

open Transition

/-! ## State -/

/-- The tasks that write the LEDs. -/
inductive Task where
  | dispatcher
  | selftest
  | panel
deriving DecidableEq

/-- A word on its way to the expander, or there. -/
structure Write where
  task : Task
  word : UInt16
deriving DecidableEq

/-- Where a task is in `pcf8575_set_leds`. -/
inductive SetLeds where
  /-- Before the write is queued. -/
  | send (word : UInt16)
  /-- Until the bus has written. -/
  | wait (word : UInt16)
  /-- Before `g_shadow` is written. -/
  | shadow (word : UInt16)
deriving DecidableEq

/-- Where the dispatcher is in `on_set_leds`. -/
inductive Handler where
  | idle
  /-- Before `selftest_done` is asked. -/
  | stored
  /-- It was done.  Before `g_led_state` is loaded. -/
  | released
  | leds (call : SetLeds)
deriving DecidableEq

/-- Where the self test is. -/
inductive Selftest where
  /-- Before the expander is probed. -/
  | probe
  /-- In `leds_show`, of all LEDs or of none. -/
  | leds (lit : Bool) (call : SetLeds)
  /-- The LEDs are held and read back. -/
  | readback (lit : Bool)
  /-- Before `g_done` is set. -/
  | report
  | deleted
deriving DecidableEq

/-- Where `panel_task` is. -/
inductive Panel where
  /-- In `selftest_wait`. -/
  | wait
  /-- Before `g_led_state` is loaded. -/
  | load
  | leds (call : SetLeds)
  /-- In its loop, which leaves the LEDs alone. -/
  | loop
deriving DecidableEq

/-- What the three tasks share, and where they are. -/
structure Board where
  /-- `g_led_state`. -/
  ledState : UInt16 := 0
  /-- `g_done`. -/
  done : Bool := false
  /-- `g_shadow[PCF8575_LED_CHIP]`. -/
  shadow : UInt16 := 0xffff
  /-- The writes on the queue of the bus. -/
  queue : List Write := []
  handler : Handler := .idle
  selftest : Selftest := .probe
  panel : Panel := .wait
  /-- What was written so far. -/
  written : List Write := []
  /-- The first bytes of the frames so far. -/
  accepted : List UInt8 := []

/-! ## Steps -/

/-- What happens on the board. -/
inductive Event where
  /-- The dispatcher takes a `NB_CMD_SET_LEDS` frame. -/
  | frame (payload : List UInt8)
  | handler
  /-- A step of the self test.  A probe is acknowledged or not. -/
  | selftest (ack : Bool)
  | panel
  /-- The bus worker executes the write at the head of its queue. -/
  | bus
deriving DecidableEq

/-- The write of the self test is done. -/
def Selftest.wake (word : UInt16) : Selftest → Selftest
  | .leds lit _ => .leds lit (.shadow word)
  | .probe => .probe
  | .readback lit => .readback lit
  | .report => .report
  | .deleted => .deleted

namespace Board

/-- `on_set_leds`, as far as the store. -/
def frameStep (s : Board) (payload : List UInt8) : Option Board :=
  if s.handler = .idle then
    match payload with
    | [] => some s
    | b :: _ =>
      some { s with ledState := ledNibble b, handler := .stored, accepted := s.accepted ++ [b] }
  else none

/-- `on_set_leds`, from the store on. -/
def handlerStep (s : Board) : Option Board :=
  match s.handler with
  | .idle => none
  | .stored =>
    if s.done then some { s with handler := .released } else some { s with handler := .idle }
  | .released => some { s with handler := .leds (.send (ledStateWord s.ledState)) }
  | .leds (.send word) =>
    some { s with queue := s.queue ++ [⟨.dispatcher, word⟩], handler := .leds (.wait word) }
  | .leds (.wait _) => none
  | .leds (.shadow word) => some { s with shadow := word, handler := .idle }

/-- `selftest_task`. -/
def selftestStep (s : Board) (ack : Bool) : Option Board :=
  match s.selftest with
  | .probe =>
    some { s with
      selftest := if ack then .leds true (.send (setLedsWord pcf8575LedMask)) else .report }
  | .leds lit (.send word) =>
    some { s with queue := s.queue ++ [⟨.selftest, word⟩], selftest := .leds lit (.wait word) }
  | .leds _ (.wait _) => none
  | .leds lit (.shadow word) => some { s with shadow := word, selftest := .readback lit }
  | .readback true => some { s with selftest := .leds false (.send (setLedsWord 0)) }
  | .readback false => some { s with selftest := .report }
  | .report => some { s with done := true, selftest := .deleted }
  | .deleted => none

/-- `panel_task`, as far as its loop. -/
def panelStep (s : Board) : Option Board :=
  match s.panel with
  | .wait => if s.done then some { s with panel := .load } else none
  | .load => some { s with panel := .leds (.send (ledStateWord s.ledState)) }
  | .leds (.send word) =>
    some { s with queue := s.queue ++ [⟨.panel, word⟩], panel := .leds (.wait word) }
  | .leds (.wait _) => none
  | .leds (.shadow word) => some { s with shadow := word, panel := .loop }
  | .loop => none

/-- The write of a task is done. -/
def wake (s : Board) (task : Task) (word : UInt16) : Board :=
  match task with
  | .dispatcher => { s with handler := .leds (.shadow word) }
  | .selftest => { s with selftest := s.selftest.wake word }
  | .panel => { s with panel := .leds (.shadow word) }

/-- The next write of the bus. -/
def busStep (s : Board) : Option Board :=
  match s.queue with
  | [] => none
  | w :: queue => some ({ s with queue, written := s.written ++ [w] }.wake w.task w.word)

/-- The step of an event. -/
def step (s : Board) : Event → Option Board
  | .frame payload => s.frameStep payload
  | .handler => s.handlerStep
  | .selftest ack => s.selftestStep ack
  | .panel => s.panelStep
  | .bus => s.busStep

/-! ## The last command -/

/-- The LED state of the last frame, or none lit. -/
def commanded (s : Board) : UInt16 := s.accepted.getLast?.elim 0 ledNibble

/-- No frame writes the LEDs before the self test is done. -/
def Held (s : Board) : Prop := s.done = false → ∀ w ∈ s.written, w.task ≠ .dispatcher

/-- Once everyone is through, the last word on the expander is that of the last frame. -/
def LastWins (s : Board) : Prop :=
  s.done = true → s.panel = .loop → s.handler = .idle →
    s.written.getLast?.map Write.word = some (ledStateWord s.commanded)

end Board

/-- A frame was stored, and its write is yet to be queued. -/
def Handler.Owes : Handler → Prop
  | .stored => True
  | .released => True
  | .leds (.send _) => True
  | _ => False

instance : DecidablePred Handler.Owes
  | .stored => inferInstanceAs (Decidable True)
  | .released => inferInstanceAs (Decidable True)
  | .leds (.send _) => inferInstanceAs (Decidable True)
  | .idle => inferInstanceAs (Decidable False)
  | .leds (.wait _) => inferInstanceAs (Decidable False)
  | .leds (.shadow _) => inferInstanceAs (Decidable False)

/-- The word that the panel task is about to queue. -/
def Panel.sends : Panel → Option UInt16
  | .leds (.send word) => some word
  | _ => none

/-- The panel task queued its write. -/
def Panel.Queued : Panel → Prop
  | .leds (.wait _) => True
  | .leds (.shadow _) => True
  | .loop => True
  | _ => False

namespace Board

/-- When the panel task queues its write, the state is the one it loaded, or a newer one is to be
queued behind it. -/
def Fresh (s : Board) : Event → Prop
  | .panel => ∀ word ∈ s.panel.sends, word = ledStateWord s.ledState ∨ s.handler.Owes
  | _ => True

instance (s : Board) : DecidablePred s.Fresh
  | .panel =>
    match h : s.panel.sends with
    | none => .isTrue (by simp [Fresh, h])
    | some word =>
      decidable_of_iff (word = ledStateWord s.ledState ∨ s.handler.Owes) (by simp [Fresh, h])
  | .frame _ => .isTrue trivial
  | .handler => .isTrue trivial
  | .selftest _ => .isTrue trivial
  | .bus => .isTrue trivial

/-! ## What a step does -/

/-- Where a task is in `pcf8575_set_leds`, if it is. -/
def call (s : Board) : Task → Option SetLeds
  | .dispatcher => match s.handler with | .leds c => some c | _ => none
  | .selftest => match s.selftest with | .leds _ c => some c | _ => none
  | .panel => match s.panel with | .leds c => some c | _ => none

/-- A step, by where its task is. -/
inductive Move (s : Board) : Event → Board → Prop
  | ignore (hpc : s.handler = .idle) : Move s (.frame []) s
  | store (hpc : s.handler = .idle) (b : UInt8) (rest : List UInt8) :
      Move s (.frame (b :: rest))
        { s with ledState := ledNibble b, handler := .stored, accepted := s.accepted ++ [b] }
  | release (hpc : s.handler = .stored) (hdone : s.done = true) :
      Move s .handler { s with handler := .released }
  | defer (hpc : s.handler = .stored) (hdone : s.done = false) :
      Move s .handler { s with handler := .idle }
  | load (hpc : s.handler = .released) :
      Move s .handler { s with handler := .leds (.send (ledStateWord s.ledState)) }
  | send (word : UInt16) (hpc : s.handler = .leds (.send word)) :
      Move s .handler
        { s with queue := s.queue ++ [⟨.dispatcher, word⟩], handler := .leds (.wait word) }
  | shadow (word : UInt16) (hpc : s.handler = .leds (.shadow word)) :
      Move s .handler { s with shadow := word, handler := .idle }
  | probe (ack : Bool) (hpc : s.selftest = .probe) :
      Move s (.selftest ack)
        { s with
          selftest := if ack then .leds true (.send (setLedsWord pcf8575LedMask)) else .report }
  | sendTest (ack lit : Bool) (word : UInt16) (hpc : s.selftest = .leds lit (.send word)) :
      Move s (.selftest ack)
        { s with queue := s.queue ++ [⟨.selftest, word⟩], selftest := .leds lit (.wait word) }
  | shadowTest (ack lit : Bool) (word : UInt16) (hpc : s.selftest = .leds lit (.shadow word)) :
      Move s (.selftest ack) { s with shadow := word, selftest := .readback lit }
  | readOn (ack : Bool) (hpc : s.selftest = .readback true) :
      Move s (.selftest ack) { s with selftest := .leds false (.send (setLedsWord 0)) }
  | readOff (ack : Bool) (hpc : s.selftest = .readback false) :
      Move s (.selftest ack) { s with selftest := .report }
  | report (ack : Bool) (hpc : s.selftest = .report) :
      Move s (.selftest ack) { s with done := true, selftest := .deleted }
  | begin (hpc : s.panel = .wait) (hdone : s.done = true) : Move s .panel { s with panel := .load }
  | loadPanel (hpc : s.panel = .load) :
      Move s .panel { s with panel := .leds (.send (ledStateWord s.ledState)) }
  | sendPanel (word : UInt16) (hpc : s.panel = .leds (.send word)) :
      Move s .panel { s with queue := s.queue ++ [⟨.panel, word⟩], panel := .leds (.wait word) }
  | shadowPanel (word : UInt16) (hpc : s.panel = .leds (.shadow word)) :
      Move s .panel { s with shadow := word, panel := .loop }
  | bus (w : Write) (queue : List Write) (hq : s.queue = w :: queue) :
      Move s .bus ({ s with queue, written := s.written ++ [w] }.wake w.task w.word)

theorem move_of_step {s t : Board} {e : Event} (h : s.step e = some t) : s.Move e t := by
  cases e with
  | frame payload =>
      rw [step, frameStep.eq_def, Option.ite_none_right_eq_some] at h
      obtain ⟨hpc, h⟩ := h
      cases payload with
      | nil =>
          cases h
          exact .ignore hpc
      | cons b rest =>
          cases h
          exact .store hpc b rest
  | handler =>
      rw [step, handlerStep] at h
      split at h
      · cases h
      · next hpc =>
        split at h
        · next hdone =>
          cases h
          exact .release hpc hdone
        · next hdone =>
          cases h
          exact .defer hpc (Bool.eq_false_iff.mpr hdone)
      · next hpc =>
        cases h
        exact .load hpc
      · next hpc =>
        cases h
        exact .send _ hpc
      · cases h
      · next hpc =>
        cases h
        exact .shadow _ hpc
  | selftest ack =>
      rw [step, selftestStep] at h
      split at h
      · next hpc =>
        cases h
        exact .probe ack hpc
      · next hpc =>
        cases h
        exact .sendTest ack _ _ hpc
      · cases h
      · next hpc =>
        cases h
        exact .shadowTest ack _ _ hpc
      · next hpc =>
        cases h
        exact .readOn ack hpc
      · next hpc =>
        cases h
        exact .readOff ack hpc
      · next hpc =>
        cases h
        exact .report ack hpc
      · cases h
  | panel =>
      rw [step, panelStep] at h
      split at h
      · next hpc =>
        rw [Option.ite_none_right_eq_some] at h
        obtain ⟨hdone, h⟩ := h
        cases h
        exact .begin hpc hdone
      · next hpc =>
        cases h
        exact .loadPanel hpc
      · next hpc =>
        cases h
        exact .sendPanel _ hpc
      · cases h
      · next hpc =>
        cases h
        exact .shadowPanel _ hpc
      · cases h
  | bus =>
      rw [step, busStep] at h
      split at h
      · cases h
      · next w queue hq =>
        cases h
        exact .bus w queue hq

/-! ## Writes on the queue -/

/-- The writes on the queue are those that the tasks wait for. -/
structure Waiting (s : Board) : Prop where
  waits : ∀ w ∈ s.queue, s.call w.task = some (.wait w.word)
  queued : ∀ task word, s.call task = some (.wait word) → ⟨task, word⟩ ∈ s.queue
  once : (s.queue.map Write.task).Nodup

variable {s t : Board}

/-- A step that is not about the queue. -/
theorem Waiting.of_call (h : s.Waiting) (hq : t.queue = s.queue)
    (hcall : ∀ task word, t.call task = some (.wait word) ↔ s.call task = some (.wait word)) :
    t.Waiting := by
  constructor
  · rw [hq]
    exact fun w hw => (hcall _ _).mpr (h.waits w hw)
  · rw [hq]
    exact fun task word ht => h.queued task word ((hcall _ _).mp ht)
  · rw [hq]
    exact h.once

theorem Waiting.send (h : s.Waiting) {task : Task} {word : UInt16}
    (hq : t.queue = s.queue ++ [⟨task, word⟩]) (hs : s.call task = some (.send word))
    (ht : t.call task = some (.wait word)) (hothers : ∀ u ≠ task, t.call u = s.call u) :
    t.Waiting := by
  have hnew : ∀ w ∈ s.queue, w.task ≠ task := by
    intro w hw heq
    have hwait := h.waits w hw
    rw [heq, hs] at hwait
    cases hwait
  constructor
  · rw [hq, List.forall_mem_append, List.forall_mem_singleton]
    refine ⟨fun w hw => ?_, ht⟩
    rw [hothers _ (hnew w hw)]
    exact h.waits w hw
  · intro u word' hu
    rw [hq, List.mem_append, List.mem_singleton]
    by_cases heq : u = task
    · right
      rw [heq, ht] at hu
      cases hu
      rw [heq]
    · left
      rw [hothers u heq] at hu
      exact h.queued u word' hu
  · rw [hq, List.map_append, List.nodup_append]
    refine ⟨h.once, by simp, ?_⟩
    intro u hu v hv
    obtain ⟨w, hw, rfl⟩ := List.mem_map.mp hu
    rw [List.mem_singleton.mp hv]
    exact hnew w hw

@[simp] theorem wake_queue (s : Board) (task : Task) (word : UInt16) :
    (s.wake task word).queue = s.queue := by
  cases task <;> rfl

@[simp] theorem wake_written (s : Board) (task : Task) (word : UInt16) :
    (s.wake task word).written = s.written := by
  cases task <;> rfl

theorem call_wake (s : Board) {task u : Task} (word : UInt16) (hne : u ≠ task) :
    (s.wake task word).call u = s.call u := by
  cases task with
  | dispatcher => cases u <;> first | exact absurd rfl hne | rfl
  | selftest => cases u <;> first | exact absurd rfl hne | rfl
  | panel => cases u <;> first | exact absurd rfl hne | rfl

/-- A task that is woken does not wait. -/
theorem call_wake_self (s : Board) (task : Task) (word word' : UInt16) :
    (s.wake task word).call task ≠ some (.wait word') := by
  cases task with
  | dispatcher => exact fun h => nomatch h
  | selftest =>
      show (match s.selftest.wake word with | .leds _ c => some c | _ => none) ≠ _
      cases s.selftest <;> simp [Selftest.wake]
  | panel => exact fun h => nomatch h

theorem Waiting.bus (h : s.Waiting) {w : Write} {queue : List Write} (hq : s.queue = w :: queue) :
    ({ s with queue, written := s.written ++ [w] }.wake w.task w.word).Waiting := by
  have hwaits := h.waits
  have honce := h.once
  rw [hq, List.forall_mem_cons] at hwaits
  rw [hq, List.map_cons, List.nodup_cons] at honce
  constructor
  · rw [wake_queue]
    intro v hv
    have hne : v.task ≠ w.task := fun heq => honce.1 (List.mem_map.mpr ⟨v, hv, heq⟩)
    rw [call_wake _ _ hne]
    exact hwaits.2 v hv
  · rw [wake_queue]
    intro u word hu
    by_cases heq : u = w.task
    · rw [heq] at hu
      exact absurd hu (call_wake_self _ _ _ _)
    · rw [call_wake _ _ heq] at hu
      have hmem := h.queued u word hu
      rw [hq, List.mem_cons] at hmem
      refine hmem.resolve_left fun hw => heq ?_
      rw [← hw]
  · rw [wake_queue]
    exact honce.2

theorem Waiting.move (h : s.Waiting) {e : Event} (hm : s.Move e t) : t.Waiting := by
  cases hm with
  | ignore hpc => exact h
  | send word hpc =>
      refine h.send rfl (by rw [call, hpc]) rfl ?_
      intro u hne
      cases u <;> first | exact absurd rfl hne | rfl
  | sendTest ack lit word hpc =>
      refine h.send rfl (by rw [call, hpc]) rfl ?_
      intro u hne
      cases u <;> first | exact absurd rfl hne | rfl
  | sendPanel word hpc =>
      refine h.send rfl (by rw [call, hpc]) rfl ?_
      intro u hne
      cases u <;> first | exact absurd rfl hne | rfl
  | bus w queue hq => exact h.bus hq
  | probe ack hpc =>
      refine h.of_call rfl ?_
      intro task word
      cases ack <;> cases task <;> simp [call, hpc]
  | store hpc | release hpc | defer hpc | load hpc | shadow _ hpc | shadowTest _ _ _ hpc
  | readOn _ hpc | readOff _ hpc | report _ hpc | begin hpc | loadPanel hpc | shadowPanel _ hpc =>
      refine h.of_call rfl ?_
      intro task word
      cases task <;> simp [call, hpc]

/-! ## Order -/

/-- Who may be where. -/
structure Ordered (s : Board) : Prop where
  deleted : s.done = true ↔ s.selftest = .deleted
  released : s.done = false → s.handler = .idle ∨ s.handler = .stored
  blocked : s.done = false → s.panel = .wait
  held : s.done = false → ∀ w ∈ s.written ++ s.queue, w.task ≠ .dispatcher

@[simp] theorem wake_done (s : Board) (task : Task) (word : UInt16) :
    (s.wake task word).done = s.done := by
  cases task <;> rfl

@[simp] theorem wake_ledState (s : Board) (task : Task) (word : UInt16) :
    (s.wake task word).ledState = s.ledState := by
  cases task <;> rfl

@[simp] theorem wake_commanded (s : Board) (task : Task) (word : UInt16) :
    (s.wake task word).commanded = s.commanded := by
  cases task <;> rfl

theorem wake_deleted (s : Board) (task : Task) (word : UInt16) :
    (s.wake task word).selftest = .deleted ↔ s.selftest = .deleted := by
  cases task with
  | dispatcher => rfl
  | selftest =>
      show s.selftest.wake word = .deleted ↔ _
      cases s.selftest <;> simp [Selftest.wake]
  | panel => rfl

/-- What is written and what is to be written is the same list. -/
theorem bus_writes {w : Write} {queue : List Write} (hq : s.queue = w :: queue) :
    s.written ++ [w] ++ queue = s.written ++ s.queue := by
  rw [hq, List.append_assoc, List.singleton_append]

theorem Ordered.testing (h : s.Ordered) (hpc : s.selftest ≠ .deleted) : s.done = false := by
  rw [Bool.eq_false_iff, Ne, h.deleted]
  exact hpc

/-- The panel task queues nothing before the self test is done. -/
theorem Ordered.not_queued (h : s.Ordered) (hdone : s.done = false) : ¬ s.panel.Queued := by
  rw [h.blocked hdone]
  exact id

theorem Ordered.bus (h : s.Ordered) (hw : s.Waiting) {w : Write} {queue : List Write}
    (hq : s.queue = w :: queue) :
    ({ s with queue, written := s.written ++ [w] }.wake w.task w.word).Ordered := by
  have hwait : s.call w.task = some (.wait w.word) := hw.waits w (by rw [hq]; simp)
  constructor
  · rw [wake_done, wake_deleted]
    exact h.deleted
  · rw [wake_done]
    intro hdone
    have hown : w.task ≠ .dispatcher := h.held hdone w (by rw [hq]; simp)
    cases htask : w.task with
    | dispatcher => exact absurd htask hown
    | selftest => exact h.released hdone
    | panel => exact h.released hdone
  · rw [wake_done]
    intro hdone
    cases htask : w.task with
    | dispatcher => exact h.blocked hdone
    | selftest => exact h.blocked hdone
    | panel =>
        -- the panel task has not begun, so no write is its own
        rw [htask, call, h.blocked hdone] at hwait
        cases hwait
  · rw [wake_done, wake_written, wake_queue, bus_writes hq]
    exact h.held

theorem Ordered.move (h : s.Ordered) (hw : s.Waiting) {e : Event} (hm : s.Move e t) :
    t.Ordered := by
  cases hm with
  | ignore hpc => exact h
  | bus w queue hq => exact h.bus hw hq
  | probe ack hpc =>
      have hdone := h.testing (by rw [hpc]; exact Selftest.noConfusion)
      refine ⟨?_, h.released, h.blocked, h.held⟩
      show s.done = true ↔ _
      cases ack <;> simp [hdone]
  | send word hpc =>
      have hdone : s.done = true := by
        by_contra hfalse
        have hreleased := h.released (Bool.eq_false_iff.mpr hfalse)
        rw [hpc] at hreleased
        simp at hreleased
      refine ⟨h.deleted, ?_, ?_, ?_⟩ <;> simp [hdone]
  | sendTest ack lit word hpc =>
      obtain ⟨hdeleted, hreleased, hwaits, hheld⟩ := h
      refine ⟨by simp_all, hreleased, hwaits, fun hdone => ?_⟩
      rw [← List.append_assoc, List.forall_mem_append]
      exact ⟨hheld hdone, by simp⟩
  | sendPanel word hpc =>
      have hdone : s.done = true := by
        by_contra hfalse
        have hwaits := h.blocked (Bool.eq_false_iff.mpr hfalse)
        rw [hpc] at hwaits
        cases hwaits
      refine ⟨h.deleted, ?_, ?_, ?_⟩ <;> simp [hdone]
  | store hpc | release hpc hdone | defer hpc | load hpc | shadow _ hpc | shadowTest _ _ _ hpc
  | readOn _ hpc | readOff _ hpc | report _ hpc | begin hpc hdone | loadPanel hpc
  | shadowPanel _ hpc =>
      obtain ⟨hdeleted, hreleased, hwaits, hheld⟩ := h
      constructor <;> simp_all

/-! ## The last frame -/

/-- What the tasks know of the last frame. -/
structure Current (s : Board) : Prop where
  ledState : s.ledState = s.commanded
  word : ∀ word, s.handler = .leds (.send word) → word = ledStateWord s.ledState
  last : s.panel.Queued → s.handler.Owes ∨
    (s.written ++ s.queue).getLast?.map Write.word = some (ledStateWord s.ledState)

theorem Current.bus (h : s.Current) (hw : s.Waiting) {w : Write} {queue : List Write}
    (hq : s.queue = w :: queue) :
    ({ s with queue, written := s.written ++ [w] }.wake w.task w.word).Current := by
  have hwait : s.call w.task = some (.wait w.word) := hw.waits w (by rw [hq]; simp)
  constructor
  · rw [wake_ledState, wake_commanded]
    exact h.ledState
  · rw [wake_ledState]
    intro word hpc
    cases htask : w.task with
    | dispatcher =>
        rw [htask] at hpc
        cases hpc
    | selftest =>
        rw [htask] at hpc
        exact h.word word hpc
    | panel =>
        rw [htask] at hpc
        exact h.word word hpc
  · rw [wake_ledState, wake_written, wake_queue, bus_writes hq]
    intro hqueued
    cases htask : w.task with
    | dispatcher =>
        rw [htask] at hqueued hwait
        refine (h.last hqueued).imp_left fun howes => ?_
        -- a dispatcher that waits for its write does not owe one
        rw [call] at hwait
        split at hwait
        · next c hpc =>
          cases hwait
          rw [hpc] at howes
          exact howes
        · cases hwait
    | selftest =>
        rw [htask] at hqueued
        exact h.last hqueued
    | panel =>
        rw [htask, call] at hwait
        split at hwait
        · next c hpc =>
          cases hwait
          exact h.last (by rw [hpc]; trivial)
        · cases hwait

theorem Current.move (h : s.Current) (ho : s.Ordered) (hw : s.Waiting) {e : Event}
    (hf : s.Fresh e) (hm : s.Move e t) : t.Current := by
  have hlast := h.last
  cases hm with
  | ignore hpc => exact h
  | bus w queue hq => exact h.bus hw hq
  | store hpc b rest =>
      refine ⟨?_, fun word hpc' => (nomatch hpc'), fun _ => .inl trivial⟩
      rw [commanded, List.getLast?_append]
      rfl
  | release hpc hdone => exact ⟨h.ledState, fun word hpc' => (nomatch hpc'), fun _ => .inl trivial⟩
  | defer hpc hdone =>
      exact ⟨h.ledState, fun word hpc' => (nomatch hpc'),
        fun hqueued => (ho.not_queued hdone hqueued).elim⟩
  | load hpc =>
      refine ⟨h.ledState, fun word hpc' => ?_, fun _ => .inl trivial⟩
      cases hpc'
      rfl
  | send word hpc =>
      refine ⟨h.ledState, fun word hpc' => (nomatch hpc'), fun _ => .inr ?_⟩
      rw [← List.append_assoc, List.getLast?_append]
      exact congrArg some (h.word word hpc)
  | shadow word hpc =>
      refine ⟨h.ledState, fun word hpc' => (nomatch hpc'), fun hqueued => .inr ?_⟩
      rw [hpc] at hlast
      exact (hlast hqueued).resolve_left id
  | probe ack hpc => exact ⟨h.ledState, h.word, hlast⟩
  | sendTest ack lit word hpc =>
      have hdone := ho.testing (by rw [hpc]; exact Selftest.noConfusion)
      exact ⟨h.ledState, h.word, fun hqueued => (ho.not_queued hdone hqueued).elim⟩
  | shadowTest ack lit word hpc => exact ⟨h.ledState, h.word, hlast⟩
  | readOn ack hpc => exact ⟨h.ledState, h.word, hlast⟩
  | readOff ack hpc => exact ⟨h.ledState, h.word, hlast⟩
  | report ack hpc => exact ⟨h.ledState, h.word, hlast⟩
  | begin hpc hdone => exact ⟨h.ledState, h.word, fun hqueued => hqueued.elim⟩
  | loadPanel hpc => exact ⟨h.ledState, h.word, fun hqueued => hqueued.elim⟩
  | sendPanel word hpc =>
      refine ⟨h.ledState, h.word, fun _ => ?_⟩
      rcases hf word (by rw [hpc]; rfl) with heq | howes
      · right
        rw [← List.append_assoc, List.getLast?_append]
        exact congrArg some heq
      · left
        exact howes
  | shadowPanel word hpc => exact ⟨h.ledState, h.word, fun _ => hlast (by rw [hpc]; trivial)⟩

/-! ## Runs -/

/-- What every step keeps. -/
structure Safe (s : Board) : Prop extends s.Waiting, s.Ordered

theorem Safe.start : ({} : Board).Safe where
  waits := fun w hw => (List.not_mem_nil hw).elim
  queued := fun task word hcall => by cases task <;> cases hcall
  once := List.nodup_nil
  deleted := by simp
  released := fun _ => .inl rfl
  blocked := fun _ => rfl
  held := fun _ w hw => (List.not_mem_nil hw).elim

theorem Safe.step (h : s.Safe) {e : Event} (ht : s.step e = some t) : t.Safe :=
  ⟨h.toWaiting.move (move_of_step ht), h.toOrdered.move h.toWaiting (move_of_step ht)⟩

theorem Current.start : ({} : Board).Current where
  ledState := rfl
  word := fun _ hpc => nomatch hpc
  last := fun hqueued => hqueued.elim

/-- What the steps of a run keep in which the panel task is not overtaken. -/
theorem current_of_fresh {es : List Event} (h : Throughout Board.step Fresh {} es)
    (hrun : run Board.step {} es = some s) : s.Safe ∧ s.Current := by
  have hstep : ∀ {u : Board} {e : Event} {v : Board}, u.Safe ∧ u.Current → u.Fresh e →
      u.step e = some v → v.Safe ∧ v.Current := by
    intro u e v hu hf hv
    exact ⟨hu.1.step hv, hu.2.move hu.1.toOrdered hu.1.toWaiting hf (move_of_step hv)⟩
  exact run_invariant hstep ⟨Safe.start, Current.start⟩ h hrun

/-- With everyone through, nothing is left on the queue. -/
theorem Waiting.queue_eq_nil (h : s.Waiting) (hs : s.selftest = .deleted) (hp : s.panel = .loop)
    (hh : s.handler = .idle) : s.queue = [] := by
  rw [List.eq_nil_iff_forall_not_mem]
  intro w hw
  have hcall := h.waits w hw
  cases htask : w.task <;> simp [htask, call, hs, hp, hh] at hcall

/-- In every run in which the panel task is not overtaken, no frame writes the LEDs before the self
test is done, and once everyone is through the last frame has won. -/
theorem lastWins_of_fresh {es : List Event} (h : Throughout Board.step Fresh {} es)
    (hrun : run Board.step {} es = some s) : s.Held ∧ s.LastWins := by
  obtain ⟨hsafe, hcurrent⟩ := current_of_fresh h hrun
  constructor
  · intro hdone w hw
    exact hsafe.held hdone w (List.mem_append_left _ hw)
  · intro hdone hp hh
    have hlast := hcurrent.last (by rw [hp]; trivial)
    rw [hh, hsafe.queue_eq_nil (hsafe.deleted.mp hdone) hp hh, List.append_nil,
      hcurrent.ledState] at hlast
    exact hlast.resolve_left id

/-- A frame that is deferred, and one that is handled while the panel task waits for its write. -/
def deferredRun : List Event :=
  [.frame [3], .handler, .selftest false, .selftest false, .panel, .panel, .panel,
    .frame [5], .handler, .bus, .handler, .handler, .panel, .bus, .handler]

theorem lastWins_deferred :
    ∃ s, run Board.step {} deferredRun = some s ∧ s.Held ∧ s.LastWins :=
  ⟨_, rfl, @lastWins_of_fresh _ deferredRun (by decide) rfl⟩

/-- A frame is handled between the load of the panel task and its write. -/
def overtakenRun : List Event :=
  [.selftest false, .selftest false, .panel, .panel,
    .frame [0x0f], .handler, .handler, .handler, .bus, .handler, .panel, .bus, .panel]

theorem not_lastWins_overtaken :
    ∃ s, run Board.step {} overtakenRun = some s ∧ ¬ s.LastWins :=
  ⟨_, rfl, fun h => absurd (h rfl rfl rfl) (by decide)⟩

/-! ## The condition is exact -/

/-- The panel task has queued an older state than the last frame's, and no write comes behind it. -/
structure Overtaken (s : Board) (word : UInt16) : Prop where
  done : s.done = true
  panel : s.panel = .leds (.wait word)
  older : word ≠ ledStateWord s.commanded

theorem Overtaken.idle {word : UInt16} (h : s.Overtaken word) (hh : s.handler = .idle)
    (hq : s.queue = [⟨.panel, word⟩]) : ∃ fs t, run Board.step s fs = some t ∧ ¬ t.LastWins := by
  have hbus : s.step .bus = some
      { s with queue := [], written := s.written ++ [⟨.panel, word⟩],
               panel := .leds (.shadow word) } := by
    rw [Board.step, busStep, hq]
    rfl
  refine ⟨[.bus, .panel], _, run_cons hbus _, fun hwins => ?_⟩
  have hlast := hwins h.done rfl hh
  rw [List.getLast?_append] at hlast
  exact h.older (Option.some.inj hlast)

theorem Overtaken.shadow {word w : UInt16} (h : s.Overtaken word)
    (hh : s.handler = .leds (.shadow w)) (hq : s.queue = [⟨.panel, word⟩]) :
    ∃ fs t, run Board.step s fs = some t ∧ ¬ t.LastWins := by
  have hstep : s.step .handler = some { s with shadow := w, handler := .idle } := by
    rw [Board.step, handlerStep, hh]
  have hnext : ({ s with shadow := w, handler := .idle } : Board).Overtaken word :=
    ⟨h.done, h.panel, h.older⟩
  obtain ⟨fs, hfs⟩ := exists_run_cons hstep (hnext.idle rfl hq)
  exact ⟨.handler :: fs, hfs⟩

theorem Overtaken.wait {word w : UInt16} (h : s.Overtaken word)
    (hq : s.queue = [⟨.dispatcher, w⟩, ⟨.panel, word⟩]) :
    ∃ fs t, run Board.step s fs = some t ∧ ¬ t.LastWins := by
  have hstep : s.step .bus = some
      { s with queue := [⟨.panel, word⟩], written := s.written ++ [⟨.dispatcher, w⟩],
               handler := .leds (.shadow w) } := by
    rw [Board.step, busStep, hq]
    rfl
  have hnext : ({ s with
      queue := [⟨.panel, word⟩], written := s.written ++ [⟨.dispatcher, w⟩],
      handler := .leds (.shadow w) } : Board).Overtaken word :=
    ⟨h.done, h.panel, h.older⟩
  obtain ⟨fs, hfs⟩ := exists_run_cons hstep (hnext.shadow rfl rfl)
  exact ⟨.bus :: fs, hfs⟩

theorem Overtaken.ends {word : UInt16} (h : s.Overtaken word) (howes : ¬ s.handler.Owes)
    (hq : (s.queue = [⟨.panel, word⟩] ∧ ∀ w, s.handler ≠ .leds (.wait w)) ∨
      ∃ w, s.queue = [⟨.dispatcher, w⟩, ⟨.panel, word⟩]) :
    ∃ fs t, run Board.step s fs = some t ∧ ¬ t.LastWins := by
  rcases hq with ⟨hq, hwait⟩ | ⟨w, hq⟩
  · cases hh : s.handler with
    | idle => exact h.idle hh hq
    | stored => exact (howes (by rw [hh]; trivial)).elim
    | released => exact (howes (by rw [hh]; trivial)).elim
    | leds c =>
        cases c with
        | send w => exact (howes (by rw [hh]; trivial)).elim
        | wait w => exact (hwait w hh).elim
        | shadow w => exact h.shadow hh hq
  · exact h.wait hq

/-- While the panel task is about to queue its write, only the dispatcher waits for one. -/
theorem Waiting.queue_of_sends (h : s.Waiting) (hs : s.selftest = .deleted) {word : UInt16}
    (hp : s.panel = .leds (.send word)) :
    s.queue = [] ∧ (∀ w, s.handler ≠ .leds (.wait w)) ∨
      ∃ w, s.handler = .leds (.wait w) ∧ s.queue = [⟨.dispatcher, w⟩] := by
  have hown : ∀ v ∈ s.queue, v.task = .dispatcher ∧ s.handler = .leds (.wait v.word) := by
    intro v hv
    have hcall := h.waits v hv
    cases htask : v.task with
    | dispatcher =>
        rw [htask, call] at hcall
        split at hcall
        · next c hpc =>
          cases hcall
          exact ⟨rfl, hpc⟩
        · cases hcall
    | selftest => simp [htask, call, hs] at hcall
    | panel => simp [htask, call, hp] at hcall
  cases hq : s.queue with
  | nil =>
      left
      refine ⟨rfl, fun w hw => ?_⟩
      have hmem := h.queued .dispatcher w (by rw [call, hw])
      rw [hq] at hmem
      cases hmem
  | cons v rest =>
      right
      have hv := hown v (by rw [hq]; simp)
      refine ⟨v.word, hv.2, ?_⟩
      cases rest with
      | nil =>
          show [v] = _
          rw [← hv.1]
      | cons u rest =>
          have honce := h.once
          have hu := hown u (by rw [hq]; simp)
          rw [hq, List.map_cons, List.map_cons, hv.1, hu.1] at honce
          simp at honce

/-- The first time the panel task is overtaken, the older state can come to stay on the LEDs. -/
theorem exists_not_lastWins {es : List Event} {e : Event}
    (h : Throughout Board.step Fresh {} es) (hrun : run Board.step {} es = some s)
    (he : ¬ s.Fresh e) : ∃ fs t, run Board.step s (e :: fs) = some t ∧ ¬ t.LastWins := by
  obtain ⟨hsafe, hcurrent⟩ := current_of_fresh h hrun
  cases e with
  | panel =>
      simp only [Fresh, not_forall, not_or] at he
      obtain ⟨word, hsends, hne, howes⟩ := he
      have hp : s.panel = .leds (.send word) := by
        rw [Panel.sends.eq_def] at hsends
        split at hsends
        · next hp =>
          cases hsends
          exact hp
        · cases hsends
      have hdone : s.done = true := by
        by_contra hfalse
        have hblocked := hsafe.blocked (Bool.eq_false_iff.mpr hfalse)
        rw [hp] at hblocked
        cases hblocked
      rw [hcurrent.ledState] at hne
      have hstep : s.step .panel = some
          { s with queue := s.queue ++ [⟨.panel, word⟩], panel := .leds (.wait word) } := by
        rw [Board.step, panelStep, hp]
      have hnext : ({ s with
          queue := s.queue ++ [⟨.panel, word⟩], panel := .leds (.wait word) } : Board).Overtaken
            word :=
        ⟨hdone, rfl, hne⟩
      refine exists_run_cons hstep (hnext.ends howes ?_)
      refine (hsafe.queue_of_sends (hsafe.deleted.mp hdone) hp).imp ?_ ?_
      · rintro ⟨hq, hwait⟩
        exact ⟨by rw [hq, List.nil_append], hwait⟩
      · rintro ⟨w, -, hq⟩
        exact ⟨w, by rw [hq]; rfl⟩
  | frame payload => exact (he trivial).elim
  | handler => exact (he trivial).elim
  | selftest ack => exact (he trivial).elim
  | bus => exact (he trivial).elim

end Board
end LedCommands
end MFoES.Northbridge
