import MFoES.Lib.Transition
import MFoES.Northbridge.Encoder

/-!
# The reports of the encoder

The task takes the detents that the handler has counted, in a critical section,
and reads the position later, when it makes up the message.  The interrupt, the
task, the reader of the queue and the callers of `encoder_take_delta` take their
steps in any order.

A message is right where its position is the one at the start of the task and
all the detents reported since.  That is so where the count that the task has yet
to report is what it was at the start, when the position is read.
-/

namespace MFoES.Northbridge

open Quadrature Transition

/-- `EncoderMsg`. -/
structure EncoderMsg where
  delta : Int8
  pressed : Bool
  buttonEdge : Bool
  position : Int32
deriving DecidableEq

/-- `clamped`, as the byte of a message. -/
def clamped (delta : Int32) : Int8 :=
  (if 127 < delta then 127 else if delta < -127 then -127 else delta).toInt8

/-- Where `encoder_task` is. -/
inductive TaskPlace where
  /-- Before `g_state` is read. -/
  | start
  /-- Before `g_pressed` is read. -/
  | startButton
  /-- In `ulTaskNotifyTake`. -/
  | wait
  /-- In `vTaskDelay`. -/
  | settle
  /-- Before the critical section. -/
  | take
  /-- In `emit`, before the position is read. -/
  | emit (delta : Int8) (buttonEdge : Bool)
  /-- Before `xQueueSend`. -/
  | send (msg : EncoderMsg)
  /-- Before the button is read. -/
  | button
deriving DecidableEq

/-- What the task, the handler and the callers share. -/
structure Reports where
  encoder : Encoder
  /-- `g_pressed`. -/
  pressed : Bool
  /-- The notifications that the task has yet to take. -/
  notified : UInt32 := 0
  /-- `g_events`. -/
  events : List EncoderMsg := []
  task : TaskPlace := .start
  /-- `g_position` and `g_queue_delta` when the task started. -/
  startPosition : Int32 := 0
  startDelta : Int32 := 0
  /-- The messages that the queue took. -/
  sent : List EncoderMsg := []
deriving DecidableEq

/-- What happens. -/
inductive Occurrence where
  /-- `encoder_isr`. -/
  | isr (i : Interrupt)
  /-- A step of `encoder_task`, with the levels of the pins. -/
  | task (lines : Lines) (level : Bool)
  /-- `encoder_wait` takes a message. -/
  | receive
  /-- `encoder_take_delta`. -/
  | takeDelta
deriving DecidableEq

namespace Reports

variable (c : EncoderConfig) (queueDepth : Nat)

/-- `encoder_init`. -/
def init (lines : Lines) (level : Bool) : Reports :=
  { encoder := .init lines, pressed := !level }

/-- `encoder_task`. -/
def taskStep (s : Reports) (lines : Lines) (level : Bool) : Option Reports :=
  match s.task with
  | .start =>
    some { s with
      encoder.state := readState lines
      task := .startButton
      startPosition := s.encoder.position
      startDelta := s.encoder.queueDelta }
  | .startButton => some { s with pressed := !level, task := .wait }
  | .wait => if s.notified = 0 then none else some { s with notified := 0, task := .settle }
  | .settle => some { s with task := .take }
  | .take =>
    some { s with
      encoder.queueDelta := 0
      task :=
        if s.encoder.queueDelta ≠ 0 then .emit (clamped s.encoder.queueDelta) false else .button }
  | .emit delta buttonEdge =>
    some { s with task := .send ⟨delta, s.pressed, buttonEdge, s.encoder.position⟩ }
  | .send msg =>
    let task := if msg.buttonEdge then .wait else .button
    if s.events.length < queueDepth then
      some { s with events := s.events ++ [msg], sent := s.sent ++ [msg], task }
    else some { s with task }
  | .button =>
    if (!level) ≠ s.pressed then some { s with pressed := !level, task := .emit 0 true }
    else some { s with task := .wait }

/-- The step of an occurrence. -/
def step (s : Reports) : Occurrence → Option Reports
  | .isr i =>
    some { s with
      encoder := s.encoder.isr c i
      notified := if i.any then s.notified + 1 else s.notified }
  | .task lines level => s.taskStep queueDepth lines level
  | .receive =>
    match s.events with
    | [] => none
    | _ :: events => some { s with events }
  | .takeDelta => some { s with encoder.pollDelta := 0 }

/-! ## What is asked of a run -/

/-- The detents of some messages. -/
def reported (msgs : List EncoderMsg) : Int32 :=
  (msgs.map fun msg => msg.delta.toInt32).foldl (· + ·) 0

/-- Every message has the position of the start and the detents reported up to it. -/
def Consistent (s : Reports) : Prop :=
  ∀ before msg after, s.sent = before ++ msg :: after →
    msg.position = s.startPosition + reported (before ++ [msg])

/-- The queue does not overflow, and no burst is longer than a byte holds. -/
def Fits (s : Reports) : Occurrence → Prop
  | .task _ _ =>
    match s.task with
    | .send _ => s.events.length < queueDepth
    | .take => -127 ≤ s.encoder.queueDelta ∧ s.encoder.queueDelta ≤ 127
    | _ => True
  | _ => True

/-- The position is read with as much left to report as at the start of the task. -/
def Steady (s : Reports) : Occurrence → Prop
  | .task _ _ =>
    match s.task with
    | .emit _ _ => s.encoder.queueDelta = s.startDelta
    | _ => True
  | _ => True

instance (s : Reports) : DecidablePred (s.Fits queueDepth)
  | .task _ _ =>
    match h : s.task with
    | .send _ => decidable_of_iff (s.events.length < queueDepth) (by rw [Fits, h])
    | .take =>
      decidable_of_iff (-127 ≤ s.encoder.queueDelta ∧ s.encoder.queueDelta ≤ 127) (by rw [Fits, h])
    | .start | .startButton | .wait | .settle | .emit _ _ | .button =>
      .isTrue (by rw [Fits, h]; trivial)
  | .isr _ | .receive | .takeDelta => .isTrue trivial

instance (s : Reports) : DecidablePred s.Steady
  | .task _ _ =>
    match h : s.task with
    | .emit _ _ => decidable_of_iff (s.encoder.queueDelta = s.startDelta) (by rw [Steady, h])
    | .start | .startButton | .wait | .settle | .take | .send _ | .button =>
      .isTrue (by rw [Steady, h]; trivial)
  | .isr _ | .receive | .takeDelta => .isTrue trivial

end Reports

/-! ## What a step keeps -/

/-- A detent leaves the accumulator for the position and the reports alike. -/
theorem Encoder.isr_balance (c : EncoderConfig) (s : Encoder) (i : Interrupt) :
    (s.isr c i).position - (s.isr c i).queueDelta = s.position - s.queueDelta := by
  rw [isr]
  split
  · obtain ⟨k, hcarried, -⟩ := carry_spec c { s with
      errors := _, state := readState i.lines, sub := s.sub + _ * c.kSign }
    rw [turn, hcarried.position, hcarried.queueDelta]
    grind
  · rfl

/-- A burst that fits a byte is not clamped. -/
theorem clamped_eq {delta : Int32} (h : -127 ≤ delta ∧ delta ≤ 127) :
    (clamped delta).toInt32 = delta := by
  have hlower : -127 ≤ delta.toInt := Int32.le_iff_toInt_le.mp h.1
  have hupper : delta.toInt ≤ 127 := Int32.le_iff_toInt_le.mp h.2
  rw [clamped, if_neg (Int32.not_lt.mpr h.2), if_neg (Int32.not_lt.mpr h.1), ← Int32.toInt_inj,
    Int8.toInt_toInt32, Int32.toInt_toInt8, Int.bmod_eq_of_le] <;> omega

namespace Reports

variable {c : EncoderConfig} {queueDepth : Nat} {s t : Reports}

theorem reported_concat (msgs : List EncoderMsg) (msg : EncoderMsg) :
    reported (msgs ++ [msg]) = reported msgs + msg.delta.toInt32 := by
  rw [reported, List.map_append, List.foldl_append]
  rfl

/-- The detents that the task has taken and not reported. -/
def inHand (s : Reports) : Int32 :=
  match s.task with
  | .emit delta _ => delta.toInt32
  | .send msg => msg.delta.toInt32
  | _ => 0

/-- From the start of the task on, its position and the detents taken since are what the handler
has counted but for what is left to take. -/
structure Tracked (s : Reports) : Prop where
  balance : s.task ≠ .start →
    s.encoder.position - s.encoder.queueDelta =
      s.startPosition - s.startDelta + (reported s.sent + s.inHand)
  fresh : s.task = .start → s.sent = []

theorem Tracked.init (lines : Lines) (level : Bool) : (init lines level).Tracked :=
  ⟨fun h => absurd rfl h, fun _ => rfl⟩

/-- The position of a message that is made up now. -/
theorem Tracked.position (h : s.Tracked) {delta : Int8} {buttonEdge : Bool}
    (htask : s.task = .emit delta buttonEdge) :
    s.encoder.position = s.startPosition + (reported s.sent + delta.toInt32) ↔
      s.encoder.queueDelta = s.startDelta := by
  have hbalance := h.balance (by rw [htask]; exact TaskPlace.noConfusion)
  rw [inHand, htask] at hbalance
  dsimp only at hbalance
  constructor
  · intro hposition
    grind
  · intro hdelta
    grind

/-- A run in which every message so far is right. -/
structure Right (s : Reports) : Prop where
  tracked : s.Tracked
  consistent : s.Consistent
  made : ∀ msg, s.task = .send msg →
    msg.position = s.startPosition + (reported s.sent + msg.delta.toInt32)

theorem Right.init (lines : Lines) (level : Bool) : (init lines level).Right where
  tracked := .init lines level
  consistent := by
    intro before msg after h
    exact absurd h (by simp [Reports.init])
  made := fun _ h => TaskPlace.noConfusion h

/-- A message that is right joins the others. -/
theorem Consistent.concat (h : s.Consistent) {msg : EncoderMsg}
    (hmsg : msg.position = s.startPosition + (reported s.sent + msg.delta.toInt32)) :
    ∀ before msg' after, s.sent ++ [msg] = before ++ msg' :: after →
      msg'.position = s.startPosition + reported (before ++ [msg']) := by
  intro before msg' after hsent
  rcases split_concat hsent with ⟨rfl, rfl, -⟩ | ⟨rest, -, hrest⟩
  · rw [hmsg, reported_concat]
  · exact h before msg' rest hrest

/-- Steps that take no detents and send nothing keep it. -/
theorem Right.of_same (h : s.Right)
    (hbalance : t.encoder.position - t.encoder.queueDelta =
      s.encoder.position - s.encoder.queueDelta)
    (hposition : t.startPosition = s.startPosition) (hdelta : t.startDelta = s.startDelta)
    (hsent : t.sent = s.sent) (hstart : t.task = .start ↔ s.task = .start)
    (hinHand : t.inHand = s.inHand) (hmade : ∀ msg, t.task = .send msg → s.task = .send msg) :
    t.Right where
  tracked := by
    refine ⟨fun hne => ?_, fun heq => ?_⟩
    · rw [hbalance, hposition, hdelta, hsent, hinHand]
      exact h.tracked.balance fun heq => hne (hstart.mpr heq)
    · rw [hsent]
      exact h.tracked.fresh (hstart.mp heq)
  consistent := by
    rw [Consistent, hposition, hsent]
    exact h.consistent
  made := by
    intro msg hmsg
    rw [hposition, hsent]
    exact h.made msg (hmade msg hmsg)

theorem Right.taskStep (h : s.Right) {lines : Lines} {level : Bool}
    (hfits : s.Fits queueDepth (.task lines level)) (hsteady : s.Steady (.task lines level))
    (ht : s.taskStep queueDepth lines level = some t) : t.Right := by
  rw [Fits] at hfits
  rw [Steady] at hsteady
  rw [Reports.taskStep] at ht
  cases htask : s.task with
  | start =>
      rw [htask] at ht
      cases ht
      refine ⟨⟨fun _ => ?_, fun hstart => TaskPlace.noConfusion hstart⟩, ?_,
        fun msg hmsg => TaskPlace.noConfusion hmsg⟩
      · simp only [h.tracked.fresh htask, inHand]
        exact (Int32.add_zero _).symm
      · intro before msg after hsent
        rw [h.tracked.fresh htask] at hsent
        exact absurd hsent (by simp)
  | startButton =>
      rw [htask] at ht
      cases ht
      exact h.of_same rfl rfl rfl rfl (by simp [htask]) (by rw [inHand, inHand, htask]) (by simp)
  | wait =>
      rw [htask] at ht
      dsimp only at ht
      split at ht
      · cases ht
      · cases ht
        exact h.of_same rfl rfl rfl rfl (by simp [htask]) (by rw [inHand, inHand, htask]) (by simp)
  | settle =>
      rw [htask] at ht
      cases ht
      exact h.of_same rfl rfl rfl rfl (by simp [htask]) (by rw [inHand, inHand, htask]) (by simp)
  | take =>
      rw [htask] at ht hfits
      cases ht
      have hbalance := h.tracked.balance (by rw [htask]; exact TaskPlace.noConfusion)
      rw [show s.inHand = 0 by rw [inHand, htask]] at hbalance
      by_cases hzero : s.encoder.queueDelta = 0
      · refine h.of_same ?_ rfl rfl rfl ?_ ?_ ?_
        · rw [hzero]
        · simp [htask, hzero]
        · simp [inHand, htask, hzero]
        · simp [hzero]
      · refine ⟨⟨fun _ => ?_, fun hstart => ?_⟩, h.consistent, fun msg hmsg => ?_⟩
        · simp only [inHand, ne_eq, hzero, not_false_eq_true, if_true, clamped_eq hfits]
          grind
        · simp [hzero] at hstart
        · simp [hzero] at hmsg
  | emit delta buttonEdge =>
      rw [htask] at ht hsteady
      cases ht
      have hbalance := h.tracked.balance (by rw [htask]; exact TaskPlace.noConfusion)
      rw [show s.inHand = delta.toInt32 by rw [inHand, htask]] at hbalance
      refine ⟨⟨fun _ => hbalance, fun hstart => TaskPlace.noConfusion hstart⟩, h.consistent,
        fun msg hmsg => ?_⟩
      cases hmsg
      exact (h.tracked.position htask).mpr hsteady
  | send msg =>
      rw [htask] at ht hfits
      dsimp only at ht hfits
      rw [if_pos hfits] at ht
      cases ht
      have hbalance := h.tracked.balance (by rw [htask]; exact TaskPlace.noConfusion)
      rw [show s.inHand = msg.delta.toInt32 by rw [inHand, htask]] at hbalance
      refine ⟨⟨fun _ => ?_, fun hstart => ?_⟩, h.consistent.concat (h.made msg htask),
        fun msg' hmsg => ?_⟩
      · have hnone : inHand { s with
            events := s.events ++ [msg]
            sent := s.sent ++ [msg]
            task := if msg.buttonEdge then .wait else .button } = 0 := by
          rw [inHand]
          cases msg.buttonEdge <;> rfl
        rw [hnone, reported_concat, Int32.add_zero]
        exact hbalance
      · split at hstart <;> cases hstart
      · split at hmsg <;> cases hmsg
  | button =>
      rw [htask] at ht
      dsimp only at ht
      split at ht
      · cases ht
        exact h.of_same rfl rfl rfl rfl (by simp [htask]) (by rw [inHand, inHand, htask]; rfl)
          (by simp)
      · cases ht
        exact h.of_same rfl rfl rfl rfl (by simp [htask]) (by rw [inHand, inHand, htask]) (by simp)

theorem Right.step (h : s.Right) {e : Occurrence}
    (he : s.Fits queueDepth e ∧ s.Steady e) (ht : s.step c queueDepth e = some t) : t.Right := by
  cases e with
  | isr i =>
      cases ht
      exact h.of_same (Encoder.isr_balance c s.encoder i) rfl rfl rfl Iff.rfl rfl fun _ => id
  | task lines level => exact h.taskStep he.1 he.2 ht
  | receive =>
      rw [Reports.step] at ht
      split at ht
      · cases ht
      · cases ht
        exact h.of_same rfl rfl rfl rfl Iff.rfl rfl fun _ => id
  | takeDelta =>
      cases ht
      exact h.of_same rfl rfl rfl rfl Iff.rfl rfl fun _ => id

/-! ## Runs -/

/-- In every run in which the queue does not overflow and no burst is too long, every message is
right if the position is always read with as much left to report as at the start of the task. -/
theorem consistent_of_steady {lines : Lines} {level : Bool} {es : List Occurrence}
    (h : Throughout (step c queueDepth) (fun s e => s.Fits queueDepth e ∧ s.Steady e)
      (init lines level) es)
    (hrun : run (step c queueDepth) (init lines level) es = some s) : s.Consistent :=
  (run_invariant (fun hs he ht => hs.step he ht) (Right.init lines level) h hrun).consistent

/-- The interrupts of a turn by one detent. -/
def click : List Occurrence :=
  [Encoder.edge true false, Encoder.edge true true, Encoder.edge false true,
    Encoder.edge false false].map .isr

/-- Steps of the task with the button released. -/
def tasks (n : Nat) : List Occurrence := List.replicate n (.task ⟨false, false⟩ true)

/-- A detent is reported. -/
def steadyRun : List Occurrence := tasks 2 ++ click ++ tasks 6

/-- A second detent is counted before the position is read. -/
def lateRun : List Occurrence := tasks 2 ++ click ++ tasks 3 ++ click ++ tasks 2

theorem consistent_steadyRun :
    ∃ s, run (step encoderConfig 16) (init ⟨false, false⟩ true) steadyRun = some s ∧
      s.sent.length = 1 ∧ s.Consistent := by
  have hrun : ((run (step encoderConfig 16) (init ⟨false, false⟩ true) steadyRun).map
      fun s => s.sent.length) = some 1 := by
    decide +kernel
  obtain ⟨s, hs, hlength⟩ := Option.map_eq_some_iff.mp hrun
  exact ⟨s, hs, hlength, consistent_of_steady (by decide +kernel) hs⟩

/-- The queue has room and the burst is one detent, and the message is wrong. -/
theorem not_consistent_lateRun :
    Throughout (step encoderConfig 16) (fun s e => s.Fits 16 e) (init ⟨false, false⟩ true) lateRun ∧
      ∃ s, run (step encoderConfig 16) (init ⟨false, false⟩ true) lateRun = some s ∧
        ¬ s.Consistent := by
  have hrun : ((run (step encoderConfig 16) (init ⟨false, false⟩ true) lateRun).map
      fun s => (s.startPosition, s.sent)) = some (0, [⟨1, false, false, 2⟩]) := by
    decide +kernel
  obtain ⟨s, hs, hsent⟩ := Option.map_eq_some_iff.mp hrun
  obtain ⟨hstart, hmsg⟩ := Prod.mk.inj hsent
  refine ⟨by decide +kernel, s, hs, fun h => ?_⟩
  have hposition := h [] _ [] hmsg
  rw [hstart] at hposition
  revert hposition
  decide

end Reports

end MFoES.Northbridge
