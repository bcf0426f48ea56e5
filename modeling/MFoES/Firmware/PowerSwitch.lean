import MFoES.Lib.Transition
import Mathlib.Algebra.Group.Nat.Defs

/-!
# The power switch

The controller of the power switch samples a line on which commands are sent as bursts of pulses.
A falling edge counts as a pulse of the burst before it if it comes at most 400 ms later, and 200
ms without an edge end the burst: the number of pulses says what to do.

The counter has eight bits, and the time is milliseconds in 32 bits.  `Watch` keeps the number of
edges and the time beside them as they are.  As long as no edge is taken into an old burst because
the milliseconds have come around, the counter is the number of edges modulo 256 (`Synced`).  So
commands are obeyed exactly if no burst of 256 edges or more ends on the number of a command
(`exact_iff`).
-/

namespace MFoES.Firmware

open Transition

/-- `HIGH` and `LOW`. -/
inductive Level
  | high
  | low
  deriving DecidableEq

/-- What the pulses can ask for. -/
inductive Command
  | startFollow
  | stopFollow
  | brightnessUp
  | brightnessDown
  | fullBrightness
  | powerOff
  deriving DecidableEq

/-- The pulses of a command. -/
def Command.pulses : Command → Nat
  | .startFollow => 3
  | .stopFollow => 4
  | .brightnessUp => 5
  | .brightnessDown => 6
  | .fullBrightness => 7
  | .powerOff => 10

/-- The variables of the sketch that decoding uses, and its outputs. -/
structure PowerSwitch where
  isOn : Bool := false
  followMode : Bool := false
  lastCtlTime : UInt32 := 0
  ctlPulses : UInt8 := 0
  lastCtlState : Level := .high
  dimLevel : UInt8 := 4
  /-- What was written to `OUT`. -/
  out : Level := .low
  /-- What was written to `LED`, as a PWM value. -/
  led : UInt8 := 0
  deriving DecidableEq

namespace PowerSwitch

/-! ## The sketch -/

/-- `setLedSteady`. -/
def setLedSteady (s : PowerSwitch) : PowerSwitch :=
  { s with led := [30, 80, 140, 200, 255].getD s.dimLevel.toNat 0 }

/-- The edge detection at the head of `loop`. -/
def countEdge (s : PowerSwitch) (ctl : Level) (millis : UInt32) : PowerSwitch :=
  if s.lastCtlState = .high ∧ ctl = .low then
    { s with
      ctlPulses := if 400 < millis - s.lastCtlTime then 1 else s.ctlPulses + 1
      lastCtlTime := millis
      lastCtlState := ctl }
  else { s with lastCtlState := ctl }

theorem countEdge_of_falls {s : PowerSwitch} {ctl : Level} (millis : UInt32)
    (h : s.lastCtlState = .high ∧ ctl = .low) : s.countEdge ctl millis =
      { s with
        ctlPulses := if 400 < millis - s.lastCtlTime then 1 else s.ctlPulses + 1
        lastCtlTime := millis
        lastCtlState := ctl } := if_pos h

theorem countEdge_of_stays {s : PowerSwitch} {ctl : Level} (millis : UInt32)
    (h : ¬ (s.lastCtlState = .high ∧ ctl = .low)) :
    s.countEdge ctl millis = { s with lastCtlState := ctl } := if_neg h

/-- `ctlPulses > 0 && (millis() - lastCtlTime > 200)`. -/
def due (s : PowerSwitch) (millis : UInt32) : Bool :=
  decide (0 < s.ctlPulses) && decide (200 < millis - s.lastCtlTime)

/-- The command that a number of pulses stands for. -/
def command (ctlPulses : UInt8) : Option Command :=
  if ctlPulses = 3 then some .startFollow
  else if ctlPulses = 4 then some .stopFollow
  else if ctlPulses = 5 then some .brightnessUp
  else if ctlPulses = 6 then some .brightnessDown
  else if ctlPulses = 7 then some .fullBrightness
  else if ctlPulses = 10 then some .powerOff
  else none

/-- What a command does. -/
def execute (s : PowerSwitch) : Command → PowerSwitch
  | .startFollow => { s with followMode := true }
  | .stopFollow =>
      let s := { s with followMode := false }
      if s.isOn then s.setLedSteady else { s with led := 0 }
  | .brightnessUp =>
      let s := if s.dimLevel < 4 then { s with dimLevel := s.dimLevel + 1 } else s
      if s.isOn && !s.followMode then s.setLedSteady else s
  | .brightnessDown =>
      let s := if 0 < s.dimLevel then { s with dimLevel := s.dimLevel - 1 } else s
      if s.isOn && !s.followMode then s.setLedSteady else s
  | .fullBrightness =>
      let s := { s with dimLevel := 4 }
      if s.isOn && !s.followMode then s.setLedSteady else s
  | .powerOff => { s with isOn := false, followMode := false, out := .low, led := 0 }

/-- The block behind `// pulse command`. -/
def pulseCommand (s : PowerSwitch) (millis : UInt32) : PowerSwitch :=
  if s.due millis then { (command s.ctlPulses).elim s s.execute with ctlPulses := 0 } else s

/-- `followMode` lets the line drive the LED. -/
def followCtl (s : PowerSwitch) (ctl : Level) : PowerSwitch :=
  if s.followMode then { s with led := if ctl = .low then 255 else 0 } else s

/-- `loop`, while the button is not pressed, at one reading of the clock. -/
def loop (s : PowerSwitch) (ctl : Level) (millis : UInt32) : PowerSwitch :=
  ((s.countEdge ctl millis).pulseCommand millis).followCtl ctl

/-- The command that an iteration executes. -/
def executed (s : PowerSwitch) (ctl : Level) (millis : UInt32) : Option Command :=
  let s := s.countEdge ctl millis
  if s.due millis then command s.ctlPulses else none

theorem command_eq_some {p : UInt8} {c : Command} : command p = some c ↔ p.toNat = c.pulses := by
  have hlit : ∀ {n : UInt8}, p = n ↔ p.toNat = n.toNat := UInt8.toNat_inj.symm
  unfold command
  simp only [hlit]
  split_ifs with h₃ h₄ h₅ h₆ h₇ h₁₀
  all_goals
    cases c <;> simp_all [Command.pulses]

@[simp] theorem lastCtlTime_setLedSteady (s : PowerSwitch) :
    s.setLedSteady.lastCtlTime = s.lastCtlTime := rfl

/-- Executing a command leaves the time of the last edge. -/
theorem lastCtlTime_execute (s : PowerSwitch) (c : Command) :
    (s.execute c).lastCtlTime = s.lastCtlTime := by
  cases c <;> unfold execute <;> dsimp only <;> split_ifs <;> rfl

theorem followCtl_ctl (s : PowerSwitch) (ctl : Level) :
    (s.followCtl ctl).lastCtlTime = s.lastCtlTime ∧ (s.followCtl ctl).ctlPulses = s.ctlPulses := by
  unfold followCtl
  split <;> exact ⟨rfl, rfl⟩

/-- Where an iteration leaves the decoding. -/
theorem loop_ctl (s : PowerSwitch) (ctl : Level) (millis : UInt32) :
    (s.loop ctl millis).lastCtlTime = (s.countEdge ctl millis).lastCtlTime ∧
      (s.loop ctl millis).ctlPulses =
        if (s.countEdge ctl millis).due millis then 0 else (s.countEdge ctl millis).ctlPulses := by
  obtain ⟨htime, hpulses⟩ := ((s.countEdge ctl millis).pulseCommand millis).followCtl_ctl ctl
  rw [loop, htime, hpulses, pulseCommand]
  split
  · refine ⟨?_, rfl⟩
    cases hc : command (s.countEdge ctl millis).ctlPulses with
    | none => rfl
    | some c => exact lastCtlTime_execute _ c
  · exact ⟨rfl, rfl⟩

end PowerSwitch

/-! ## The line as it is -/

/-- A sample of the line, so many milliseconds after the one before. -/
structure Sample where
  ctl : Level
  wait : Nat

/-- The switch, with the time, the time of the last edge, and the edges of the burst.  None of them
comes around. -/
structure Watch where
  switch : PowerSwitch
  now : Nat
  lastEdge : Nat
  burst : Nat
  deriving DecidableEq

namespace Watch

/-- `millis()` at a time. -/
def millis (time : Nat) : UInt32 := UInt32.ofNat time

/-- The line falls with a sample. -/
def Falls (w : Watch) (x : Sample) : Prop := w.switch.lastCtlState = .high ∧ x.ctl = .low

instance (w : Watch) (x : Sample) : Decidable (w.Falls x) := inferInstanceAs (Decidable (_ ∧ _))

/-- The time since the last edge. -/
def gap (w : Watch) (x : Sample) : Nat := w.now + x.wait - w.lastEdge

/-- The edges of the burst, with that of the sample.  An edge later than 400 ms after the one
before is the first of a burst. -/
def counted (w : Watch) (x : Sample) : Nat :=
  if w.Falls x then (if 400 < w.gap x then 1 else w.burst + 1) else w.burst

/-- The switch evaluates the pulses. -/
def evaluates (w : Watch) (x : Sample) : Bool :=
  (w.switch.countEdge x.ctl (millis (w.now + x.wait))).due (millis (w.now + x.wait))

/-- An iteration of `loop`.  A burst ends where the pulses are evaluated. -/
def step (w : Watch) (x : Sample) : Option Watch :=
  some {
    switch := w.switch.loop x.ctl (millis (w.now + x.wait))
    now := w.now + x.wait
    lastEdge := if w.Falls x then w.now + x.wait else w.lastEdge
    burst := if w.evaluates x then 0 else w.counted x }

/-- The command that the switch executes with a sample. -/
def executed (w : Watch) (x : Sample) : Option Command :=
  w.switch.executed x.ctl (millis (w.now + x.wait))

/-- What is executed is the command of the burst that ends. -/
def Exact (w : Watch) (x : Sample) : Prop := ∀ c, w.executed x = some c → w.counted x = c.pulses

/-- An edge late enough for a new burst is late for the switch too, or no pulse is pending. -/
def NoTurn (w : Watch) (x : Sample) : Prop :=
  w.Falls x → 400 < w.gap x → 400 < w.gap x % 2 ^ 32 ∨ w.switch.ctlPulses = 0

/-- A burst that is evaluated has fewer than 256 edges, or a number of them that is no command's
modulo 256. -/
def Short (w : Watch) (x : Sample) : Prop :=
  w.evaluates x = true → w.counted x < 256 ∨ ∀ c : Command, w.counted x % 256 ≠ c.pulses

instance (w : Watch) (x : Sample) : Decidable (w.NoTurn x) :=
  inferInstanceAs (Decidable (_ → _ → _))

/-- The commands. -/
def commands : List Command :=
  [.startFollow, .stopFollow, .brightnessUp, .brightnessDown, .fullBrightness, .powerOff]

theorem forall_command {P : Command → Prop} : (∀ c, P c) ↔ ∀ c ∈ commands, P c :=
  ⟨fun h c _ => h c, fun h c => h c (by cases c <;> decide)⟩

instance (w : Watch) (x : Sample) : Decidable (w.Short x) :=
  have : Decidable (∀ c : Command, w.counted x % 256 ≠ c.pulses) :=
    decidable_of_iff' _ forall_command
  inferInstanceAs (Decidable (_ → _ ∨ _))

/-- No pulse is pending. -/
structure Fresh (w : Watch) : Prop where
  pulses : w.switch.ctlPulses = 0
  burst : w.burst = 0
  time : w.switch.lastCtlTime = millis w.lastEdge
  before : w.lastEdge ≤ w.now

/-- The counter is the number of edges modulo 256. -/
structure Synced (w : Watch) : Prop where
  pulses : w.switch.ctlPulses.toNat = w.burst % 256
  time : w.switch.lastCtlTime = millis w.lastEdge
  before : w.lastEdge ≤ w.now

theorem Fresh.synced {w : Watch} (h : w.Fresh) : w.Synced where
  pulses := by rw [h.pulses, h.burst]; rfl
  time := h.time
  before := h.before

/-! ## One iteration -/

/-- The switch measures times modulo `2 ^ 32`. -/
theorem toNat_millis_sub {s t : Nat} (h : s ≤ t) :
    (millis t - millis s).toNat = (t - s) % 2 ^ 32 := by
  rw [millis, millis, UInt32.toNat_sub]
  simp only [UInt32.toNat_ofNat']
  omega

variable {w t : Watch} {x : Sample}

/-- Counting an edge keeps the counter in step. -/
theorem Synced.countEdge (h : w.Synced) (hturn : w.NoTurn x) :
    (w.switch.countEdge x.ctl (millis (w.now + x.wait))).ctlPulses.toNat = w.counted x % 256 ∧
      (w.switch.countEdge x.ctl (millis (w.now + x.wait))).lastCtlTime =
        millis (if w.Falls x then w.now + x.wait else w.lastEdge) := by
  have hpulses := h.pulses
  have hgap : (millis (w.now + x.wait) - w.switch.lastCtlTime).toNat = w.gap x % 2 ^ 32 := by
    rw [h.time]
    exact toNat_millis_sub (Nat.le_add_right_of_le h.before)
  have hlate : (400 : UInt32) < millis (w.now + x.wait) - w.switch.lastCtlTime ↔
      400 < w.gap x % 2 ^ 32 := by
    rw [UInt32.lt_iff_toNat_lt, hgap]
    rfl
  rcases Decidable.em (w.Falls x) with hfall | hstay
  · rw [counted, if_pos hfall, if_pos hfall, PowerSwitch.countEdge_of_falls _ hfall]
    refine ⟨?_, rfl⟩
    dsimp only
    rcases Nat.lt_or_ge 400 (w.gap x % 2 ^ 32) with hcode | hcode
    · -- the switch begins a burst, and so does the line
      have hreal : 400 < w.gap x := Nat.lt_of_lt_of_le hcode (Nat.mod_le _ _)
      rw [if_pos (hlate.mpr hcode), if_pos hreal]
      rfl
    · rw [if_neg (mt hlate.mp (Nat.not_lt.mpr hcode)), UInt8.toNat_add, hpulses]
      rcases Nat.lt_or_ge 400 (w.gap x) with hreal | hreal
      · -- the milliseconds came around, so no pulse is pending
        have hzero : w.switch.ctlPulses = 0 :=
          (hturn hfall hreal).resolve_left (Nat.not_lt.mpr hcode)
        rw [hzero] at hpulses
        rw [if_pos hreal, ← hpulses]
        rfl
      · rw [if_neg (Nat.not_lt.mpr hreal)]
        exact Nat.mod_add_mod w.burst 256 1
  · rw [counted, if_neg hstay, if_neg hstay, PowerSwitch.countEdge_of_stays _ hstay]
    exact ⟨hpulses, h.time⟩

theorem Synced.step (h : w.Synced) (hturn : w.NoTurn x) (hstep : w.step x = some t) :
    t.Synced := by
  obtain ⟨hpulses, htime⟩ := h.countEdge hturn
  obtain ⟨hloopTime, hloopPulses⟩ := w.switch.loop_ctl x.ctl (millis (w.now + x.wait))
  cases hstep
  refine ⟨?_, hloopTime.trans htime, ?_⟩
  · dsimp only
    rw [hloopPulses, evaluates]
    split
    · rfl
    · exact hpulses
  · dsimp only
    split
    · exact Nat.le_refl _
    · exact Nat.le_add_right_of_le h.before

/-- What is executed is what the number of edges stands for modulo 256. -/
theorem Synced.executed_eq_some (h : w.Synced) (hturn : w.NoTurn x) {c : Command} :
    w.executed x = some c ↔ w.evaluates x = true ∧ w.counted x % 256 = c.pulses := by
  rw [← (h.countEdge hturn).1, ← PowerSwitch.command_eq_some]
  unfold executed PowerSwitch.executed evaluates
  dsimp only
  split
  next hdue => simp [hdue]
  next hdue => simp [hdue]

theorem Command.pulses_lt (c : Command) : c.pulses < 256 := by
  cases c <;> decide

/-- An iteration is exact unless a long burst ends on the number of a command. -/
theorem Synced.exact_iff_short (h : w.Synced) (hturn : w.NoTurn x) : w.Exact x ↔ w.Short x := by
  constructor
  · intro hexact heval
    rw [or_iff_not_imp_right, not_forall]
    rintro ⟨c, hc⟩
    have hmod := not_not.mp hc
    rw [hexact c ((h.executed_eq_some hturn).mpr ⟨heval, hmod⟩)]
    exact Command.pulses_lt c
  · intro hshort c hc
    obtain ⟨heval, hmod⟩ := (h.executed_eq_some hturn).mp hc
    rcases hshort heval with hlt | hnone
    · rw [← hmod, Nat.mod_eq_of_lt hlt]
    · exact absurd hmod (hnone c)

/-! ## Every run -/

/-- While no edge is taken into an old burst because the milliseconds came around, every command
is that of the burst before it exactly if no burst of 256 edges or more ends on the number of a
command. -/
theorem exact_iff {xs : List Sample} (hfresh : w.Fresh) (hturn : Throughout step NoTurn w xs) :
    Throughout step Exact w xs ↔ Throughout step Short w xs := by
  have hiff : Throughout step (fun w x => w.NoTurn x ∧ (w.Exact x ↔ w.Short x)) w xs :=
    throughout_mono (fun h hP hstep => h.step hP hstep)
      (fun h hP => ⟨hP, h.exact_iff_short hP⟩) hfresh.synced hturn
  exact throughout_congr (throughout_mono (I := fun _ => True) (fun _ _ _ => trivial)
    (fun _ hP => hP.2) trivial hiff)

/-- A pulse, 20 ms after the one before. -/
def pulse : List Sample := [⟨.low, 10⟩, ⟨.high, 10⟩]

/-- So many pulses. -/
def pulses (n : Nat) : List Sample := (List.replicate n pulse).flatten

/-- A switch that is on, after so many pulses. -/
def after (n : Nat) : Watch where
  switch := {
    isOn := true, out := .high, led := 255
    lastCtlTime := millis (20 * n - 10), ctlPulses := UInt8.ofNat n }
  now := 20 * n
  lastEdge := 20 * n - 10
  burst := n

theorem run_pulses {n : Nat} (h : n ≤ 266) : run step (after 0) (pulses n) = some (after n) := by
  have hpulse : ∀ m < 266, run step (after m) pulse = some (after (m + 1)) := by decide +kernel
  induction n with
  | zero => rfl
  | succ n ih =>
      have hmore : pulses (n + 1) = pulses n ++ pulse := by
        rw [pulses, List.replicate_succ', List.flatten_concat]
        rfl
      rw [hmore]
      exact run_trans (ih (Nat.le_of_succ_le h)) (hpulse n h)

/-- Three pulses, and the pause after them. -/
theorem exact_pulses : Throughout step Exact (after 0) (pulses 3 ++ [⟨.high, 201⟩]) :=
  (exact_iff ⟨rfl, rfl, rfl, Nat.le_refl 0⟩ (by decide)).mpr (by decide)

/-- A burst of 266 edges, and the pause after it, cut the power. -/
theorem not_exact :
    run step (after 0) (pulses 266) = some (after 266) ∧
      (after 266).counted ⟨.high, 201⟩ = 266 ∧
      (after 266).executed ⟨.high, 201⟩ = some .powerOff ∧
      ¬ Throughout step Exact (after 0) (pulses 266 ++ [⟨.high, 201⟩]) := by
  have hrun := run_pulses (Nat.le_refl 266)
  have hcounted : (after 266).counted ⟨.high, 201⟩ = 266 := by decide
  have hexecuted : (after 266).executed ⟨.high, 201⟩ = some .powerOff := by decide
  refine ⟨hrun, hcounted, hexecuted, fun hexact => ?_⟩
  have hten := (throughout_end hexact hrun).1 _ hexecuted
  rw [hcounted] at hten
  exact absurd hten (by decide)

end Watch

end MFoES.Firmware
