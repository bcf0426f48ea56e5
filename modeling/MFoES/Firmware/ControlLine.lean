import MFoES.Firmware.PowerSwitch
import MFoES.Lib.Reactive
import MFoES.Lib.Sampling

/-!
# The control line of the power switch

The sender pulls the line low for each pulse of a command, and then leaves it released until the
switch has taken the command.  The switch samples the line in its loop.

If no two samples are 30 ms apart, the switch executes the commands that were sent, each once and
in their order, whatever the sender does between them: pauses, and the pulses of 300 ms that the
LED follows (`commands_obeyed`).
-/

namespace MFoES.Firmware.ControlLine

open PowerSwitch Sampling

/-! ## The sender -/

/-- `PULSE_LOW` and `PULSE_GAP`. -/
def pulseLow : Nat := 30
def pulseGap : Nat := 30

/-- `ctlLow` and `ctlRelease`, with the `delay` behind it. -/
def ctlLow (ms : Nat) : Level × Nat := (.low, ms)
def ctlRelease (ms : Nat) : Level × Nat := (.high, ms)

/-- `sendPulses`. -/
def sendPulses (count : Nat) : List (Level × Nat) :=
  (List.replicate count [ctlLow pulseLow, ctlRelease pulseGap]).flatten ++ [ctlRelease 300]

/-- What the sketch does with the line. -/
inductive Action where
  /-- `followStart`, `followStop`, `brightUp`, `brightDown`, `brightReset` or `powerOff`. -/
  | command (c : Command)
  /-- `delay`, with the line released. -/
  | wait (ms : Nat)
  /-- The LED is on for 300 ms, and off for as long. -/
  | blink
deriving DecidableEq

/-- The line during an action. -/
def Action.segments : Action → List (Level × Nat)
  | .command c => sendPulses c.pulses
  | .wait ms => [ctlRelease ms]
  | .blink => [ctlLow 300, ctlRelease 300]

/-- The line during a script. -/
def segments (script : List Action) : List (Level × Nat) := script.flatMap Action.segments

/-- The commands of a script. -/
def commands (script : List Action) : List Command :=
  script.filterMap fun
    | .command c => some c
    | .wait _ => none
    | .blink => none

/-- `setup`. -/
def demo : List Action :=
  [.wait 2000, .command .brightnessDown, .wait 1000, .command .brightnessDown, .wait 1000,
    .command .fullBrightness, .wait 1000, .command .startFollow] ++ List.replicate 5 .blink ++
      [.command .stopFollow, .command .powerOff]

/-! ## The switch -/

/-- `loop`, on a level of the line and a time, with the command that it executes. -/
def react (s : PowerSwitch) (x : Level × Nat) : PowerSwitch × List Command :=
  (s.loop x.1 (Watch.millis x.2), (s.executed x.1 (Watch.millis x.2)).toList)

/-- What the commands are about. -/
structure Setting where
  isOn : Bool
  followMode : Bool
  dimLevel : UInt8
  out : Level
deriving DecidableEq

/-- What a command asks for. -/
def Setting.obey (v : Setting) : Command → Setting
  | .startFollow => { v with followMode := true }
  | .stopFollow => { v with followMode := false }
  | .brightnessUp => { v with dimLevel := if v.dimLevel < 4 then v.dimLevel + 1 else v.dimLevel }
  | .brightnessDown => { v with dimLevel := if 0 < v.dimLevel then v.dimLevel - 1 else v.dimLevel }
  | .fullBrightness => { v with dimLevel := 4 }
  | .powerOff => { v with isOn := false, followMode := false, out := .low }

/-- What the switch is set to. -/
def setting (s : PowerSwitch) : Setting := ⟨s.isOn, s.followMode, s.dimLevel, s.out⟩

/-- A switch that waits for the first pulse of a command. -/
structure Ready (s : PowerSwitch) : Prop where
  pulses : s.ctlPulses = 0
  line : s.lastCtlState = .high

/-! ## An iteration -/

/-- Setting the LED is no setting. -/
theorem setting_led (s : PowerSwitch) (b : Bool) :
    setting (if b then s.setLedSteady else s) = setting s := by
  cases b <;> rfl

theorem setting_execute (s : PowerSwitch) (c : Command) :
    setting (s.execute c) = (setting s).obey c := by
  cases c with
  | startFollow => rfl
  | stopFollow =>
      rw [execute]
      dsimp only
      split <;> rfl
  | brightnessUp =>
      refine (setting_led _ _).trans ?_
      rw [Setting.obey, setting, setting]
      split <;> rfl
  | brightnessDown =>
      refine (setting_led _ _).trans ?_
      rw [Setting.obey, setting, setting]
      split <;> rfl
  | fullBrightness => exact setting_led _ _
  | powerOff => rfl

theorem lastCtlState_execute (s : PowerSwitch) (c : Command) :
    (s.execute c).lastCtlState = s.lastCtlState := by
  cases c <;> unfold execute <;> dsimp only <;> split_ifs <;> rfl

theorem followCtl_setting (s : PowerSwitch) (ctl : Level) :
    setting (s.followCtl ctl) = setting s ∧ (s.followCtl ctl).lastCtlState = s.lastCtlState := by
  unfold followCtl
  split <;> exact ⟨rfl, rfl⟩

theorem countEdge_setting (s : PowerSwitch) (ctl : Level) (millis : UInt32) :
    setting (s.countEdge ctl millis) = setting s ∧
      (s.countEdge ctl millis).lastCtlState = ctl := by
  unfold countEdge
  split <;> exact ⟨rfl, rfl⟩

/-- An iteration sets the switch as the command says, if it executes one. -/
theorem loop_setting (s : PowerSwitch) (ctl : Level) (millis : UInt32) :
    setting (s.loop ctl millis) =
        (s.executed ctl millis).elim (setting s) (setting s).obey ∧
      (s.loop ctl millis).lastCtlState = ctl := by
  obtain ⟨hsetting, hstate⟩ := countEdge_setting s ctl millis
  obtain ⟨hfollow, hline⟩ := followCtl_setting ((s.countEdge ctl millis).pulseCommand millis) ctl
  rw [loop, hfollow, hline, executed, pulseCommand]
  dsimp only
  split
  · cases command (s.countEdge ctl millis).ctlPulses with
    | none => exact ⟨hsetting, hstate⟩
    | some c =>
        refine ⟨?_, (lastCtlState_execute _ c).trans hstate⟩
        exact (setting_execute _ c).trans (congrArg (fun v => Setting.obey v c) hsetting)
  · exact ⟨hsetting, hstate⟩

/-- Where the switch is in a burst: its setting, the pulses so far, the time of the last one, and
the line as it was sampled last. -/
structure At (v : Setting) (pulses : UInt8) (edge : Nat) (line : Level) (s : PowerSwitch) :
    Prop where
  setting : setting s = v
  pulses : s.ctlPulses = pulses
  edge : s.lastCtlTime = Watch.millis edge
  line : s.lastCtlState = line

variable {s : PowerSwitch} {v : Setting} {pulses : UInt8} {edge t : Nat} {l l' : Level}

theorem At.late (h : At v pulses edge l s) (hlow : edge ≤ t) (hhigh : t < edge + 2 ^ 32)
    (ms : UInt32) : ms < Watch.millis t - s.lastCtlTime ↔ edge + ms.toNat < t := by
  rw [h.edge, UInt32.lt_iff_toNat_lt, Watch.toNat_millis_sub hlow, Nat.mod_eq_of_lt (by omega)]
  omega

/-- Without a falling edge, an iteration executes the command that is due, if one is. -/
theorem At.stay (h : At v pulses edge l s) (hstay : ¬ (l = .high ∧ l' = .low)) :
    (s.due (Watch.millis t) = false → s.executed l' (Watch.millis t) = none ∧
        At v pulses edge l' (s.loop l' (Watch.millis t))) ∧
      (s.due (Watch.millis t) = true → s.executed l' (Watch.millis t) = command pulses ∧
        At ((command pulses).elim v v.obey) 0 edge l' (s.loop l' (Watch.millis t))) := by
  have hcount : s.countEdge l' (Watch.millis t) = { s with lastCtlState := l' } :=
    countEdge_of_stays _ (by rw [h.line]; exact hstay)
  have hdue : (s.countEdge l' (Watch.millis t)).due (Watch.millis t) = s.due (Watch.millis t) := by
    rw [hcount]
    rfl
  have hexecuted : s.executed l' (Watch.millis t) =
      if s.due (Watch.millis t) then command pulses else none := by
    rw [executed, hdue, hcount, ← h.pulses]
  obtain ⟨htime, hpulses⟩ := s.loop_ctl l' (Watch.millis t)
  obtain ⟨hsetting, hstate⟩ := loop_setting s l' (Watch.millis t)
  rw [hcount] at htime
  rw [hdue, hcount] at hpulses
  constructor
  · intro hno
    rw [hno, if_neg Bool.false_ne_true] at hexecuted hpulses
    rw [hexecuted] at hsetting
    exact ⟨hexecuted, hsetting.trans h.setting, hpulses.trans h.pulses, htime.trans h.edge, hstate⟩
  · intro hyes
    rw [hyes, if_pos rfl] at hexecuted hpulses
    rw [hexecuted, h.setting] at hsetting
    exact ⟨hexecuted, hsetting, hpulses, htime.trans h.edge, hstate⟩

/-- Nothing happens while no pulse is pending, or the burst goes on. -/
theorem At.quiet (h : At v pulses edge l s) (hstay : ¬ (l = .high ∧ l' = .low))
    (hearly : pulses = 0 ∨ edge ≤ t ∧ t ≤ edge + 200) :
    (react s (l', t)).2 = [] ∧ At v pulses edge l' (react s (l', t)).1 := by
  have hdue : s.due (Watch.millis t) = false := by
    rw [due, h.pulses, Bool.and_eq_false_iff, decide_eq_false_iff_not, decide_eq_false_iff_not]
    rcases hearly with rfl | ⟨hlow, hhigh⟩
    · exact .inl (by decide)
    · refine .inr ?_
      rw [h.late hlow (by omega) 200]
      exact Nat.not_lt.mpr hhigh
  obtain ⟨hnone, hat⟩ := (h.stay (t := t) hstay).1 hdue
  refine ⟨?_, hat⟩
  rw [react, hnone]
  rfl

/-- The command of a burst is executed once the burst has ended. -/
theorem At.fire (h : At v pulses edge l s) (hstay : ¬ (l = .high ∧ l' = .low)) (hpos : 0 < pulses)
    (hlate : edge + 200 < t) (hhigh : t < edge + 2 ^ 32) :
    (react s (l', t)).2 = (command pulses).toList ∧
      At ((command pulses).elim v v.obey) 0 edge l' (react s (l', t)).1 := by
  have hdue : s.due (Watch.millis t) = true := by
    rw [due, h.pulses, Bool.and_eq_true_iff, decide_eq_true_iff, decide_eq_true_iff,
      h.late (by omega) hhigh 200]
    exact ⟨hpos, hlate⟩
  obtain ⟨hcommand, hat⟩ := (h.stay (t := t) hstay).2 hdue
  refine ⟨?_, hat⟩
  rw [react, hcommand]

/-- A falling edge is counted. -/
theorem At.fall (h : At v pulses edge .high s)
    (hearly : pulses = 0 ∨ edge ≤ t ∧ t ≤ edge + 400) (hlast : pulses < 255) :
    (react s (.low, t)).2 = [] ∧ At v (pulses + 1) t .low (react s (.low, t)).1 := by
  have hcount := countEdge_of_falls (Watch.millis t)
    (show s.lastCtlState = .high ∧ Level.low = .low from ⟨h.line, rfl⟩)
  have hpulses : (s.countEdge .low (Watch.millis t)).ctlPulses = pulses + 1 := by
    rw [hcount]
    dsimp only
    rw [h.pulses]
    rcases hearly with rfl | ⟨hlow, hhigh⟩
    · split <;> rfl
    · rw [if_neg]
      rw [h.late hlow (by omega) 400]
      exact Nat.not_lt.mpr hhigh
  have htime : (s.countEdge .low (Watch.millis t)).lastCtlTime = Watch.millis t := by
    rw [hcount]
  have hdue : (s.countEdge .low (Watch.millis t)).due (Watch.millis t) = false := by
    rw [due, htime, UInt32.sub_self, Bool.and_eq_false_iff]
    exact .inr (by decide)
  obtain ⟨hlooptime, hlooppulses⟩ := s.loop_ctl .low (Watch.millis t)
  obtain ⟨hsetting, hstate⟩ := loop_setting s .low (Watch.millis t)
  have hexecuted : s.executed .low (Watch.millis t) = none := by
    rw [executed, hdue]
    rfl
  rw [hexecuted] at hsetting
  rw [hdue, if_neg Bool.false_ne_true] at hlooppulses
  refine ⟨?_, hsetting.trans h.setting, hlooppulses.trans hpulses, hlooptime.trans htime, hstate⟩
  rw [react, hexecuted]
  rfl

/-! ## Stretches of the line -/

/-- Samples of a line that does not fall, while no command is due. -/
theorem At.quiet_run (h : At v pulses edge l s) (l' : Level) (hstay : ¬ (l = .high ∧ l' = .low))
    (xs : List Nat) (hxs : xs ≠ [] ∨ l = l')
    (hearly : ∀ t ∈ xs, pulses = 0 ∨ edge ≤ t ∧ t ≤ edge + 200) :
    (Reactive.run react s (xs.map fun t => (l', t))).2 = [] ∧
      At v pulses edge l' (Reactive.run react s (xs.map fun t => (l', t))).1 := by
  induction xs generalizing s l with
  | nil =>
      obtain rfl := hxs.resolve_left fun h => h rfl
      exact ⟨rfl, h⟩
  | cons t xs ih =>
      rw [List.forall_mem_cons] at hearly
      obtain ⟨hnone, hat⟩ := h.quiet hstay hearly.1
      obtain ⟨hrest, hend⟩ := ih hat (by rintro ⟨rfl, h⟩; cases h) (.inr rfl) hearly.2
      refine ⟨?_, hend⟩
      rw [List.map_cons, Reactive.run, hnone]
      exact hrest

/-- Samples of a line that does not fall, until the command is executed. -/
theorem At.fire_run (h : At v pulses edge l s) (l' : Level) (hstay : ¬ (l = .high ∧ l' = .low))
    (hpos : 0 < pulses) (xs : List Nat) (hlate : ∃ t ∈ xs, edge + 200 < t)
    (hin : ∀ t ∈ xs, edge ≤ t ∧ t < edge + 2 ^ 32) :
    (Reactive.run react s (xs.map fun t => (l', t))).2 = (command pulses).toList ∧
      At ((command pulses).elim v v.obey) 0 edge l'
        (Reactive.run react s (xs.map fun t => (l', t))).1 := by
  induction xs generalizing s l with
  | nil => simp at hlate
  | cons t xs ih =>
      rw [List.forall_mem_cons] at hin
      have hstay' : ¬ (l' = .high ∧ l' = .low) := by
        rintro ⟨rfl, h⟩
        cases h
      rcases Nat.lt_or_ge (edge + 200) t with ht | ht
      · obtain ⟨hfired, hat⟩ := h.fire hstay hpos ht hin.1.2
        obtain ⟨hrest, hend⟩ := hat.quiet_run l' hstay' xs (.inr rfl) fun _ _ => .inl rfl
        refine ⟨?_, hend⟩
        rw [List.map_cons, Reactive.run, hfired]
        dsimp only
        rw [hrest, List.append_nil]
      · have hlate' : ∃ t ∈ xs, edge + 200 < t := by
          obtain ⟨t', hmem, hlt⟩ := hlate
          rcases List.mem_cons.mp hmem with rfl | hmem
          · omega
          · exact ⟨t', hmem, hlt⟩
        obtain ⟨hnone, hat⟩ := h.quiet hstay (.inr ⟨hin.1.1, ht⟩)
        obtain ⟨hrest, hend⟩ := ih hat hstay' hlate' hin.2
        refine ⟨?_, hend⟩
        rw [List.map_cons, Reactive.run, hnone]
        exact hrest

/-- The switch waits for a command. -/
def Idle (v : Setting) (s : PowerSwitch) : Prop := ∃ edge, At v 0 edge .high s

/-- So many pulses of a burst have come until a time. -/
def Burst (v : Setting) (count time : Nat) (s : PowerSwitch) : Prop :=
  ∃ edge, At v (UInt8.ofNat count) edge .high s ∧
    (count = 0 ∨ edge ≤ time ∧ time ≤ edge + 60)

/-- What the reader of a line puts out, sampled every 30 ms. -/
abbrev Reads (P : PowerSwitch → Prop) (start : Nat) (segs : List (Level × Nat))
    (out : List Command) (Q : PowerSwitch → Prop) : Prop :=
  Triple 30 react .high P start segs out Q

theorem reads_low {count : Nat} (start : Nat) (hcount : count < 255) :
    Reads (Burst v count start) start [ctlLow pulseLow] []
      (fun s => ∃ edge, At v (UInt8.ofNat (count + 1)) edge .low s ∧
        start ≤ edge ∧ edge < start + 30) := by
  refine Triple.of_stretch fun {xs s} hs hxs => ?_
  obtain ⟨edge, hat, hedge⟩ := hs
  obtain ⟨hit, hmem, -⟩ := hxs.hit start (Nat.le_refl _) (Nat.le_refl _)
  cases xs with
  | nil => cases hmem
  | cons t xs =>
      obtain ⟨hlow, hhigh⟩ := hxs.inside t List.mem_cons_self
      have hbound : start + 30 = start + (ctlLow pulseLow).2 := rfl
      have hpulses : UInt8.ofNat count < 255 := by
        rw [UInt8.lt_iff_toNat_lt, UInt8.toNat_ofNat_of_lt' (show count < 256 by omega)]
        exact hcount
      have hearly : UInt8.ofNat count = 0 ∨ edge ≤ t ∧ t ≤ edge + 400 := by
        rcases hedge with rfl | hedge
        · exact .inl rfl
        · exact .inr (by omega)
      obtain ⟨hnone, hfallen⟩ := hat.fall hearly hpulses
      obtain ⟨hrest, hend⟩ := hfallen.quiet_run .low (fun hfall => by cases hfall.1) xs (.inr rfl)
        fun t' ht' => .inr (by
          have hle := (List.pairwise_cons.mp hxs.sorted).1 t' ht'
          have hlt := (hxs.inside t' (List.mem_cons_of_mem t ht')).2
          omega)
      refine ⟨?_, t, ?_, hlow, by omega⟩
      · rw [List.map_cons, Reactive.run]
        dsimp only [ctlLow]
        rw [hnone, hrest]
        rfl
      · rw [UInt8.ofNat_add]
        exact hend

theorem reads_gap {count : Nat} (start : Nat) :
    Reads (fun s => ∃ edge, At v (UInt8.ofNat count) edge .low s ∧ start ≤ edge ∧ edge < start + 30)
      (start + 30) [ctlRelease pulseGap] [] (Burst v count (start + 60)) := by
  refine Triple.of_stretch fun {xs s} hs hxs => ?_
  obtain ⟨edge, hat, hlow, hhigh⟩ := hs
  obtain ⟨hit, hmem, -⟩ := hxs.hit (start + 30) (Nat.le_refl _) (Nat.le_refl _)
  obtain ⟨hnone, hend⟩ := hat.quiet_run .high (fun hfall => by cases hfall.2) xs
    (.inl (List.ne_nil_of_mem hmem)) fun t ht => .inr (by
      have hin := hxs.inside t ht
      have hbound : (ctlRelease pulseGap).2 = 30 := rfl
      omega)
  exact ⟨hnone, edge, hend, .inr (by omega)⟩

/-- The pulses of a command. -/
theorem reads_pulses (n count start : Nat) (hcount : count + n ≤ 255) :
    Reads (Burst v count start) start
      (List.replicate n [ctlLow pulseLow, ctlRelease pulseGap]).flatten []
        (Burst v (count + n) (start + 60 * n)) := by
  induction n generalizing count start with
  | zero => exact Triple.nil
  | succ n ih =>
      have hpulse := (reads_low (v := v) start (show count < 255 by omega)).append (reads_gap start)
      have hrest := ih (count + 1) (start + 60) (by omega)
      have hall := hpulse.append hrest
      rw [show count + 1 + n = count + (n + 1) by omega,
        show start + 60 + 60 * n = start + 60 * (n + 1) by omega] at hall
      rw [List.replicate_succ, List.flatten_cons]
      exact hall

theorem reads_silence {count : Nat} (start : Nat) (hpos : 0 < count) (hcount : count ≤ 255) :
    Reads (Burst v count start) start [ctlRelease 300] (command (UInt8.ofNat count)).toList
      (Idle ((command (UInt8.ofNat count)).elim v v.obey)) := by
  refine Triple.of_stretch fun {xs s} hs hxs => ?_
  obtain ⟨edge, hat, hedge⟩ := hs
  have hafter := hedge.resolve_left (by omega)
  have hlength : (ctlRelease 300).2 = 300 := rfl
  have hpulses : 0 < UInt8.ofNat count := by
    rw [UInt8.lt_iff_toNat_lt, UInt8.toNat_ofNat_of_lt' (show count < 256 by omega)]
    exact hpos
  obtain ⟨t, hmem, hlate, -⟩ := hxs.hit (start + 201) (by omega) (by omega)
  obtain ⟨hfired, hend⟩ := hat.fire_run .high (by simp) hpulses xs
    ⟨t, hmem, by omega⟩ fun t' ht' => by
      have hin := hxs.inside t' ht'
      omega
  exact ⟨hfired, edge, hend⟩

theorem duration_pulses (n : Nat) :
    duration (List.replicate n [ctlLow pulseLow, ctlRelease pulseGap]).flatten = 60 * n := by
  induction n with
  | zero => rfl
  | succ n ih =>
      rw [List.replicate_succ, List.flatten_cons, duration_append, ih]
      exact Nat.add_comm 60 (60 * n)

/-- A command is executed once. -/
theorem reads_command (c : Command) (start : Nat) :
    Reads (Idle v) start (sendPulses c.pulses) [c] (Idle (v.obey c)) := by
  have hcommand : command (UInt8.ofNat c.pulses) = some c := by cases c <;> rfl
  have hpos : 0 < c.pulses := by cases c <;> decide
  have hmost : c.pulses ≤ 10 := by cases c <;> decide
  have hburst := reads_pulses (v := v) c.pulses 0 start (by omega)
  rw [Nat.zero_add] at hburst
  have hsilence := reads_silence (v := v) (start + 60 * c.pulses) hpos (by omega)
  rw [hcommand] at hsilence
  rw [← duration_pulses] at hburst hsilence
  exact (hburst.append hsilence).mono (fun ⟨edge, hat⟩ => ⟨edge, hat, .inl rfl⟩) id

/-- A pause is no command. -/
theorem reads_wait (ms start : Nat) : Reads (Idle v) start [ctlRelease ms] [] (Idle v) := by
  refine Triple.of_stretch fun {xs s} hs _ => ?_
  obtain ⟨edge, hat⟩ := hs
  obtain ⟨hnone, hend⟩ := hat.quiet_run .high (by simp) xs (.inr rfl)
    fun _ _ => .inl rfl
  exact ⟨hnone, edge, hend⟩

/-- A pulse for the LED is a burst of one pulse, which is no command. -/
theorem reads_blink (start : Nat) :
    Reads (Idle v) start [ctlLow 300, ctlRelease 300] [] (Idle v) := by
  have hlow : Reads (Idle v) start [ctlLow 300] [] (fun s => ∃ edge, At v 0 edge .low s) := by
    refine Triple.of_stretch fun {xs s} hs hxs => ?_
    obtain ⟨edge, hat⟩ := hs
    have hlength : (ctlLow 300).2 = 300 := rfl
    obtain ⟨early, hearly, -, hsoon⟩ := hxs.hit start (Nat.le_refl _) (by omega)
    obtain ⟨late, hlate, hlast, -⟩ := hxs.hit (start + 231) (by omega) (by omega)
    cases xs with
    | nil => cases hearly
    | cons t xs =>
        have hfirst : t ≤ early := by
          rcases List.mem_cons.mp hearly with rfl | hmem
          · exact Nat.le_refl early
          · exact (List.pairwise_cons.mp hxs.sorted).1 early hmem
        have hmem : late ∈ xs := by
          rcases List.mem_cons.mp hlate with rfl | hmem
          · omega
          · exact hmem
        obtain ⟨hnone, hfallen⟩ := hat.fall (t := t) (.inl rfl) (by decide)
        obtain ⟨hfired, hend⟩ := hfallen.fire_run .low (fun hrise => by cases hrise.1) (by decide)
          xs ⟨late, hmem, by omega⟩ fun t' ht' => by
            have hle := (List.pairwise_cons.mp hxs.sorted).1 t' ht'
            have hin := hxs.inside t' (List.mem_cons_of_mem t ht')
            have hin' := hxs.inside t List.mem_cons_self
            omega
        refine ⟨?_, t, hend⟩
        rw [List.map_cons, Reactive.run]
        dsimp only [ctlLow]
        rw [hnone, hfired]
        rfl
  refine hlow.append (Triple.of_stretch fun {xs s} hs hxs => ?_)
  obtain ⟨edge, hat⟩ := hs
  have hduration : duration [ctlLow 300] = 300 := rfl
  have hlength : (ctlRelease 300).2 = 300 := rfl
  obtain ⟨hit, hmem, -⟩ := hxs.hit (start + 300) (by omega) (by omega)
  obtain ⟨hnone, hend⟩ := hat.quiet_run .high (fun hfall => by cases hfall.2) xs
    (.inl (List.ne_nil_of_mem hmem)) fun _ _ => .inl rfl
  exact ⟨hnone, edge, hend⟩

/-- What is sent is executed. -/
theorem reads_script (script : List Action) (start : Nat) :
    Reads (Idle v) start (segments script) (commands script)
      (Idle ((commands script).foldl Setting.obey v)) := by
  induction script generalizing v start with
  | nil => exact Triple.nil
  | cons a script ih =>
      cases a with
      | command c => exact (reads_command c start).append (ih _)
      | wait ms => exact (reads_wait ms start).append (ih _)
      | blink => exact (reads_blink start).append (ih _)

/-- However the switch samples the line, if no two samples are 30 ms apart it executes the commands
that were sent, each once and in their order, and is set as they say. -/
theorem commands_obeyed (hs : Ready s) (script : List Action) {ts : List Nat}
    (hdense : Dense 30 0 ts) (hend : ∃ t ∈ ts, duration (segments script) ≤ t) :
    (Reactive.run react s (samples (levelAt .high (segments script)) ts)).2 = commands script ∧
      setting (Reactive.run react s (samples (levelAt .high (segments script)) ts)).1 =
        (commands script).foldl Setting.obey (setting s) ∧
      Ready (Reactive.run react s (samples (levelAt .high (segments script)) ts)).1 := by
  have hidle : Idle (setting s) s :=
    ⟨s.lastCtlTime.toNat, rfl, hs.pulses, UInt32.ofNat_toNat.symm, hs.line⟩
  obtain ⟨xs, ys, rfl, hys, hout, edge, hat⟩ := reads_script script 0 _ (duration (segments script))
    ts s hidle (fun t _ => congrArg _ (Nat.zero_add t))
    ⟨⟨0, Nat.le_refl 0, hdense⟩, fun t _ => Nat.zero_le t, hend⟩ (Nat.le_of_eq (Nat.zero_add _))
  rw [Nat.zero_add] at hys
  have hrest : samples (levelAt .high (segments script)) ys = ys.map fun t => (.high, t) :=
    List.map_congr_left fun t ht => by rw [levelAt_of_duration_le (hys.from_start t ht)]
  obtain ⟨hnone, hlast⟩ := hat.quiet_run .high (by simp) ys (.inr rfl)
    fun _ _ => .inl rfl
  rw [samples_append, Reactive.run_append, hrest]
  dsimp only
  rw [hout, hnone, List.append_nil]
  exact ⟨rfl, hlast.setting, hlast.pulses, hlast.line⟩

/-- The sketch, against a switch that is on and samples every 20 ms. -/
theorem commands_obeyed_demo :
    setting (Reactive.run react { isOn := true, out := .high } (samples (levelAt .high
      (segments demo)) ((List.range 600).map (20 * ·)))).1 = ⟨false, false, 4, .low⟩ := by
  obtain ⟨-, hsetting, -⟩ := commands_obeyed (s := { isOn := true, out := .high }) ⟨rfl, rfl⟩ demo
    (show Dense 30 0 ((List.range 600).map (20 * ·)) by decide +kernel) (by decide +kernel)
  rw [hsetting]
  decide

end MFoES.Firmware.ControlLine
