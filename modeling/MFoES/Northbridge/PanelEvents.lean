import MFoES.Northbridge.Pcf8575
import MFoES.Lib.Transition

/-!
# The panel picture

The poll task samples the expanders, and posts an event for each pin whose debounced state changed.
The queue drops an event when it is full.  `panel_task` takes an event off the queue and answers it
with a packet of all buttons and toggles, unless it is of an LED.

An event of the model is a step of one of the two tasks, as far as its next access to something
shared: a debounced word, or the queue.

A packet is made up after its event was taken, so it shows what changed by then, and with it what
was dropped.  What is dropped while only LED events are on the queue is not shown.
-/

namespace MFoES.Northbridge

namespace PanelEvents

open LittleEndian Transition

/-! ## Events and packets -/

/-- `Pcf8575Msg`. -/
structure Pcf8575Msg where
  chip : Chip
  pin : Pin
  active : Bool
  port : UInt16
deriving DecidableEq

/-- What `panel_task` takes a pin for. -/
inductive Kind where
  | button
  | toggle
  | led
  | input
deriving DecidableEq

/-- The kind of a pin. -/
def kindOf (chip : Chip) (pin : Pin) : Kind :=
  if chip ≠ pcf8575LedChip then .button
  else if pinBit pin &&& pcf8575BtnMask ≠ 0 then .button
  else if pinBit pin &&& pcf8575ToggleMask ≠ 0 then .toggle
  else if pinBit pin &&& pcf8575LedMask ≠ 0 then .led
  else .input

/-- The pin is not one of the LEDs. -/
def IsInput (chip : Chip) (pin : Pin) : Prop := kindOf chip pin ≠ .led

instance (chip : Chip) : DecidablePred (IsInput chip) := fun pin =>
  inferInstanceAs (Decidable (kindOf chip pin ≠ .led))

/-- The packet that answers an event. -/
def panelPacket (msg : Pcf8575Msg) (buttons : UInt32) (toggles : UInt16) : List UInt8 :=
  [msg.chip.index, msg.pin.val.toUInt8, msg.active.toUInt8,
    (buttons &&& 0xff).toUInt8, (buttons >>> 8).toUInt8, (buttons >>> 16).toUInt8,
    toggles.toUInt8, 0]

/-- The buttons of a packet. -/
def packetButtons (packet : List UInt8) : UInt32 :=
  ofLE32 (packet.getD 3 0) (packet.getD 4 0) (packet.getD 5 0) 0

/-- The toggles of a packet. -/
def packetToggles (packet : List UInt8) : UInt16 := (packet.getD 6 0).toUInt16

/-- A packet shows the debounced words. -/
def Shows (packet : List UInt8) (stable : Chip → UInt16) : Prop :=
  packetButtons packet = pcf8575Buttons stable ∧ packetToggles packet = pcf8575Toggles stable

instance (packet : List UInt8) (stable : Chip → UInt16) : Decidable (Shows packet stable) :=
  inferInstanceAs (Decidable (_ ∧ _))

/-! ## State -/

/-- Where the poll task is. -/
inductive Poll where
  /-- Before the start-up read of a chip. -/
  | start (chip : Chip)
  /-- In `ulTaskNotifyTake`. -/
  | idle
  /-- Before a chip is read. -/
  | scan (chip : Chip)
  /-- Before the events of a chip's pins are posted. -/
  | emit (chip : Chip) (pins : List Pin)
deriving DecidableEq

/-- Where `panel_task` is. -/
inductive Panel where
  /-- Before its loop. -/
  | start
  /-- In `xQueueReceive`. -/
  | wait
  /-- Before `g_stable[0]` is read for the buttons. -/
  | low (msg : Pcf8575Msg)
  /-- Before `g_stable[PCF8575_LED_CHIP]` is read for the buttons. -/
  | high (msg : Pcf8575Msg) (w₀ : UInt16)
  /-- Before it is read for the toggles. -/
  | toggles (msg : Pcf8575Msg) (buttons : UInt16 × UInt16)
  /-- Before `dspi_send`. -/
  | send (packet : List UInt8)
deriving DecidableEq

/-- What the two tasks share, and where they are. -/
structure Picture where
  /-- `g_stable`. -/
  stable : Chip → UInt16 := fun _ => 0xffff
  /-- `g_prev`. -/
  prev : Chip → UInt16 := fun _ => 0xffff
  /-- `g_events`. -/
  events : List Pcf8575Msg := []
  poll : Poll := .start .zero
  panel : Panel := .start
  /-- The packets that `dspi_send` accepted, and if it refused one. -/
  sent : List (List UInt8) := []
  refused : Bool := false
  /-- A button or toggle pin has changed since start-up. -/
  changed : Bool := false

/-! ## Steps -/

/-- What happens on the panel. -/
inductive Event where
  /-- A step of the poll task.  A read gives a word or fails. -/
  | poll (raw : Option UInt16)
  /-- A step of `panel_task`.  A send is accepted or not. -/
  | panel (ok : Bool)
deriving DecidableEq

/-- A chip is done with. -/
def Poll.next : Chip → Poll
  | .zero => .scan .one
  | .one => .idle

namespace Picture

/-- `emit`. -/
def emit (queueDepth : Nat) (s : Picture) (chip : Chip) (pin : Pin) : List Pcf8575Msg :=
  if s.events.length < queueDepth then
    s.events ++ [⟨chip, pin, s.stable chip &&& pinBit pin = 0, s.stable chip⟩]
  else s.events

/-- `pcf8575_task`, with `scan_and_emit`. -/
def pollStep (queueDepth : Nat) (s : Picture) (raw : Option UInt16) : Picture :=
  match s.poll with
  | .start chip =>
    let value := raw.getD 0xffff
    { s with
      stable := Function.update s.stable chip value
      prev := Function.update s.prev chip value
      poll := if chip = .zero then .start .one else .idle }
  | .idle => { s with poll := .scan .zero }
  | .scan chip =>
    match raw with
    | none => { s with poll := .next chip }
    | some raw =>
      let agreed := ~~~(raw ^^^ s.prev chip)
      let diff := (s.stable chip ^^^ raw) &&& agreed
      if diff = 0 then { s with prev := Function.update s.prev chip raw, poll := .next chip }
      else { s with
        prev := Function.update s.prev chip raw
        stable := Function.update s.stable chip (acceptBits (s.stable chip) raw agreed)
        poll := .emit chip (changedPins diff)
        changed := s.changed || decide (∃ pin ∈ changedPins diff, IsInput chip pin) }
  | .emit chip [] => { s with poll := .next chip }
  | .emit chip (pin :: pins) =>
    { s with events := s.emit queueDepth chip pin, poll := .emit chip pins }

/-- `panel_task`. -/
def panelStep (s : Picture) (ok : Bool) : Option Picture :=
  match s.panel with
  | .start => some { s with panel := .wait }
  | .wait =>
    match s.events with
    | [] => none
    | msg :: events =>
      some { s with events, panel := if kindOf msg.chip msg.pin = .led then .wait else .low msg }
  | .low msg => some { s with panel := .high msg (s.stable .zero) }
  | .high msg w₀ => some { s with panel := .toggles msg (w₀, s.stable pcf8575LedChip) }
  | .toggles msg (w₀, w₁) =>
    some { s with panel := .send (panelPacket msg (buttonsOf w₀ w₁) (pcf8575Toggles s.stable)) }
  | .send packet =>
    if ok then some { s with sent := s.sent ++ [packet], panel := .wait }
    else some { s with refused := true, panel := .wait }

/-- The step of an event. -/
def step (queueDepth : Nat) (s : Picture) : Event → Option Picture
  | .poll raw => some (s.pollStep queueDepth raw)
  | .panel ok => s.panelStep ok

end Picture

/-- The poll task has yet to post the event of an input. -/
def Poll.Owes : Poll → Prop
  | .emit chip pins => ∃ pin ∈ pins, IsInput chip pin
  | _ => False

/-- The poll task is in `scan_and_emit`. -/
def Poll.Scanning : Poll → Prop
  | .scan _ => True
  | .emit _ _ => True
  | _ => False

theorem Poll.scanning_of_owes : ∀ {p : Poll}, p.Owes → p.Scanning
  | .emit _ _, _ => trivial

namespace Picture

/-- The event of an input is on the queue. -/
def Queued (s : Picture) : Prop := ∃ msg ∈ s.events, IsInput msg.chip msg.pin

instance (s : Picture) : Decidable s.Queued :=
  inferInstanceAs (Decidable (∃ msg ∈ s.events, _))

/-- The last packet shows the debounced words. -/
def ShownLast (s : Picture) : Prop := ∃ packet ∈ s.sent.getLast?, Shows packet s.stable

instance (s : Picture) : Decidable s.ShownLast :=
  inferInstanceAs (Decidable (∃ packet ∈ s.sent.getLast?, _))

/-- The packet that is made up, or else the last one, shows the debounced words as they are. -/
def Showing (s : Picture) : Prop :=
  match s.panel with
  | .start => s.ShownLast
  | .wait => s.ShownLast
  | .low _ => True
  | .high _ w₀ => w₀ = s.stable .zero
  | .toggles _ (w₀, w₁) => buttonsOf w₀ w₁ = pcf8575Buttons s.stable
  | .send packet => Shows packet s.stable

instance (s : Picture) : Decidable s.Showing :=
  match h : s.panel with
  | .start => decidable_of_iff s.ShownLast (by rw [Showing, h])
  | .wait => decidable_of_iff s.ShownLast (by rw [Showing, h])
  | .low _ => decidable_of_iff True (by rw [Showing, h])
  | .high _ w₀ => decidable_of_iff (w₀ = s.stable .zero) (by rw [Showing, h])
  | .toggles _ (w₀, w₁) =>
    decidable_of_iff (buttonsOf w₀ w₁ = pcf8575Buttons s.stable) (by rw [Showing, h])
  | .send packet => decidable_of_iff (Shows packet s.stable) (by rw [Showing, h])

/-- With the panel task blocked on an empty queue, no scan on its way and no packet refused, the
last packet is right, if anything changed. -/
def Corrected (s : Picture) : Prop :=
  s.panel = .wait → s.events = [] → ¬ s.poll.Scanning → s.refused = false →
    s.changed = false ∨ s.ShownLast

/-- The event of an input is dropped only where a packet shows the input all the same: there is
another such event on the queue, or to be posted by this scan, or the packet shows it already. -/
def Covered (queueDepth : Nat) (s : Picture) : Event → Prop
  | .poll _ =>
    match s.poll with
    | .emit chip (pin :: pins) =>
      IsInput chip pin → s.events.length < queueDepth ∨ s.Queued ∨
        (∃ pin ∈ pins, IsInput chip pin) ∨ s.Showing ∨ s.refused = true
    | _ => True
  | .panel _ => True

instance (queueDepth : Nat) (s : Picture) : DecidablePred (s.Covered queueDepth)
  | .poll _ =>
    match h : s.poll with
    | .emit chip (pin :: pins) =>
      decidable_of_iff (IsInput chip pin → s.events.length < queueDepth ∨ s.Queued ∨
        (∃ pin ∈ pins, IsInput chip pin) ∨ s.Showing ∨ s.refused = true) (by rw [Covered, h])
    | .emit _ [] => .isTrue (by rw [Covered, h]; trivial)
    | .start _ => .isTrue (by rw [Covered, h]; trivial)
    | .idle => .isTrue (by rw [Covered, h]; trivial)
    | .scan _ => .isTrue (by rw [Covered, h]; trivial)
  | .panel _ => .isTrue trivial

end Picture

/-! ## Pins and packets -/

/-- Every pin that is not of an LED is of a button or a toggle. -/
theorem isInput_iff {chip : Chip} {pin : Pin} :
    IsInput chip pin ↔ kindOf chip pin = .button ∨ kindOf chip pin = .toggle := by
  cases chip with
  | zero =>
      revert pin
      decide
  | one =>
      revert pin
      decide

theorem isInput_zero (pin : Pin) : IsInput .zero pin := by
  revert pin
  decide

theorem pinBit_of_not_isInput {pin : Pin} (h : ¬ IsInput .one pin) :
    pinBit pin &&& pcf8575BtnMask = 0 ∧ pinBit pin &&& pcf8575ToggleMask = 0 := by
  revert pin
  decide

theorem packetButtons_panelPacket (msg : Pcf8575Msg) (w₀ w₁ toggles : UInt16) :
    packetButtons (panelPacket msg (buttonsOf w₀ w₁) toggles) = buttonsOf w₀ w₁ := by
  have hlt := buttonsOf_lt w₀ w₁
  rw [← UInt32.toNat_inj]
  show (ofLE32 (buttonsOf w₀ w₁ &&& 0xff).toUInt8 (buttonsOf w₀ w₁ >>> 8).toUInt8
    (buttonsOf w₀ w₁ >>> 16).toUInt8 0).toNat = _
  rw [ofLE32_toNat, mask_toNat32, UInt32.toNat_toUInt8, UInt32.toNat_toUInt8, shift8_toNat32,
    shift16_toNat32, show (0 : UInt8).toNat = 0 from rfl]
  omega

theorem packetToggles_panelPacket (msg : Pcf8575Msg) (buttons : UInt32) (w₁ : UInt16) :
    packetToggles (panelPacket msg buttons (togglesOf w₁)) = togglesOf w₁ := by
  have hlt := togglesOf_lt w₁
  rw [← UInt16.toNat_inj]
  show (togglesOf w₁).toUInt8.toUInt16.toNat = _
  rw [UInt8.toNat_toUInt16, UInt16.toNat_toUInt8]
  omega

/-- A packet shows the words that it was made up from. -/
theorem shows_panelPacket {stable : Chip → UInt16} {msg : Pcf8575Msg} {w₀ w₁ : UInt16} :
    Shows (panelPacket msg (buttonsOf w₀ w₁) (pcf8575Toggles stable)) stable ↔
      buttonsOf w₀ w₁ = pcf8575Buttons stable := by
  rw [Shows, packetButtons_panelPacket, pcf8575Toggles, packetToggles_panelPacket]
  exact and_iff_left rfl

/-! ## Debounced words -/

/-- Two pairs of words that differ in the LEDs at most. -/
structure SameInputs (stable stable' : Chip → UInt16) : Prop where
  low : stable' .zero = stable .zero
  buttons : pcf8575Buttons stable' = pcf8575Buttons stable
  toggles : pcf8575Toggles stable' = pcf8575Toggles stable

theorem SameInputs.refl (stable : Chip → UInt16) : SameInputs stable stable := ⟨rfl, rfl, rfl⟩

/-- Where no input changed, the inputs are the same. -/
theorem SameInputs.accept {stable : Chip → UInt16} {chip : Chip} {raw agreed : UInt16}
    (h : ∀ pin ∈ changedPins ((stable chip ^^^ raw) &&& agreed), ¬ IsInput chip pin) :
    SameInputs stable
      (Function.update stable chip (acceptBits (stable chip) raw agreed)) := by
  match chip, h with
  | .zero, h =>
    -- every pin of this chip is an input, so none changed
    have hnone : (stable .zero ^^^ raw) &&& agreed &&& 0xffff = 0 :=
      and_eq_zero_of_changedPins fun pin hpin => (h pin hpin (isInput_zero pin)).elim
    have hmask : ∀ x : UInt16, ~~~x &&& 0xffff = ~~~x := by
      intro x
      exact UInt16.and_neg_one
    have heq := acceptBits_and hnone
    rw [hmask, hmask] at heq
    have hword : acceptBits (stable .zero) raw agreed = stable .zero := by
      simpa using congrArg (~~~·) heq
    rw [hword, Function.update_eq_self]
    exact .refl stable
  | .one, h =>
    have hbuttons := acceptBits_and
      (and_eq_zero_of_changedPins fun pin hpin => (pinBit_of_not_isInput (h pin hpin)).1)
    have htoggles := acceptBits_and
      (and_eq_zero_of_changedPins fun pin hpin => (pinBit_of_not_isInput (h pin hpin)).2)
    refine ⟨rfl, ?_, ?_⟩
    · show buttonsOf (stable .zero) (acceptBits (stable .one) raw agreed) = _
      rw [buttonsOf, hbuttons]
      rfl
    · show togglesOf (acceptBits (stable .one) raw agreed) = _
      rw [togglesOf, htoggles]
      rfl

namespace Picture

variable {s t : Picture}

theorem showing_congr (hpanel : t.panel = s.panel) (hsent : t.sent = s.sent)
    (hsame : SameInputs s.stable t.stable) : t.Showing ↔ s.Showing := by
  have hshows : ∀ packet, Shows packet t.stable ↔ Shows packet s.stable := by
    intro packet
    rw [Shows, Shows, hsame.buttons, hsame.toggles]
  have hlast : t.ShownLast ↔ s.ShownLast := by
    rw [ShownLast, ShownLast, hsent]
    exact exists_congr fun packet => and_congr_right fun _ => hshows packet
  rw [Showing, Showing, hpanel]
  cases s.panel with
  | start => exact hlast
  | wait => exact hlast
  | low msg => exact Iff.rfl
  | high msg w₀ =>
      show w₀ = t.stable .zero ↔ w₀ = s.stable .zero
      rw [hsame.low]
  | toggles msg w =>
      show buttonsOf w.1 w.2 = _ ↔ buttonsOf w.1 w.2 = _
      rw [hsame.buttons]
  | send packet => exact hshows packet

/-! ## What a step keeps -/

/-- What changed is shown, or will be. -/
def Accounted (s : Picture) : Prop :=
  s.changed = false ∨ s.refused = true ∨ s.Queued ∨ s.poll.Owes ∨ s.Showing

/-- Nothing changes before the first scan, and what is to be posted has changed. -/
structure Started (s : Picture) : Prop where
  start : ∀ chip, s.poll = .start chip → s.changed = false
  owes : s.poll.Owes → s.changed = true

theorem not_owes_next (chip : Chip) : ¬ (Poll.next chip).Owes := by
  cases chip with
  | zero => exact id
  | one => exact id

theorem next_ne_start (chip chip' : Chip) : Poll.next chip ≠ .start chip' := by
  cases chip with
  | zero => exact Poll.noConfusion
  | one => exact Poll.noConfusion

theorem Started.pollStep (h : s.Started) (queueDepth : Nat) (raw : Option UInt16) :
    (s.pollStep queueDepth raw).Started := by
  rw [Picture.pollStep]
  split
  · next chip hpoll =>
    refine ⟨fun _ _ => h.start chip hpoll, fun howes => ?_⟩
    cases chip with
    | zero => exact howes.elim
    | one => exact howes.elim
  · exact ⟨fun _ hpc => (nomatch hpc), fun howes => howes.elim⟩
  · next chip hpoll =>
    split
    · exact ⟨fun _ hpc => (next_ne_start _ _ hpc).elim, fun howes => (not_owes_next _ howes).elim⟩
    · next word =>
      dsimp only
      split
      · exact ⟨fun _ hpc => (next_ne_start _ _ hpc).elim,
          fun howes => (not_owes_next _ howes).elim⟩
      · refine ⟨fun _ hpc => (nomatch hpc), fun howes => ?_⟩
        have hpins : ∃ pin ∈ changedPins ((s.stable chip ^^^ word) &&& ~~~(word ^^^ s.prev chip)),
            IsInput chip pin := howes
        show (s.changed || decide _) = true
        rw [decide_eq_true hpins, Bool.or_true]
  · exact ⟨fun _ hpc => (next_ne_start _ _ hpc).elim, fun howes => (not_owes_next _ howes).elim⟩
  · next chip pin pins hpoll =>
    refine ⟨fun _ hpc => (nomatch hpc), fun howes => h.owes ?_⟩
    obtain ⟨pin', hmem, hinput⟩ : ∃ pin ∈ pins, IsInput chip pin := howes
    rw [hpoll]
    exact ⟨pin', List.mem_cons_of_mem pin hmem, hinput⟩

theorem Started.panelStep (h : s.Started) {ok : Bool} (ht : s.panelStep ok = some t) :
    t.Started := by
  rw [Picture.panelStep] at ht
  split at ht
  · cases ht
    exact ⟨h.start, h.owes⟩
  · split at ht
    · cases ht
    · cases ht
      exact ⟨h.start, h.owes⟩
  · cases ht
    exact ⟨h.start, h.owes⟩
  · cases ht
    exact ⟨h.start, h.owes⟩
  · cases ht
    exact ⟨h.start, h.owes⟩
  · split at ht
    · cases ht
      exact ⟨h.start, h.owes⟩
    · cases ht
      exact ⟨h.start, h.owes⟩

/-- A step of the poll task that posts and accepts nothing. -/
theorem Accounted.of_same (h : s.Accounted) (howes : ¬ s.poll.Owes)
    (hchanged : t.changed = s.changed) (hrefused : t.refused = s.refused)
    (hevents : t.events = s.events) (hshowing : s.Showing → t.Showing) : t.Accounted := by
  rw [Accounted, hchanged, hrefused, Queued, hevents]
  rcases h with h | h | h | h | h
  · exact .inl h
  · exact .inr (.inl h)
  · exact .inr (.inr (.inl h))
  · exact (howes h).elim
  · exact .inr (.inr (.inr (.inr (hshowing h))))

theorem Accounted.scan (h : s.Accounted) {queueDepth : Nat} {chip : Chip} {raw : Option UInt16}
    (hpoll : s.poll = .scan chip) : (s.pollStep queueDepth raw).Accounted := by
  have howes : ¬ s.poll.Owes := by
    rw [hpoll]
    exact id
  rw [Picture.pollStep, hpoll]
  cases raw with
  | none => exact h.of_same howes rfl rfl rfl id
  | some raw =>
      dsimp only
      split
      · exact h.of_same howes rfl rfl rfl id
      · by_cases hpins : ∃ pin ∈ changedPins ((s.stable chip ^^^ raw) &&& ~~~(raw ^^^ s.prev chip)),
            IsInput chip pin
        · exact .inr (.inr (.inr (.inl hpins)))
        · refine h.of_same howes ?_ rfl rfl fun hshowing => ?_
          · show (s.changed || decide _) = s.changed
            rw [decide_eq_false hpins, Bool.or_false]
          · simp only [not_exists, not_and] at hpins
            refine (showing_congr (s := s) ?_ ?_ ?_).mpr hshowing
            · rfl
            · rfl
            · exact SameInputs.accept hpins

theorem Accounted.emit (h : s.Accounted) {queueDepth : Nat} {chip : Chip} {pin : Pin}
    {pins : List Pin} (hpoll : s.poll = .emit chip (pin :: pins))
    (hcovered : IsInput chip pin → s.events.length < queueDepth ∨ s.Queued ∨
      (∃ pin ∈ pins, IsInput chip pin) ∨ s.Showing ∨ s.refused = true) :
    ({ s with
      events := s.emit queueDepth chip pin, poll := .emit chip pins } : Picture).Accounted := by
  have hqueued : s.Queued → ∃ msg ∈ s.emit queueDepth chip pin, IsInput msg.chip msg.pin := by
    rintro ⟨msg, hmem, hinput⟩
    refine ⟨msg, ?_, hinput⟩
    rw [Picture.emit]
    split
    · exact List.mem_append_left _ hmem
    · exact hmem
  rcases h with h | h | h | h | h
  · exact .inl h
  · exact .inr (.inl h)
  · exact .inr (.inr (.inl (hqueued h)))
  · rw [hpoll] at h
    by_cases hinput : IsInput chip pin
    · rcases hcovered hinput with hlt | hq | hpins | hshowing | hrefused
      · refine .inr (.inr (.inl
          ⟨⟨chip, pin, s.stable chip &&& pinBit pin = 0, s.stable chip⟩, ?_, hinput⟩))
        show _ ∈ s.emit queueDepth chip pin
        rw [Picture.emit, if_pos hlt]
        exact List.mem_append_right _ List.mem_cons_self
      · exact .inr (.inr (.inl (hqueued hq)))
      · exact .inr (.inr (.inr (.inl hpins)))
      · exact .inr (.inr (.inr (.inr hshowing)))
      · exact .inr (.inl hrefused)
    · obtain ⟨pin', hmem, hinput'⟩ := h
      rcases List.mem_cons.mp hmem with rfl | hmem
      · exact (hinput hinput').elim
      · exact .inr (.inr (.inr (.inl ⟨pin', hmem, hinput'⟩)))
  · exact .inr (.inr (.inr (.inr h)))

theorem Accounted.pollStep (h : s.Accounted) (hs : s.Started) {queueDepth : Nat}
    {raw : Option UInt16} (hcovered : s.Covered queueDepth (.poll raw)) :
    (s.pollStep queueDepth raw).Accounted := by
  cases hpoll : s.poll with
  | start chip =>
      left
      rw [Picture.pollStep, hpoll]
      exact hs.start chip hpoll
  | idle =>
      rw [Picture.pollStep, hpoll]
      refine h.of_same ?_ rfl rfl rfl id
      rw [hpoll]
      exact id
  | scan chip => exact h.scan hpoll
  | emit chip pins =>
      cases pins with
      | nil =>
          rw [Picture.pollStep, hpoll]
          refine h.of_same ?_ rfl rfl rfl id
          rw [hpoll]
          rintro ⟨pin, hmem, -⟩
          cases hmem
      | cons pin pins =>
          rw [Covered, hpoll] at hcovered
          rw [Picture.pollStep, hpoll]
          exact h.emit hpoll hcovered

theorem Accounted.panelStep (h : s.Accounted) {ok : Bool} (ht : s.panelStep ok = some t) :
    t.Accounted := by
  -- what the panel task does not touch
  have hkeep : ∀ {u : Picture}, u.changed = s.changed → u.refused = s.refused →
      u.events = s.events → u.poll = s.poll → (s.Showing → u.Showing) → u.Accounted := by
    intro u hchanged hrefused hevents hpoll hshowing
    rw [Accounted, hchanged, hrefused, Queued, hevents, hpoll]
    exact h.imp_right fun h => h.imp_right fun h => h.imp_right fun h => h.imp_right hshowing
  rw [Picture.panelStep] at ht
  split at ht
  · next hpc =>
    cases ht
    refine hkeep rfl rfl rfl rfl fun hshowing => ?_
    rw [Showing, hpc] at hshowing
    exact hshowing
  · next hpc =>
    split at ht
    · cases ht
    · next msg events hevents =>
      cases ht
      by_cases hled : kindOf msg.chip msg.pin = .led
      · rw [if_pos hled]
        rcases h with h | h | h | h | h
        · exact .inl h
        · exact .inr (.inl h)
        · obtain ⟨msg', hmem, hinput⟩ := h
          rw [hevents] at hmem
          rcases List.mem_cons.mp hmem with rfl | hmem
          · exact (hinput hled).elim
          · exact .inr (.inr (.inl ⟨msg', hmem, hinput⟩))
        · exact .inr (.inr (.inr (.inl h)))
        · rw [Showing, hpc] at h
          exact .inr (.inr (.inr (.inr h)))
      · rw [if_neg hled]
        exact .inr (.inr (.inr (.inr trivial)))
  · cases ht
    exact hkeep rfl rfl rfl rfl fun _ => rfl
  · next msg w₀ hpc =>
    cases ht
    refine hkeep rfl rfl rfl rfl fun hshowing => ?_
    rw [Showing, hpc] at hshowing
    show buttonsOf w₀ _ = _
    rw [hshowing]
    rfl
  · next msg w₀ w₁ hpc =>
    cases ht
    refine hkeep rfl rfl rfl rfl fun hshowing => ?_
    rw [Showing, hpc] at hshowing
    exact shows_panelPacket.mpr hshowing
  · next packet hpc =>
    split at ht
    · cases ht
      refine hkeep rfl rfl rfl rfl fun hshowing => ?_
      rw [Showing, hpc] at hshowing
      refine ⟨packet, ?_, hshowing⟩
      show packet ∈ (s.sent ++ [packet]).getLast?
      rw [List.getLast?_append]
      rfl
    · cases ht
      exact .inr (.inl rfl)

/-! ## Runs -/

theorem Started.init : ({} : Picture).Started := ⟨fun _ _ => rfl, fun howes => howes.elim⟩

theorem Started.step (h : s.Started) {queueDepth : Nat} {e : Event}
    (ht : s.step queueDepth e = some t) : t.Started := by
  cases e with
  | poll raw =>
      cases ht
      exact h.pollStep queueDepth raw
  | panel ok => exact h.panelStep ht

/-- What a run keeps in which every dropped input is covered. -/
theorem accounted_of_covered {queueDepth : Nat} {es : List Event}
    (h : Throughout (Picture.step queueDepth) (Covered queueDepth) {} es)
    (hrun : run (Picture.step queueDepth) {} es = some s) : s.Started ∧ s.Accounted := by
  have hstep : ∀ {u : Picture} {e : Event} {v : Picture}, u.Started ∧ u.Accounted →
      u.Covered queueDepth e → u.step queueDepth e = some v → v.Started ∧ v.Accounted := by
    intro u e v hu hcovered hv
    refine ⟨hu.1.step hv, ?_⟩
    cases e with
    | poll raw =>
        cases hv
        exact hu.2.pollStep hu.1 hcovered
    | panel ok => exact hu.2.panelStep hv
  exact run_invariant hstep ⟨Started.init, .inl rfl⟩ h hrun

theorem Accounted.corrected (h : s.Accounted) : s.Corrected := by
  intro hpanel hevents hpoll hrefused
  rcases h with h | h | h | h | h
  · exact .inl h
  · rw [hrefused] at h
    cases h
  · obtain ⟨msg, hmem, -⟩ := h
    rw [hevents] at hmem
    cases hmem
  · exact (hpoll (Poll.scanning_of_owes h)).elim
  · rw [Showing, hpanel] at h
    exact .inr h

/-- In every run in which the event of an input is dropped only where a packet shows the input all
the same, the last packet is right whenever the panel task has come to rest. -/
theorem corrected_of_covered {queueDepth : Nat} {es : List Event}
    (h : Throughout (Picture.step queueDepth) (Covered queueDepth) {} es)
    (hrun : run (Picture.step queueDepth) {} es = some s) : s.Corrected :=
  (accounted_of_covered h hrun).2.corrected

/-- Two buttons are pressed at once, and the queue takes the event of one. -/
def coveredRun : List Event :=
  [.poll none, .poll none, .poll none, .poll (some 0xfffc), .poll none, .poll none,
    .poll (some 0xfffc), .poll none, .poll none, .poll none, .poll none] ++
    List.replicate 6 (.panel true)

theorem corrected_coveredRun :
    ∃ s, run (Picture.step 1) {} coveredRun = some s ∧ s.Corrected :=
  ⟨_, rfl, @corrected_of_covered _ 1 coveredRun (by decide) rfl⟩

/-- The depth that `pcf8575_init` has by default. -/
def pcf8575QueueDepth : Nat := 16

/-- Two scans in which all LED pins read the same. -/
def blink (raw : UInt16) : List Event :=
  [.poll none, .poll (some 0xffff), .poll (some raw), .poll none, .poll (some 0xffff),
    .poll (some raw)] ++ List.replicate 5 (.poll none)

/-- LED events fill the queue before the panel task is in its loop, and then a button is pressed. -/
def droppedRun : List Event :=
  [.poll none, .poll none] ++ blink 0x0fff ++ blink 0xffff ++ blink 0x0fff ++ blink 0xffff ++
    [.poll none, .poll (some 0xfffe), .poll none, .poll none, .poll (some 0xfffe), .poll none,
      .poll none, .poll none] ++ List.replicate 17 (.panel true)

theorem not_corrected_droppedRun :
    ∃ s, run (Picture.step pcf8575QueueDepth) {} droppedRun = some s ∧ ¬ s.Corrected :=
  ⟨_, rfl, fun h => absurd (h rfl rfl id rfl) (by decide)⟩

/-! ## The condition is exact -/

/-- Something changed that no packet shows or will show. -/
structure Lost (s : Picture) : Prop where
  changed : s.changed = true
  refused : s.refused = false
  queued : ¬ s.Queued
  owes : ¬ s.poll.Owes
  showing : ¬ s.Showing
  started : ∀ chip, s.poll ≠ .start chip

end Picture

/-- What a scan has left before it reads a chip. -/
def chipsLeft : Chip → Nat
  | .zero => 2
  | .one => 1

/-- What the poll task has left of its scan. -/
def Poll.left : Poll → Nat
  | .start _ => 0
  | .idle => 0
  | .scan chip => chipsLeft chip
  | .emit chip pins => chipsLeft chip + 2 * pins.length

/-- What the panel task has left before it waits. -/
def Panel.left : Panel → Nat
  | .start => 1
  | .wait => 0
  | .low _ => 4
  | .high _ _ => 3
  | .toggles _ _ => 2
  | .send _ => 1

theorem Poll.left_next (chip : Chip) : (Poll.next chip).left < chipsLeft chip := by
  cases chip with
  | zero => decide
  | one => decide

namespace Picture

variable {s : Picture}

/-- What is left to do before the panel task is blocked. -/
def left (s : Picture) : Nat := s.poll.left + s.events.length + s.panel.left

/-- The poll task ends its scan without reading another chip. -/
theorem Lost.poll (h : s.Lost) (queueDepth : Nat) (hscanning : s.poll.Scanning) :
    (s.pollStep queueDepth none).Lost ∧ (s.pollStep queueDepth none).left < s.left := by
  obtain ⟨hchanged, hrefused, hqueued, howes, hshowing, -⟩ := h
  rw [Picture.pollStep]
  cases hpoll : s.poll with
  | start chip =>
      rw [hpoll] at hscanning
      exact hscanning.elim
  | idle =>
      rw [hpoll] at hscanning
      exact hscanning.elim
  | scan chip =>
      have hnext := Poll.left_next chip
      refine ⟨⟨hchanged, hrefused, hqueued, not_owes_next chip, hshowing, next_ne_start chip⟩, ?_⟩
      rw [left, left, hpoll]
      exact Nat.add_lt_add_right (Nat.add_lt_add_right hnext _) _
  | emit chip pins =>
      cases pins with
      | nil =>
          have hnext := Poll.left_next chip
          refine ⟨⟨hchanged, hrefused, hqueued, not_owes_next chip, hshowing, next_ne_start chip⟩,
            ?_⟩
          rw [left, left, hpoll]
          exact Nat.add_lt_add_right (Nat.add_lt_add_right hnext _) _
      | cons pin pins =>
          rw [hpoll] at howes
          have hled : ¬ IsInput chip pin := fun hinput => howes ⟨pin, List.mem_cons_self, hinput⟩
          refine ⟨⟨hchanged, hrefused, ?_, ?_, hshowing, fun _ => Poll.noConfusion⟩, ?_⟩
          · rintro ⟨msg, hmem, hinput⟩
            change msg ∈ s.emit queueDepth chip pin at hmem
            rw [Picture.emit] at hmem
            split at hmem
            · rcases List.mem_append.mp hmem with hmem | hmem
              · exact hqueued ⟨msg, hmem, hinput⟩
              · rw [List.mem_singleton.mp hmem] at hinput
                exact hled hinput
            · exact hqueued ⟨msg, hmem, hinput⟩
          · rintro ⟨pin', hmem, hinput⟩
            exact howes ⟨pin', List.mem_cons_of_mem pin hmem, hinput⟩
          · have hlen : (s.emit queueDepth chip pin).length ≤ s.events.length + 1 := by
              rw [Picture.emit]
              split
              · rw [List.length_append, List.length_singleton]
              · exact Nat.le_succ _
            rw [left, left, hpoll]
            show chipsLeft chip + 2 * pins.length + (s.emit queueDepth chip pin).length +
              s.panel.left < chipsLeft chip + 2 * (pins.length + 1) + s.events.length + s.panel.left
            omega

/-- The panel task goes on to where it is blocked. -/
theorem Lost.panel (h : s.Lost) (hrest : ¬ (s.panel = .wait ∧ s.events = [])) :
    ∃ t, s.panelStep true = some t ∧ t.Lost ∧ t.left < s.left := by
  obtain ⟨hchanged, hrefused, hqueued, howes, hshowing, hstarted⟩ := h
  rw [Showing] at hshowing
  cases hpanel : s.panel with
  | start =>
      rw [hpanel] at hshowing
      refine ⟨{ s with panel := .wait }, by rw [Picture.panelStep, hpanel],
        ⟨hchanged, hrefused, hqueued, howes, hshowing, hstarted⟩, ?_⟩
      rw [left, left, hpanel]
      exact Nat.lt_succ_self _
  | wait =>
      rw [hpanel] at hshowing
      cases hevents : s.events with
      | nil => exact (hrest ⟨hpanel, hevents⟩).elim
      | cons msg events =>
          have hled : kindOf msg.chip msg.pin = .led := by
            by_contra hinput
            exact hqueued ⟨msg, by rw [hevents]; simp, hinput⟩
          refine ⟨{ s with events, panel := .wait },
            by rw [Picture.panelStep, hpanel, hevents]; simp [hled],
            ⟨hchanged, hrefused, ?_, howes, hshowing, hstarted⟩, ?_⟩
          · rintro ⟨msg', hmem, hinput⟩
            exact hqueued ⟨msg', by rw [hevents]; exact List.mem_cons_of_mem _ hmem, hinput⟩
          · rw [left, left, hpanel, hevents]
            show s.poll.left + events.length + 0 < s.poll.left + (events.length + 1) + 0
            omega
  | low msg =>
      rw [hpanel] at hshowing
      exact (hshowing trivial).elim
  | high msg w₀ =>
      rw [hpanel] at hshowing
      refine ⟨{ s with panel := .toggles msg (w₀, s.stable pcf8575LedChip) },
        by rw [Picture.panelStep, hpanel],
        ⟨hchanged, hrefused, hqueued, howes, fun heq => hshowing (buttonsOf_inj heq), hstarted⟩, ?_⟩
      rw [left, left, hpanel]
      exact Nat.lt_succ_self _
  | toggles msg w =>
      rw [hpanel] at hshowing
      refine ⟨{ s with
          panel := .send (panelPacket msg (buttonsOf w.1 w.2) (pcf8575Toggles s.stable)) },
        by rw [Picture.panelStep, hpanel],
        ⟨hchanged, hrefused, hqueued, howes, fun heq => hshowing (shows_panelPacket.mp heq),
          hstarted⟩, ?_⟩
      rw [left, left, hpanel]
      exact Nat.lt_succ_self _
  | send packet =>
      rw [hpanel] at hshowing
      refine ⟨{ s with sent := s.sent ++ [packet], panel := .wait },
        by rw [Picture.panelStep, hpanel]; rfl,
        ⟨hchanged, hrefused, hqueued, howes, ?_, hstarted⟩, ?_⟩
      · rintro ⟨packet', hmem, hshows⟩
        change packet' ∈ (s.sent ++ [packet]).getLast? at hmem
        rw [List.getLast?_append] at hmem
        cases hmem
        exact hshowing hshows
      · rw [left, left, hpanel]
        exact Nat.lt_succ_self _

theorem Lost.exists_not_corrected (queueDepth : Nat) (h : s.Lost) :
    ∃ fs t, run (Picture.step queueDepth) s fs = some t ∧ ¬ t.Corrected := by
  -- on what is left to do
  obtain ⟨n, hn⟩ : ∃ n, s.left = n := ⟨_, rfl⟩
  induction n using Nat.strong_induction_on generalizing s with
  | _ n ih =>
      by_cases hscanning : s.poll.Scanning
      · obtain ⟨hlost, hlt⟩ := h.poll queueDepth hscanning
        obtain ⟨fs, t, hrun, ht⟩ := ih _ (hn ▸ hlt) hlost rfl
        exact ⟨.poll none :: fs, t, hrun, ht⟩
      · by_cases hrest : s.panel = .wait ∧ s.events = []
        · refine ⟨[], s, rfl, fun hcorrected => ?_⟩
          rcases hcorrected hrest.1 hrest.2 hscanning h.refused with hchanged | hshown
          · rw [h.changed] at hchanged
            cases hchanged
          · refine h.showing ?_
            rw [Showing, hrest.1]
            exact hshown
        · obtain ⟨u, hstep, hlost, hlt⟩ := h.panel hrest
          have hpanel : s.step queueDepth (.panel true) = some u := hstep
          obtain ⟨fs, hfs⟩ := exists_run_cons hpanel (ih _ (hn ▸ hlt) hlost rfl)
          exact ⟨.panel true :: fs, hfs⟩

/-- The first time that the event of an input is dropped and no packet shows the input, the run can
come to rest with a last packet that is wrong. -/
theorem exists_not_corrected {queueDepth : Nat} {es : List Event} {e : Event}
    (h : Throughout (Picture.step queueDepth) (Covered queueDepth) {} es)
    (hrun : run (Picture.step queueDepth) {} es = some s) (he : ¬ s.Covered queueDepth e) :
    ∃ fs t, run (Picture.step queueDepth) s (e :: fs) = some t ∧ ¬ t.Corrected := by
  cases e with
  | poll raw =>
      rw [Covered] at he
      split at he
      · next chip pin pins hpoll =>
        simp only [Classical.not_imp, not_or] at he
        obtain ⟨hinput, hfull, hqueued, hpins, hshowing, hrefused⟩ := he
        have howes : s.poll.Owes := by
          rw [hpoll]
          exact ⟨pin, List.mem_cons_self, hinput⟩
        have hchanged := (accounted_of_covered h hrun).1.owes howes
        have hlost : ({ s with poll := .emit chip pins } : Picture).Lost :=
          ⟨hchanged, Bool.eq_false_iff.mpr hrefused, hqueued, hpins, hshowing,
            fun _ => Poll.noConfusion⟩
        have hstep : s.step queueDepth (.poll raw) = some { s with poll := .emit chip pins } := by
          rw [Picture.step, Picture.pollStep, hpoll]
          show some { s with events := s.emit queueDepth chip pin, poll := .emit chip pins } = _
          rw [Picture.emit, if_neg hfull]
        exact exists_run_cons hstep (hlost.exists_not_corrected queueDepth)
      · exact (he trivial).elim
  | panel ok => exact (he trivial).elim

end Picture
end PanelEvents
end MFoES.Northbridge
