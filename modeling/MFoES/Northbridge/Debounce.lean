import MFoES.Lib.Debounce
import MFoES.Northbridge.PanelEvents

/-!
# The debounced pins

`scan_and_emit` filters the sixteen pins of a chip at once, with the words of
the last sample and of the accepted state.  A run of the panel is watched here:
the word that started each chip, the samples that were read since, the events
that were emitted and those that `panel_task` took from the queue.

Each bit of the accepted words is the filter of its own samples, and the events
of each pin are the changes of its bit.
-/

namespace MFoES.Northbridge.PanelEvents

open Transition Debounce

/-- The level of a pin. -/
def level (pin : Pin) (word : UInt16) : Bool := word.toBitVec.getLsbD pin

/-- A run of the panel that is watched. -/
structure Watched where
  picture : Picture := {}
  /-- The words that the chips started with. -/
  seed : Chip → UInt16 := fun _ => 0xffff
  /-- The words read since, without the failed reads. -/
  samples : Chip → List UInt16 := fun _ => []
  /-- The events that were emitted, and those that were taken from the queue. -/
  emitted : List Pcf8575Msg := []
  taken : List Pcf8575Msg := []

/-- The event of a pin. -/
def Picture.pinMsg (s : Picture) (chip : Chip) (pin : Pin) : Pcf8575Msg :=
  ⟨chip, pin, s.stable chip &&& pinBit pin = 0, s.stable chip⟩

namespace Watched

/-- What a step of the panel adds to what is known of it. -/
def note (w : Watched) : Event → Watched
  | .poll raw =>
    match w.picture.poll, raw with
    | .start chip, raw => { w with seed := Function.update w.seed chip (raw.getD 0xffff) }
    | .scan chip, some raw =>
      { w with samples := Function.update w.samples chip (w.samples chip ++ [raw]) }
    | .emit chip (pin :: _), _ => { w with emitted := w.emitted ++ [w.picture.pinMsg chip pin] }
    | _, _ => w
  | .panel _ =>
    match w.picture.panel with
    | .wait => { w with taken := w.taken ++ w.picture.events.take 1 }
    | _ => w

/-- A step of the panel, watched. -/
def step (queueDepth : Nat) (w : Watched) (e : Event) : Option Watched :=
  (w.picture.step queueDepth e).map fun picture => { w.note e with picture }

/-- An event is emitted only while the queue has room. -/
def HasRoom (queueDepth : Nat) (w : Watched) : Event → Prop
  | .poll _ =>
    match w.picture.poll with
    | .emit _ (_ :: _) => w.picture.events.length < queueDepth
    | _ => True
  | .panel _ => True

instance (queueDepth : Nat) (w : Watched) : DecidablePred (w.HasRoom queueDepth)
  | .poll _ =>
    match h : w.picture.poll with
    | .emit _ (_ :: _) =>
      decidable_of_iff (w.picture.events.length < queueDepth) (by rw [HasRoom, h])
    | .emit _ [] | .start _ | .idle | .scan _ => .isTrue (by rw [HasRoom, h]; trivial)
  | .panel _ => .isTrue trivial

/-! ## What the events say -/

/-- The samples of a pin. -/
def levels (w : Watched) (chip : Chip) (pin : Pin) : List Bool := (w.samples chip).map (level pin)

/-- The changes of the accepted level of a pin. -/
def levelChanges (w : Watched) (chip : Chip) (pin : Pin) : List Bool :=
  changes (level pin (w.seed chip))
    (accepted (level pin (w.seed chip), level pin (w.seed chip)) (w.levels chip pin))

end Watched

/-- What the events of a pin say, in order. -/
def actives (chip : Chip) (pin : Pin) (msgs : List Pcf8575Msg) : List Bool :=
  (msgs.filter fun msg => msg.chip = chip ∧ msg.pin = pin).map (·.active)

/-- A reader that follows an event: a pin is low while it is active. -/
def follow (stable : Chip → UInt16) (msg : Pcf8575Msg) : Chip → UInt16 :=
  Function.update stable msg.chip
    (if msg.active then stable msg.chip &&& ~~~pinBit msg.pin
      else stable msg.chip ||| pinBit msg.pin)

/-! ## Bits -/

theorem level_acceptBits (pin : Pin) (old prev raw : UInt16) :
    level pin (acceptBits old raw (~~~(raw ^^^ prev))) =
      (sample (level pin old, level pin prev) (level pin raw)).1 := by
  have hbits : ∀ o p r : Bool, (o && !!(r ^^ p) || r && !(r ^^ p)) = if r = p then r else o := by
    decide
  simp only [level, acceptBits, sample, UInt16.toBitVec_and, UInt16.toBitVec_not,
    UInt16.toBitVec_or, UInt16.toBitVec_xor, BitVec.getLsbD_and, BitVec.getLsbD_not,
    BitVec.getLsbD_or, BitVec.getLsbD_xor, pin.isLt, decide_true, Bool.true_and]
  exact hbits _ _ _

/-- A pin changed if its accepted level did. -/
theorem mem_changedPins_accept (pin : Pin) (old prev raw : UInt16) :
    pin ∈ changedPins ((old ^^^ raw) &&& ~~~(raw ^^^ prev)) ↔
      (sample (level pin old, level pin prev) (level pin raw)).1 ≠ level pin old := by
  have hbits : ∀ o p r : Bool, ((o ^^ r) && !(r ^^ p)) = true ↔ (if r = p then r else o) ≠ o := by
    decide
  rw [mem_changedPins]
  simp only [level, sample, UInt16.toBitVec_and, UInt16.toBitVec_not, UInt16.toBitVec_xor,
    BitVec.getLsbD_and, BitVec.getLsbD_not, BitVec.getLsbD_xor, pin.isLt, decide_true,
    Bool.true_and]
  exact hbits _ _ _

theorem level_pinBit (pin pin' : Pin) : level pin' (pinBit pin) = decide (pin' = pin) := by
  rw [level, pinBit_toBitVec, BitVec.getLsbD_twoPow]
  simp [pin.isLt, Fin.ext_iff, eq_comm]

/-- A pin is low where its bit is not set. -/
theorem and_pinBit (pin : Pin) (word : UInt16) :
    decide (word &&& pinBit pin = 0) = !level pin word := by
  have hset : word &&& pinBit pin ≠ 0 ↔ level pin word = true := by
    have hmem := @mem_changedPins word pin
    rw [changedPins, List.mem_filter, and_iff_right (List.mem_finRange pin), decide_eq_true_iff]
      at hmem
    exact hmem
  cases hlevel : level pin word with
  | false => simpa [hlevel] using hset
  | true => simpa [hlevel] using hset

theorem level_or_pinBit (pin pin' : Pin) (word : UInt16) :
    level pin' (word ||| pinBit pin) = (level pin' word || decide (pin' = pin)) := by
  rw [← level_pinBit, level, UInt16.toBitVec_or, BitVec.getLsbD_or]
  rfl

theorem level_and_not_pinBit (pin pin' : Pin) (word : UInt16) :
    level pin' (word &&& ~~~pinBit pin) = (level pin' word && !decide (pin' = pin)) := by
  rw [← level_pinBit, level, UInt16.toBitVec_and, UInt16.toBitVec_not, BitVec.getLsbD_and,
    BitVec.getLsbD_not]
  simp [level, pin'.isLt]

theorem level_ext {v w : UInt16} (h : ∀ pin, level pin v = level pin w) : v = w := by
  rw [← UInt16.toBitVec_inj]
  exact BitVec.eq_of_getLsbD_eq fun i hi => h ⟨i, hi⟩

/-! ## What a step keeps -/

theorem changedPins_nodup (diff : UInt16) : (changedPins diff).Nodup :=
  (List.nodup_finRange 16).filter _

theorem actives_append (chip : Chip) (pin : Pin) (msgs msgs' : List Pcf8575Msg) :
    actives chip pin (msgs ++ msgs') = actives chip pin msgs ++ actives chip pin msgs' := by
  rw [actives, List.filter_append, List.map_append]
  rfl

/-- An event speaks of its own pin. -/
theorem actives_pinMsg (s : Picture) (chip chip' : Chip) (pin pin' : Pin) :
    actives chip pin [s.pinMsg chip' pin'] =
      if chip' = chip ∧ pin' = pin then [!level pin (s.stable chip)] else [] := by
  rw [actives, Picture.pinMsg, List.filter_singleton]
  by_cases h : chip' = chip ∧ pin' = pin
  · obtain ⟨rfl, rfl⟩ := h
    simp [and_pinBit]
  · simp [h]

namespace Watched

variable {w : Watched}

/-- The pins of a chip whose events are yet to be emitted. -/
def owed (w : Watched) (chip : Chip) : List Pin :=
  match w.picture.poll with
  | .emit chip' pins => if chip' = chip then pins else []
  | _ => []

theorem owed_emit {chip' : Chip} {pins : List Pin} (h : w.picture.poll = .emit chip' pins)
    (chip : Chip) : w.owed chip = if chip' = chip then pins else [] := by
  rw [owed, h]

theorem owed_eq_nil (h : ∀ chip pins, w.picture.poll ≠ .emit chip pins) (chip : Chip) :
    w.owed chip = [] := by
  rw [owed]
  split
  · next chip' pins hpoll => exact absurd hpoll (h chip' pins)
  · rfl

theorem owed_of_scan {chip' : Chip} (h : w.picture.poll = .scan chip') (chip : Chip) :
    w.owed chip = [] := by
  rw [owed, h]

theorem owed_of_idle (h : w.picture.poll = .idle) (chip : Chip) : w.owed chip = [] := by
  rw [owed, h]

theorem owed_of_start {chip' : Chip} (h : w.picture.poll = .start chip') (chip : Chip) :
    w.owed chip = [] := by
  rw [owed, h]

/-- A pin's bits are the filter of its samples, and its events the changes. -/
structure Filtered (w : Watched) (chip : Chip) (pin : Pin) : Prop where
  settled : (level pin (w.picture.stable chip), level pin (w.picture.prev chip)) =
    settle (level pin (w.seed chip)) (w.levels chip pin)
  events : actives chip pin w.emitted ++
      (if pin ∈ w.owed chip then [!level pin (w.picture.stable chip)] else []) =
    (w.levelChanges chip pin).map (!·)

/-- Every pin is filtered. -/
structure Sound (w : Watched) : Prop where
  filtered : ∀ chip pin, w.Filtered chip pin
  nodup : ∀ chip, (w.owed chip).Nodup
  unread : ∀ chip, w.picture.poll = .start chip → w.samples = (fun _ => []) ∧ w.emitted = []

theorem Sound.init : ({} : Watched).Sound where
  filtered := fun _ _ => ⟨rfl, rfl⟩
  nodup := fun _ => List.nodup_nil
  unread := fun _ _ => ⟨rfl, rfl⟩

/-- A chip that has not been scanned takes its first word as the seed. -/
theorem Filtered.start (w : Watched) (chip : Chip) (pin : Pin) {word : UInt16}
    (hstable : w.picture.stable chip = word) (hprev : w.picture.prev chip = word)
    (hseed : w.seed chip = word) (hsamples : w.samples = fun _ => []) (hemitted : w.emitted = [])
    (howed : w.owed chip = []) : w.Filtered chip pin where
  settled := by
    rw [hstable, hprev, hseed, levels, hsamples]
    rfl
  events := by
    rw [howed, hemitted, levelChanges, levels, hsamples]
    rfl

/-- What is not touched is filtered as before. -/
theorem Filtered.of_same {v : Watched} {chip : Chip} {pin : Pin} (h : w.Filtered chip pin)
    (hstable : v.picture.stable chip = w.picture.stable chip)
    (hprev : v.picture.prev chip = w.picture.prev chip) (hseed : v.seed chip = w.seed chip)
    (hsamples : v.samples chip = w.samples chip)
    (hemitted : actives chip pin v.emitted = actives chip pin w.emitted)
    (howed : pin ∈ v.owed chip ↔ pin ∈ w.owed chip) : v.Filtered chip pin where
  settled := by
    rw [hstable, hprev, hseed, levels, hsamples]
    exact h.settled
  events := by
    rw [hemitted, hstable, levelChanges, levels, hseed, hsamples]
    simp only [howed]
    exact h.events

/-- A sample is filtered for every pin. -/
theorem Filtered.scan {v : Watched} {chip : Chip} {pin : Pin} (h : w.Filtered chip pin)
    {raw : UInt16}
    (hstable : v.picture.stable chip = acceptBits (w.picture.stable chip) raw
      (~~~(raw ^^^ w.picture.prev chip)))
    (hprev : v.picture.prev chip = raw) (hseed : v.seed chip = w.seed chip)
    (hsamples : v.samples chip = w.samples chip ++ [raw]) (hemitted : v.emitted = w.emitted)
    (howed : w.owed chip = [])
    (howed' : v.owed chip = changedPins
      ((w.picture.stable chip ^^^ raw) &&& ~~~(raw ^^^ w.picture.prev chip))) :
    v.Filtered chip pin := by
  have hlevels : v.levels chip pin = w.levels chip pin ++ [level pin raw] := by
    rw [levels, hsamples, List.map_append]
    rfl
  have hsample : (level pin (v.picture.stable chip), level pin (v.picture.prev chip)) =
      sample (settle (level pin (w.seed chip)) (w.levels chip pin)) (level pin raw) := by
    rw [← h.settled, hstable, hprev, level_acceptBits]
    rfl
  have hchanges : v.levelChanges chip pin = w.levelChanges chip pin ++
      if level pin (v.picture.stable chip) = level pin (w.picture.stable chip) then []
      else [level pin (v.picture.stable chip)] := by
    have hlast := getLast_accepted
      (level pin (w.seed chip), level pin (w.seed chip)) (w.levels chip pin)
    rw [levelChanges, hseed, hlevels, accepted_concat, changes_concat, hlast, levelChanges]
    rw [show level pin (v.picture.stable chip) = _ from congrArg Prod.fst hsample,
      show level pin (w.picture.stable chip) = _ from congrArg Prod.fst h.settled]
    rfl
  have hpin : pin ∈ v.owed chip ↔
      level pin (v.picture.stable chip) ≠ level pin (w.picture.stable chip) := by
    rw [howed', mem_changedPins_accept, ← level_acceptBits, ← hstable]
  have hevents := h.events
  rw [howed, if_neg List.not_mem_nil, List.append_nil] at hevents
  refine ⟨?_, ?_⟩
  · rw [hsample, hseed, hlevels, settle_concat]
  · rw [hemitted, hevents, hchanges, List.map_append]
    congr 1
    by_cases hsame : level pin (v.picture.stable chip) = level pin (w.picture.stable chip)
    · rw [if_pos hsame, if_neg fun hmem => hpin.mp hmem hsame]
      rfl
    · rw [if_neg hsame, if_pos (hpin.mpr hsame)]
      rfl

/-- The next event of a scan is emitted. -/
theorem Filtered.emit {v : Watched} {chip chip' : Chip} {pin pin' : Pin} {pins : List Pin}
    (h : w.Filtered chip pin) (hstable : v.picture.stable = w.picture.stable)
    (hprev : v.picture.prev = w.picture.prev) (hseed : v.seed = w.seed)
    (hsamples : v.samples = w.samples)
    (hemitted : v.emitted = w.emitted ++ [w.picture.pinMsg chip' pin'])
    (howed : w.picture.poll = .emit chip' (pin' :: pins))
    (howed' : v.picture.poll = .emit chip' pins) (hnodup : (pin' :: pins).Nodup) :
    v.Filtered chip pin := by
  have hevents := h.events
  refine ⟨?_, ?_⟩
  · rw [hstable, hprev, hseed, levels, hsamples]
    exact h.settled
  · rw [hstable, levelChanges, levels, hseed, hsamples, hemitted, actives_append, actives_pinMsg,
      List.append_assoc]
    rw [levelChanges, levels] at hevents
    rw [← hevents]
    congr 1
    rw [owed_emit howed, owed_emit howed']
    by_cases hchip : chip' = chip
    · simp only [hchip, if_true]
      by_cases hpin : pin' = pin
      · subst hpin
        simp [(List.nodup_cons.mp hnodup).1]
      · simp [hpin, Ne.symm hpin]
    · simp [hchip]

/-- Steps that neither sample nor emit keep it. -/
theorem Sound.of_same {v : Watched} (h : w.Sound) (hstable : v.picture.stable = w.picture.stable)
    (hprev : v.picture.prev = w.picture.prev) (hseed : v.seed = w.seed)
    (hsamples : v.samples = w.samples) (hemitted : v.emitted = w.emitted)
    (howed : ∀ chip, v.owed chip = w.owed chip)
    (hstart : ∀ chip, v.picture.poll = .start chip → w.picture.poll = .start chip) : v.Sound where
  filtered := fun chip pin => (h.filtered chip pin).of_same (congrFun hstable chip)
    (congrFun hprev chip) (congrFun hseed chip) (congrFun hsamples chip) (by rw [hemitted])
    (by rw [howed])
  nodup := fun chip => by
    rw [howed]
    exact h.nodup chip
  unread := fun chip hpoll => by
    rw [hsamples, hemitted]
    exact h.unread chip (hstart chip hpoll)

theorem next_ne_emit (chip chip' : Chip) (pins : List Pin) : Poll.next chip ≠ .emit chip' pins := by
  cases chip <;> exact Poll.noConfusion

/-- A chip is sampled, and the pins that changed are to be emitted. -/
theorem Sound.scan {v : Watched} (h : w.Sound) {chip : Chip} {raw : UInt16}
    (hpoll : w.picture.poll = .scan chip)
    (hstable : v.picture.stable = Function.update w.picture.stable chip
      (acceptBits (w.picture.stable chip) raw (~~~(raw ^^^ w.picture.prev chip))))
    (hprev : v.picture.prev = Function.update w.picture.prev chip raw) (hseed : v.seed = w.seed)
    (hsamples : v.samples = Function.update w.samples chip (w.samples chip ++ [raw]))
    (hemitted : v.emitted = w.emitted)
    (howed : ∀ chip', v.owed chip' = if chip = chip' then changedPins
      ((w.picture.stable chip ^^^ raw) &&& ~~~(raw ^^^ w.picture.prev chip)) else [])
    (hstart : ∀ chip, v.picture.poll ≠ .start chip) : v.Sound where
  filtered := by
    intro chip' pin
    have hnone := owed_of_scan hpoll chip'
    by_cases hchip : chip = chip'
    · subst hchip
      refine @Filtered.scan w v chip pin (h.filtered chip pin) raw ?_ ?_ (congrFun hseed chip) ?_
        hemitted hnone ?_
      · rw [hstable, Function.update_self]
      · rw [hprev, Function.update_self]
      · rw [hsamples, Function.update_self]
      · rw [howed, if_pos rfl]
    · refine (h.filtered chip' pin).of_same ?_ ?_ (congrFun hseed chip') ?_ (by rw [hemitted]) ?_
      · rw [hstable, Function.update_of_ne (Ne.symm hchip)]
      · rw [hprev, Function.update_of_ne (Ne.symm hchip)]
      · rw [hsamples, Function.update_of_ne (Ne.symm hchip)]
      · rw [howed, if_neg hchip, hnone]
  nodup := by
    intro chip'
    rw [howed]
    split
    · exact changedPins_nodup _
    · exact List.nodup_nil
  unread := fun chip hpoll => absurd hpoll (hstart chip)

/-- A bit for which the filter keeps the word as it is. -/
theorem acceptBits_of_same {old prev raw : UInt16}
    (h : (old ^^^ raw) &&& ~~~(raw ^^^ prev) = 0) :
    acceptBits old raw (~~~(raw ^^^ prev)) = old := by
  apply level_ext
  intro pin
  have hpin : pin ∉ changedPins ((old ^^^ raw) &&& ~~~(raw ^^^ prev)) := by
    rw [mem_changedPins, h]
    simp
  rw [level_acceptBits]
  exact not_not.mp (mt (mem_changedPins_accept pin old prev raw).mpr hpin)

theorem Sound.pollStep (h : w.Sound) (queueDepth : Nat) (raw : Option UInt16) :
    Sound { w.note (.poll raw) with picture := w.picture.pollStep queueDepth raw } := by
  cases hpoll : w.picture.poll with
  | start chip =>
      obtain ⟨hsamples, hemitted⟩ := h.unread chip hpoll
      have hnote : w.note (.poll raw) =
          { w with seed := Function.update w.seed chip (raw.getD 0xffff) } := by
        simp only [note, hpoll]
      have hstep : w.picture.pollStep queueDepth raw = { w.picture with
          stable := Function.update w.picture.stable chip (raw.getD 0xffff)
          prev := Function.update w.picture.prev chip (raw.getD 0xffff)
          poll := if chip = .zero then .start .one else .idle } := by
        rw [Picture.pollStep, hpoll]
      have hnone : ∀ chip', owed { w.note (.poll raw) with
          picture := w.picture.pollStep queueDepth raw } chip' = [] := by
        refine owed_eq_nil fun chip' pins => ?_
        rw [hstep]
        dsimp only
        split <;> exact Poll.noConfusion
      refine ⟨fun chip' pin => ?_, fun chip' => ?_, fun chip' _ => ?_⟩
      · by_cases hchip : chip = chip'
        · subst hchip
          refine @Filtered.start _ chip pin (raw.getD 0xffff) ?_ ?_ ?_ ?_ ?_ (hnone chip)
          · rw [hstep]
            exact Function.update_self ..
          · rw [hstep]
            exact Function.update_self ..
          · rw [hnote]
            exact Function.update_self ..
          · rw [hnote]
            exact hsamples
          · rw [hnote]
            exact hemitted
        · refine (h.filtered chip' pin).of_same ?_ ?_ ?_ ?_ ?_ ?_
          · rw [hstep]
            exact Function.update_of_ne (Ne.symm hchip) _ _
          · rw [hstep]
            exact Function.update_of_ne (Ne.symm hchip) _ _
          · rw [hnote]
            exact Function.update_of_ne (Ne.symm hchip) _ _
          · rw [hnote]
          · rw [hnote]
          · rw [hnone, owed_of_start hpoll]
      · rw [hnone]
        exact List.nodup_nil
      · rw [hnote]
        exact ⟨hsamples, hemitted⟩
  | idle =>
      simp only [note, Picture.pollStep, hpoll]
      refine h.of_same rfl rfl rfl rfl rfl (fun chip => ?_) fun chip => Poll.noConfusion
      rw [owed, owed, hpoll]
  | scan chip =>
      cases raw with
      | none =>
          simp only [note, Picture.pollStep, hpoll]
          refine h.of_same rfl rfl rfl rfl rfl (fun chip' => ?_)
            fun chip' hstart => absurd hstart (Picture.next_ne_start chip chip')
          rw [owed_eq_nil fun c ps => next_ne_emit chip c ps, owed_of_scan hpoll]
      | some raw =>
          simp only [note, Picture.pollStep, hpoll]
          split
          · next hdiff =>
            refine h.scan hpoll ?_ rfl rfl rfl rfl (fun chip' => ?_)
              fun chip' hstart => absurd hstart (Picture.next_ne_start chip chip')
            · rw [acceptBits_of_same hdiff, Function.update_eq_self]
            · rw [owed_eq_nil fun c ps => next_ne_emit chip c ps, hdiff]
              split <;> rfl
          · exact h.scan hpoll rfl rfl rfl rfl rfl (fun chip' => rfl) fun chip' => Poll.noConfusion
  | emit chip pins =>
      cases pins with
      | nil =>
          simp only [note, Picture.pollStep, hpoll]
          refine h.of_same rfl rfl rfl rfl rfl (fun chip' => ?_)
            fun chip' hstart => absurd hstart (Picture.next_ne_start chip chip')
          rw [owed_eq_nil fun c ps => next_ne_emit chip c ps, owed_emit hpoll]
          split <;> rfl
      | cons pin pins =>
          have hnodup : (pin :: pins).Nodup := by
            have hall := h.nodup chip
            rw [owed_emit hpoll, if_pos rfl] at hall
            exact hall
          simp only [note, Picture.pollStep, hpoll]
          refine ⟨fun chip' pin' => ?_, fun chip' => ?_, fun chip' => Poll.noConfusion⟩
          · exact (h.filtered chip' pin').emit rfl rfl rfl rfl rfl hpoll rfl hnodup
          · rw [owed]
            dsimp only
            split
            · exact (List.nodup_cons.mp hnodup).2
            · exact List.nodup_nil

/-- `panel_task` leaves the filter alone. -/
theorem panelStep_poll {s t : Picture} {ok : Bool} (ht : s.panelStep ok = some t) :
    t.stable = s.stable ∧ t.prev = s.prev ∧ t.poll = s.poll := by
  rw [Picture.panelStep] at ht
  cases hpanel : s.panel with
  | start | low | high | toggles =>
      rw [hpanel] at ht
      cases ht
      exact ⟨rfl, rfl, rfl⟩
  | wait =>
      rw [hpanel] at ht
      dsimp only at ht
      split at ht
      · cases ht
      · cases ht
        exact ⟨rfl, rfl, rfl⟩
  | send packet =>
      rw [hpanel] at ht
      dsimp only at ht
      split at ht <;> cases ht <;> exact ⟨rfl, rfl, rfl⟩

theorem note_panel (w : Watched) (ok : Bool) : (w.note (.panel ok)).seed = w.seed ∧
    (w.note (.panel ok)).samples = w.samples ∧ (w.note (.panel ok)).emitted = w.emitted := by
  rw [note]
  split <;> exact ⟨rfl, rfl, rfl⟩

theorem Sound.step (h : w.Sound) {queueDepth : Nat} {e : Event} {v : Watched}
    (hv : w.step queueDepth e = some v) : v.Sound := by
  obtain ⟨picture, hstep, rfl⟩ := Option.map_eq_some_iff.mp hv
  cases e with
  | poll raw =>
      cases hstep
      exact h.pollStep queueDepth raw
  | panel ok =>
      obtain ⟨hstable, hprev, hpoll⟩ := panelStep_poll hstep
      obtain ⟨hseed, hsamples, hemitted⟩ := note_panel w ok
      refine h.of_same hstable hprev hseed hsamples hemitted (fun chip => ?_) fun chip hstart => ?_
      · rw [owed, owed, hpoll]
      · rw [← hpoll]
        exact hstart

/-! ## What the queue delivers -/

/-- Nothing that was emitted is lost. -/
def Delivered (w : Watched) : Prop := w.taken ++ w.picture.events = w.emitted

theorem Delivered.step (h : w.Delivered) {queueDepth : Nat} {e : Event} {v : Watched}
    (hroom : w.HasRoom queueDepth e) (hv : w.step queueDepth e = some v) : v.Delivered := by
  rw [Delivered] at h ⊢
  obtain ⟨picture, hstep, rfl⟩ := Option.map_eq_some_iff.mp hv
  cases e with
  | poll raw =>
      cases hstep
      cases hpoll : w.picture.poll with
      | start chip =>
          simp only [note, Picture.pollStep, hpoll]
          exact h
      | idle =>
          simp only [note, Picture.pollStep, hpoll]
          exact h
      | scan chip =>
          cases raw with
          | none =>
              simp only [note, Picture.pollStep, hpoll]
              exact h
          | some raw =>
              simp only [note, Picture.pollStep, hpoll]
              split <;> exact h
      | emit chip pins =>
          cases pins with
          | nil =>
              simp only [note, Picture.pollStep, hpoll]
              exact h
          | cons pin pins =>
              rw [HasRoom, hpoll] at hroom
              simp only [note, Picture.pollStep, hpoll]
              rw [Picture.emit, if_pos hroom, ← List.append_assoc, h]
              rfl
  | panel ok =>
      rw [Picture.step, Picture.panelStep] at hstep
      rw [note]
      cases hpanel : w.picture.panel with
      | start | low | high | toggles =>
          rw [hpanel] at hstep
          cases hstep
          exact h
      | wait =>
          rw [hpanel] at hstep
          dsimp only at hstep ⊢
          split at hstep
          · cases hstep
          · next msg events hevents =>
            cases hstep
            rw [hevents] at h ⊢
            rw [List.take_succ_cons, List.take_zero, List.append_assoc]
            exact h
      | send packet =>
          rw [hpanel] at hstep
          dsimp only at hstep
          split at hstep <;> cases hstep <;> exact h

/-- An event sets its pin and no other. -/
theorem level_follow (stable : Chip → UInt16) (msg : Pcf8575Msg) (chip : Chip) (pin : Pin) :
    level pin (follow stable msg chip) =
      if msg.chip = chip ∧ msg.pin = pin then !msg.active else level pin (stable chip) := by
  rw [follow]
  by_cases hchip : msg.chip = chip
  · subst hchip
    rw [Function.update_self]
    cases msg.active with
    | false => by_cases hpin : pin = msg.pin <;> simp [level_or_pinBit, hpin, eq_comm]
    | true => by_cases hpin : pin = msg.pin <;> simp [level_and_not_pinBit, hpin, eq_comm]
  · rw [Function.update_of_ne (Ne.symm hchip), if_neg fun h => hchip h.1]

/-- Reading the events of a pin gives its level. -/
theorem level_foldl_follow (chip : Chip) (pin : Pin) (msgs : List Pcf8575Msg)
    (stable : Chip → UInt16) :
    level pin (msgs.foldl follow stable chip) =
      (level pin (stable chip) :: (actives chip pin msgs).map (!·)).getLast
        (List.cons_ne_nil _ _) := by
  induction msgs generalizing stable with
  | nil => rfl
  | cons msg msgs ih =>
      rw [List.foldl_cons, ih, level_follow]
      by_cases hmsg : msg.chip = chip ∧ msg.pin = pin
      · simp [actives, hmsg]
      · simp only [hmsg, if_false, actives, List.filter_cons, decide_false, Bool.false_eq_true]

/-! ## Runs -/

theorem sound_of_run {queueDepth : Nat} {es : List Event}
    (hrun : run (step queueDepth) {} es = some w) : w.Sound :=
  run_invariant (P := fun _ _ => True) (fun h _ hv => h.step hv) Sound.init
    (throughout_of_forall (fun _ _ => trivial) es _) hrun

/-- Between scans every accepted level is the one on which two samples of the pin agreed last, or
the seed.  The events of the pin are the changes of that level, in turn active and not.  If the
queue had room for all of them, reading the events from the seed gives the accepted words. -/
theorem debounced {queueDepth : Nat} {es : List Event}
    (hrun : run (step queueDepth) {} es = some w) (hidle : w.picture.poll = .idle) :
    (∀ chip pin,
      LastAgreed (level pin (w.seed chip)) (w.levels chip pin)
        (level pin (w.picture.stable chip)) ∧
      actives chip pin w.emitted = (w.levelChanges chip pin).map (!·) ∧
      ((!level pin (w.seed chip)) :: actives chip pin w.emitted).IsChain (· ≠ ·)) ∧
    (Throughout (step queueDepth) (HasRoom queueDepth) {} es →
      (w.taken ++ w.picture.events).foldl follow w.seed = w.picture.stable) := by
  have hsound := sound_of_run hrun
  have hnone := owed_of_idle hidle
  have hevents : ∀ chip pin,
      actives chip pin w.emitted = (w.levelChanges chip pin).map (!·) := by
    intro chip pin
    have h := (hsound.filtered chip pin).events
    rw [hnone, if_neg List.not_mem_nil, List.append_nil] at h
    exact h
  refine ⟨fun chip pin => ⟨?_, hevents chip pin, ?_⟩, fun hroom => ?_⟩
  · rw [show level pin (w.picture.stable chip) = _ from
      congrArg Prod.fst (hsound.filtered chip pin).settled]
    exact lastAgreed_settle _ _
  · rw [hevents, ← List.map_cons (f := (!·)), List.isChain_map]
    exact (isChain_changes _ _).imp fun a b hab hnot => hab (Bool.not_inj hnot)
  · have hdelivered : w.Delivered :=
      run_invariant (fun h hP hv => h.step hP hv) (show Delivered {} from rfl) hroom hrun
    funext chip
    apply level_ext
    intro pin
    calc level pin ((w.taken ++ w.picture.events).foldl follow w.seed chip)
      _ = (level pin (w.seed chip) :: w.levelChanges chip pin).getLast (List.cons_ne_nil _ _) := by
          rw [hdelivered, level_foldl_follow]
          simp only [hevents, List.map_map, Function.comp_def, Bool.not_not, List.map_id']
      _ = _ := getLast_changes _ _
      _ = (settle (level pin (w.seed chip)) (w.levels chip pin)).1 :=
          getLast_accepted (level pin (w.seed chip), level pin (w.seed chip)) _
      _ = level pin (w.picture.stable chip) :=
          (congrArg Prod.fst (hsound.filtered chip pin).settled).symm

/-- Pin 0 of chip 0 is pressed for two scans. -/
def pressRun : List Event :=
  [.poll none, .poll none, .poll none, .poll (some 0xfffe), .poll none, .poll none,
    .poll (some 0xfffe), .poll none, .poll none, .poll none]

theorem debounced_pressRun :
    ∃ w, run (step Picture.pcf8575QueueDepth) {} pressRun = some w ∧
      actives .zero 0 w.emitted = [true] ∧
      (w.taken ++ w.picture.events).foldl follow w.seed = w.picture.stable := by
  have hrun : ((run (step Picture.pcf8575QueueDepth) {} pressRun).map
      fun w => (w.picture.poll, actives .zero 0 w.emitted)) = some (.idle, [true]) := by
    decide
  obtain ⟨w, hw, hpair⟩ := Option.map_eq_some_iff.mp hrun
  obtain ⟨hidle, hactives⟩ := Prod.mk.inj hpair
  exact ⟨w, hw, hactives, (debounced hw hidle).2 (by decide)⟩

end Watched

end MFoES.Northbridge.PanelEvents
