import MFoES.Northbridge.Slave

/-!
# Staging, delivery and the IRQ line

`g_next_tx` says what the channel will be armed with, not what it reads.  Once the
handler has armed the staged frame it is back at the idle frame, and the task may write
the next message over the frame that is being clocked.  Where the task finds no message
then (`Drained`), the buffer has one owner at a time (`Owned`): the task from its check to
the hand-over, the handler from there to the end of the frame, and then the channel.

Under the same condition messages keep their order and none is lost or doubled
(`Delivered`), if a resync finds no staged frame that is not armed yet (`Settled`); it
would drop it.

`dspi_tx_pending` knows of the queue and of `g_next_tx`.  The line follows all that is
outstanding where neither an armed frame nor a message that comes in between is missed
(`Steady`).
-/

namespace MFoES.Northbridge.Dspi

open Transition

/-- The bytes are the frame of a message. -/
def Carries (raw : List UInt8) (msg : DspiMsg) : Prop :=
  ∃ more, raw = (buildFrame msg.type msg.payload.toList msg.len more msg.flags).toList

/-- The task has a message, or is about to take one. -/
def Pc.Staging : Pc → Prop
  | .receive => True
  | .more _ => True
  | .build _ _ => True
  | .publish _ => True
  | _ => False

/-- The message that the task has taken. -/
def Pc.held : Pc → List DspiMsg
  | .more msg => [msg]
  | .build msg _ => [msg]
  | .publish msg => [msg]
  | _ => []

namespace Slave

variable {s t : Slave} {txDepth : Nat}

/-! ## Ownership of the staging buffer -/

/-- The task finds no message while the staged frame is clocked. -/
def Drained (s : Slave) : Event → Prop
  | .task => s.pc = .check → s.nextTx = .idle → s.InFlight → s.queue = []
  | _ => True

instance (s : Slave) (e : Event) : Decidable (s.Drained e) := by
  cases e with
  | task => exact inferInstanceAs (Decidable (_ → _ → _ → _))
  | _ => exact .isTrue trivial

/-- Who has the staging buffer. -/
structure Owned (s : Slave) : Prop where
  raised : s.irqRaised = true → s.remaining = 0
  /-- The task. -/
  staging : s.pc.Staging → s.nextTx = .idle ∧ ¬ s.InFlight
  built : ∀ msg, s.pc = .publish msg → Carries s.stage.toList msg
  /-- The handler that runs next. -/
  next : s.nextTx = .stage → s.staged.isSome = true
  staged : ∀ msg, s.staged = some msg → s.nextTx = .stage ∧ ¬ s.InFlight ∧ Carries s.stage.toList msg
  /-- The channel. -/
  flight : s.InFlight → s.inDma.isSome = true
  inDma : ∀ msg, s.inDma = some msg → s.InFlight ∧ Carries s.stage.toList msg
  read : s.InFlight → s.read <+: s.stage.toList

theorem owned_init : Owned {} where
  raised := by simp
  staging := by simp [Pc.Staging]
  built := by simp
  next := by simp
  staged := by simp
  flight := by simp [InFlight]
  inDma := by simp
  read := by simp [InFlight]

/-- Steps of the task that leave the buffers alone. -/
theorem Owned.goto (h : Owned s) {pc : Pc} (hstaging : pc.Staging → s.pc.Staging)
    (hpub : ∀ msg, pc ≠ .publish msg) : Owned { s with pc } :=
  { h with
    staging := fun hpc => h.staging (hstaging hpc)
    built := fun msg hmsg => absurd hmsg (hpub msg) }

theorem Owned.sample (h : Owned s) : Owned s.sample := by
  rw [Slave.sample]
  split_ifs with hrest hmoved
  · exact { h with staging := by simp [Pc.Staging], built := by simp }
  · exact { h with staging := by simp [Pc.Staging], built := by simp }
  · exact { h with staging := by simp [Pc.Staging], built := by simp }

theorem owned_rearm : Owned s.rearm where
  raised := by simp [Slave.rearm]
  staging := by simp [Slave.rearm, Pc.Staging]
  built := by simp [Slave.rearm]
  next := by simp [Slave.rearm]
  staged := by simp [Slave.rearm]
  flight := by simp [Slave.rearm, InFlight, armDma]
  inDma := by simp [Slave.rearm]
  read := by simp [Slave.rearm, InFlight, armDma]

theorem Owned.check (h : Owned s) (hpc : s.pc = .check) (hdrained : s.Drained .task) :
    Owned { s with pc := if s.nextTx = .idle ∧ 0 < s.queue.length then .receive else .pending } := by
  split_ifs with hstage
  · refine { h with staging := fun _ => ⟨hstage.1, ?_⟩, built := by simp }
    intro hflight
    have hempty := hdrained hpc hstage.1 hflight
    rw [hempty] at hstage
    exact absurd hstage.2 (Nat.lt_irrefl 0)
  · exact { h with staging := by simp [Pc.Staging], built := by simp }

/-- The task writes the frame while no one else has the buffer. -/
theorem Owned.build (h : Owned s) {msg : DspiMsg} {more : Bool} (hpc : s.pc = .build msg more)
    {raw : RawFrame} (hraw : Carries raw.toList msg) :
    Owned { s with stage := raw, pc := .publish msg } := by
  obtain ⟨hnext, hflight⟩ := h.staging (by rw [hpc]; trivial)
  refine { h with
    staging := fun _ => ⟨hnext, hflight⟩, built := ?_, staged := ?_, inDma := ?_, read := ?_ }
  · intro msg' hmsg
    obtain rfl := Pc.publish.inj hmsg
    exact hraw
  · intro msg' hmsg
    have hstage := (h.staged msg' hmsg).1
    rw [hnext] at hstage
    cases hstage
  · intro msg' hmsg
    exact absurd (h.inDma msg' hmsg).1 hflight
  · intro hfl
    exact absurd hfl hflight

theorem Owned.publish (h : Owned s) {msg : DspiMsg} (hpc : s.pc = .publish msg) :
    Owned { s with nextTx := .stage, staged := some msg, pc := .pending } := by
  obtain ⟨-, hflight⟩ := h.staging (by rw [hpc]; trivial)
  refine { h with staging := by simp [Pc.Staging], built := by simp, next := by simp, staged := ?_ }
  intro msg' hmsg
  obtain rfl := Option.some.inj hmsg
  exact ⟨rfl, hflight, h.built msg hpc⟩

theorem Owned.task (h : Owned s) (hdrained : s.Drained .task) : Owned s.task := by
  rw [Slave.task]
  cases hpc : s.pc with
  | sample => exact h.sample
  | mask => exact { h with staging := by simp [Pc.Staging], built := by simp }
  | rearm => exact owned_rearm
  | check => exact h.check hpc hdrained
  | receive =>
      cases hqueue : s.queue with
      | nil => exact { h with staging := by simp [Pc.Staging], built := by simp }
      | cons msg queue =>
          exact { h with staging := fun _ => h.staging (by rw [hpc]; trivial), built := by simp }
  | more msg =>
      exact { h with staging := fun _ => h.staging (by rw [hpc]; trivial), built := by simp }
  | build msg more => exact h.build hpc ⟨more, rfl⟩
  | publish msg => exact h.publish hpc
  | pending => exact { h with staging := by simp [Pc.Staging], built := by simp }
  | line asserted => exact { h with staging := by simp [Pc.Staging], built := by simp }

/-- The handler hands the staged frame to the channel. -/
theorem Owned.isr (h : Owned s) (hraised : s.irqRaised = true) : Owned s.isr := by
  have hidle : ¬ s.InFlight := by
    rintro ⟨-, hpos⟩
    rw [h.raised hraised] at hpos
    exact Nat.lt_irrefl 0 hpos
  cases hnext : s.nextTx with
  | idle =>
      have hstaged : s.staged = none := by
        cases hst : s.staged with
        | none => rfl
        | some msg =>
            rw [(h.staged msg hst).1] at hnext
            cases hnext
      exact {
        raised := by simp [Slave.isr]
        staging := by simp [Slave.isr, armDma, InFlight, hnext]
        built := h.built
        next := by simp [Slave.isr]
        staged := by simp [Slave.isr]
        flight := by simp [Slave.isr, armDma, InFlight, hnext]
        inDma := by simp [Slave.isr, hstaged]
        read := by simp [Slave.isr, armDma, InFlight, hnext] }
  | stage =>
      have hnot : ¬ s.pc.Staging := by
        intro hpc
        rw [(h.staging hpc).1] at hnext
        cases hnext
      exact {
        raised := by simp [Slave.isr]
        staging := fun hpc => absurd hpc hnot
        built := h.built
        next := by simp [Slave.isr]
        staged := by simp [Slave.isr]
        flight := fun _ => h.next hnext
        inDma := fun msg hmsg => ⟨⟨hnext, Nat.zero_lt_succ 63⟩, (h.staged msg hmsg).2.2⟩
        read := fun _ => List.nil_prefix }

theorem Owned.fetch (h : Owned s) (hlen : s.read.length < dspiFrameSize) : Owned s.fetch := by
  refine { h with read := ?_ }
  intro hflight
  have hread : s.read <+: s.stage.toList := h.read hflight
  have harmed : s.armed = .stage := hflight.1
  have hsource : s.source = s.stage := by rw [source, harmed]
  have hlt : s.read.length < s.stage.toList.length := by
    rw [Vector.length_toList]
    exact hlen
  have htake := List.prefix_iff_eq_take.mp hread
  have hbyte : s.stage.toList.getD s.read.length 0 = s.stage.toList[s.read.length] := by
    simp [List.getD_eq_getElem?_getD, List.getElem?_eq_getElem hlt]
  have hnew : s.read ++ [s.stage.toList[s.read.length]] =
      s.stage.toList.take (s.read.length + 1) := by
    rw [List.take_succ_eq_append_getElem hlt, ← htake]
  change s.read ++ [s.source.toList.getD s.read.length 0] <+: s.stage.toList
  rw [hsource, hbyte, hnew]
  exact List.take_prefix _ _

theorem Owned.clock (h : Owned s) (hpos : 0 < s.remaining) : Owned s.clock := by
  rw [Slave.clock]
  split
  next hlast =>
    exact { h with
      raised := by simp
      staging := fun hpc => ⟨(h.staging hpc).1, by simp [InFlight]⟩
      staged := fun msg hmsg => ⟨(h.staged msg hmsg).1, by simp [InFlight], (h.staged msg hmsg).2.2⟩
      flight := by simp [InFlight]
      inDma := by simp
      read := by simp [InFlight] }
  next hlast =>
    have hflight : InFlight { s with remaining := s.remaining - 1 } ↔ s.InFlight := by
      have hmore : 0 < s.remaining - 1 := by omega
      simp [InFlight, hpos, hmore]
    exact { h with
      raised := fun hraised => absurd (h.raised hraised) (Nat.pos_iff_ne_zero.mp hpos)
      staging := fun hpc => ⟨(h.staging hpc).1, fun hfl => (h.staging hpc).2 (hflight.mp hfl)⟩
      staged := fun msg hmsg => ⟨(h.staged msg hmsg).1,
        fun hfl => (h.staged msg hmsg).2.1 (hflight.mp hfl), (h.staged msg hmsg).2.2⟩
      flight := fun hfl => h.flight (hflight.mp hfl)
      inDma := fun msg hmsg => ⟨hflight.mpr (h.inDma msg hmsg).1, (h.inDma msg hmsg).2⟩
      read := fun hfl => h.read (hflight.mp hfl) }

theorem Owned.send (h : Owned s) (txDepth : Nat) (type : UInt8) (payload : List UInt8) (len : Nat)
    (flags : UInt8) : Owned (s.send txDepth type payload len flags) := by
  rw [Slave.send]
  split_ifs with hlong hfull
  · exact h
  · exact h
  · exact { h with }

theorem Owned.step (h : Owned s) {e : Event} (hdrained : s.Drained e)
    (hstep : s.step txDepth e = some t) : Owned t := by
  cases e with
  | task =>
      cases hstep
      exact h.task hdrained
  | isr =>
      rw [Slave.step] at hstep
      split_ifs at hstep with hraised
      cases hstep
      exact h.isr hraised.1
  | fetch =>
      rw [Slave.step] at hstep
      split_ifs at hstep with hroom
      cases hstep
      exact h.fetch hroom.1
  | clock =>
      rw [Slave.step] at hstep
      split_ifs at hstep with hready
      cases hstep
      exact h.clock hready.1
  | send type payload len flags =>
      cases hstep
      exact h.send txDepth type payload len flags
  | assertLine =>
      rw [Slave.step] at hstep
      split_ifs at hstep with hcall
      cases hstep
      exact { h with }

/-- The task writes the staging buffer only while no frame in it is clocked. -/
theorem not_inFlight_of_build {es : List Event}
    (hdrained : Throughout (step txDepth) Drained {} es) (hrun : run (step txDepth) {} es = some s)
    {msg : DspiMsg} {more : Bool} (hpc : s.pc = .build msg more) : ¬ s.InFlight := by
  have howned : Owned s := run_invariant (fun h hd hs => h.step hd hs) owned_init hdrained hrun
  exact (howned.staging (by rw [hpc]; trivial)).2

/-- A message comes. -/
def post : Event := .send 1 [7] 1 0

/-- The master clocks a frame. -/
def exchange : List Event := (List.replicate 64 [Event.fetch, .clock]).flatten

/-- The task is about to write a frame. -/
def writing (s : Slave) : Bool :=
  match s.pc with
  | .build _ _ => true
  | _ => false

theorem writing_iff : s.writing = true ↔ ∃ msg more, s.pc = .build msg more := by
  rw [writing]
  cases s.pc <;> simp

/-- The task gets to the staging buffer for the first message. -/
def firstWrite : List Event := post :: List.replicate 4 .task

set_option maxRecDepth 20000 in
theorem run_firstWrite : (run (step 8) {} firstWrite).map writing = some true := by
  decide

/-- A message on a port at rest. -/
theorem not_inFlight_of_build_first :
    ∃ s msg more, run (step 8) {} firstWrite = some s ∧ s.pc = .build msg more ∧ ¬ s.InFlight := by
  obtain ⟨s, hrun, hwriting⟩ := Option.map_eq_some_iff.mp run_firstWrite
  obtain ⟨msg, more, hpc⟩ := writing_iff.mp hwriting
  exact ⟨s, msg, more, hrun, hpc, not_inFlight_of_build (by decide) hrun hpc⟩

/-- Two messages.  The handler arms the frame of the first, and the task goes on with the
second. -/
def secondWrite : List Event :=
  [post, post] ++ List.replicate 8 .task ++ exchange ++ [.isr] ++ List.replicate 4 .task

set_option maxRecDepth 20000 in
theorem run_secondWrite :
    (run (step 8) {} secondWrite).map (fun s => (s.writing, decide s.InFlight)) =
      some (true, true) := by
  decide

/-- The task writes the buffer that the channel reads. -/
theorem inFlight_of_build_second :
    ¬ ∀ (txDepth : Nat) (es : List Event) (s : Slave), run (step txDepth) {} es = some s →
      ∀ msg more, s.pc = .build msg more → ¬ s.InFlight := by
  intro h
  obtain ⟨s, hrun, hview⟩ := Option.map_eq_some_iff.mp run_secondWrite
  obtain ⟨hwriting, hflight⟩ := Prod.mk.inj hview
  obtain ⟨msg, more, hpc⟩ := writing_iff.mp hwriting
  exact h 8 secondWrite s hrun msg more hpc (of_decide_eq_true hflight)

/-! ## Delivery -/

/-- A resync finds no staged frame that the channel is not armed with. -/
def Settled (s : Slave) : Event → Prop
  | .task => s.pc = .rearm → s.nextTx = .idle
  | _ => True

instance (s : Slave) (e : Event) : Decidable (s.Settled e) := by
  cases e with
  | task => exact inferInstanceAs (Decidable (_ → _))
  | _ => exact .isTrue trivial

/-- Every accepted message is in the queue, in the task's hands, staged or in the channel,
or it is settled: clocked in a frame of its own, or cut by a resync.  A settled message has an
entry in the log, in the order of the queue, and it was clocked if the entry says so. -/
def Delivered (s : Slave) : Prop :=
  ∃ log : List (DspiMsg × Bool),
    s.accepted = log.map Prod.fst ++
      (s.inDma.toList ++ (s.staged.toList ++ (s.pc.held ++ s.queue))) ∧
    List.Forall₂ Carries s.frames ((log.filter fun entry => entry.2).map Prod.fst) ∧
    s.cut = (log.filter fun entry => !entry.2).map Prod.fst

theorem delivered_init : Delivered {} := ⟨[], rfl, .nil, rfl⟩

/-- Steps that leave the messages where they are. -/
theorem Delivered.same (h : Delivered s) (hacc : t.accepted = s.accepted)
    (hdma : t.inDma = s.inDma) (hstaged : t.staged = s.staged)
    (hqueue : t.pc.held ++ t.queue = s.pc.held ++ s.queue) (hframes : t.frames = s.frames)
    (hcut : t.cut = s.cut) : Delivered t := by
  obtain ⟨log, hlog, hsent, hlost⟩ := h
  refine ⟨log, ?_, ?_, ?_⟩
  · rw [hacc, hdma, hstaged, hqueue]
    exact hlog
  · rw [hframes]
    exact hsent
  · rw [hcut]
    exact hlost

theorem Owned.staged_none (h : Owned s) (hnext : s.nextTx = .idle) : s.staged = none := by
  cases hst : s.staged with
  | none => rfl
  | some msg =>
      rw [(h.staged msg hst).1] at hnext
      cases hnext

theorem Owned.inDma_none (h : Owned s) (hflight : ¬ s.InFlight) : s.inDma = none := by
  cases hdma : s.inDma with
  | none => rfl
  | some msg => exact absurd (h.inDma msg hdma).1 hflight

/-- A resync cuts what is in the channel. -/
theorem Delivered.rearm (h : Delivered s) (howned : Owned s) (hpc : s.pc = .rearm)
    (hnext : s.nextTx = .idle) : Delivered s.rearm := by
  obtain ⟨log, hlog, hsent, hlost⟩ := h
  rw [howned.staged_none hnext, hpc] at hlog
  cases hdma : s.inDma with
  | none =>
      rw [hdma] at hlog
      refine ⟨log, hlog, hsent, ?_⟩
      simp [Slave.rearm, hdma, hlost]
  | some msg =>
      rw [hdma] at hlog
      refine ⟨log ++ [(msg, false)], ?_, ?_, ?_⟩
      · rw [List.map_append, List.append_assoc]
        exact hlog
      · rw [List.filter_append, List.map_append]
        simpa [Slave.rearm, armDma] using hsent
      · simp [Slave.rearm, hdma, hlost]

theorem Delivered.publish (h : Delivered s) (howned : Owned s) {msg : DspiMsg}
    (hpc : s.pc = .publish msg) :
    Delivered { s with nextTx := .stage, staged := some msg, pc := .pending } := by
  obtain ⟨hnext, -⟩ := howned.staging (by rw [hpc]; trivial)
  obtain ⟨log, hlog, hsent, hlost⟩ := h
  rw [howned.staged_none hnext, hpc] at hlog
  exact ⟨log, hlog, hsent, hlost⟩

theorem Delivered.sample (h : Delivered s) (hpc : s.pc = .sample) : Delivered s.sample := by
  rw [Slave.sample]
  split_ifs with hrest hmoved
  · exact h.same rfl rfl rfl (by simp [hpc, Pc.held]) rfl rfl
  · exact h.same rfl rfl rfl (by simp [hpc, Pc.held]) rfl rfl
  · exact h.same rfl rfl rfl (by simp [hpc, Pc.held]) rfl rfl

theorem Delivered.task (h : Delivered s) (howned : Owned s) (hsettled : s.Settled .task) :
    Delivered s.task := by
  rw [Slave.task]
  cases hpc : s.pc with
  | sample => exact h.sample hpc
  | mask => exact h.same rfl rfl rfl (by simp [hpc, Pc.held]) rfl rfl
  | rearm => exact h.rearm howned hpc (hsettled hpc)
  | check =>
      refine h.same rfl rfl rfl ?_ rfl rfl
      split_ifs <;> simp [hpc, Pc.held]
  | receive =>
      cases hqueue : s.queue with
      | nil => exact h.same rfl rfl rfl (by simp [hpc, hqueue, Pc.held]) rfl rfl
      | cons msg queue => exact h.same rfl rfl rfl (by simp [hpc, hqueue, Pc.held]) rfl rfl
  | more msg => exact h.same rfl rfl rfl (by simp [hpc, Pc.held]) rfl rfl
  | build msg more => exact h.same rfl rfl rfl (by simp [hpc, Pc.held]) rfl rfl
  | publish msg => exact h.publish howned hpc
  | pending => exact h.same rfl rfl rfl (by simp [hpc, Pc.held]) rfl rfl
  | line asserted => exact h.same rfl rfl rfl (by simp [hpc, Pc.held]) rfl rfl

theorem Delivered.isr (h : Delivered s) (howned : Owned s) (hraised : s.irqRaised = true) :
    Delivered s.isr := by
  have hflight : ¬ s.InFlight := by
    rintro ⟨-, hpos⟩
    rw [howned.raised hraised] at hpos
    exact Nat.lt_irrefl 0 hpos
  obtain ⟨log, hlog, hsent, hlost⟩ := h
  rw [howned.inDma_none hflight] at hlog
  exact ⟨log, hlog, hsent, hlost⟩

/-- The last byte of a staged frame settles its message. -/
theorem Delivered.clock (h : Delivered s) (howned : Owned s)
    (hready : 0 < s.remaining ∧ dspiFrameSize - s.remaining < s.read.length) :
    Delivered s.clock := by
  rw [Slave.clock]
  split
  next hlast =>
    cases harmed : s.armed with
    | idle =>
        have hflight : ¬ s.InFlight := by
          rintro ⟨hstage, -⟩
          rw [harmed] at hstage
          cases hstage
        exact h.same rfl (howned.inDma_none hflight).symm rfl rfl (by simp) rfl
    | stage =>
        have hflight : s.InFlight := ⟨harmed, hready.1⟩
        obtain ⟨msg, hdma⟩ := Option.isSome_iff_exists.mp (howned.flight hflight)
        have hcarries := (howned.inDma msg hdma).2
        have hread : s.read = s.stage.toList := by
          refine (howned.read hflight).eq_of_length_le ?_
          rw [Vector.length_toList]
          have hlong := hready.2
          rw [hlast, dspiFrameSize] at hlong
          omega
        obtain ⟨log, hlog, hsent, hlost⟩ := h
        rw [hdma] at hlog
        refine ⟨log ++ [(msg, true)], ?_, ?_, ?_⟩
        · rw [List.map_append, List.append_assoc]
          exact hlog
        · rw [List.filter_append, List.map_append]
          refine List.rel_append hsent (.cons ?_ .nil)
          rw [hread]
          exact hcarries
        · simpa using hlost
  next hlast => exact h.same rfl rfl rfl rfl rfl rfl

theorem Delivered.send (h : Delivered s) (txDepth : Nat) (type : UInt8) (payload : List UInt8)
    (len : Nat) (flags : UInt8) : Delivered (s.send txDepth type payload len flags) := by
  rw [Slave.send]
  split_ifs with hlong hfull
  · exact h
  · exact h
  · obtain ⟨log, hlog, hsent, hlost⟩ := h
    refine ⟨log, ?_, hsent, hlost⟩
    simp only [hlog, List.append_assoc]

theorem Delivered.step (h : Delivered s) (howned : Owned s) {e : Event}
    (hsettled : s.Settled e) (hstep : s.step txDepth e = some t) : Delivered t := by
  cases e with
  | task =>
      cases hstep
      exact h.task howned hsettled
  | isr =>
      rw [Slave.step] at hstep
      split_ifs at hstep with hraised
      cases hstep
      exact h.isr howned hraised.1
  | fetch =>
      rw [Slave.step] at hstep
      split_ifs at hstep with hroom
      cases hstep
      exact h.same rfl rfl rfl rfl rfl rfl
  | clock =>
      rw [Slave.step] at hstep
      split_ifs at hstep with hready
      cases hstep
      exact h.clock howned hready
  | send type payload len flags =>
      cases hstep
      exact h.send txDepth type payload len flags
  | assertLine =>
      rw [Slave.step] at hstep
      split_ifs at hstep with hcall
      cases hstep
      exact h.same rfl rfl rfl rfl rfl rfl

/-- Delivery, where the staging buffer is not overwritten and a resync drops no staged frame. -/
theorem delivered_of_settled {es : List Event}
    (hall : Throughout (step txDepth) (fun s e => s.Drained e ∧ s.Settled e) {} es)
    (hrun : run (step txDepth) {} es = some s) : Delivered s := by
  have hinv : Owned s ∧ Delivered s := by
    refine run_invariant (I := fun u => Owned u ∧ Delivered u) ?_ ⟨owned_init, delivered_init⟩ hall
      hrun
    intro u e v hu hP hs
    exact ⟨hu.1.step hP.1 hs, hu.2.step hu.1 hP.2 hs⟩
  exact hinv.2

/-- Each accepted message has one place. -/
theorem Delivered.length (h : Delivered s) : s.accepted.length =
    s.frames.length + s.cut.length + s.inDma.toList.length + s.staged.toList.length +
      s.pc.held.length + s.queue.length := by
  obtain ⟨log, hlog, hsent, hlost⟩ := h
  have hsplit := List.length_eq_length_filter_add (l := log) fun entry => entry.2
  rw [hlog, hsent.length_eq, hlost]
  simp only [List.length_append, List.length_map]
  omega

/-- A message is staged, clocked and done. -/
def clocked : List Event :=
  post :: List.replicate 8 .task ++ exchange ++ [.isr] ++ exchange

set_option maxRecDepth 20000 in
theorem run_clocked : (run (step 8) {} clocked).map (fun s => s.frames.length) = some 1 := by
  decide

theorem delivered_of_settled_clocked :
    ∃ s, run (step 8) {} clocked = some s ∧ s.frames.length = 1 ∧ Delivered s := by
  obtain ⟨s, hrun, hframes⟩ := Option.map_eq_some_iff.mp run_clocked
  exact ⟨s, hrun, hframes, delivered_of_settled (by decide +kernel) hrun⟩

/-- The master stops in an idle frame while the first message is staged. -/
def stalled : List Event :=
  post :: List.replicate 8 .task ++ [.fetch, .clock] ++ List.replicate 7 .task

/-- The places of messages. -/
def places (s : Slave) : Nat :=
  s.frames.length + s.cut.length + s.inDma.toList.length + s.staged.toList.length +
    s.pc.held.length + s.queue.length

set_option maxRecDepth 20000 in
theorem run_stalled :
    (run (step 8) {} stalled).map (fun s => (s.accepted.length, s.places)) = some (1, 0) := by
  decide

/-- The resync drops the staged message. -/
theorem not_delivered_stalled :
    ¬ ∀ (txDepth : Nat) (es : List Event) (s : Slave), run (step txDepth) {} es = some s →
      Delivered s := by
  intro h
  obtain ⟨s, hrun, hview⟩ := Option.map_eq_some_iff.mp run_stalled
  obtain ⟨haccepted, hplaces⟩ := Prod.mk.inj hview
  have hlength : s.accepted.length = s.places := (h 8 stalled s hrun).length
  rw [haccepted, hplaces] at hlength
  cases hlength

/-! ## The IRQ line -/

/-- The task finds the line needless only when nothing of the staging buffer is clocked, and no
message comes before it has written that to the line. -/
def Steady (s : Slave) : Event → Prop
  | .task => s.pc = .pending → s.nextTx = .idle → s.queue = [] → ¬ s.InFlight
  | .send _ _ _ _ => s.pc ≠ .line false
  | _ => True

instance (s : Slave) (e : Event) : Decidable (s.Steady e) := by
  cases e with
  | task => exact inferInstanceAs (Decidable (_ → _ → _ → _))
  | send => exact inferInstanceAs (Decidable (_ ≠ _))
  | _ => exact .isTrue trivial

/-- Some message is queued, staged or in the channel. -/
def Outstanding (s : Slave) : Prop := s.queue ≠ [] ∨ s.nextTx = .stage ∨ s.InFlight

instance (s : Slave) : Decidable s.Outstanding := inferInstanceAs (Decidable (_ ∨ _ ∨ _))

/-- What the task has found before it writes the line. -/
def Found (s : Slave) : Prop := s.pc = .line false → ¬ s.Outstanding

theorem found_init : Found {} := by simp [Found]

/-- Away from the line, the task has found nothing yet. -/
theorem found_of_pc (h : ∀ asserted, s.pc ≠ .line asserted) : Found s :=
  fun hpc => absurd hpc (h false)

/-- What is outstanding does not become more. -/
theorem Found.mono (h : Found s) (hpc : t.pc = s.pc) (hout : t.Outstanding → s.Outstanding) :
    Found t := by
  intro hline hmore
  rw [hpc] at hline
  exact h hline (hout hmore)

/-- So with what is in the channel. -/
theorem Found.mono_flight (h : Found s) (hpc : t.pc = s.pc) (hqueue : t.queue = s.queue)
    (hnext : t.nextTx = s.nextTx) (hflight : t.InFlight → s.InFlight) : Found t := by
  refine h.mono hpc ?_
  rw [Outstanding, Outstanding, hqueue, hnext]
  exact Or.imp_right (Or.imp_right hflight)

theorem found_sample (s : Slave) : Found s.sample := by
  apply found_of_pc
  intro asserted
  rw [Slave.sample]
  split_ifs with hrest hmoved
  · simp
  · simp
  · simp

/-- The task looks at the queue and at `g_next_tx`, and `Steady` says the rest. -/
theorem found_pending (hpc : s.pc = .pending) (hsteady : s.Steady .task) :
    Found { s with pc := .line s.txPending } := by
  intro hline
  have hquiet : s.txPending = false := Pc.line.inj hline
  simp only [txPending, ne_eq, decide_not, Bool.or_eq_false_iff, Bool.not_eq_eq_eq_not,
    Bool.not_false, decide_eq_true_eq, List.isEmpty_iff] at hquiet
  rintro (hqueue | hnext | hflight)
  · exact hqueue hquiet.2
  · cases hnext.symm.trans hquiet.1
  · exact hsteady hpc hquiet.1 hquiet.2 hflight

theorem found_task (hsteady : s.Steady .task) : Found s.task := by
  rw [Slave.task]
  cases hpc : s.pc with
  | sample => exact found_sample s
  | mask => exact found_of_pc (by simp)
  | rearm => exact found_of_pc (by simp [Slave.rearm])
  | check =>
      apply found_of_pc
      intro asserted
      dsimp only
      split_ifs with hstage
      · simp
      · simp
  | receive =>
      cases hqueue : s.queue with
      | nil => exact found_of_pc (by simp)
      | cons msg queue => exact found_of_pc (by simp)
  | more msg => exact found_of_pc (by simp)
  | build msg more => exact found_of_pc (by simp)
  | publish msg => exact found_of_pc (by simp)
  | pending => exact found_pending hpc hsteady
  | line asserted => exact found_of_pc (by simp)

theorem Found.isr (h : Found s) : Found s.isr := by
  refine h.mono rfl ?_
  rintro (hqueue | hnext | hflight)
  · exact Or.inl hqueue
  · cases hnext
  · exact Or.inr (Or.inl hflight.1)

theorem Found.clock (h : Found s) : Found s.clock := by
  rw [Slave.clock]
  split
  next hlast =>
    refine h.mono_flight rfl rfl rfl ?_
    intro hflight
    exact absurd hflight.2 (Nat.lt_irrefl 0)
  next hlast =>
    refine h.mono_flight rfl rfl rfl ?_
    intro hflight
    exact ⟨hflight.1, Nat.lt_of_lt_of_le hflight.2 (Nat.sub_le _ _)⟩

theorem Found.step (h : Found s) {e : Event} (hsteady : s.Steady e)
    (hstep : s.step txDepth e = some t) : Found t := by
  cases e with
  | task =>
      cases hstep
      exact found_task hsteady
  | isr =>
      rw [Slave.step] at hstep
      split_ifs at hstep with hraised
      cases hstep
      exact h.isr
  | fetch =>
      rw [Slave.step] at hstep
      split_ifs at hstep with hroom
      cases hstep
      exact h
  | clock =>
      rw [Slave.step] at hstep
      split_ifs at hstep with hready
      cases hstep
      exact h.clock
  | send type payload len flags =>
      cases hstep
      rw [Slave.send]
      split_ifs with hlong hfull
      · exact h
      · exact h
      · exact fun hline => absurd hline hsteady
  | assertLine =>
      rw [Slave.step] at hstep
      split_ifs at hstep with hcall
      cases hstep
      exact h

/-- When the task has written the line, it is asserted if a message is outstanding. -/
theorem irqLine_of_outstanding {es : List Event}
    (hsteady : Throughout (step txDepth) Steady {} es) (hrun : run (step txDepth) {} es = some s)
    {asserted : Bool} (hpc : s.pc = .line asserted) (hstep : s.step txDepth .task = some t)
    (hout : t.Outstanding) : t.irqLine = true := by
  have hfound : Found s := run_invariant (fun h hP hs => h.step hP hs) found_init hsteady hrun
  rw [Slave.step, Slave.task, hpc] at hstep
  cases hstep
  cases asserted with
  | true => rfl
  | false => exact absurd hout (hfound hpc)

/-- The task is about to write the line. -/
def atLine (s : Slave) : Bool :=
  match s.pc with
  | .line _ => true
  | _ => false

theorem atLine_iff : s.atLine = true ↔ ∃ asserted, s.pc = .line asserted := by
  rw [atLine]
  cases s.pc <;> simp

/-- A message is staged. -/
def waiting : List Event := [post, .assertLine] ++ List.replicate 7 .task

set_option maxRecDepth 20000 in
theorem run_waiting : (run (step 8) {} waiting).map (fun s =>
    (s.atLine, decide s.task.Outstanding)) = some (true, true) := by
  decide

theorem irqLine_of_outstanding_waiting :
    ∃ s, run (step 8) {} waiting = some s ∧ s.task.Outstanding ∧ s.task.irqLine = true := by
  obtain ⟨s, hrun, hview⟩ := Option.map_eq_some_iff.mp run_waiting
  obtain ⟨hline, hout⟩ := Prod.mk.inj hview
  obtain ⟨asserted, hpc⟩ := atLine_iff.mp hline
  have hout := of_decide_eq_true hout
  exact ⟨s, hrun, hout, irqLine_of_outstanding (by decide) hrun hpc rfl hout⟩

/-- The handler arms the frame of the only message, and the task goes round again. -/
def armedOnly : List Event :=
  [post, .assertLine] ++ List.replicate 8 .task ++ exchange ++ [.isr] ++ List.replicate 3 .task

set_option maxRecDepth 20000 in
theorem run_armedOnly : (run (step 8) {} armedOnly).map (fun s =>
    (s.atLine, decide s.task.Outstanding, s.task.irqLine)) = some (true, true, false) := by
  decide

/-- The line is released while a frame is clocked. -/
theorem irqLine_released_armedOnly :
    ¬ ∀ (txDepth : Nat) (es : List Event) (s t : Slave) (asserted : Bool),
      run (step txDepth) {} es = some s → s.pc = .line asserted →
        s.step txDepth .task = some t → t.Outstanding → t.irqLine = true := by
  intro h
  obtain ⟨s, hrun, hview⟩ := Option.map_eq_some_iff.mp run_armedOnly
  obtain ⟨hline, hview⟩ := Prod.mk.inj hview
  obtain ⟨hout, hreleased⟩ := Prod.mk.inj hview
  obtain ⟨asserted, hpc⟩ := atLine_iff.mp hline
  have htrue := h 8 armedOnly s s.task asserted hrun hpc rfl (of_decide_eq_true hout)
  rw [hreleased] at htrue
  cases htrue

end Slave

end MFoES.Northbridge.Dspi
