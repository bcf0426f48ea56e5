import MFoES.Lib.SharedBuffer
import MFoES.Southbridge.FrameFormat

/-!
# A reset beside the transmit thread

`reset` drains the ring, packs its frame into `tx_buf_` and transfers it.  The transmit thread packs
its own frames into the same buffer, and takes the lock for the transfer only, as `reset` does.  A
frame that it popped, or puts back because the Pico was busy, is not in the ring when `reset` drains
it.

Every byte that is packed or transferred is a step of its own.  An operation of the ring is one
step.  Where the two keep out of each other's way (`Apart`), a reset is clean (`clean_run`).
-/

namespace MFoES.Southbridge.Reset

open LittleEndian SharedBuffer Transition

variable {k : Nat}

/-! ## The two threads -/

/-- `memset` of `tx_buf_`. -/
def cleared : List (Nat × UInt8) := writesAt 0 (List.replicate sbFrameBytes 0)

/-- `memset`, and `memcpy` of bytes to the front. -/
def packing (bytes : List UInt8) : List (Nat × UInt8) :=
  cleared ++ writesAt 0 (bytes.take sbFrameBytes)

/-- Where `tx_loop` is. -/
inductive TxLoop where
  /-- After the wait. -/
  | pop
  | underrun
  | silence (todo : List (Nat × UInt8))
  /-- The number of the silence frame is drawn. -/
  | silenceSeq
  | silenceTail (todo : List (Nat × UInt8))
  | popped (frame : AudioFrame)
  | atBuffer (frame : AudioFrame) (use : Use UInt8)
  /-- The status is looked at. -/
  | status (frame : AudioFrame)
  | requeue (frame : AudioFrame)

/-- Where `reset` is. -/
inductive ResetCall where
  /-- Not called yet. -/
  | idle
  | storeSeq
  | drain
  | drained
  | atBuffer (use : Use UInt8)
  | returned

/-- What the two share, and where they are. -/
structure State (k : Nat) where
  ring : RingBuffer k AudioFrame
  seq : UInt32
  port : Port UInt8
  tx : TxLoop
  reset : ResetCall

/-- The next step of a thread.  `reply` is the status that `tx_loop` finds in `rx_buf_`. -/
inductive Event where
  | tx
  | reply (status : UInt8)
  | reset

/-- The next step of `tx_loop`. -/
def txStep (cfg : Config) (s : State k) : Option (State k) :=
  match s.tx with
  | .pop =>
      match s.ring.pop with
      | none => some { s with tx := if cfg.sendSilenceOnUnderrun then .underrun else .pop }
      | some (frame, ring) => some { s with ring := ring, tx := .popped frame }
  | .underrun =>
      some { s with
        tx := .silence (cleared ++ writesAt 0 [sbFrameMagicHi, sbFrameMagicLo, sbFtypeSilence]) }
  | .silence [] => some { s with tx := .silenceSeq }
  | .silence (w :: todo) =>
      some { s with port.buf := s.port.buf.set w.1 w.2, tx := .silence todo }
  | .silenceSeq => some { s with seq := s.seq + 1, tx := .silenceTail (writesAt 4 (le32 s.seq)) }
  | .silenceTail [] => some { s with tx := .pop }
  | .silenceTail (w :: todo) =>
      some { s with port.buf := s.port.buf.set w.1 w.2, tx := .silenceTail todo }
  | .popped frame => some { s with tx := .atBuffer frame (.fill (packing frame.bytes)) }
  | .atBuffer frame use =>
      (use.step s.port).map fun r =>
        { s with port := r.1, tx := r.2.elim (.status frame) (.atBuffer frame) }
  | .status _ => none
  | .requeue frame => some { s with ring := s.ring.pushOverwrite frame, tx := .pop }

/-- `tx_loop` looks at the status of a transfer. -/
def replyStep (s : State k) (status : UInt8) : Option (State k) :=
  match s.tx with
  | .status frame =>
      some { s with tx := if status &&& sbStatusBusy ≠ 0 then .requeue frame else .pop }
  | _ => none

/-- The next step of `reset`. -/
def resetStep (s : State k) : Option (State k) :=
  match s.reset with
  | .idle => some { s with reset := .storeSeq }
  | .storeSeq => some { s with seq := 0, reset := .drain }
  | .drain =>
      match s.ring.pop with
      | none => some { s with reset := .drained }
      | some (_, ring) => some { s with ring := ring }
  | .drained => some { s with reset := .atBuffer (.fill (packing (resetFrame.bytes.take 8))) }
  | .atBuffer use =>
      (use.step s.port).map fun r => { s with port := r.1, reset := r.2.elim .returned .atBuffer }
  | .returned => none

/-- One event. -/
def step (cfg : Config) (s : State k) : Event → Option (State k)
  | .tx => txStep cfg s
  | .reply status => replyStep s status
  | .reset => resetStep s

/-- A call of `reset` beside `tx_loop`, with frames in the ring and any bytes in `tx_buf_`. -/
def init (ring : RingBuffer k AudioFrame) (seq : UInt32) (txBuf : Vector UInt8 sbFrameBytes) :
    State k :=
  ⟨ring, seq, ⟨txBuf.toList, false, []⟩, .pop, .idle⟩

/-! ## A clean reset -/

/-- What was clocked out: complete frames of one of the two, and behind the frame of `reset` none
of the frames that were enqueued. -/
structure Clean (old : List AudioFrame) (clocked : List (List UInt8)) : Prop where
  complete : ∀ b ∈ clocked, b = resetTxBuf ∨ ∃ f ∈ old, b = f.txBuf
  after : ∀ a c, clocked = a ++ resetTxBuf :: c → ∀ f ∈ old, f.txBuf ∉ c

/-- `tx_loop` has begun to write to `tx_buf_`, and is not through with it. -/
def TxLoop.OnBuffer : TxLoop → Prop
  | silence _ | silenceSeq | silenceTail _ | atBuffer _ _ => True
  | _ => False

/-- `tx_loop` has a frame that it is still to transfer or to put back. -/
def TxLoop.Owes : TxLoop → Prop
  | popped _ | atBuffer _ _ | requeue _ => True
  | _ => False

/-- `reset` has begun to write to `tx_buf_`, and is not through with it. -/
def ResetCall.OnBuffer : ResetCall → Prop
  | atBuffer _ => True
  | _ => False

/-- The frame of `reset` has the lock, or is out. -/
def ResetCall.Sends : ResetCall → Prop
  | atBuffer (.send _) | returned => True
  | _ => False

/-- The two keep apart: neither begins to write to `tx_buf_` while the other is at it; when `reset`
takes the lock, no frame is left that was enqueued; and then no transfer is found to be busy. -/
def Apart (s : State k) : Event → Prop
  | .tx =>
      match s.tx with
      | .popped _ | .underrun => ¬ s.reset.OnBuffer
      | _ => True
  | .reply status => s.reset.Sends → status &&& sbStatusBusy = 0
  | .reset =>
      match s.reset with
      | .drained => ¬ s.tx.OnBuffer
      | .atBuffer .lock => s.ring.contents = [] ∧ ¬ s.tx.Owes
      | _ => True

/-! ## What is packed -/

theorem length_filled (bytes : List UInt8) : (filled bytes).length = sbFrameBytes := by
  rw [filled, List.length_append, List.length_take, List.length_replicate]
  omega

/-- Whatever was in the buffer, packing leaves the bytes in front of zeros. -/
theorem write_packing {buf : List UInt8} (h : buf.length = sbFrameBytes) (bytes : List UInt8) :
    write buf (packing bytes) = filled bytes := by
  have hclear : write buf cleared = List.replicate sbFrameBytes 0 := by
    rw [cleared, write_front (by rw [List.length_replicate, h]), List.length_replicate, ← h,
      List.drop_length, List.append_nil]
  have hlen : (bytes.take sbFrameBytes).length = min sbFrameBytes bytes.length :=
    List.length_take
  have hrest : sbFrameBytes - min sbFrameBytes bytes.length = sbFrameBytes - bytes.length := by
    omega
  rw [packing, write_append, hclear, write_front, filled, List.drop_replicate, hlen, hrest]
  rw [List.length_replicate, hlen]
  exact Nat.min_le_left _ _

/-- An audio frame is not the frame of `reset`. -/
theorem txBuf_ne_resetTxBuf {f : AudioFrame} (h : f.frameType = sbFtypeAudio) :
    f.txBuf ≠ resetTxBuf := by
  intro heq
  have htype : f.txBuf[2]? = some f.frameType := rfl
  rw [heq, h] at htype
  exact absurd htype (by decide)

/-! ## The invariant -/

/-- A buffer with a frame that was enqueued. -/
def IsOld (old : List AudioFrame) (b : List UInt8) : Prop := ∃ f ∈ old, b = f.txBuf

/-- Where the two are that keep apart, with the frames `old` enqueued. -/
structure Inv (old : List AudioFrame) (s : State k) : Prop where
  length : s.port.buf.length = sbFrameBytes
  ring : ∀ f ∈ s.ring.contents, f ∈ old
  held : ∀ f, s.tx = .popped f ∨ s.tx = .status f ∨ s.tx = .requeue f → f ∈ old
  tx_carries : ∀ f use, s.tx = .atBuffer f use → f ∈ old ∧ use.Carries f.txBuf s.port.buf
  reset_carries : ∀ use, s.reset = .atBuffer use → use.Carries resetTxBuf s.port.buf
  apart : s.tx.OnBuffer → ¬ s.reset.OnBuffer
  sent : s.reset.Sends → s.ring.contents = [] ∧ ¬ s.tx.Owes
  before : s.reset ≠ .returned → ∀ b ∈ s.port.sent, IsOld old b
  after : s.reset = .returned → ∃ a, s.port.sent = a ++ [resetTxBuf] ∧ ∀ b ∈ a, IsOld old b

section Steps

variable {cfg : Config} {old : List AudioFrame} {s t : State k}

theorem Inv.init {ring : RingBuffer k AudioFrame} (seq : UInt32)
    (txBuf : Vector UInt8 sbFrameBytes) : Inv ring.contents (init ring seq txBuf) where
  length := txBuf.length_toList
  ring := fun _ hf => hf
  held := by simp [Reset.init]
  tx_carries := by simp [Reset.init]
  reset_carries := by simp [Reset.init]
  apart := False.elim
  sent := False.elim
  before := fun _ b hb => absurd hb List.not_mem_nil
  after := by simp [Reset.init]

/-- What is popped was enqueued. -/
theorem mem_of_pop {ring ring' : RingBuffer k AudioFrame} {frame : AudioFrame}
    (h : ring.pop = some (frame, ring')) (hring : ∀ f ∈ ring.contents, f ∈ old) :
    frame ∈ old ∧ ∀ f ∈ ring'.contents, f ∈ old := by
  have hcontents := ring.contents_pop h
  rw [hcontents] at hring
  exact List.forall_mem_cons.mp hring

/-- What is put back was enqueued. -/
theorem mem_pushOverwrite {ring : RingBuffer k AudioFrame} {frame f : AudioFrame}
    (h : f ∈ (ring.pushOverwrite frame).contents) : f ∈ ring.contents ∨ f = frame := by
  by_cases hfull : ring.size + 1 = 2 ^ k
  · rw [ring.pushOverwrite_of_full frame hfull] at h
    have hmem := List.mem_of_mem_tail h
    rwa [List.mem_append, List.mem_singleton] at hmem
  · rw [ring.pushOverwrite_of_room frame hfull] at h
    rwa [List.mem_append, List.mem_singleton] at h

/-- A step of `tx_loop` that leaves the buffer, the ring and what was sent. -/
theorem Inv.moveTx (h : Inv old s) {seq : UInt32} {tx : TxLoop}
    (hheld : ∀ f, tx = .popped f ∨ tx = .status f ∨ tx = .requeue f → f ∈ old)
    (hcarries : ∀ f use, tx = .atBuffer f use → f ∈ old ∧ use.Carries f.txBuf s.port.buf)
    (hapart : tx.OnBuffer → ¬ s.reset.OnBuffer) (hsent : s.reset.Sends → ¬ tx.Owes) :
    Inv old { s with seq := seq, tx := tx } where
  length := h.length
  ring := h.ring
  held := hheld
  tx_carries := hcarries
  reset_carries := h.reset_carries
  apart := hapart
  sent := fun hs => ⟨(h.sent hs).1, hsent hs⟩
  before := h.before
  after := h.after

/-- `tx_loop` writes a byte of a silence frame. -/
theorem Inv.writeSilence (h : Inv old s) (w : Nat × UInt8) {tx : TxLoop} (hs : s.tx.OnBuffer)
    (htx : ∃ todo, tx = .silence todo ∨ tx = .silenceTail todo) :
    Inv old { s with port.buf := s.port.buf.set w.1 w.2, tx := tx } where
  length := List.length_set.trans h.length
  ring := h.ring
  held := by
    obtain ⟨todo, rfl | rfl⟩ := htx <;> simp
  tx_carries := by
    obtain ⟨todo, rfl | rfl⟩ := htx <;> simp
  reset_carries := fun use huse => absurd (by rw [huse]; trivial) (h.apart hs)
  apart := fun _ => h.apart hs
  sent := fun hsends => ⟨(h.sent hsends).1, by
    obtain ⟨todo, rfl | rfl⟩ := htx <;> exact id⟩
  before := h.before
  after := h.after

/-- `tx_loop` packs and transfers a frame. -/
theorem Inv.useTx (h : Inv old s) {frame : AudioFrame} {use : Use UInt8}
    (htx : s.tx = .atBuffer frame use) {port : Port UInt8} {next : Option (Use UInt8)}
    (hstep : use.step s.port = some (port, next)) :
    Inv old { s with port := port, tx := next.elim (.status frame) (.atBuffer frame) } := by
  obtain ⟨hold, hcarries⟩ := h.tx_carries frame use htx
  have hreset : ¬ s.reset.OnBuffer := h.apart (by rw [htx]; trivial)
  have howes : ¬ s.reset.Sends := fun hsends => (h.sent hsends).2 (by rw [htx]; trivial)
  have hopen : s.reset ≠ .returned := fun heq => howes (by rw [heq]; trivial)
  have hlength := (use.length_step hstep).trans h.length
  rcases hcarries.step hstep with ⟨v, rfl, hv, hsame⟩ | ⟨rfl, hsent⟩
  · refine ⟨hlength, h.ring, by simp, ?_, ?_, fun _ => hreset, fun hsends => absurd hsends howes,
      ?_, fun heq => absurd heq hopen⟩
    · intro f use' heq
      cases heq
      exact ⟨hold, hv⟩
    · exact fun use' heq => absurd (by rw [heq]; trivial) hreset
    · intro _ b hb
      rw [hsame] at hb
      exact h.before hopen b hb
  · refine ⟨hlength, h.ring, ?_, by simp, ?_, fun _ => hreset, fun hsends => absurd hsends howes,
      ?_, fun heq => absurd heq hopen⟩
    · intro f hf
      simp only [Option.elim_none, reduceCtorEq, TxLoop.status.injEq, false_or, or_false] at hf
      exact hf ▸ hold
    · exact fun use' heq => absurd (by rw [heq]; trivial) hreset
    · intro _ b hb
      rw [hsent, List.mem_append, List.mem_singleton] at hb
      rcases hb with hb | rfl
      · exact h.before hopen b hb
      · exact ⟨frame, hold, rfl⟩

theorem Inv.txStep (h : Inv old s) (hapart : Apart s .tx) (hstep : txStep cfg s = some t) :
    Inv old t := by
  rw [Apart] at hapart
  rw [Reset.txStep] at hstep
  cases htx : s.tx with
  | pop =>
      rw [htx] at hstep
      dsimp only at hstep
      cases hpop : s.ring.pop with
      | none =>
          rw [hpop] at hstep
          cases hstep
          refine h.moveTx ?_ ?_ ?_ ?_
          all_goals split <;> simp [TxLoop.OnBuffer, TxLoop.Owes]
      | some r =>
          obtain ⟨frame, ring⟩ := r
          rw [hpop] at hstep
          cases hstep
          obtain ⟨hold, hring⟩ := mem_of_pop hpop h.ring
          refine ⟨h.length, hring, ?_, by simp, h.reset_carries, False.elim, fun hsends => ?_,
            h.before, h.after⟩
          · intro f hf
            simp only [TxLoop.popped.injEq, reduceCtorEq, or_false] at hf
            exact hf ▸ hold
          · have hcontents := s.ring.contents_pop hpop
            rw [(h.sent hsends).1] at hcontents
            cases hcontents
  | underrun =>
      rw [htx] at hstep hapart
      cases hstep
      exact h.moveTx (by simp) (by simp) (fun _ => hapart) fun _ => id
  | silence todo =>
      have hon : s.tx.OnBuffer := by rw [htx]; trivial
      rw [htx] at hstep
      cases todo with
      | nil =>
          cases hstep
          exact h.moveTx (by simp) (by simp) (fun _ => h.apart hon) fun _ => id
      | cons w todo =>
          cases hstep
          exact h.writeSilence w hon ⟨todo, Or.inl rfl⟩
  | silenceSeq =>
      have hon : s.tx.OnBuffer := by rw [htx]; trivial
      rw [htx] at hstep
      cases hstep
      exact h.moveTx (by simp) (by simp) (fun _ => h.apart hon) fun _ => id
  | silenceTail todo =>
      have hon : s.tx.OnBuffer := by rw [htx]; trivial
      rw [htx] at hstep
      cases todo with
      | nil =>
          cases hstep
          exact h.moveTx (by simp) (by simp) False.elim fun _ => id
      | cons w todo =>
          cases hstep
          exact h.writeSilence w hon ⟨todo, Or.inr rfl⟩
  | popped frame =>
      have howes : ¬ s.reset.Sends := fun hsends => (h.sent hsends).2 (by rw [htx]; trivial)
      have hold := h.held frame (Or.inl htx)
      rw [htx] at hstep hapart
      cases hstep
      refine h.moveTx (by simp) ?_ (fun _ => hapart) fun hsends => absurd hsends howes
      intro f use heq
      cases heq
      exact ⟨hold, write_packing h.length _⟩
  | atBuffer frame use =>
      rw [htx] at hstep
      obtain ⟨⟨port, next⟩, huse, rfl⟩ := Option.map_eq_some_iff.mp hstep
      exact h.useTx htx huse
  | status frame =>
      rw [htx] at hstep
      cases hstep
  | requeue frame =>
      have howes : ¬ s.reset.Sends := fun hsends => (h.sent hsends).2 (by rw [htx]; trivial)
      have hold := h.held frame (Or.inr (Or.inr htx))
      rw [htx] at hstep
      cases hstep
      refine ⟨h.length, fun f hf => ?_, by simp, by simp, h.reset_carries, False.elim,
        fun hsends => absurd hsends howes, h.before, h.after⟩
      rcases mem_pushOverwrite hf with hf | rfl
      · exact h.ring f hf
      · exact hold

theorem Inv.replyStep (h : Inv old s) {status : UInt8} (hapart : Apart s (.reply status))
    (hstep : replyStep s status = some t) : Inv old t := by
  rw [Reset.replyStep] at hstep
  split at hstep
  · next frame htx =>
    have hold := h.held frame (Or.inr (Or.inl htx))
    cases hstep
    refine h.moveTx ?_ ?_ ?_ ?_
    · split
      · intro f hf
        simp only [reduceCtorEq, TxLoop.requeue.injEq, false_or] at hf
        exact hf ▸ hold
      · simp
    · split <;> simp
    · split <;> exact False.elim
    · intro hsends
      rw [if_neg (not_not.mpr (hapart hsends))]
      exact id
  · cases hstep

/-- A step of `reset` that leaves the buffer, the ring and what was sent. -/
theorem Inv.moveReset (h : Inv old s) {seq : UInt32} {reset : ResetCall}
    (hcarries : ∀ use, reset = .atBuffer use → use.Carries resetTxBuf s.port.buf)
    (hapart : s.tx.OnBuffer → ¬ reset.OnBuffer) (hsent : ¬ reset.Sends)
    (hopen : s.reset ≠ .returned) : Inv old { s with seq := seq, reset := reset } where
  length := h.length
  ring := h.ring
  held := h.held
  tx_carries := h.tx_carries
  reset_carries := hcarries
  apart := hapart
  sent := fun hs => absurd hs hsent
  before := fun _ => h.before hopen
  after := by
    rintro rfl
    exact absurd trivial hsent

/-- `reset` packs and transfers its frame. -/
theorem Inv.useReset (h : Inv old s) {use : Use UInt8} (hreset : s.reset = .atBuffer use)
    (hlock : use = .lock → s.ring.contents = [] ∧ ¬ s.tx.Owes) {port : Port UInt8}
    {next : Option (Use UInt8)} (hstep : use.step s.port = some (port, next)) :
    Inv old { s with port := port, reset := next.elim .returned .atBuffer } := by
  have hcarries := h.reset_carries use hreset
  have htx : ¬ s.tx.OnBuffer := fun hon => h.apart hon (by rw [hreset]; trivial)
  have hopen : s.reset ≠ .returned := by rw [hreset]; simp
  have hlength := (use.length_step hstep).trans h.length
  -- a sending user had the lock, or has just taken it
  have hsends : ∀ v, next = some (.send v) ∨ next = none → s.ring.contents = [] ∧ ¬ s.tx.Owes := by
    intro v hv
    cases use with
    | fill todo => cases todo <;> (cases hstep; simp at hv)
    | lock => exact hlock rfl
    | send out => exact h.sent (by rw [hreset]; trivial)
  rcases hcarries.step hstep with ⟨v, rfl, hv, hsame⟩ | ⟨rfl, hsent⟩
  · refine ⟨hlength, h.ring, h.held, fun f use' heq => absurd (by rw [heq]; trivial) htx, ?_,
      fun hon => absurd hon htx, ?_, ?_, by simp⟩
    · intro use' heq
      cases heq
      exact hv
    · intro hsend
      cases v with
      | fill todo => exact hsend.elim
      | lock => exact hsend.elim
      | send out => exact hsends out (Or.inl rfl)
    · intro _ b hb
      rw [hsame] at hb
      exact h.before hopen b hb
  · refine ⟨hlength, h.ring, h.held, fun f use' heq => absurd (by rw [heq]; trivial) htx, by simp,
      fun hon => absurd hon htx, fun _ => hsends [] (Or.inr rfl), fun hne => absurd rfl hne,
      fun _ => ⟨s.port.sent, hsent, h.before hopen⟩⟩

theorem Inv.resetStep (h : Inv old s) (hapart : Apart s .reset) (hstep : resetStep s = some t) :
    Inv old t := by
  rw [Apart] at hapart
  rw [Reset.resetStep] at hstep
  cases hreset : s.reset with
  | idle =>
      rw [hreset] at hstep
      cases hstep
      exact h.moveReset (by simp) (fun _ => id) id (by simp [hreset])
  | storeSeq =>
      rw [hreset] at hstep
      cases hstep
      exact h.moveReset (by simp) (fun _ => id) id (by simp [hreset])
  | drain =>
      rw [hreset] at hstep
      dsimp only at hstep
      cases hpop : s.ring.pop with
      | none =>
          rw [hpop] at hstep
          cases hstep
          exact h.moveReset (by simp) (fun _ => id) id (by simp [hreset])
      | some r =>
          obtain ⟨frame, ring⟩ := r
          rw [hpop] at hstep
          cases hstep
          exact ⟨h.length, (mem_of_pop hpop h.ring).2, h.held, h.tx_carries, by simp,
            fun _ => id, False.elim, fun _ => h.before (by simp [hreset]), by simp⟩
  | drained =>
      rw [hreset] at hstep hapart
      cases hstep
      refine h.moveReset ?_ (fun hon => absurd hon hapart) id (by simp [hreset])
      intro use heq
      cases heq
      exact write_packing h.length _
  | atBuffer use =>
      have hlock : use = .lock → s.ring.contents = [] ∧ ¬ s.tx.Owes := by
        rintro rfl
        rw [hreset] at hapart
        exact hapart
      rw [hreset] at hstep
      obtain ⟨⟨port, next⟩, huse, rfl⟩ := Option.map_eq_some_iff.mp hstep
      exact h.useReset hreset hlock huse
  | returned =>
      rw [hreset] at hstep
      cases hstep

/-- The two keep it up. -/
theorem Inv.step (h : Inv old s) {e : Event} (hapart : Apart s e)
    (hstep : step cfg s e = some t) : Inv old t := by
  cases e with
  | tx => exact h.txStep hapart hstep
  | reply status => exact h.replyStep hapart hstep
  | reset => exact h.resetStep hapart hstep

/-- The frame of `reset` comes at most once, and last. -/
theorem Inv.clean (h : Inv old s) (hold : ∀ f ∈ old, f.frameType = sbFtypeAudio) :
    Clean old s.port.sent := by
  have hne : ∀ b, IsOld old b → b ≠ resetTxBuf := by
    rintro b ⟨f, hf, rfl⟩
    exact txBuf_ne_resetTxBuf (hold f hf)
  by_cases hreset : s.reset = .returned
  · obtain ⟨a, hsent, ha⟩ := h.after hreset
    rw [hsent]
    refine ⟨fun b hb => ?_, fun a' c hsplit f hf hmem => ?_⟩
    · rw [List.mem_append, List.mem_singleton] at hb
      rcases hb with hb | rfl
      · exact Or.inr (ha b hb)
      · exact Or.inl rfl
    · -- a second one would be one of the frames before it
      have hlen : c = [] := by
        by_contra hc
        have hin : resetTxBuf ∈ a := by
          have hdrop := congrArg List.dropLast hsplit
          rw [List.dropLast_concat, List.dropLast_append_cons,
            List.dropLast_cons_of_ne_nil hc] at hdrop
          rw [hdrop]
          exact List.mem_append_right _ List.mem_cons_self
        exact hne _ (ha _ hin) rfl
      rw [hlen] at hmem
      exact List.not_mem_nil hmem
  · have hbefore := h.before hreset
    refine ⟨fun b hb => Or.inr (hbefore b hb), fun a c hsplit => ?_⟩
    have hin : resetTxBuf ∈ s.port.sent := by
      rw [hsplit]
      exact List.mem_append_right _ List.mem_cons_self
    exact absurd rfl (hne _ (hbefore _ hin))

end Steps

section Escapes

variable (cfg : Config) {s : State k}

/-- `tx_loop` goes on alone until its frame is out. -/
theorem exists_run_tx {port : Port UInt8} {use : Use UInt8} {q : Port UInt8}
    (h : use.Finishes port q) {frame : AudioFrame} (hport : s.port = port)
    (htx : s.tx = .atBuffer frame use) :
    ∃ es, run (step cfg) s es = some { s with port := q, tx := .status frame } := by
  induction h generalizing s with
  | last hstep =>
      refine ⟨[.tx], ?_⟩
      subst hport
      simp [run, step, txStep, htx, hstep]
  | @next p p' q u v hstep _ ih =>
      subst hport
      obtain ⟨es, hes⟩ := ih (s := { s with port := p', tx := .atBuffer frame v }) rfl rfl
      refine ⟨.tx :: es, ?_⟩
      rw [run_cons (t := { s with port := p', tx := .atBuffer frame v }), hes]
      simp [step, txStep, htx, hstep]

/-- `reset` goes on alone until it returns. -/
theorem exists_run_reset {port : Port UInt8} {use : Use UInt8} {q : Port UInt8}
    (h : use.Finishes port q) (hport : s.port = port) (hreset : s.reset = .atBuffer use) :
    ∃ es, run (step cfg) s es = some { s with port := q, reset := .returned } := by
  induction h generalizing s with
  | last hstep =>
      refine ⟨[.reset], ?_⟩
      subst hport
      simp [run, step, resetStep, hreset, hstep]
  | @next p p' q u v hstep _ ih =>
      subst hport
      obtain ⟨es, hes⟩ := ih (s := { s with port := p', reset := .atBuffer v }) rfl rfl
      refine ⟨.reset :: es, ?_⟩
      rw [run_cons (t := { s with port := p', reset := .atBuffer v }), hes]
      simp [step, resetStep, hreset, hstep]

end Escapes

/-- A frame that was popped before the drain goes out behind the frame of `reset`. -/
theorem exists_run_escape (cfg : Config) {ring ring' : RingBuffer k AudioFrame} {frame : AudioFrame}
    (hpop : ring.pop = some (frame, ring')) (hempty : ring'.contents = []) (seq : UInt32)
    (txBuf : Vector UInt8 sbFrameBytes) :
    ∃ es s, run (step cfg) (init ring seq txBuf) es = some s ∧
      s.port.sent = [resetTxBuf, frame.txBuf] := by
  have hpacked : write txBuf.toList (packing (resetFrame.bytes.take 8)) = resetTxBuf :=
    write_packing txBuf.length_toList _
  have hpacked' : write resetTxBuf (packing frame.bytes) = frame.txBuf :=
    write_packing (length_filled _) _
  have hreset := Use.finishes_fill (packing (resetFrame.bytes.take 8)) txBuf.toList []
  have hframe := Use.finishes_fill (packing frame.bytes) resetTxBuf [resetTxBuf]
  rw [hpacked] at hreset
  rw [hpacked'] at hframe
  have hdrained : ring'.pop = none := RingBuffer.pop_eq_none.mpr hempty
  let s : State k := ⟨ring', 0, ⟨txBuf.toList, false, []⟩, .popped frame,
    .atBuffer (.fill (packing (resetFrame.bytes.take 8)))⟩
  let t : State k := ⟨ring', 0, ⟨resetTxBuf, false, [resetTxBuf]⟩,
    .atBuffer frame (.fill (packing frame.bytes)), .returned⟩
  have hbegin : run (step cfg) (init ring seq txBuf)
      [.tx, .reset, .reset, .reset, .reset] = some s := by
    simp [run, step, txStep, resetStep, init, hpop, hdrained, s]
  obtain ⟨es, hes⟩ := exists_run_reset cfg (s := s) hreset rfl rfl
  have hpack : run (step cfg)
      { s with port := ⟨resetTxBuf, false, [resetTxBuf]⟩, reset := .returned } [.tx] = some t := rfl
  obtain ⟨es', hes'⟩ := exists_run_tx cfg (s := t) hframe rfl rfl
  exact ⟨_, _, run_trans hbegin (run_trans hes (run_trans hpack hes')), rfl⟩

/-- A ring with one frame. -/
def oneFrame : RingBuffer 1 AudioFrame :=
  (RingBuffer.init fun _ => audioFrame 0 []).pushOverwrite (audioFrame 0 [])

theorem contents_oneFrame : oneFrame.contents = [audioFrame 0 []] := by
  have hempty := RingBuffer.contents_init fun _ : Fin (2 ^ 1) => audioFrame 0 []
  rw [oneFrame, RingBuffer.pushOverwrite_of_room, hempty, List.nil_append]
  rw [← RingBuffer.length_contents, hempty]
  decide

end MFoES.Southbridge.Reset
