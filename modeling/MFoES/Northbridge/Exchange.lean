import MFoES.Northbridge.Frame
import MFoES.Lib.Transition

/-!
# The host's transmit queue

`send` puts a frame on `tx_queue_`, from any thread.  The link thread works in
rounds of `exchange`: it pops a frame, clocks it (or the idle frame) to the
northbridge, and either counts the exchange or, where the transfer throws, an error.
The queue has a lock of its own, so a `send` may fall between the two halves of a
round, and `Event` has them apart.

`accepted` and `clocked` keep what a run did: the frames that `send` said `true` for,
and what a transfer with such a frame clocked.  A frame is popped before the transfer
that can throw, so a failed transfer that carried one loses it.
-/

namespace MFoES.Northbridge.Link

open Transition

/-! ## Queue -/

/-- The part of `LinkImpl` that `tx_mutex_` guards.  An entry is a frame, with what a
run notes about it. -/
structure Tx (α : Type) where
  txQueue : List α := []
  txDropped : Nat := 0

/-- The frame that `send` makes of its arguments. -/
def frameOf (type : UInt8) (data : Option (List UInt8)) (len : Nat) : Frame where
  type := type
  len := UInt8.ofNat len
  flags := 0
  payload :=
    match data with
    | some src => memcpy (Vector.replicate 58 0) 0 src len
    | none => Vector.replicate 58 0

section Queue

variable {α : Type} (txQueueDepth : Nat) (s : Tx α) (note : Frame → α) (type : UInt8)
  (data : Option (List UInt8)) (len : Nat)

/-- `LinkImpl::send`. -/
def Tx.send : Bool × Tx α :=
  if kPayloadMax < len then (false, s)
  else if txQueueDepth ≤ s.txQueue.length then (false, { s with txDropped := s.txDropped + 1 })
  else (true, { s with txQueue := s.txQueue ++ [note (frameOf type data len)] })

/-- `LinkImpl::pop_tx`: the frame, `more` and what is left. -/
def Tx.popTx : Option ((α × Bool) × Tx α) :=
  match s.txQueue with
  | [] => none
  | f :: queue => some ((f, !queue.isEmpty), { s with txQueue := queue })

theorem Tx.send_queue : (s.send txQueueDepth note type data len).2.txQueue =
    s.txQueue ++
      if (s.send txQueueDepth note type data len).1 then [note (frameOf type data len)] else [] := by
  rw [send]
  split_ifs <;> simp_all

end Queue

/-- The bytes `exchange` clocks for a popped frame. -/
def wire (f : Frame) (more : Bool) : RawFrame := buildFrame f.type f.payload.toList f.len more

/-! ## Rounds -/

/-- Where the link thread is. -/
inductive Round where
  /-- Between two calls of `exchange`. -/
  | between
  /-- In `exchange`, with what `pop_tx` gave. -/
  | clocking (outgoing : Option (Frame × Bool))
deriving DecidableEq

/-- The link, as far as sending goes. -/
structure Sender where
  tx : Tx Frame := {}
  round : Round := .between
  exchanges : Nat := 0
  framesTx : Nat := 0
  spiErrors : Nat := 0
  /-- The frames that `send` returned `true` for. -/
  accepted : List Frame := []
  /-- What the successful transfers clocked, but for idle frames. -/
  clocked : List RawFrame := []

/-- What the threads do. -/
inductive Event where
  | send (type : UInt8) (data : Option (List UInt8)) (len : Nat)
  /-- The first half of `exchange`. -/
  | pop
  /-- The second half, with a transfer that does not throw or that does. -/
  | transfer (ok : Bool)

/-- The end of a round. -/
def Sender.transfer (s : Sender) (outgoing : Option (Frame × Bool)) (ok : Bool) : Sender :=
  if ok then
    match outgoing with
    | some (f, more) =>
      { s with
        round := .between
        exchanges := s.exchanges + 1
        framesTx := s.framesTx + 1
        clocked := s.clocked ++ [wire f more] }
    | none => { s with round := .between, exchanges := s.exchanges + 1 }
  else { s with round := .between, spiErrors := s.spiErrors + 1 }

/-- One step of a thread. -/
def Sender.step (txQueueDepth : Nat) (s : Sender) : Event → Option Sender
  | .send type data len =>
    let sent := s.tx.send txQueueDepth id type data len
    some { s with
      tx := sent.2
      accepted := s.accepted ++ if sent.1 then [frameOf type data len] else [] }
  | .pop =>
    match s.round with
    | .clocking _ => none
    | .between =>
      match s.tx.popTx with
      | some (outgoing, tx) => some { s with tx, round := .clocking (some outgoing) }
      | none => some { s with round := .clocking none }
  | .transfer ok =>
    match s.round with
    | .between => none
    | .clocking outgoing => some (s.transfer outgoing ok)

/-! ## Accounts -/

/-- The bytes carry a frame. -/
def Carries (raw : RawFrame) (f : Frame) : Prop := ∃ more, raw = wire f more

/-- The frame that a round has popped. -/
def Round.held : Round → List Frame
  | .clocking (some (f, _)) => [f]
  | .clocking none => []
  | .between => []

/-- Every accepted frame is in the queue or has been clocked, once and in order. -/
def Sender.Delivered (s : Sender) : Prop :=
  ∃ sent, s.accepted = sent ++ s.tx.txQueue ∧ List.Forall₂ Carries s.clocked sent

/-- The same while a round is under way. -/
def Sender.Accounted (s : Sender) : Prop :=
  ∃ sent, s.accepted = sent ++ (s.round.held ++ s.tx.txQueue) ∧
    List.Forall₂ Carries s.clocked sent

/-- A transfer that throws has no frame of the queue. -/
def Unloaded (s : Sender) : Event → Prop
  | .transfer false => s.round.held = []
  | _ => True

theorem Sender.Accounted.delivered {s : Sender} (h : s.Accounted) (hround : s.round = .between) :
    s.Delivered := by
  obtain ⟨sent, hacc, hclk⟩ := h
  rw [hround] at hacc
  exact ⟨sent, hacc, hclk⟩

theorem Sender.Accounted.send {txQueueDepth : Nat} {s : Sender} (h : s.Accounted) (type : UInt8)
    (data : Option (List UInt8)) (len : Nat) {t : Sender}
    (hstep : s.step txQueueDepth (.send type data len) = some t) : t.Accounted := by
  obtain ⟨sent, hacc, hclk⟩ := h
  rw [step, Option.some.injEq] at hstep
  subst hstep
  refine ⟨sent, ?_, hclk⟩
  simp only [Tx.send_queue, hacc, List.append_assoc, id]

theorem Sender.Accounted.pop {txQueueDepth : Nat} {s t : Sender} (h : s.Accounted)
    (hstep : s.step txQueueDepth .pop = some t) : t.Accounted := by
  obtain ⟨sent, hacc, hclk⟩ := h
  rw [step] at hstep
  cases hround : s.round with
  | clocking _ =>
      rw [hround] at hstep
      cases hstep
  | between =>
      rw [hround] at hstep hacc
      cases hqueue : s.tx.txQueue with
      | nil =>
          simp only [Tx.popTx, hqueue] at hstep
          cases hstep
          refine ⟨sent, ?_, hclk⟩
          rw [hacc]
          rfl
      | cons f queue =>
          simp only [Tx.popTx, hqueue] at hstep
          cases hstep
          refine ⟨sent, ?_, hclk⟩
          rw [hacc, hqueue]
          rfl

/-- A transfer that works clocks what the round has popped. -/
theorem Sender.Accounted.clock {s : Sender} {outgoing : Option (Frame × Bool)} (h : s.Accounted)
    (hround : s.round = .clocking outgoing) : (s.transfer outgoing true).Accounted := by
  obtain ⟨sent, hacc, hclk⟩ := h
  rw [hround] at hacc
  cases outgoing with
  | none => exact ⟨sent, hacc, hclk⟩
  | some popped =>
      obtain ⟨f, more⟩ := popped
      refine ⟨sent ++ [f], ?_, List.rel_append hclk (.cons ⟨more, rfl⟩ .nil)⟩
      rw [List.append_assoc]
      exact hacc

theorem Sender.Accounted.step {txQueueDepth : Nat} {s t : Sender} {e : Event} (h : s.Accounted)
    (hun : Unloaded s e) (hstep : s.step txQueueDepth e = some t) : t.Accounted := by
  cases e with
  | send type data len => exact h.send type data len hstep
  | pop => exact h.pop hstep
  | transfer ok =>
      rw [Sender.step] at hstep
      cases hround : s.round with
      | between =>
          rw [hround] at hstep
          cases hstep
      | clocking outgoing =>
          rw [hround] at hstep
          cases hstep
          cases ok with
          | true => exact h.clock hround
          | false =>
              obtain ⟨sent, hacc, hclk⟩ := h
              simp only [Unloaded] at hun
              rw [hun] at hacc
              exact ⟨sent, hacc, hclk⟩

/-- A round that loses a frame leaves more accepted frames than there are places. -/
theorem Sender.Accounted.not_delivered {txQueueDepth : Nat} {s t : Sender} {e : Event}
    (h : s.Accounted) (hun : ¬ Unloaded s e) (hstep : s.step txQueueDepth e = some t) :
    t.round = .between ∧ ¬ t.Delivered := by
  cases e with
  | send type data len => exact absurd trivial hun
  | pop => exact absurd trivial hun
  | transfer ok =>
      cases ok with
      | true => exact absurd trivial hun
      | false =>
          rw [Sender.step] at hstep
          cases hround : s.round with
          | between =>
              rw [hround] at hstep
              cases hstep
          | clocking outgoing =>
              rw [hround] at hstep
              cases hstep
              refine ⟨rfl, ?_⟩
              rintro ⟨sent', hacc', hclk'⟩
              obtain ⟨sent, hacc, hclk⟩ := h
              have hlen : (s.transfer outgoing false).accepted.length = s.accepted.length := rfl
              have hqueue : (s.transfer outgoing false).tx.txQueue = s.tx.txQueue := rfl
              have hclocked : (s.transfer outgoing false).clocked = s.clocked := rfl
              have hpos := List.length_pos_iff.mpr hun
              rw [hacc, hacc', hqueue, List.length_append, List.length_append, List.length_append,
                ← hclk.length_eq, ← hclk'.length_eq, hclocked] at hlen
              omega

/-- In every run, no frame is lost between the rounds if and only if no transfer that throws
has a frame of the queue. -/
theorem delivered_iff {txQueueDepth : Nat} {es : List Event} {s : Sender}
    (hrun : run (Sender.step txQueueDepth) {} es = some s) :
    (∀ es₁ es₂ t, es = es₁ ++ es₂ → run (Sender.step txQueueDepth) {} es₁ = some t →
      t.round = .between → t.Delivered) ↔
      Throughout (Sender.step txQueueDepth) Unloaded {} es := by
  have hinit : Sender.Accounted {} := ⟨[], rfl, .nil⟩
  have hinv : ∀ {es' t}, Throughout (Sender.step txQueueDepth) Unloaded {} es' →
      run (Sender.step txQueueDepth) {} es' = some t → t.Accounted :=
    fun hall hrun' => run_invariant (fun h hun hstep => h.step hun hstep) hinit hall hrun'
  constructor
  · intro hdel
    by_contra hall
    obtain ⟨es₁, e, es₂, t, rfl, hall₁, hrun₁, hbad⟩ := first_violation hall
    rw [← List.singleton_append, ← List.append_assoc] at hrun hdel
    obtain ⟨u, hu, _⟩ := run_of_append hrun
    obtain ⟨t', ht', hlast⟩ := run_of_append hu
    rw [hrun₁] at ht'
    cases ht'
    obtain ⟨v, hv, hvu⟩ := Option.bind_eq_some_iff.mp hlast
    cases hvu
    obtain ⟨hround, hlost⟩ := (hinv hall₁ hrun₁).not_delivered hbad hv
    exact hlost (hdel _ _ u rfl hu hround)
  · intro hall es₁ es₂ t hes hrun₁ hround
    rw [hes] at hall
    exact (hinv (throughout_of_append hall) hrun₁).delivered hround

/-- A frame, and a transfer that works. -/
theorem delivered_iff_ping :
    (∀ es₁ es₂ t, [Event.send 1 none 0, .pop, .transfer true] = es₁ ++ es₂ →
      run (Sender.step 64) {} es₁ = some t → t.round = .between → t.Delivered) ↔
      Throughout (Sender.step 64) Unloaded {} [.send 1 none 0, .pop, .transfer true] :=
  delivered_iff rfl

/-- A frame, and a transfer that throws. -/
theorem not_delivered_throw :
    ¬ ∀ (txQueueDepth : Nat) (es : List Event) (s : Sender),
      run (Sender.step txQueueDepth) {} es = some s → s.round = .between → s.Delivered := by
  intro h
  obtain ⟨sent, hacc, hclk⟩ := h 64 [.send 1 none 0, .pop, .transfer false] _ rfl rfl
  cases hclk
  cases hacc

end MFoES.Northbridge.Link
