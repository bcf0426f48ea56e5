import MFoES.Lib.Ledger
import MFoES.Southbridge.Audio

/-!
# The order of the audio frames

The frames on their way to the Pico stand in a line: those that it accepted, the one that the
transmit thread has, those in the ring, and the one that `send_audio` has.  Numbers are given at
the end of the line and frames are lost only where `frames_dropped` counts, so the line is
accounted for.

A busy Pico and an empty ring break this.  A frame goes to the back of the ring when the Pico was
busy, behind the frames that came after it, and an underrun takes a number for a frame that
nobody transfers or counts.  In the runs that do not come there (`Orderly`), what the Pico accepts
is in order.
-/

namespace MFoES.Southbridge

open Transition Ledger

variable {k : Nat}

/-- The number of a frame. -/
def AudioFrame.number (frame : AudioFrame) : Nat := frame.seq.toNat

/-- The frame that the transmit thread has. -/
def Tx.held : Tx → List AudioFrame
  | .pop => []
  | .silence => []
  | .transfer frame => [frame]
  | .requeue frame => [frame]

/-- The frame that `send_audio` has. -/
def Sender.held : Sender → List AudioFrame
  | .idle _ => []
  | .loop _ _ => []
  | .fill frame _ _ => [frame]
  | .overwrite frame _ _ => [frame]
  | .push frame _ _ => [frame]

namespace Bridge

variable {cfg : Config} {s t : Bridge k}

/-- The frames that the Pico has or may still get. -/
def frames (s : Bridge k) : List AudioFrame :=
  s.accepted ++ (s.tx.held ++ (s.ring.contents ++ s.sender.held))

/-- Their numbers. -/
def line (s : Bridge k) : List Nat := s.frames.map AudioFrame.number

/-- The Pico accepts frames in order, and `frames_dropped` counts a frame for every number that
is missing between two of them. -/
structure InOrder (s : Bridge k) : Prop where
  increasing : (s.accepted.map AudioFrame.number).Pairwise (· < ·)
  gaps : ∀ a b m, [a, b] <:+: s.accepted.map AudioFrame.number → a < m → m < b →
    some m ∈ s.counted
  counted : s.counted.length = s.stats.framesDropped

/-- A frame goes back into an empty ring only, an underrun comes only before the first frame, and
`seq_` does not come around. -/
def Orderly (s : Bridge k) : AudioEvent → Prop
  | .sender =>
      match s.sender with
      | .loop pcm _ => frameSamples ≤ pcm.length → s.issued < 2 ^ 32
      | _ => True
  | .tx =>
      match s.tx with
      | .silence => s.line = []
      | .requeue _ => s.ring.contents = []
      | _ => True
  | _ => True

/-! ## The line -/

/-- What holds between any two steps. -/
structure Inv (s : Bridge k) : Prop where
  seq : s.seq = UInt32.ofNat s.issued
  accounts : Accounted s.line (fun n => some n ∈ s.counted) s.issued
  counted : s.counted.length = s.stats.framesDropped
  /-- A ring of one slot never gives a frame. -/
  slots : s.tx.held ≠ [] → 0 < k

theorem inv_init (buf : Fin (2 ^ k) → AudioFrame) (txBuf : AudioFrame) :
    (init buf txBuf).Inv where
  seq := rfl
  accounts := by
    have hline : (init buf txBuf).line = [] := by simp [line, frames, init, Tx.held, Sender.held]
    rw [hline]
    exact Accounted.nil _ _
  counted := rfl
  slots := fun h => absurd rfl h

/-- Where the frames stay in line, the invariant stays. -/
theorem Inv.same (h : s.Inv) (hframes : t.frames = s.frames) (hseq : t.seq = s.seq)
    (hissued : t.issued = s.issued) (hcounted : ∀ n, some n ∈ s.counted → some n ∈ t.counted)
    (hdropped : t.counted.length = t.stats.framesDropped) (hslots : t.tx.held ≠ [] → 0 < k) :
    t.Inv where
  seq := by rw [hseq, hissued, h.seq]
  accounts := by
    rw [line, hframes, hissued]
    exact h.accounts.lose (List.Sublist.refl _) hcounted fun n hn => Or.inl hn
  counted := hdropped
  slots := hslots

theorem number_of_seq {frame : AudioFrame} {n : Nat} (h : frame.seq = UInt32.ofNat n)
    (hn : n < 2 ^ 32) : frame.number = n := by
  rw [AudioFrame.number, h]
  exact UInt32.toNat_ofNat_of_lt' hn

/-- Where one frame is lost and counted, the invariant stays. -/
theorem Inv.lose (h : s.Inv) (front back : List AudioFrame) (frame : AudioFrame)
    (hframes : s.frames = front ++ frame :: back) (hframes' : t.frames = front ++ back)
    (hseq : t.seq = s.seq) (hissued : t.issued = s.issued)
    (hcounted : t.counted = s.counted ++ [some frame.number])
    (hdropped : t.stats.framesDropped = s.stats.framesDropped + 1)
    (hslots : t.tx.held ≠ [] → 0 < k) : t.Inv where
  seq := by rw [hseq, hissued, h.seq]
  accounts := by
    have hline : s.line =
        front.map AudioFrame.number ++ frame.number :: back.map AudioFrame.number := by
      rw [line, hframes, List.map_append, List.map_cons]
    have hline' : t.line = front.map AudioFrame.number ++ back.map AudioFrame.number := by
      rw [line, hframes', List.map_append]
    rw [hline', hissued]
    refine h.accounts.lose ?_ ?_ ?_
    · rw [hline]
      exact List.Sublist.append_left (List.sublist_cons_self _ _) _
    · intro n hn
      rw [hcounted]
      exact List.mem_append_left _ hn
    · intro n hn
      rw [hline, List.mem_append, List.mem_cons] at hn
      rw [List.mem_append, hcounted]
      rcases hn with hn | rfl | hn
      · exact Or.inl (Or.inl hn)
      · exact Or.inr (List.mem_append_right _ List.mem_cons_self)
      · exact Or.inl (Or.inr hn)
  counted := by rw [hcounted, hdropped, List.length_append, h.counted, List.length_singleton]
  slots := hslots

/-! ## `send_audio` -/

theorem Inv.sendStep (h : s.Inv) (horderly : s.Orderly .sender)
    (hstep : s.sendStep cfg = some t) : t.Inv := by
  obtain ⟨ring, seq, txBuf, stats, sender, tx, issued, accepted, counted⟩ := s
  cases sender with
  | idle enqueued => cases hstep
  | loop pcm enqueued =>
      simp only [Bridge.sendStep] at hstep
      split at hstep
      · next hmore =>
        cases hstep
        have hseq := h.seq
        have hlt : issued < 2 ^ 32 := horderly hmore
        have hnumber : (audioFrame seq (pcm.take frameSamples)).number = issued :=
          number_of_seq hseq hlt
        refine ⟨?_, ?_, h.counted, h.slots⟩
        · show seq + 1 = UInt32.ofNat (issued + 1)
          rw [show seq = UInt32.ofNat issued from hseq, UInt32.ofNat_add]
          rfl
        · have hline := h.accounts.issue
          have happend : ∀ frame : AudioFrame,
              (accepted ++ (tx.held ++ (ring.contents ++ [frame]))).map AudioFrame.number =
                (accepted ++ (tx.held ++ (ring.contents ++ []))).map AudioFrame.number ++
                  [frame.number] := by
            intro frame
            simp
          show Accounted ((accepted ++ (tx.held ++ (ring.contents ++ [_]))).map _) _ _
          rw [happend, hnumber]
          exact hline
      · cases hstep
        exact h.same rfl rfl rfl (fun _ hn => hn) h.counted h.slots
  | fill frame pcm enqueued =>
      simp only [Bridge.sendStep] at hstep
      split at hstep
      · cases hstep
        exact h.same rfl rfl rfl (fun _ hn => hn) h.counted h.slots
      · cases hstep
        exact h.same rfl rfl rfl (fun _ hn => hn) h.counted h.slots
  | overwrite frame pcm enqueued =>
      cases hstep
      rcases Decidable.em (ring.size + 1 = 2 ^ k) with hfull | hroom
      · -- the oldest item of the ring, or the frame itself, is lost
        obtain ⟨old, rest, hold⟩ : ∃ old rest, ring.contents ++ [frame] = old :: rest :=
          List.exists_cons_of_ne_nil (List.append_ne_nil_of_right_ne_nil _ (List.cons_ne_nil _ _))
        refine h.lose (accepted ++ tx.held) rest old ?_ ?_ rfl rfl ?_
          rfl h.slots
        · show accepted ++ (tx.held ++ (ring.contents ++ [frame])) = _
          rw [hold, List.append_assoc]
        · show accepted ++ (tx.held ++ ((ring.pushOverwrite frame).contents ++ [])) = _
          rw [RingBuffer.pushOverwrite_of_full frame hfull, hold, List.tail_cons, List.append_nil,
            List.append_assoc]
        · show counted ++ [(overwritten ring frame).map _] = _
          rw [overwritten, if_pos hfull, hold]
          rfl
      · refine h.same ?_ rfl rfl (fun _ hn => List.mem_append_left _ hn) ?_ h.slots
        · show accepted ++ (tx.held ++ ((ring.pushOverwrite frame).contents ++ [])) =
            accepted ++ (tx.held ++ (ring.contents ++ [frame]))
          rw [RingBuffer.pushOverwrite_of_room frame hroom, List.append_nil]
        · show (counted ++ [_]).length = stats.framesDropped + 1
          rw [List.length_append, List.length_singleton, show counted.length = _ from h.counted]
  | push frame pcm enqueued =>
      simp only [Bridge.sendStep] at hstep
      split at hstep
      · next ring' hpush =>
        cases hstep
        refine h.same ?_ rfl rfl (fun _ hn => hn) h.counted h.slots
        show accepted ++ (tx.held ++ (ring'.contents ++ [])) =
          accepted ++ (tx.held ++ (ring.contents ++ [frame]))
        rw [RingBuffer.contents_push hpush, List.append_nil]
      · cases hstep
        refine h.lose (accepted ++ (tx.held ++ ring.contents)) [] frame ?_ ?_ rfl rfl rfl rfl
          h.slots
        · show accepted ++ (tx.held ++ (ring.contents ++ [frame])) = _
          simp
        · show accepted ++ (tx.held ++ (ring.contents ++ [])) = _
          simp

/-! ## `tx_loop` -/

theorem Inv.txStep (h : s.Inv) (horderly : s.Orderly .tx) (hstep : s.txStep cfg = some t) :
    t.Inv := by
  obtain ⟨ring, seq, txBuf, stats, sender, tx, issued, accepted, counted⟩ := s
  cases tx with
  | pop =>
      simp only [Bridge.txStep] at hstep
      split at hstep
      · cases hstep
        split
        · exact h.same rfl rfl rfl (fun _ hn => hn) h.counted h.slots
        · exact h.same rfl rfl rfl (fun _ hn => hn) h.counted h.slots
      · next frame ring' hpop =>
        cases hstep
        have hcontents := RingBuffer.contents_pop hpop
        refine h.same ?_ rfl rfl (fun _ hn => hn) h.counted fun _ => ?_
        · show accepted ++ ([frame] ++ (ring'.contents ++ sender.held)) =
            accepted ++ ([] ++ (ring.contents ++ sender.held))
          rw [hcontents]
          rfl
        · refine Nat.pos_of_ne_zero ?_
          rintro rfl
          have hsize := ring.size_lt
          rw [← RingBuffer.length_contents, hcontents, List.length_cons] at hsize
          omega
  | silence =>
      cases hstep
      refine ⟨?_, ?_, h.counted, fun hheld => absurd rfl hheld⟩
      · show seq + 1 = UInt32.ofNat (issued + 1)
        rw [show seq = UInt32.ofNat issued from h.seq, UInt32.ofNat_add]
        rfl
      · show Accounted (Bridge.line ⟨ring, seq, txBuf, stats, sender, .silence, issued, accepted,
          counted⟩) _ _
        rw [show Bridge.line ⟨ring, seq, txBuf, stats, sender, .silence, issued, accepted,
          counted⟩ = [] from horderly]
        exact Accounted.nil _ _
  | transfer frame => cases hstep
  | requeue frame =>
      cases hstep
      have hempty : ring.contents = [] := horderly
      have hroom : ring.size + 1 ≠ 2 ^ k := by
        have hk : 0 < k := h.slots (List.cons_ne_nil _ _)
        have htwo : 2 ≤ 2 ^ k := Nat.le_self_pow (Nat.pos_iff_ne_zero.mp hk) 2
        rw [← RingBuffer.length_contents, hempty, List.length_nil]
        omega
      refine h.same ?_ rfl rfl (fun _ hn => hn) h.counted fun hheld => absurd rfl hheld
      show accepted ++ ([] ++ ((ring.pushOverwrite frame).contents ++ sender.held)) =
        accepted ++ ([frame] ++ (ring.contents ++ sender.held))
      rw [RingBuffer.pushOverwrite_of_room frame hroom, hempty]
      rfl

theorem Inv.transferStep (h : s.Inv) {status : UInt8}
    (hstep : s.transferStep status = some t) : t.Inv := by
  obtain ⟨ring, seq, txBuf, stats, sender, tx, issued, accepted, counted⟩ := s
  cases tx with
  | pop => cases hstep
  | silence => cases hstep
  | requeue frame => cases hstep
  | transfer frame =>
      simp only [Bridge.transferStep] at hstep
      split at hstep
      · cases hstep
        exact h.same rfl rfl rfl (fun _ hn => hn) h.counted h.slots
      · cases hstep
        refine h.same ?_ rfl rfl (fun _ hn => hn) h.counted fun hheld => absurd rfl hheld
        show accepted ++ [frame] ++ ([] ++ (ring.contents ++ sender.held)) =
          accepted ++ ([frame] ++ (ring.contents ++ sender.held))
        rw [List.append_assoc, List.nil_append]

/-- Every orderly step keeps the line. -/
theorem Inv.step (h : s.Inv) {e : AudioEvent} (horderly : s.Orderly e)
    (hstep : s.step cfg e = some t) : t.Inv := by
  cases e with
  | sendAudio pcm =>
      obtain ⟨ring, seq, txBuf, stats, sender, tx, issued, accepted, counted⟩ := s
      simp only [Bridge.step] at hstep
      split at hstep
      · cases hstep
        exact h.same rfl rfl rfl (fun _ hn => hn) h.counted h.slots
      · cases hstep
  | sender => exact h.sendStep horderly hstep
  | tx => exact h.txStep horderly hstep
  | reply status => exact h.transferStep hstep

/-! ## Every run -/

/-- The accepted frames are the front of the line. -/
theorem Inv.inOrder (h : s.Inv) : s.InOrder := by
  have hprefix : s.accepted.map AudioFrame.number <+: s.line := by
    rw [Bridge.line, frames, List.map_append]
    exact List.prefix_append _ _
  exact ⟨h.accounts.increasing.sublist hprefix.sublist,
    fun a b m hpart => h.accounts.gap (hpart.trans hprefix.isInfix), h.counted⟩

/-- In the orderly runs, the frames that the Pico accepts are in order. -/
theorem inOrder_of_orderly (buf : Fin (2 ^ k) → AudioFrame) (txBuf : AudioFrame)
    {es : List AudioEvent} (horderly : Throughout (step cfg) Orderly (init buf txBuf) es)
    (hrun : run (step cfg) (init buf txBuf) es = some s) : s.InOrder := by
  have hinv : s.Inv := run_invariant (fun h ho hstep => Inv.step h ho hstep)
    (inv_init buf txBuf) horderly hrun
  exact hinv.inOrder

instance (s : Bridge k) (e : AudioEvent) : Decidable (s.Orderly e) := by
  unfold Orderly
  split
  · split <;> infer_instance
  · split <;> infer_instance
  · exact .isTrue trivial

/-- A ring of four slots, with nothing in it. -/
def quiet : Bridge 2 := init (fun _ => silenceFrame 0) (silenceFrame 0)

/-- A call of `send_audio` with the samples of `n` frames. -/
def frameCall (n : Nat) : List AudioEvent :=
  AudioEvent.sendAudio (List.replicate (n * 128) 0) ::
    List.replicate (3 * n + 1) AudioEvent.sender

/-- The transmit thread pops a frame and transfers it. -/
def transfer (status : UInt8) : List AudioEvent := [AudioEvent.tx, AudioEvent.reply status]

/-- An underrun before the first frame, a frame that the Pico is busy for, and four frames of
which the ring drops the oldest. -/
def orderlyRun : List AudioEvent :=
  [AudioEvent.tx, AudioEvent.tx] ++ frameCall 1 ++ transfer sbStatusBusy ++ [AudioEvent.tx] ++
    transfer 0 ++ frameCall 4 ++ transfer 0 ++ transfer 0

theorem inOrder_orderlyRun :
    ∃ s, run (step {}) quiet orderlyRun = some s ∧
      s.accepted.map AudioFrame.number = [1, 3, 4] ∧ s.counted = [some 2] ∧ s.InOrder := by
  have hview : (run (step {}) quiet orderlyRun).map
      (fun s => (s.accepted.map AudioFrame.number, s.counted)) = some ([1, 3, 4], [some 2]) := by
    decide +kernel
  obtain ⟨s, hrun, hs⟩ := Option.map_eq_some_iff.mp hview
  obtain ⟨haccepted, hcounted⟩ := Prod.mk.inj hs
  exact ⟨s, hrun, haccepted, hcounted, inOrder_of_orderly _ _ (by decide +kernel) hrun⟩

/-- The Pico is busy for the first of two frames. -/
def busyRun : List AudioEvent :=
  frameCall 2 ++ transfer sbStatusBusy ++ [AudioEvent.tx] ++ transfer 0 ++ transfer 0

/-- The ring runs empty between two frames. -/
def underrun : List AudioEvent :=
  frameCall 1 ++ transfer 0 ++ [AudioEvent.tx, AudioEvent.tx] ++ frameCall 1 ++ transfer 0

/-- A frame that the Pico was busy for comes behind the next one, and an underrun takes a number
that nothing accounts for. -/
theorem not_inOrder :
    (∃ s, run (step {}) quiet busyRun = some s ∧
      s.accepted.map AudioFrame.number = [1, 0] ∧ ¬ s.InOrder) ∧
    ∃ s, run (step {}) quiet underrun = some s ∧
      s.accepted.map AudioFrame.number = [0, 2] ∧ s.stats.framesDropped = 0 ∧ ¬ s.InOrder := by
  constructor
  · have hview : (run (step {}) quiet busyRun).map
        (fun s => s.accepted.map AudioFrame.number) = some [1, 0] := by decide +kernel
    obtain ⟨s, hrun, haccepted⟩ := Option.map_eq_some_iff.mp hview
    refine ⟨s, hrun, haccepted, fun horder => ?_⟩
    have hincreasing := horder.increasing
    rw [haccepted] at hincreasing
    exact absurd hincreasing (by decide)
  · have hview : (run (step {}) quiet underrun).map
        (fun s => (s.accepted.map AudioFrame.number, s.stats.framesDropped, s.counted)) =
          some ([0, 2], 0, []) := by decide +kernel
    obtain ⟨s, hrun, hs⟩ := Option.map_eq_some_iff.mp hview
    simp only [Prod.mk.injEq] at hs
    obtain ⟨haccepted, hdropped, hcounted⟩ := hs
    refine ⟨s, hrun, haccepted, hdropped, fun horder => ?_⟩
    have hgap := horder.gaps 0 2 1 (by rw [haccepted]) Nat.zero_lt_one Nat.one_lt_two
    rw [hcounted] at hgap
    exact absurd hgap List.not_mem_nil

end Bridge

end MFoES.Southbridge
