import MFoES.Southbridge.AudioRuns

/-!
# The accounts of the audio frames

A frame that `send_audio` built is sent, queued or dropped, and the statistics count two of the
three.  `frames_dropped` counts more than that: above the threshold every frame goes through
`push_overwrite` and is counted, also where the ring still has a slot and nothing is lost.

Between a frame and the count of its fate lie a few steps, so the accounts are of a quiescent
point, where neither thread has a frame.  With a Pico that is never busy they balance up to the
counts that no lost frame belongs to (`Kept`), and so they balance exactly where no such count is
made (`balances_iff`).
-/

namespace MFoES.Southbridge

open Transition

variable {k : Nat}

namespace Bridge

variable {cfg : Config}

/-- How many frames `send_audio` builds in a step. -/
def builds (s : Bridge k) : AudioEvent → Nat
  | .sender =>
      match s.sender with
      | .loop pcm _ => if frameSamples ≤ pcm.length then 1 else 0
      | _ => 0
  | _ => 0

/-- A step, with the frames built so far. -/
def countStep (cfg : Config) (p : Bridge k × Nat) (e : AudioEvent) : Option (Bridge k × Nat) :=
  (p.1.step cfg e).map fun t => (t, p.2 + p.1.builds e)

/-- Neither thread has a frame. -/
def Quiescent (s : Bridge k) : Prop := s.sender.held = [] ∧ s.tx.held = []

instance (s : Bridge k) : Decidable s.Quiescent := inferInstanceAs (Decidable (_ ∧ _))

/-- What was built was sent, is queued, or was dropped. -/
def Balances (s : Bridge k) (built : Nat) : Prop :=
  built = s.stats.framesSent + s.ring.size + s.stats.framesDropped

instance (s : Bridge k) (built : Nat) : Decidable (s.Balances built) :=
  inferInstanceAs (Decidable (_ = _))

/-- The status of a transfer is not `SB_STATUS_BUSY`. -/
def NotBusy : AudioEvent → Prop
  | .reply status => status &&& sbStatusBusy = 0
  | _ => True

instance (e : AudioEvent) : Decidable (NotBusy e) := by
  unfold NotBusy
  split <;> infer_instance

/-- `push_overwrite` is called on a full ring. -/
def WhenFull (s : Bridge k) : AudioEvent → Prop
  | .sender =>
      match s.sender with
      | .overwrite _ _ _ => s.ring.size + 1 = 2 ^ k
      | _ => True
  | _ => True

instance (s : Bridge k) : (e : AudioEvent) → Decidable (s.WhenFull e)
  | .sendAudio _ => .isTrue trivial
  | .sender =>
      show Decidable (match s.sender with
        | .overwrite _ _ _ => s.ring.size + 1 = 2 ^ k
        | _ => True) from
      match s.sender with
      | .overwrite _ _ _ => Nat.decEq _ _
      | .idle _ | .loop _ _ | .fill _ _ _ | .push _ _ _ => .isTrue trivial
  | .tx => .isTrue trivial
  | .reply _ => .isTrue trivial

/-! ## One step -/

/-- The accounts between any two steps.  A count without a lost frame is one too many. -/
structure Kept (s : Bridge k) (built : Nat) : Prop where
  balance : built + s.counted.count none =
    s.stats.framesSent + s.tx.held.length + s.ring.contents.length + s.sender.held.length +
      s.stats.framesDropped
  /-- A frame goes back only to a busy Pico. -/
  never_back : ∀ frame, s.tx ≠ .requeue frame

theorem kept_init (buf : Fin (2 ^ k) → AudioFrame) (txBuf : AudioFrame) :
    (init buf txBuf).Kept 0 where
  balance := by simp [init, Tx.held, Sender.held]
  never_back := fun _ h => by cases h

variable {s t : Bridge k} {n : Nat}

/-- The sender leaves the transfer task alone. -/
theorem tx_sendStep (hstep : s.sendStep cfg = some t) : t.tx = s.tx := by
  obtain ⟨ring, seq, txBuf, stats, sender, tx, issued, accepted, counted⟩ := s
  cases sender with
  | idle enqueued => cases hstep
  | loop pcm enqueued =>
      simp only [Bridge.sendStep] at hstep
      split at hstep <;> cases hstep <;> rfl
  | fill frame pcm enqueued =>
      simp only [Bridge.sendStep] at hstep
      split at hstep <;> cases hstep <;> rfl
  | overwrite frame pcm enqueued =>
      cases hstep
      rfl
  | push frame pcm enqueued =>
      simp only [Bridge.sendStep] at hstep
      split at hstep <;> cases hstep <;> rfl

theorem Kept.sendStep (h : s.Kept n) (hstep : s.sendStep cfg = some t) :
    t.Kept (n + s.builds .sender) := by
  obtain ⟨ring, seq, txBuf, stats, sender, tx, issued, accepted, counted⟩ := s
  have hbalance := h.balance
  refine ⟨?_, ?_⟩
  · cases sender with
    | idle enqueued => cases hstep
    | loop pcm enqueued =>
        simp only [Bridge.sendStep] at hstep
        split at hstep
        next hmore =>
          cases hstep
          simp only [builds, if_pos hmore, fetchSeq, Sender.held, List.length_singleton,
            List.length_nil] at hbalance ⊢
          omega
        next hmore =>
          cases hstep
          simp only [builds, if_neg hmore, Sender.held] at hbalance ⊢
          exact hbalance
    | fill frame pcm enqueued =>
        simp only [Bridge.sendStep] at hstep
        split at hstep
        all_goals
          cases hstep
          exact hbalance
    | overwrite frame pcm enqueued =>
        cases hstep
        rcases Decidable.em (ring.size + 1 = 2 ^ k) with hfull | hroom
        · -- the oldest item, or the frame itself, is lost and counted
          have hlost : (overwritten ring frame).isSome := by
            rw [overwritten, if_pos hfull, List.isSome_head?]
            simp
          obtain ⟨lost, hlost⟩ := Option.isSome_iff_exists.mp hlost
          simp only [builds, countDropped, hlost, Option.map_some, Sender.held,
            RingBuffer.pushOverwrite_of_full frame hfull, List.length_tail, List.length_append,
            List.length_singleton, List.length_nil, List.count_append, List.count_singleton]
            at hbalance ⊢
          simp only [beq_iff_eq, reduceCtorEq, if_false]
          omega
        · -- nothing is lost, and counted all the same
          simp only [builds, countDropped, overwritten, if_neg hroom, Option.map_none, Sender.held,
            RingBuffer.pushOverwrite_of_room frame hroom, List.length_append,
            List.length_singleton, List.length_nil, List.count_append, List.count_singleton_self]
            at hbalance ⊢
          omega
    | push frame pcm enqueued =>
        simp only [Bridge.sendStep] at hstep
        split at hstep
        next ring' hpush =>
          cases hstep
          simp only [builds, Sender.held, RingBuffer.contents_push hpush, List.length_append,
            List.length_singleton, List.length_nil] at hbalance ⊢
          omega
        next =>
          cases hstep
          simp only [builds, countDropped, Option.map_some, Sender.held, List.length_singleton,
            List.length_nil, List.count_append, List.count_singleton] at hbalance ⊢
          simp only [beq_iff_eq, reduceCtorEq, if_false]
          omega
  · rw [tx_sendStep hstep]
    exact h.never_back

theorem Kept.txStep (h : s.Kept n) (hstep : s.txStep cfg = some t) : t.Kept n := by
  obtain ⟨ring, seq, txBuf, stats, sender, tx, issued, accepted, counted⟩ := s
  have hbalance := h.balance
  cases tx with
  | pop =>
      simp only [Bridge.txStep] at hstep
      split at hstep
      next =>
        cases hstep
        refine ⟨?_, fun frame => ?_⟩
        · split <;> exact hbalance
        · split <;> exact fun h => by cases h
      next frame ring' hpop =>
        cases hstep
        refine ⟨?_, fun _ h => by cases h⟩
        simp only [RingBuffer.contents_pop hpop, Tx.held, List.length_cons, List.length_nil]
          at hbalance ⊢
        omega
  | silence =>
      cases hstep
      exact ⟨hbalance, fun _ h => by cases h⟩
  | transfer frame => cases hstep
  | requeue frame => exact absurd rfl (h.never_back frame)

theorem Kept.transferStep (h : s.Kept n) {status : UInt8} (hbusy : status &&& sbStatusBusy = 0)
    (hstep : s.transferStep status = some t) : t.Kept n := by
  obtain ⟨ring, seq, txBuf, stats, sender, tx, issued, accepted, counted⟩ := s
  have hbalance := h.balance
  cases tx with
  | pop => cases hstep
  | silence => cases hstep
  | requeue frame => cases hstep
  | transfer frame =>
      simp only [Bridge.transferStep, hbusy, ne_eq, not_true_eq_false, if_false] at hstep
      cases hstep
      refine ⟨?_, fun _ h => by cases h⟩
      simp only [countStatus, Tx.held, List.length_singleton, List.length_nil] at hbalance ⊢
      omega

/-- Every step keeps the accounts. -/
theorem Kept.step (h : s.Kept n) {e : AudioEvent} (hbusy : NotBusy e)
    (hstep : s.step cfg e = some t) : t.Kept (n + s.builds e) := by
  cases e with
  | sendAudio pcm =>
      obtain ⟨ring, seq, txBuf, stats, sender, tx, issued, accepted, counted⟩ := s
      simp only [Bridge.step] at hstep
      split at hstep
      · cases hstep
        exact ⟨h.balance, h.never_back⟩
      · cases hstep
  | sender => exact h.sendStep hstep
  | tx => exact h.txStep hstep
  | reply status => exact h.transferStep hbusy hstep

/-- A step makes a count without a lost frame exactly where it overwrites with room left. -/
theorem none_counted_iff {e : AudioEvent} (hstep : s.step cfg e = some t) :
    none ∉ t.counted ↔ none ∉ s.counted ∧ s.WhenFull e := by
  obtain ⟨ring, seq, txBuf, stats, sender, tx, issued, accepted, counted⟩ := s
  cases e with
  | sendAudio pcm =>
      simp only [Bridge.step] at hstep
      split at hstep
      · cases hstep
        exact (and_iff_left trivial).symm
      · cases hstep
  | sender =>
      cases sender with
      | idle enqueued => cases hstep
      | loop pcm enqueued =>
          simp only [Bridge.step, Bridge.sendStep] at hstep
          split at hstep <;> cases hstep <;> exact (and_iff_left trivial).symm
      | fill frame pcm enqueued =>
          simp only [Bridge.step, Bridge.sendStep] at hstep
          split at hstep <;> cases hstep <;> exact (and_iff_left trivial).symm
      | overwrite frame pcm enqueued =>
          cases hstep
          have hlost : none ≠ (overwritten ring frame).map (fun f => f.seq.toNat) ↔
              ring.size + 1 = 2 ^ k := by
            rw [overwritten]
            split_ifs with hfull <;> simp [hfull]
          simp only [countDropped, List.mem_append, List.mem_singleton, not_or]
          exact and_congr_right fun _ => hlost
      | push frame pcm enqueued =>
          simp only [Bridge.step, Bridge.sendStep] at hstep
          split at hstep
          · cases hstep
            exact (and_iff_left trivial).symm
          · cases hstep
            simp [countDropped, WhenFull]
  | tx =>
      cases tx with
      | pop =>
          simp only [Bridge.step, Bridge.txStep] at hstep
          split at hstep <;> cases hstep <;> exact (and_iff_left trivial).symm
      | silence =>
          cases hstep
          exact (and_iff_left trivial).symm
      | transfer frame => cases hstep
      | requeue frame =>
          cases hstep
          exact (and_iff_left trivial).symm
  | reply status =>
      cases tx with
      | pop => cases hstep
      | silence => cases hstep
      | requeue frame => cases hstep
      | transfer frame =>
          simp only [Bridge.step, Bridge.transferStep] at hstep
          split at hstep <;> cases hstep <;> exact (and_iff_left trivial).symm

/-! ## Every run -/

theorem countStep_eq_some {p q : Bridge k × Nat} {e : AudioEvent}
    (h : countStep cfg p e = some q) :
    p.1.step cfg e = some q.1 ∧ q.2 = p.2 + p.1.builds e := by
  obtain ⟨t, ht, rfl⟩ := Option.map_eq_some_iff.mp h
  exact ⟨ht, rfl⟩

/-- At a quiescent point the accounts balance exactly when `push_overwrite` was called on a full
ring only. -/
theorem balances_iff (buf : Fin (2 ^ k) → AudioFrame) (txBuf : AudioFrame) {es : List AudioEvent}
    {built : Nat} (hbusy : ∀ e ∈ es, NotBusy e)
    (hrun : run (countStep cfg) (init buf txBuf, 0) es = some (s, built)) (hquiet : s.Quiescent) :
    s.Balances built ↔
      Throughout (countStep cfg) (fun p => p.1.WhenFull) (init buf txBuf, 0) es := by
  have hkept : s.Kept built :=
    run_invariant (I := fun p : Bridge k × Nat => p.1.Kept p.2) (P := fun _ e => NotBusy e)
      (fun h hb hstep => by
        obtain ⟨hnext, hbuilt⟩ := countStep_eq_some hstep
        rw [hbuilt]
        exact h.step hb hnext)
      (kept_init buf txBuf) (throughout_of_mem (fun e he _ => hbusy e he) _) hrun
  have hcounted : none ∉ s.counted ↔ none ∉ (init buf txBuf : Bridge k).counted ∧
      Throughout (countStep cfg) (fun p => p.1.WhenFull) (init buf txBuf, 0) es :=
    run_iff_throughout (A := fun p : Bridge k × Nat => none ∉ p.1.counted)
      (fun hstep => none_counted_iff (countStep_eq_some hstep).1) hrun
  have hbalance := hkept.balance
  rw [hquiet.1, hquiet.2, RingBuffer.length_contents, List.length_nil] at hbalance
  rw [← hcounted.trans (and_iff_right List.not_mem_nil), ← List.count_eq_zero, Balances]
  omega

/-- Four frames, of which the ring of four slots drops the oldest, and two transfers. -/
theorem balances_frameCall :
    ∃ s, run (countStep {}) (quiet, 0) (frameCall 4 ++ transfer 0 ++ transfer 0) = some (s, 4) ∧
      s.Balances 4 := by
  have hview : (run (countStep {}) (quiet, 0) (frameCall 4 ++ transfer 0 ++ transfer 0)).map
      (fun p => (decide p.1.Quiescent, p.2)) = some (true, 4) := by decide +kernel
  obtain ⟨⟨s, built⟩, hrun, hs⟩ := Option.map_eq_some_iff.mp hview
  obtain ⟨hquiet, rfl⟩ := Prod.mk.inj hs
  exact ⟨s, hrun, (balances_iff _ _ (by decide) hrun (of_decide_eq_true hquiet)).mpr
    (by decide +kernel)⟩

/-- A ring of sixteen slots gets the fifteen frames that it has room for.  The last one comes at
fourteen fifteenths, which is above the threshold, and is counted as a drop. -/
theorem not_balances :
    ∃ s, run (countStep {}) ((init (fun _ => silenceFrame 0) (silenceFrame 0) : Bridge 4), 0)
        (frameCall 15) = some (s, 15) ∧
      s.Quiescent ∧ s.stats.framesSent = 0 ∧ s.ring.size = 15 ∧ s.stats.framesDropped = 1 ∧
      ¬ s.Balances 15 := by
  have hview : (run (countStep {})
      ((init (fun _ => silenceFrame 0) (silenceFrame 0) : Bridge 4), 0) (frameCall 15)).map
        (fun p => ((p.2, decide p.1.Quiescent), p.1.stats.framesSent, p.1.ring.size,
          p.1.stats.framesDropped)) = some ((15, true), 0, 15, 1) := by
    decide +kernel
  obtain ⟨⟨s, built⟩, hrun, hs⟩ := Option.map_eq_some_iff.mp hview
  simp only [Prod.mk.injEq] at hs
  obtain ⟨⟨rfl, hquiet⟩, hsent, hqueued, hdropped⟩ := hs
  refine ⟨s, hrun, of_decide_eq_true hquiet, hsent, hqueued, hdropped, fun hbalance => ?_⟩
  rw [Balances, hsent, hqueued, hdropped] at hbalance
  exact absurd hbalance (by decide)

end Bridge

end MFoES.Southbridge
