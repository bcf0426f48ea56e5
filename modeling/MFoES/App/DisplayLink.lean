import MFoES.App.RemoteInput
import MFoES.Lib.Transition

/-!
# The display link

The render thread publishes a blob for every frame, and skips one that is the same as the last.  A
blob goes to the sender thread through a slot that holds one.  The sender asks for a blob in any
case, by a flag that the next publish takes, when the link is up again and when the viewer wants a
full frame.

The sender sets the flag after it has opened the link.  A publish that comes between the two may
still be skipped, and what the link has lost before is not sent then.  In all other runs the viewer
gets the last blob that was put into the slot (`staysGood_iff`).
-/

namespace MFoES.App

open MFoES.Touch Transition

/-- A recorded frame. -/
abbrev Blob := List UInt8

/-- Where the sender is in `drLoop`. -/
inductive Phase
  /-- Before `open`. -/
  | closed
  /-- After `open`. -/
  | opened
  /-- After `drForceResend = true`. -/
  | forced
  /-- After `drRemoteUp = true`, while the link is up. -/
  | ready
  /-- With a frame out of the slot. -/
  | holding (frame : Blob)
  /-- The link is down. -/
  | failed
  /-- After `drRemoteUp = false`. -/
  | detached
  deriving DecidableEq

/-- The frame that the sender holds. -/
def Phase.held : Phase → Option Blob
  | .holding frame => some frame
  | .closed => none
  | .opened => none
  | .forced => none
  | .ready => none
  | .failed => none
  | .detached => none

/-- The link is up, as far as the sender knows. -/
def Phase.connected : Phase → Bool
  | .opened => true
  | .forced => true
  | .ready => true
  | .holding _ => true
  | .closed => false
  | .failed => false
  | .detached => false

/-- Both threads. -/
structure DisplayLink where
  /-- `drLastSent`. -/
  lastSent : Blob := []
  /-- `drLastSentMs`. -/
  lastSentMs : UInt32 := 0
  /-- `drKeyframeMs`. -/
  keyframeMs : UInt32 := 2000
  /-- `drForceResend`. -/
  forceResend : Bool := true
  /-- `drRemoteUp`. -/
  remoteUp : Bool := false
  /-- `drDumpFile` is there. -/
  dump : Bool := false
  /-- `drPending`, while `drHasPending`. -/
  pending : Option Blob := none
  touchQueue : List TouchEventData := []
  phase : Phase := .closed
  /-- `render` has found a remote attached, and records. -/
  recording : Bool := false
  /-- The blob of a publish that is not yet in the slot. -/
  placing : Option Blob := none
  /-- The last blob that was put into the slot. -/
  placed : Option Blob := none
  /-- The last blob that was sent. -/
  sent : Option Blob := none
  /-- No publish has started since a reconnect or a request for a full frame. -/
  wanted : Bool := false
  /-- A publish was skipped that was the first after a reconnect or a request. -/
  missed : Bool := false
  /-- The link has been up since the publish under way has started. -/
  upDuring : Bool := false
  /-- The link has been up since the last publish has started. -/
  upSince : Bool := false
  deriving DecidableEq

/-- What a thread does next. -/
inductive LinkEvent
  /-- `drRemoteAttached` in `render`. -/
  | record
  /-- `drPublish`, up to its lock. -/
  | publish (blob : Blob) (nowMs : UInt32)
  /-- `drPublish`, under its lock. -/
  | place
  /-- `open` succeeds. -/
  | connect
  /-- `drForceResend = true`. -/
  | setForce
  /-- `drRemoteUp = true`. -/
  | setUp
  /-- `recv`, and `drHandleInput`. -/
  | receive (data : List UInt8)
  /-- `recv` fails. -/
  | receiveFails
  /-- The slot is emptied. -/
  | take
  | send
  /-- `send` fails. -/
  | sendFails
  /-- `drRemoteUp = false`. -/
  | setDown
  | close
  deriving DecidableEq

namespace DisplayLink

/-- The blob is the same as the last one, and nothing asks for it again. -/
def repeats (s : DisplayLink) (blob : Blob) (nowMs : UInt32) : Bool :=
  !(s.forceResend || s.keyframeMs != 0 && nowMs - s.lastSentMs ≥ s.keyframeMs) &&
    blob = s.lastSent

/-- `drPublish`, up to its lock. -/
def publish (s : DisplayLink) (blob : Blob) (nowMs : UInt32) : DisplayLink :=
  if blob.isEmpty then s
  else if s.repeats blob nowMs then
    { s with
      forceResend := false
      wanted := false
      missed := s.missed || s.wanted
      upSince := s.phase.connected }
  else
    { s with
      forceResend := false
      lastSent := blob
      lastSentMs := nowMs
      placing := some blob
      wanted := false
      upDuring := s.phase.connected }

/-- The link goes down. -/
def fails (s : DisplayLink) : DisplayLink :=
  { s with phase := .failed, upDuring := false, upSince := false }

def step (s : DisplayLink) : LinkEvent → Option DisplayLink
  | .record => if s.remoteUp || s.dump then some { s with recording := true } else none
  | .publish blob nowMs =>
      if s.recording && s.placing.isNone then
        some ({ s with recording := false }.publish blob nowMs)
      else none
  | .place => s.placing.map fun blob =>
      { s with placing := none, pending := some blob, placed := some blob, upSince := s.upDuring }
  | .connect => if s.phase = .closed then some { s with phase := .opened, wanted := true } else none
  | .setForce =>
      if s.phase = .opened then some { s with phase := .forced, forceResend := true } else none
  | .setUp => if s.phase = .forced then some { s with phase := .ready, remoteUp := true } else none
  | .receive data =>
      let input := drHandleInput data
      if s.phase = .ready then
        some { s with
          touchQueue := s.touchQueue ++ input.touches
          forceResend := s.forceResend || input.force
          wanted := s.wanted || input.force }
      else none
  | .receiveFails => if s.phase = .ready then some s.fails else none
  | .take =>
      if s.phase = .ready then
        s.pending.map fun frame => { s with phase := .holding frame, pending := none }
      else none
  | .send => s.phase.held.map fun frame => { s with phase := .ready, sent := some frame }
  | .sendFails => s.phase.held.map fun _ => s.fails
  | .setDown =>
      if s.phase = .failed then some { s with phase := .detached, remoteUp := false } else none
  | .close => if s.phase = .detached then some { s with phase := .closed } else none

/-- The viewer is not stranded. -/
structure Good (s : DisplayLink) : Prop where
  /-- While the link stays up, what was put into the slot is sent. -/
  delivered : s.upSince = true → s.pending = none → s.phase.held = none → s.sent = s.placed
  /-- The first publish after a reconnect or a request is put into the slot. -/
  answered : s.missed = false

/-- No publish that is the first since `open`, and comes before the flag is set, is skipped. -/
def Answers (s : DisplayLink) : LinkEvent → Prop
  | .publish blob nowMs =>
      s.phase = .opened → s.wanted = true → s.recording = true → s.placing = none → blob ≠ [] →
        s.repeats blob nowMs = false
  | _ => True

instance (s : DisplayLink) (e : LinkEvent) : Decidable (s.Answers e) := by
  unfold Answers
  split <;> infer_instance

/-! ## Steps -/

/-- What was put into the slot last is there, or with the sender, or sent. -/
def Current (s : DisplayLink) : Prop := s.pending.or (s.phase.held.or s.sent) = s.placed

/-- On the way: a wish is answered by the next publish, as the flag says or as the link was opened
only now; where none is left, the viewer has what was put into the slot. -/
structure Inv (s : DisplayLink) : Prop where
  slot : ∀ blob, s.pending = some blob → s.placed = some blob
  wish : s.wanted = true → s.forceResend = true ∨ s.phase = .opened
  current : s.phase.connected = true → s.wanted = false → s.forceResend = false →
    s.placing = none → s.Current
  during : s.upDuring = true → s.phase.connected = true
  since : s.upSince = true → s.phase.connected = true ∧ s.Current
  answered : s.missed = false

theorem Inv.good {s : DisplayLink} (h : s.Inv) : s.Good where
  delivered := by
    intro hup hpending hheld
    obtain ⟨-, hcurrent⟩ := h.since hup
    rw [Current, hpending, hheld] at hcurrent
    exact hcurrent
  answered := h.answered

variable {s t : DisplayLink}

theorem Inv.fails (h : s.Inv) (hphase : s.phase ≠ .opened) : s.fails.Inv where
  slot := h.slot
  wish := by
    intro hwanted
    rcases h.wish hwanted with hforce | hopened
    · exact Or.inl hforce
    · exact absurd hopened hphase
  current := nofun
  during := nofun
  since := nofun
  answered := h.answered

/-- A publish that is skipped finds all done, or is the first since the link was opened. -/
theorem Inv.publish (h : s.Inv) (hplacing : s.placing = none) {blob : Blob} {nowMs : UInt32}
    (hanswers : s.phase = .opened → s.wanted = true → blob ≠ [] → s.repeats blob nowMs = false) :
    (s.publish blob nowMs).Inv := by
  unfold DisplayLink.publish
  split
  · exact h
  · next hblob =>
    rw [List.isEmpty_iff] at hblob
    split
    · next hrepeats =>
      have hforce : s.forceResend = false := by
        simp only [repeats, Bool.and_eq_true, Bool.not_eq_true', Bool.or_eq_false_iff] at hrepeats
        exact hrepeats.1.1
      have hwanted : s.wanted = false := by
        cases hw : s.wanted with
        | false => rfl
        | true =>
            rcases h.wish hw with hf | hopened
            · rw [hforce] at hf
              cases hf
            · rw [hanswers hopened hw hblob] at hrepeats
              cases hrepeats
      refine ⟨h.slot, nofun, fun hup _ _ _ => h.current hup hwanted hforce hplacing, h.during,
        fun hup => ⟨hup, h.current hup hwanted hforce hplacing⟩, ?_⟩
      show (s.missed || s.wanted) = false
      rw [h.answered, hwanted]
      rfl
    · exact ⟨h.slot, nofun, nofun, id, h.since, h.answered⟩

/-- The sender moves on, with the link as it was. -/
theorem Inv.moves (h : s.Inv) (phase : Phase) (hheld : phase.held = s.phase.held)
    (hconnected : phase.connected = s.phase.connected) (hopened : s.phase ≠ .opened) :
    ({ s with phase := phase } : DisplayLink).Inv where
  slot := h.slot
  wish := by
    intro hwanted
    rcases h.wish hwanted with hforce | hphase
    · exact Or.inl hforce
    · exact absurd hphase hopened
  current := by
    intro hup
    rw [show phase.connected = s.phase.connected from hconnected] at hup
    unfold Current
    rw [show phase.held = s.phase.held from hheld]
    exact h.current hup
  during := by
    intro hup
    exact hconnected.trans (h.during hup)
  since := by
    intro hup
    obtain ⟨hconn, hcurrent⟩ := h.since hup
    refine ⟨hconnected.trans hconn, ?_⟩
    unfold Current
    rw [show phase.held = s.phase.held from hheld]
    exact hcurrent
  answered := h.answered

theorem Inv.step {e : LinkEvent} (h : s.Inv) (hanswers : s.Answers e) (hstep : step s e = some t) :
    t.Inv := by
  cases e with
  | record =>
      simp only [DisplayLink.step] at hstep
      split at hstep <;> cases hstep
      exact ⟨h.slot, h.wish, h.current, h.during, h.since, h.answered⟩
  | publish blob nowMs =>
      simp only [DisplayLink.step] at hstep
      split at hstep <;> cases hstep
      next hready =>
      rw [Bool.and_eq_true, Option.isNone_iff_eq_none] at hready
      obtain ⟨hrecording, hplacing⟩ := hready
      have hinv : ({ s with recording := false } : DisplayLink).Inv :=
        ⟨h.slot, h.wish, h.current, h.during, h.since, h.answered⟩
      exact hinv.publish hplacing fun hopened hwanted hblob =>
        hanswers hopened hwanted hrecording hplacing hblob
  | place =>
      obtain ⟨blob, hplacing, rfl⟩ := Option.map_eq_some_iff.mp hstep
      refine ⟨fun _ hpending => hpending, h.wish, fun _ _ _ _ => rfl, h.during, fun hup => ?_,
        h.answered⟩
      exact ⟨h.during hup, rfl⟩
  | connect =>
      simp only [DisplayLink.step] at hstep
      split at hstep <;> cases hstep
      next hclosed =>
      refine ⟨h.slot, fun _ => Or.inr rfl, nofun, fun _ => rfl, fun hup => ?_, h.answered⟩
      obtain ⟨hconnected, -⟩ := h.since hup
      rw [hclosed] at hconnected
      cases hconnected
  | setForce =>
      simp only [DisplayLink.step] at hstep
      split at hstep <;> cases hstep
      next hopened =>
      refine ⟨h.slot, fun _ => Or.inl rfl, nofun, fun _ => rfl, fun hup => ?_, h.answered⟩
      obtain ⟨-, hcurrent⟩ := h.since hup
      rw [Current, hopened] at hcurrent
      exact ⟨rfl, hcurrent⟩
  | setUp =>
      simp only [DisplayLink.step] at hstep
      split at hstep <;> cases hstep
      next hforced =>
      have hinv := h.moves .ready (by rw [hforced]; rfl) (by rw [hforced]; rfl)
        (by rw [hforced]; exact nofun)
      exact ⟨hinv.slot, hinv.wish, hinv.current, hinv.during, hinv.since, hinv.answered⟩
  | receive data =>
      simp only [DisplayLink.step] at hstep
      split at hstep <;> cases hstep
      next hready =>
      refine ⟨h.slot, fun hwanted => ?_, fun hup hwanted hforce hplacing => ?_, h.during, h.since,
        h.answered⟩
      · rw [Bool.or_eq_true] at hwanted ⊢
        rcases hwanted with hwanted | hinput
        · rcases h.wish hwanted with hforce | hopened
          · exact Or.inl (Or.inl hforce)
          · rw [hready] at hopened
            cases hopened
        · exact Or.inl (Or.inr hinput)
      · rw [Bool.or_eq_false_iff] at hwanted hforce
        exact h.current hup hwanted.1 hforce.1 hplacing
  | receiveFails =>
      simp only [DisplayLink.step] at hstep
      split at hstep <;> cases hstep
      next hready => exact h.fails (by rw [hready]; exact nofun)
  | take =>
      simp only [DisplayLink.step] at hstep
      split at hstep
      · next hready =>
        obtain ⟨frame, hpending, rfl⟩ := Option.map_eq_some_iff.mp hstep
        have hplaced := h.slot frame hpending
        refine ⟨nofun, fun hwanted => ?_, fun _ _ _ _ => hplaced.symm, fun _ => rfl,
          fun _ => ⟨rfl, hplaced.symm⟩, h.answered⟩
        rcases h.wish hwanted with hforce | hopened
        · exact Or.inl hforce
        · rw [hready] at hopened
          cases hopened
      · cases hstep
  | send =>
      obtain ⟨frame, hheld, rfl⟩ := Option.map_eq_some_iff.mp hstep
      have hcurrent : s.Current →
          ({ s with phase := .ready, sent := some frame } : DisplayLink).Current := by
        intro hcurrent
        rw [Current, hheld] at hcurrent
        exact hcurrent
      have hphase : s.phase = .holding frame := by
        cases hp : s.phase with
        | holding frame' =>
            rw [hp] at hheld
            exact congrArg Phase.holding (Option.some.inj hheld)
        | closed | opened | forced | ready | failed | detached =>
            rw [hp] at hheld
            cases hheld
      have hconnected : s.phase.connected = true := by rw [hphase]; rfl
      refine ⟨h.slot, fun hwanted => ?_, fun _ hwanted hforce hplacing =>
        hcurrent (h.current hconnected hwanted hforce hplacing), fun _ => rfl,
        fun hup => ⟨rfl, hcurrent (h.since hup).2⟩, h.answered⟩
      rcases h.wish hwanted with hforce | hopened
      · exact Or.inl hforce
      · rw [hphase] at hopened
        cases hopened
  | sendFails =>
      obtain ⟨frame, hheld, rfl⟩ := Option.map_eq_some_iff.mp hstep
      refine h.fails fun hopened => ?_
      rw [hopened] at hheld
      cases hheld
  | setDown =>
      simp only [DisplayLink.step] at hstep
      split at hstep <;> cases hstep
      next hfailed =>
      have hinv := h.moves .detached (by rw [hfailed]; rfl) (by rw [hfailed]; rfl)
        (by rw [hfailed]; exact nofun)
      exact ⟨hinv.slot, hinv.wish, hinv.current, hinv.during, hinv.since, hinv.answered⟩
  | close =>
      simp only [DisplayLink.step] at hstep
      split at hstep <;> cases hstep
      next hdetached =>
      exact h.moves _ (by rw [hdetached]; rfl) (by rw [hdetached]; rfl)
        (by rw [hdetached]; exact nofun)

/-- A publish that does not answer a wish is missed. -/
theorem missed_of_not_answers {e : LinkEvent} (h : ¬ s.Answers e) :
    ∃ u, step s e = some u ∧ u.missed = true := by
  cases e with
  | publish blob nowMs =>
      simp only [Answers, Classical.not_imp] at h
      obtain ⟨-, hwanted, hrecording, hplacing, hblob, hrepeats⟩ := h
      rw [Bool.not_eq_false] at hrepeats
      refine ⟨{ s with recording := false }.publish blob nowMs, ?_, ?_⟩
      · rw [DisplayLink.step, hrecording, hplacing]
        rfl
      · rw [DisplayLink.publish, if_neg (by simpa using hblob)]
        rw [if_pos (show repeats { s with recording := false } blob nowMs = true from hrepeats)]
        show (s.missed || s.wanted) = true
        rw [hwanted, Bool.or_true]
  | record | place | connect | setForce | setUp | receive | receiveFails | take | send | sendFails
  | setDown | close => exact absurd trivial h

/-! ## Runs -/

/-- Both threads at their start. -/
structure Fresh (s : DisplayLink) : Prop where
  pending : s.pending = none
  closed : s.phase = .closed
  wanted : s.wanted = false
  during : s.upDuring = false
  since : s.upSince = false
  missed : s.missed = false

theorem Fresh.inv (h : s.Fresh) : s.Inv where
  slot := by
    intro blob hpending
    rw [h.pending] at hpending
    cases hpending
  wish := by
    intro hwanted
    rw [h.wanted] at hwanted
    cases hwanted
  current := by
    intro hup
    rw [h.closed] at hup
    cases hup
  during := by
    intro hup
    rw [h.during] at hup
    cases hup
  since := by
    intro hup
    rw [h.since] at hup
    cases hup
  answered := h.missed

/-- No state of a run strands the viewer. -/
def StaysGood (s : DisplayLink) (es : List LinkEvent) : Prop :=
  ∀ es₁ es₂ t, es = es₁ ++ es₂ → run step s es₁ = some t → t.Good

/-- The viewer is not stranded in any state of a run exactly when no first publish since `open`
is skipped before the flag is set. -/
theorem staysGood_iff (hs : s.Fresh) (es : List LinkEvent) :
    s.StaysGood es ↔ Throughout step Answers s es := by
  constructor
  · intro hgood
    apply Classical.byContradiction
    intro hbad
    obtain ⟨es₁, e, es₂, t, rfl, -, hrun, he⟩ := first_violation hbad
    obtain ⟨u, hstep, hmissed⟩ := missed_of_not_answers he
    have hu : u.Good := by
      refine hgood (es₁ ++ [e]) es₂ u (by simp) (run_trans hrun ?_)
      rw [run_cons hstep]
      rfl
    rw [hu.answered] at hmissed
    cases hmissed
  · intro hall es₁ es₂ t hes hrun
    subst hes
    exact (run_invariant (I := Inv) Inv.step hs.inv (throughout_of_append hall) hrun).good

/-- The board at its start. -/
def board : DisplayLink := {}

theorem fresh_board : board.Fresh := ⟨rfl, rfl, rfl, rfl, rfl, rfl⟩

/-- The link is opened, and the flag is set. -/
def attach : List LinkEvent := [.connect, .setForce, .setUp]

/-- A frame is recorded, put into the slot and taken by the sender. -/
def frameTaken (blob : Blob) (nowMs : UInt32) : List LinkEvent :=
  [.record, .publish blob nowMs, .place, .take]

/-- The link fails under a frame, and the same frame is sent when it is up again, and once more
when the viewer asks for it. -/
def calmLink : List LinkEvent :=
  attach ++ frameTaken [1] 10000 ++ [.sendFails, .setDown, .close] ++ attach ++
    frameTaken [1] 11500 ++ LinkEvent.send :: .receive (encodeCtrl requestFullFrame) ::
    frameTaken [1] 12000 ++ [.send]

theorem staysGood_calmLink : board.StaysGood calmLink :=
  (staysGood_iff fresh_board calmLink).mpr (by decide)

/-- The link fails under a frame, and the same frame is published between `open` and the line that
sets the flag; its recording has begun before the link was found to be down. -/
def earlyPublish : List LinkEvent :=
  attach ++ frameTaken [1] 10000 ++
    [.record, .sendFails, .setDown, .close, .connect, .publish [1] 11500]

/-- Whether a wish was missed, whether the link is idle and was up since the last publish, what was
sent and what should have been. -/
def viewer (s : DisplayLink) : Bool × Bool × Option Blob × Option Blob :=
  (s.missed, s.upSince && (s.pending.or s.phase.held).isNone, s.sent, s.placed)

/-- The publish is skipped, and the frame was never sent. -/
theorem run_earlyPublish : (run step board earlyPublish).map viewer =
    some (true, true, none, some [1]) := by
  decide

theorem not_staysGood : ¬ board.StaysGood earlyPublish := by
  intro hgood
  obtain ⟨t, hrun, hviewer⟩ := Option.map_eq_some_iff.mp run_earlyPublish
  have ht := hgood earlyPublish [] t (List.append_nil _).symm hrun
  have hmissed := congrArg Prod.fst hviewer
  rw [viewer, ht.answered] at hmissed
  cases hmissed

end DisplayLink

end MFoES.App
