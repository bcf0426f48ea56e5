import MFoES.Lib.Pointwise
import MFoES.Touch.GT911

/-!
# The events of one finger

What is fired for one finger should be brackets: a press, then moves and at most one hold, then
the release.  `Phase` reads such words.  An untracked finger is up, and a tracked one is down or
held, but for one that came back too soon: it is tracked and still up.

Such a finger is silent when it is released.  It is not when it moves or is held, nor when the
polling stops.  The words are brackets exactly in the runs in which that does not happen
(`bracketed_iff`).
-/

namespace MFoES.Touch

open Transition Pointwise

/-! ## Brackets -/

/-- Where a word of events is. -/
inductive Phase
  | up
  | down
  /-- Down, after a `HOLD`. -/
  | held
  deriving DecidableEq

/-- The next event of a word. -/
def Phase.next : Phase → TouchEvent → Option Phase
  | .up, .press => some .down
  | .down, .move => some .down
  | .down, .hold => some .held
  | .down, .release => some .up
  | .held, .move => some .held
  | .held, .release => some .up
  | _, _ => none

/-- The events fired for a finger. -/
def wordOf (id : UInt8) (fired : List TouchEventData) : List TouchEvent :=
  (fired.filter fun ev => ev.point.id = id).map TouchEventData.event

/-- The events fired for each finger are brackets, and only a finger that is down while polling
is inside one. -/
def GT911.Bracketed (s : GT911) : Prop :=
  ∀ id, ∃ phase, run Phase.next .up (wordOf id s.fired) = some phase ∧
    (s.polling = false → phase = .up)

/-- The phase that the controller thinks a finger is in. -/
def phaseOf {id : UInt8} : Option (TrackState id) → Phase
  | none => .up
  | some state => if state.debouncing then .up else if state.holdFired then .held else .down

/-! ## Debounced fingers -/

/-- A finger that came back too soon neither moves nor is held. -/
def Quiet {id : UInt8} (cfg : Settings) (now : Int) :
    Option (TrackState id) → Option (PointOf id) → Prop
  | some state, some tp => state.debouncing = true →
      state.moves cfg tp = false ∧ state.holds cfg now tp = false
  | _, _ => True

/-- An event fires nothing for a finger that came back too soon. -/
def GT911.SilentAt (s : GT911) (e : Event) (id : UInt8) : Prop :=
  match e with
  | .interrupt (some points) now => Quiet s.settings now (s.tracked id) (currentMap points id)
  | .timeout now => Quiet s.settings now (s.tracked id) (currentMap s.points id)
  | .stopPolling _ => ∀ state, s.tracked id = some state → state.debouncing = false
  | _ => True

/-- An event fires nothing for the fingers that came back too soon. -/
def GT911.Silent (s : GT911) (e : Event) : Prop := ∀ id, s.SilentAt e id

/-! ## One finger -/

section Words

variable {id id' : UInt8} {fired events : List TouchEventData}

theorem wordOf_append (id : UInt8) (fired events : List TouchEventData) :
    wordOf id (fired ++ events) = wordOf id fired ++ wordOf id events := by
  simp [wordOf]

theorem wordOf_own (h : ∀ ev ∈ events, ev.point.id = id) :
    wordOf id events = events.map TouchEventData.event := by
  rw [wordOf, List.filter_eq_self.mpr]
  intro ev hev
  exact decide_eq_true (h ev hev)

theorem wordOf_other (h : ∀ ev ∈ events, ev.point.id = id) (hne : id' ≠ id) :
    wordOf id' events = [] := by
  rw [wordOf, List.filter_eq_nil_iff.mpr, List.map_nil]
  intro ev hev heq
  exact hne ((of_decide_eq_true heq).symm.trans (h ev hev))

theorem id_of_touched {cfg : Settings} {now : Int}
    {tracked : Option (TrackState id)} {lastRelease : Option Int} {tp : PointOf id} :
    ∀ ev ∈ (TrackState.touched cfg now tracked lastRelease tp).2, ev.point.id = id := by
  intro ev hev
  have hpoint : ev.point = tp.val := by
    unfold TrackState.touched at hev
    split at hev
    · split at hev
      · rw [TrackState.pressed, List.mem_singleton] at hev
        rw [hev]
      · split at hev
        · cases hev
        · rw [TrackState.pressed, List.mem_singleton] at hev
          rw [hev]
    · next state =>
      simp only [TrackState.stays, List.mem_append, List.mem_ite_nil_right,
        List.mem_singleton] at hev
      rcases hev with ⟨-, rfl⟩ | ⟨-, rfl⟩ <;> rfl
  rw [hpoint]
  exact tp.property

theorem id_of_releaseEvent {id : UInt8} (now : Int) (state : TrackState id) :
    ∀ ev ∈ [state.releaseEvent now], ev.point.id = id := by
  intro ev hev
  rw [List.mem_singleton] at hev
  rw [hev]
  exact state.point.property

theorem id_of_released {now : Int} {state : TrackState id} :
    ∀ ev ∈ state.released now, ev.point.id = id := by
  intro ev hev
  rw [TrackState.released] at hev
  split at hev
  · cases hev
  · exact id_of_releaseEvent now state ev hev

end Words

/-- What the controller has for a finger. -/
structure Finger (id : UInt8) where
  tracked : Option (TrackState id)
  lastRelease : Option Int
  word : List TouchEvent

namespace Finger

variable {id : UInt8}

/-- The loop over the released fingers, at this finger. -/
def release (now : Int) (f : Finger id) : Finger id :=
  match f.tracked with
  | none => f
  | some state => ⟨none, some now, f.word ++ (state.released now).map TouchEventData.event⟩

/-- The loop over the contacts, at this finger. -/
def touch (cfg : Settings) (now : Int) (tp : Option (PointOf id))
    (f : Finger id) : Finger id :=
  match tp with
  | none => f
  | some tp =>
      let r := TrackState.touched cfg now f.tracked f.lastRelease tp
      ⟨some r.1, f.lastRelease, f.word ++ r.2.map TouchEventData.event⟩

/-- The loop at the end of the polling, at this finger. -/
def shutdown (f : Finger id) : Finger id :=
  match f.tracked with
  | none => f
  | some _ => { f with word := f.word ++ [.release] }

end Finger

namespace GT911

variable {s t : GT911} {id : UInt8}

/-- A finger of the controller. -/
def finger (s : GT911) (id : UInt8) : Finger id :=
  ⟨s.tracked id, s.lastRelease id, wordOf id s.fired⟩

theorem tracked_finger (s : GT911) (id : UInt8) : (s.finger id).tracked = s.tracked id := rfl

theorem word_finger (s : GT911) (id : UInt8) : (s.finger id).word = wordOf id s.fired := rfl

theorem finger_releaseFinger (now : Int) (s : GT911) (id : UInt8) :
    (s.releaseFinger now id).finger id = (s.finger id).release now := by
  unfold releaseFinger Finger.release finger
  cases h : s.tracked id with
  | none => simp [h]
  | some state => simp [wordOf_append, wordOf_own id_of_released]

theorem finger_releaseFinger_other (now : Int) (s : GT911) (id id' : UInt8) (hne : id' ≠ id) :
    (s.releaseFinger now id).finger id' = s.finger id' := by
  unfold releaseFinger finger
  cases h : s.tracked id with
  | none => rfl
  | some state =>
      simp [wordOf_append, wordOf_other id_of_released hne, Function.update_of_ne hne]

theorem finger_touchFinger (cfg : Settings) (now : Int)
    (current : (id : UInt8) → Option (PointOf id)) (s : GT911) (id : UInt8) :
    (s.touchFinger cfg now current id).finger id =
      (s.finger id).touch cfg now (current id) := by
  unfold touchFinger Finger.touch finger
  cases h : current id with
  | none => rfl
  | some tp => simp [wordOf_append, wordOf_own id_of_touched]

theorem finger_touchFinger_other (cfg : Settings) (now : Int)
    (current : (id : UInt8) → Option (PointOf id)) (s : GT911) (id id' : UInt8) (hne : id' ≠ id) :
    (s.touchFinger cfg now current id).finger id' = s.finger id' := by
  unfold touchFinger finger
  cases h : current id with
  | none => rfl
  | some tp => simp [wordOf_append, wordOf_other id_of_touched hne, Function.update_of_ne hne]

theorem finger_shutdownFinger (now : Int) (s : GT911) (id : UInt8) :
    (s.shutdownFinger now id).finger id = (s.finger id).shutdown := by
  unfold shutdownFinger Finger.shutdown finger
  cases h : s.tracked id with
  | none => simp [h]
  | some state =>
      simp only [h, wordOf_append, wordOf_own (id_of_releaseEvent now state)]
      rfl

theorem finger_shutdownFinger_other (now : Int) (s : GT911) (id id' : UInt8) (hne : id' ≠ id) :
    (s.shutdownFinger now id).finger id' = s.finger id' := by
  unfold shutdownFinger finger
  cases h : s.tracked id with
  | none => rfl
  | some state =>
      simp [wordOf_append, wordOf_other (id_of_releaseEvent now state) hne]

theorem nodup_ids : ids.Nodup := by
  unfold ids
  refine List.Nodup.map_on ?_ List.nodup_range
  intro a ha b hb h
  rw [List.mem_range] at ha hb
  rw [← UInt8.toNat_ofNat_of_lt' ha, ← UInt8.toNat_ofNat_of_lt' hb, h]

theorem mem_ids (id : UInt8) : id ∈ ids := by
  unfold ids
  exact List.mem_map.mpr ⟨id.toNat, List.mem_range.mpr id.toNat_lt, UInt8.ofNat_toNat⟩

/-- What a sample makes of a finger. -/
theorem finger_processTouches (points : List GTPoint) (now : Int) (s : GT911) (id : UInt8) :
    (s.processTouches points now).finger id =
      (if (s.tracked id).isSome && (currentMap points id).isNone then (s.finger id).release now
        else s.finger id).touch s.settings now (currentMap points id) := by
  rw [processTouches, view_foldl_of_mem (fun s id => finger_touchFinger _ _ _ s id)
      (fun s id id' => finger_touchFinger_other _ _ _ s id id') nodup_ids _ (mem_ids id),
    view_foldl (fun s id => finger_releaseFinger _ s id)
      (fun s id id' => finger_releaseFinger_other _ s id id') (nodup_ids.filter _)]
  simp only [List.mem_filter, mem_ids, true_and]

/-- What the end of the polling makes of a finger. -/
theorem word_shutdown (now : Int) (s : GT911) (id : UInt8) :
    wordOf id (ids.foldl (shutdownFinger now) s).fired = (s.finger id).shutdown.word := by
  rw [← word_finger, view_foldl_of_mem (fun s id => finger_shutdownFinger now s id)
    (fun s id id' => finger_shutdownFinger_other now s id id') nodup_ids s (mem_ids id)]

/-! ## The step -/

/-- What an event fires for a finger takes it from phase to phase, if it is silent where it has
to be, and else it is no bracket. -/
def Reads (s t : GT911) (id : UInt8) (silent : Prop) : Prop :=
  ∃ events, wordOf id t.fired = wordOf id s.fired ++ events ∧
    (silent → run Phase.next (phaseOf (s.tracked id)) events = some (phaseOf (t.tracked id))) ∧
    (¬ silent → run Phase.next (phaseOf (s.tracked id)) events = none)

/-- An event that leaves a finger alone. -/
theorem Reads.refl {silent : Prop} (hsilent : silent) (htracked : t.tracked id = s.tracked id)
    (hword : wordOf id t.fired = wordOf id s.fired) : s.Reads t id silent :=
  ⟨[], by rw [hword, List.append_nil], fun _ => by rw [htracked]; rfl,
    fun h => absurd hsilent h⟩

theorem run_stays {cfg : Settings} {now : Int} (state : TrackState id) (tp : PointOf id) :
    (Quiet cfg now (some state) (some tp) →
      run Phase.next (phaseOf (some state))
        ((state.stays cfg now tp).2.map TouchEventData.event) =
          some (phaseOf (some (state.stays cfg now tp).1))) ∧
    (¬ Quiet cfg now (some state) (some tp) →
      run Phase.next (phaseOf (some state))
        ((state.stays cfg now tp).2.map TouchEventData.event) = none) := by
  have hfired : state.holds cfg now tp = true → state.holdFired = false := by
    intro h
    simp only [TrackState.holds, Bool.and_eq_true, Bool.not_eq_true'] at h
    exact h.1.1
  cases hdebouncing : state.debouncing <;> cases hmoves : state.moves cfg tp <;>
    cases hholds : state.holds cfg now tp <;> cases hheld : state.holdFired <;>
    simp_all [Quiet, phaseOf, TrackState.stays, run, Phase.next]

/-- A contact of a finger. -/
theorem run_touched (cfg : Settings) (now : Int) (tracked : Option (TrackState id))
    (lastRelease : Option Int) (tp : PointOf id) :
    (Quiet cfg now tracked (some tp) →
      run Phase.next (phaseOf tracked)
        ((TrackState.touched cfg now tracked lastRelease tp).2.map TouchEventData.event) =
          some (phaseOf (some (TrackState.touched cfg now tracked lastRelease tp).1))) ∧
    (¬ Quiet cfg now tracked (some tp) →
      run Phase.next (phaseOf tracked)
        ((TrackState.touched cfg now tracked lastRelease tp).2.map TouchEventData.event) =
          none) := by
  cases tracked with
  | some state => exact run_stays state tp
  | none =>
      refine ⟨fun _ => ?_, fun h => absurd trivial h⟩
      cases lastRelease with
      | none => rfl
      | some releaseTime =>
          simp only [TrackState.touched]
          split
          · rfl
          · rfl

/-- A release of a finger. -/
theorem run_released {now : Int} (state : TrackState id) :
    run Phase.next (phaseOf (some state)) ((state.released now).map TouchEventData.event) =
      some .up := by
  cases hdebouncing : state.debouncing <;> cases hheld : state.holdFired <;>
    simp [phaseOf, TrackState.released, TrackState.releaseEvent, hdebouncing, hheld, run,
      Phase.next]

/-- A sample takes every finger from phase to phase. -/
theorem reads_processTouches (points : List GTPoint) (now : Int) (s : GT911) (id : UInt8) :
    s.Reads (s.processTouches points now) id
      (Quiet s.settings now (s.tracked id) (currentMap points id)) := by
  have hfinger := finger_processTouches points now s id
  have hword := congrArg Finger.word hfinger
  have htracked := congrArg Finger.tracked hfinger
  rw [word_finger] at hword
  rw [tracked_finger] at htracked
  cases hcur : currentMap points id with
  | some tp =>
      rw [hcur] at hword htracked
      obtain ⟨hquiet, hloud⟩ := run_touched s.settings now (s.tracked id)
        (s.lastRelease id) tp
      refine ⟨_, ?_, ?_, hloud⟩
      · simpa [Finger.touch, finger] using hword
      · intro h
        rw [hquiet h, htracked]
        simp [Finger.touch, finger]
  | none =>
      rw [hcur] at hword htracked
      cases htr : s.tracked id with
      | none =>
          simp only [htr, Option.isSome_none, Bool.false_and, Bool.false_eq_true, if_false,
            Finger.touch, finger] at hword htracked
          exact Reads.refl trivial (htracked.trans htr.symm) hword
      | some state =>
          refine ⟨(state.released now).map TouchEventData.event, ?_, ?_, ?_⟩
          · simpa [Finger.touch, Finger.release, finger, htr] using hword
          · intro _
            rw [htr, run_released, htracked]
            simp [Finger.touch, Finger.release, finger, htr, phaseOf]
          · intro h
            exact absurd (by simp [Quiet]) h

/-- The end of the polling releases every finger that is tracked. -/
theorem reads_stopPolling (now : Int) (s : GT911) (id : UInt8) :
    s.Reads { ids.foldl (shutdownFinger now) s with tracked := fun _ => none, polling := false } id
      (∀ state, s.tracked id = some state → state.debouncing = false) := by
  have hword := word_shutdown now s id
  cases htr : s.tracked id with
  | none =>
      refine Reads.refl (fun _ h => by cases h) ?_ ?_
      · exact htr.symm
      · simpa [Finger.shutdown, finger, htr] using hword
  | some state =>
      refine ⟨[.release], ?_, ?_, ?_⟩
      · simpa [Finger.shutdown, finger, htr] using hword
      · intro h
        have hdebouncing := h state rfl
        rw [htr]
        cases hheld : state.holdFired <;> simp [phaseOf, hdebouncing, hheld, run, Phase.next]
      · intro h
        have hdebouncing : state.debouncing = true := by
          cases hd : state.debouncing with
          | true => rfl
          | false => exact absurd (fun _ heq => by cases heq; exact hd) h
        rw [htr]
        simp [phaseOf, hdebouncing, run, Phase.next]

/-- No finger is tracked while the controller does not poll. -/
def AtRest (s : GT911) : Prop := s.polling = false → ∀ id, s.tracked id = none

/-- Every event takes every finger from phase to phase. -/
theorem reads_step {e : Event} (hrest : s.AtRest) (hstep : s.step e = some t) (id : UInt8) :
    s.Reads t id (s.SilentAt e id) := by
  cases e with
  | setMoveThreshold px =>
      cases hstep
      exact Reads.refl trivial rfl rfl
  | setHoldDuration ms =>
      cases hstep
      exact Reads.refl trivial rfl rfl
  | setDebounceMs ms =>
      cases hstep
      exact Reads.refl trivial rfl rfl
  | startPolling =>
      simp only [step] at hstep
      split at hstep
      · cases hstep
      · cases hstep
        exact Reads.refl trivial rfl rfl
  | stopPolling now =>
      simp only [step] at hstep
      split at hstep
      · cases hstep
        exact reads_stopPolling now s id
      · next hpolling =>
        cases hstep
        refine Reads.refl (fun state hstate => ?_) rfl rfl
        rw [hrest (Bool.eq_false_iff.mpr hpolling) id] at hstate
        cases hstate
  | interrupt sample now =>
      simp only [step] at hstep
      split at hstep
      · cases sample with
        | none =>
            cases hstep
            exact Reads.refl trivial rfl rfl
        | some points =>
            cases hstep
            exact reads_processTouches points now { s with points := points } id
      · cases hstep
  | timeout now =>
      simp only [step] at hstep
      split at hstep
      · split at hstep
        · next hempty =>
          cases hstep
          have hnone : s.tracked id = none := by
            rw [trackedEmpty, List.all_eq_true] at hempty
            exact Option.isNone_iff_eq_none.mp (hempty id (mem_ids id))
          refine Reads.refl ?_ rfl rfl
          rw [SilentAt, hnone]
          trivial
        · cases hstep
          exact reads_processTouches s.points now s id
      · cases hstep

/-- The loops over the fingers do not stop the polling. -/
theorem polling_foldl {body : GT911 → UInt8 → GT911}
    (hbody : ∀ s id, (body s id).polling = s.polling) (keys : List UInt8) (s : GT911) :
    (keys.foldl body s).polling = s.polling := by
  induction keys generalizing s with
  | nil => rfl
  | cons id keys ih => rw [List.foldl_cons, ih, hbody]

theorem polling_processTouches (points : List GTPoint) (now : Int) (s : GT911) :
    (s.processTouches points now).polling = s.polling := by
  rw [processTouches, polling_foldl, polling_foldl]
  · intro s id
    unfold releaseFinger
    split <;> rfl
  · intro s id
    unfold touchFinger
    split <;> rfl

theorem atRest_step {e : Event} (hrest : s.AtRest) (hstep : s.step e = some t) :
    t.AtRest := by
  cases e with
  | setMoveThreshold px =>
      cases hstep
      exact hrest
  | setHoldDuration ms =>
      cases hstep
      exact hrest
  | setDebounceMs ms =>
      cases hstep
      exact hrest
  | startPolling =>
      simp only [step] at hstep
      split at hstep
      · cases hstep
      · cases hstep
        exact nofun
  | stopPolling now =>
      simp only [step] at hstep
      split at hstep
      · cases hstep
        exact fun _ _ => rfl
      · cases hstep
        exact hrest
  | interrupt sample now =>
      simp only [step] at hstep
      split at hstep
      · next hpolling =>
        cases sample with
        | none =>
            cases hstep
            exact hrest
        | some points =>
            cases hstep
            intro h
            rw [polling_processTouches] at h
            rw [hpolling] at h
            cases h
      · cases hstep
  | timeout now =>
      simp only [step] at hstep
      split at hstep
      · next hpolling =>
        split at hstep
        · cases hstep
          exact hrest
        · cases hstep
          intro h
          rw [polling_processTouches, hpolling] at h
          cases h
      · cases hstep

/-! ## Every run -/

/-- Every finger's word has come to the phase that the controller thinks it is in. -/
def InPhase (s : GT911) : Prop :=
  s.AtRest ∧ ∀ id, run Phase.next .up (wordOf id s.fired) = some (phaseOf (s.tracked id))

/-- Some finger's word is no bracket. -/
def Broken (s : GT911) : Prop :=
  s.AtRest ∧ ∃ id, run Phase.next .up (wordOf id s.fired) = none

theorem InPhase.bracketed (h : s.InPhase) : s.Bracketed := by
  intro id
  refine ⟨_, h.2 id, fun hpolling => ?_⟩
  rw [h.1 hpolling id]
  rfl

theorem Broken.not_bracketed (h : s.Broken) : ¬ s.Bracketed := by
  obtain ⟨-, id, hid⟩ := h
  intro hb
  obtain ⟨phase, hphase, -⟩ := hb id
  rw [hid] at hphase
  cases hphase

theorem InPhase.step {e : Event} (h : s.InPhase) (hsilent : s.Silent e)
    (hstep : s.step e = some t) : t.InPhase := by
  refine ⟨atRest_step h.1 hstep, fun id => ?_⟩
  obtain ⟨events, hword, hquiet, -⟩ := reads_step h.1 hstep id
  rw [hword, run_append, h.2 id]
  exact hquiet (hsilent id)

theorem InPhase.broken {e : Event} (h : s.InPhase) (hloud : ¬ s.Silent e)
    (hstep : s.step e = some t) : t.Broken := by
  rw [Silent, not_forall] at hloud
  obtain ⟨id, hid⟩ := hloud
  obtain ⟨events, hword, -, hbad⟩ := reads_step h.1 hstep id
  refine ⟨atRest_step h.1 hstep, id, ?_⟩
  rw [hword, run_append, h.2 id]
  exact hbad hid

theorem Broken.step {e : Event} (h : s.Broken) (hstep : s.step e = some t) : t.Broken := by
  obtain ⟨hrest, id, hid⟩ := h
  obtain ⟨events, hword, -⟩ := reads_step hrest hstep id
  refine ⟨atRest_step hrest hstep, id, ?_⟩
  rw [hword, run_append, hid]
  rfl

theorem inPhase_init : init.InPhase :=
  ⟨fun _ _ => rfl, fun _ => rfl⟩

/-- The events of every finger are brackets exactly when none is fired for a finger that came
back too soon. -/
theorem bracketed_iff {es : List Event} (hrun : run step init es = some s) :
    s.Bracketed ↔ Throughout step Silent init es := by
  constructor
  · intro hb
    by_contra hloud
    obtain ⟨before, e, after, u, rfl, hsilent, hbefore, hbad⟩ := first_violation hloud
    have hphase : u.InPhase := run_invariant (fun h hs hstep => InPhase.step h hs hstep)
      inPhase_init hsilent hbefore
    obtain ⟨u', hu', hafter⟩ := run_of_append hrun
    rw [hbefore, Option.some.injEq] at hu'
    subst hu'
    cases hstep : u.step e with
    | none =>
        rw [run, hstep] at hafter
        cases hafter
    | some v =>
        rw [run_cons hstep] at hafter
        have hbroken : s.Broken := run_invariant (P := fun _ _ => True)
          (fun h _ hstep => Broken.step h hstep) (hphase.broken hbad hstep)
          (throughout_of_forall (fun _ _ => trivial) _ _) hafter
        exact hbroken.not_bracketed hb
  · intro hsilent
    have hphase : s.InPhase := run_invariant (fun h hs hstep => InPhase.step h hs hstep)
      inPhase_init hsilent hrun
    exact hphase.bracketed

/-- Finger 1 at a place of the screen, after some milliseconds. -/
def contact (x : UInt16) (ms : Int) : Event := .interrupt (some [⟨1, x, 10, 5⟩]) (ms * 1000000)

/-- No finger on the screen, after some milliseconds. -/
def noContact (ms : Int) : Event := .interrupt (some []) (ms * 1000000)

/-- A finger comes down, moves, is held, leaves the screen, and comes back later. -/
def calmRun : List Event :=
  [.startPolling, contact 10 0, contact 20 100, .timeout 600000000, noContact 700, contact 20 900,
    .stopPolling 1000000000]

theorem bracketed_calmRun :
    ∃ s, run step init calmRun = some s ∧
      wordOf 1 s.fired = [.press, .move, .hold, .release, .press, .release] ∧
      (s.Bracketed ↔ Throughout step Silent init calmRun) := by
  have hview : (run step init calmRun).map (fun s => wordOf 1 s.fired) =
      some [.press, .move, .hold, .release, .press, .release] := by decide +kernel
  obtain ⟨s, hrun, hword⟩ := Option.map_eq_some_iff.mp hview
  exact ⟨s, hrun, hword, bracketed_iff hrun⟩

/-- A finger leaves the screen for ten milliseconds and moves when it is back. -/
def bounceRun : List Event :=
  [.startPolling, contact 10 0, noContact 100, contact 10 110, contact 30 120]

/-- A finger leaves the screen for ten milliseconds before the polling stops. -/
def bounceStop : List Event :=
  [.startPolling, contact 10 0, noContact 100, contact 10 110, .stopPolling 120000000]

/-- A run whose events are no brackets. -/
theorem not_bracketed_of_word {s : GT911} {id : UInt8} {word : List TouchEvent}
    (hword : wordOf id s.fired = word) (h : run Phase.next .up word = none) : ¬ s.Bracketed := by
  intro hb
  obtain ⟨phase, hphase, -⟩ := hb id
  rw [hword, h] at hphase
  cases hphase

/-- A finger that came back too soon fires a move, or a second release, without a press. -/
theorem not_bracketed :
    (∃ s, run step init bounceRun = some s ∧
      wordOf 1 s.fired = [.press, .release, .move] ∧ ¬ s.Bracketed) ∧
    ∃ s, run step init bounceStop = some s ∧
      wordOf 1 s.fired = [.press, .release, .release] ∧ ¬ s.Bracketed := by
  constructor
  · have hview : (run step init bounceRun).map (fun s => wordOf 1 s.fired) =
        some [.press, .release, .move] := by decide +kernel
    obtain ⟨s, hrun, hword⟩ := Option.map_eq_some_iff.mp hview
    exact ⟨s, hrun, hword, not_bracketed_of_word hword rfl⟩
  · have hview : (run step init bounceStop).map (fun s => wordOf 1 s.fired) =
        some [.press, .release, .release] := by decide +kernel
    obtain ⟨s, hrun, hword⟩ := Option.map_eq_some_iff.mp hview
    exact ⟨s, hrun, hword, not_bracketed_of_word hword rfl⟩

end GT911

end MFoES.Touch
