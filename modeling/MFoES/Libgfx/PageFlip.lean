import Mathlib.Data.List.Basic
import Mathlib.Tactic.Common

/-!
# Page flips on the DRM back-end

There are two buffers, one on screen and one to draw into.  A flip that is asked for takes effect
at a later vsync, and an event says so.  `_flushToFb` exchanges the buffers whatever `PAGE_FLIP` and
the wait for the event came to.  So the buffer that is drawn into is off the screen exactly when
every flip is taken and happens before its wait is over (`hidden_iff`).
-/

namespace MFoES.Libgfx

/-! ## The display -/

/-- What the display does on its own. -/
inductive DrmActivity where
  /-- The next queued flip takes effect, if there is one. -/
  | vsync
  /-- The event of a flip that took effect can be read. -/
  | deliver
deriving DecidableEq

/-- What `poll` and `read` come to in `_drmWaitFlip`. -/
inductive DrmPoll where
  | timedOut
  | readable
  /-- `read` fails. -/
  | readFailed
deriving DecidableEq

/-- A wait for a flip: what the display does until `poll` returns, and what it returns. -/
structure DrmWait where
  activity : List DrmActivity
  poll : DrmPoll

/-- What the display and the kernel do from the end of a call of `_flushToFb` to the end of the
next. -/
structure DrmFlush where
  before : List DrmActivity
  /-- The wait for a flip before this one, if there is one pending. -/
  earlier : DrmWait
  /-- `PAGE_FLIP` returns 0. -/
  taken : Bool
  /-- The wait for this flip, if it was taken. -/
  wait : DrmWait

/-- The members of `LinuxGFX` and the state of the display.  A buffer is its index. -/
structure DrmDevice where
  drmFront : UInt8
  drmFlipPending : Bool
  /-- The buffer that `m_pBuffer` points into. -/
  pBuffer : UInt8
  /-- The buffer that is scanned out. -/
  scanout : UInt8
  /-- The buffers of the flips to come. -/
  queued : List UInt8
  /-- How many flips took effect whose event cannot be read yet, and how many events can. -/
  undelivered : Nat
  delivered : Nat

namespace DrmDevice

/-- After the mode was set. -/
def new : DrmDevice where
  drmFront := 0
  drmFlipPending := false
  pBuffer := 1
  scanout := 0
  queued := []
  undelivered := 0
  delivered := 0

def act (s : DrmDevice) : DrmActivity → DrmDevice
  | .vsync =>
      match s.queued with
      | [] => s
      | b :: queued =>
          { s with scanout := b, queued := queued, undelivered := s.undelivered + 1 }
  | .deliver =>
      if s.undelivered = 0 then s
      else { s with undelivered := s.undelivered - 1, delivered := s.delivered + 1 }

def actAll (s : DrmDevice) (activity : List DrmActivity) : DrmDevice := activity.foldl act s

/-! ## The back-end -/

/-- `_drmWaitFlip`.  A read of 256 bytes has at most eight events. -/
def waitFlip (s : DrmDevice) (w : DrmWait) : DrmDevice :=
  let s₁ := s.actAll w.activity
  match w.poll with
  | .timedOut => { s₁ with drmFlipPending := false }
  | .readable =>
      -- without an event `poll` does not return one, and times out
      { s₁ with drmFlipPending := false, delivered := s₁.delivered - 8 }
  | .readFailed => s₁

/-- `_flushToFb`. -/
def flush (s : DrmDevice) (f : DrmFlush) : DrmDevice :=
  let s₁ := s.actAll f.before
  let s₂ := if s₁.drmFlipPending then s₁.waitFlip f.earlier else s₁
  let back := 1 - s₂.drmFront
  let s₃ :=
    if f.taken then
      { s₂ with queued := s₂.queued ++ [back], drmFlipPending := true }.waitFlip f.wait
    else s₂
  { s₃ with drmFront := back, pBuffer := 1 - back }

/-- The buffer that is drawn into is neither on screen nor queued. -/
def Hidden (s : DrmDevice) : Prop := s.pBuffer ≠ s.scanout ∧ s.pBuffer ∉ s.queued

/-- It is so after each flush of a run. -/
def AlwaysHidden : DrmDevice → List DrmFlush → Prop
  | _, [] => True
  | s, f :: flushes => (s.flush f).Hidden ∧ AlwaysHidden (s.flush f) flushes

end DrmDevice

/-- The flip is taken, and happens before the wait for it is over. -/
def DrmFlush.Lands (f : DrmFlush) : Prop := f.taken = true ∧ .vsync ∈ f.wait.activity

namespace DrmDevice

/-! ## A flush -/

/-- The front buffer is on screen, and there is no flip to come. -/
structure Settled (s : DrmDevice) : Prop where
  scanout : s.scanout = s.drmFront
  queued : s.queued = []

variable {s : DrmDevice}

theorem one_sub_ne (b : UInt8) : 1 - b ≠ b := by
  intro heq
  have hnat := congrArg UInt8.toNat heq
  rw [UInt8.toNat_sub] at hnat
  have hlt := b.toNat_lt
  change (2 ^ 8 - b.toNat + 1) % 2 ^ 8 = b.toNat at hnat
  omega

theorem one_sub_one_sub (b : UInt8) : 1 - (1 - b) = b := by
  rw [← UInt8.toNat_inj, UInt8.toNat_sub, UInt8.toNat_sub]
  have hlt := b.toNat_lt
  show (2 ^ 8 - (2 ^ 8 - b.toNat + 1) % 2 ^ 8 + 1) % 2 ^ 8 = b.toNat
  omega

/-- Only a flip changes what is on screen. -/
theorem act_idle (hq : s.queued = []) (a : DrmActivity) :
    (s.act a).queued = [] ∧ (s.act a).scanout = s.scanout ∧ (s.act a).drmFront = s.drmFront := by
  cases a with
  | vsync =>
      rw [act, hq]
      exact ⟨hq, rfl, rfl⟩
  | deliver =>
      rw [act]
      split
      · exact ⟨hq, rfl, rfl⟩
      · exact ⟨hq, rfl, rfl⟩

theorem actAll_idle (hq : s.queued = []) (activity : List DrmActivity) :
    (s.actAll activity).queued = [] ∧ (s.actAll activity).scanout = s.scanout ∧
      (s.actAll activity).drmFront = s.drmFront := by
  induction activity generalizing s with
  | nil => exact ⟨hq, rfl, rfl⟩
  | cons a activity ih =>
      obtain ⟨hqueued, hscanout, hfront⟩ := act_idle hq a
      obtain ⟨hqueued', hscanout', hfront'⟩ := ih hqueued
      exact ⟨hqueued', hscanout'.trans hscanout, hfront'.trans hfront⟩

theorem Settled.actAll (hs : s.Settled) (activity : List DrmActivity) :
    (s.actAll activity).Settled ∧ (s.actAll activity).drmFront = s.drmFront := by
  obtain ⟨hqueued, hscanout, hfront⟩ := actAll_idle hs.queued activity
  exact ⟨⟨by rw [hscanout, hfront]; exact hs.scanout, hqueued⟩, hfront⟩

theorem Settled.waitFlip (hs : s.Settled) (w : DrmWait) :
    (s.waitFlip w).Settled ∧ (s.waitFlip w).drmFront = s.drmFront := by
  obtain ⟨hsettled, hfront⟩ := hs.actAll w.activity
  rw [DrmDevice.waitFlip]
  cases w.poll with
  | timedOut => exact ⟨⟨hsettled.scanout, hsettled.queued⟩, hfront⟩
  | readable => exact ⟨⟨hsettled.scanout, hsettled.queued⟩, hfront⟩
  | readFailed => exact ⟨hsettled, hfront⟩

/-- A queued flip waits for a vsync. -/
theorem actAll_one {b : UInt8} (hq : s.queued = [b]) (activity : List DrmActivity) :
    (s.actAll activity).drmFront = s.drmFront ∧
      (.vsync ∈ activity → (s.actAll activity).queued = [] ∧ (s.actAll activity).scanout = b) ∧
      (.vsync ∉ activity →
        (s.actAll activity).queued = [b] ∧ (s.actAll activity).scanout = s.scanout) := by
  induction activity generalizing s with
  | nil => exact ⟨rfl, fun h => (List.not_mem_nil h).elim, fun _ => ⟨hq, rfl⟩⟩
  | cons a activity ih =>
      cases a with
      | vsync =>
          have hact : s.act .vsync =
              { s with scanout := b, queued := [], undelivered := s.undelivered + 1 } := by
            rw [act, hq]
          obtain ⟨hqueued, hscanout, hfront⟩ :=
            @actAll_idle (s.act .vsync) (by rw [hact]) activity
          rw [hact] at hscanout hfront
          refine ⟨?_, fun _ => ⟨hqueued, ?_⟩, fun h => (h List.mem_cons_self).elim⟩
          · show ((s.act .vsync).actAll activity).drmFront = _
            rw [hact]
            exact hfront
          · show ((s.act .vsync).actAll activity).scanout = _
            rw [hact]
            exact hscanout
      | deliver =>
          have hsame : (s.act .deliver).queued = [b] ∧ (s.act .deliver).scanout = s.scanout ∧
              (s.act .deliver).drmFront = s.drmFront := by
            rw [act]
            split
            · exact ⟨hq, rfl, rfl⟩
            · exact ⟨hq, rfl, rfl⟩
          obtain ⟨hfront, hvsync, hnone⟩ := ih hsame.1
          rw [hsame.2.1] at hnone
          have hmem : DrmActivity.vsync ∈ DrmActivity.deliver :: activity ↔ .vsync ∈ activity := by
            simp
          rw [hmem]
          exact ⟨hfront.trans hsame.2.2, hvsync, hnone⟩

/-- The wait for a flip leaves what the display has done by then. -/
theorem waitFlip_display (w : DrmWait) :
    (s.waitFlip w).scanout = (s.actAll w.activity).scanout ∧
      (s.waitFlip w).queued = (s.actAll w.activity).queued := by
  rw [waitFlip]
  cases w.poll with
  | timedOut => exact ⟨rfl, rfl⟩
  | readable => exact ⟨rfl, rfl⟩
  | readFailed => exact ⟨rfl, rfl⟩

/-- After a flush the next buffer to draw into is off the screen exactly when the flip landed, and
then the display is at rest again. -/
theorem Settled.flush (hs : s.Settled) (f : DrmFlush) :
    ((s.flush f).Hidden ↔ f.Lands) ∧ (f.Lands → (s.flush f).Settled) := by
  have hbefore := (hs.actAll f.before).1
  have hready : ∃ t, t.Settled ∧ t =
      (if (s.actAll f.before).drmFlipPending then (s.actAll f.before).waitFlip f.earlier
        else s.actAll f.before) := by
    refine ⟨_, ?_, rfl⟩
    split
    · exact (hbefore.waitFlip f.earlier).1
    · exact hbefore
  obtain ⟨t, ht, heq⟩ := hready
  rw [DrmDevice.flush, ← heq]
  have hne := one_sub_ne t.drmFront
  have hback := one_sub_one_sub t.drmFront
  cases htaken : f.taken with
  | false =>
      have hmissed : ¬ f.Lands := fun hlands => by
        rw [DrmFlush.Lands, htaken] at hlands
        cases hlands.1
      refine ⟨iff_of_false ?_ hmissed, fun hlands => (hmissed hlands).elim⟩
      rintro ⟨hoff, -⟩
      refine hoff ?_
      show 1 - (1 - t.drmFront) = t.scanout
      rw [hback, ht.scanout]
  | true =>
      rw [DrmFlush.Lands, and_iff_right htaken, if_pos rfl]
      have hqueue : ({ t with queued := t.queued ++ [1 - t.drmFront], drmFlipPending := true }
          : DrmDevice).queued = [1 - t.drmFront] := by
        show t.queued ++ _ = _
        rw [ht.queued]
        rfl
      obtain ⟨-, hvsync, hnone⟩ := actAll_one hqueue f.wait.activity
      obtain ⟨hscanout, hqueued⟩ := @waitFlip_display
        { t with queued := t.queued ++ [1 - t.drmFront], drmFlipPending := true } f.wait
      by_cases hmem : .vsync ∈ f.wait.activity
      · obtain ⟨hq, hb⟩ := hvsync hmem
        refine ⟨iff_of_true ⟨?_, ?_⟩ hmem, fun _ => ⟨?_, ?_⟩⟩
        · rw [hscanout, hb, hback]
          exact Ne.symm hne
        · rw [hqueued, hq]
          exact List.not_mem_nil
        · exact hscanout.trans hb
        · exact hqueued.trans hq
      · refine ⟨iff_of_false ?_ hmem, fun h => (hmem h).elim⟩
        rintro ⟨hoff, -⟩
        refine hoff ?_
        rw [hscanout, (hnone hmem).2, hback]
        exact ht.scanout.symm

/-! ## Runs -/

theorem Settled.alwaysHidden_iff (hs : s.Settled) (flushes : List DrmFlush) :
    s.AlwaysHidden flushes ↔ ∀ f ∈ flushes, f.Lands := by
  induction flushes generalizing s with
  | nil => simp [AlwaysHidden]
  | cons f flushes ih =>
      obtain ⟨hhidden, hsettled⟩ := hs.flush f
      rw [AlwaysHidden, List.forall_mem_cons, hhidden]
      constructor
      · rintro ⟨hlands, hrest⟩
        exact ⟨hlands, (ih (hsettled hlands)).mp hrest⟩
      · rintro ⟨hlands, hrest⟩
        exact ⟨hlands, (ih (hsettled hlands)).mpr hrest⟩

/-- After each flush the buffer that is drawn into is off the screen, exactly when each flip is
taken and happens before the wait for it is over. -/
theorem hidden_iff (flushes : List DrmFlush) :
    new.AlwaysHidden flushes ↔ ∀ f ∈ flushes, f.Lands :=
  Settled.alwaysHidden_iff ⟨rfl, rfl⟩ flushes

/-- A flip that is refused leaves the screen to be drawn on. -/
theorem not_hidden_refused :
    ¬ new.AlwaysHidden [⟨[], ⟨[], .timedOut⟩, false, ⟨[], .timedOut⟩⟩] := by
  rintro ⟨⟨hoff, -⟩, -⟩
  exact hoff rfl

/-! ## Waits that end with the event -/

/-- The state as `PAGE_FLIP` leaves it, where it takes the flip. -/
def flipped (s : DrmDevice) : DrmDevice :=
  { s with queued := s.queued ++ [1 - s.drmFront], drmFlipPending := true }

/-- Each flip is taken, and `poll` returns since there is an event. -/
def Answered : DrmDevice → List DrmFlush → Prop
  | _, [] => True
  | s, f :: flushes =>
      (f.taken = true ∧ f.wait.poll = .readable ∧
        0 < ((s.actAll f.before).flipped.actAll f.wait.activity).delivered) ∧
      Answered (s.flush f) flushes

/-- There is no flip to come, and no event of one. -/
structure Quiet (s : DrmDevice) : Prop where
  pending : s.drmFlipPending = false
  queued : s.queued = []
  undelivered : s.undelivered = 0
  delivered : s.delivered = 0

/-- A flip is to come, or its event is. -/
theorem total_actAll (s : DrmDevice) (activity : List DrmActivity) :
    (s.actAll activity).queued.length + (s.actAll activity).undelivered +
        (s.actAll activity).delivered =
      s.queued.length + s.undelivered + s.delivered := by
  induction activity generalizing s with
  | nil => rfl
  | cons a activity ih =>
      refine (ih (s.act a)).trans ?_
      cases a with
      | vsync =>
          rw [act]
          split
          · rfl
          · next b queued hq =>
            rw [hq, List.length_cons]
            show queued.length + (s.undelivered + 1) + s.delivered = _
            omega
      | deliver =>
          rw [act]
          split
          · rfl
          · show s.queued.length + (s.undelivered - 1) + (s.delivered + 1) = _
            omega

theorem pending_actAll (s : DrmDevice) (activity : List DrmActivity) :
    (s.actAll activity).drmFlipPending = s.drmFlipPending := by
  induction activity generalizing s with
  | nil => rfl
  | cons a activity ih =>
      refine (ih (s.act a)).trans ?_
      cases a with
      | vsync =>
          rw [act]
          split <;> rfl
      | deliver =>
          rw [act]
          split <;> rfl

/-- An event that can be read is the one of this flip. -/
theorem Quiet.flush (hs : s.Quiet) {f : DrmFlush} (htaken : f.taken = true)
    (hpoll : f.wait.poll = .readable)
    (hevent : 0 < ((s.actAll f.before).flipped.actAll f.wait.activity).delivered) :
    f.Lands ∧ (s.flush f).Quiet := by
  have htotal := total_actAll s f.before
  rw [hs.queued, hs.undelivered, hs.delivered] at htotal
  have hidle := (actAll_idle hs.queued f.before).1
  have hpending : (s.actAll f.before).drmFlipPending = false :=
    (pending_actAll s f.before).trans hs.pending
  have hqueue : (s.actAll f.before).flipped.queued = [1 - (s.actAll f.before).drmFront] := by
    rw [flipped, hidle]
    rfl
  have htotal' := total_actAll (s.actAll f.before).flipped f.wait.activity
  rw [hqueue] at htotal'
  change _ = 1 + (s.actAll f.before).undelivered + (s.actAll f.before).delivered at htotal'
  rw [List.length_nil] at htotal
  have hdone : ((s.actAll f.before).flipped.actAll f.wait.activity).queued = [] :=
    List.eq_nil_of_length_eq_zero (by omega)
  have hvsync : .vsync ∈ f.wait.activity := by
    by_contra hmem
    rw [((actAll_one hqueue f.wait.activity).2.2 hmem).1] at hdone
    cases hdone
  refine ⟨⟨htaken, hvsync⟩, ?_⟩
  have hflush : s.flush f =
      { (s.actAll f.before).flipped.waitFlip f.wait with
        drmFront := 1 - (s.actAll f.before).drmFront
        pBuffer := 1 - (1 - (s.actAll f.before).drmFront) } := by
    rw [DrmDevice.flush, hpending, if_neg Bool.false_ne_true, htaken, if_pos rfl]
    rfl
  rw [hflush, waitFlip, hpoll]
  constructor
  · rfl
  · exact hdone
  · show ((s.actAll f.before).flipped.actAll f.wait.activity).undelivered = 0
    omega
  · show ((s.actAll f.before).flipped.actAll f.wait.activity).delivered - 8 = 0
    omega

/-- Where no flip is refused and no wait times out, no flip is missed. -/
theorem Quiet.lands_of_answered (hs : s.Quiet) {flushes : List DrmFlush}
    (h : s.Answered flushes) : ∀ f ∈ flushes, f.Lands := by
  induction flushes generalizing s with
  | nil => simp
  | cons f flushes ih =>
      obtain ⟨⟨htaken, hpoll, hevent⟩, hrest⟩ := h
      obtain ⟨hlands, hquiet⟩ := hs.flush htaken hpoll hevent
      rw [List.forall_mem_cons]
      exact ⟨hlands, ih hquiet hrest⟩

/-- So then the buffer that is drawn into is never on screen. -/
theorem hidden_of_answered {flushes : List DrmFlush} (h : new.Answered flushes) :
    new.AlwaysHidden flushes :=
  (hidden_iff flushes).mpr (Quiet.lands_of_answered ⟨rfl, rfl, rfl, rfl⟩ h)

end DrmDevice

end MFoES.Libgfx
