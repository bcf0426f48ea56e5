import Mathlib.Algebra.BigOperators.Group.List.Basic
import Mathlib.Algebra.Ring.Nat
import Mathlib.Data.List.Chain
import MFoES.Lib.Reactive

/-!
# Sampling a line

A line holds a level for a stretch of time, then another one for the next, and rests at the end.
A reader samples it at times that are not far apart (`Dense`).  It then has a sample in every
interval of a stretch that is long enough (`Stretch.hit`), and its samples can be divided where a
stretch ends (`Dense.split`).

A `Triple` says what a reader puts out while a line goes through its stretches, however it is
sampled.  Triples come from single stretches (`Triple.of_stretch`) and are put one behind another
(`Triple.append`).
-/

namespace Sampling

variable {L : Type}

/-- The level at a time. -/
def levelAt (rest : L) : List (L × Nat) → Nat → L
  | [], _ => rest
  | seg :: segs, t => if t < seg.2 then seg.1 else levelAt rest segs (t - seg.2)

/-- How long all the stretches take. -/
def duration (segs : List (L × Nat)) : Nat := (segs.map Prod.snd).sum

@[simp] theorem duration_nil : duration ([] : List (L × Nat)) = 0 := rfl

@[simp] theorem duration_cons (seg : L × Nat) (segs : List (L × Nat)) :
    duration (seg :: segs) = seg.2 + duration segs := by
  rw [duration, duration, List.map_cons, List.sum_cons]

@[simp] theorem duration_append (segs segs' : List (L × Nat)) :
    duration (segs ++ segs') = duration segs + duration segs' := by
  rw [duration, duration, duration, List.map_append, List.sum_append]

theorem levelAt_append_of_lt {rest : L} {segs : List (L × Nat)} (segs' : List (L × Nat)) {t : Nat}
    (h : t < duration segs) : levelAt rest (segs ++ segs') t = levelAt rest segs t := by
  induction segs generalizing t with
  | nil => exact absurd h (Nat.not_lt_zero t)
  | cons seg segs ih =>
      rw [duration_cons] at h
      rw [List.cons_append, levelAt, levelAt]
      split
      · rfl
      · exact ih (by omega)

theorem levelAt_append_add {rest : L} (segs segs' : List (L × Nat)) (t : Nat) :
    levelAt rest (segs ++ segs') (duration segs + t) = levelAt rest segs' t := by
  induction segs with
  | nil => rw [List.nil_append, duration_nil, Nat.zero_add]
  | cons seg segs ih =>
      rw [List.cons_append, levelAt, duration_cons, if_neg (by omega),
        show seg.2 + duration segs + t - seg.2 = duration segs + t by omega, ih]

theorem levelAt_of_duration_le {rest : L} {segs : List (L × Nat)} {t : Nat}
    (h : duration segs ≤ t) : levelAt rest segs t = rest := by
  obtain ⟨k, rfl⟩ := Nat.exists_eq_add_of_le h
  have hend := @levelAt_append_add L rest segs [] k
  rw [List.append_nil] at hend
  exact hend

/-- The times of samples, each less than `gap` behind the one before, from `p` on. -/
def Dense (gap p : Nat) (ts : List Nat) : Prop :=
  (p :: ts).IsChain fun a b => a ≤ b ∧ b < a + gap

instance (gap p : Nat) (ts : List Nat) : Decidable (Dense gap p ts) :=
  inferInstanceAs (Decidable (List.IsChain _ _))

variable {gap p t : Nat} {ts : List Nat}

theorem dense_cons : Dense gap p (t :: ts) ↔ (p ≤ t ∧ t < p + gap) ∧ Dense gap t ts :=
  List.isChain_cons_cons

theorem Dense.le (h : Dense gap p ts) : ∀ t ∈ ts, p ≤ t := by
  induction ts generalizing p with
  | nil => exact nofun
  | cons t ts ih =>
      obtain ⟨⟨hle, -⟩, hrest⟩ := dense_cons.mp h
      exact List.forall_mem_cons.mpr ⟨hle, fun t' ht' => hle.trans (ih hrest t' ht')⟩

theorem Dense.sorted (h : Dense gap p ts) : ts.Pairwise (· ≤ ·) := by
  induction ts generalizing p with
  | nil => exact .nil
  | cons t ts ih =>
      obtain ⟨-, hrest⟩ := dense_cons.mp h
      exact .cons hrest.le (ih hrest)

/-- Where the samples go on, one comes soon. -/
theorem Dense.hit (h : Dense gap p ts) {u : Nat} (hp : p ≤ u) (hend : ∃ t ∈ ts, u ≤ t) :
    ∃ t ∈ ts, u ≤ t ∧ t < u + gap := by
  induction ts generalizing p with
  | nil => simp at hend
  | cons t ts ih =>
      obtain ⟨⟨-, hlt⟩, hrest⟩ := dense_cons.mp h
      rcases Nat.lt_or_ge t u with ht | ht
      · have hend' : ∃ t ∈ ts, u ≤ t := by
          obtain ⟨t', hmem, hle⟩ := hend
          rcases List.mem_cons.mp hmem with rfl | hmem
          · omega
          · exact ⟨t', hmem, hle⟩
        obtain ⟨t', hmem, hboth⟩ := ih hrest (Nat.le_of_lt ht) hend'
        exact ⟨t', List.mem_cons_of_mem t hmem, hboth⟩
      · exact ⟨t, List.mem_cons_self, ht, by omega⟩

/-- The samples of a stretch from `start` on. -/
structure Stretch (gap start length : Nat) (ts : List Nat) : Prop where
  sorted : ts.Pairwise (· ≤ ·)
  inside : ∀ t ∈ ts, start ≤ t ∧ t < start + length
  hit : ∀ u, start ≤ u → u + gap ≤ start + length → ∃ t ∈ ts, u ≤ t ∧ t < u + gap

/-- Samples that are all from `start` on, and go on until `stop`. -/
structure Covers (gap start stop : Nat) (ts : List Nat) : Prop where
  dense : ∃ p ≤ start, Dense gap p ts
  from_start : ∀ t ∈ ts, start ≤ t
  to_stop : ∃ t ∈ ts, stop ≤ t

theorem Dense.split (h : Dense gap p ts) {b : Nat} (hp : p ≤ b) (hend : ∃ t ∈ ts, b ≤ t) :
    ∃ xs ys, ts = xs ++ ys ∧ (∀ t ∈ xs, t < b) ∧ (∀ t ∈ ys, b ≤ t) ∧
      ∃ q ≤ b, Dense gap q ys := by
  induction ts generalizing p with
  | nil => simp at hend
  | cons t ts ih =>
      obtain ⟨-, hrest⟩ := dense_cons.mp h
      rcases Nat.lt_or_ge t b with ht | ht
      · have hend' : ∃ t ∈ ts, b ≤ t := by
          obtain ⟨t', hmem, hle⟩ := hend
          rcases List.mem_cons.mp hmem with rfl | hmem
          · omega
          · exact ⟨t', hmem, hle⟩
        obtain ⟨xs, ys, rfl, hxs, hys, hq⟩ := ih hrest (Nat.le_of_lt ht) hend'
        exact ⟨t :: xs, ys, rfl, List.forall_mem_cons.mpr ⟨ht, hxs⟩, hys, hq⟩
      · exact ⟨[], t :: ts, rfl, nofun,
          List.forall_mem_cons.mpr ⟨ht, fun t' ht' => ht.trans (hrest.le t' ht')⟩, p, hp, h⟩

/-- The samples of the first stretch, and those of what comes behind. -/
theorem Covers.split {start length stop : Nat} (h : Covers gap start stop ts)
    (hstop : start + length ≤ stop) :
    ∃ xs ys, ts = xs ++ ys ∧ Stretch gap start length xs ∧ Covers gap (start + length) stop ys := by
  obtain ⟨p, hp, hdense⟩ := h.dense
  obtain ⟨last, hlast, hle⟩ := h.to_stop
  obtain ⟨xs, ys, rfl, hxs, hys, hq⟩ :=
    hdense.split (show p ≤ start + length by omega) ⟨last, hlast, hstop.trans hle⟩
  refine ⟨xs, ys, rfl, ⟨(List.pairwise_append.mp hdense.sorted).1, fun t ht => ?_, ?_⟩,
    ⟨hq, hys, ?_⟩⟩
  · exact ⟨h.from_start t (List.mem_append_left ys ht), hxs t ht⟩
  · intro u hu hgap
    obtain ⟨t, ht, hlow, hhigh⟩ := hdense.hit (hp.trans hu) ⟨last, hlast, by omega⟩
    rcases List.mem_append.mp ht with ht | ht
    · exact ⟨t, ht, hlow, hhigh⟩
    · have hlate := hys t ht
      omega
  · rcases List.mem_append.mp hlast with hmem | hmem
    · have hearly := hxs last hmem
      omega
    · exact ⟨last, hmem, hle⟩

/-! ## Readers -/

/-- The line takes these stretches from `start` on. -/
def Follows (rest : L) (line : Nat → L) (start : Nat) (segs : List (L × Nat)) : Prop :=
  ∀ t < duration segs, line (start + t) = levelAt rest segs t

theorem follows_append {rest : L} {line : Nat → L} {start : Nat} {segs segs' : List (L × Nat)} :
    Follows rest line start (segs ++ segs') ↔
      Follows rest line start segs ∧ Follows rest line (start + duration segs) segs' := by
  constructor
  · refine fun h => ⟨fun t ht => ?_, fun t ht => ?_⟩
    · rw [h t (by rw [duration_append]; omega), levelAt_append_of_lt segs' ht]
    · rw [Nat.add_assoc, h _ (by rw [duration_append]; omega), levelAt_append_add]
  · rintro ⟨h, h'⟩ t ht
    rw [duration_append] at ht
    rcases Nat.lt_or_ge t (duration segs) with hlt | hge
    · rw [h t hlt, levelAt_append_of_lt segs' hlt]
    · obtain ⟨k, rfl⟩ := Nat.exists_eq_add_of_le hge
      rw [← Nat.add_assoc, h' k (by omega), levelAt_append_add]

theorem Follows.level {rest : L} {line : Nat → L} {start t : Nat} {seg : L × Nat}
    (h : Follows rest line start [seg]) (hlow : start ≤ t) (hhigh : t < start + seg.2) :
    line t = seg.1 := by
  obtain ⟨k, rfl⟩ := Nat.exists_eq_add_of_le hlow
  rw [h k (by rw [duration_cons, duration_nil]; omega), levelAt, if_pos (by omega)]

/-- What a reader gets. -/
def samples (line : Nat → L) (ts : List Nat) : List (L × Nat) := ts.map fun t => (line t, t)

theorem samples_append (line : Nat → L) (xs ys : List Nat) :
    samples line (xs ++ ys) = samples line xs ++ samples line ys := List.map_append

section Triples

variable {σ ο : Type} (react : σ → L × Nat → σ × List ο) (rest : L) (gap)

/-- From a state in `P`, the reader puts this out while the line goes through the stretches, and is
in `Q` then. -/
def Triple (P : σ → Prop) (start : Nat) (segs : List (L × Nat)) (out : List ο) (Q : σ → Prop) :
    Prop :=
  ∀ (line : Nat → L) (stop : Nat) (ts : List Nat) (s : σ), P s → Follows rest line start segs →
    Covers gap start stop ts → start + duration segs ≤ stop →
      ∃ xs ys, ts = xs ++ ys ∧ Covers gap (start + duration segs) stop ys ∧
        (Reactive.run react s (samples line xs)).2 = out ∧
          Q (Reactive.run react s (samples line xs)).1

namespace Triple

variable {react rest gap} {P Q R : σ → Prop} {start : Nat} {out out' : List ο}

/-- One stretch. -/
theorem of_stretch {seg : L × Nat}
    (h : ∀ {xs s}, P s → Stretch gap start seg.2 xs →
      (Reactive.run react s (xs.map fun t => (seg.1, t))).2 = out ∧
        Q (Reactive.run react s (xs.map fun t => (seg.1, t))).1) :
    Triple gap react rest P start [seg] out Q := by
  intro line stop ts s hs hline hcovers hstop
  rw [duration_cons, duration_nil, Nat.add_zero] at hstop ⊢
  obtain ⟨xs, ys, rfl, hstretch, hrest⟩ := hcovers.split hstop
  have hsamples : samples line xs = xs.map fun t => (seg.1, t) := by
    refine List.map_congr_left fun t ht => ?_
    obtain ⟨hlow, hhigh⟩ := hstretch.inside t ht
    rw [hline.level hlow hhigh]
  refine ⟨xs, ys, rfl, hrest, ?_⟩
  rw [hsamples]
  exact h hs hstretch

theorem nil : Triple gap react rest P start [] [] P := by
  intro line stop ts s hs _ hcovers _
  exact ⟨[], ts, rfl, hcovers, rfl, hs⟩

/-- Stretches one behind another. -/
theorem append {segs segs' : List (L × Nat)} (h : Triple gap react rest P start segs out Q)
    (h' : Triple gap react rest Q (start + duration segs) segs' out' R) :
    Triple gap react rest P start (segs ++ segs') (out ++ out') R := by
  intro line stop ts s hs hline hcovers hstop
  obtain ⟨hfirst, hnext⟩ := follows_append.mp hline
  rw [duration_append, ← Nat.add_assoc] at hstop
  obtain ⟨xs, ys, rfl, hys, hout, hq⟩ := h line stop ts s hs hfirst hcovers (by omega)
  obtain ⟨xs', ys', rfl, hys', hout', hr⟩ := h' line stop ys _ hq hnext hys hstop
  refine ⟨xs ++ xs', ys', (List.append_assoc _ _ _).symm, ?_, ?_, ?_⟩
  · rw [duration_append, ← Nat.add_assoc]
    exact hys'
  · rw [samples_append, Reactive.run_append, hout, hout']
  · rw [samples_append, Reactive.run_append]
    exact hr

theorem mono {segs : List (L × Nat)} (h : Triple gap react rest P start segs out Q)
    {P' Q' : σ → Prop} (hp : ∀ {s}, P' s → P s) (hq : ∀ {s}, Q s → Q' s) :
    Triple gap react rest P' start segs out Q' := by
  intro line stop ts s hs hline hcovers hstop
  obtain ⟨xs, ys, hts, hys, hout, hend⟩ := h line stop ts s (hp hs) hline hcovers hstop
  exact ⟨xs, ys, hts, hys, hout, hq hend⟩

end Triple

end Triples

end Sampling
