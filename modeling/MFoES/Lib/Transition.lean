import Mathlib.Tactic.Common

/-!
# Transition systems

A system of threads is a partial function `step`: in a state, an event either
gives the next state or cannot happen.  A run is a list of events, so every
interleaving of the threads is one list.

An invariant that every step keeps holds wherever a run ends (`run_invariant`).
Where only some steps keep it, `Throughout` says that a run has only such steps.
-/

namespace Transition

variable {σ ε : Type}

/-- The state a run ends in. -/
def run (step : σ → ε → Option σ) : σ → List ε → Option σ
  | s, [] => some s
  | s, e :: es => (step s e).bind fun t => run step t es

/-- `P` holds of every event of a run, in the state it happens in. -/
def Throughout (step : σ → ε → Option σ) (P : σ → ε → Prop) : σ → List ε → Prop
  | _, [] => True
  | s, e :: es => P s e ∧ ∀ t, step s e = some t → Throughout step P t es

variable {step : σ → ε → Option σ}

theorem throughout_cons {P : σ → ε → Prop} {s : σ} {e : ε} {es : List ε} :
    Throughout step P s (e :: es) ↔
      P s e ∧ (step s e).elim True fun t => Throughout step P t es := by
  rw [Throughout]
  cases step s e with
  | none => simp
  | some t => simp

/-- A run of decidable steps can be checked. -/
instance decidableThroughout {P : σ → ε → Prop} [∀ s e, Decidable (P s e)] :
    ∀ (es : List ε) (s : σ), Decidable (Throughout step P s es)
  | [], _ => .isTrue trivial
  | e :: es, s =>
    have : Decidable ((step s e).elim True fun t => Throughout step P t es) :=
      match step s e with
      | none => .isTrue trivial
      | some t => decidableThroughout es t
    decidable_of_iff' _ throughout_cons

@[simp] theorem run_nil (s : σ) : run step s [] = some s := rfl

theorem run_cons {s t : σ} {e : ε} (h : step s e = some t) (es : List ε) :
    run step s (e :: es) = run step t es := by
  rw [run, h]
  rfl

/-- What a run reaches after a step is reached from before it. -/
theorem exists_run_cons {P : σ → Prop} {s t : σ} {e : ε} (h : step s e = some t)
    (ht : ∃ es u, run step t es = some u ∧ P u) :
    ∃ es u, run step s (e :: es) = some u ∧ P u := by
  obtain ⟨es, u, hrun, hu⟩ := ht
  refine ⟨es, u, ?_, hu⟩
  rw [run_cons h]
  exact hrun

/-- So it can be reached from there. -/
theorem reaches_cons {P : σ → Prop} {s t : σ} {e : ε} (h : step s e = some t)
    (ht : ∃ es u, run step t es = some u ∧ P u) : ∃ es u, run step s es = some u ∧ P u := by
  obtain ⟨es, u, hrun, hu⟩ := exists_run_cons h ht
  exact ⟨e :: es, u, hrun, hu⟩

theorem run_append (s : σ) (es fs : List ε) :
    run step s (es ++ fs) = (run step s es).bind fun t => run step t fs := by
  induction es generalizing s with
  | nil => rfl
  | cons e es ih =>
      rw [List.cons_append, run, run]
      cases step s e with
      | none => rfl
      | some t => exact ih t

/-- Runs compose. -/
theorem run_trans {s t u : σ} {es fs : List ε} (h : run step s es = some t)
    (h' : run step t fs = some u) : run step s (es ++ fs) = some u := by
  rw [run_append, h]
  exact h'

theorem throughout_of_mem {P : σ → ε → Prop} {es : List ε} (h : ∀ e ∈ es, ∀ s, P s e) :
    ∀ s : σ, Throughout step P s es := by
  induction es with
  | nil => exact fun _ => trivial
  | cons e es ih =>
      intro s
      exact ⟨h e List.mem_cons_self s,
        fun t _ => ih (fun e' he => h e' (List.mem_cons_of_mem e he)) t⟩

theorem throughout_of_forall {P : σ → ε → Prop} (h : ∀ s e, P s e) (es : List ε) (s : σ) :
    Throughout step P s es :=
  throughout_of_mem (fun e _ s => h s e) s

theorem throughout_append {P : σ → ε → Prop} {es fs : List ε} {s : σ}
    (h : Throughout step P s es) (h' : ∀ t, run step s es = some t → Throughout step P t fs) :
    Throughout step P s (es ++ fs) := by
  induction es generalizing s with
  | nil => exact h' s rfl
  | cons e es ih =>
      refine ⟨h.1, fun t ht => ih (h.2 t ht) fun u hu => h' u ?_⟩
      rw [run_cons ht]
      exact hu

/-- A run that is not all `P` has a first event that is not. -/
theorem first_violation {P : σ → ε → Prop} {es : List ε} {s : σ} (h : ¬ Throughout step P s es) :
    ∃ es₁ e es₂ t, es = es₁ ++ e :: es₂ ∧ Throughout step P s es₁ ∧ run step s es₁ = some t ∧
      ¬ P t e := by
  induction es generalizing s with
  | nil => exact absurd trivial h
  | cons e es ih =>
      by_cases hP : P s e
      · rw [Throughout, not_and, not_forall] at h
        obtain ⟨t, ht⟩ := h hP
        rw [Classical.not_imp] at ht
        obtain ⟨es₁, e', es₂, u, rfl, hall, hrun, hbad⟩ := ih ht.2
        refine ⟨e :: es₁, e', es₂, u, rfl, ⟨hP, ?_⟩, ?_, hbad⟩
        · intro t' ht'
          rw [ht.1] at ht'
          cases ht'
          exact hall
        · rw [run_cons ht.1]
          exact hrun
      · exact ⟨[], e, es, s, rfl, trivial, rfl, hP⟩

/-- An event of a run that goes on by one is that one, or an event of the run. -/
theorem split_concat {es before after : List ε} {e f : ε} (h : es ++ [f] = before ++ e :: after) :
    (es = before ∧ f = e ∧ after = []) ∨
      ∃ rest, after = rest ++ [f] ∧ es = before ++ e :: rest := by
  rcases List.eq_nil_or_concat after with rfl | ⟨rest, last, rfl⟩
  · obtain ⟨hes, hlast⟩ := List.append_inj' h rfl
    exact .inl ⟨hes, List.singleton_inj.mp hlast, rfl⟩
  · rw [List.concat_eq_append, ← List.cons_append, ← List.append_assoc] at h
    obtain ⟨hes, hlast⟩ := List.append_inj' h rfl
    rw [List.singleton_inj] at hlast
    exact .inr ⟨rest, by rw [List.concat_eq_append, hlast], hes⟩

/-- The beginning of a run is a run. -/
theorem run_of_append {es fs : List ε} {s u : σ} (h : run step s (es ++ fs) = some u) :
    ∃ t, run step s es = some t ∧ run step t fs = some u := by
  rw [run_append] at h
  exact Option.bind_eq_some_iff.mp h

theorem throughout_of_append {P : σ → ε → Prop} {es fs : List ε} {s : σ}
    (h : Throughout step P s (es ++ fs)) : Throughout step P s es := by
  induction es generalizing s with
  | nil => trivial
  | cons e es ih => exact ⟨h.1, fun t ht => ih (h.2 t ht)⟩

/-- What holds throughout a run holds throughout its end. -/
theorem throughout_end {P : σ → ε → Prop} {es fs : List ε} {s t : σ}
    (h : Throughout step P s (es ++ fs)) (hrun : run step s es = some t) :
    Throughout step P t fs := by
  induction es generalizing s with
  | nil =>
      cases hrun
      exact h
  | cons e es ih =>
      rw [run] at hrun
      obtain ⟨u, hu, hrest⟩ := Option.bind_eq_some_iff.mp hrun
      exact ih (h.2 u hu) hrest

/-- What the steps of a run keep holds where it ends. -/
theorem run_invariant {I : σ → Prop} {P : σ → ε → Prop}
    (hstep : ∀ {s e t}, I s → P s e → step s e = some t → I t) {es : List ε} {s t : σ}
    (hs : I s) (hP : Throughout step P s es) (hrun : run step s es = some t) : I t := by
  induction es generalizing s with
  | nil =>
      cases hrun
      exact hs
  | cons e es ih =>
      cases he : step s e with
      | none =>
          rw [run, he] at hrun
          cases hrun
      | some u =>
          rw [run_cons he] at hrun
          exact ih (hstep hs hP.1 he) (hP.2 u he) hrun

/-- What a step keeps exactly where it is `P`, a run keeps exactly where all of
its steps are. -/
theorem run_iff_throughout {A : σ → Prop} {P : σ → ε → Prop}
    (hstep : ∀ {s e t}, step s e = some t → (A t ↔ A s ∧ P s e)) {es : List ε} {s t : σ}
    (hrun : run step s es = some t) : A t ↔ A s ∧ Throughout step P s es := by
  induction es generalizing s with
  | nil =>
      cases hrun
      exact (and_iff_left trivial).symm
  | cons e es ih =>
      cases he : step s e with
      | none =>
          rw [run, he] at hrun
          cases hrun
      | some u =>
          rw [run_cons he] at hrun
          rw [ih hrun, hstep he, and_assoc, throughout_cons, he, Option.elim_some]

/-- `A` holds in every state that a run goes through. -/
def Always (step : σ → ε → Option σ) (A : σ → Prop) (s : σ) (es : List ε) : Prop :=
  ∀ fs t, fs <+: es → run step s fs = some t → A t

theorem always_cons {A : σ → Prop} {s : σ} {e : ε} {es : List ε} :
    Always step A s (e :: es) ↔ A s ∧ ∀ t, step s e = some t → Always step A t es := by
  constructor
  · refine fun h => ⟨h [] s List.nil_prefix rfl, fun t ht fs u hfs hrun => ?_⟩
    refine h (e :: fs) u ((List.cons_prefix_cons).mpr ⟨rfl, hfs⟩) ?_
    rw [run_cons ht]
    exact hrun
  · rintro ⟨hs, hrest⟩ fs u hfs hrun
    cases fs with
    | nil =>
        cases hrun
        exact hs
    | cons f fs =>
        obtain ⟨rfl, hprefix⟩ := List.cons_prefix_cons.mp hfs
        rw [run] at hrun
        obtain ⟨t, ht, hrun⟩ := Option.bind_eq_some_iff.mp hrun
        exact hrest t ht fs u hprefix hrun

/-- Where a step keeps `A` exactly if it is `P`, a run is in `A` all along exactly if it begins
there and its steps are all `P`. -/
theorem always_iff {I A : σ → Prop} {P : σ → ε → Prop}
    (hinv : ∀ {s e t}, I s → A s → step s e = some t → A t → I t)
    (hstep : ∀ {s e}, I s → A s → ((∀ t, step s e = some t → A t) ↔ P s e)) {es : List ε} {s : σ}
    (hs : I s) : Always step A s es ↔ A s ∧ Throughout step P s es := by
  induction es generalizing s with
  | nil =>
      constructor
      · exact fun h => ⟨h [] s (List.prefix_refl _) rfl, trivial⟩
      · rintro ⟨h, -⟩ fs t hfs hrun
        rw [List.prefix_nil.mp hfs] at hrun
        cases hrun
        exact h
  | cons e es ih =>
      rw [always_cons, and_congr_right_iff]
      intro hA
      rw [Throughout, ← hstep hs hA]
      constructor
      · intro h
        have hnext : ∀ t, step s e = some t → A t := fun t ht => h t ht [] t List.nil_prefix rfl
        exact ⟨hnext, fun t ht => ((ih (hinv hs hA ht (hnext t ht))).mp (h t ht)).2⟩
      · exact fun h t ht => (ih (hinv hs hA ht (h.1 t ht))).mpr ⟨h.1 t ht, h.2 t ht⟩

/-- Under an invariant of the run, what holds of every event can be weakened. -/
theorem throughout_mono {I : σ → Prop} {P Q : σ → ε → Prop}
    (hstep : ∀ {s e t}, I s → P s e → step s e = some t → I t)
    (himp : ∀ {s e}, I s → P s e → Q s e) {es : List ε} {s : σ} (hs : I s)
    (hP : Throughout step P s es) : Throughout step Q s es := by
  induction es generalizing s with
  | nil => trivial
  | cons e es ih => exact ⟨himp hs hP.1, fun t ht => ih (hstep hs hP.1 ht) (hP.2 t ht)⟩

theorem throughout_congr {P Q : σ → ε → Prop} {es : List ε} {s : σ}
    (h : Throughout step (fun s e => P s e ↔ Q s e) s es) :
    Throughout step P s es ↔ Throughout step Q s es := by
  induction es generalizing s with
  | nil => exact Iff.rfl
  | cons e es ih =>
      refine and_congr h.1 (forall_congr' fun t => ?_)
      exact imp_congr_right fun ht => ih (h.2 t ht)

/-- Where every step takes a measure down, no run is longer than the measure. -/
theorem run_measure {I : σ → Prop} {μ : σ → Nat}
    (hstep : ∀ {s e t}, I s → step s e = some t → I t ∧ μ t < μ s) {es : List ε} {s t : σ}
    (hs : I s) (hrun : run step s es = some t) : I t ∧ es.length + μ t ≤ μ s := by
  induction es generalizing s with
  | nil =>
      cases hrun
      exact ⟨hs, Nat.le_of_eq (Nat.zero_add _)⟩
  | cons e es ih =>
      cases he : step s e with
      | none =>
          rw [run, he] at hrun
          cases hrun
      | some u =>
          rw [run_cons he] at hrun
          obtain ⟨hu, hlt⟩ := hstep hs he
          obtain ⟨ht, hle⟩ := ih hu hrun
          refine ⟨ht, ?_⟩
          rw [List.length_cons]
          omega

end Transition
