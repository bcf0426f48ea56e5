import Mathlib.Tactic.Common

/-!
# Reactive machines

A machine reacts to each event with a new state and some output.  What a map of the states takes
step by step to another machine, it takes run by run (`run_map`).  Where an event leaves the state
and puts out nothing, it can be taken out of the input (`run_filter`).

A specification may leave open what its next state is, and says which outputs are allowed on the
way there.  A machine whose reactions it allows has only runs that it allows (`run_trace`).
-/

namespace Reactive

variable {σ ε ο : Type}

/-- The last state, and the output of all events. -/
def run (react : σ → ε → σ × List ο) : σ → List ε → σ × List ο
  | s, [] => (s, [])
  | s, e :: es =>
      let r := react s e
      let rest := run react r.1 es
      (rest.1, r.2 ++ rest.2)

theorem run_append (react : σ → ε → σ × List ο) (s : σ) (es fs : List ε) :
    run react s (es ++ fs) =
      ((run react (run react s es).1 fs).1,
        (run react s es).2 ++ (run react (run react s es).1 fs).2) := by
  induction es generalizing s with
  | nil => rfl
  | cons e es ih =>
      rw [List.cons_append, run, run, ih]
      dsimp only
      rw [List.append_assoc]

/-- A machine that is seen through `f` as another one gives the output of the other one. -/
theorem run_map {τ : Type} {react : σ → ε → σ × List ο} {react' : τ → ε → τ × List ο} {f : σ → τ}
    (h : ∀ s e, react' (f s) e = (f (react s e).1, (react s e).2)) (s : σ) (es : List ε) :
    run react' (f s) es = (f (run react s es).1, (run react s es).2) := by
  induction es generalizing s with
  | nil => rfl
  | cons e es ih => rw [run, run, h, ih]

/-- So does one whose states are related to those of the other one, step by step. -/
theorem run_simulates {τ : Type} {react : σ → ε → σ × List ο} {react' : τ → ε → τ × List ο}
    {R : σ → τ → Prop}
    (h : ∀ {s t} e, R s t → R (react s e).1 (react' t e).1 ∧ (react' t e).2 = (react s e).2)
    {s : σ} {t : τ} (hst : R s t) (es : List ε) :
    R (run react s es).1 (run react' t es).1 ∧ (run react' t es).2 = (run react s es).2 := by
  induction es generalizing s t with
  | nil => exact ⟨hst, rfl⟩
  | cons e es ih =>
      obtain ⟨hnext, hout⟩ := h e hst
      obtain ⟨hend, hrest⟩ := ih hnext
      rw [run, run]
      exact ⟨hend, by rw [hout, hrest]⟩

/-- The outputs that a specification allows from one of its states to another. -/
inductive Trace {α : Type} (allows : α → ο → α → Prop) : α → List ο → α → Prop where
  | nil {a : α} : Trace allows a [] a
  | cons {a b c : α} {o : ο} {os : List ο} (first : allows a o b) (rest : Trace allows b os c) :
      Trace allows a (o :: os) c

namespace Trace

variable {α : Type} {allows : α → ο → α → Prop} {a b c : α} {os os' : List ο}

theorem single {o : ο} (h : allows a o b) : Trace allows a [o] b := .cons h .nil

theorem append (h : Trace allows a os b) (h' : Trace allows b os' c) :
    Trace allows a (os ++ os') c := by
  induction h with
  | nil => exact h'
  | cons first _ ih => exact .cons first (ih h')

theorem of_append (h : Trace allows a (os ++ os') c) :
    ∃ b, Trace allows a os b ∧ Trace allows b os' c := by
  induction os generalizing a with
  | nil => exact ⟨a, .nil, h⟩
  | cons o os ih =>
      cases h with
      | cons first rest =>
          obtain ⟨b, hos, hos'⟩ := ih rest
          exact ⟨b, .cons first hos, hos'⟩

theorem forall_mem {P : ο → Prop} (h : Trace (fun _ o _ => P o) a os b) : ∀ o ∈ os, P o := by
  induction h with
  | nil => exact nofun
  | cons first _ ih => exact List.forall_mem_cons.mpr ⟨first, ih⟩

end Trace

/-- Where the outputs of each reaction are allowed, those of a run are. -/
theorem run_trace {α : Type} {allows : α → ο → α → Prop} {react : σ → ε → σ × List ο}
    {view : σ → α} {I : σ → Prop}
    (h : ∀ {s} e, I s → I (react s e).1 ∧
      Trace allows (view s) (react s e).2 (view (react s e).1))
    {s : σ} (hs : I s) (es : List ε) :
    I (run react s es).1 ∧ Trace allows (view s) (run react s es).2 (view (run react s es).1) := by
  induction es generalizing s with
  | nil => exact ⟨hs, .nil⟩
  | cons e es ih =>
      obtain ⟨hnext, hstep⟩ := h e hs
      obtain ⟨hend, hrest⟩ := ih hnext
      exact ⟨hend, hstep.append hrest⟩

/-- `P` holds of every event, in the state it comes in. -/
def Along (react : σ → ε → σ × List ο) (P : σ → ε → Prop) : σ → List ε → Prop
  | _, [] => True
  | s, e :: es => P s e ∧ Along react P (react s e).1 es

/-- An input can be checked where its events can. -/
instance decidableAlong {react : σ → ε → σ × List ο} {P : σ → ε → Prop}
    [∀ s e, Decidable (P s e)] : ∀ (es : List ε) (s : σ), Decidable (Along react P s es)
  | [], _ => .isTrue trivial
  | e :: es, s =>
      have : Decidable (Along react P (react s e).1 es) := decidableAlong es _
      inferInstanceAs (Decidable (P s e ∧ Along react P (react s e).1 es))

/-- Events that do nothing can be left out. -/
theorem run_filter {react : σ → ε → σ × List ο} {keep : ε → Bool} {es : List ε} {s : σ}
    (h : Along react (fun s e => keep e = false → react s e = (s, [])) s es) :
    run react s (es.filter keep) = run react s es := by
  induction es generalizing s with
  | nil => rfl
  | cons e es ih =>
      obtain ⟨he, hes⟩ := h
      rw [run, ← ih hes]
      cases hkeep : keep e with
      | true =>
          rw [List.filter_cons_of_pos hkeep]
          rfl
      | false =>
          rw [List.filter_cons_of_neg (by simp [hkeep]), he hkeep]
          rfl

end Reactive
