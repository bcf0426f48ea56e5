import Mathlib.Data.List.Chain
import Mathlib.Data.List.Induction

/-!
# Debouncing by agreement

A value is accepted once two samples in a row agree on it, and kept until two
others do (`sample`).  So the value is that of the last agreeing pair, or the
seed (`LastAgreed`).

The values that differ from the one before them are the changes of a signal.  No
two neighbours among them are equal, and the last is where the signal ends.
-/

namespace Debounce

variable {α : Type} [DecidableEq α]

/-! ## The filter -/

/-- A sample, where the first component is the accepted value and the second the last sample. -/
def sample (s : α × α) (raw : α) : α × α := (if raw = s.2 then raw else s.1, raw)

/-- The filter after some samples, from a seed for both components. -/
def settle (seed : α) (samples : List α) : α × α := samples.foldl sample (seed, seed)

/-- The accepted value after each of the samples. -/
def accepted : α × α → List α → List α
  | _, [] => []
  | s, raw :: samples => (sample s raw).1 :: accepted (sample s raw) samples

/-- `v` is the value of the last two neighbours that agree, or the seed if there are none. -/
def LastAgreed (seed : α) (samples : List α) (v : α) : Prop :=
  (∃ before after, seed :: samples = before ++ v :: v :: after ∧ (v :: after).IsChain (· ≠ ·)) ∨
    ((seed :: samples).IsChain (· ≠ ·) ∧ v = seed)

theorem settle_concat (seed : α) (samples : List α) (raw : α) :
    settle seed (samples ++ [raw]) = sample (settle seed samples) raw := by
  rw [settle, List.foldl_append]
  rfl

theorem accepted_concat (s : α × α) (samples : List α) (raw : α) :
    accepted s (samples ++ [raw]) =
      accepted s samples ++ [(sample (samples.foldl sample s) raw).1] := by
  induction samples generalizing s with
  | nil => rfl
  | cons raw' samples ih => rw [List.cons_append, accepted, ih, accepted, List.cons_append,
      List.foldl_cons]

theorem getLast_accepted (s : α × α) (samples : List α) :
    (s.1 :: accepted s samples).getLast (List.cons_ne_nil _ _) = (samples.foldl sample s).1 := by
  induction samples generalizing s with
  | nil => rfl
  | cons raw samples ih => exact ih (sample s raw)

/-- The second component is the last sample. -/
theorem settle_snd (seed : α) (samples : List α) :
    (seed :: samples).getLast? = some (settle seed samples).2 := by
  induction samples using List.reverseRecOn with
  | nil => rfl
  | append_singleton samples raw _ =>
      rw [settle_concat, ← List.cons_append, List.getLast?_concat]
      rfl

/-- A sample that differs from the last one does not agree with it. -/
theorem isChain_concat {seed raw : α} {l samples : List α} (hl : l <:+ seed :: samples)
    (hne : l ≠ []) (h : l.IsChain (· ≠ ·)) (hraw : raw ≠ (settle seed samples).2) :
    (l ++ [raw]).IsChain (· ≠ ·) := by
  obtain ⟨before, hl⟩ := hl
  refine h.append (.singleton _) ?_
  intro x hx y hy
  have hlast := settle_snd seed samples
  rw [← hl, List.getLast?_append_of_ne_nil _ hne, hx] at hlast
  cases hlast
  cases hy
  exact hraw.symm

/-- The first is the value of the last agreement. -/
theorem lastAgreed_settle (seed : α) (samples : List α) :
    LastAgreed seed samples (settle seed samples).1 := by
  induction samples using List.reverseRecOn with
  | nil => exact .inr ⟨.singleton _, rfl⟩
  | append_singleton samples raw ih =>
      rw [settle_concat, sample]
      split
      · next hraw =>
        have hlast := settle_snd seed samples
        rw [← hraw] at hlast
        obtain ⟨before, hbefore⟩ := List.getLast?_eq_some_iff.mp hlast
        refine .inl ⟨before, [], ?_, .singleton _⟩
        rw [← List.cons_append, hbefore, List.append_assoc]
        rfl
      · next hraw =>
        rcases ih with ⟨before, after, hsplit, hchain⟩ | ⟨hchain, hseed⟩
        · refine .inl ⟨before, after ++ [raw], ?_, ?_⟩
          · rw [← List.cons_append, hsplit, List.append_assoc]
            rfl
          · refine isChain_concat ?_ (List.cons_ne_nil _ _) hchain hraw
            refine ⟨before ++ [(settle seed samples).1], ?_⟩
            rw [hsplit, List.append_assoc]
            rfl
        · exact .inr ⟨isChain_concat (List.suffix_refl _) (List.cons_ne_nil _ _) hchain hraw, hseed⟩

/-! ## Changes -/

/-- The values that differ from the one before. -/
def changes : α → List α → List α
  | _, [] => []
  | old, new :: l => if new = old then changes old l else new :: changes new l

theorem changes_concat (old : α) (l : List α) (new : α) :
    changes old (l ++ [new]) =
      changes old l ++ if new = (old :: l).getLast (List.cons_ne_nil _ _) then [] else [new] := by
  induction l generalizing old with
  | nil =>
      rw [List.nil_append, changes, changes, changes, changes]
      rfl
  | cons value l ih =>
      rw [List.cons_append, changes, changes, List.getLast_cons_cons]
      split
      · next hvalue =>
        subst hvalue
        exact ih value
      · exact congrArg (List.cons value) (ih value)

/-- Neighbours among the changes differ. -/
theorem isChain_changes (old : α) (l : List α) : (old :: changes old l).IsChain (· ≠ ·) := by
  induction l generalizing old with
  | nil => exact .singleton _
  | cons value l ih =>
      rw [changes]
      split
      · exact ih old
      · next hvalue => exact .cons_cons (Ne.symm hvalue) (ih value)

/-- The last change is where the signal ends. -/
theorem getLast_changes (old : α) (l : List α) :
    (old :: changes old l).getLast (List.cons_ne_nil _ _) =
      (old :: l).getLast (List.cons_ne_nil _ _) := by
  induction l generalizing old with
  | nil => rfl
  | cons value l ih =>
      rw [List.getLast_cons_cons]
      simp only [changes]
      split
      · next hvalue =>
        subst hvalue
        exact ih value
      · rw [List.getLast_cons_cons]
        exact ih value

end Debounce
