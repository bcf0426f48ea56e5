import MFoES.Lib.Incremental
import MFoES.Lib.Pattern

/-!
# Resynchronisation

A scanner *syncs on* a pattern when no record starts where the pattern does
not.  Such a scanner may drop every element up to the next occurrence of the
pattern, and when there is none, every element but the last few, which may be
the start of an occurrence that is still arriving (`SyncsOn.advances_resync`).
-/

namespace Pattern

variable {α : Type}

/-- No extension of `R` starts with `p`. -/
def Apart (p R : List α) : Prop := ¬ R <+: p ∧ ¬ p <+: R

theorem Apart.not_isPrefix_append {p R : List α} (h : Apart p R) (X : List α) :
    ¬ p <+: R ++ X := by
  intro hp
  rcases List.prefix_or_prefix_of_prefix hp (List.prefix_append R X) with hpR | hRp
  · exact h.2 hpR
  · exact h.1 hRp

theorem Apart.ne_nil {p R : List α} (h : Apart p R) : R ≠ [] := by
  rintro rfl
  exact h.1 List.nil_prefix

/-- A list at least as long as the pattern is apart from it as soon as it does
not start with it. -/
theorem apart_of_length_le {p R : List α} (hlen : p.length ≤ R.length) (h : ¬ p <+: R) :
    Apart p R := by
  refine ⟨fun hR => h ?_, h⟩
  rw [hR.eq_of_length (Nat.le_antisymm hR.length_le hlen)]

end Pattern

namespace Incremental

open Pattern

variable {α β : Type}

/-- No record of `S` starts where `p` does not. -/
def Scanner.SyncsOn (S : Scanner α β) (p : List α) : Prop :=
  ∀ R, R ≠ [] → ¬ p <+: R → S.records R = S.records (R.drop 1)

namespace Scanner.SyncsOn

variable {S : Scanner α β} {p : List α}

theorem advances_one (hS : S.SyncsOn p) {R : List α} (h : Apart p R) :
    S.Advances R (R.drop 1) [] := by
  intro X
  have hne := List.length_pos_iff.mpr h.ne_nil
  rw [hS (R ++ X) (List.append_ne_nil_of_left_ne_nil h.ne_nil X) (h.not_isPrefix_append X),
    List.drop_append_of_le_length hne, List.nil_append]

/-- Elements the pattern cannot start at may be dropped. -/
theorem advances_apart (hS : S.SyncsOn p) {R : List α} {n : Nat}
    (h : ∀ i, i < n → Apart p (R.drop i)) : S.Advances R (R.drop n) [] := by
  refine advances_drop fun i hi => ?_
  rw [← List.drop_drop]
  exact hS.advances_one (h i hi)

/-- Where no record starts at the first element and the pattern does not occur
before `n`, the first `n` elements may be dropped, if what is left can still
hold all of the pattern but its first element. -/
theorem advances_resync (hS : S.SyncsOn p) {R : List α} {n : Nat} (hR : S.verdict R = .skip)
    (hn : n + p.length ≤ R.length + 1) (h : ∀ i, 0 < i → i < n → ¬ Occurs p R i) :
    S.Advances R (R.drop n) [] := by
  refine advances_drop fun i hi => ?_
  rw [← List.drop_drop]
  by_cases h0 : i = 0
  · rw [h0]
    exact advances_skip hR
  · refine hS.advances_one (apart_of_length_le ?_ (h i (by omega) hi))
    rw [List.length_drop]
    omega

/-- A stream without the pattern has no record. -/
theorem records_eq_nil (hS : S.SyncsOn p) {R : List α} (h : ∀ i, ¬ Occurs p R i) :
    S.records R = [] := by
  induction R with
  | nil => exact S.records_nil
  | cons a R ih =>
      rw [hS (a :: R) (List.cons_ne_nil a R) (h 0)]
      exact ih fun i => h (i + 1)

end Scanner.SyncsOn

end Incremental
