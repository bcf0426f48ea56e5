import Mathlib.Data.List.Infix
import Mathlib.Tactic.Common

/-!
# Occurrences of a pattern

A pattern occurs at position `i` of a list when it is a prefix of what is left
there, `p <+: l.drop i`.  This file says how occurrences behave when a list
grows: an occurrence stays, and a new one ends in the new part, so it starts in
the last `p.length - 1` elements of the old list (`occurs_append_iff`).

An *unbordered* pattern has no proper suffix that is also a prefix.  It cannot
overlap the front of a copy of itself, so a copy put after a list that is free
of it creates no earlier occurrence (`Unbordered.not_occurs_before`).
-/

namespace Pattern

variable {α : Type}

/-- The pattern `p` stands at position `i` of `l`. -/
def Occurs (p l : List α) (i : Nat) : Prop := p <+: l.drop i

instance [DecidableEq α] (p l : List α) (i : Nat) : Decidable (Occurs p l i) :=
  inferInstanceAs (Decidable (p <+: l.drop i))

theorem Occurs.add_length_le {p l : List α} {i : Nat} (hp : p ≠ []) (h : Occurs p l i) :
    i + p.length ≤ l.length := by
  have hle := List.IsPrefix.length_le h
  have hpos := List.length_pos_iff.mpr hp
  rw [List.length_drop] at hle
  omega

theorem occurs_drop {p l : List α} {i j : Nat} : Occurs p (l.drop i) j ↔ Occurs p l (i + j) := by
  rw [Occurs, Occurs, List.drop_drop]

/-- A prefix of a list that is long enough is a prefix of any extension of it. -/
theorem isPrefix_append_iff {p l : List α} (X : List α) (h : p.length ≤ l.length) :
    p <+: l ++ X ↔ p <+: l :=
  ⟨fun hp => List.prefix_of_prefix_length_le hp (List.prefix_append l X) h,
    fun hp => hp.trans (List.prefix_append l X)⟩

/-- An occurrence that fits in a list does not depend on what follows. -/
theorem occurs_append_iff {p l : List α} (X : List α) {i : Nat} (h : i + p.length ≤ l.length) :
    Occurs p (l ++ X) i ↔ Occurs p l i := by
  rw [Occurs, Occurs, List.drop_append_of_le_length (by omega)]
  exact isPrefix_append_iff X (by rw [List.length_drop]; omega)

/-- No proper suffix of the pattern is a prefix of it. -/
def Unbordered (p : List α) : Prop :=
  ∀ k, 0 < k → k < p.length → ¬ p.drop k <+: p

/-- A copy of an unbordered pattern creates no occurrence before itself. -/
theorem Unbordered.not_occurs_before {p : List α} (hu : Unbordered p) {g : List α}
    (hg : ¬ p <:+: g) (rest : List α) {i : Nat} (hi : i < g.length) :
    ¬ Occurs p (g ++ (p ++ rest)) i := by
  intro h
  by_cases hfit : i + p.length ≤ g.length
  · -- the occurrence lies inside `g`
    have hin : p <+: g.drop i := (occurs_append_iff _ hfit).mp h
    exact hg (hin.isInfix.trans (List.drop_suffix i g).isInfix)
  · -- it straddles the border, so a suffix of `p` starts the copy
    rw [Occurs, List.drop_append_of_le_length (Nat.le_of_lt hi)] at h
    have hlen : (g.drop i).length = g.length - i := List.length_drop
    have hdrop : p.drop (g.length - i) <+: p ++ rest := by
      have hd := h.drop (g.length - i)
      rwa [← hlen, List.drop_left, hlen] at hd
    have hpre : p.drop (g.length - i) <+: p :=
      (isPrefix_append_iff rest (by rw [List.length_drop]; omega)).mp hdrop
    exact hu (g.length - i) (by omega) (by omega) hpre

end Pattern
