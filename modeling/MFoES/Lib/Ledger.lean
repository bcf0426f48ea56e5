import Mathlib.Data.List.Infix
import Mathlib.Tactic.Common

/-!
# Numbered items on their way

Items get consecutive numbers and travel in a line.  Some are lost on the way, and a ledger has
the numbers of the lost ones.  A line is `Accounted` when it is in order and every number that
was given since its first one is in the line or in the ledger.  So a gap in what arrives has
only numbers of the ledger (`Accounted.gap`).
-/

namespace Ledger

/-- The line is in order, and no number that was given since its first one is missing. -/
structure Accounted (line : List Nat) (lost : Nat → Prop) (next : Nat) : Prop where
  increasing : line.Pairwise (· < ·)
  below : ∀ n ∈ line, n < next
  accounted : ∀ n ∈ line, ∀ m, n ≤ m → m < next → m ∈ line ∨ lost m

variable {line line' : List Nat} {lost lost' : Nat → Prop} {next : Nat}

/-- An empty line is accounted for. -/
theorem Accounted.nil (lost : Nat → Prop) (next : Nat) : Accounted [] lost next where
  increasing := List.Pairwise.nil
  below := fun _ hn => absurd hn List.not_mem_nil
  accounted := fun _ hn => absurd hn List.not_mem_nil

/-- The next number joins the line. -/
theorem Accounted.issue (h : Accounted line lost next) :
    Accounted (line ++ [next]) lost (next + 1) where
  increasing := by
    rw [List.pairwise_append]
    refine ⟨h.increasing, List.pairwise_singleton _ _, ?_⟩
    intro n hn m hm
    rw [List.mem_singleton] at hm
    rw [hm]
    exact h.below n hn
  below := by
    intro n hn
    rw [List.mem_append, List.mem_singleton] at hn
    rcases hn with hn | rfl
    · exact Nat.lt_succ_of_lt (h.below n hn)
    · exact Nat.lt_succ_self n
  accounted := by
    intro n hn m hle hlt
    rw [List.mem_append, List.mem_singleton] at hn ⊢
    rcases Nat.lt_succ_iff_lt_or_eq.mp hlt with hlt | heq
    · rcases hn with hn | rfl
      · rcases h.accounted n hn m hle hlt with hmem | hlost
        · exact Or.inl (Or.inl hmem)
        · exact Or.inr hlost
      · omega
    · exact Or.inl (Or.inr heq)

/-- Items can be lost, when the ledger has them. -/
theorem Accounted.lose (h : Accounted line lost next) (hsub : line'.Sublist line)
    (hlost : ∀ n, lost n → lost' n) (hgone : ∀ n ∈ line, n ∈ line' ∨ lost' n) :
    Accounted line' lost' next where
  increasing := h.increasing.sublist hsub
  below := fun n hn => h.below n (hsub.subset hn)
  accounted := by
    intro n hn m hle hlt
    rcases h.accounted n (hsub.subset hn) m hle hlt with hmem | hm
    · exact hgone m hmem
    · exact Or.inr (hlost m hm)

/-- Between two neighbours of the line there are only lost numbers. -/
theorem Accounted.gap (h : Accounted line lost next) {a b m : Nat} (hpart : [a, b] <:+: line)
    (ham : a < m) (hmb : m < b) : lost m := by
  obtain ⟨before, after, rfl⟩ := hpart
  have ha : a ∈ before ++ [a, b] ++ after := by simp
  have hb : b ∈ before ++ [a, b] ++ after := by simp
  rcases h.accounted a ha m (Nat.le_of_lt ham) (Nat.lt_trans hmb (h.below b hb)) with hmem | hlost
  · -- the line is in order, so nothing between neighbours is in it
    have hinc := h.increasing
    rw [List.pairwise_append, List.pairwise_append] at hinc
    obtain ⟨⟨-, -, hbefore⟩, -, hafter⟩ := hinc
    simp only [List.mem_append, List.mem_cons, List.not_mem_nil, or_false] at hmem
    rcases hmem with (hm | hm | hm) | hm
    · have hlt := hbefore m hm a List.mem_cons_self
      omega
    · omega
    · omega
    · have hlt := hafter b (by simp) m hm
      omega
  · exact hlost

end Ledger
