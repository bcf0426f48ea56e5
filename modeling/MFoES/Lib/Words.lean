import Mathlib.Data.List.Induction
import Mathlib.Tactic.Common

/-!
# Words

The words of a text are what stands between its separators, where that is not empty.  Words that
are joined by separators are the words of the text that comes of it (`wordsOn_joined`).
-/

namespace Words

variable {α : Type} {sep : α}

/-! ## Joined words -/

/-- Words with a separator between any two. -/
def joined (sep : α) (ws : List (List α)) : List α := [sep].intercalate ws

/-- A word is not empty, and has no separator. -/
def IsWord (sep : α) (w : List α) : Prop := w ≠ [] ∧ sep ∉ w

@[simp] theorem joined_nil : joined sep [] = [] := rfl

@[simp] theorem joined_singleton (w : List α) : joined sep [w] = w := List.intercalate_singleton

theorem joined_cons {ws : List (List α)} (hne : ws ≠ []) (w : List α) :
    joined sep (w :: ws) = w ++ sep :: joined sep ws := by
  rw [joined, List.intercalate_cons_of_ne_nil hne, List.append_assoc]
  rfl

theorem joined_concat {ws : List (List α)} (hne : ws ≠ []) (w : List α) :
    joined sep (ws ++ [w]) = joined sep ws ++ sep :: w := by
  induction ws with
  | nil => exact absurd rfl hne
  | cons v ws ih =>
      rcases eq_or_ne ws [] with rfl | hws
      · rw [List.singleton_append, joined_cons (List.cons_ne_nil w []), joined_singleton,
          joined_singleton]
      · rw [List.cons_append, joined_cons (List.append_ne_nil_of_left_ne_nil hws [w]), ih hws,
          joined_cons hws, List.append_assoc, List.cons_append]

/-- More words are longer. -/
theorem length_joined_append_le (sep : α) (ws vs : List (List α)) :
    (joined sep ws).length ≤ (joined sep (ws ++ vs)).length := by
  induction vs using List.reverseRecOn with
  | nil => exact Nat.le_of_eq (by rw [List.append_nil])
  | append_singleton vs v ih =>
      rw [← List.append_assoc]
      refine Nat.le_trans ih ?_
      rcases eq_or_ne (ws ++ vs) [] with hnil | hne
      · rw [hnil]
        exact Nat.zero_le _
      · rw [joined_concat hne, List.length_append]
        exact Nat.le_add_right _ _

theorem length_le_joined_concat (sep : α) (ws : List (List α)) (w : List α) :
    w.length ≤ (joined sep (ws ++ [w])).length := by
  rcases eq_or_ne ws [] with rfl | hne
  · exact Nat.le_of_eq (by rw [List.nil_append, joined_singleton])
  · rw [joined_concat hne, List.length_append, List.length_cons]
    omega

/-- Joined words are no empty text. -/
theorem joined_eq_nil_iff {ws : List (List α)} (h : ∀ w ∈ ws, w ≠ []) :
    joined sep ws = [] ↔ ws = [] := by
  cases ws with
  | nil => exact iff_of_true rfl rfl
  | cons w ws =>
      refine iff_of_false (fun hnil => ?_) (List.cons_ne_nil w ws)
      have hle := length_joined_append_le sep [w] ws
      rw [List.singleton_append, hnil, joined_singleton] at hle
      exact h w List.mem_cons_self (List.eq_nil_of_length_eq_zero (Nat.le_zero.mp hle))

/-! ## The words of a text -/

variable [DecidableEq α]

/-- The words of a text. -/
def wordsOn (sep : α) (t : List α) : List (List α) := (t.splitOn sep).filter (· ≠ [])

@[simp] theorem wordsOn_nil : wordsOn sep [] = [] := rfl

theorem wordsOn_append_cons (s t : List α) :
    wordsOn sep (s ++ sep :: t) = wordsOn sep s ++ wordsOn sep t := by
  rw [wordsOn, List.splitOn_append_cons_self, List.filter_append]
  rfl

theorem IsWord.wordsOn {w : List α} (h : IsWord sep w) : wordsOn sep w = [w] := by
  rw [Words.wordsOn, List.splitOn_eq_singleton h.2]
  exact List.filter_cons_of_pos (decide_eq_true h.1)

theorem flatten_splitOn (t : List α) : (t.splitOn sep).flatten = t.filter (· ≠ sep) := by
  induction t with
  | nil => rfl
  | cons c t ih =>
      rw [List.splitOn_cons_eq_if_modifyHead]
      obtain ⟨w, ws, hws⟩ := List.exists_cons_of_ne_nil (List.splitOn_ne_nil sep t)
      rw [hws] at ih ⊢
      by_cases hc : c = sep
      · rw [if_pos (beq_iff_eq.mpr hc), List.filter_cons_of_neg (by simp [hc]), ← ih]
        rfl
      · rw [if_neg (fun h => hc (beq_iff_eq.mp h)), List.filter_cons_of_pos (by simp [hc]), ← ih]
        rfl

/-- The words have all characters of a text but the separators. -/
theorem flatten_wordsOn (t : List α) : (wordsOn sep t).flatten = t.filter (· ≠ sep) := by
  rw [← flatten_splitOn, wordsOn]
  induction t.splitOn sep with
  | nil => rfl
  | cons w ws ih =>
      by_cases hw : w = []
      · rw [List.filter_cons_of_neg (by simp [hw]), ih, hw]
        rfl
      · rw [List.filter_cons_of_pos (by simp [hw]), List.flatten_cons, ih, List.flatten_cons]

theorem isWord_of_mem {t w : List α} (h : w ∈ wordsOn sep t) : IsWord sep w := by
  refine ⟨of_decide_eq_true (List.mem_filter.mp h).2, fun hsep => ?_⟩
  have hmem : sep ∈ (wordsOn sep t).flatten := List.mem_flatten_of_mem h hsep
  rw [flatten_wordsOn, List.mem_filter] at hmem
  exact of_decide_eq_true hmem.2 rfl

/-- A character that is no separator is in a word. -/
theorem mem_iff_exists_mem_wordsOn {t : List α} {c : α} (hc : c ≠ sep) :
    c ∈ t ↔ ∃ w ∈ wordsOn sep t, c ∈ w := by
  rw [← List.mem_flatten, flatten_wordsOn, List.mem_filter]
  exact (and_iff_left (decide_eq_true hc)).symm

theorem wordsOn_joined {ws : List (List α)} (h : ∀ w ∈ ws, IsWord sep w) :
    wordsOn sep (joined sep ws) = ws := by
  rcases eq_or_ne ws [] with rfl | hne
  · rfl
  · rw [wordsOn, joined, List.splitOn_intercalate sep (fun w hw => (h w hw).2) hne]
    exact List.filter_eq_self.mpr fun w hw => decide_eq_true (h w hw).1

end Words
