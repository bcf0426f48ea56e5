import Mathlib.Tactic.Common

/-!
# Lines that are filled from the left

Words are put on lines, each line taking words as long as they fit.  A word that fits on no line
gets one of its own.

What a filled line is says `Filled`.  There is one way to fill lines with given words (`filled_eq`),
and `fill` finds it (`filled_fill`).
-/

namespace Filling

variable {α : Type}

/-- `P` holds of every line, with the words after it. -/
def Each (P : List α → List α → Prop) : List (List α) → Prop
  | [] => True
  | line :: lines => P line lines.flatten ∧ Each P lines

theorem Each.imp {P Q : List α → List α → Prop} (hPQ : ∀ line rest, P line rest → Q line rest) :
    ∀ {lines : List (List α)}, Each P lines → Each Q lines
  | [], _ => trivial
  | _ :: _, h => ⟨hPQ _ _ h.1, h.2.imp hPQ⟩

theorem each_and {P Q : List α → List α → Prop} :
    ∀ {lines : List (List α)},
      Each (fun line rest => P line rest ∧ Q line rest) lines ↔ Each P lines ∧ Each Q lines
  | [] => ⟨fun _ => ⟨trivial, trivial⟩, fun _ => trivial⟩
  | _ :: _ => by
      rw [Each, Each, Each, each_and]
      exact and_and_and_comm

theorem each_iff_forall_mem {P : List α → Prop} :
    ∀ {lines : List (List α)}, Each (fun line _ => P line) lines ↔ ∀ line ∈ lines, P line
  | [] => ⟨fun _ _ h => absurd h List.not_mem_nil, fun _ => trivial⟩
  | _ :: _ => by
      rw [Each, each_iff_forall_mem, List.forall_mem_cons]

/-- A line has one word, or all its words fit, and the next word does not fit on it. -/
structure Filled (fits : List α → Prop) (line rest : List α) : Prop where
  ne_nil : line ≠ []
  fitting : line.length = 1 ∨ fits line
  full : ∀ w ∈ rest.head?, ¬ fits (line ++ [w])

/-- Put words on lines, the first of which has words already. -/
def fill (fits : List α → Prop) [DecidablePred fits] : List α → List α → List (List α)
  | [], [] => []
  | v :: line, [] => [v :: line]
  | [], w :: ws => fill fits [w] ws
  | v :: line, w :: ws =>
      if fits (v :: line ++ [w]) then fill fits (v :: line ++ [w]) ws
      else (v :: line) :: fill fits [w] ws

variable {fits : List α → Prop}

section Fill

variable [DecidablePred fits]

theorem fill_nil {line : List α} (h : line ≠ []) : fill fits line [] = [line] := by
  cases line with
  | nil => exact absurd rfl h
  | cons v line => rw [fill]

theorem fill_of_fits {line ws : List α} {w : α} (h : line = [] ∨ fits (line ++ [w])) :
    fill fits line (w :: ws) = fill fits (line ++ [w]) ws := by
  cases line with
  | nil => rw [fill, List.nil_append]
  | cons v line => rw [fill, if_pos (h.resolve_left (List.cons_ne_nil v line))]

theorem fill_of_not_fits {line ws : List α} {w : α} (hne : line ≠ []) (h : ¬ fits (line ++ [w])) :
    fill fits line (w :: ws) = line :: fill fits [w] ws := by
  cases line with
  | nil => exact absurd rfl hne
  | cons v line => rw [fill, if_neg h]

/-- No word is lost. -/
theorem flatten_fill (ws : List α) : ∀ line : List α, (fill fits line ws).flatten = line ++ ws := by
  induction ws with
  | nil =>
      intro line
      cases line with
      | nil => rfl
      | cons v line => rw [fill_nil (List.cons_ne_nil v line), List.flatten_singleton,
          List.append_nil]
  | cons w ws ih =>
      intro line
      by_cases h : line = [] ∨ fits (line ++ [w])
      · rw [fill_of_fits h, ih, List.append_assoc, List.singleton_append]
      · rw [not_or] at h
        rw [fill_of_not_fits h.1 h.2, List.flatten_cons, ih, List.singleton_append]

/-- The lines are filled. -/
theorem filled_fill (ws : List α) :
    ∀ {line : List α}, line = [] ∨ line.length = 1 ∨ fits line →
      Each (Filled fits) (fill fits line ws) := by
  induction ws with
  | nil =>
      intro line hline
      cases line with
      | nil => trivial
      | cons v line =>
          rw [fill_nil (List.cons_ne_nil v line)]
          refine ⟨⟨List.cons_ne_nil v line, hline.resolve_left (List.cons_ne_nil v line), ?_⟩,
            trivial⟩
          exact fun w hw => absurd hw (Option.not_mem_none w)
  | cons w ws ih =>
      intro line hline
      by_cases h : line = [] ∨ fits (line ++ [w])
      · rw [fill_of_fits h]
        refine ih (.inr ?_)
        rcases h with rfl | h
        · exact .inl rfl
        · exact .inr h
      · rw [not_or] at h
        rw [fill_of_not_fits h.1 h.2]
        refine ⟨⟨h.1, hline.resolve_left h.1, ?_⟩, ih (.inr (.inl rfl))⟩
        rw [flatten_fill]
        intro v hv
        cases hv
        exact h.2

/-- The line that is open gets more words, or none. -/
theorem Each.first {P : List α → List α → Prop} (ws : List α) :
    ∀ {line : List α}, line ≠ [] → Each P (fill fits line ws) →
      ∃ more rest, P (line ++ more) rest := by
  induction ws with
  | nil =>
      intro line hne h
      rw [fill_nil hne] at h
      exact ⟨[], [], (List.append_nil line).symm ▸ h.1⟩
  | cons w ws ih =>
      intro line hne h
      by_cases hfits : fits (line ++ [w])
      · rw [fill_of_fits (.inr hfits)] at h
        obtain ⟨more, rest, hP⟩ :=
          ih (List.append_ne_nil_of_left_ne_nil hne [w]) h
        exact ⟨w :: more, rest, List.append_cons line w more ▸ hP⟩
      · rw [fill_of_not_fits hne hfits] at h
        exact ⟨[], _, (List.append_nil line).symm ▸ h.1⟩

end Fill

/-! ## There is one way to fill lines

This takes that what begins a line fits if the line does. -/

variable (hbegin : ∀ line rest, line ≠ [] → fits (line ++ rest) → fits line)
include hbegin

/-- A filled line does not get longer. -/
theorem Filled.eq_nil {line more rest rest' : List α} (h : Filled fits line (more ++ rest))
    (h' : Filled fits (line ++ more) rest') : more = [] := by
  cases more with
  | nil => rfl
  | cons w more =>
      have hlong : (line ++ w :: more).length ≠ 1 := by
        have hpos := List.length_pos_iff.mpr h.ne_nil
        rw [List.length_append, List.length_cons]
        omega
      have hfits := h'.fitting.resolve_left hlong
      rw [List.append_cons] at hfits
      exact absurd (hbegin _ _ (List.append_ne_nil_of_right_ne_nil _ (List.cons_ne_nil w []))
        hfits) (h.full w rfl)

theorem Filled.eq {line line' rest rest' : List α} (h : Filled fits line rest)
    (h' : Filled fits line' rest') (heq : line ++ rest = line' ++ rest') : line = line' := by
  rcases List.append_eq_append_iff.mp heq with ⟨more, rfl, rfl⟩ | ⟨more, rfl, rfl⟩
  · rw [h.eq_nil hbegin h', List.append_nil]
  · rw [h'.eq_nil hbegin h, List.append_nil]

theorem filled_eq : ∀ {lines lines' : List (List α)}, Each (Filled fits) lines →
    Each (Filled fits) lines' → lines.flatten = lines'.flatten → lines = lines'
  | [], [], _, _, _ => rfl
  | [], line' :: _, _, h', heq => by
      have hnil := (List.append_eq_nil_iff.mp heq.symm).1
      exact absurd hnil h'.1.ne_nil
  | line :: _, [], h, _, heq => by
      have hnil := (List.append_eq_nil_iff.mp heq).1
      exact absurd hnil h.1.ne_nil
  | line :: lines, line' :: lines', h, h', heq => by
      obtain rfl := h.1.eq hbegin h'.1 heq
      rw [filled_eq h.2 h'.2 (List.append_cancel_left heq)]

/-- What holds of all ways to fill lines with words holds of the one that `fill` finds. -/
theorem each_fill_iff [DecidablePred fits] {P : List α → List α → Prop} {ws : List α} :
    Each P (fill fits [] ws) ↔
      ∀ lines, lines.flatten = ws → Each (Filled fits) lines → Each P lines := by
  have hfilled : Each (Filled fits) (fill fits [] ws) := filled_fill ws (.inl rfl)
  constructor
  · intro h lines hws hlines
    rw [filled_eq hbegin hlines hfilled (hws.trans (flatten_fill ws []).symm)]
    exact h
  · exact fun h => h _ (flatten_fill ws []) hfilled

end Filling
