import Mathlib.Tactic.Linarith

/-!
# Quadrature counting

Two lines turn through a cycle of four states, one line at a time.  A move is a
step along the cycle, forward or backward, and a path has a net number of them.
A count of moves is kept as whole detents of `n` moves and a rest below `n` in
size (`Splits`).  Such a split is not unique: only a rest of 0 is.
-/

namespace Quadrature

/-! ## Moves -/

/-- The levels of the two lines. -/
structure Lines where
  a : Bool
  b : Bool
deriving DecidableEq, Repr

/-- How far the lines are along the cycle 00, 10, 11, 01. -/
def phase : Lines → Fin 4
  | ⟨false, false⟩ => 0
  | ⟨true, false⟩ => 1
  | ⟨true, true⟩ => 2
  | ⟨false, true⟩ => 3

/-- 1 for a move forward, -1 for a move backward. -/
def move (old new : Lines) : Int :=
  if phase new = phase old + 1 then 1 else if phase old = phase new + 1 then -1 else 0

/-- At most one line differs. -/
def Legal (old new : Lines) : Prop := old.a = new.a ∨ old.b = new.b

instance (old new : Lines) : Decidable (Legal old new) := inferInstanceAs (Decidable (_ ∨ _))

/-- Every state of a path is legal after the one before it. -/
def Path : Lines → List Lines → Prop
  | _, [] => True
  | old, new :: path => Legal old new ∧ Path new path

instance decidablePath : ∀ (old : Lines) (path : List Lines), Decidable (Path old path)
  | _, [] => .isTrue trivial
  | old, new :: path =>
    have := decidablePath new path
    inferInstanceAs (Decidable (Legal old new ∧ Path new path))

/-- The moves of a path forward, less those backward. -/
def net : Lines → List Lines → Int
  | _, [] => 0
  | old, new :: path => move old new + net new path

/-- Where a path ends. -/
def last : Lines → List Lines → Lines
  | old, [] => old
  | _, new :: path => last new path

theorem net_cons (old new : Lines) (path : List Lines) :
    net old (new :: path) = move old new + net new path := rfl

theorem last_cons (old new : Lines) (path : List Lines) :
    last old (new :: path) = last new path := rfl

/-! ## Detents -/

/-- `p` detents of `n` moves and a rest of `r` moves make up a number of moves. -/
structure Splits (n moves p r : Int) : Prop where
  sum : n * p + r = moves
  lower : -n < r
  upper : r < n

/-- Another split of the same number of moves differs by a whole detent. -/
theorem Splits.near {n moves p r p' r' : Int} (h : Splits n moves p r)
    (h' : Splits n moves p' r') : p' - p = -1 ∨ p' - p = 0 ∨ p' - p = 1 := by
  have hn : 0 < n := by linarith [h.lower, h.upper]
  have hsum : n * (p' - p) = r - r' := by linarith [h.sum, h'.sum]
  have hlt : p' - p < 2 := by nlinarith [h.upper, h'.lower]
  have hgt : -2 < p' - p := by nlinarith [h.lower, h'.upper]
  omega

/-- A number of moves that is whole detents has no other split. -/
theorem Splits.eq_of_rest {n moves p p' r' : Int} (h : Splits n moves p 0)
    (h' : Splits n moves p' r') : p' = p ∧ r' = 0 := by
  have hsum : n * (p' - p) = 0 - r' := by linarith [h.sum, h'.sum]
  have hlower := h'.lower
  have hupper := h'.upper
  rcases h.near h' with hp | hp | hp <;> rw [hp] at hsum <;> omega

end Quadrature
