import Mathlib.Data.List.GetD
import Mathlib.Tactic.Common

/-!
# Data in blocks

A function of blocks runs over data of any length, block by block, and leaves what is too short
for a block (`absorb`).  What it has left is absorbed again in front of what follows
(`absorb_append`), so data may come in pieces.

Where blocks of one size are written one after the other, an element is found by the number of its
block and its place there (`getD_flatMap_range`).
-/

namespace Blocks

variable {σ α : Type}

/-- Run over the blocks of `size + 1` elements.  The rest is too short for a block. -/
def absorb (size : Nat) (compress : σ → List α → σ) (s : σ) (data : List α) : σ × List α :=
  if size < data.length then
    absorb size compress (compress s (data.take (size + 1))) (data.drop (size + 1))
  else (s, data)
termination_by data.length
decreasing_by
  rw [List.length_drop]
  omega

variable {size : Nat} {compress : σ → List α → σ}

theorem absorb_of_short (s : σ) {data : List α} (h : data.length ≤ size) :
    absorb size compress s data = (s, data) := by
  rw [absorb, if_neg (Nat.not_lt.mpr h)]

/-- A block at the front. -/
theorem absorb_block (s : σ) {block : List α} (h : block.length = size + 1) (data : List α) :
    absorb size compress s (block ++ data) = absorb size compress (compress s block) data := by
  have hlong : size < (block ++ data).length := by
    rw [List.length_append]
    omega
  rw [absorb, if_pos hlong, List.take_left' h, List.drop_left' h]

/-- What is left is what is behind the last block. -/
theorem absorb_rest (s : σ) (data : List α) :
    (absorb size compress s data).2.length = data.length % (size + 1) := by
  induction hlen : data.length using Nat.strongRecOn generalizing s data with
  | ind n ih =>
      rw [absorb]
      split
      · next hlong =>
        have hdrop : (data.drop (size + 1)).length = n - (size + 1) := by
          rw [List.length_drop, hlen]
        rw [ih (n - (size + 1)) (by omega) _ _ hdrop, ← Nat.mod_eq_sub_mod (by omega)]
      · next hshort =>
        rw [Nat.mod_eq_of_lt (by omega)]
        exact hlen

/-- Data may come in pieces. -/
theorem absorb_append (s : σ) (data more : List α) :
    absorb size compress s (data ++ more) =
      absorb size compress (absorb size compress s data).1
        ((absorb size compress s data).2 ++ more) := by
  induction hlen : data.length using Nat.strongRecOn generalizing s data with
  | ind n ih =>
      rcases Nat.lt_or_ge size data.length with hlong | hshort
      · have hblock : (data.take (size + 1)).length = size + 1 :=
          List.length_take_of_le hlong
        have hdrop : (data.drop (size + 1)).length = n - (size + 1) := by
          rw [List.length_drop, hlen]
        conv => lhs; rw [← List.take_append_drop (size + 1) data, List.append_assoc]
        rw [absorb_block s hblock, ih (n - (size + 1)) (by omega) _ _ hdrop,
          absorb.eq_1 size compress s data, if_pos hlong]
      · rw [absorb_of_short s hshort]

/-- Data that is made of whole blocks leaves nothing. -/
theorem absorb_whole (s : σ) {data : List α} (h : data.length % (size + 1) = 0) :
    (absorb size compress s data).2 = [] :=
  List.eq_nil_of_length_eq_zero ((absorb_rest s data).trans h)

/-! ## Blocks one after the other -/

theorem length_flatMap_range {n m : Nat} {f : Nat → List α} (h : ∀ i < m, (f i).length = n) :
    ((List.range m).flatMap f).length = m * n := by
  induction m with
  | zero => rw [Nat.zero_mul, List.range_zero, List.flatMap_nil, List.length_nil]
  | succ m ih =>
      rw [List.range_succ, List.flatMap_append, List.length_append, ih fun i hi => h i (by omega),
        List.flatMap_singleton, h m (Nat.lt_succ_self m), Nat.succ_mul]

/-- An element is in the block of its number. -/
theorem getD_flatMap_range {n m : Nat} {f : Nat → List α} (h : ∀ i < m, (f i).length = n)
    {i j : Nat} (hi : i < m) (hj : j < n) (d : α) :
    ((List.range m).flatMap f).getD (i * n + j) d = (f i).getD j d := by
  induction m with
  | zero => exact absurd hi (Nat.not_lt_zero i)
  | succ m ih =>
      have hbefore : ∀ i < m, (f i).length = n := fun i hi => h i (by omega)
      have hlen := length_flatMap_range hbefore
      rw [List.range_succ, List.flatMap_append, List.flatMap_singleton]
      rcases Nat.lt_succ_iff_lt_or_eq.mp hi with hlt | rfl
      · have hnext : i * n + n ≤ m * n := by
          rw [← Nat.succ_mul]
          exact Nat.mul_le_mul_right n hlt
        rw [List.getD_append _ _ _ _ (by omega), ih hbefore hlt]
      · rw [List.getD_append_right _ _ _ _ (by omega), hlen, Nat.add_sub_cancel_left]

end Blocks
