import Mathlib.Algebra.Order.Group.Abs
import Mathlib.Algebra.Order.Ring.Int
import Mathlib.Logic.Function.Iterate

/-!
# The line of a two-sided error term

A line goes from the origin to `(a, b)`.  One error term decides on both coordinates: a step goes
on in `x`, in `y` or in both.  The error term has a closed form (`err`), and exchanging the
coordinates negates it (`next_swap`), so that it is enough to look at lines that are no steeper than
the diagonal.  There `x` goes on in every step and `y` stays within half a pixel of the line.
-/

namespace Bresenham

/-- The error term at a point. -/
def err (a b : Int) (p : Int × Int) : Int := a * (p.2 + 1) - b * (p.1 + 1)

/-- A step. -/
def next (a b : Int) (p : Int × Int) : Int × Int :=
  (if -b < 2 * err a b p then p.1 + 1 else p.1, if 2 * err a b p < a then p.2 + 1 else p.2)

/-- The point after `k` steps. -/
def point (a b : Int) (k : Nat) : Int × Int := (next a b)^[k] (0, 0)

variable {a b : Int} {p : Int × Int} {k : Nat}

theorem point_succ (a b : Int) (k : Nat) : point a b (k + 1) = next a b (point a b k) :=
  Function.iterate_succ_apply' _ _ _

theorem err_eq (a b : Int) (p : Int × Int) : err a b p = a * p.2 - b * p.1 + a - b := by
  rw [err, Int.mul_add, Int.mul_add]
  omega

theorem err_right (a b x y : Int) : err a b (x + 1, y) = err a b (x, y) - b := by
  simp only [err, Int.mul_add]
  omega

theorem err_up (a b x y : Int) : err a b (x, y + 1) = err a b (x, y) + a := by
  simp only [err, Int.mul_add]
  omega

/-! ## The other half -/

theorem err_swap (a b : Int) (p : Int × Int) : err b a p.swap = -err a b p := by
  simp only [err, Prod.fst_swap, Prod.snd_swap]
  omega

theorem next_swap (a b : Int) (p : Int × Int) : next b a p.swap = (next a b p).swap := by
  have hright : -a < 2 * -err a b p ↔ 2 * err a b p < a := by omega
  have hup : 2 * -err a b p < b ↔ -b < 2 * err a b p := by omega
  simp only [next, err_swap, hright, hup, Prod.fst_swap, Prod.snd_swap, Prod.swap_prod_mk]

theorem point_swap (a b : Int) (k : Nat) : point b a k = (point a b k).swap := by
  induction k with
  | zero => rfl
  | succ k ih => rw [point_succ, point_succ, ih, next_swap]

/-! ## Lines no steeper than the diagonal -/

/-- At most half a pixel from the line. -/
structure Near (a b : Int) (p : Int × Int) : Prop where
  below : -a ≤ 2 * (a * p.2 - b * p.1)
  above : 2 * (a * p.2 - b * p.1) < a

/-- The step goes on in `x`. -/
theorem Near.right (h : Near a b p) (ha : 0 < a) (hba : b ≤ a) : (next a b p).1 = p.1 + 1 := by
  have hstep : -b < 2 * err a b p := by
    have hbelow := h.below
    rw [err_eq]
    rcases Int.lt_or_eq_of_le hba with hlt | rfl
    · omega
    · -- on the diagonal, half a pixel is no distance
      have hne : b * (2 * (p.2 - p.1) + 1) ≠ 0 := Int.mul_ne_zero (by omega) (by omega)
      have hdist : b * (2 * (p.2 - p.1) + 1) = 2 * (b * p.2 - b * p.1) + b := by
        rw [Int.mul_add, Int.mul_left_comm, Int.mul_sub, Int.mul_one]
      omega
  rw [next, if_pos hstep]

/-- The step keeps to the line. -/
theorem Near.next (h : Near a b p) (ha : 0 < a) (hb : 0 ≤ b) (hba : b ≤ a) :
    Near a b (next a b p) := by
  have hright := h.right ha hba
  have hbelow := h.below
  have habove := h.above
  have herr := err_eq a b p
  by_cases hup : 2 * err a b p < a
  · have hy : (Bresenham.next a b p).2 = p.2 + 1 := if_pos hup
    constructor <;> rw [hright, hy, Int.mul_add, Int.mul_add] <;> omega
  · have hy : (Bresenham.next a b p).2 = p.2 := if_neg hup
    constructor <;> rw [hright, hy, Int.mul_add] <;> omega

theorem near_point (ha : 0 < a) (hb : 0 ≤ b) (hba : b ≤ a) (k : Nat) :
    (point a b k).1 = k ∧ Near a b (point a b k) := by
  induction k with
  | zero => exact ⟨rfl, by simp [point]; omega, by simpa [point] using ha⟩
  | succ k ih =>
      rw [point_succ]
      exact ⟨by rw [ih.2.right ha hba, ih.1]; rfl, ih.2.next ha hb hba⟩

/-- How far the error term goes: distances from the line are multiples of what divides both
sides. -/
theorem Near.double_err_le (h : Near a b p) {g : Int} (hg : 0 < g) (hga : g ∣ a) (hgb : g ∣ b) :
    2 * err a b p ≤ 2 * g * ((a / g - 1) / 2) + 2 * (a - b) := by
  obtain ⟨m, rfl⟩ := hga
  obtain ⟨l, rfl⟩ := hgb
  have habove := h.above
  have hdist : g * m * p.2 - g * l * p.1 = g * (m * p.2 - l * p.1) := by
    rw [Int.mul_sub, Int.mul_assoc, Int.mul_assoc]
  rw [hdist] at habove
  rw [err_eq, hdist]
  generalize m * p.2 - l * p.1 = t at habove ⊢
  rw [Int.mul_ediv_cancel_left m (by omega)]
  have hlt : 2 * t < m := by
    refine lt_of_mul_lt_mul_left ?_ (Int.le_of_lt hg)
    rwa [Int.mul_left_comm]
  have hmul : g * t ≤ g * ((m - 1) / 2) := Int.mul_le_mul_of_nonneg_left (by omega) (by omega)
  rw [Int.mul_assoc]
  omega

/-- The line does not leave the rows of its end points. -/
theorem Near.rows (h : Near a b p) (ha : 0 < a) (hb : 0 ≤ b) (hx : 0 ≤ p.1) (hx' : p.1 ≤ a) :
    0 ≤ p.2 ∧ p.2 ≤ b := by
  have hbelow := h.below
  have habove := h.above
  have hnonneg : 0 ≤ b * p.1 := Int.mul_nonneg hb hx
  have hle : b * p.1 ≤ b * a := Int.mul_le_mul_of_nonneg_left hx' hb
  constructor
  · by_contra hneg
    have hmul : a * p.2 ≤ a * -1 := Int.mul_le_mul_of_nonneg_left (by omega) (by omega)
    omega
  · by_contra habove'
    have hmul : a * (b + 1) ≤ a * p.2 := Int.mul_le_mul_of_nonneg_left (by omega) (by omega)
    rw [Int.mul_add, Int.mul_comm a b] at hmul
    omega

/-- The line ends where it is to. -/
theorem Near.last (h : Near a b p) (ha : 0 < a) (hx : p.1 = a) : p = (a, b) := by
  have hbelow := h.below
  have habove := h.above
  have hdist : a * p.2 - b * p.1 = a * (p.2 - b) := by
    rw [hx, Int.mul_sub, Int.mul_comm b]
  have hy : p.2 = b := by
    rcases Int.lt_trichotomy p.2 b with hlt | heq | hgt
    · have hmul : a * (p.2 - b) ≤ a * -1 := Int.mul_le_mul_of_nonneg_left (by omega) (by omega)
      omega
    · exact heq
    · have hmul : a * 1 ≤ a * (p.2 - b) := Int.mul_le_mul_of_nonneg_left (by omega) (by omega)
      omega
  exact Prod.ext hx hy

/-! ## All lines -/

/-- What is known of the point after `k` steps. -/
structure Progress (a b : Int) (k : Nat) (p : Int × Int) : Prop where
  major : (b ≤ a → p.1 = k) ∧ (a ≤ b → p.2 = k)
  columns : 0 ≤ p.1 ∧ p.1 ≤ a
  rows : 0 ≤ p.2 ∧ p.2 ≤ b
  near : |2 * (a * p.2 - b * p.1)| ≤ max a b
  small : |2 * err a b p| ≤ 3 * max a b

theorem progress_of_le (hb : 0 ≤ b) (hba : b ≤ a) (hk : (k : Int) ≤ a) :
    Progress a b k (point a b k) := by
  rcases Int.lt_or_eq_of_le (Int.le_trans hb hba) with ha | rfl
  · obtain ⟨hx, hnear⟩ := near_point ha hb hba k
    have hrows := hnear.rows ha hb (by omega) (by omega)
    have hbelow := hnear.below
    have habove := hnear.above
    refine ⟨⟨fun _ => hx, fun hab => ?_⟩, by omega, hrows, ?_, ?_⟩
    · -- on the diagonal the coordinates are the same
      obtain rfl : a = b := by omega
      have hsame := congrArg Prod.snd (point_swap a a k)
      rw [hsame, Prod.snd_swap, hx]
    · rw [max_eq_left hba, abs_le]
      omega
    · rw [max_eq_left hba, abs_le, err_eq]
      omega
  · -- a line of one point
    obtain rfl : b = 0 := by omega
    obtain rfl : k = 0 := by omega
    exact ⟨⟨fun _ => rfl, fun _ => rfl⟩, by decide, by decide, by decide, by decide⟩

/-- The progress of a line is that of the line with its coordinates exchanged. -/
theorem Progress.swap (h : Progress b a k p.swap) : Progress a b k p := by
  have hneg : 2 * (b * p.swap.2 - a * p.swap.1) = -(2 * (a * p.2 - b * p.1)) := by
    rw [Prod.fst_swap, Prod.snd_swap]
    omega
  have hnear := h.near
  have hsmall := h.small
  rw [hneg, abs_neg, max_comm] at hnear
  rw [err_swap, Int.mul_neg, abs_neg, max_comm] at hsmall
  exact ⟨h.major.symm, h.rows, h.columns, hnear, hsmall⟩

/-- The line in all of its steps. -/
theorem progress (ha : 0 ≤ a) (hb : 0 ≤ b) (hk : (k : Int) ≤ max a b) :
    Progress a b k (point a b k) := by
  rcases le_or_gt b a with hba | hab
  · exact progress_of_le hb hba (by omega)
  · have hswap : Progress b a k (point a b k).swap := by
      rw [← point_swap]
      exact progress_of_le ha (by omega) (by omega)
    exact hswap.swap

theorem point_last (ha : 0 ≤ a) (hb : 0 ≤ b) (hk : (k : Int) = max a b) :
    point a b k = (a, b) := by
  have hlast : ∀ {a b : Int}, 0 ≤ b → b ≤ a → (k : Int) = a → point a b k = (a, b) := by
    intro a b hb hba hk
    rcases Int.lt_or_eq_of_le (Int.le_trans hb hba) with ha | rfl
    · obtain ⟨hx, hnear⟩ := near_point ha hb hba k
      exact hnear.last ha (by omega)
    · obtain rfl : b = 0 := by omega
      obtain rfl : k = 0 := by omega
      rfl
  rcases le_or_gt b a with hba | hab
  · exact hlast hb hba (by omega)
  · have hswap : point b a k = (b, a) := hlast ha (by omega) (by omega)
    rw [point_swap, hswap, Prod.swap_prod_mk]

/-- The line does not come to its end before. -/
theorem point_ne_last (ha : 0 ≤ a) (hb : 0 ≤ b) (hk : (k : Int) < max a b) :
    point a b k ≠ (a, b) := by
  intro hend
  have hmajor := (progress ha hb (Int.le_of_lt hk)).major
  rw [hend] at hmajor
  omega

/-- A step goes on by one at most, and by one along a longer side. -/
theorem point_step (ha : 0 ≤ a) (hb : 0 ≤ b) (hk : (k : Int) < max a b) :
    ((point a b (k + 1)).1 = (point a b k).1 ∨ (point a b (k + 1)).1 = (point a b k).1 + 1) ∧
      ((point a b (k + 1)).2 = (point a b k).2 ∨ (point a b (k + 1)).2 = (point a b k).2 + 1) ∧
      (b ≤ a → (point a b (k + 1)).1 = (point a b k).1 + 1) ∧
      (a ≤ b → (point a b (k + 1)).2 = (point a b k).2 + 1) := by
  have hmajor := (progress ha hb (Int.le_of_lt hk)).major
  have hmajor' := (progress ha hb (k := k + 1) (by omega)).major
  refine ⟨?_, ?_, by omega, by omega⟩
  · rw [point_succ, next]
    dsimp only
    split <;> omega
  · rw [point_succ, next]
    dsimp only
    split <;> omega

/-- The error term, doubled, on all lines: it goes furthest against the shorter side. -/
theorem double_err_fits (ha : 0 ≤ a) (hb : 0 ≤ b) (hk : (k : Int) ≤ max a b) {bound : Int}
    (hbound : 2 * (Int.gcd a b : Int) * ((max a b / Int.gcd a b - 1) / 2) +
      2 * (max a b - min a b) ≤ bound) :
    if b ≤ a then -a ≤ 2 * err a b (point a b k) ∧ 2 * err a b (point a b k) ≤ bound
    else -bound ≤ 2 * err a b (point a b k) ∧ 2 * err a b (point a b k) ≤ b := by
  have hflat : ∀ {a b : Int}, 0 < a → 0 ≤ b → b ≤ a →
      2 * (Int.gcd a b : Int) * ((a / Int.gcd a b - 1) / 2) + 2 * (a - b) ≤ bound →
      -a ≤ 2 * err a b (point a b k) ∧ 2 * err a b (point a b k) ≤ bound := by
    intro a b ha hb hba hbound
    have hnear := (near_point ha hb hba k).2
    have hgcd : (0 : Int) < Int.gcd a b := by
      have hpos := Int.gcd_pos_of_ne_zero_left b (Int.ne_of_gt ha)
      omega
    have hle := hnear.double_err_le hgcd (Int.gcd_dvd_left ..) (Int.gcd_dvd_right ..)
    have hbelow := hnear.below
    refine ⟨?_, by omega⟩
    rw [err_eq]
    omega
  split
  · next hba =>
    rw [max_eq_left hba, min_eq_right hba] at hbound
    rcases Int.lt_or_eq_of_le ha with hpos | rfl
    · exact hflat hpos hb hba hbound
    · obtain rfl : b = 0 := by omega
      obtain rfl : k = 0 := by omega
      exact ⟨by decide, by simpa [err, point] using hbound⟩
  · next hab =>
    rw [max_eq_right (by omega), min_eq_left (by omega), Int.gcd_comm] at hbound
    have hswapped := hflat (by omega) ha (by omega) hbound
    rw [point_swap, err_swap] at hswapped
    omega

end Bresenham
