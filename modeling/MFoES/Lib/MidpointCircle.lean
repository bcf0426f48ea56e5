import Mathlib.Algebra.Order.Group.Abs
import Mathlib.Algebra.Order.Ring.Int
import Mathlib.Data.Nat.Find
import Mathlib.Logic.Function.Iterate
import Mathlib.Tactic.Ring

/-!
# The midpoint circle

An eighth of a circle goes from `(0, r)` to the diagonal, one column after the other.  The decision
variable says whether the next row is the same or one nearer to the diagonal, and has a closed form
(`decision`).  What keeps the points near the circle is that the excess `x * x + y * y - r * r` is
at least `-y`, and at most the greater coordinate (`Octant`).
-/

namespace MidpointCircle

/-- How far a point is from the circle. -/
def excess (r : Int) (p : Int × Int) : Int := p.1 * p.1 + p.2 * p.2 - r * r

/-- The decision variable. -/
def decision (r : Int) (p : Int × Int) : Int := excess r p + 2 * p.1 + 1 - p.2

/-- The point in the next column. -/
def next (r : Int) (p : Int × Int) : Int × Int :=
  (p.1 + 1, if 0 ≤ decision r p then p.2 - 1 else p.2)

/-- The point in column `k`. -/
def point (r : Int) (k : Nat) : Int × Int := (next r)^[k] (0, r)

variable {r : Int} {p : Int × Int} {k : Nat}

theorem point_succ (r : Int) (k : Nat) : point r (k + 1) = next r (point r k) :=
  Function.iterate_succ_apply' _ _ _

theorem excess_right (r x y : Int) : excess r (x + 1, y) = excess r (x, y) + 2 * x + 1 := by
  simp only [excess]
  ring

theorem excess_in (r x y : Int) : excess r (x, y - 1) = excess r (x, y) - 2 * y + 1 := by
  simp only [excess]
  ring

/-- A point of the eighth of the circle. -/
structure Octant (r : Int) (p : Int × Int) : Prop where
  left : 0 ≤ p.1
  bottom : 0 ≤ p.2
  top : p.2 ≤ r
  diagonal : p.1 ≤ p.2 + 1
  below : -p.2 ≤ excess r p
  above : excess r p ≤ max p.1 p.2

/-- The next point, as long as the diagonal is not reached. -/
theorem Octant.next (h : Octant r p) (hlt : p.1 < p.2) : Octant r (next r p) := by
  obtain ⟨x, y⟩ := p
  obtain ⟨hleft, hbottom, htop, hdiagonal, hbelow, habove⟩ := h
  have hright := excess_right r x y
  have hin := excess_in r (x + 1) y
  dsimp only at hlt hleft hbottom htop hdiagonal hbelow habove
  rw [MidpointCircle.next]
  by_cases hgo : 0 ≤ decision r (x, y)
  · rw [if_pos hgo]
    rw [decision] at hgo
    dsimp only at hgo
    constructor <;> dsimp only <;> omega
  · rw [if_neg hgo]
    rw [decision] at hgo
    dsimp only at hgo
    constructor <;> dsimp only <;> omega

/-- The diagonal is met before the last column. -/
theorem Octant.left_lt (h : Octant r p) (hr : 2 < r) : p.1 < r := by
  have hbottom := h.bottom
  have hdiagonal := h.diagonal
  have habove := h.above
  by_contra hright
  have hcolumn : r * r ≤ p.1 * p.1 := Int.mul_self_le_mul_self (by omega) (by omega)
  have hrow : 2 * p.2 ≤ p.2 * p.2 := Int.mul_le_mul_of_nonneg_right (by omega) hbottom
  rw [excess] at habove
  omega

theorem octant_zero (hr : 0 ≤ r) : Octant r (point r 0) := by
  constructor <;> simp [point, excess] <;> omega

/-- Every point up to the first one on the diagonal or beyond it. -/
theorem octant_point (hr : 0 ≤ r) (hk : ∀ j < k, (point r j).1 < (point r j).2) :
    Octant r (point r k) := by
  induction k with
  | zero => exact octant_zero hr
  | succ k ih =>
      rw [point_succ]
      exact (ih fun j hj => hk j (Nat.lt_succ_of_lt hj)).next (hk k (Nat.lt_succ_self k))

theorem point_fst (r : Int) (k : Nat) : (point r k).1 = k := by
  induction k with
  | zero => rfl
  | succ k ih =>
      rw [point_succ, next, ih]
      rfl

/-- The eighth ends at the diagonal. -/
theorem exists_last (hr : 0 ≤ r) : ∃ n, ¬ (point r n).1 < (point r n).2 := by
  by_contra! hgo
  have hoctant := octant_point hr (k := r.toNat) fun j _ => hgo j
  have hlt := hgo r.toNat
  have htop := hoctant.top
  have hcolumn := point_fst r r.toNat
  omega

/-- The columns of the eighth, up to the one where it ends. -/
structure Ends (r : Int) (n : Nat) : Prop where
  before : ∀ k < n, (point r k).1 < (point r k).2
  last : ¬ (point r n).1 < (point r n).2
  octant : ∀ k ≤ n, Octant r (point r k)

theorem exists_ends (hr : 0 ≤ r) : ∃ n, Ends r n := by
  have hlast := exists_last hr
  have hbefore : ∀ k < Nat.find hlast, (point r k).1 < (point r k).2 :=
    fun k hk => not_not.mp (Nat.find_min hlast hk)
  exact ⟨Nat.find hlast, hbefore, Nat.find_spec hlast,
    fun k hk => octant_point hr fun j hj => hbefore j (Nat.lt_of_lt_of_le hj hk)⟩

/-! ## The whole circle -/

/-- A point of the eighth and its images in the others. -/
def images (p : Int × Int) : List (Int × Int) :=
  [(p.1, p.2), (-p.1, p.2), (p.1, -p.2), (-p.1, -p.2),
    (p.2, p.1), (-p.2, p.1), (p.2, -p.1), (-p.2, -p.1)]

/-- The points of a circle: four on the axes, and the images of those in the eighth. -/
def circle (r : Int) (n : Nat) : List (Int × Int) :=
  [(0, r), (0, -r), (r, 0), (-r, 0)] ++ (List.range n).flatMap fun k => images (point r (k + 1))

/-- Points that come with their mirror images. -/
structure Symmetric (l : List (Int × Int)) : Prop where
  swap : ∀ a b, (a, b) ∈ l → (b, a) ∈ l
  left : ∀ a b, (a, b) ∈ l → (-a, b) ∈ l
  down : ∀ a b, (a, b) ∈ l → (a, -b) ∈ l

theorem mem_images {p q : Int × Int} :
    q ∈ images p ↔ (q.1 = p.1 ∨ q.1 = -p.1) ∧ (q.2 = p.2 ∨ q.2 = -p.2) ∨
      (q.1 = p.2 ∨ q.1 = -p.2) ∧ (q.2 = p.1 ∨ q.2 = -p.1) := by
  simp only [images, List.mem_cons, List.not_mem_nil, or_false, Prod.ext_iff]
  grind

theorem mem_axes {r : Int} {q : Int × Int} :
    q ∈ [((0 : Int), r), (0, -r), (r, 0), (-r, 0)] ↔
      q.1 = 0 ∧ (q.2 = r ∨ q.2 = -r) ∨ (q.1 = r ∨ q.1 = -r) ∧ q.2 = 0 := by
  simp only [List.mem_cons, List.not_mem_nil, or_false, Prod.ext_iff]
  omega

theorem mem_circle {n : Nat} {q : Int × Int} :
    q ∈ circle r n ↔
      (q.1 = 0 ∧ (q.2 = r ∨ q.2 = -r) ∨ (q.1 = r ∨ q.1 = -r) ∧ q.2 = 0) ∨
        ∃ k < n, q ∈ images (point r (k + 1)) := by
  rw [circle, List.mem_append, mem_axes, List.mem_flatMap]
  simp only [List.mem_range]

theorem neg_or {a p : Int} (h : a = p ∨ a = -p) : -a = p ∨ -a = -p := by
  omega

theorem symmetric_circle (r : Int) (n : Nat) : Symmetric (circle r n) := by
  constructor <;> intro a b h <;> rw [mem_circle] at h ⊢ <;> dsimp only at h ⊢
  case swap =>
    rcases h with (⟨ha, hb⟩ | ⟨ha, hb⟩) | ⟨k, hk, himage⟩
    · exact Or.inl (Or.inr ⟨hb, ha⟩)
    · exact Or.inl (Or.inl ⟨hb, ha⟩)
    · rw [mem_images] at himage
      exact Or.inr ⟨k, hk, mem_images.mpr (himage.symm.imp And.symm And.symm)⟩
  case left =>
    rcases h with (⟨ha, hb⟩ | ⟨ha, hb⟩) | ⟨k, hk, himage⟩
    · exact Or.inl (Or.inl ⟨Int.neg_eq_zero.mpr ha, hb⟩)
    · exact Or.inl (Or.inr ⟨neg_or ha, hb⟩)
    · rw [mem_images] at himage
      exact Or.inr ⟨k, hk, mem_images.mpr
        (himage.imp (And.imp_left neg_or) (And.imp_left neg_or))⟩
  case down =>
    rcases h with (⟨ha, hb⟩ | ⟨ha, hb⟩) | ⟨k, hk, himage⟩
    · exact Or.inl (Or.inl ⟨ha, neg_or hb⟩)
    · exact Or.inl (Or.inr ⟨ha, Int.neg_eq_zero.mpr hb⟩)
    · rw [mem_images] at himage
      exact Or.inr ⟨k, hk, mem_images.mpr
        (himage.imp (And.imp_right neg_or) (And.imp_right neg_or))⟩

/-- A point whose coordinates are those of one in the eighth, up to their order and their signs. -/
theorem near_of_image {p q : Int × Int} (h : Octant r p) (hq : q ∈ images p) :
    |q.1 * q.1 + q.2 * q.2 - r * r| ≤ max |q.1| |q.2| := by
  have hleft := h.left
  have hbottom := h.bottom
  have hbelow := h.below
  have habove := h.above
  rw [excess] at hbelow habove
  have hmain : |p.1 * p.1 + p.2 * p.2 - r * r| ≤ max p.1 p.2 := abs_le.mpr ⟨by omega, habove⟩
  have hsquare : ∀ u v : Int, u = v ∨ u = -v → 0 ≤ v → u * u = v * v ∧ |u| = v := by
    rintro u v (rfl | rfl) hv
    · exact ⟨rfl, abs_of_nonneg hv⟩
    · exact ⟨Int.neg_mul_neg v v, by rw [abs_neg, abs_of_nonneg hv]⟩
  rcases mem_images.mp hq with ⟨hx, hy⟩ | ⟨hx, hy⟩
  · obtain ⟨hsq, habs⟩ := hsquare _ _ hx hleft
    obtain ⟨hsq', habs'⟩ := hsquare _ _ hy hbottom
    rw [hsq, hsq', habs, habs']
    exact hmain
  · obtain ⟨hsq, habs⟩ := hsquare _ _ hx hbottom
    obtain ⟨hsq', habs'⟩ := hsquare _ _ hy hleft
    rw [hsq, hsq', habs, habs', Int.add_comm, max_comm]
    exact hmain

/-- All of the circle is near it. -/
theorem near_circle {n : Nat} (hr : 0 ≤ r) (h : Ends r n) {q : Int × Int} (hq : q ∈ circle r n) :
    |q.1 * q.1 + q.2 * q.2 - r * r| ≤ max |q.1| |q.2| := by
  rcases mem_circle.mp hq with haxis | ⟨k, hk, himage⟩
  · refine near_of_image (octant_zero hr) (mem_images.mpr ?_)
    simp only [point, Function.iterate_zero, id]
    omega
  · exact near_of_image (h.octant (k + 1) hk) himage

end MidpointCircle
