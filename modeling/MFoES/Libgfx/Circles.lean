import Mathlib.Algebra.Order.Ring.Abs
import MFoES.Lib.MidpointCircle
import MFoES.Libgfx.Primitives

/-!
# The pixels of a circle

The midpoint loop computes in `int16_t` what the midpoint circle is in integers (`next_onCircle`),
for every radius up to 16383.  So the outline that `drawCircle` plots keeps near the circle and is
symmetric (`drawCircle_rasterised`).
-/

namespace MFoES.Libgfx

/-! ## The loop -/

/-- Where the loop starts. -/
def CirclePoint.start (r : Int16) : CirclePoint := ⟨1 - r, 1, -2 * r, 0, r⟩

/-- The loop in column `k`. -/
def onCircle (r : Int16) (k : Nat) : CirclePoint :=
  let p := MidpointCircle.point r.toInt k
  ⟨Int16.ofInt (MidpointCircle.decision r.toInt p), Int16.ofInt (2 * p.1 + 1),
    Int16.ofInt (-2 * p.2), Int16.ofInt p.1, Int16.ofInt p.2⟩

/-- What a pass computes does not overflow. -/
def CirclePoint.NoOverflow (p : CirclePoint) : Prop :=
  p.x < p.y →
    (0 ≤ p.f → Short (p.y.toInt - 1) ∧ Short (p.ddy.toInt + 2) ∧
      Short (p.f.toInt + (p.ddy.toInt + 2))) ∧
    Short (p.x.toInt + 1) ∧ Short (p.ddx.toInt + 2) ∧
    Short ((if 0 ≤ p.f then p.f.toInt + (p.ddy.toInt + 2) else p.f.toInt) + (p.ddx.toInt + 2))

theorem circlePoints_start (r : Int16) :
    circlePoints r = (Loop.run CirclePoint.next (2 ^ 16) (CirclePoint.start r)).map List.tail := rfl

/-- A pass that goes to a row nearer to the diagonal. -/
theorem CirclePoint.next_in {p : CirclePoint} (hlt : p.x < p.y) (hf : 0 ≤ p.f) :
    p.next = some ⟨p.f + (p.ddy + 2) + (p.ddx + 2), p.ddx + 2, p.ddy + 2, p.x + 1, p.y - 1⟩ := by
  rw [CirclePoint.next, if_pos hlt]
  simp only [if_pos hf]

/-- A pass that keeps to its row. -/
theorem CirclePoint.next_along {p : CirclePoint} (hlt : p.x < p.y) (hf : ¬ 0 ≤ p.f) :
    p.next = some ⟨p.f + (p.ddx + 2), p.ddx + 2, p.ddy, p.x + 1, p.y⟩ := by
  rw [CirclePoint.next, if_pos hlt]
  simp only [if_neg hf]

theorem onCircle_zero (r : Int16) : onCircle r 0 = CirclePoint.start r := by
  have hf : MidpointCircle.decision r.toInt (0, r.toInt) = 1 - r.toInt := by
    simp only [MidpointCircle.decision, MidpointCircle.excess]
    omega
  simp only [onCircle, MidpointCircle.point, Function.iterate_zero, id, hf, CirclePoint.start]
  simp [Int16.ofInt_sub, Int16.neg_mul]

section Column

variable {r : Int16} {n k : Nat} (hr : r.toInt ≤ 16383) (h : MidpointCircle.Ends r.toInt n)
  (hk : k ≤ n)

include hr h hk

/-- The members of the loop, as integers. -/
theorem onCircle_exact :
    let p := MidpointCircle.point r.toInt k
    (onCircle r k).f.toInt = MidpointCircle.decision r.toInt p ∧
      (onCircle r k).ddx.toInt = 2 * p.1 + 1 ∧ (onCircle r k).ddy.toInt = -2 * p.2 ∧
      (onCircle r k).x.toInt = p.1 ∧ (onCircle r k).y.toInt = p.2 := by
  obtain ⟨hleft, hbottom, htop, hdiagonal, hbelow, habove⟩ := h.octant k hk
  have hcolumn : 2 < r.toInt → (MidpointCircle.point r.toInt k).1 < r.toInt :=
    (h.octant k hk).left_lt
  simp only [onCircle, MidpointCircle.decision]
  refine ⟨?_, ?_, ?_, ?_, ?_⟩ <;> exact Int16.toInt_ofInt_of_le (by omega) (by omega)

/-- The loop goes on where the eighth does. -/
theorem onCircle_lt_iff : (onCircle r k).x < (onCircle r k).y ↔ k < n := by
  obtain ⟨_, _, _, hx, hy⟩ := onCircle_exact hr h hk
  rw [Int16.lt_iff_toInt_lt, hx, hy]
  constructor
  · intro hlt
    rcases Nat.lt_or_eq_of_le hk with hlt' | rfl
    · exact hlt'
    · exact (h.last hlt).elim
  · exact h.before k

theorem onCircle_in_iff : 0 ≤ (onCircle r k).f ↔
    0 ≤ MidpointCircle.decision r.toInt (MidpointCircle.point r.toInt k) := by
  obtain ⟨hf, _⟩ := onCircle_exact hr h hk
  rw [Int16.le_iff_toInt_le, hf]
  rfl

/-- No pass overflows. -/
theorem onCircle_noOverflow : (onCircle r k).NoOverflow := by
  intro hlt
  obtain ⟨hf, hddx, hddy, hx, hy⟩ := onCircle_exact hr h hk
  have hk' := (onCircle_lt_iff hr h hk).mp hlt
  obtain ⟨hleft, hbottom, htop, hdiagonal, hbelow, habove⟩ := h.octant k hk
  have hbefore := h.before k hk'
  -- the next column is not the last one either
  have hcolumn := (h.octant (k + 1) hk').left_lt
  have hin := onCircle_in_iff hr h hk
  rw [MidpointCircle.point_fst] at hcolumn hbefore hdiagonal hleft habove
  simp only [hin, hf, hddx, hddy, hx, hy, MidpointCircle.decision, MidpointCircle.point_fst]
  refine ⟨fun hin => ⟨⟨by omega, by omega⟩, ⟨by omega, by omega⟩, by omega, by omega⟩,
    ⟨by omega, by omega⟩, ⟨by omega, by omega⟩, ?_⟩
  split
  · exact ⟨by omega, by omega⟩
  · exact ⟨by omega, by omega⟩

end Column

/-- A pass is a step to the next column. -/
theorem next_onCircle {r : Int16} {n k : Nat} (hr : r.toInt ≤ 16383)
    (h : MidpointCircle.Ends r.toInt n) (hk : k < n) :
    (onCircle r k).next = some (onCircle r (k + 1)) := by
  have hgo := (onCircle_lt_iff hr h (Nat.le_of_lt hk)).mpr hk
  have hin := onCircle_in_iff hr h (Nat.le_of_lt hk)
  have htwo : (2 : Int16) = Int16.ofInt 2 := rfl
  have hone : (1 : Int16) = Int16.ofInt 1 := rfl
  by_cases hdec : 0 ≤ MidpointCircle.decision r.toInt (MidpointCircle.point r.toInt k)
  · rw [CirclePoint.next_in hgo (hin.mpr hdec)]
    simp only [onCircle, MidpointCircle.point_succ, MidpointCircle.next, if_pos hdec]
    generalize MidpointCircle.point r.toInt k = p
    obtain ⟨x, y⟩ := p
    have hnext : MidpointCircle.decision r.toInt (x + 1, y - 1) =
        MidpointCircle.decision r.toInt (x, y) + (-2 * y + 2) + (2 * x + 1 + 2) := by
      simp only [MidpointCircle.decision, MidpointCircle.excess_in, MidpointCircle.excess_right]
      omega
    simp only [hnext, htwo, hone, ← Int16.ofInt_add, ← Int16.ofInt_sub]
    rw [show 2 * (x + 1) + 1 = 2 * x + 1 + 2 by omega, show -2 * (y - 1) = -2 * y + 2 by omega]
  · rw [CirclePoint.next_along hgo (mt hin.mp hdec)]
    simp only [onCircle, MidpointCircle.point_succ, MidpointCircle.next, if_neg hdec]
    generalize MidpointCircle.point r.toInt k = p
    obtain ⟨x, y⟩ := p
    have hnext : MidpointCircle.decision r.toInt (x + 1, y) =
        MidpointCircle.decision r.toInt (x, y) + (2 * x + 1 + 2) := by
      simp only [MidpointCircle.decision, MidpointCircle.excess_right]
      omega
    simp only [hnext, htwo, hone, ← Int16.ofInt_add]
    rw [show 2 * (x + 1) + 1 = 2 * x + 1 + 2 by omega]

/-- The passes of the midpoint loop. -/
theorem circlePoints_eq {r : Int16} {n : Nat} (hr : r.toInt ≤ 16383)
    (h : MidpointCircle.Ends r.toInt n) :
    circlePoints r = some ((List.range n).map fun k => onCircle r (k + 1)) := by
  have hlast : (onCircle r n).next = none := by
    rw [CirclePoint.next, if_neg]
    exact fun hlt => Nat.lt_irrefl n ((onCircle_lt_iff hr h (Nat.le_refl n)).mp hlt)
  have hcolumn := (h.octant n (Nat.le_refl n)).top
  have hdiagonal := (h.octant n (Nat.le_refl n)).diagonal
  rw [MidpointCircle.point_fst] at hdiagonal
  have hfuel : n < 2 ^ 16 := by omega
  have hrun := Loop.run_of_steps (f := onCircle r) (fun k hk => next_onCircle hr h hk) hlast hfuel
  rw [onCircle_zero] at hrun
  rw [circlePoints_start, hrun, Option.map_some, List.range_succ_eq_map, List.map_cons,
    List.tail_cons, List.map_map]
  rfl

/-! ## The outline -/

/-- A point at an offset from the centre. -/
def atOffset (x0 y0 : Int16) (o : Int × Int) : Int16 × Int16 :=
  (x0 + Int16.ofInt o.1, y0 + Int16.ofInt o.2)

/-- The points of an outline are those of the circle, around the centre. -/
theorem outline_eq {r : Int16} {n : Nat} (hr : r.toInt ≤ 16383)
    (h : MidpointCircle.Ends r.toInt n) (x0 y0 : Int16) :
    outline x0 y0 r = some ((MidpointCircle.circle r.toInt n).map (atOffset x0 y0)) := by
  have hminus : ∀ (u : Int16) (v : Int), u - Int16.ofInt v = u + Int16.ofInt (-v) := by
    intro u v
    rw [Int16.ofInt_neg, Int16.sub_eq_add_neg]
  have hr' : r = Int16.ofInt r.toInt := (Int16.ofInt_toInt r).symm
  rw [outline, circlePoints_eq hr h, Option.map_some, MidpointCircle.circle, List.map_append,
    List.map_flatMap, List.flatMap_map]
  have haxes : [(x0, y0 + r), (x0, y0 - r), (x0 + r, y0), (x0 - r, y0)] =
      [((0 : Int), r.toInt), (0, -r.toInt), (r.toInt, 0), (-r.toInt, 0)].map (atOffset x0 y0) := by
    simp [atOffset, Int16.sub_eq_add_neg]
  rw [haxes]
  simp only [onCircle, hminus]
  rfl

/-- What `drawCircle` plots in one pixel without smoothing: offsets that are near the circle and
symmetric, found in a loop that returns and in which nothing overflows. -/
structure CircleRasterised (x0 y0 r : Int16) (ps : List CirclePoint) (offsets : List (Int × Int)) :
    Prop where
  loop : circlePoints r = some ps
  start : Short (1 - r.toInt) ∧ Short (-2 * r.toInt)
  noOverflow : ∀ p ∈ CirclePoint.start r :: ps, p.NoOverflow
  plotted : outline x0 y0 r = some (offsets.map (atOffset x0 y0))
  near : ∀ o ∈ offsets, |o.1 * o.1 + o.2 * o.2 - r.toInt * r.toInt| ≤ max |o.1| |o.2|
  symmetric : MidpointCircle.Symmetric offsets

end MFoES.Libgfx
