import Mathlib.Algebra.Order.Ring.Abs
import Mathlib.Data.List.Chain
import Mathlib.Data.List.Range
import Mathlib.Tactic.Ring
import MFoES.Lib.Bresenham
import MFoES.Libgfx.Primitives

/-!
# The pixels of a line

`writeLine` computes in `int16_t` what the line of a two-sided error term is in integers, as long as
the error term fits when it is doubled (`linePoints_eq`).  At distances of at most 10922 it does,
and the line is the ideal one, rounded (`writeLine_rasterised`).
-/

namespace MFoES.Libgfx

/-! ## A pass -/

/-- What a pass changes. -/
theorem LinePoint.next_eq {dx dy sx sy x1 y1 : Int16} {p : LinePoint}
    (h : ¬ (p.x = x1 ∧ p.y = y1)) :
    p.next dx dy sx sy x1 y1 = some
      ⟨if -dy.toInt < (2 * p.err).toInt then p.x + sx else p.x,
        if (2 * p.err).toInt < dx.toInt then p.y + sy else p.y,
        if (2 * p.err).toInt < dx.toInt then
          (if -dy.toInt < (2 * p.err).toInt then p.err - dy else p.err) + dx
        else if -dy.toInt < (2 * p.err).toInt then p.err - dy else p.err⟩ := by
  rw [LinePoint.next, if_neg h]
  by_cases hx : -dy.toInt < (2 * p.err).toInt
  · by_cases hy : (2 * p.err).toInt < dx.toInt
    · simp only [if_pos hx, if_pos hy]
    · simp only [if_pos hx, if_neg hy]
  · by_cases hy : (2 * p.err).toInt < dx.toInt
    · simp only [if_neg hx, if_pos hy]
    · simp only [if_neg hx, if_neg hy]

/-- What a pass computes with the error term does not overflow. -/
def LinePoint.NoOverflow (dx dy : Int) (p : LinePoint) : Prop :=
  Short (2 * p.err.toInt) ∧
    (-dy < 2 * p.err.toInt → Short (p.err.toInt - dy)) ∧
    (2 * p.err.toInt < dx →
      Short ((if -dy < 2 * p.err.toInt then p.err.toInt - dy else p.err.toInt) + dx))

section Line

variable (x0 y0 x1 y1 : Int16)

/-- `abs(x1 - x0)`, before it is narrowed. -/
def distance (u v : Int16) : Int := |v.toInt - u.toInt|

/-- Which way a coordinate goes. -/
def side (u v : Int16) : Int := if u < v then 1 else -1

/-- The point of the loop that the ideal line has after `k` steps. -/
def onLine (k : Nat) : LinePoint :=
  let p := Bresenham.point (distance x0 x1) (distance y0 y1) k
  ⟨Int16.ofInt (x0.toInt + side x0 x1 * p.1), Int16.ofInt (y0.toInt + side y0 y1 * p.2),
    Int16.ofInt (Bresenham.err (distance x0 x1) (distance y0 y1) p)⟩

variable {x0 y0 x1 y1}

theorem distance_nonneg (u v : Int16) : 0 ≤ distance u v := abs_nonneg _

theorem side_mul_distance (u v : Int16) : side u v * distance u v = v.toInt - u.toInt := by
  rw [side, distance]
  split
  · next h =>
    rw [Int16.lt_iff_toInt_lt] at h
    rw [Int.one_mul, abs_of_nonneg (by omega)]
  · next h =>
    rw [Int16.lt_iff_toInt_lt] at h
    rw [Int.neg_mul, Int.one_mul, abs_of_nonpos (by omega)]
    omega

theorem side_cases (u v : Int16) : side u v = 1 ∨ side u v = -1 := by
  rw [side]
  split
  · exact Or.inl rfl
  · exact Or.inr rfl

/-- Between its ends a coordinate does not wrap. -/
theorem toInt_side {u v : Int16} {d : Int} (hd : 0 ≤ d) (hd' : d ≤ distance u v) :
    (Int16.ofInt (u.toInt + side u v * d)).toInt = u.toInt + side u v * d := by
  have hu := u.le_toInt
  have hu' := u.toInt_lt
  have hv := v.le_toInt
  have hv' := v.toInt_lt
  have hend := side_mul_distance u v
  rcases side_cases u v with hs | hs <;> rw [hs] at hend ⊢ <;>
    exact Int16.toInt_ofInt_of_le (by omega) (by omega)

/-- The distances fit, and the error term doubled, wherever the line is. -/
structure Fitting (x0 y0 x1 y1 : Int16) : Prop where
  dx : distance x0 x1 ≤ 32767
  dy : distance y0 y1 ≤ 32767
  double : ∀ k : Nat, (k : Int) ≤ max (distance x0 x1) (distance y0 y1) →
    Short (2 * Bresenham.err (distance x0 x1) (distance y0 y1)
      (Bresenham.point (distance x0 x1) (distance y0 y1) k))

theorem fitting_of_small (hx : distance x0 x1 ≤ 10922) (hy : distance y0 y1 ≤ 10922) :
    Fitting x0 y0 x1 y1 where
  dx := by omega
  dy := by omega
  double k hk := by
    have hsmall :=
      (Bresenham.progress (distance_nonneg x0 x1) (distance_nonneg y0 y1) hk).small
    rw [abs_le] at hsmall
    exact ⟨by omega, by omega⟩

/-- The point and its error term, as integers. -/
theorem onLine_exact {k : Nat} (h : Fitting x0 y0 x1 y1)
    (hk : (k : Int) ≤ max (distance x0 x1) (distance y0 y1)) :
    let p := Bresenham.point (distance x0 x1) (distance y0 y1) k
    (onLine x0 y0 x1 y1 k).x.toInt = x0.toInt + side x0 x1 * p.1 ∧
      (onLine x0 y0 x1 y1 k).y.toInt = y0.toInt + side y0 y1 * p.2 ∧
      (onLine x0 y0 x1 y1 k).err.toInt =
        Bresenham.err (distance x0 x1) (distance y0 y1) p := by
  have hprogress := Bresenham.progress (distance_nonneg x0 x1) (distance_nonneg y0 y1) hk
  obtain ⟨hlow, hhigh⟩ := h.double k hk
  exact ⟨toInt_side hprogress.columns.1 hprogress.columns.2,
    toInt_side hprogress.rows.1 hprogress.rows.2,
    Int16.toInt_ofInt_of_le (by omega) (by omega)⟩

theorem ofInt_distance (u v : Int16) :
    Int16.ofNat (v.toInt - u.toInt).natAbs = Int16.ofInt (distance u v) := by
  rw [distance, ← Int.natCast_natAbs]
  rfl

theorem ofInt_side (u v : Int16) :
    (if u < v then (1 : Int16) else -1) = Int16.ofInt (side u v) := by
  rw [side]
  split <;> rfl

theorem onLine_zero : onLine x0 y0 x1 y1 0 =
    ⟨x0, y0, Int16.ofInt (distance x0 x1) - Int16.ofInt (distance y0 y1)⟩ := by
  simp [onLine, Bresenham.point, Bresenham.err, Int16.ofInt_sub]

/-- The loop is at its end where the line is. -/
theorem onLine_end_iff {k : Nat} (h : Fitting x0 y0 x1 y1)
    (hk : (k : Int) ≤ max (distance x0 x1) (distance y0 y1)) :
    (onLine x0 y0 x1 y1 k).x = x1 ∧ (onLine x0 y0 x1 y1 k).y = y1 ↔
      (k : Int) = max (distance x0 x1) (distance y0 y1) := by
  obtain ⟨hpx, hpy, _⟩ := onLine_exact h hk
  have hdx := distance_nonneg x0 x1
  have hdy := distance_nonneg y0 y1
  have hendx := side_mul_distance x0 x1
  have hendy := side_mul_distance y0 y1
  rw [← Int16.toInt_inj, ← Int16.toInt_inj, hpx, hpy]
  constructor
  · rintro ⟨hx1, hy1⟩
    by_contra hne
    refine Bresenham.point_ne_last hdx hdy (by omega : (k : Int) < _) (Prod.ext ?_ ?_)
    · rcases side_cases x0 x1 with hs | hs <;> rw [hs] at hx1 hendx <;> dsimp only <;> omega
    · rcases side_cases y0 y1 with hs | hs <;> rw [hs] at hy1 hendy <;> dsimp only <;> omega
  · intro hend
    rw [Bresenham.point_last hdx hdy hend]
    dsimp only
    omega

/-- A pass is a step of the ideal line. -/
theorem next_onLine {k : Nat} (h : Fitting x0 y0 x1 y1)
    (hk : (k : Int) < max (distance x0 x1) (distance y0 y1)) :
    (onLine x0 y0 x1 y1 k).next (Int16.ofInt (distance x0 x1)) (Int16.ofInt (distance y0 y1))
      (Int16.ofInt (side x0 x1)) (Int16.ofInt (side y0 y1)) x1 y1 =
        some (onLine x0 y0 x1 y1 (k + 1)) := by
  obtain ⟨_, _, herr⟩ := onLine_exact h (Int.le_of_lt hk)
  obtain ⟨hlow, hhigh⟩ := h.double k (Int.le_of_lt hk)
  have hdx := h.dx
  have hdy := h.dy
  have hdx' := distance_nonneg x0 x1
  have hdy' := distance_nonneg y0 y1
  have hdouble : (2 * (onLine x0 y0 x1 y1 k).err).toInt =
      2 * Bresenham.err (distance x0 x1) (distance y0 y1)
        (Bresenham.point (distance x0 x1) (distance y0 y1) k) := by
    have htwo : (2 : Int16).toInt = 2 := rfl
    rw [Int16.toInt_mul, htwo, herr]
    exact Int.bmod_eq_of_le (by omega) (by omega)
  have hne := mt (onLine_end_iff h (Int.le_of_lt hk)).mp (Int.ne_of_lt hk)
  rw [LinePoint.next_eq hne, hdouble, Int16.toInt_ofInt_of_le (by omega) (by omega),
    Int16.toInt_ofInt_of_le (by omega) (by omega)]
  simp only [onLine, Bresenham.point_succ, Bresenham.next]
  generalize Bresenham.point (distance x0 x1) (distance y0 y1) k = p
  obtain ⟨i, j⟩ := p
  by_cases hright : -distance y0 y1 < 2 * Bresenham.err (distance x0 x1) (distance y0 y1) (i, j)
  · by_cases hup : 2 * Bresenham.err (distance x0 x1) (distance y0 y1) (i, j) < distance x0 x1
    · simp only [if_pos hright, if_pos hup, Bresenham.err_right, Bresenham.err_up]
      simp [Int16.ofInt_add, Int16.ofInt_sub, Int.mul_add, Int16.add_assoc]
    · simp only [if_pos hright, if_neg hup, Bresenham.err_right]
      simp [Int16.ofInt_add, Int16.ofInt_sub, Int.mul_add, Int16.add_assoc]
  · by_cases hup : 2 * Bresenham.err (distance x0 x1) (distance y0 y1) (i, j) < distance x0 x1
    · simp only [if_neg hright, if_pos hup, Bresenham.err_up]
      simp [Int16.ofInt_add, Int.mul_add, Int16.add_assoc]
    · simp only [if_neg hright, if_neg hup]

/-- The passes of `writeLine`. -/
theorem linePoints_eq (h : Fitting x0 y0 x1 y1) :
    linePoints x0 y0 x1 y1 = some
      ((List.range ((max (distance x0 x1) (distance y0 y1)).toNat + 1)).map
        (onLine x0 y0 x1 y1)) := by
  have hdx := h.dx
  have hdy := h.dy
  have hdx' := distance_nonneg x0 x1
  have hdy' := distance_nonneg y0 y1
  simp only [linePoints, ofInt_distance, ofInt_side]
  rw [← onLine_zero]
  refine Loop.run_of_steps (fun k hk => next_onLine h (by omega)) ?_ (by omega)
  rw [LinePoint.next, if_pos]
  exact (onLine_end_iff h (by omega)).mpr (by omega)

theorem onLine_noOverflow {k : Nat} (hx : distance x0 x1 ≤ 10922) (hy : distance y0 y1 ≤ 10922)
    (hk : (k : Int) ≤ max (distance x0 x1) (distance y0 y1)) :
    (onLine x0 y0 x1 y1 k).NoOverflow (distance x0 x1) (distance y0 y1) := by
  have hdx := distance_nonneg x0 x1
  have hdy := distance_nonneg y0 y1
  have hsmall := (Bresenham.progress hdx hdy hk).small
  rw [← (onLine_exact (fitting_of_small hx hy) hk).2.2, abs_le] at hsmall
  refine ⟨⟨by omega, by omega⟩, fun hright => ⟨by omega, by omega⟩, fun hup => ?_⟩
  split
  · exact ⟨by omega, by omega⟩
  · exact ⟨by omega, by omega⟩

/-- The points of a line: from its first point to its last in as many steps as its longer side is
long, each to a neighbour and on along the longer side; nowhere more than half a pixel off, along
the shorter side; and without an overflow. -/
structure Rasterised (x0 y0 x1 y1 : Int16) (ps : List LinePoint) : Prop where
  first : ps.head?.map (fun p => (p.x, p.y)) = some (x0, y0)
  last : ps.getLast?.map (fun p => (p.x, p.y)) = some (x1, y1)
  length : (ps.length : Int) = max (distance x0 x1) (distance y0 y1) + 1
  neighbours : ps.IsChain fun p q => distance p.x q.x ≤ 1 ∧ distance p.y q.y ≤ 1
  advance : ps.IsChain fun p q =>
    (distance y0 y1 ≤ distance x0 x1 → q.x.toInt = p.x.toInt + side x0 x1) ∧
      (distance x0 x1 ≤ distance y0 y1 → q.y.toInt = p.y.toInt + side y0 y1)
  near : ∀ p ∈ ps,
    |2 * ((x1.toInt - x0.toInt) * (p.y.toInt - y0.toInt) -
        (y1.toInt - y0.toInt) * (p.x.toInt - x0.toInt))| ≤
      max (distance x0 x1) (distance y0 y1)
  noOverflow : ∀ p ∈ ps, p.NoOverflow (distance x0 x1) (distance y0 y1)

theorem onLine_near {k : Nat} (h : Fitting x0 y0 x1 y1)
    (hk : (k : Int) ≤ max (distance x0 x1) (distance y0 y1)) :
    |2 * ((x1.toInt - x0.toInt) * ((onLine x0 y0 x1 y1 k).y.toInt - y0.toInt) -
        (y1.toInt - y0.toInt) * ((onLine x0 y0 x1 y1 k).x.toInt - x0.toInt))| ≤
      max (distance x0 x1) (distance y0 y1) := by
  obtain ⟨hpx, hpy, _⟩ := onLine_exact h hk
  have hnear := (Bresenham.progress (distance_nonneg x0 x1) (distance_nonneg y0 y1) hk).near
  rw [hpx, hpy, ← side_mul_distance x0 x1, ← side_mul_distance y0 y1]
  generalize Bresenham.point (distance x0 x1) (distance y0 y1) k = p at hnear
  have hfactor : 2 * (side x0 x1 * distance x0 x1 * (y0.toInt + side y0 y1 * p.2 - y0.toInt) -
      side y0 y1 * distance y0 y1 * (x0.toInt + side x0 x1 * p.1 - x0.toInt)) =
      side x0 x1 * side y0 y1 * (2 * (distance x0 x1 * p.2 - distance y0 y1 * p.1)) := by ring
  have hunit : |side x0 x1 * side y0 y1| = 1 := by
    rcases side_cases x0 x1 with hs | hs <;> rcases side_cases y0 y1 with hs' | hs' <;>
      rw [hs, hs'] <;> rfl
  rw [hfactor, abs_mul, hunit, one_mul]
  exact hnear

/-- From a point to the next one. -/
theorem onLine_step {k : Nat} (h : Fitting x0 y0 x1 y1)
    (hk : (k : Int) < max (distance x0 x1) (distance y0 y1)) :
    let p := onLine x0 y0 x1 y1 k
    let q := onLine x0 y0 x1 y1 (k + 1)
    (distance p.x q.x ≤ 1 ∧ distance p.y q.y ≤ 1) ∧
      (distance y0 y1 ≤ distance x0 x1 → q.x.toInt = p.x.toInt + side x0 x1) ∧
      (distance x0 x1 ≤ distance y0 y1 → q.y.toInt = p.y.toInt + side y0 y1) := by
  obtain ⟨hpx, hpy, _⟩ := onLine_exact h (Int.le_of_lt hk)
  obtain ⟨hqx, hqy, _⟩ := onLine_exact (k := k + 1) h (by omega)
  obtain ⟨hright, hup, hmajor, hmajor'⟩ :=
    Bresenham.point_step (distance_nonneg x0 x1) (distance_nonneg y0 y1) hk
  have hstep : ∀ {s d d' : Int}, (s = 1 ∨ s = -1) → (d' = d ∨ d' = d + 1) →
      |s * d' - s * d| ≤ 1 := by
    rintro s d d' (rfl | rfl) (rfl | rfl) <;> rw [abs_le] <;> omega
  have hdx := hstep (side_cases x0 x1) hright
  have hdy := hstep (side_cases y0 y1) hup
  refine ⟨⟨?_, ?_⟩, fun hle => ?_, fun hle => ?_⟩
  · rw [distance, hpx, hqx, Int.add_sub_add_left]
    exact hdx
  · rw [distance, hpy, hqy, Int.add_sub_add_left]
    exact hdy
  · rw [hpx, hqx, hmajor hle, Int.mul_add, Int.mul_one, Int.add_assoc]
  · rw [hpy, hqy, hmajor' hle, Int.mul_add, Int.mul_one, Int.add_assoc]

/-- `writeLine` draws the line, and returns. -/
theorem writeLine_rasterised (color : UInt32) (hx : distance x0 x1 ≤ 10922)
    (hy : distance y0 y1 ≤ 10922) :
    ∃ ps, linePoints x0 y0 x1 y1 = some ps ∧ Rasterised x0 y0 x1 y1 ps ∧
      writeLine x0 y0 x1 y1 color = some (ps.map fun p => .writePixel p.x p.y color) := by
  have hdx := distance_nonneg x0 x1
  have hdy := distance_nonneg y0 y1
  have hfit := fitting_of_small hx hy
  have hpoints := linePoints_eq hfit
  generalize hn : (max (distance x0 x1) (distance y0 y1)).toNat = n at hpoints
  have hcast : (n : Int) = max (distance x0 x1) (distance y0 y1) := by omega
  refine ⟨_, hpoints, ?_, ?_⟩
  · have hend := (onLine_end_iff (k := n) hfit (by omega)).mpr hcast
    constructor
    · rw [List.range_succ_eq_map, List.map_cons, List.head?_cons, onLine_zero]
      rfl
    · rw [List.range_succ, List.map_append, List.map_singleton, List.getLast?_concat,
        Option.map_some, hend.1, hend.2]
    · rw [List.length_map, List.length_range]
      omega
    · rw [List.isChain_map, List.isChain_range_succ]
      exact fun k hk => (onLine_step hfit (by omega)).1
    · rw [List.isChain_map, List.isChain_range_succ]
      exact fun k hk => (onLine_step hfit (by omega)).2
    · rw [List.forall_mem_map]
      exact fun k hk => onLine_near hfit (by rw [List.mem_range] at hk; omega)
    · rw [List.forall_mem_map]
      exact fun k hk => onLine_noOverflow hx hy (by rw [List.mem_range] at hk; omega)
  · rw [writeLine, Plan.each, hpoints, Option.map_some, Option.some.injEq]
    exact List.map_eq_flatMap.symm

/-- A line at work: it crosses a row in the middle. -/
theorem writeLine_shallow :
    ∃ ps, linePoints 0 0 5 1 = some ps ∧ Rasterised 0 0 5 1 ps ∧
      writeLine 0 0 5 1 0xFFFFFFFF = some (ps.map fun p => .writePixel p.x p.y 0xFFFFFFFF) :=
  writeLine_rasterised 0xFFFFFFFF (by decide) (by decide)

end Line

end MFoES.Libgfx
