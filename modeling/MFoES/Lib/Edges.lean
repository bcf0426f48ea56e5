import Mathlib.Algebra.Order.Field.Basic
import Mathlib.Algebra.Order.Field.Rat
import Mathlib.Tactic.FieldSimp
import Mathlib.Tactic.Linarith
import Mathlib.Tactic.LinearCombination
import Mathlib.Tactic.Ring

/-!
# Edges on a raster

An edge goes from one point to a lower one.  Its place on a row is found by a division that
truncates: less than one pixel off, and never beyond the ends of the edge.
-/

namespace Edges

/-- A point of the raster. -/
abbrev Point := Int × Int

/-- Less than one pixel from where the edge from `p` to `q` crosses the row. -/
def Near (p q : Point) (x row : Int) : Prop :=
  ∃ s : Rat, 0 ≤ s ∧ s ≤ 1 ∧ p.2 + s * (q.2 - p.2) = row ∧ |x - (p.1 + s * (q.1 - p.1))| < 1

/-- How far the edge has gone sideways, `k` rows below its upper end. -/
def aside (p q : Point) (k : Int) : Int := (k * (q.1 - p.1)).tdiv (q.2 - p.2)

variable {p q : Point} {k x row : Int}

/-- An edge has no direction. -/
theorem Near.symm (h : Near p q x row) : Near q p x row := by
  obtain ⟨s, hs, hs', hrow, hnear⟩ := h
  refine ⟨1 - s, by linarith, by linarith, ?_, ?_⟩
  · rw [← hrow]
    ring
  · have hsame : (q.1 : Rat) + (1 - s) * (p.1 - q.1) = p.1 + s * (q.1 - p.1) := by ring
    rwa [hsame]

/-- The upper end of an edge, or any point of a flat one. -/
theorem near_of_le (hx : p.1 ≤ x) (hx' : x ≤ q.1) (hp : p.2 = row) (hq : q.2 = row) :
    Near p q x row := by
  subst hp
  rcases Int.lt_or_eq_of_le (Int.le_trans hx hx') with hlt | heq
  · have hlen : (0 : Rat) < q.1 - p.1 := by
      rw [sub_pos]
      exact_mod_cast hlt
    have hfrom : (0 : Rat) ≤ x - p.1 := by
      rw [sub_nonneg]
      exact_mod_cast hx
    have hto : (x : Rat) - p.1 ≤ q.1 - p.1 := by
      rw [sub_le_sub_iff_right]
      exact_mod_cast hx'
    refine ⟨(x - p.1) / (q.1 - p.1), div_nonneg hfrom hlen.le, (div_le_one hlen).mpr hto, ?_, ?_⟩
    · rw [hq, sub_self, mul_zero, add_zero]
    · rw [div_mul_cancel₀ _ hlen.ne']
      simp
  · obtain rfl : x = p.1 := by omega
    exact ⟨0, le_rfl, zero_le_one, by simp, by simp⟩

/-- What the division finds is near the edge. -/
theorem near_aside (hdy : 0 < q.2 - p.2) (hk : 0 ≤ k) (hk' : k ≤ q.2 - p.2) :
    Near p q (p.1 + aside p q k) (p.2 + k) := by
  have hdyRat : (0 : Rat) < q.2 - p.2 := by exact_mod_cast hdy
  have hkRat : (0 : Rat) ≤ k := by exact_mod_cast hk
  have hkRat' : (k : Rat) ≤ q.2 - p.2 := by exact_mod_cast hk'
  refine ⟨k / (q.2 - p.2), div_nonneg hkRat hdyRat.le, (div_le_one hdyRat).mpr hkRat', ?_, ?_⟩
  · rw [div_mul_cancel₀ _ hdyRat.ne']
    push_cast
    rfl
  · -- what the truncation cuts off is the remainder, and less than the divisor
    have hdiv : ((q.2 - p.2 : Int) : Rat) * aside p q k +
        ((k * (q.1 - p.1)).tmod (q.2 - p.2) : Int) = (k * (q.1 - p.1) : Int) := by
      exact_mod_cast Int.mul_tdiv_add_tmod (k * (q.1 - p.1)) (q.2 - p.2)
    have hlow : (-(q.2 - p.2 : Int) : Rat) < ((k * (q.1 - p.1)).tmod (q.2 - p.2) : Int) := by
      exact_mod_cast Int.lt_tmod_of_pos (k * (q.1 - p.1)) hdy
    have hhigh : (((k * (q.1 - p.1)).tmod (q.2 - p.2) : Int) : Rat) < (q.2 - p.2 : Int) := by
      exact_mod_cast Int.tmod_lt_of_pos (k * (q.1 - p.1)) hdy
    generalize (((k * (q.1 - p.1)).tmod (q.2 - p.2) : Int) : Rat) = m at hdiv hlow hhigh
    push_cast at hdiv hlow hhigh ⊢
    have hoff : (p.1 + aside p q k : Rat) - (p.1 + k / (q.2 - p.2) * (q.1 - p.1)) =
        -m / (q.2 - p.2) := by
      rw [eq_div_iff hdyRat.ne']
      have hcancel : (k : Rat) / (q.2 - p.2) * (q.1 - p.1) * (q.2 - p.2) = k * (q.1 - p.1) := by
        field_simp
      linear_combination hdiv - hcancel
    rw [hoff, abs_lt, lt_div_iff₀ hdyRat, div_lt_iff₀ hdyRat]
    constructor <;> linarith

/-- The place on the row is between the ends of the edge. -/
theorem aside_mem (hdy : 0 < q.2 - p.2) (hk : 0 ≤ k) (hk' : k ≤ q.2 - p.2) :
    min p.1 q.1 ≤ p.1 + aside p q k ∧ p.1 + aside p q k ≤ max p.1 q.1 := by
  have hfull : aside p q (q.2 - p.2) = q.1 - p.1 := Int.mul_tdiv_cancel_left _ hdy.ne'
  rcases le_or_gt 0 (q.1 - p.1) with hdx | hdx
  · have hlow : 0 ≤ aside p q k := Int.tdiv_nonneg (Int.mul_nonneg hk hdx) hdy.le
    have hhigh : aside p q k ≤ q.1 - p.1 := by
      rw [← hfull]
      exact Int.tdiv_le_tdiv hdy (Int.mul_le_mul_of_nonneg_right hk' hdx)
    omega
  · have hhigh : aside p q k ≤ 0 := by
      rw [aside, ← Int.zero_tdiv (q.2 - p.2)]
      exact Int.tdiv_le_tdiv hdy (Int.mul_nonpos_of_nonneg_of_nonpos hk hdx.le)
    have hlow : q.1 - p.1 ≤ aside p q k := by
      rw [← hfull]
      exact Int.tdiv_le_tdiv hdy (Int.mul_le_mul_of_nonpos_right hk' hdx.le)
    omega

/-! ## Triangles -/

/-- The pixels of a row from `left` to `right`. -/
structure Row where
  row : Int
  left : Int
  right : Int

/-- One end is near the edge from `p` to `q`, and the other one near the edge from `p'` to `q'`. -/
def Row.Between (r : Row) (p q p' q' : Point) : Prop :=
  Near p q r.left r.row ∧ Near p' q' r.right r.row ∨
    Near p' q' r.left r.row ∧ Near p q r.right r.row

/-- The row goes from one edge of a triangle to another one. -/
def Row.Across (r : Row) (a b c : Point) : Prop :=
  r.Between a b a c ∨ r.Between a b b c ∨ r.Between a c b c

/-- A triangle is filled by one row on each scanline that it meets. -/
structure Filled (a b c : Point) (rows : List Row) : Prop where
  scanlines : rows.map Row.row =
    (List.range (max a.2 (max b.2 c.2) - min a.2 (min b.2 c.2) + 1).toNat).map fun k : Nat =>
      min a.2 (min b.2 c.2) + k
  inside : ∀ r ∈ rows, min a.1 (min b.1 c.1) ≤ r.left ∧ r.left ≤ r.right ∧
    r.right ≤ max a.1 (max b.1 c.1)
  across : ∀ r ∈ rows, r.Across a b c

variable {a b c : Point} {rows : List Row}

theorem Row.Between.swap {r : Row} {p q p' q' : Point} (h : r.Between p q p' q') :
    r.Between p' q' p q := h.symm

theorem Row.Between.flip {r : Row} {p q p' q' : Point} (h : r.Between p q p' q') :
    r.Between q p p' q' :=
  h.imp (fun h => ⟨h.1.symm, h.2⟩) fun h => ⟨h.1, h.2.symm⟩

/-- The order of the corners does not matter. -/
theorem Filled.swap (h : Filled a b c rows) : Filled b a c rows where
  scanlines := by
    rw [min_left_comm, max_left_comm]
    exact h.scanlines
  inside r hr := by
    rw [min_left_comm, max_left_comm]
    exact h.inside r hr
  across r hr := by
    rcases h.across r hr with hr | hr | hr
    · exact Or.inr (Or.inl hr.flip)
    · exact Or.inl hr.flip
    · exact Or.inr (Or.inr hr.swap)

theorem Filled.swap_last (h : Filled a b c rows) : Filled a c b rows where
  scanlines := by
    rw [min_comm c.2, max_comm c.2]
    exact h.scanlines
  inside r hr := by
    rw [min_comm c.1, max_comm c.1]
    exact h.inside r hr
  across r hr := by
    rcases h.across r hr with hr | hr | hr
    · exact Or.inl hr.swap
    · exact Or.inr (Or.inr hr.swap.flip.swap)
    · exact Or.inr (Or.inl hr.swap.flip.swap)

/-- The ends of a row of a triangle, of which `b` is the middle corner: one on the long edge, and
one on the edge above the middle corner or on the edge below it. -/
def ends (a b c : Point) (k : Int) : Int × Int :=
  if a.2 + k < b.2 ∨ b.2 = c.2 then (a.1 + aside a b k, a.1 + aside a c k)
  else (b.1 + aside b c (k - (b.2 - a.2)), a.1 + aside a c k)

/-- A row of a triangle. -/
def rowAt (a b c : Point) (k : Nat) : Row :=
  ⟨a.2 + k, min (ends a b c k).1 (ends a b c k).2, max (ends a b c k).1 (ends a b c k).2⟩

/-- Ends on two edges make a row from one to the other. -/
theorem between_of_near {p q p' q' : Point} {u v : Int} (hu : Near p q u row)
    (hv : Near p' q' v row) : Row.Between ⟨row, min u v, max u v⟩ p q p' q' := by
  rcases le_total u v with hle | hle
  · rw [min_eq_left hle, max_eq_right hle]
    exact Or.inl ⟨hu, hv⟩
  · rw [min_eq_right hle, max_eq_left hle]
    exact Or.inr ⟨hv, hu⟩

section Sorted

variable (hab : a.2 ≤ b.2) (hbc : b.2 ≤ c.2) (hac : a.2 < c.2) (hk : 0 ≤ k) (hk' : k ≤ c.2 - a.2)

include hab hbc hac hk hk'

/-- Where the ends of a row are. -/
theorem ends_mem :
    (min a.1 (min b.1 c.1) ≤ (ends a b c k).1 ∧ (ends a b c k).1 ≤ max a.1 (max b.1 c.1)) ∧
      min a.1 (min b.1 c.1) ≤ (ends a b c k).2 ∧ (ends a b c k).2 ≤ max a.1 (max b.1 c.1) := by
  have hlong := aside_mem (p := a) (q := c) (k := k) (by omega) hk hk'
  rw [ends]
  split
  · next hupper =>
    have hshort := aside_mem (p := a) (q := b) (k := k) (by omega) hk (by omega)
    dsimp only
    omega
  · next hlower =>
    have hshort := aside_mem (p := b) (q := c) (k := k - (b.2 - a.2)) (by omega) (by omega)
      (by omega)
    dsimp only
    omega

omit hab hbc in
/-- The row goes across the triangle. -/
theorem across_ends :
    Row.Across ⟨a.2 + k, min (ends a b c k).1 (ends a b c k).2,
      max (ends a b c k).1 (ends a b c k).2⟩ a b c := by
  have hlong := near_aside (p := a) (q := c) (k := k) (by omega) hk hk'
  rw [ends]
  split
  · next hupper =>
    have hshort := near_aside (p := a) (q := b) (k := k) (by omega) hk (by omega)
    exact Or.inl (between_of_near hshort hlong)
  · next hlower =>
    have hshort := near_aside (p := b) (q := c) (k := k - (b.2 - a.2)) (by omega) (by omega)
      (by omega)
    rw [show b.2 + (k - (b.2 - a.2)) = a.2 + k by omega] at hshort
    exact Or.inr (Or.inr (between_of_near hshort hlong).swap)

end Sorted

/-- The rows of a triangle fill it. -/
theorem filled_rowAt (hab : a.2 ≤ b.2) (hbc : b.2 ≤ c.2) (hac : a.2 < c.2) :
    Filled a b c ((List.range (c.2 - a.2 + 1).toNat).map (rowAt a b c)) where
  scanlines := by
    have htop : min a.2 (min b.2 c.2) = a.2 := by omega
    have hbottom : max a.2 (max b.2 c.2) = c.2 := by omega
    rw [htop, hbottom, List.map_map]
    rfl
  inside := by
    rw [List.forall_mem_map]
    intro k hk
    rw [List.mem_range] at hk
    have hends := ends_mem hab hbc hac (k := k) (by omega) (by omega)
    dsimp only [rowAt]
    omega
  across := by
    rw [List.forall_mem_map]
    intro k hk
    rw [List.mem_range] at hk
    exact across_ends hac (by omega) (by omega)

/-- A flat triangle is filled by the row from its first corner to its last. -/
theorem filled_flat (hab : a.2 = b.2) (hac : a.2 = c.2) :
    Filled a b c [⟨a.2, min a.1 (min b.1 c.1), max a.1 (max b.1 c.1)⟩] where
  scanlines := by
    rw [← hab, ← hac, min_self, min_self, max_self, max_self, Int.sub_self]
    simp
  inside := by
    rw [List.forall_mem_singleton]
    dsimp only
    omega
  across := by
    rw [List.forall_mem_singleton]
    have hcorner : ∀ {p q : Point}, p.2 = a.2 → q.2 = a.2 → Near p q p.1 a.2 := by
      intro p q hp hq
      rcases le_total p.1 q.1 with hle | hle
      · exact near_of_le le_rfl hle hp hq
      · exact (near_of_le hle le_rfl hq hp).symm
    have haab := hcorner (p := a) (q := b) rfl hab.symm
    have haac := hcorner (p := a) (q := c) rfl hac.symm
    have hbab := (hcorner (p := b) (q := a) hab.symm rfl).symm
    have hbbc := hcorner (p := b) (q := c) hab.symm hac.symm
    have hcac := (hcorner (p := c) (q := a) hac.symm rfl).symm
    have hcbc := (hcorner (p := c) (q := b) hac.symm hab.symm).symm
    -- each end is a corner, and a corner is on two of the edges
    have hfirst : min a.1 (min b.1 c.1) = a.1 ∨ min a.1 (min b.1 c.1) = b.1 ∨
        min a.1 (min b.1 c.1) = c.1 := by omega
    have hlast : max a.1 (max b.1 c.1) = a.1 ∨ max a.1 (max b.1 c.1) = b.1 ∨
        max a.1 (max b.1 c.1) = c.1 := by omega
    rcases hfirst with hfirst | hfirst | hfirst <;> rcases hlast with hlast | hlast | hlast <;>
      rw [hfirst, hlast] <;> simp only [Row.Across, Row.Between, haab, haac, hbab, hbbc, hcac, hcbc,
        true_and, and_true, true_or, or_true]

end Edges
