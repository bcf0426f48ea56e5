import Mathlib.Algebra.Order.Ring.Int
import Mathlib.Tactic.ByContra

/-!
# Grids in a line of cells

A grid of `W` columns and `H` rows whose cells are numbers.  What it takes for them to be different
ones of the first `n` (`Own`): for rows one after the other (`own_rows`, `own_rows_mod_iff`), and
for grids that are turned (`own_turned_iff`, `own_reversed`).
-/

namespace Grid

/-- The cells of a grid of `W` columns and `H` rows are different ones of the first `n`. -/
structure Own (W H n : Int) (cell : Int → Int → Int) : Prop where
  lands : ∀ x y, 0 ≤ x → x < W → 0 ≤ y → y < H → 0 ≤ cell x y ∧ cell x y < n
  injective : ∀ x y x' y', 0 ≤ x → x < W → 0 ≤ y → y < H → 0 ≤ x' → x' < W → 0 ≤ y' → y' < H →
    cell x y = cell x' y' → x = x' ∧ y = y'

/-- A grid of rows that do not overlap. -/
theorem own_rows {W H S n : Int} (hS : 0 ≤ S) (hrows : W ≤ S ∨ H ≤ 1)
    (hlast : (H - 1) * S + W ≤ n) : Own W H n fun x y => y * S + x where
  lands x y hx hW hy hH := by
    have hnonneg : 0 ≤ y * S := Int.mul_nonneg hy hS
    have hle : y * S ≤ (H - 1) * S := Int.mul_le_mul_of_nonneg_right (by omega) hS
    omega
  injective x y x' y' hx hW hy hH hx' hW' hy' hH' h := by
    rcases hrows with hrows | hrows
    · have hrow : y = y' := by
        have hdiv : (x + y * S) / S = (x' + y' * S) / S := by
          rw [Int.add_comm x, Int.add_comm x', h]
        rwa [Int.add_mul_ediv_right _ _ (by omega), Int.add_mul_ediv_right _ _ (by omega),
          Int.ediv_eq_zero_of_lt hx (by omega), Int.ediv_eq_zero_of_lt hx' (by omega),
          Int.zero_add, Int.zero_add] at hdiv
      subst hrow
      exact ⟨by omega, rfl⟩
    · obtain rfl : y = 0 := by omega
      obtain rfl : y' = 0 := by omega
      exact ⟨by omega, rfl⟩

/-- A grid that is another one, turned. -/
theorem Own.turned {W H W' H' n : Int} {cell : Int → Int → Int} {u v : Int → Int → Int}
    (h : Own W H n cell)
    (hin : ∀ x y, 0 ≤ x → x < W' → 0 ≤ y → y < H' →
      0 ≤ u x y ∧ u x y < W ∧ 0 ≤ v x y ∧ v x y < H)
    (hinj : ∀ x y x' y', u x y = u x' y' → v x y = v x' y' → x = x' ∧ y = y') :
    Own W' H' n fun x y => cell (u x y) (v x y) where
  lands x y hx hW hy hH := by
    obtain ⟨hu, hW', hv, hH'⟩ := hin x y hx hW hy hH
    exact h.lands _ _ hu hW' hv hH'
  injective x y x' y' hx hW hy hH hx' hW' hy' hH' heq := by
    obtain ⟨hu, huW, hv, hvH⟩ := hin x y hx hW hy hH
    obtain ⟨hu', huW', hv', hvH'⟩ := hin x' y' hx' hW' hy' hH'
    obtain ⟨hsame, hsame'⟩ := h.injective _ _ _ _ hu huW hv hvH hu' huW' hv' hvH' heq
    exact hinj x y x' y' hsame hsame'

/-- Rows that are addressed modulo `m` do not overlap, and the last one ends in the first `n`. -/
theorem own_rows_mod_iff {W H S n m : Int} (hW : 0 < W) (hW' : W ≤ m) (hH : 0 < H) (hS : 0 ≤ S)
    (hm : n + S ≤ m) :
    (Own W H n fun x y => (y * S + x) % m) ↔
      (W ≤ S ∨ H ≤ 1) ∧ (H - 1) * S + W ≤ n := by
  constructor
  · intro h
    refine ⟨?_, ?_⟩
    · -- otherwise the first row reaches into the second one
      by_contra! hrows
      have hsame : (0 * S + S) % m = (1 * S + 0) % m := by
        rw [Int.zero_mul, Int.one_mul, Int.zero_add, Int.add_zero]
      have hrow := h.injective S 0 0 1 hS hrows.1 (by omega) hH (by omega) hW (by omega) hrows.2
        hsame
      omega
    · have hends : ∀ k : Nat, (k : Int) < H → k * S + W ≤ n := by
        intro k
        induction k with
        | zero =>
            intro _
            have hland := (h.lands (W - 1) 0 (by omega) (by omega) (by omega) hH).2
            rw [Int.zero_mul, Int.zero_add, Int.emod_eq_of_lt (by omega) (by omega)] at hland
            omega
        | succ k ih =>
            intro hk
            have hbefore := ih (by omega)
            have hland := (h.lands (W - 1) (k + 1 : Nat) (by omega) (by omega) (by omega) hk).2
            have hnonneg : 0 ≤ (k : Int) * S := Int.mul_nonneg (by omega) hS
            have hrow : ((k + 1 : Nat) : Int) * S = k * S + S := by
              rw [Int.natCast_succ, Int.add_mul, Int.one_mul]
            rw [hrow] at hland ⊢
            rw [Int.emod_eq_of_lt (by omega) (by omega)] at hland
            omega
      have hlast := hends (H - 1).toNat (by omega)
      rwa [Int.toNat_of_nonneg (by omega)] at hlast
  · rintro ⟨hrows, hlast⟩
    have hown := own_rows hS hrows hlast
    have hmod : ∀ x y, 0 ≤ x → x < W → 0 ≤ y → y < H → (y * S + x) % m = y * S + x := by
      intro x y hx hxW hy hyH
      have hland := hown.lands x y hx hxW hy hyH
      exact Int.emod_eq_of_lt hland.1 (by omega)
    refine ⟨fun x y hx hxW hy hyH => ?_, fun x y x' y' hx hxW hy hyH hx' hxW' hy' hyH' heq => ?_⟩
    · rw [hmod x y hx hxW hy hyH]
      exact hown.lands x y hx hxW hy hyH
    · rw [hmod x y hx hxW hy hyH, hmod x' y' hx' hxW' hy' hyH'] at heq
      exact hown.injective x y x' y' hx hxW hy hyH hx' hxW' hy' hyH' heq

/-- A grid that is turned on its side, in its own size, has its cells where a square has them. -/
theorem own_turned_iff {W H : Int} (hW : 0 < W) (hH : 0 < H) :
    (Own W H (W * H) fun x y => x * W + (W - 1 - y)) ↔ W = H := by
  constructor
  · intro h
    rcases Int.lt_trichotomy W H with hlt | heq | hgt
    · -- the cell below the first `W` rows is in front of the first row
      have hland := (h.lands 0 W (by omega) hW (by omega) hlt).1
      omega
    · exact heq
    · have hland := (h.lands (W - 1) 0 (by omega) (by omega) (by omega) hH).2
      have hle : W * H ≤ W * (W - 1) := Int.mul_le_mul_of_nonneg_left (by omega) (by omega)
      rw [Int.mul_comm (W - 1)] at hland
      omega
  · rintro rfl
    refine (own_rows (W := W) (H := W) (S := W) (by omega) (Or.inl (by omega)) ?_).turned
      (u := fun _ y => W - 1 - y) (v := fun x _ => x) (by omega) (by omega)
    rw [Int.sub_mul]
    omega

/-- The same for the other side. -/
theorem own_turned_back_iff {W H : Int} (hW : 0 < W) (hH : 0 < H) :
    (Own W H (W * H) fun x y => (H - 1 - x) * W + y) ↔ W = H := by
  constructor
  · intro h
    rcases Int.lt_trichotomy W H with hlt | heq | hgt
    · have hland := (h.lands 0 (H - 1) (by omega) hW (by omega) (by omega)).2
      have hcells : (H - 1 - 0) * W = W * H - W := by
        rw [Int.sub_zero, Int.sub_mul, Int.one_mul, Int.mul_comm]
      omega
    · exact heq
    · -- the cell right of the first `H` columns is above the first row
      have hland := (h.lands H 0 (by omega) hgt (by omega) hH).1
      have hcells : (H - 1 - H) * W = -W := by
        rw [show H - 1 - H = -1 by omega, Int.neg_mul, Int.one_mul]
      omega
  · rintro rfl
    refine (own_rows (W := W) (H := W) (S := W) (by omega) (Or.inl (by omega)) ?_).turned
      (u := fun _ y => y) (v := fun x _ => W - 1 - x) (by omega) (by omega)
    rw [Int.sub_mul]
    omega

/-- A grid upside down. -/
theorem own_reversed (W H : Int) :
    Own W H (W * H) fun x y => (H - 1 - y) * W + (W - 1 - x) := by
  rcases lt_or_ge W 0 with hneg | hW
  · exact ⟨by omega, by omega⟩
  · refine (own_rows (W := W) (H := H) (S := W) hW (Or.inl (by omega)) ?_).turned
      (u := fun x _ => W - 1 - x) (v := fun _ y => H - 1 - y) (by omega) (by omega)
    rw [Int.sub_mul, Int.mul_comm H]
    omega

end Grid
