import Mathlib

/-!
# Detection of small errors

A linear check gives every word a syndrome, and an error at some positions adds the
columns of these positions to it.  Where the columns are all different and have odd
parity, an error at one, two or three positions never has the syndrome zero
(`sum_columns_ne_zero`).

The columns of a feedback register are the states it goes through from a seed.  They
are different as long as the seed does not come back (`iterate_injOn`).
-/

namespace Detection

variable {V ι : Type*} [AddCommGroup V]

/-- The parity of a sum of columns is that of their number. -/
theorem parity_sum_columns {col : ι → V} (parity : V →+ ZMod 2) (hodd : ∀ i, parity (col i) = 1)
    (s : Finset ι) : parity (∑ i ∈ s, col i) = s.card := by
  rw [map_sum, Finset.sum_congr rfl fun i _ => hodd i]
  simp

theorem sum_columns_ne_zero {col : ι → V} (two : ∀ v : V, v + v = 0)
    (hcol : Function.Injective col) (parity : V →+ ZMod 2) (hodd : ∀ i, parity (col i) = 1)
    {s : Finset ι} (hne : s.Nonempty) (hcard : s.card ≤ 3) : ∑ i ∈ s, col i ≠ 0 := by
  intro hsum
  have heven : Even s.card := by
    have h := parity_sum_columns parity hodd s
    rw [hsum, map_zero] at h
    exact (ZMod.natCast_eq_zero_iff_even).mp h.symm
  have hpos := hne.card_pos
  have h2 : s.card = 2 := by
    obtain ⟨k, hk⟩ := heven
    omega
  classical
  obtain ⟨i, j, hij, rfl⟩ := Finset.card_eq_two.mp h2
  rw [Finset.sum_pair hij] at hsum
  have heq : col i = col j := by
    rw [eq_neg_of_add_eq_zero_left hsum, neg_eq_of_add_eq_zero_left (two (col j))]
  exact hij (hcol heq)

/-- Where the seed does not come back within `n` steps, the first `n` states differ. -/
theorem iterate_injOn {α : Type*} {f : α → α} (hf : Function.Injective f) {seed : α} {n : Nat}
    (hback : ∀ d, 0 < d → d < n → f^[d] seed ≠ seed) {i j : Nat} (hi : i < n) (hj : j < n)
    (h : f^[i] seed = f^[j] seed) : i = j := by
  rcases Nat.lt_trichotomy i j with hlt | heq | hgt
  · exact absurd (Function.iterate_cancel hf h.symm) (hback _ (by omega) (by omega))
  · exact heq
  · exact absurd (Function.iterate_cancel hf h) (hback _ (by omega) (by omega))

end Detection
