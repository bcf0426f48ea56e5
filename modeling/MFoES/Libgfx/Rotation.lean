import Mathlib.Algebra.Ring.Parity
import MFoES.Lib.Grid
import MFoES.Libgfx.Spans

/-!
# Rotated surfaces

`setRotation` swaps the width and the height whenever the rotation is odd, also where they are
swapped already.  So the size depends on every call, and is what the last rotation says only where
an even number of odd ones came before it (`upright_iff`).

A device addresses its pixels by the swapped size without turning them, and a canvas turns them in
the swapped size.  Where this still gives every pixel an element of its own in the buffer depends
on the two sides and the stride (`addressing_iff`).
-/

namespace MFoES.Libgfx

open Grid (Own own_rows)

variable {F : Type}

/-! ## The size -/

/-- A rotation that lies on its side. -/
def oddRotation (r : UInt8) : Bool := decide (r % 4 = 1 ∨ r % 4 = 3)

namespace LinuxGFX

/-- Calls of `setRotation` in turn. -/
def setRotations (g : LinuxGFX F) (rs : List UInt8) : LinuxGFX F := rs.foldl setRotation g

/-- The size is the native one, swapped exactly where the last rotation is odd. -/
def Upright (g : LinuxGFX F) (rs : List UInt8) : Prop :=
  (g.setRotations rs).size = if oddRotation (rs.getLastD 0) then g.size.swap else g.size

theorem setRotation_size' (g : LinuxGFX F) (r : UInt8) :
    (g.setRotation r).size = if oddRotation r then g.size.swap else g.size := by
  rw [setRotation_size]
  simp only [oddRotation, decide_eq_true_eq]

/-- Every odd rotation swaps the size. -/
theorem setRotations_size (g : LinuxGFX F) (rs : List UInt8) :
    (g.setRotations rs).size = Prod.swap^[rs.countP oddRotation] g.size := by
  induction rs generalizing g with
  | nil => rfl
  | cons r rs ih =>
      show ((g.setRotation r).setRotations rs).size = _
      rw [ih, setRotation_size', List.countP_cons]
      split
      · rw [Function.iterate_succ_apply]
      · rfl

theorem swap_eq_self_iff {s : Int16 × Int16} : s.swap = s ↔ s.1 = s.2 := by
  rw [Prod.ext_iff]
  exact ⟨fun h => h.2, fun h => ⟨h.symm, h⟩⟩

theorem setRotations_append (g : LinuxGFX F) (rs : List UInt8) (r : UInt8) :
    g.setRotations (rs ++ [r]) = (g.setRotations rs).setRotation r := by
  rw [setRotations, List.foldl_append]
  rfl

/-- The size is what the last rotation says exactly where the odd rotations before it are of an
even number, or the surface is a square. -/
theorem upright_iff (g : LinuxGFX F) (rs : List UInt8) :
    g.Upright rs ↔ Even (rs.dropLast.countP oddRotation) ∨ g.width = g.height := by
  have hswap : Function.Involutive (Prod.swap : Int16 × Int16 → Int16 × Int16) := Prod.swap_swap
  have hsquare : g.size.swap = g.size ↔ g.width = g.height := swap_eq_self_iff
  induction rs using List.reverseRecOn with
  | nil => exact iff_of_true rfl (Or.inl (by simp))
  | append_singleton rs r _ =>
      rw [Upright, setRotations_append, setRotation_size', setRotations_size,
        List.getLastD_concat, List.dropLast_concat]
      rcases Nat.even_or_odd (rs.countP oddRotation) with heven | hodd
      · rw [hswap.iterate_even heven]
        exact iff_of_true rfl (Or.inl heven)
      · rw [hswap.iterate_odd hodd, or_iff_right (Nat.not_even_iff_odd.mpr hodd), ← hsquare]
        split
        · rw [Prod.swap_swap, eq_comm]
        · exact Iff.rfl

/-- Turned on its side twice, the screen has its native size and not the one of its rotation. -/
theorem not_upright_twice : ¬ landscape.gfx.Upright [1, 1] := by
  unfold Upright
  decide

/-- The sides are the native ones, in one order or the other. -/
theorem setRotations_sides (g : LinuxGFX F) (rs : List UInt8) :
    (g.setRotations rs).width = g.width ∧ (g.setRotations rs).height = g.height ∨
      (g.setRotations rs).width = g.height ∧ (g.setRotations rs).height = g.width := by
  have hsize := setRotations_size g rs
  have hswap : Function.Involutive (Prod.swap : Int16 × Int16 → Int16 × Int16) := Prod.swap_swap
  rcases Nat.even_or_odd (rs.countP oddRotation) with heven | hodd
  · rw [hswap.iterate_even heven] at hsize
    exact Or.inl (Prod.ext_iff.mp hsize)
  · rw [hswap.iterate_odd hodd] at hsize
    exact Or.inr (Prod.ext_iff.mp hsize)

/-- The rotation is the last one. -/
theorem setRotations_rotation {g : LinuxGFX F} (hg : g.rotation = 0) (rs : List UInt8) :
    (g.setRotations rs).rotation = rs.getLastD 0 % 4 := by
  induction rs using List.reverseRecOn with
  | nil => exact hg
  | append_singleton rs r _ =>
      rw [setRotations_append, List.getLastD_concat, setRotation]
      split <;> rfl

end LinuxGFX

/-! ## Pixels of a rotated surface -/

theorem toNat_toUInt16 {v : Int16} (h : 0 < v.toInt) : (v.toUInt16.toNat : Int) = v.toInt := by
  have hle : 0 ≤ v := Int16.le_iff_toInt_le.mpr (Int.le_of_lt h)
  rw [Int16.toNat_toUInt16_of_le hle, Int16.toNatClampNeg]
  exact Int.toNat_of_nonneg (Int.le_of_lt h)

namespace Surface

variable (t : Surface F)

/-- The surface after calls of `setRotation`. -/
def turn (rs : List UInt8) : Surface F := { t with gfx := t.gfx.setRotations rs }

/-- There is a buffer. -/
def allocated : Bool :=
  match t.backing with
  | .device _ mapped => mapped
  | .canvas _ allocated => allocated

/-- The pixels that there is room for: a device says how many bytes it has, and a canvas asks for
those of its size. -/
def capacity (bytes : UInt32) : Nat :=
  match t.backing with
  | .device _ _ => bytes.toNat / 4
  | .canvas _ _ => t.gfx.width.toUInt16.toNat * t.gfx.height.toUInt16.toNat

/-- The cell that `setPixel` sets, in the clip. -/
def setPixelCell (x y : Int16) : Int :=
  match t.backing with
  | .device pitch _ => deviceCell pitch x y
  | .canvas _ _ => t.rawCell x y

/-- The pixels in the clip have different cells of the first `n`. -/
structure OwnCells (n : Nat) (cell : Int16 → Int16 → Int) : Prop where
  lands : ∀ x y, t.gfx.inside x y = true → 0 ≤ cell x y ∧ cell x y < n
  injective : ∀ x y x' y', t.gfx.inside x y = true → t.gfx.inside x' y' = true →
    cell x y = cell x' y' → x = x' ∧ y = y'

/-- A pixel in the clip has a cell of its own in a buffer of `n`, which is where `drawPixel` sets
it and `getPixel` reads it; and where `setPixel` sets it. -/
structure Addressing (n : Nat) : Prop where
  get : t.OwnCells n t.getPixelCell
  set : t.OwnCells n t.setPixelCell
  drawPixel : ∀ x y color, t.gfx.inside x y = true → alpha color ≠ 0 →
    t.drawPixel x y color = [spanStore color (t.getPixelCell x y)]
  setPixel : ∀ x y ink, t.gfx.inside x y = true →
    t.setPixel x y ink = [⟨t.setPixelCell x y, ink⟩]

/-- Where the size that the rotations leave still has its pixels in the buffer. -/
def Addressable (bytes : UInt32) (rs : List UInt8) : Prop :=
  (t.turn rs).gfx.width.toInt ≤ 0 ∨ (t.turn rs).gfx.height.toInt ≤ 0 ∨
    match t.backing with
    | .device pitch _ =>
        ((t.turn rs).gfx.width.toInt ≤ (pitch / 4).toNat ∨ (t.turn rs).gfx.height.toInt ≤ 1) ∧
          ((t.turn rs).gfx.height.toInt - 1) * (pitch / 4).toNat + (t.turn rs).gfx.width.toInt ≤
            (bytes.toNat / 4 : Nat)
    | .canvas _ _ => oddRotation (rs.getLastD 0) = false ∨ t.gfx.width = t.gfx.height

variable {t}

theorem ownCells_iff {n : Nat} {cell : Int16 → Int16 → Int} {f : Int → Int → Int}
    (hf : ∀ x y, t.gfx.inside x y = true → cell x y = f x.toInt y.toInt) :
    t.OwnCells n cell ↔ Own t.gfx.width.toInt t.gfx.height.toInt n f := by
  have hwidth := t.gfx.width.toInt_lt
  have hheight := t.gfx.height.toInt_lt
  have hof : ∀ x y : Int, 0 ≤ x → x < t.gfx.width.toInt → 0 ≤ y → y < t.gfx.height.toInt →
      t.gfx.inside (Int16.ofInt x) (Int16.ofInt y) = true ∧
        cell (Int16.ofInt x) (Int16.ofInt y) = f x y := by
    intro x y hx hW hy hH
    have hxt : (Int16.ofInt x).toInt = x := Int16.toInt_ofInt_of_le (by omega) (by omega)
    have hyt : (Int16.ofInt y).toInt = y := Int16.toInt_ofInt_of_le (by omega) (by omega)
    have hin : t.gfx.inside (Int16.ofInt x) (Int16.ofInt y) = true := by
      rw [inside_iff, hxt, hyt]
      exact ⟨hx, hW, hy, hH⟩
    exact ⟨hin, by rw [hf _ _ hin, hxt, hyt]⟩
  constructor
  · intro h
    refine ⟨fun x y hx hW hy hH => ?_, fun x y x' y' hx hW hy hH hx' hW' hy' hH' heq => ?_⟩
    · obtain ⟨hin, hcell⟩ := hof x y hx hW hy hH
      have hland := h.lands _ _ hin
      rwa [hcell] at hland
    · obtain ⟨hin, hcell⟩ := hof x y hx hW hy hH
      obtain ⟨hin', hcell'⟩ := hof x' y' hx' hW' hy' hH'
      rw [← hcell, ← hcell'] at heq
      obtain ⟨hsame, hsame'⟩ := h.injective _ _ _ _ hin hin' heq
      rw [← Int16.toInt_inj, Int16.toInt_ofInt_of_le (by omega) (by omega),
        Int16.toInt_ofInt_of_le (by omega) (by omega)] at hsame hsame'
      exact ⟨hsame, hsame'⟩
  · intro h
    refine ⟨fun x y hin => ?_, fun x y x' y' hin hin' heq => ?_⟩
    · obtain ⟨hx, hW, hy, hH⟩ := inside_iff.mp hin
      rw [hf x y hin]
      exact h.lands _ _ hx hW hy hH
    · obtain ⟨hx, hW, hy, hH⟩ := inside_iff.mp hin
      obtain ⟨hx', hW', hy', hH'⟩ := inside_iff.mp hin'
      rw [hf x y hin, hf x' y' hin'] at heq
      obtain ⟨hsame, hsame'⟩ := h.injective _ _ _ _ hx hW hy hH hx' hW' hy' hH' heq
      exact ⟨Int16.toInt_inj.mp hsame, Int16.toInt_inj.mp hsame'⟩

/-- Without a pixel there is nothing to address. -/
theorem ownCells_of_empty (h : t.gfx.width.toInt ≤ 0 ∨ t.gfx.height.toInt ≤ 0) (n : Nat)
    (cell : Int16 → Int16 → Int) : t.OwnCells n cell := by
  have hnone : ∀ x y, t.gfx.inside x y ≠ true := by
    intro x y hin
    rw [inside_iff] at hin
    omega
  exact ⟨fun x y hin => (hnone x y hin).elim, fun x y _ _ hin => (hnone x y hin).elim⟩

/-- `drawPixel` and `getPixel` agree, as do `setPixel` and the cell that it is said to set. -/
theorem addressing_iff_own (halloc : t.allocated = true) {n : Nat} :
    t.Addressing n ↔ t.OwnCells n t.getPixelCell ∧ t.OwnCells n t.setPixelCell := by
  refine ⟨fun h => ⟨h.get, h.set⟩, fun h => ⟨h.1, h.2, ?_, ?_⟩⟩
  · intro x y color hin hcolor
    cases hb : t.backing with
    | device pitch mapped =>
        have hmapped : mapped = true := by simpa [allocated, hb] using halloc
        simp [Surface.drawPixel, Surface.writePixel, Surface.setPixel, getPixelCell, spanStore, hb,
          hin, hcolor, hmapped]
        split <;> rfl
    | canvas format a =>
        have ha : a = true := by simpa [allocated, hb] using halloc
        simp [Surface.drawPixel, Surface.setPixelRaw, getPixelCell, hb, hin, hcolor, ha]
  · intro x y ink hin
    cases hb : t.backing with
    | device pitch mapped =>
        have hmapped : mapped = true := by simpa [allocated, hb] using halloc
        simp [Surface.setPixel, setPixelCell, hb, hin, hmapped]
    | canvas format a =>
        have ha : a = true := by simpa [allocated, hb] using halloc
        simp [Surface.setPixel, setPixelCell, hb, hin, ha]

/-- A device addresses its pixels row by row, in 32 bits. -/
theorem ownCells_device_iff (pitch : UInt32) {n : Nat} (hn : n ≤ 2 ^ 30)
    (hW : 0 < t.gfx.width.toInt) (hH : 0 < t.gfx.height.toInt) :
    t.OwnCells n (deviceCell pitch) ↔
      (t.gfx.width.toInt ≤ (pitch / 4).toNat ∨ t.gfx.height.toInt ≤ 1) ∧
        (t.gfx.height.toInt - 1) * (pitch / 4).toNat + t.gfx.width.toInt ≤ n := by
  have hstride : (pitch / 4).toNat ≤ 2 ^ 30 := by
    have hlt := pitch.toNat_lt
    rw [UInt32.toNat_div]
    show pitch.toNat / 4 ≤ 2 ^ 30
    omega
  have hcell : ∀ x y, t.gfx.inside x y = true →
      deviceCell pitch x y = (y.toInt * (pitch / 4).toNat + x.toInt) % 2 ^ 32 := by
    intro x y hin
    obtain ⟨hx, _, hy, _⟩ := inside_iff.mp hin
    rw [deviceCell, UInt32.toNat_add, UInt32.toNat_mul, toNat_u32 hx, toNat_u32 hy,
      Nat.mod_add_mod, Int.natCast_mod, Int.natCast_add, Int.natCast_mul, Int.toNat_of_nonneg hx,
      Int.toNat_of_nonneg hy]
    rfl
  rw [ownCells_iff (f := fun x y => (y * (pitch / 4).toNat + x) % 2 ^ 32) hcell]
  have hwidth := t.gfx.width.toInt_lt
  exact Grid.own_rows_mod_iff hW (by omega) hH (by omega) (by omega)

/-- A canvas sets its pixels row by row, whatever the rotation. -/
theorem ownCells_rawCell {n : Nat} (hn : (n : Int) = t.gfx.width.toInt * t.gfx.height.toInt) :
    t.OwnCells n t.rawCell := by
  refine (ownCells_iff (f := fun x y => y * t.gfx.width.toInt + x) fun _ _ _ => rfl).mpr ?_
  rw [hn]
  rcases lt_or_ge t.gfx.width.toInt 0 with hneg | hW
  · exact ⟨by omega, by omega⟩
  · refine own_rows hW (Or.inl (Int.le_refl _)) ?_
    rw [Int.sub_mul, Int.mul_comm]
    omega

/-- Where `getPixel` reads a canvas depends on its rotation. -/
theorem ownCells_rotated_iff {n : Nat} (hn : (n : Int) = t.gfx.width.toInt * t.gfx.height.toInt)
    (hW : 0 < t.gfx.width.toInt) (hH : 0 < t.gfx.height.toInt) :
    (t.OwnCells n fun x y => t.rawCell (t.rotated x y).1 (t.rotated x y).2) ↔
      (t.gfx.rotation = 1 ∨ t.gfx.rotation = 3 → t.gfx.width = t.gfx.height) := by
  have hwidth := t.gfx.width.toInt_lt
  have hheight := t.gfx.height.toInt_lt
  have hback : ∀ side v : Int16, 0 < side.toInt → 0 ≤ v.toInt →
      (side - 1 - v).toInt = side.toInt - 1 - v.toInt := by
    intro side v hside hv
    have hlt := side.toInt_lt
    have hlt' := v.toInt_lt
    have hpred := toInt_pred (i := side) (by omega)
    rw [toInt_sub_of (by omega) (by omega), hpred]
  rw [← Int16.toInt_inj]
  by_cases h1 : t.gfx.rotation = 1
  · rw [ownCells_iff (f := fun x y => x * t.gfx.width.toInt + (t.gfx.width.toInt - 1 - y)), hn,
      Grid.own_turned_iff hW hH, imp_iff_right (Or.inl h1)]
    intro x y hin
    obtain ⟨_, _, hy, _⟩ := inside_iff.mp hin
    rw [rotated, if_pos h1, rawCell, hback _ _ hW hy]
  · by_cases h2 : t.gfx.rotation = 2
    · rw [ownCells_iff (f := fun x y => (t.gfx.height.toInt - 1 - y) * t.gfx.width.toInt +
        (t.gfx.width.toInt - 1 - x)), hn]
      · have hflat : ¬ (t.gfx.rotation = 1 ∨ t.gfx.rotation = 3) := by rw [h2]; decide
        exact iff_of_true (Grid.own_reversed _ _) fun h => (hflat h).elim
      · intro x y hin
        obtain ⟨hx, _, hy, _⟩ := inside_iff.mp hin
        rw [rotated, if_neg h1, if_pos h2, rawCell, hback _ _ hW hx, hback _ _ hH hy]
    · by_cases h3 : t.gfx.rotation = 3
      · rw [ownCells_iff (f := fun x y => (t.gfx.height.toInt - 1 - x) * t.gfx.width.toInt + y), hn,
          Grid.own_turned_back_iff hW hH, imp_iff_right (Or.inr h3)]
        intro x y hin
        obtain ⟨hx, _, _, _⟩ := inside_iff.mp hin
        rw [rotated, if_neg h1, if_neg h2, if_pos h3, rawCell, hback _ _ hH hx]
      · have hplain : (fun x y => t.rawCell (t.rotated x y).1 (t.rotated x y).2) = t.rawCell := by
          funext x y
          rw [rotated, if_neg h1, if_neg h2, if_neg h3]
        rw [hplain]
        exact iff_of_true (ownCells_rawCell hn) fun h => (h.elim h1 h3).elim

/-- What a surface needs, where it has pixels at all. -/
theorem addressing_turn_iff {bytes : UInt32} {rs : List UInt8} (hrot : t.gfx.rotation = 0)
    (halloc : t.allocated = true) (hW : 0 < (t.turn rs).gfx.width.toInt)
    (hH : 0 < (t.turn rs).gfx.height.toInt) :
    (t.turn rs).Addressing (t.capacity bytes) ↔
      match t.backing with
      | .device pitch _ =>
          ((t.turn rs).gfx.width.toInt ≤ (pitch / 4).toNat ∨ (t.turn rs).gfx.height.toInt ≤ 1) ∧
            ((t.turn rs).gfx.height.toInt - 1) * (pitch / 4).toNat +
              (t.turn rs).gfx.width.toInt ≤ (bytes.toNat / 4 : Nat)
      | .canvas _ _ => oddRotation (rs.getLastD 0) = false ∨ t.gfx.width = t.gfx.height := by
  have hturned : (t.turn rs).allocated = true := halloc
  rw [addressing_iff_own hturned]
  cases hb : t.backing with
  | device pitch mapped =>
      have hcell : (t.turn rs).getPixelCell = deviceCell pitch := by
        funext x y
        simp [getPixelCell, turn, hb]
      have hcell' : (t.turn rs).setPixelCell = deviceCell pitch := by
        funext x y
        simp [setPixelCell, turn, hb]
      have hroom : t.capacity bytes = bytes.toNat / 4 := by simp [capacity, hb]
      have hlt := bytes.toNat_lt
      rw [hcell, hcell', hroom, and_self_iff]
      exact ownCells_device_iff pitch (by omega) hW hH
  | canvas format a =>
      have hcell : (t.turn rs).getPixelCell = fun x y =>
          (t.turn rs).rawCell ((t.turn rs).rotated x y).1 ((t.turn rs).rotated x y).2 := by
        funext x y
        simp [getPixelCell, turn, hb]
      have hcell' : (t.turn rs).setPixelCell = (t.turn rs).rawCell := by
        funext x y
        simp [setPixelCell, turn, hb]
      have hroom : (t.capacity bytes : Int) =
          (t.turn rs).gfx.width.toInt * (t.turn rs).gfx.height.toInt := by
        simp only [capacity, hb, Int.natCast_mul]
        rcases LinuxGFX.setRotations_sides t.gfx rs with ⟨hw, hh⟩ | ⟨hw, hh⟩
        · rw [turn, hw] at hW
          rw [turn, hh] at hH
          rw [turn, hw, hh, toNat_toUInt16 hW, toNat_toUInt16 hH]
        · rw [turn, hw] at hW
          rw [turn, hh] at hH
          rw [turn, hw, hh, toNat_toUInt16 hW, toNat_toUInt16 hH, Int.mul_comm]
      have hsquare : (t.turn rs).gfx.width = (t.turn rs).gfx.height ↔
          t.gfx.width = t.gfx.height := by
        rcases LinuxGFX.setRotations_sides t.gfx rs with ⟨hw, hh⟩ | ⟨hw, hh⟩
        · rw [turn, hw, hh]
        · rw [turn, hw, hh, eq_comm]
      have hodd : ((t.turn rs).gfx.rotation = 1 ∨ (t.turn rs).gfx.rotation = 3) ↔
          oddRotation (rs.getLastD 0) = true := by
        rw [turn, LinuxGFX.setRotations_rotation hrot, oddRotation, decide_eq_true_eq]
      rw [hcell, hcell', and_iff_left (ownCells_rawCell hroom), ownCells_rotated_iff hroom hW hH,
        hodd, hsquare, imp_iff_not_or, Bool.not_eq_true]

/-- A surface whose size rotations have changed has its pixels in the buffer exactly where the size
that they leave fits it: on a device, which does not turn them, for its stride and its length; on a
canvas, which turns them in that size, where it lies flat or is a square. -/
theorem addressing_iff (bytes : UInt32) (rs : List UInt8) (hrot : t.gfx.rotation = 0)
    (halloc : t.allocated = true) :
    (t.turn rs).Addressing (t.capacity bytes) ↔ t.Addressable bytes rs := by
  rw [Addressable]
  by_cases hempty : (t.turn rs).gfx.width.toInt ≤ 0 ∨ (t.turn rs).gfx.height.toInt ≤ 0
  · have hturned : (t.turn rs).allocated = true := halloc
    rw [← or_assoc, addressing_iff_own hturned]
    exact iff_of_true ⟨ownCells_of_empty hempty _ _, ownCells_of_empty hempty _ _⟩
      (Or.inl hempty)
  · rw [not_or] at hempty
    rw [or_iff_right hempty.1, or_iff_right hempty.2]
    exact addressing_turn_iff hrot halloc (Int.not_le.mp hempty.1) (Int.not_le.mp hempty.2)

/-- Upside down the screen has its pixels where it had them. -/
theorem addressing_landscape : (landscape.turn [2]).Addressing (landscape.capacity 307200) :=
  (addressing_iff 307200 [2] rfl rfl).mpr
    (Or.inr (Or.inr ⟨Or.inl (by decide), by decide⟩))

/-- On its side the screen has pixels below its buffer. -/
theorem not_addressing_landscape :
    ¬ (landscape.turn [1]).Addressing (landscape.capacity 307200) := by
  intro h
  have hland := h.get.lands 0 240 (by decide)
  revert hland
  decide

end Surface

end MFoES.Libgfx
