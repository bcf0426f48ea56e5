import MFoES.Libgfx.Surface

/-!
# Spans of a device

Where a device has a draw buffer, its spans are written into it without going through
`writePixel`.  What they store is what `writePixel` stores for each pixel of the span
(`writeFastHLine_eq`, `writeFastVLine_eq`), as long as the end of a column does not wrap.
-/

namespace MFoES.Libgfx

variable {F : Type}

/-! ## Coordinates -/

theorem toNat_u32 {v : Int16} (h : 0 ≤ v.toInt) : (u32 v).toNat = v.toInt.toNat := by
  have hlt := v.toInt_lt
  rw [u32, UInt32.ofInt, UInt32.toNat_ofNat']
  omega

theorem toInt_max (a b : Int16) : (max a b).toInt = max a.toInt b.toInt := by
  have hmax : max a b = if a ≤ b then b else a := rfl
  rw [hmax]
  split
  · next h =>
    rw [Int16.le_iff_toInt_le] at h
    omega
  · next h =>
    rw [Int16.le_iff_toInt_le] at h
    omega

theorem toInt_max_nonneg (a : Int16) : 0 ≤ (max 0 a).toInt := by
  rw [toInt_max]
  exact Int.le_max_left 0 a.toInt

theorem toInt_min (a b : Int16) : (min a b).toInt = min a.toInt b.toInt := by
  have hmin : min a b = if a ≤ b then a else b := rfl
  rw [hmin]
  split
  · next h =>
    rw [Int16.le_iff_toInt_le] at h
    omega
  · next h =>
    rw [Int16.le_iff_toInt_le] at h
    omega

theorem toInt_min_le (a b : Int16) : (min a b).toInt ≤ a.toInt := by
  rw [toInt_min]
  exact Int.min_le_left _ _

theorem toInt_ite_lt (a b : Int16) : (if a < b then a else b).toInt = min a.toInt b.toInt := by
  split
  · next h =>
    rw [Int16.lt_iff_toInt_lt] at h
    omega
  · next h =>
    rw [Int16.lt_iff_toInt_lt] at h
    omega

theorem inside_iff {g : LinuxGFX F} {x y : Int16} :
    g.inside x y = true ↔
      0 ≤ x.toInt ∧ x.toInt < g.width.toInt ∧ 0 ≤ y.toInt ∧ y.toInt < g.height.toInt := by
  simp [LinuxGFX.inside, Int16.le_iff_toInt_le, Int16.lt_iff_toInt_lt, and_assoc]

theorem not_inside_iff {g : LinuxGFX F} {x y : Int16} :
    g.inside x y = false ↔
      x.toInt < 0 ∨ g.width.toInt ≤ x.toInt ∨ y.toInt < 0 ∨ g.height.toInt ≤ y.toInt := by
  rw [← Bool.not_eq_true, inside_iff]
  omega

/-! ## Pixels of a device -/

/-- A loop whose passes make something between `lo` and `hi` only. -/
theorem flatMap_range {α : Type} {f : Nat → List α} {lo hi n : Nat} (hlo : lo ≤ hi) (hhi : hi ≤ n)
    (hbefore : ∀ k < lo, f k = []) (hafter : ∀ k, hi ≤ k → k < n → f k = []) :
    (List.range n).flatMap f = (List.range (hi - lo)).flatMap fun k => f (lo + k) := by
  obtain ⟨m, rfl⟩ := Nat.exists_eq_add_of_le hhi
  obtain ⟨l, rfl⟩ := Nat.exists_eq_add_of_le hlo
  have hfirst : (List.range lo).flatMap f = [] :=
    List.flatMap_eq_nil_iff.mpr fun k hk => hbefore k (List.mem_range.mp hk)
  have hrest : (List.range m).flatMap (fun k => f (lo + l + k)) = [] :=
    List.flatMap_eq_nil_iff.mpr fun k hk =>
      hafter _ (Nat.le_add_right _ _) (Nat.add_lt_add_left (List.mem_range.mp hk) _)
  rw [List.range_add, List.range_add, List.flatMap_append, List.flatMap_append, List.flatMap_map,
    List.flatMap_map, hfirst, hrest, List.nil_append, List.append_nil, Nat.add_sub_cancel_left]

namespace Surface

theorem writePixel_outside {t : Surface F} {x y : Int16} (h : t.gfx.inside x y = false)
    (color : UInt32) : t.writePixel x y color = [] := by
  rw [Surface.writePixel, if_pos (Or.inr h)]

/-- Of the pixels of a column those in the clip are written. -/
theorem flatMap_clipped (t : Surface F) (x : Int16) {y : Int16} {last : Int} (hreach : last ≤ 32767)
    (color : UInt32) :
    (List.range (last - y.toInt).toNat).flatMap
        (fun k => t.writePixel x (y + Int16.ofNat k) color) =
      (List.range (min t.gfx.height.toInt last - max 0 y.toInt).toNat).flatMap fun k : Nat =>
        t.writePixel x (Int16.ofInt (max 0 y.toInt + k)) color := by
  have hrows : ∀ k : Nat, k < (last - y.toInt).toNat →
      (y + Int16.ofNat k).toInt = y.toInt + k := fun k hk => toInt_add_ofNat (by omega)
  have hout : ∀ k : Nat, k < (last - y.toInt).toNat →
      y.toInt + k < 0 ∨ t.gfx.height.toInt ≤ y.toInt + k →
      t.writePixel x (y + Int16.ofNat k) color = [] := by
    intro k hk hclip
    have hrow := hrows k hk
    exact writePixel_outside (not_inside_iff.mpr (by omega)) color
  rcases le_or_gt (min t.gfx.height.toInt last) (max 0 y.toInt) with hempty | hsome
  · rw [Int.toNat_eq_zero.mpr (Int.sub_nonpos_of_le hempty), List.range_zero, List.flatMap_nil,
      List.flatMap_eq_nil_iff]
    intro k hk
    rw [List.mem_range] at hk
    exact hout k hk (by omega)
  · have hlo : (max 0 y.toInt - y.toInt).toNat ≤ (min t.gfx.height.toInt last - y.toInt).toNat := by
      omega
    have hhi : (min t.gfx.height.toInt last - y.toInt).toNat ≤ (last - y.toInt).toNat := by omega
    have hrange := flatMap_range (f := fun k => t.writePixel x (y + Int16.ofNat k) color) hlo hhi
      (fun k hk => hout k (by omega) (by omega)) fun k hk hn => hout k hn (by omega)
    have hcount : (min t.gfx.height.toInt last - y.toInt).toNat - (max 0 y.toInt - y.toInt).toNat =
        (min t.gfx.height.toInt last - max 0 y.toInt).toNat := by omega
    rw [hrange, hcount]
    refine List.flatMap_congr fun k hk => ?_
    rw [List.mem_range] at hk
    have hrow := hrows ((max 0 y.toInt - y.toInt).toNat + k) (by omega)
    have hsame : y + Int16.ofNat ((max 0 y.toInt - y.toInt).toNat + k) =
        Int16.ofInt (max 0 y.toInt + k) := by
      rw [← Int16.toInt_inj, hrow, Int16.toInt_ofInt_of_le (by omega) (by omega)]
      omega
    rw [hsame]

/-- A device with a draw buffer that 32 bits address. -/
structure Device (t : Surface F) (pitch : UInt32) : Prop where
  backing : t.backing = .device pitch true
  pitch_ne : pitch ≠ 0
  fits : t.gfx.height.toInt * (pitch / 4).toNat + t.gfx.width.toInt ≤ 2 ^ 32

section Device

variable {t : Surface F} {pitch : UInt32} (ht : t.Device pitch)

include ht

theorem Device.stridePx : t.stridePx = pitch / 4 := by
  simp [Surface.stridePx, ht.backing, Backing.pitch, ht.pitch_ne]

theorem Device.hasBuffer : t.backing.hasBuffer = true := by
  rw [ht.backing]
  rfl

/-- Pixels of a device are in rows. -/
theorem Device.toNat_cell {x y : Int16} (h : t.gfx.inside x y = true) :
    (u32 y * (pitch / 4) + u32 x).toNat =
      y.toInt.toNat * (pitch / 4).toNat + x.toInt.toNat := by
  obtain ⟨hx, hw, hy, hh⟩ := inside_iff.mp h
  have hrow : y.toInt.toNat * (pitch / 4).toNat + x.toInt.toNat < 2 ^ 32 := by
    have hle : y.toInt.toNat * (pitch / 4).toNat ≤
        t.gfx.height.toInt.toNat * (pitch / 4).toNat := Nat.mul_le_mul_right _ (by omega)
    have hfits := ht.fits
    have hheight : t.gfx.height.toInt = (t.gfx.height.toInt.toNat : Int) := by omega
    rw [hheight] at hfits
    have hcast : ((t.gfx.height.toInt.toNat * (pitch / 4).toNat : Nat) : Int) +
        t.gfx.width.toInt ≤ 2 ^ 32 := by
      rw [Int.natCast_mul]
      exact hfits
    omega
  rw [UInt32.toNat_add, UInt32.toNat_mul, toNat_u32 hx, toNat_u32 hy, Nat.mod_add_mod,
    Nat.mod_eq_of_lt hrow]

/-- The pixels of a row are next to each other. -/
theorem Device.cell_row {xs y : Int16} {k : Nat} (hx : 0 ≤ xs.toInt)
    (hw : xs.toInt + k < t.gfx.width.toInt) (hy : 0 ≤ y.toInt) (hh : y.toInt < t.gfx.height.toInt) :
    t.gfx.inside (xs + Int16.ofNat k) y = true ∧
      deviceCell pitch (xs + Int16.ofNat k) y =
        ((u32 y * (pitch / 4) + u32 xs).toNat + k * 1 : Nat) := by
  have hbound := t.gfx.width.toInt_lt
  have hcol : (xs + Int16.ofNat k).toInt = xs.toInt + k := toInt_add_ofNat (by omega)
  have hin : t.gfx.inside (xs + Int16.ofNat k) y = true := inside_iff.mpr (by omega)
  have hin₀ : t.gfx.inside xs y = true := inside_iff.mpr (by omega)
  refine ⟨hin, ?_⟩
  rw [deviceCell, ht.toNat_cell hin, ht.toNat_cell hin₀]
  omega

/-- The pixels of a column are a line apart. -/
theorem Device.cell_column {x ys : Int16} {k : Nat} (hx : 0 ≤ x.toInt)
    (hw : x.toInt < t.gfx.width.toInt) (hy : 0 ≤ ys.toInt)
    (hh : ys.toInt + k < t.gfx.height.toInt) :
    t.gfx.inside x (ys + Int16.ofNat k) = true ∧
      deviceCell pitch x (ys + Int16.ofNat k) =
        ((u32 ys * (pitch / 4) + u32 x).toNat + k * (pitch / 4).toNat : Nat) := by
  have hbound := t.gfx.height.toInt_lt
  have hrow : (ys + Int16.ofNat k).toInt = ys.toInt + k := toInt_add_ofNat (by omega)
  have hin : t.gfx.inside x (ys + Int16.ofNat k) = true := inside_iff.mpr (by omega)
  have hin₀ : t.gfx.inside x ys = true := inside_iff.mpr (by omega)
  have hrowNat : (ys + Int16.ofNat k).toInt.toNat = ys.toInt.toNat + k := by omega
  refine ⟨hin, ?_⟩
  rw [deviceCell, ht.toNat_cell hin, ht.toNat_cell hin₀, hrowNat, Nat.add_mul]
  omega

theorem Device.writePixel {x y : Int16} {color : UInt32} (hcolor : alpha color ≠ 0)
    (h : t.gfx.inside x y = true) :
    t.writePixel x y color = [spanStore color (deviceCell pitch x y)] := by
  simp [Surface.writePixel, Surface.setPixel, getPixelCell, spanStore, h, hcolor, ht.backing]
  split <;> rfl

/-- A row is what `writePixel` makes of it. -/
theorem Device.writeFastHLine_eq (x y w : Int16) (color : UInt32) :
    t.writeFastHLine x y w color =
      if alpha color = 0 ∨ y < 0 ∨ t.gfx.height ≤ y then some []
      else (forUp (max 0 x) (min t.gfx.width (Int16.ofInt (x.toInt + w.toInt))).toInt).map
        fun is => is.flatMap fun i => t.writePixel i y color := by
  unfold Surface.writeFastHLine
  split
  · rfl
  · next hdraws =>
    simp only [not_or] at hdraws
    obtain ⟨hcolor, hy, hh⟩ := hdraws
    generalize hxs : max 0 x = xs
    generalize hxe : min t.gfx.width (Int16.ofInt (x.toInt + w.toInt)) = xe
    have hfirst : 0 ≤ xs.toInt := hxs ▸ toInt_max_nonneg x
    have hlast : xe.toInt ≤ t.gfx.width.toInt := hxe ▸ toInt_min_le _ _
    have hbound := t.gfx.width.toInt_lt
    rw [Int16.lt_iff_toInt_lt] at hy
    rw [Int16.le_iff_toInt_le] at hh
    rw [if_pos ht.hasBuffer, forUp_eq _ (by omega), Option.map_some]
    split
    · next hempty =>
      rw [Int16.le_iff_toInt_le] at hempty
      rw [Int.toNat_eq_zero.mpr (by omega)]
      rfl
    · next hsome =>
      rw [spanCells, List.map_map, List.flatMap_map, List.map_eq_flatMap]
      congr 1
      refine List.flatMap_congr fun k hk => ?_
      have hk' := List.mem_range.mp hk
      have hy' : 0 ≤ y.toInt := by simpa using hy
      obtain ⟨hin, hcell⟩ :=
        @Device.cell_row _ t pitch ht xs y k hfirst (by omega) hy' (by omega)
      rw [ht.writePixel hcolor hin, hcell, ht.stridePx]
      rfl

/-- A column is what `writePixel` makes of it, if its end does not wrap. -/
theorem Device.writeFastVLine_eq {x y h : Int16} (hlow : -32768 ≤ y.toInt + h.toInt)
    (hhigh : y.toInt + h.toInt ≤ 32767) (color : UInt32) :
    t.writeFastVLine x y h color =
      if alpha color = 0 then some []
      else (forUp y (y.toInt + h.toInt)).map fun is =>
        is.flatMap fun i => t.writePixel x i color := by
  unfold Surface.writeFastVLine
  split
  · rfl
  · next hcolor =>
    have hend : (Int16.ofInt (y.toInt + h.toInt)).toInt = y.toInt + h.toInt :=
      Int16.toInt_ofInt_of_le hlow (by omega)
    generalize hys : max 0 y = ys
    generalize hye : min t.gfx.height (Int16.ofInt (y.toInt + h.toInt)) = ye
    have hfirst : ys.toInt = max 0 y.toInt := by
      rw [← hys, toInt_max]
      rfl
    have hlast : ye.toInt = min t.gfx.height.toInt (y.toInt + h.toInt) := by
      rw [← hye, toInt_min, hend]
    rw [if_pos ht.hasBuffer, forUp_eq _ hhigh, Option.map_some, List.flatMap_map,
      t.flatMap_clipped x hhigh color, ← hfirst, ← hlast]
    dsimp only
    have hrow : ∀ k : Nat, (k : Int) < ye.toInt - ys.toInt →
        (Int16.ofInt (ys.toInt + k)).toInt = ys.toInt + k :=
      fun k hk => Int16.toInt_ofInt_of_le (by omega) (by omega)
    split
    · next hempty =>
      -- no pixel of the column is in the clip
      symm
      rw [Option.some.injEq, List.flatMap_eq_nil_iff]
      intro k hk
      rw [List.mem_range] at hk
      refine writePixel_outside (not_inside_iff.mpr ?_) color
      rw [hrow k (by omega)]
      simp only [Int16.lt_iff_toInt_lt, Int16.le_iff_toInt_le] at hempty
      have hzero : (0 : Int16).toInt = 0 := rfl
      omega
    · next hsome =>
      simp only [not_or, Int16.lt_iff_toInt_lt, Int16.le_iff_toInt_le] at hsome
      have hzero : (0 : Int16).toInt = 0 := rfl
      rw [spanCells, List.map_map, List.map_eq_flatMap]
      congr 1
      refine List.flatMap_congr fun k hk => ?_
      rw [List.mem_range] at hk
      obtain ⟨hin, hcell⟩ :=
        @Device.cell_column _ t pitch ht x ys k (by omega) (by omega) (by omega) (by omega)
      have hsame : Int16.ofInt (ys.toInt + k) = ys + Int16.ofNat k := by
        have hstep : (ys + Int16.ofNat k).toInt = ys.toInt + k := toInt_add_ofNat (by omega)
        rw [← Int16.toInt_inj, hrow k (by omega), hstep]
      rw [hsame, ht.writePixel hcolor hin, hcell, ht.stridePx]
      rfl

end Device

end Surface

/-- A screen that is wider than it is high. -/
def landscape : Surface Empty where
  gfx := { LinuxGFX.canvas with width := 320, height := 240 }
  backing := .device 1280 true
  mem _ := 0

end MFoES.Libgfx
