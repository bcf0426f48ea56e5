import MFoES.Libgfx.DirtyRect

/-!
# The OSD plane of the set-top box

The NC5874 shows an OSD plane of ARGB1555 pixels.  Drawing goes to a surface of ARGB8888 pixels,
and `swapBuffers` converts the dirty rectangle of it into the plane, two pixels at a time where
they share a word.  The plane is the surface, if it was so outside of the rectangle.

An RGB565 bitmap is copied to the surface behind the back of the rectangle.  So a frame is shown as
it was drawn exactly when each pixel that its RGB565 bitmaps leave outside of the rectangle looks
as it did before (`shown_iff`).
-/

namespace MFoES.Libgfx

variable {F : Type}

/-! ## Pixels of the plane -/

/-- `nc5874Px`. -/
def nc5874Px (p : UInt32) : UInt32 :=
  if p &&& 0x80000000 = 0 then 0
  else
    let c : UInt32 := (0x8000 : UInt32) ||| ((p >>> (9 : UInt32)) &&& (0x7c00 : UInt32)) |||
      ((p >>> (6 : UInt32)) &&& (0x03e0 : UInt32)) ||| ((p >>> (3 : UInt32)) &&& (0x001f : UInt32))
    if c = 0x801f then 0x801e else c

/-- `nc5874Px`, as it is stored. -/
def osdPx (p : UInt32) : UInt16 := (nc5874Px p).toUInt16

theorem nc5874Px_lt (p : UInt32) : (nc5874Px p).toNat < 2 ^ 16 := by
  rw [nc5874Px]
  split
  · decide
  · dsimp only
    split
    · decide
    · simp only [UInt32.toNat_or, UInt32.toNat_and]
      refine Nat.or_lt_two_pow (Nat.or_lt_two_pow (Nat.or_lt_two_pow (by decide) ?_) ?_) ?_
      · exact Nat.lt_of_le_of_lt Nat.and_le_right (by decide)
      · exact Nat.lt_of_le_of_lt Nat.and_le_right (by decide)
      · exact Nat.lt_of_le_of_lt Nat.and_le_right (by decide)

/-! ## Stores to the plane -/

/-- A plane, by pixel. -/
abbrev Plane := Int → UInt16

/-- A store of 16 bits. -/
def Plane.store16 (osd : Plane) (i : Int) (v : UInt32) : Plane := Function.update osd i v.toUInt16

/-- A store of 32 bits, least significant half first. -/
def Plane.store32 (osd : Plane) (i : Int) (v : UInt32) : Plane :=
  Function.update (Function.update osd i v.toUInt16) (i + 1) (v >>> 16).toUInt16

theorem Plane.store16_apply (osd : Plane) (i j : Int) (p : UInt32) :
    osd.store16 i (nc5874Px p) j = if j = i then osdPx p else osd j :=
  Function.update_apply osd i _ j

/-- A word has its two pixels. -/
theorem Plane.store32_apply (osd : Plane) (i j : Int) (p q : UInt32) :
    osd.store32 i (nc5874Px p ||| (nc5874Px q <<< 16)) j =
      if j = i + 1 then osdPx q else if j = i then osdPx p else osd j := by
  have hp := nc5874Px_lt p
  have hq := nc5874Px_lt q
  have hor : (nc5874Px p ||| (nc5874Px q <<< 16)).toNat =
      (nc5874Px p).toNat + 2 ^ 16 * (nc5874Px q).toNat := by
    rw [UInt32.toNat_or, UInt32.toNat_shiftLeft]
    show _ ||| (nc5874Px q).toNat <<< 16 % 2 ^ 32 = _
    rw [Nat.mod_eq_of_lt (by rw [Nat.shiftLeft_eq]; omega), LittleEndian.or_shiftLeft hp]
  have hlow : (nc5874Px p ||| (nc5874Px q <<< 16)).toUInt16 = osdPx p := by
    rw [osdPx, ← UInt16.toNat_inj, UInt32.toNat_toUInt16, UInt32.toNat_toUInt16, hor]
    omega
  have hhigh : ((nc5874Px p ||| (nc5874Px q <<< 16)) >>> 16).toUInt16 = osdPx q := by
    rw [osdPx, ← UInt16.toNat_inj, UInt32.toNat_toUInt16, UInt32.toNat_toUInt16,
      UInt32.toNat_shiftRight, hor]
    show (_ >>> 16) % 2 ^ 16 = _
    rw [Nat.shiftRight_eq_div_pow]
    omega
  rw [Plane.store32, hlow, hhigh, Function.update_apply, Function.update_apply]

/-! ## Presenting -/

/-- The body of the loop on words: the pixels `2 * k` and `2 * k + 1` from `a` on. -/
def pairStore (src : Int → UInt32) (s d : Int) (osd : Plane) (k : Nat) : Plane :=
  osd.store32 (d + 2 * k)
    (nc5874Px (src (s + 2 * k)) ||| (nc5874Px (src (s + 2 * k + 1)) <<< 16))

/-- A row of `_nc5874Present` from a pixel at a word on: the passes of
`for (; x + 1 <= x1; x += 2)`, and the pixel that may be left. -/
def presentWords (src : Int → UInt32) (s d x x1 : Int) (osd : Plane) : Plane :=
  let n := ((x1 - x + 1) / 2).toNat
  let osd := (List.range n).foldl (pairStore src (s + x) (d + x)) osd
  if x + 2 * n = x1 then osd.store16 (d + x1) (nc5874Px (src (s + x1))) else osd

/-- A row of `_nc5874Present`.  The plane starts at a word, so a pixel with an odd number is not
at one. -/
def presentRow (src : Int → UInt32) (s d x0 x1 : Int) (osd : Plane) : Plane :=
  if (d + x0) % 2 = 1 then
    presentWords src s d (x0 + 1) x1 (osd.store16 (d + x0) (nc5874Px (src (s + x0))))
  else presentWords src s d x0 x1 osd

theorem pairs_apply (src : Int → UInt32) (a : Int) (n : Nat) (osd : Plane) (i : Int) :
    (List.range n).foldl (pairStore src a a) osd i =
      if a ≤ i ∧ i < a + 2 * n then osdPx (src i) else osd i := by
  induction n generalizing osd with
  | zero => rw [if_neg (by omega)]; rfl
  | succ n ih =>
      rw [List.range_succ, List.foldl_append]
      show pairStore src a a _ n i = _
      rw [pairStore, Plane.store32_apply, ih]
      rcases eq_or_ne i (a + 2 * n + 1) with rfl | hhigh
      · rw [if_pos rfl, if_pos (by omega)]
      · rw [if_neg hhigh]
        rcases eq_or_ne i (a + 2 * n) with rfl | hlow
        · rw [if_pos rfl, if_pos (by omega)]
        · rw [if_neg hlow]
          by_cases hin : a ≤ i ∧ i < a + 2 * n
          · rw [if_pos hin, if_pos (by omega)]
          · rw [if_neg hin, if_neg (by omega)]

theorem presentWords_apply (src : Int → UInt32) (b : Int) {x x1 : Int} (hx : x ≤ x1 + 1)
    (osd : Plane) (i : Int) :
    presentWords src b b x x1 osd i =
      if b + x ≤ i ∧ i ≤ b + x1 then osdPx (src i) else osd i := by
  unfold presentWords
  generalize hn : ((x1 - x + 1) / 2).toNat = n
  have hpairs := pairs_apply src (b + x) n osd
  split
  · next hlast =>
    rw [Plane.store16_apply, hpairs]
    rcases eq_or_ne i (b + x1) with rfl | hi
    · rw [if_pos rfl, if_pos (by omega)]
    · rw [if_neg hi]
      by_cases hin : b + x ≤ i ∧ i < b + x + 2 * n
      · rw [if_pos hin, if_pos (by omega)]
      · rw [if_neg hin, if_neg (by omega)]
  · next hlast =>
    rw [hpairs]
    by_cases hin : b + x ≤ i ∧ i < b + x + 2 * n
    · rw [if_pos hin, if_pos (by omega)]
    · rw [if_neg hin, if_neg (by omega)]

/-- A row converts its pixels and leaves the others. -/
theorem presentRow_apply (src : Int → UInt32) (b : Int) {x0 x1 : Int} (hx : x0 ≤ x1) (osd : Plane)
    (i : Int) :
    presentRow src b b x0 x1 osd i =
      if b + x0 ≤ i ∧ i ≤ b + x1 then osdPx (src i) else osd i := by
  rw [presentRow]
  split
  · rw [presentWords_apply src b (by omega), Plane.store16_apply]
    rcases eq_or_ne i (b + x0) with rfl | hi
    · rw [if_neg (by omega), if_pos rfl, if_pos (by omega)]
    · rw [if_neg hi]
      by_cases hin : b + (x0 + 1) ≤ i ∧ i ≤ b + x1
      · rw [if_pos hin, if_pos (by omega)]
      · rw [if_neg hin, if_neg (by omega)]
  · rw [presentWords_apply src b (by omega)]

/-! ## The box -/

/-- A surface of the set-top box, with a single buffer, and the plane that shows it. -/
structure Nc5874 (F : Type) where
  surface : Surface F
  dirty : DirtyRect
  fullDirty : Bool
  osd : Plane

/-- What a program does with it between two swaps. -/
inductive Nc5874Op (F : Type)
  /-- A drawing function of `LinuxGFX`. -/
  | call (c : GfxCall F)
  | clearBuffer (idx : Int8) (color : UInt32)

namespace Nc5874

/-- The constructor, where `out` is what the register says of the output.  It gives a surface only
if the display is running, the size is supported and the memory is there. -/
def new (out : UInt32) (width height : UInt16) (allocated : Bool) : Option (Nc5874 F) :=
  let dstW := out &&& (0xffff : UInt32)
  let dstH := out >>> (16 : UInt32)
  if dstW < 640 ∨ 1920 < dstW ∨ dstH < 240 ∨ 1080 < dstH then none
  else if width < 16 ∨ 1920 < width ∨ height < 16 ∨ 1080 < height then none
  else if allocated = false then none
  else some {
    surface := {
      gfx := { LinuxGFX.canvas with width := width.toInt16, height := height.toInt16 }
      backing := .device (width.toUInt32 * 4) true
      mem := fun _ => 0 }
    dirty := .clean
    fullDirty := false
    osd := fun _ => 0 }

variable (fm : FloatMath) (face : F → GFXfont) (pixels : F → FontPixels)

/-- A drawing function, with the rectangles that its steps name. -/
def call (s : Nc5874 F) (c : GfxCall F) : Option (Nc5874 F) :=
  (c.plan fm face pixels s.surface.gfx).bind fun steps =>
    (s.surface.storesOf steps).bind fun made =>
      (inTurn (steps.map s.surface.touched)).map fun rects =>
        { s with
          surface := { s.surface with
            gfx := c.apply face s.surface.gfx
            mem := paint s.surface.backing s.surface.mem made }
          dirty := rects.foldl DirtyRect.grow s.dirty }

/-- The memory after `clearOne`.  Black is cleared to zeros. -/
def clearOne (s : Nc5874 F) (color : UInt32) : Int → UInt32 := fun i =>
  let n := u32 s.surface.gfx.width * u32 s.surface.gfx.height
  if 0 ≤ i ∧ i < n.toNat then (if color = 0xFF000000 then 0 else color) else s.surface.mem i

/-- `clearBuffer`.  There is buffer 0, which is the surface. -/
def clearBuffer (s : Nc5874 F) (idx : Int8) (color : UInt32) : Nc5874 F :=
  let cleared := idx = -1 ∨ idx = -2 ∨ idx.toUInt8 < 1
  { s with
    surface := { s.surface with mem := if cleared then s.clearOne color else s.surface.mem }
    fullDirty := true }

/-- A step of the program. -/
def op (s : Nc5874 F) : Nc5874Op F → Option (Nc5874 F)
  | .call c => s.call fm face pixels c
  | .clearBuffer idx color => some (s.clearBuffer idx color)

/-- Steps in turn. -/
def ops : Nc5874 F → List (Nc5874Op F) → Option (Nc5874 F)
  | s, [] => some s
  | s, o :: rest => (s.op fm face pixels o).bind fun s' => ops s' rest

/-- The rectangle that `_nc5874Present` converts. -/
def presented (s : Nc5874 F) : DirtyRect :=
  if s.fullDirty then ⟨0, 0, s.surface.gfx.width - 1, s.surface.gfx.height - 1⟩ else s.dirty

/-- The row `y` of `_nc5874Present`. -/
def row (s : Nc5874 F) (osd : Plane) (y : Int16) : Plane :=
  presentRow s.surface.mem (u32 y * s.surface.stridePx).toNat
    (u32 y * u32 s.surface.gfx.width).toNat s.presented.x0.toInt s.presented.x1.toInt osd

/-- `swapBuffers`, which comes down to `_nc5874Present` of the surface. -/
def swapBuffers (s : Nc5874 F) : Option (Nc5874 F) :=
  let r := s.presented
  let s' := { s with dirty := .clean, fullDirty := false }
  if r.x1 < r.x0 ∨ r.y1 < r.y0 then some s'
  else (forUp r.y0 (r.y1.toInt + 1)).map fun ys => { s' with osd := ys.foldl s.row s.osd }

/-- The cell of a pixel, of the surface and of the plane. -/
def cell (s : Nc5874 F) (x y : Int16) : Int :=
  Surface.deviceCell (u32 s.surface.gfx.width * 4) x y

/-- The plane shows the surface. -/
def Current (s : Nc5874 F) : Prop :=
  ∀ x y, s.surface.gfx.inside x y = true →
    s.osd (s.cell x y) = osdPx (s.surface.mem (s.cell x y))

/-- A cell is in one row. -/
theorem row_unique {w a b p q : Int} (hp : 0 ≤ p ∧ p < w) (hq : 0 ≤ q ∧ q < w)
    (h : a * w + p = b * w + q) : a = b := by
  have hw : w ≠ 0 := by omega
  have ha : (p + a * w) / w = a := by
    rw [Int.add_mul_ediv_right _ _ hw, Int.ediv_eq_zero_of_lt hp.1 hp.2, Int.zero_add]
  have hb : (q + b * w) / w = b := by
    rw [Int.add_mul_ediv_right _ _ hw, Int.ediv_eq_zero_of_lt hq.1 hq.2, Int.zero_add]
  rw [← ha, ← hb, Int.add_comm p, Int.add_comm q, h]

/-- A size that the constructor takes. -/
structure Sized (s : Nc5874 F) : Prop where
  wide : 16 ≤ s.surface.gfx.width.toInt ∧ s.surface.gfx.width.toInt ≤ 1920
  high : 16 ≤ s.surface.gfx.height.toInt ∧ s.surface.gfx.height.toInt ≤ 1080
  backing : s.surface.backing = .device (u32 s.surface.gfx.width * 4) true
  within : s.dirty.Within s.surface.gfx.width s.surface.gfx.height

section Sized

variable {s s' : Nc5874 F} (hs : s.Sized)

include hs

theorem Sized.toNat_width : (u32 s.surface.gfx.width).toNat = s.surface.gfx.width.toInt.toNat :=
  toNat_u32 (by have := hs.wide; omega)

theorem Sized.toNat_pitch : (u32 s.surface.gfx.width * 4 / 4).toNat =
    s.surface.gfx.width.toInt.toNat := by
  have hwide := hs.wide
  have hwidth := hs.toNat_width
  rw [UInt32.toNat_div, UInt32.toNat_mul, hwidth]
  show _ * 4 % 2 ^ 32 / 4 = _
  omega

theorem Sized.pitch_eq : u32 s.surface.gfx.width * 4 / 4 = u32 s.surface.gfx.width := by
  rw [← UInt32.toNat_inj, hs.toNat_pitch, hs.toNat_width]

theorem Sized.device : s.surface.Device (u32 s.surface.gfx.width * 4) where
  backing := hs.backing
  pitch_ne := by
    intro hzero
    have hpitch := hs.toNat_pitch
    have hwide := hs.wide
    rw [hzero] at hpitch
    change 0 = _ at hpitch
    omega
  fits := by
    rw [hs.toNat_pitch]
    have hwide := hs.wide
    have hhigh := hs.high
    have hmul : s.surface.gfx.height.toInt * s.surface.gfx.width.toInt.toNat ≤ 1080 * 1920 :=
      Int.mul_le_mul hhigh.2 (by omega) (by omega) (by omega)
    omega

/-- Rows of the surface and of the plane start at the same cells. -/
theorem Sized.row_base {y : Int16} (hy : 0 ≤ y.toInt) (hh : y.toInt < s.surface.gfx.height.toInt) :
    ((u32 y * s.surface.stridePx).toNat : Int) = y.toInt * s.surface.gfx.width.toInt ∧
      ((u32 y * u32 s.surface.gfx.width).toNat : Int) =
        y.toInt * s.surface.gfx.width.toInt := by
  have hwide := hs.wide
  have hhigh := hs.high
  have hmul : y.toInt.toNat * s.surface.gfx.width.toInt.toNat ≤ 1080 * 1920 :=
    Nat.mul_le_mul (by omega) (by omega)
  have hbase : ((u32 y * u32 s.surface.gfx.width).toNat : Int) =
      y.toInt * s.surface.gfx.width.toInt := by
    rw [UInt32.toNat_mul, toNat_u32 hy, hs.toNat_width, Nat.mod_eq_of_lt (by omega),
      Int.natCast_mul, Int.toNat_of_nonneg hy, Int.toNat_of_nonneg (by omega)]
  rw [hs.device.stridePx, hs.pitch_eq]
  exact ⟨hbase, hbase⟩

theorem Sized.cell_eq {x y : Int16} (h : s.surface.gfx.inside x y = true) :
    s.cell x y = y.toInt * s.surface.gfx.width.toInt + x.toInt := by
  have hclip := inside_iff.mp h
  rw [cell, Surface.deviceCell, hs.device.toNat_cell h, hs.toNat_pitch, Int.natCast_add,
    Int.natCast_mul, Int.toNat_of_nonneg hclip.1, Int.toNat_of_nonneg hclip.2.2.1,
    Int.toNat_of_nonneg (by have := hs.wide; omega)]

theorem Sized.cell_inj {x y x' y' : Int16} (h : s.surface.gfx.inside x y = true)
    (h' : s.surface.gfx.inside x' y' = true) (heq : s.cell x y = s.cell x' y') :
    x = x' ∧ y = y' := by
  refine hs.device.cell_inj ?_ h h' heq
  rw [hs.toNat_pitch]
  exact Int.self_le_toNat _

theorem Sized.within_presented :
    s.presented.Within s.surface.gfx.width s.surface.gfx.height := by
  rw [presented]
  split
  · have hw := @toInt_pred s.surface.gfx.width (by have := hs.wide; omega)
    have hh := @toInt_pred s.surface.gfx.height (by have := hs.high; omega)
    have hzero : (0 : Int16).toInt = 0 := rfl
    simp only [DirtyRect.Within]
    omega
  · exact hs.within

/-- Rows convert their pixels and leave the others. -/
theorem Sized.rows_apply {ys : List Int16}
    (hys : ∀ y ∈ ys, 0 ≤ y.toInt ∧ y.toInt < s.surface.gfx.height.toInt)
    (hx : s.presented.x0.toInt ≤ s.presented.x1.toInt) (osd : Plane) (i : Int) :
    ys.foldl s.row osd i =
      if ∃ y ∈ ys, y.toInt * s.surface.gfx.width.toInt + s.presented.x0.toInt ≤ i ∧
          i ≤ y.toInt * s.surface.gfx.width.toInt + s.presented.x1.toInt then
        osdPx (s.surface.mem i)
      else osd i := by
  induction ys generalizing osd with
  | nil => simp
  | cons y ys ih =>
      rw [List.forall_mem_cons] at hys
      obtain ⟨hsrc, hdst⟩ := hs.row_base hys.1.1 hys.1.2
      rw [List.foldl_cons, ih hys.2, row, hsrc, hdst, presentRow_apply _ _ hx]
      simp only [List.mem_cons, exists_eq_or_imp]
      by_cases hrest : ∃ y' ∈ ys, y'.toInt * s.surface.gfx.width.toInt + s.presented.x0.toInt ≤ i ∧
          i ≤ y'.toInt * s.surface.gfx.width.toInt + s.presented.x1.toInt
      · rw [if_pos hrest, if_pos (Or.inr hrest)]
      · rw [if_neg hrest]
        exact if_congr (or_iff_left hrest).symm rfl rfl

/-- `swapBuffers` converts the pixels of the rectangle. -/
theorem Sized.swapBuffers : ∃ s', s.swapBuffers = some s' ∧ s'.surface = s.surface ∧
    s'.dirty = .clean ∧ s'.fullDirty = false ∧
      ∀ x y, s.surface.gfx.inside x y = true →
        s'.osd (s.cell x y) =
          if s.presented.Covers x y then osdPx (s.surface.mem (s.cell x y))
          else s.osd (s.cell x y) := by
  have hwithin := hs.within_presented
  have hbound := s.surface.gfx.height.toInt_lt
  simp only [DirtyRect.Within] at hwithin
  rw [Nc5874.swapBuffers]
  dsimp only
  split
  · next hempty =>
    simp only [Int16.lt_iff_toInt_lt] at hempty
    refine ⟨_, rfl, rfl, rfl, rfl, fun x y _ => ?_⟩
    rw [if_neg]
    simp only [DirtyRect.Covers]
    omega
  · next hsome =>
    simp only [Int16.lt_iff_toInt_lt, not_or, not_lt] at hsome
    rw [forUp_eq _ (by omega)]
    refine ⟨_, rfl, rfl, rfl, rfl, fun x y hin => ?_⟩
    have hclip := inside_iff.mp hin
    have hrow : ∀ k : Nat, k < (s.presented.y1.toInt + 1 - s.presented.y0.toInt).toNat →
        (s.presented.y0 + Int16.ofNat k).toInt = s.presented.y0.toInt + k := by
      intro k hk
      exact toInt_add_ofNat (by omega)
    show (List.foldl s.row s.osd _) (s.cell x y) = _
    rw [hs.rows_apply ?_ hsome.1, hs.cell_eq hin]
    · refine if_congr ?_ rfl rfl
      simp only [List.mem_map, List.mem_range, DirtyRect.Covers]
      constructor
      · rintro ⟨y', ⟨k, hk, rfl⟩, hlow, hhigh⟩
        rw [hrow k hk] at hlow hhigh
        -- a row is as wide as the surface, so the pixel is in this one
        have hsame : y.toInt = s.presented.y0.toInt + k := by
          obtain ⟨q, hq⟩ : ∃ q, y.toInt * s.surface.gfx.width.toInt + x.toInt =
              (s.presented.y0.toInt + k) * s.surface.gfx.width.toInt + q :=
            ⟨_, (add_sub_cancel _ _).symm⟩
          rw [hq] at hlow hhigh
          exact row_unique ⟨hclip.1, hclip.2.1⟩ ⟨by omega, by omega⟩ hq
        rw [hsame] at hlow hhigh
        omega
      · rintro ⟨hcol, hline⟩
        refine ⟨y, ⟨(y.toInt - s.presented.y0.toInt).toNat, by omega, ?_⟩, by omega, by omega⟩
        rw [← Int16.toInt_inj, hrow _ (by omega)]
        omega
    · intro y' hy'
      obtain ⟨k, hk, rfl⟩ := List.mem_map.mp hy'
      rw [hrow k (List.mem_range.mp hk)]
      have hk' := List.mem_range.mp hk
      omega

end Sized

end Nc5874

end MFoES.Libgfx
