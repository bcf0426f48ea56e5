import MFoES.Libgfx.Spans

/-!
# The dirty rectangle

The set-top box converts only what changed.  A span and a pixel that are written tell the rectangle
where they are, after the clip.  So every cell that a step sets is in one of the rectangles that it
names (`Tracked`), but for an RGB565 bitmap, which names none.
-/

namespace MFoES.Libgfx

variable {F : Type}

/-! ## Rectangles -/

/-- A rectangle of pixels, its last column and row included. -/
structure DirtyRect where
  x0 : Int16
  y0 : Int16
  x1 : Int16
  y1 : Int16
deriving DecidableEq

namespace DirtyRect

/-- `_ncDirtyReset`. -/
def clean : DirtyRect := ⟨0x7fff, 0x7fff, -1, -1⟩

/-- `_ncDirty`. -/
def grow (d r : DirtyRect) : DirtyRect where
  x0 := if r.x0 < d.x0 then r.x0 else d.x0
  y0 := if r.y0 < d.y0 then r.y0 else d.y0
  x1 := if d.x1 < r.x1 then r.x1 else d.x1
  y1 := if d.y1 < r.y1 then r.y1 else d.y1

/-- The rectangle has a pixel. -/
def Covers (d : DirtyRect) (x y : Int16) : Prop :=
  (d.x0.toInt ≤ x.toInt ∧ x.toInt ≤ d.x1.toInt) ∧ d.y0.toInt ≤ y.toInt ∧ y.toInt ≤ d.y1.toInt

instance (d : DirtyRect) (x y : Int16) : Decidable (d.Covers x y) := by
  unfold Covers
  infer_instance

variable {d r : DirtyRect} {x y : Int16}

theorem toInt_grow :
    ((d.grow r).x0.toInt = min r.x0.toInt d.x0.toInt ∧
      (d.grow r).y0.toInt = min r.y0.toInt d.y0.toInt) ∧
    (d.grow r).x1.toInt = max d.x1.toInt r.x1.toInt ∧
      (d.grow r).y1.toInt = max d.y1.toInt r.y1.toInt := by
  simp only [grow, Int16.lt_iff_toInt_lt]
  refine ⟨⟨?_, ?_⟩, ?_, ?_⟩
  · split <;> omega
  · split <;> omega
  · split <;> omega
  · split <;> omega

theorem Covers.grow (h : d.Covers x y) (r : DirtyRect) : (d.grow r).Covers x y := by
  have hgrow := @toInt_grow d r
  unfold Covers at h ⊢
  omega

theorem covers_grow (d : DirtyRect) (h : r.Covers x y) : (d.grow r).Covers x y := by
  have hgrow := @toInt_grow d r
  unfold Covers at h ⊢
  omega

theorem Covers.foldl {rs : List DirtyRect} (h : d.Covers x y) :
    (rs.foldl DirtyRect.grow d).Covers x y := by
  induction rs generalizing d with
  | nil => exact h
  | cons r rs ih => exact ih (h.grow r)

theorem covers_foldl {rs : List DirtyRect} (hr : r ∈ rs) (h : r.Covers x y) (d : DirtyRect) :
    (rs.foldl DirtyRect.grow d).Covers x y := by
  induction rs generalizing d with
  | nil => cases hr
  | cons r' rs ih =>
      show (rs.foldl DirtyRect.grow (d.grow r')).Covers x y
      rcases List.mem_cons.mp hr with rfl | hmem
      · exact (covers_grow d h).foldl
      · exact ih hmem (d.grow r')

/-- The rectangle stays in a surface of a size. -/
def Within (d : DirtyRect) (w h : Int16) : Prop :=
  (0 ≤ d.x0.toInt ∧ d.x1.toInt < w.toInt) ∧ 0 ≤ d.y0.toInt ∧ d.y1.toInt < h.toInt

/-- The empty rectangle is in every surface. -/
theorem within_clean {w h : Int16} (hw : 0 ≤ w.toInt) (hh : 0 ≤ h.toInt) : clean.Within w h := by
  have hfirst : (0x7fff : Int16).toInt = 32767 := rfl
  have hlast : (-1 : Int16).toInt = -1 := rfl
  simp only [Within, clean]
  omega

theorem Within.grow {w h : Int16} (hd : d.Within w h) (hr : r.Within w h) :
    (d.grow r).Within w h := by
  have hgrow := @toInt_grow d r
  unfold Within at hd hr ⊢
  omega

theorem Within.foldl {w h : Int16} {rs : List DirtyRect} (hd : d.Within w h)
    (hrs : ∀ r ∈ rs, r.Within w h) : (rs.foldl DirtyRect.grow d).Within w h := by
  induction rs generalizing d with
  | nil => exact hd
  | cons r rs ih =>
      rw [List.forall_mem_cons] at hrs
      exact ih (hd.grow hrs.1) hrs.2

end DirtyRect

/-! ## The rectangles of a step -/

namespace Surface

variable (t : Surface F)

/-- `setPixel`, where `writePixel` calls it. -/
def touchedPixel (x y : Int16) (color : UInt32) : List DirtyRect :=
  if alpha color = 0 ∨ t.gfx.inside x y = false then [] else [⟨x, y, x, y⟩]

/-- `writeFastVLine`. -/
def touchedVLine (x y h : Int16) (color : UInt32) : List DirtyRect :=
  let ys := max 0 y
  let ye := min t.gfx.height (Int16.ofInt (y.toInt + h.toInt))
  if alpha color = 0 ∨ x < 0 ∨ t.gfx.width ≤ x ∨ ye ≤ ys then [] else [⟨x, ys, x, ye - 1⟩]

/-- `writeFastHLine`. -/
def touchedHLine (x y w : Int16) (color : UInt32) : List DirtyRect :=
  let xs := max 0 x
  let xe := min t.gfx.width (Int16.ofInt (x.toInt + w.toInt))
  if alpha color = 0 ∨ y < 0 ∨ t.gfx.height ≤ y ∨ xe ≤ xs then [] else [⟨xs, y, xe - 1, y⟩]

/-- `writeFillRect`. -/
def touchedFillRect (x y w h : Int16) (color : UInt32) : Option (List DirtyRect) :=
  if alpha color = 0 then some []
  else (forUp y (y.toInt + h.toInt)).map fun is => is.flatMap fun i => t.touchedHLine x i w color

/-- The rectangles that a step on a device names. -/
def touched : Step → Option (List DirtyRect)
  | .writePixel x y color => some (t.touchedPixel x y color)
  | .writeFastVLine x y h color => some (t.touchedVLine x y h color)
  | .writeFastHLine x y w color => some (t.touchedHLine x y w color)
  | .drawPixel x y color => some (t.touchedPixel x y color)
  | .drawFastVLine x y h color =>
      let sw := Int16.ofNat t.gfx.drawStyle.strokeWidth.toNat
      if 1 < sw then t.touchedFillRect (x - sw / 2) y sw h color
      else some (t.touchedVLine x y h color)
  | .drawFastHLine x y w color =>
      let sw := Int16.ofNat t.gfx.drawStyle.strokeWidth.toNat
      if 1 < sw then t.touchedFillRect x (y - sw / 2) w sw color
      else some (t.touchedHLine x y w color)
  | .fillScreen color =>
      if alpha color = 0 then some [] else t.touchedFillRect 0 0 t.gfx.width t.gfx.height color
  | .drawRGB565Bitmap _ _ _ _ _ => some []

end Surface

/-- The step is a bulk copy. -/
def Step.isBlit : Step → Bool
  | .drawRGB565Bitmap _ _ _ _ _ => true
  | .writePixel _ _ _ => false
  | .writeFastVLine _ _ _ _ => false
  | .writeFastHLine _ _ _ _ => false
  | .drawPixel _ _ _ => false
  | .drawFastVLine _ _ _ _ => false
  | .drawFastHLine _ _ _ _ => false
  | .fillScreen _ => false

namespace Surface

variable (t : Surface F)

/-! ## What is set is touched -/

/-- Every cell that is set is a pixel of a rectangle, and no rectangle leaves the surface. -/
structure Tracked (pitch : UInt32) (made : List Store) (rects : List DirtyRect) : Prop where
  hits : ∀ s ∈ made, ∃ r ∈ rects, ∃ x y, r.Covers x y ∧ t.gfx.inside x y = true ∧
    s.cell = deviceCell pitch x y
  within : ∀ r ∈ rects, r.Within t.gfx.width t.gfx.height

variable {t} {pitch : UInt32} {made made' : List Store} {rects rects' : List DirtyRect}

theorem Tracked.nil : t.Tracked pitch [] [] where
  hits := fun _ hs => (List.not_mem_nil hs).elim
  within := fun _ hr => (List.not_mem_nil hr).elim

theorem Tracked.append (h : t.Tracked pitch made rects) (h' : t.Tracked pitch made' rects') :
    t.Tracked pitch (made ++ made') (rects ++ rects') := by
  constructor
  · intro s hs
    rcases List.mem_append.mp hs with hs | hs
    · obtain ⟨r, hr, hin⟩ := h.hits s hs
      exact ⟨r, List.mem_append_left _ hr, hin⟩
    · obtain ⟨r, hr, hin⟩ := h'.hits s hs
      exact ⟨r, List.mem_append_right _ hr, hin⟩
  · exact List.forall_mem_append.mpr ⟨h.within, h'.within⟩

/-- Row by row. -/
theorem Tracked.flatMap {α : Type} {is : List α} {write : α → Option (List Store)}
    {touch : α → List DirtyRect} (hmade : inTurn (is.map write) = some made)
    (h : ∀ i ∈ is, ∀ part, write i = some part → t.Tracked pitch part (touch i)) :
    t.Tracked pitch made (is.flatMap touch) := by
  induction is generalizing made with
  | nil =>
      cases hmade
      exact .nil
  | cons i is ih =>
      rw [List.forall_mem_cons] at h
      obtain ⟨part, hpart, hmap⟩ := Option.bind_eq_some_iff.mp hmade
      obtain ⟨rest, hrest, rfl⟩ := Option.map_eq_some_iff.mp hmap
      rw [List.flatMap_cons]
      exact (h.1 part hpart).append (ih hrest h.2)

section Device

variable (ht : t.Device pitch)

include ht

theorem Device.tracked_writePixel (x y : Int16) (color : UInt32) :
    t.Tracked pitch (t.writePixel x y color) (t.touchedPixel x y color) := by
  rcases Decidable.em (alpha color = 0 ∨ t.gfx.inside x y = false) with hout | hin
  · rw [Surface.writePixel, if_pos hout, touchedPixel, if_pos hout]
    exact .nil
  · have hin' := hin
    rw [not_or, Bool.not_eq_false] at hin'
    obtain ⟨hcolor, hinside⟩ := hin'
    rw [ht.writePixel hcolor hinside, touchedPixel, if_neg hin]
    have hclip := inside_iff.mp hinside
    constructor
    · rintro s hs
      obtain rfl := List.mem_singleton.mp hs
      exact ⟨_, List.mem_singleton_self _, x, y, by simp [DirtyRect.Covers], hinside, rfl⟩
    · rintro r hr
      obtain rfl := List.mem_singleton.mp hr
      simp only [DirtyRect.Within]
      omega

theorem Device.tracked_writeFastHLine {x y w : Int16} {color : UInt32}
    (hmade : t.writeFastHLine x y w color = some made) :
    t.Tracked pitch made (t.touchedHLine x y w color) := by
  unfold Surface.writeFastHLine at hmade
  unfold touchedHLine
  generalize hxs : max 0 x = xs at hmade ⊢
  generalize hxe : min t.gfx.width (Int16.ofInt (x.toInt + w.toInt)) = xe at hmade ⊢
  have hfirst : 0 ≤ xs.toInt := hxs ▸ toInt_max_nonneg x
  have hlast : xe.toInt ≤ t.gfx.width.toInt := hxe ▸ toInt_min_le _ _
  dsimp only at hmade ⊢
  rw [if_pos ht.hasBuffer] at hmade
  split at hmade
  · next hout =>
    cases hmade
    rw [if_pos (by tauto)]
    exact .nil
  · next hrow =>
    simp only [not_or] at hrow
    obtain ⟨hcolor, hy, hh⟩ := hrow
    split at hmade
    · next hempty =>
      cases hmade
      rw [if_pos (Or.inr (Or.inr (Or.inr hempty)))]
      exact .nil
    · next hsome =>
      cases hmade
      rw [if_neg (by tauto)]
      rw [Int16.lt_iff_toInt_lt] at hy
      rw [Int16.le_iff_toInt_le] at hh hsome
      have hy' : 0 ≤ y.toInt := by simpa using hy
      have hpred := @toInt_pred xe (by omega)
      constructor
      · intro s hs
        obtain ⟨cell, hcell, rfl⟩ := List.mem_map.mp hs
        obtain ⟨k, hk, rfl⟩ := List.mem_map.mp hcell
        have hk' := List.mem_range.mp hk
        obtain ⟨hin, heq⟩ :=
          @Device.cell_row _ t pitch ht xs y k hfirst (by omega) hy' (by omega)
        have hcol : (xs + Int16.ofNat k).toInt = xs.toInt + k :=
          toInt_add_ofNat (by have := t.gfx.width.toInt_lt; omega)
        refine ⟨_, List.mem_singleton_self _, xs + Int16.ofNat k, y, ?_, hin, ?_⟩
        · simp only [DirtyRect.Covers]
          omega
        · rw [heq, ht.stridePx]
          rfl
      · rintro r hr
        obtain rfl := List.mem_singleton.mp hr
        simp only [DirtyRect.Within]
        omega

theorem Device.tracked_writeFastVLine {x y h : Int16} {color : UInt32}
    (hmade : t.writeFastVLine x y h color = some made) :
    t.Tracked pitch made (t.touchedVLine x y h color) := by
  unfold Surface.writeFastVLine at hmade
  unfold touchedVLine
  generalize hys : max 0 y = ys at hmade ⊢
  generalize hye : min t.gfx.height (Int16.ofInt (y.toInt + h.toInt)) = ye at hmade ⊢
  have hfirst : 0 ≤ ys.toInt := hys ▸ toInt_max_nonneg y
  have hlast : ye.toInt ≤ t.gfx.height.toInt := hye ▸ toInt_min_le _ _
  dsimp only at hmade ⊢
  rw [if_pos ht.hasBuffer] at hmade
  split at hmade
  · next hcolor =>
    cases hmade
    rw [if_pos (Or.inl hcolor)]
    exact .nil
  · next hcolor =>
    split at hmade
    · next hempty =>
      cases hmade
      rw [if_pos (Or.inr hempty)]
      exact .nil
    · next hsome =>
      cases hmade
      rw [if_neg (by tauto)]
      simp only [not_or, Int16.lt_iff_toInt_lt, Int16.le_iff_toInt_le] at hsome
      obtain ⟨hx, hw, hh⟩ := hsome
      have hx' : 0 ≤ x.toInt := by simpa using hx
      have hpred := @toInt_pred ye (by omega)
      constructor
      · intro s hs
        obtain ⟨cell, hcell, rfl⟩ := List.mem_map.mp hs
        obtain ⟨k, hk, rfl⟩ := List.mem_map.mp hcell
        have hk' := List.mem_range.mp hk
        obtain ⟨hin, heq⟩ :=
          @Device.cell_column _ t pitch ht x ys k hx' (by omega) hfirst (by omega)
        have hrow : (ys + Int16.ofNat k).toInt = ys.toInt + k :=
          toInt_add_ofNat (by have := t.gfx.height.toInt_lt; omega)
        refine ⟨_, List.mem_singleton_self _, x, ys + Int16.ofNat k, ?_, hin, ?_⟩
        · simp only [DirtyRect.Covers]
          omega
        · rw [heq, ht.stridePx]
          rfl
      · rintro r hr
        obtain rfl := List.mem_singleton.mp hr
        simp only [DirtyRect.Within]
        omega

theorem Device.tracked_writeFillRect {x y w h : Int16} {color : UInt32}
    (hmade : t.writeFillRect x y w h color = some made) :
    ∃ rects, t.touchedFillRect x y w h color = some rects ∧ t.Tracked pitch made rects := by
  unfold Surface.writeFillRect at hmade
  unfold touchedFillRect
  split at hmade
  · next hcolor =>
    cases hmade
    exact ⟨[], if_pos hcolor, .nil⟩
  · next hcolor =>
    obtain ⟨is, his, hrows⟩ := Option.bind_eq_some_iff.mp hmade
    rw [if_neg hcolor, his]
    exact ⟨_, rfl, Tracked.flatMap hrows fun i _ part hpart => ht.tracked_writeFastHLine hpart⟩

/-- What a step sets, it touches, unless it is an RGB565 bitmap. -/
theorem Device.tracked {step : Step} (hblit : step.isBlit = false)
    (hmade : t.stores step = some made) :
    ∃ rects, t.touched step = some rects ∧ t.Tracked pitch made rects := by
  cases step with
  | writePixel x y color =>
      cases hmade
      exact ⟨_, rfl, ht.tracked_writePixel x y color⟩
  | writeFastVLine x y h color => exact ⟨_, rfl, ht.tracked_writeFastVLine hmade⟩
  | writeFastHLine x y w color => exact ⟨_, rfl, ht.tracked_writeFastHLine hmade⟩
  | drawPixel x y color =>
      change some (t.drawPixel x y color) = _ at hmade
      rw [Surface.drawPixel, ht.backing] at hmade
      cases hmade
      exact ⟨_, rfl, ht.tracked_writePixel x y color⟩
  | drawFastVLine x y h color =>
      change t.drawFastVLine x y h color = _ at hmade
      rw [Surface.drawFastVLine, ht.backing] at hmade
      dsimp only at hmade
      rw [touched]
      split at hmade
      · next hwide =>
        rw [if_pos hwide]
        exact ht.tracked_writeFillRect hmade
      · next hthin =>
        rw [if_neg hthin]
        exact ⟨_, rfl, ht.tracked_writeFastVLine hmade⟩
  | drawFastHLine x y w color =>
      change t.drawFastHLine x y w color = _ at hmade
      rw [Surface.drawFastHLine, ht.backing] at hmade
      dsimp only at hmade
      rw [touched]
      split at hmade
      · next hwide =>
        rw [if_pos hwide]
        exact ht.tracked_writeFillRect hmade
      · next hthin =>
        rw [if_neg hthin]
        exact ⟨_, rfl, ht.tracked_writeFastHLine hmade⟩
  | fillScreen color =>
      change t.fillScreen color = _ at hmade
      rw [Surface.fillScreen, ht.backing] at hmade
      dsimp only at hmade
      rw [touched]
      split at hmade
      · next hcolor =>
        cases hmade
        rw [if_pos hcolor]
        exact ⟨_, rfl, .nil⟩
      · next hcolor =>
        rw [if_neg hcolor]
        exact ht.tracked_writeFillRect hmade
  | drawRGB565Bitmap x y bitmap w h => cases hblit

end Device

end Surface

/-! ## Cells and pixels -/

/-- The pixels of a device whose lines fit have cells of their own. -/
theorem Surface.Device.cell_inj {t : Surface F} {pitch : UInt32} (ht : t.Device pitch)
    (hfit : t.gfx.width.toInt ≤ (pitch / 4).toNat) {x y x' y' : Int16}
    (h : t.gfx.inside x y = true) (h' : t.gfx.inside x' y' = true)
    (heq : deviceCell pitch x y = deviceCell pitch x' y') : x = x' ∧ y = y' := by
  have hclip := inside_iff.mp h
  have hclip' := inside_iff.mp h'
  rw [deviceCell, deviceCell, ht.toNat_cell h, ht.toNat_cell h'] at heq
  have hcell : y.toInt.toNat * (pitch / 4).toNat + x.toInt.toNat =
      y'.toInt.toNat * (pitch / 4).toNat + x'.toInt.toNat := Int.ofNat_inj.mp heq
  have hpos : 0 < (pitch / 4).toNat := by omega
  have hx : x.toInt.toNat < (pitch / 4).toNat := by omega
  have hx' : x'.toInt.toNat < (pitch / 4).toNat := by omega
  have hcol := congrArg (· % (pitch / 4).toNat) hcell
  have hrow := congrArg (· / (pitch / 4).toNat) hcell
  simp only [Nat.mul_add_mod', Nat.mod_eq_of_lt hx, Nat.mod_eq_of_lt hx'] at hcol
  rw [hcol] at hcell
  have hline := Nat.eq_of_mul_eq_mul_right hpos (Nat.add_right_cancel hcell)
  constructor
  · rw [← Int16.toInt_inj]
    omega
  · rw [← Int16.toInt_inj]
    omega

end MFoES.Libgfx
