import MFoES.Libgfx.Panels

/-!
# Clipped spans

`writeFastHLine` and `writeFastVLine` cut a span at the edges of the surface.  The end of the span
is narrowed to `int16_t` before: where it wraps, what is drawn is not the span
(`writeFastHLine_fills_iff`, `writeFastVLine_fills_iff`).  A column that is drawn pixel by pixel
needs no cut, and does not return where its end is out of reach.
-/

namespace MFoES.Libgfx

variable {F : Type}

/-! ## Stores -/

namespace Surface

variable {t : Surface F}

/-- Where the pixels of a draw buffer are. -/
theorem Panel.bufferCell (h : t.Panel) {x y : Int16} (hin : t.gfx.inside x y = true) :
    (t.stridePx.toNat : Int) = t.stride ∧
      ((u32 y * t.stridePx + u32 x).toNat : Int) = t.pixelCell x.toInt y.toInt := by
  obtain ⟨hx, hxW, hy, hyH⟩ := inside_iff.mp hin
  rcases h.kind with ⟨pitch, hdevice, _⟩ | ⟨format, hb⟩
  · rw [hdevice.stridePx, pixelCell, stride, hdevice.backing]
    refine ⟨rfl, ?_⟩
    rw [hdevice.toNat_cell hin, Int.natCast_add, Int.natCast_mul, Int.toNat_of_nonneg hx,
      Int.toNat_of_nonneg hy]
  · have hwidth := t.gfx.width.toInt_lt
    have hheight := t.gfx.height.toInt_lt
    have hpx : t.stridePx = u32 t.gfx.width := by
      simp [Surface.stridePx, hb, Backing.pitch]
    have hrow : y.toInt.toNat * t.gfx.width.toInt.toNat ≤ 32767 * 32767 :=
      Nat.mul_le_mul (by omega) (by omega)
    rw [hpx, pixelCell, stride, hb]
    dsimp only
    rw [toNat_u32 (by omega), UInt32.toNat_add, UInt32.toNat_mul, toNat_u32 hx, toNat_u32 hy,
      toNat_u32 (by omega), Nat.mod_add_mod, Nat.mod_eq_of_lt (by omega), Int.natCast_add,
      Int.natCast_mul, Int.toNat_of_nonneg hx, Int.toNat_of_nonneg hy,
      Int.toNat_of_nonneg (by omega)]
    exact ⟨rfl, rfl⟩

/-- A row of cells, one after the other. -/
theorem Panel.spanCells_row (h : t.Panel) {x y : Int16} (hin : t.gfx.inside x y = true) (n : Nat) :
    spanCells (u32 y * t.stridePx + u32 x) 1 n =
      (List.range n).map fun k : Nat => t.pixelCell (x.toInt + k) y.toInt := by
  have hcell := (h.bufferCell hin).2
  rw [spanCells]
  refine List.map_congr_left fun k _ => ?_
  rw [Nat.mul_one, Int.natCast_add, hcell, pixelCell, pixelCell, Int.add_assoc]

/-- A column of cells, from row to row. -/
theorem Panel.spanCells_column (h : t.Panel) {x y : Int16} (hin : t.gfx.inside x y = true)
    (n : Nat) :
    spanCells (u32 y * t.stridePx + u32 x) t.stridePx.toNat n =
      (List.range n).map fun k : Nat => t.pixelCell x.toInt (y.toInt + k) := by
  obtain ⟨hstride, hcell⟩ := h.bufferCell hin
  rw [spanCells]
  refine List.map_congr_left fun k _ => ?_
  rw [Int.natCast_add, Int.natCast_mul, hcell, hstride, pixelCell, pixelCell, Int.add_mul,
    Int.add_right_comm]

/-- The cells that a row sets. -/
def hLineCells (t : Surface F) (x y w : Int16) (color : UInt32) : List Int :=
  if alpha color = 0 ∨ y < 0 ∨ t.gfx.height ≤ y then []
  else t.rowCells (max 0 x.toInt)
    (min t.gfx.width.toInt (Int16.ofInt (x.toInt + w.toInt)).toInt) y.toInt

/-- A row sets a pixel after the other, into the draw buffer or by `writePixel`. -/
theorem Panel.writeFastHLine_eq (h : t.Panel) (x y w : Int16) (color : UInt32) :
    t.writeFastHLine x y w color =
      some ((t.hLineCells x y w color).map (spanStore color)) := by
  unfold Surface.writeFastHLine
  rw [hLineCells]
  split
  · rfl
  · next hdraws =>
    simp only [not_or] at hdraws
    obtain ⟨hcolor, hy, hyH⟩ := hdraws
    rw [Int16.lt_iff_toInt_lt] at hy
    rw [Int16.le_iff_toInt_le] at hyH
    have hy' : 0 ≤ y.toInt := by simpa using hy
    have hxs : (max 0 x : Int16).toInt = max 0 x.toInt := toInt_max 0 x
    have hxe : (min t.gfx.width (Int16.ofInt (x.toInt + w.toInt))).toInt =
        min t.gfx.width.toInt (Int16.ofInt (x.toInt + w.toInt)).toInt := toInt_min _ _
    generalize max 0 x = xs at hxs
    generalize min t.gfx.width (Int16.ofInt (x.toInt + w.toInt)) = xe at hxe
    have hbound := xe.toInt_lt
    rw [← hxs, ← hxe, rowCells]
    dsimp only
    split
    · next hbuffer =>
      split
      · next hempty =>
        rw [Int16.le_iff_toInt_le] at hempty
        rw [Int.toNat_eq_zero.mpr (by omega)]
        rfl
      · next hsome =>
        rw [Int16.le_iff_toInt_le] at hsome
        rw [h.spanCells_row (inside_iff.mpr (by omega))]
    · next hpixels =>
      rw [forUp_eq _ (by omega), Option.map_some, List.flatMap_map, List.map_map,
        List.map_eq_flatMap]
      congr 1
      refine List.flatMap_congr fun k hk => ?_
      rw [List.mem_range] at hk
      have hcol : (xs + Int16.ofNat k).toInt = xs.toInt + k := toInt_add_ofNat (by omega)
      rw [h.writePixel_eq hcolor (inside_iff.mpr (by omega)), hcol]
      rfl

/-- The cells that a column sets, up to an end. -/
def vLineCells (t : Surface F) (x y : Int16) (last : Int) (color : UInt32) : List Int :=
  if alpha color = 0 ∨ x < 0 ∨ t.gfx.width ≤ x then []
  else t.columnCells x.toInt (max 0 y.toInt) (min t.gfx.height.toInt last)

/-- A column in the draw buffer sets a pixel after the other. -/
theorem Panel.writeFastVLine_eq (h : t.Panel) (hbuffer : t.backing.hasBuffer = true)
    (x y l : Int16) (color : UInt32) :
    t.writeFastVLine x y l color = some ((t.vLineCells x y
      (Int16.ofInt (y.toInt + l.toInt)).toInt color).map (spanStore color)) := by
  unfold Surface.writeFastVLine
  rw [vLineCells, if_pos hbuffer]
  by_cases hcolor : alpha color = 0
  · rw [if_pos hcolor, if_pos (Or.inl hcolor)]
    rfl
  · rw [if_neg hcolor]
    have hys : (max 0 y : Int16).toInt = max 0 y.toInt := toInt_max 0 y
    have hye : (min t.gfx.height (Int16.ofInt (y.toInt + l.toInt))).toInt =
        min t.gfx.height.toInt (Int16.ofInt (y.toInt + l.toInt)).toInt := toInt_min _ _
    generalize max 0 y = ys at hys
    generalize min t.gfx.height (Int16.ofInt (y.toInt + l.toInt)) = ye at hye
    rw [← hys, ← hye, columnCells]
    dsimp only
    split
    · next hempty =>
      rcases hempty with hx | hxW | hye'
      · rw [if_pos (Or.inr (Or.inl hx))]
        rfl
      · rw [if_pos (Or.inr (Or.inr hxW))]
        rfl
      · rw [Int16.le_iff_toInt_le] at hye'
        rw [Int.toNat_eq_zero.mpr (by omega)]
        split <;> rfl
    · next hsome =>
      simp only [not_or, Int16.lt_iff_toInt_lt, Int16.le_iff_toInt_le] at hsome
      obtain ⟨hx, hxW, hlt⟩ := hsome
      have hx' : 0 ≤ x.toInt := by simpa using hx
      have hin : ¬ (alpha color = 0 ∨ x < 0 ∨ t.gfx.width ≤ x) := by
        rw [Int16.lt_iff_toInt_lt, Int16.le_iff_toInt_le]
        exact not_or.mpr ⟨hcolor, not_or.mpr ⟨hx, hxW⟩⟩
      rw [if_neg hin, h.spanCells_column (inside_iff.mpr (by omega))]

/-- The pixels of a column, those in the clip in turn. -/
theorem Panel.flatMap_column (h : t.Panel) {x y : Int16} (hx : 0 ≤ x.toInt)
    (hxW : x.toInt < t.gfx.width.toInt) {last : Int} (hreach : last ≤ 32767) {color : UInt32}
    (hcolor : alpha color ≠ 0) :
    (List.range (last - y.toInt).toNat).flatMap
        (fun k => t.writePixel x (y + Int16.ofNat k) color) =
      (t.columnCells x.toInt (max 0 y.toInt) (min t.gfx.height.toInt last)).map
        (spanStore color) := by
  rw [t.flatMap_clipped x hreach color, columnCells, List.map_map, List.map_eq_flatMap]
  refine List.flatMap_congr fun k hk => ?_
  rw [List.mem_range] at hk
  have hrow : (Int16.ofInt (max 0 y.toInt + k)).toInt = max 0 y.toInt + k :=
    Int16.toInt_ofInt_of_le (by omega) (by omega)
  rw [h.writePixel_eq hcolor (inside_iff.mpr (by omega)), hrow]
  rfl

/-- A column that is drawn pixel by pixel sets those that are in the clip, if its end is in
reach. -/
theorem Panel.writeFastVLine_pixels (h : t.Panel) (hbuffer : t.backing.hasBuffer = false)
    {x y l : Int16} (hreach : y.toInt + l.toInt ≤ 32767) (color : UInt32) :
    t.writeFastVLine x y l color =
      some ((t.vLineCells x y (y.toInt + l.toInt) color).map (spanStore color)) := by
  have hno : ¬ t.backing.hasBuffer = true := by rw [hbuffer]; exact Bool.false_ne_true
  unfold Surface.writeFastVLine
  rw [vLineCells, if_neg hno, forUp_eq _ hreach, Option.map_some, List.flatMap_map]
  by_cases hcolor : alpha color = 0
  · rw [if_pos hcolor, if_pos (Or.inl hcolor)]
    rfl
  · rw [if_neg hcolor]
    split
    · next hoff =>
      rw [Option.some.injEq, List.map_nil, List.flatMap_eq_nil_iff]
      intro k _
      refine writePixel_outside (not_inside_iff.mpr ?_) color
      rw [or_iff_right hcolor, Int16.lt_iff_toInt_lt, Int16.le_iff_toInt_le] at hoff
      have hzero : (0 : Int16).toInt = 0 := rfl
      omega
    · next hon =>
      simp only [not_or, Int16.lt_iff_toInt_lt, Int16.le_iff_toInt_le] at hon
      obtain ⟨_, hx, hxW⟩ := hon
      rw [h.flatMap_column (by simpa using hx) (Int.not_le.mp hxW) hreach hcolor]

/-! ## The clipped span -/

/-- The narrowed end of a span cuts it where its own end does: the end fits; or the span starts
behind the last pixel; or what is drawn in its place has no pixel either. -/
def SpanFits (from_ length size : Int16) : Prop :=
  (-32768 ≤ from_.toInt + length.toInt ∧ from_.toInt + length.toInt ≤ 32767) ∨
    (32767 < from_.toInt + length.toInt ∧ size.toInt ≤ max 0 from_.toInt) ∨
    (from_.toInt + length.toInt < -32768 ∧
      (size.toInt ≤ 0 ∨ from_.toInt + length.toInt = -65536))

/-- What is cut at the narrowed end is the span exactly there. -/
theorem spanFits_iff (from_ length size : Int16) :
    SpanFits from_ length size ↔ ∀ i : Int, 0 ≤ i → i < size.toInt →
      ((from_.toInt ≤ i ∧ i < (Int16.ofInt (from_.toInt + length.toInt)).toInt) ↔
        from_.toInt ≤ i ∧ i < from_.toInt + length.toInt) := by
  have hfrom := from_.le_toInt
  have hfrom' := from_.toInt_lt
  have hlength := length.le_toInt
  have hlength' := length.toInt_lt
  have hsize := size.toInt_lt
  have hend : (Int16.ofInt (from_.toInt + length.toInt)).toInt =
      (from_.toInt + length.toInt).bmod (2 ^ 16) := Int16.toInt_ofInt
  rw [hend]
  by_cases hhigh : 32767 < from_.toInt + length.toInt
  · have hwrap : (from_.toInt + length.toInt).bmod (2 ^ 16) =
        from_.toInt + length.toInt - 65536 := by
      rw [Int.bmod_def]
      omega
    rw [hwrap, SpanFits]
    constructor
    · intro hfits i hi hi'
      omega
    · intro hexact
      by_contra hmissed
      have hlast := hexact (max 0 from_.toInt) (by omega) (by omega)
      omega
  · by_cases hlow : from_.toInt + length.toInt < -32768
    · have hwrap : (from_.toInt + length.toInt).bmod (2 ^ 16) =
          from_.toInt + length.toInt + 65536 := by
        rw [Int.bmod_def]
        omega
      rw [hwrap, SpanFits]
      constructor
      · intro hfits i hi hi'
        omega
      · intro hexact
        by_contra hmissed
        have hfirst := hexact 0 (by omega) (by omega)
        omega
    · have hsame : (from_.toInt + length.toInt).bmod (2 ^ 16) = from_.toInt + length.toInt :=
        Int.bmod_eq_of_le (by omega) (by omega)
      rw [hsame]
      exact iff_of_true (Or.inl ⟨by omega, by omega⟩) fun i hi hi' => by omega

/-- The pixels of a horizontal span. -/
def hSpan (x y w : Int16) (x' y' : Int) : Prop :=
  y' = y.toInt ∧ x.toInt ≤ x' ∧ x' < x.toInt + w.toInt

/-- The pixels of a vertical span. -/
def vSpan (x y h : Int16) (x' y' : Int) : Prop :=
  x' = x.toInt ∧ y.toInt ≤ y' ∧ y' < y.toInt + h.toInt

/-- A row sets the pixels up to its narrowed end, each once. -/
theorem Panel.mem_hLineCells (h : t.Panel) {x y w : Int16} {color : UInt32} {x' y' : Int}
    (hin : t.gfx.Inside x' y') :
    t.pixelCell x' y' ∈ t.hLineCells x y w color ↔
      alpha color ≠ 0 ∧ y' = y.toInt ∧ x.toInt ≤ x' ∧
        x' < (Int16.ofInt (x.toInt + w.toInt)).toInt := by
  have hzero : (0 : Int16).toInt = 0 := rfl
  have hinside := hin
  obtain ⟨hx, hxW, hy, hyH⟩ := hinside
  rw [hLineCells]
  split
  · next hoff =>
    rw [Int16.lt_iff_toInt_lt, Int16.le_iff_toInt_le] at hoff
    refine iff_of_false List.not_mem_nil ?_
    rintro ⟨hcolor, rfl, _⟩
    rcases hoff with hoff | hoff | hoff
    · exact hcolor hoff
    · omega
    · omega
  · next hon =>
    simp only [not_or, Int16.lt_iff_toInt_lt, Int16.le_iff_toInt_le] at hon
    obtain ⟨hcolor, _, _⟩ := hon
    rw [h.pixelCell_mem_row hin (by omega) (by omega) (by omega) (by omega), and_iff_right hcolor]
    omega

theorem nodup_hLineCells (x y w : Int16) (color : UInt32) : (t.hLineCells x y w color).Nodup := by
  rw [hLineCells]
  split
  · exact List.nodup_nil
  · exact nodup_rowCells _ _ _

theorem inside_of_mem_hLineCells {x y w : Int16} {color : UInt32} {cell : Int}
    (hcell : cell ∈ t.hLineCells x y w color) :
    ∃ x' y', t.gfx.Inside x' y' ∧ t.pixelCell x' y' = cell := by
  have hzero : (0 : Int16).toInt = 0 := rfl
  rw [hLineCells] at hcell
  split at hcell
  · cases hcell
  · next hon =>
    simp only [not_or, Int16.lt_iff_toInt_lt, Int16.le_iff_toInt_le] at hon
    obtain ⟨x', hlo, hhi, rfl⟩ := mem_rowCells.mp hcell
    exact ⟨x', y.toInt, ⟨by omega, by omega, by omega, by omega⟩, rfl⟩

/-- A column sets the pixels up to its end, each once. -/
theorem Panel.mem_vLineCells (h : t.Panel) {x y : Int16} {last : Int} {color : UInt32}
    {x' y' : Int} (hin : t.gfx.Inside x' y') :
    t.pixelCell x' y' ∈ t.vLineCells x y last color ↔
      alpha color ≠ 0 ∧ x' = x.toInt ∧ y.toInt ≤ y' ∧ y' < last := by
  have hzero : (0 : Int16).toInt = 0 := rfl
  have hinside := hin
  obtain ⟨hx, hxW, hy, hyH⟩ := hinside
  rw [vLineCells]
  split
  · next hoff =>
    rw [Int16.lt_iff_toInt_lt, Int16.le_iff_toInt_le] at hoff
    refine iff_of_false List.not_mem_nil ?_
    rintro ⟨hcolor, rfl, _⟩
    rcases hoff with hoff | hoff | hoff
    · exact hcolor hoff
    · omega
    · omega
  · next hon =>
    simp only [not_or, Int16.lt_iff_toInt_lt, Int16.le_iff_toInt_le] at hon
    obtain ⟨hcolor, _, _⟩ := hon
    rw [h.pixelCell_mem_column hin (by omega) (by omega) (by omega) (by omega),
      and_iff_right hcolor]
    omega

theorem Panel.nodup_vLineCells (h : t.Panel) (x y : Int16) (last : Int) (color : UInt32) :
    (t.vLineCells x y last color).Nodup := by
  have hzero : (0 : Int16).toInt = 0 := rfl
  rw [vLineCells]
  split
  · exact List.nodup_nil
  · next hon =>
    simp only [not_or, Int16.lt_iff_toInt_lt, Int16.le_iff_toInt_le] at hon
    exact h.nodup_columnCells (by omega) (by omega) (by omega) (by omega)

theorem inside_of_mem_vLineCells {x y : Int16} {last : Int} {color : UInt32} {cell : Int}
    (hcell : cell ∈ t.vLineCells x y last color) :
    ∃ x' y', t.gfx.Inside x' y' ∧ t.pixelCell x' y' = cell := by
  have hzero : (0 : Int16).toInt = 0 := rfl
  rw [vLineCells] at hcell
  split at hcell
  · cases hcell
  · next hon =>
    simp only [not_or, Int16.lt_iff_toInt_lt, Int16.le_iff_toInt_le] at hon
    obtain ⟨y', hlo, hhi, rfl⟩ := mem_columnCells.mp hcell
    exact ⟨x.toInt, y', ⟨by omega, by omega, by omega, by omega⟩, rfl⟩

/-- `writeFastHLine` draws the clipped span where its narrowed end does, or where there is no
difference to see. -/
theorem Panel.writeFastHLine_fills_iff (h : t.Panel) (x y w : Int16) (color : UInt32) :
    t.Fills (hSpan x y w) color (t.writeFastHLine x y w color) ↔
      t.backing.Idle color ∨ y < 0 ∨ t.gfx.height ≤ y ∨ SpanFits x w t.gfx.width := by
  have hzero : (0 : Int16).toInt = 0 := rfl
  rw [h.writeFastHLine_eq, fills_iff (nodup_hLineCells x y w color)
    fun _ hcell => inside_of_mem_hLineCells hcell, Int16.lt_iff_toInt_lt, Int16.le_iff_toInt_le]
  by_cases hcolor : alpha color = 0
  · exact iff_of_true (Or.inl (t.backing.idle_of_transparent hcolor))
      (Or.inl (t.backing.idle_of_transparent hcolor))
  · refine or_congr_right ?_
    rw [spanFits_iff]
    constructor
    · intro hexact
      rw [or_iff_not_imp_left, or_iff_not_imp_left]
      intro hy hyH i hi hi'
      have hin : t.gfx.Inside i y.toInt := ⟨hi, hi', by omega, by omega⟩
      have hpixel := hexact i y.toInt hin
      rw [h.mem_hLineCells hin, and_iff_right hcolor, and_iff_right rfl, hSpan,
        and_iff_right rfl] at hpixel
      exact hpixel
    · intro hspan x' y' hin
      rw [h.mem_hLineCells hin, and_iff_right hcolor, hSpan]
      obtain ⟨hx, hxW, hy, hyH⟩ := hin
      refine and_congr_right fun hrow => ?_
      rcases hspan with hoff | hoff | hspan
      · omega
      · omega
      · exact hspan x' hx hxW

/-- What a column fills that is cut at an end. -/
theorem Panel.vLineCells_fills_iff (h : t.Panel) (x y l : Int16) (last : Int) (color : UInt32) :
    t.Fills (vSpan x y l) color (some ((t.vLineCells x y last color).map (spanStore color))) ↔
      t.backing.Idle color ∨ x < 0 ∨ t.gfx.width ≤ x ∨
        ∀ i : Int, 0 ≤ i → i < t.gfx.height.toInt →
          ((y.toInt ≤ i ∧ i < last) ↔ y.toInt ≤ i ∧ i < y.toInt + l.toInt) := by
  have hzero : (0 : Int16).toInt = 0 := rfl
  rw [fills_iff (h.nodup_vLineCells x y last color) fun _ hcell => inside_of_mem_vLineCells hcell,
    Int16.lt_iff_toInt_lt, Int16.le_iff_toInt_le]
  by_cases hcolor : alpha color = 0
  · exact iff_of_true (Or.inl (t.backing.idle_of_transparent hcolor))
      (Or.inl (t.backing.idle_of_transparent hcolor))
  · refine or_congr_right ⟨fun hexact => ?_, fun hspan x' y' hin => ?_⟩
    · rw [or_iff_not_imp_left, or_iff_not_imp_left]
      intro hx hxW i hi hi'
      have hin : t.gfx.Inside x.toInt i := ⟨by omega, by omega, hi, hi'⟩
      have hpixel := hexact x.toInt i hin
      rw [h.mem_vLineCells hin, and_iff_right hcolor, and_iff_right rfl, vSpan,
        and_iff_right rfl] at hpixel
      exact hpixel
    · rw [h.mem_vLineCells hin, and_iff_right hcolor, vSpan]
      obtain ⟨hx, hxW, hy, hyH⟩ := hin
      refine and_congr_right fun hcolumn => ?_
      rcases hspan with hoff | hoff | hspan
      · omega
      · omega
      · exact hspan y' hy hyH

/-- `writeFastVLine` draws the clipped span under the same condition into the draw buffer; pixel by
pixel where its end is in reach, and with a colour that is not drawn at all. -/
theorem Panel.writeFastVLine_fills_iff (h : t.Panel) (x y l : Int16) (color : UInt32) :
    t.Fills (vSpan x y l) color (t.writeFastVLine x y l color) ↔
      if t.backing.hasBuffer then
        t.backing.Idle color ∨ x < 0 ∨ t.gfx.width ≤ x ∨ SpanFits y l t.gfx.height
      else alpha color = 0 ∨ y.toInt + l.toInt ≤ 32767 := by
  split
  · next hbuffer =>
    rw [h.writeFastVLine_eq hbuffer, h.vLineCells_fills_iff, spanFits_iff]
  · next hpixels =>
    have hno : t.backing.hasBuffer = false := by simpa using hpixels
    by_cases hcolor : alpha color = 0
    · refine iff_of_true ?_ (Or.inl hcolor)
      have hnothing : t.writeFastVLine x y l color =
          some ((t.vLineCells x y 0 color).map (spanStore color)) := by
        rw [Surface.writeFastVLine, if_pos hcolor, vLineCells, if_pos (Or.inl hcolor)]
        rfl
      rw [hnothing, h.vLineCells_fills_iff]
      exact Or.inl (t.backing.idle_of_transparent hcolor)
    · rw [or_iff_right hcolor]
      by_cases hreach : y.toInt + l.toInt ≤ 32767
      · rw [h.writeFastVLine_pixels hno hreach, h.vLineCells_fills_iff]
        exact iff_of_true (Or.inr (Or.inr (Or.inr fun i hi hi' => by omega))) hreach
      · refine iff_of_false ?_ hreach
        have hstuck : t.writeFastVLine x y l color = none := by
          have hloop := mt (isSome_forUp_iff y (y.toInt + l.toInt)).mp hreach
          rw [Option.not_isSome_iff_eq_none] at hloop
          rw [Surface.writeFastVLine, if_neg hcolor, if_neg hpixels, hloop, Option.map_none]
        rintro ⟨stores, hstores, _⟩
        rw [hstuck] at hstores
        cases hstores

/-- Both spans, on a panel. -/
theorem Panel.spans_fill_iff (h : t.Panel) (color : UInt32) :
    (∀ x y w, t.Fills (hSpan x y w) color (t.writeFastHLine x y w color) ↔
      t.backing.Idle color ∨ y < 0 ∨ t.gfx.height ≤ y ∨ SpanFits x w t.gfx.width) ∧
    ∀ x y l, t.Fills (vSpan x y l) color (t.writeFastVLine x y l color) ↔
      if t.backing.hasBuffer then
        t.backing.Idle color ∨ x < 0 ∨ t.gfx.width ≤ x ∨ SpanFits y l t.gfx.height
      else alpha color = 0 ∨ y.toInt + l.toInt ≤ 32767 :=
  ⟨fun x y w => h.writeFastHLine_fills_iff x y w color,
    fun x y l => h.writeFastVLine_fills_iff x y l color⟩

end Surface

theorem panel_landscape : landscape.Panel where
  rotation := rfl
  kind := Or.inl ⟨1280, ⟨rfl, by decide, by decide⟩, by decide⟩

/-- Spans that reach out of the screen are drawn up to its edge. -/
theorem spans_fill_landscape :
    landscape.Fills (Surface.hSpan 300 10 100) 0x80FF0000
      (landscape.writeFastHLine 300 10 100 0x80FF0000) :=
  ((panel_landscape.spans_fill_iff 0x80FF0000).1 300 10 100).mpr
    (Or.inr (Or.inr (Or.inr (Or.inl (by decide)))))

/-- A span across the screen whose end is out of reach is not drawn. -/
theorem not_fills_landscape :
    ¬ landscape.Fills (Surface.hSpan 10 10 32767) 0xFFFF0000
      (landscape.writeFastHLine 10 10 32767 0xFFFF0000) := by
  rw [panel_landscape.writeFastHLine_fills_iff]
  rintro (hidle | hy | hy | hfits)
  · exact absurd (hidle 0 rfl) (by decide)
  · exact absurd hy (by decide)
  · exact absurd hy (by decide)
  · rcases hfits with hfits | hfits | hfits <;> revert hfits <;> decide

end MFoES.Libgfx
