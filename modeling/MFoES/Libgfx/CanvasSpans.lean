import MFoES.Libgfx.ClippedSpans

/-!
# The fast paths of a canvas

`drawFastHLine` and `fillScreen` of a canvas set their pixels to the colour, where `drawPixel` puts
it over what they have; `drawFastVLine` goes by `setPixelRaw`, as `drawPixel` does.  So the first
two agree with it exactly on contents for which that makes no difference (`canvas_agrees_iff`).

A canvas has its size in `uint16_t` and reads it as `int16_t`.  Where that is negative `drawPixel`
finds no pixel, and the cut of a span may wrap.
-/

namespace MFoES.Libgfx

variable {F : Type}

/-! ## Stores of one colour -/

/-- A pixel of a span that is set to the colour. -/
def plainStore (color : UInt32) (cell : Int) : Store := ⟨cell, .plain color⟩

theorem paint_plainStores (b : Backing) (mem : Int → UInt32) (color : UInt32) (l : List Int)
    (cell : Int) :
    paint b mem (l.map (plainStore color)) cell = if cell ∈ l then b.keep color else mem cell := by
  induction l generalizing mem with
  | nil => rfl
  | cons c l ih =>
      show paint b ((plainStore color c).run b mem) (l.map (plainStore color)) cell = _
      rw [ih, Store.run]
      by_cases hcell : cell ∈ l
      · rw [if_pos hcell, if_pos (List.mem_cons_of_mem c hcell)]
      · rw [if_neg hcell]
        by_cases hown : cell = c
        · subst hown
          rw [if_pos List.mem_cons_self]
          exact Function.update_self _ _ _
        · rw [if_neg (by simp [hown, hcell])]
          exact Function.update_of_ne hown _ _

theorem paint_span {b : Backing} {mem : Int → UInt32} {color : UInt32} {l : List Int}
    (hl : l.Nodup) (cell : Int) :
    paint b mem (l.map (spanStore color)) cell =
      if cell ∈ l then b.blended color (mem cell) else mem cell := by
  split
  · next h => exact paint_span_own hl h
  · next h => exact paint_span_other h

/-- Stores of a colour, and of the colour over what there is. -/
theorem paint_plain_eq_iff {b : Backing} {mem : Int → UInt32} {color : UInt32} {l l' : List Int}
    (hl' : l'.Nodup) (hsub : ∀ cell ∈ l', cell ∈ l) :
    paint b mem (l.map (plainStore color)) = paint b mem (l'.map (spanStore color)) ↔
      ∀ cell ∈ l, (if cell ∈ l' then b.blended color (mem cell) else mem cell) = b.keep color := by
  constructor
  · intro heq cell hcell
    have hvalue := congrFun heq cell
    rw [paint_plainStores, paint_span hl', if_pos hcell] at hvalue
    exact hvalue.symm
  · intro hall
    funext cell
    rw [paint_plainStores, paint_span hl']
    by_cases hcell : cell ∈ l
    · rw [if_pos hcell, hall cell hcell]
    · rw [if_neg hcell, if_neg (mt (hsub cell) hcell)]

/-- The order of the stores does not matter. -/
theorem paint_span_congr {b : Backing} {mem : Int → UInt32} {color : UInt32} {l l' : List Int}
    (hl : l.Nodup) (hl' : l'.Nodup) (h : ∀ cell, cell ∈ l ↔ cell ∈ l') :
    paint b mem (l.map (spanStore color)) = paint b mem (l'.map (spanStore color)) := by
  funext cell
  rw [paint_span hl, paint_span hl']
  exact if_congr (h cell) rfl rfl

/-! ## Pixel by pixel -/

namespace Surface

variable (t : Surface F)

/-- `drawPixel` on each pixel. -/
def drawPixels (ps : List (Int16 × Int16)) (color : UInt32) : List Store :=
  ps.flatMap fun p => t.drawPixel p.1 p.2 color

/-- The cells of the pixels in the clip. -/
def cellsOf (ps : List (Int16 × Int16)) : List Int :=
  ps.flatMap fun p =>
    if t.gfx.inside p.1 p.2 then [t.pixelCell p.1.toInt p.2.toInt] else []

/-- The pixels of a horizontal span. -/
def spanRow (x y w : Int16) : List (Int16 × Int16) :=
  (List.range w.toInt.toNat).map fun k => (x + Int16.ofNat k, y)

/-- The pixels of a vertical span. -/
def spanColumn (x y h : Int16) : List (Int16 × Int16) :=
  (List.range h.toInt.toNat).map fun k => (x, y + Int16.ofNat k)

/-- The pixels of the whole surface. -/
def screen : List (Int16 × Int16) :=
  (cells t.gfx.width t.gfx.height).map fun p => (Int16.ofNat p.1, Int16.ofNat p.2)

/-- What is drawn returns, and leaves what `drawPixel` leaves on each of the pixels. -/
def Agrees (mem : Int → UInt32) (drawn : Option (List Store)) (ps : List (Int16 × Int16))
    (color : UInt32) : Prop :=
  ∃ stores, drawn = some stores ∧
    paint t.backing mem stores = paint t.backing mem (t.drawPixels ps color)

variable {t}

theorem mem_cellsOf {ps : List (Int16 × Int16)} {cell : Int} :
    cell ∈ t.cellsOf ps ↔
      ∃ p ∈ ps, t.gfx.inside p.1 p.2 = true ∧ t.pixelCell p.1.toInt p.2.toInt = cell := by
  rw [cellsOf, List.mem_flatMap]
  refine exists_congr fun p => and_congr_right fun _ => ?_
  split
  · next hin => rw [List.mem_singleton, eq_comm, and_iff_right hin]
  · next hout => exact iff_of_false List.not_mem_nil fun h => hout h.1

theorem Panel.nodup_cellsOf (h : t.Panel) {ps : List (Int16 × Int16)} (hps : ps.Nodup) :
    (t.cellsOf ps).Nodup := by
  rw [cellsOf, List.nodup_flatMap]
  refine ⟨fun p _ => by split <;> simp, hps.imp fun {p q} hne cell hp hq => ?_⟩
  dsimp only at hp hq
  split at hp
  · next hin =>
    split at hq
    · next hin' =>
      rw [List.mem_singleton] at hp hq
      obtain ⟨hx, hy⟩ := h.injective (inside_iff.mp hin) (inside_iff.mp hin') (hp.symm.trans hq)
      exact hne (Prod.ext (Int16.toInt_inj.mp hx) (Int16.toInt_inj.mp hy))
    · cases hq
  · cases hp

theorem Panel.drawPixels_eq (h : t.Panel) {color : UInt32} (hcolor : alpha color ≠ 0)
    (ps : List (Int16 × Int16)) :
    t.drawPixels ps color = (t.cellsOf ps).map (spanStore color) := by
  rw [drawPixels, cellsOf, List.map_flatMap]
  refine List.flatMap_congr fun p _ => ?_
  rw [h.drawPixel_eq]
  split
  · next hin => exact h.writePixel_eq hcolor hin
  · next hout => rw [writePixel_outside (Bool.not_eq_true _ ▸ hout), List.map_nil]

theorem Panel.drawPixels_transparent (h : t.Panel) {color : UInt32} (hcolor : alpha color = 0)
    (ps : List (Int16 × Int16)) : t.drawPixels ps color = [] := by
  refine List.flatMap_eq_nil_iff.mpr fun p _ => ?_
  rw [h.drawPixel_eq, Surface.writePixel, if_pos (Or.inl hcolor)]

/-! ## Spans -/

theorem nodup_spanRow (x y w : Int16) : (spanRow x y w).Nodup := by
  refine List.Nodup.map_on (fun k hk k' hk' heq => ?_) List.nodup_range
  exact offset_injOn (List.mem_range.mp hk) (List.mem_range.mp hk') (Prod.mk.inj heq).1

theorem nodup_spanColumn (x y h : Int16) : (spanColumn x y h).Nodup := by
  refine List.Nodup.map_on (fun k hk k' hk' heq => ?_) List.nodup_range
  exact offset_injOn (List.mem_range.mp hk) (List.mem_range.mp hk') (Prod.mk.inj heq).2

theorem mem_cellsOf_spanRow {x y w : Int16} {cell : Int} :
    cell ∈ t.cellsOf (spanRow x y w) ↔
      ∃ x', t.gfx.Inside x' y.toInt ∧ x.toInt ≤ x' ∧ x' < x.toInt + w.toInt ∧
        t.pixelCell x' y.toInt = cell := by
  rw [mem_cellsOf]
  constructor
  · rintro ⟨_, hp, hin, hcell⟩
    obtain ⟨k, hk, rfl⟩ := List.mem_map.mp hp
    rw [List.mem_range] at hk
    dsimp only at hin hcell
    have hinside := inside_iff.mp hin
    have hx := toInt_span hk hinside.1
    exact ⟨_, hinside, by omega, by omega, hcell⟩
  · rintro ⟨x', hin, hlo, hhi, hcell⟩
    have hinside := hin
    obtain ⟨hx, hxW, _, _⟩ := hinside
    have hW := t.gfx.width.toInt_lt
    have hx' := toInt_offset hlo (show x' ≤ 32767 by omega)
    refine ⟨_, List.mem_map.mpr ⟨(x' - x.toInt).toNat, List.mem_range.mpr (by omega), rfl⟩, ?_, ?_⟩
    · rw [inside_iff, hx']
      exact hin
    · rw [hx']
      exact hcell

theorem mem_cellsOf_spanColumn {x y l : Int16} {cell : Int} :
    cell ∈ t.cellsOf (spanColumn x y l) ↔
      ∃ y', t.gfx.Inside x.toInt y' ∧ y.toInt ≤ y' ∧ y' < y.toInt + l.toInt ∧
        t.pixelCell x.toInt y' = cell := by
  rw [mem_cellsOf]
  constructor
  · rintro ⟨_, hp, hin, hcell⟩
    obtain ⟨k, hk, rfl⟩ := List.mem_map.mp hp
    rw [List.mem_range] at hk
    dsimp only at hin hcell
    have hinside := inside_iff.mp hin
    have hy := toInt_span hk hinside.2.2.1
    exact ⟨_, hinside, by omega, by omega, hcell⟩
  · rintro ⟨y', hin, hlo, hhi, hcell⟩
    have hinside := hin
    obtain ⟨_, _, hy, hyH⟩ := hinside
    have hH := t.gfx.height.toInt_lt
    have hy' := toInt_offset hlo (show y' ≤ 32767 by omega)
    refine ⟨_, List.mem_map.mpr ⟨(y' - y.toInt).toNat, List.mem_range.mpr (by omega), rfl⟩, ?_, ?_⟩
    · rw [inside_iff, hy']
      exact hin
    · rw [hy']
      exact hcell

/-! ## The cut of a span -/

/-- Where the cut of a span ends.  The distance from its start to the edge is narrowed: it wraps
where the size is negative and the start far enough from it. -/
def cutEnd (a n size : Int16) : Int :=
  if size.toInt + 32768 < a.toInt then size.toInt + 65536 else min size.toInt (a.toInt + n.toInt)

/-- The start and the length of a cut span. -/
def cut (a n size : Int16) : Int16 × Int16 :=
  let (a', n') := if a < 0 then (0, n + a) else (a, n)
  (a', if size.toInt < a'.toInt + n'.toInt then size - a' else n')

theorem cut_spec {a n : Int16} (hn : 0 < n.toInt) (size : Int16) :
    (cut a n size).1.toInt = max 0 a.toInt ∧
      (cut a n size).2.toInt = cutEnd a n size - max 0 a.toInt := by
  have ha := a.le_toInt
  have ha' := a.toInt_lt
  have hn' := n.toInt_lt
  have hsize := size.le_toInt
  have hsize' := size.toInt_lt
  have hzero : (0 : Int16).toInt = 0 := rfl
  rw [cut, cutEnd]
  by_cases hneg : a < 0
  · rw [if_pos hneg]
    rw [Int16.lt_iff_toInt_lt] at hneg
    have hsum : (n + a).toInt = n.toInt + a.toInt := toInt_add_of (by omega) (by omega)
    dsimp only
    rw [hsum, Int16.sub_zero]
    split <;> split <;> omega
  · rw [if_neg hneg]
    rw [Int16.lt_iff_toInt_lt] at hneg
    dsimp only
    have hdiff : (size - a).toInt = (size.toInt - a.toInt).bmod (2 ^ 16) := Int16.toInt_sub _ _
    rw [Int.bmod_def] at hdiff
    split <;> split <;> omega

/-! ## The fast paths -/

section Canvas

variable {format : Format} (hb : t.backing = .canvas format true)

include hb

theorem drawFastHLine_cut (x y w : Int16) (color : UInt32) :
    t.drawFastHLine x y w color =
      if w ≤ 0 ∨ y < 0 ∨ t.gfx.height ≤ y ∨ (cut x w t.gfx.width).2 ≤ 0 ∨ alpha color = 0 then
        some []
      else some ((List.range (cut x w t.gfx.width).2.toInt.toNat).map fun k : Nat =>
        plainStore color (t.rawCell (cut x w t.gfx.width).1 y + k)) := by
  rw [Surface.drawFastHLine, hb]
  simp only [cut, plainStore, Bool.true_eq_false, false_or, List.pure_def, List.bind_eq_flatMap,
    ← List.map_eq_flatMap, List.map_map]
  rfl

theorem drawFastVLine_cut (x y h : Int16) (color : UInt32) :
    t.drawFastVLine x y h color =
      if h ≤ 0 ∨ x < 0 ∨ t.gfx.width ≤ x ∨ (cut y h t.gfx.height).2 ≤ 0 ∨ alpha color = 0 then
        some []
      else (forUp (cut y h t.gfx.height).1
        ((cut y h t.gfx.height).1.toInt + (cut y h t.gfx.height).2.toInt)).map fun rows =>
          rows.map fun row => spanStore color (t.rawCell x row) := by
  rw [Surface.drawFastVLine, hb]
  by_cases hcolor : alpha color = 0
  · simp only [hcolor, or_true, if_true]
  · simp only [cut, setPixelRaw, hcolor, Bool.true_eq_false, false_or, if_false,
      ← List.map_eq_flatMap]

theorem rawCell_eq (x y : Int16) : t.rawCell x y = t.pixelCell x.toInt y.toInt := by
  rw [pixelCell, stride, hb]
  rfl

/-- The cells of a row on a canvas. -/
def canvasRow (t : Surface F) (x y w : Int16) : List Int :=
  if w ≤ 0 ∨ y < 0 ∨ t.gfx.height ≤ y then []
  else t.rowCells (max 0 x.toInt) (cutEnd x w t.gfx.width) y.toInt

theorem drawFastHLine_canvas (x y w : Int16) {color : UInt32} (hcolor : alpha color ≠ 0) :
    t.drawFastHLine x y w color = some ((t.canvasRow x y w).map (plainStore color)) := by
  rw [drawFastHLine_cut hb, canvasRow]
  simp only [hcolor, or_false]
  by_cases hoff : w ≤ 0 ∨ y < 0 ∨ t.gfx.height ≤ y
  · have hoff' : w ≤ 0 ∨ y < 0 ∨ t.gfx.height ≤ y ∨ (cut x w t.gfx.width).2 ≤ 0 := by
      rcases hoff with hw | hy | hyH
      · exact Or.inl hw
      · exact Or.inr (Or.inl hy)
      · exact Or.inr (Or.inr (Or.inl hyH))
    rw [if_pos hoff, if_pos hoff']
    rfl
  · rw [if_neg hoff]
    simp only [not_or] at hoff
    obtain ⟨hw, hy, hyH⟩ := hoff
    simp only [hw, hy, hyH, false_or]
    rw [Int16.le_iff_toInt_le] at hw
    have hw : 0 < w.toInt := Int.not_le.mp hw
    obtain ⟨hfirst, hlength⟩ := cut_spec hw t.gfx.width (a := x)
    rw [rowCells, ← hlength]
    split
    · next hempty =>
      rw [Int16.le_iff_toInt_le] at hempty
      rw [Int.toNat_eq_zero.mpr hempty]
      rfl
    · rw [Option.some.injEq, List.map_map]
      refine List.map_congr_left fun k _ => ?_
      show plainStore color _ = plainStore color (t.pixelCell (max 0 x.toInt + k) y.toInt)
      rw [rawCell_eq hb, hfirst, pixelCell, pixelCell, Int.add_assoc]

omit hb in
theorem mem_canvasRow {x y w : Int16} {cell : Int} :
    cell ∈ t.canvasRow x y w ↔
      0 < w.toInt ∧ 0 ≤ y.toInt ∧ y.toInt < t.gfx.height.toInt ∧
        ∃ x', max 0 x.toInt ≤ x' ∧ x' < cutEnd x w t.gfx.width ∧ t.pixelCell x' y.toInt = cell := by
  have hzero : (0 : Int16).toInt = 0 := rfl
  rw [canvasRow]
  split
  · next hoff =>
    rw [Int16.le_iff_toInt_le, Int16.lt_iff_toInt_lt, Int16.le_iff_toInt_le] at hoff
    exact iff_of_false List.not_mem_nil fun h => by omega
  · next hon =>
    rw [Int16.le_iff_toInt_le, Int16.lt_iff_toInt_lt, Int16.le_iff_toInt_le] at hon
    rw [mem_rowCells, and_iff_right (by omega), and_iff_right (by omega), and_iff_right (by omega)]

omit hb in
/-- The cells of a row are those of its pixels in the clip, but where the size wraps. -/
theorem mem_cellsOf_iff_of_canvasRow {x y w : Int16} {cell : Int} (h : cell ∈ t.canvasRow x y w) :
    cell ∈ t.cellsOf (spanRow x y w) ↔ 0 ≤ t.gfx.width.toInt ∧ 0 ≤ t.gfx.height.toInt := by
  have hx := x.toInt_lt
  obtain ⟨_, hy, hyH, x', hlo, hhi, hcell⟩ := mem_canvasRow.mp h
  rw [mem_cellsOf_spanRow]
  constructor
  · rintro ⟨_, ⟨hx', hxW, _, _⟩, _⟩
    exact ⟨by omega, by omega⟩
  · rintro ⟨hW, _⟩
    rw [cutEnd, if_neg (by omega)] at hhi
    exact ⟨x', ⟨by omega, by omega, hy, hyH⟩, by omega, by omega, hcell⟩

omit hb in
theorem mem_canvasRow_of_cellsOf {x y w : Int16} {cell : Int}
    (h : cell ∈ t.cellsOf (spanRow x y w)) : cell ∈ t.canvasRow x y w := by
  obtain ⟨x', ⟨hx, hxW, hy, hyH⟩, hlo, hhi, hcell⟩ := mem_cellsOf_spanRow.mp h
  refine mem_canvasRow.mpr ⟨by omega, hy, hyH, x', by omega, ?_, hcell⟩
  rw [cutEnd, if_neg (by omega)]
  omega

theorem panel_canvas (hrot : t.gfx.rotation = 0) : t.Panel := ⟨hrot, Or.inr ⟨format, hb⟩⟩

/-- What `drawPixel` leaves in a cell of the buffer: on a canvas whose size wraps, what there is. -/
def pixelwise (t : Surface F) (color v : UInt32) : UInt32 :=
  if 0 ≤ t.gfx.width.toInt ∧ 0 ≤ t.gfx.height.toInt then t.backing.blended color v else v

/-- A row agrees with its pixels where none of them would keep something of what it has. -/
theorem drawFastHLine_agrees_iff (hrot : t.gfx.rotation = 0) (mem : Int → UInt32) (x y w : Int16)
    (color : UInt32) :
    t.Agrees mem (t.drawFastHLine x y w color) (spanRow x y w) color ↔
      alpha color = 0 ∨ ∀ cell ∈ t.canvasRow x y w,
        t.pixelwise color (mem cell) = t.backing.keep color := by
  have hpanel := panel_canvas hb hrot
  by_cases hcolor : alpha color = 0
  · refine iff_of_true ⟨[], ?_, ?_⟩ (Or.inl hcolor)
    · rw [drawFastHLine_cut hb, if_pos (by simp [hcolor])]
    · rw [hpanel.drawPixels_transparent hcolor]
  · rw [or_iff_right hcolor, Agrees, drawFastHLine_canvas hb x y w hcolor]
    simp only [Option.some.injEq, exists_eq_left']
    rw [hpanel.drawPixels_eq hcolor, paint_plain_eq_iff]
    · refine forall₂_congr fun cell hcell => ?_
      simp only [mem_cellsOf_iff_of_canvasRow hcell, pixelwise]
    · exact hpanel.nodup_cellsOf (nodup_spanRow x y w)
    · exact fun _ => mem_canvasRow_of_cellsOf

/-- The cells of a column on a canvas. -/
def canvasColumn (t : Surface F) (x y h : Int16) : List Int :=
  if h ≤ 0 ∨ x < 0 ∨ t.gfx.width ≤ x then []
  else t.columnCells x.toInt (max 0 y.toInt) (cutEnd y h t.gfx.height)

theorem drawFastVLine_canvas {x y h : Int16}
    (hreach : h ≤ 0 ∨ x < 0 ∨ t.gfx.width ≤ x ∨ y.toInt ≤ t.gfx.height.toInt + 32768)
    {color : UInt32} (hcolor : alpha color ≠ 0) :
    t.drawFastVLine x y h color = some ((t.canvasColumn x y h).map (spanStore color)) := by
  rw [drawFastVLine_cut hb, canvasColumn]
  simp only [hcolor, or_false]
  by_cases hoff : h ≤ 0 ∨ x < 0 ∨ t.gfx.width ≤ x
  · have hoff' : h ≤ 0 ∨ x < 0 ∨ t.gfx.width ≤ x ∨ (cut y h t.gfx.height).2 ≤ 0 := by
      rcases hoff with hh | hx | hxW
      · exact Or.inl hh
      · exact Or.inr (Or.inl hx)
      · exact Or.inr (Or.inr (Or.inl hxW))
    rw [if_pos hoff, if_pos hoff']
    rfl
  · rw [if_neg hoff]
    simp only [not_or] at hoff
    obtain ⟨hh, hx, hxW⟩ := hoff
    simp only [hh, hx, hxW, false_or] at hreach ⊢
    rw [Int16.le_iff_toInt_le] at hh
    have hh : 0 < h.toInt := Int.not_le.mp hh
    obtain ⟨hfirst, hlength⟩ := cut_spec hh t.gfx.height (a := y)
    rw [columnCells, ← hlength]
    split
    · next hempty =>
      rw [Int16.le_iff_toInt_le] at hempty
      rw [Int.toNat_eq_zero.mpr hempty]
      rfl
    · have hH := t.gfx.height.toInt_lt
      have hlast : cutEnd y h t.gfx.height ≤ 32767 := by
        rw [cutEnd, if_neg (by omega)]
        omega
      rw [forUp_eq _ (by omega), add_sub_cancel_left, Option.map_some, Option.some.injEq,
        List.map_map, List.map_map]
      refine List.map_congr_left fun k hk => ?_
      rw [List.mem_range] at hk
      show spanStore color _ = spanStore color (t.pixelCell x.toInt (max 0 y.toInt + k))
      rw [rawCell_eq hb, toInt_add_ofNat (by omega), hfirst]

/-- A column whose cut wraps does not return. -/
theorem drawFastVLine_stuck {x y h : Int16} (hh : 0 < h.toInt) (hx : ¬ x < 0)
    (hxW : ¬ t.gfx.width ≤ x) (hwraps : t.gfx.height.toInt + 32768 < y.toInt) {color : UInt32}
    (hcolor : alpha color ≠ 0) : t.drawFastVLine x y h color = none := by
  obtain ⟨hfirst, hlength⟩ := cut_spec hh t.gfx.height (a := y)
  have hy := y.toInt_lt
  have hH := t.gfx.height.le_toInt
  have hlast : cutEnd y h t.gfx.height = t.gfx.height.toInt + 65536 := by
    rw [cutEnd, if_pos hwraps]
  have hsome : ¬ (cut y h t.gfx.height).2 ≤ 0 := by
    rw [Int16.le_iff_toInt_le, hlength, hlast]
    show ¬ _ ≤ (0 : Int)
    omega
  have hh' : ¬ h ≤ 0 := by
    rw [Int16.le_iff_toInt_le]
    exact Int.not_le.mpr hh
  rw [drawFastVLine_cut hb]
  simp only [hh', hx, hxW, hsome, hcolor, or_self, if_false]
  rw [Option.map_eq_none_iff, ← Option.not_isSome_iff_eq_none, isSome_forUp_iff]
  omega

omit hb in
theorem mem_canvasColumn {x y h : Int16} {cell : Int} :
    cell ∈ t.canvasColumn x y h ↔
      0 < h.toInt ∧ 0 ≤ x.toInt ∧ x.toInt < t.gfx.width.toInt ∧
        ∃ y', max 0 y.toInt ≤ y' ∧ y' < cutEnd y h t.gfx.height ∧
          t.pixelCell x.toInt y' = cell := by
  have hzero : (0 : Int16).toInt = 0 := rfl
  rw [canvasColumn]
  split
  · next hoff =>
    rw [Int16.le_iff_toInt_le, Int16.lt_iff_toInt_lt, Int16.le_iff_toInt_le] at hoff
    exact iff_of_false List.not_mem_nil fun h => by omega
  · next hon =>
    rw [Int16.le_iff_toInt_le, Int16.lt_iff_toInt_lt, Int16.le_iff_toInt_le] at hon
    rw [mem_columnCells, and_iff_right (by omega), and_iff_right (by omega),
      and_iff_right (by omega)]

omit hb in
theorem mem_canvasColumn_iff {x y h : Int16}
    (hreach : h ≤ 0 ∨ x < 0 ∨ t.gfx.width ≤ x ∨ y.toInt ≤ t.gfx.height.toInt + 32768)
    (cell : Int) : cell ∈ t.canvasColumn x y h ↔ cell ∈ t.cellsOf (spanColumn x y h) := by
  have hzero : (0 : Int16).toInt = 0 := rfl
  simp only [Int16.le_iff_toInt_le, Int16.lt_iff_toInt_lt, hzero] at hreach
  rw [mem_canvasColumn, mem_cellsOf_spanColumn]
  constructor
  · rintro ⟨hh, hx, hxW, y', hlo, hhi, hcell⟩
    rw [cutEnd, if_neg (by omega)] at hhi
    exact ⟨y', ⟨hx, hxW, by omega, by omega⟩, by omega, by omega, hcell⟩
  · rintro ⟨y', ⟨hx, hxW, hy, hyH⟩, hlo, hhi, hcell⟩
    refine ⟨by omega, hx, hxW, y', by omega, ?_, hcell⟩
    rw [cutEnd, if_neg (by omega)]
    omega

omit hb in
theorem Panel.nodup_canvasColumn (hpanel : t.Panel) {x y h : Int16}
    (hreach : h ≤ 0 ∨ x < 0 ∨ t.gfx.width ≤ x ∨ y.toInt ≤ t.gfx.height.toInt + 32768) :
    (t.canvasColumn x y h).Nodup := by
  have hzero : (0 : Int16).toInt = 0 := rfl
  simp only [Int16.le_iff_toInt_le, Int16.lt_iff_toInt_lt, hzero] at hreach
  rw [canvasColumn]
  split
  · exact List.nodup_nil
  · next hon =>
    rw [Int16.le_iff_toInt_le, Int16.lt_iff_toInt_lt, Int16.le_iff_toInt_le] at hon
    refine hpanel.nodup_columnCells (by omega) (by omega) (by omega) ?_
    rw [cutEnd, if_neg (by omega)]
    omega

/-- A column agrees with its pixels, if it returns. -/
theorem drawFastVLine_agrees_iff (hrot : t.gfx.rotation = 0) (mem : Int → UInt32) (x y h : Int16)
    (color : UInt32) :
    t.Agrees mem (t.drawFastVLine x y h color) (spanColumn x y h) color ↔
      alpha color = 0 ∨ h ≤ 0 ∨ x < 0 ∨ t.gfx.width ≤ x ∨
        y.toInt ≤ t.gfx.height.toInt + 32768 := by
  have hpanel := panel_canvas hb hrot
  by_cases hcolor : alpha color = 0
  · refine iff_of_true ⟨[], ?_, ?_⟩ (Or.inl hcolor)
    · rw [drawFastVLine_cut hb, if_pos (by simp [hcolor])]
    · rw [hpanel.drawPixels_transparent hcolor]
  · rw [or_iff_right hcolor, Agrees, hpanel.drawPixels_eq hcolor]
    by_cases hreach : h ≤ 0 ∨ x < 0 ∨ t.gfx.width ≤ x ∨ y.toInt ≤ t.gfx.height.toInt + 32768
    · refine iff_of_true ⟨_, drawFastVLine_canvas hb hreach hcolor, ?_⟩ hreach
      refine paint_span_congr ?_ (hpanel.nodup_cellsOf (nodup_spanColumn x y h))
        (mem_canvasColumn_iff hreach)
      exact hpanel.nodup_canvasColumn hreach
    · refine iff_of_false ?_ hreach
      simp only [not_or] at hreach
      obtain ⟨hh, hx, hxW, hwraps⟩ := hreach
      rw [Int16.le_iff_toInt_le] at hh
      rintro ⟨stores, hstores, _⟩
      rw [drawFastVLine_stuck hb (Int.not_le.mp hh) hx hxW (Int.not_le.mp hwraps) hcolor] at hstores
      cases hstores

omit hb in
theorem mem_screen {x y : Int16} : (x, y) ∈ t.screen ↔ t.gfx.inside x y = true := by
  have hW := t.gfx.width.toInt_lt
  have hH := t.gfx.height.toInt_lt
  rw [screen, List.mem_map]
  simp only [cells, List.mem_flatMap, List.mem_map, List.mem_range, inside_iff, Prod.exists,
    Prod.mk.injEq]
  constructor
  · rintro ⟨i, j, ⟨_, hj, _, hi, rfl, rfl⟩, rfl, rfl⟩
    rw [Int16.toInt_ofNat_of_lt (by omega), Int16.toInt_ofNat_of_lt (by omega)]
    omega
  · rintro ⟨hx, hxW, hy, hyH⟩
    refine ⟨x.toInt.toNat, y.toInt.toNat, ⟨_, by omega, _, by omega, rfl, rfl⟩, ?_, ?_⟩
    · rw [← Int16.toInt_inj, Int16.toInt_ofNat_of_lt (by omega), Int.toNat_of_nonneg hx]
    · rw [← Int16.toInt_inj, Int16.toInt_ofNat_of_lt (by omega), Int.toNat_of_nonneg hy]

omit hb in
theorem nodup_screen : t.screen.Nodup := by
  have hW := t.gfx.width.toInt_lt
  have hH := t.gfx.height.toInt_lt
  have hcells : (cells t.gfx.width t.gfx.height).Nodup := by
    rw [cells, List.nodup_flatMap]
    refine ⟨fun j _ => List.nodup_range.map fun i i' heq => (Prod.mk.inj heq).1,
      List.nodup_range.imp fun {j j'} hne p hp hp' => ?_⟩
    obtain ⟨i, _, rfl⟩ := List.mem_map.mp hp
    obtain ⟨i', _, heq⟩ := List.mem_map.mp hp'
    exact hne (Prod.mk.inj heq).2.symm
  refine List.Nodup.map_on (fun p hp q hq heq => ?_) hcells
  simp only [cells, List.mem_flatMap, List.mem_map, List.mem_range] at hp hq
  obtain ⟨j, hj, i, hi, rfl⟩ := hp
  obtain ⟨j', hj', i', hi', rfl⟩ := hq
  rw [Prod.mk.injEq, ← Int16.toInt_inj, ← Int16.toInt_inj, Int16.toInt_ofNat_of_lt (by omega),
    Int16.toInt_ofNat_of_lt (by omega), Int16.toInt_ofNat_of_lt (by omega),
    Int16.toInt_ofNat_of_lt (by omega)] at heq
  rw [Prod.mk.injEq]
  omega

omit hb in
/-- A canvas whose size does not wrap has the pixels of its sides. -/
theorem screenPixels_eq (hW : 0 ≤ t.gfx.width.toInt) (hH : 0 ≤ t.gfx.height.toInt)
    (format : Format) :
    (t.screenPixels format : Int) = t.gfx.width.toInt * t.gfx.height.toInt := by
  have hW' := t.gfx.width.toInt_lt
  have hH' := t.gfx.height.toInt_lt
  have hnat : ∀ v : Int16, 0 ≤ v.toInt → (v.toUInt16.toNat : Int) = v.toInt := by
    intro v hv
    rw [Int16.toNat_toUInt16_of_le (Int16.le_iff_toInt_le.mpr hv), Int16.toNatClampNeg]
    exact Int.toNat_of_nonneg hv
  have hnonneg : 0 ≤ t.gfx.width.toInt * t.gfx.height.toInt := Int.mul_nonneg hW hH
  have hle : t.gfx.width.toInt * t.gfx.height.toInt ≤ 32767 * 32767 :=
    Int.mul_le_mul (by omega) (by omega) hH (by omega)
  cases format with
  | bw | gray8 =>
      simp only [screenPixels]
      rw [Int.natCast_mul, hnat _ hW, hnat _ hH]
  | rgb565 | rgb888 | argb8888 =>
      simp only [screenPixels]
      rw [Int.emod_eq_of_lt hnonneg (by omega), Int.toNat_of_nonneg hnonneg]

omit hb in
theorem mem_cellsOf_screen_iff {cell : Int} :
    cell ∈ t.cellsOf t.screen ↔ ∃ x y, t.gfx.Inside x y ∧ t.pixelCell x y = cell := by
  have hW := t.gfx.width.toInt_lt
  have hH := t.gfx.height.toInt_lt
  rw [mem_cellsOf]
  constructor
  · rintro ⟨p, _, hin, hcell⟩
    exact ⟨_, _, inside_iff.mp hin, hcell⟩
  · rintro ⟨x, y, hin, hcell⟩
    have hinside := hin
    obtain ⟨hx, hxW, hy, hyH⟩ := hinside
    have hxt : (Int16.ofInt x).toInt = x := Int16.toInt_ofInt_of_le (by omega) (by omega)
    have hyt : (Int16.ofInt y).toInt = y := Int16.toInt_ofInt_of_le (by omega) (by omega)
    have hclip : t.gfx.inside (Int16.ofInt x) (Int16.ofInt y) = true := by
      rw [inside_iff, hxt, hyt]
      exact hin
    exact ⟨_, mem_screen.mpr hclip, hclip, by rw [hxt, hyt, hcell]⟩

/-- The pixels of a canvas are all of its buffer. -/
theorem mem_cellsOf_screen {cell : Int} :
    cell ∈ t.cellsOf t.screen ↔
      (0 ≤ t.gfx.width.toInt ∧ 0 ≤ t.gfx.height.toInt) ∧
        0 ≤ cell ∧ cell < t.screenPixels format := by
  have hstride : t.stride = t.gfx.width.toInt := by rw [stride, hb]
  rw [mem_cellsOf_screen_iff]
  constructor
  · rintro ⟨x, y, ⟨hx, hxW, hy, hyH⟩, rfl⟩
    have hsides : 0 ≤ t.gfx.width.toInt ∧ 0 ≤ t.gfx.height.toInt := ⟨by omega, by omega⟩
    have hown := Grid.own_rows (W := t.gfx.width.toInt) (H := t.gfx.height.toInt)
      (S := t.gfx.width.toInt) (n := t.gfx.width.toInt * t.gfx.height.toInt) hsides.1
      (Or.inl (Int.le_refl _)) (by rw [Int.sub_mul, Int.mul_comm]; omega)
    rw [screenPixels_eq hsides.1 hsides.2, pixelCell, hstride]
    exact ⟨hsides, hown.lands x y hx hxW hy hyH⟩
  · rintro ⟨⟨hW, hH⟩, hcell, hlast⟩
    rw [screenPixels_eq hW hH] at hlast
    have hpos : 0 < t.gfx.width.toInt := by
      rcases Int.lt_or_eq_of_le hW with hpos | hzero
      · exact hpos
      · rw [← hzero, Int.zero_mul] at hlast
        omega
    refine ⟨cell % t.gfx.width.toInt, cell / t.gfx.width.toInt,
      ⟨Int.emod_nonneg _ (by omega), Int.emod_lt_of_pos _ hpos, Int.ediv_nonneg hcell hW,
        Int.ediv_lt_of_lt_mul hpos (by rwa [Int.mul_comm])⟩, ?_⟩
    rw [pixelCell, hstride, Int.mul_comm]
    exact Int.mul_ediv_add_emod _ _

/-- A screen agrees with its pixels on the same terms. -/
theorem fillScreen_agrees_iff (hrot : t.gfx.rotation = 0) (mem : Int → UInt32) (color : UInt32) :
    t.Agrees mem (t.fillScreen color) t.screen color ↔
      alpha color = 0 ∨ ∀ cell : Int, 0 ≤ cell → cell < t.screenPixels format →
        t.pixelwise color (mem cell) = t.backing.keep color := by
  have hpanel := panel_canvas hb hrot
  rw [Agrees, Surface.fillScreen, hb]
  dsimp only
  by_cases hcolor : alpha color = 0
  · refine iff_of_true ⟨[], if_pos (Or.inr hcolor), ?_⟩ (Or.inl hcolor)
    rw [hpanel.drawPixels_transparent hcolor]
  · rw [or_iff_right hcolor, if_neg (by simpa using hcolor), ← hb]
    simp only [Option.some.injEq, exists_eq_left']
    have hstores : ((List.range (t.screenPixels format)).map fun i : Nat =>
        (⟨i, .plain color⟩ : Store)) =
        ((List.range (t.screenPixels format)).map Int.ofNat).map (plainStore color) := by
      rw [List.map_map]
      rfl
    have hmem : ∀ cell : Int, cell ∈ (List.range (t.screenPixels format)).map Int.ofNat ↔
        0 ≤ cell ∧ cell < t.screenPixels format := by
      intro cell
      rw [List.mem_map]
      simp only [List.mem_range]
      constructor
      · rintro ⟨i, hi, rfl⟩
        exact ⟨Int.natCast_nonneg i, Int.ofNat_lt.mpr hi⟩
      · rintro ⟨hcell, hlast⟩
        exact ⟨cell.toNat, by omega, Int.toNat_of_nonneg hcell⟩
    rw [hstores, hpanel.drawPixels_eq hcolor,
      paint_plain_eq_iff (hpanel.nodup_cellsOf nodup_screen)]
    · refine forall_congr' fun cell => ?_
      rw [hmem, and_imp]
      refine forall₂_congr fun hcell hlast => ?_
      simp only [mem_cellsOf_screen hb, hcell, hlast, and_true, pixelwise]
    · exact fun cell hcell => (hmem cell).mpr ((mem_cellsOf_screen hb).mp hcell).2

end Canvas

/-- Without a buffer nothing is drawn. -/
theorem agrees_of_unallocated {format : Format} (hb : t.backing = .canvas format false)
    {drawn : Option (List Store)} (hdrawn : drawn = some []) (mem : Int → UInt32)
    (ps : List (Int16 × Int16)) (color : UInt32) : t.Agrees mem drawn ps color := by
  have hnone : t.drawPixels ps color = [] := by
    refine List.flatMap_eq_nil_iff.mpr fun p _ => ?_
    simp [Surface.drawPixel, hb, setPixelRaw]
  exact ⟨[], hdrawn, by rw [hnone]⟩

/-- The fast paths of an unrotated canvas, of any format and size, on any content: where each of
them leaves what `drawPixel` leaves on each of its pixels. -/
theorem canvas_agrees_iff {format : Format} {allocated : Bool}
    (hb : t.backing = .canvas format allocated) (hrot : t.gfx.rotation = 0) (mem : Int → UInt32)
    (color : UInt32) :
    (∀ x y w, t.Agrees mem (t.drawFastHLine x y w color) (spanRow x y w) color ↔
      allocated = false ∨ alpha color = 0 ∨ ∀ cell ∈ t.canvasRow x y w,
        t.pixelwise color (mem cell) = t.backing.keep color) ∧
    (∀ x y h, t.Agrees mem (t.drawFastVLine x y h color) (spanColumn x y h) color ↔
      allocated = false ∨ alpha color = 0 ∨ h ≤ 0 ∨ x < 0 ∨ t.gfx.width ≤ x ∨
        y.toInt ≤ t.gfx.height.toInt + 32768) ∧
    (t.Agrees mem (t.fillScreen color) t.screen color ↔
      allocated = false ∨ alpha color = 0 ∨ ∀ cell : Int, 0 ≤ cell →
        cell < t.screenPixels format → t.pixelwise color (mem cell) = t.backing.keep color) := by
  cases allocated with
  | false =>
      refine ⟨fun x y w => ?_, fun x y h => ?_, ?_⟩
      all_goals refine iff_of_true (agrees_of_unallocated hb ?_ mem _ color) (Or.inl rfl)
      · simp [Surface.drawFastHLine, hb]
      · simp [Surface.drawFastVLine, hb]
      · simp [Surface.fillScreen, hb]
  | true =>
      simp only [Bool.true_eq_false, false_or]
      exact ⟨fun x y w => drawFastHLine_agrees_iff hb hrot mem x y w color,
        fun x y h => drawFastVLine_agrees_iff hb hrot mem x y h color,
        fillScreen_agrees_iff hb hrot mem color⟩

/-- An opaque colour makes no difference, on a canvas whose size does not wrap. -/
theorem pixelwise_opaque (hW : 0 ≤ t.gfx.width.toInt) (hH : 0 ≤ t.gfx.height.toInt)
    {color : UInt32} (hcolor : alpha color = 0xFF) (v : UInt32) :
    t.pixelwise color v = t.backing.keep color := by
  rw [pixelwise, if_pos ⟨hW, hH⟩, Backing.blended, blendARGB_opaque hcolor]

end Surface

/-- A canvas of ten pixels by ten. -/
def smallCanvas : Surface Empty where
  gfx := { LinuxGFX.canvas with width := 10, height := 10 }
  backing := .canvas .argb8888 true
  mem _ := 0

/-- An opaque screen agrees with its pixels. -/
theorem agrees_opaque : smallCanvas.Agrees (fun _ => 0) (smallCanvas.fillScreen 0xFFFF0000)
    smallCanvas.screen 0xFFFF0000 :=
  (Surface.canvas_agrees_iff (t := smallCanvas) rfl rfl (fun _ => 0) 0xFFFF0000).2.2.mpr
    (Or.inr <| Or.inr fun _ _ _ => Surface.pixelwise_opaque (by decide) (by decide) (by decide) _)

/-- A row in a colour that is not opaque is not blended. -/
theorem not_agrees_row : ¬ smallCanvas.Agrees (fun _ => 0)
    (smallCanvas.drawFastHLine 0 0 2 0x80FFFFFF) (Surface.spanRow 0 0 2) 0x80FFFFFF := by
  rw [Surface.drawFastHLine_agrees_iff (t := smallCanvas) rfl rfl]
  rintro (hcolor | hall)
  · exact absurd hcolor (by decide)
  · have hfirst := hall 0 (by decide)
    revert hfirst
    decide

end MFoES.Libgfx
