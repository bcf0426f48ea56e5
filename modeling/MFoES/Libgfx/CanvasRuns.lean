import MFoES.Libgfx.CanvasBytes
import MFoES.Libgfx.OsdFrames
import MFoES.Libgfx.SpanPlans

/-!
# Drawing on a canvas

Each step on the buffer of an upright canvas leaves what the stores of a surface leave of its
picture: the canvas's own lines, pixel by pixel or with `memset`, and the stores of the base class,
which are all in the buffer.  So a run of calls on the buffer is the run on the picture
(`drawAll_picture`).

A canvas that is turned is no picture, and an RGB565 bitmap whose end does not fit `int16_t` is
drawn behind the buffer, so calls do neither.
-/

namespace MFoES.Libgfx

open ByteMemory

variable {F : Type}

namespace GFXcanvas

variable {c : GFXcanvas F} {made : List Store}

section Upright

variable (hc : c.Upright)

include hc

/-! ## The lines of a canvas -/

theorem Upright.cutEnd_eq (a n : Int16) {size : Int16} (hsize : 0 ≤ size.toInt) :
    Surface.cutEnd a n size = min size.toInt (a.toInt + n.toInt) := by
  have ha := a.toInt_lt
  rw [Surface.cutEnd, if_neg (by omega)]

/-- What is left of a row that is cut is in the buffer. -/
theorem Upright.row_run {x y w : Int16} (hw : 0 < w.toInt) (hy : 0 ≤ y.toInt)
    (hyH : y.toInt < c.gfx.height.toInt) (hsome : 0 < (Surface.cut x w c.gfx.width).2.toInt) :
    c.gfx.inside (Surface.cut x w c.gfx.width).1 y = true ∧
      c.offset (Surface.cut x w c.gfx.width).1 y + (Surface.cut x w c.gfx.width).2.toInt.toNat ≤
        c.pixels := by
  obtain ⟨hfirst, hlength⟩ := Surface.cut_spec hw c.gfx.width (a := x)
  rw [hc.cutEnd_eq x w hc.width] at hlength
  have hin : c.gfx.inside (Surface.cut x w c.gfx.width).1 y = true := by
    rw [inside_iff]
    omega
  obtain ⟨hoffset, -⟩ := hc.offset_eq hin
  obtain ⟨-, hend, -⟩ := hc.row_in hy hyH
  rw [Surface.rawCell, hfirst] at hoffset
  refine ⟨hin, ?_⟩
  change (c.offset _ _ : Int) = y.toInt * c.gfx.width.toInt + max 0 x.toInt at hoffset
  omega

theorem shows_drawFastHLine {x y w : Int16} {color : UInt32}
    (hmade : c.picture.drawFastHLine x y w color = some made) :
    c.Shows made (c.drawFastHLine x y w color) := by
  rw [Surface.drawFastHLine_cut (show c.picture.backing = .canvas c.format true from rfl)] at hmade
  change (if w ≤ 0 ∨ y < 0 ∨ c.gfx.height ≤ y ∨ (Surface.cut x w c.gfx.width).2 ≤ 0 ∨
    alpha color = 0 then some [] else some ((List.range
      (Surface.cut x w c.gfx.width).2.toInt.toNat).map fun k : Nat => plainStore color
        (c.picture.rawCell (Surface.cut x w c.gfx.width).1 y + k))) = some made at hmade
  rw [drawFastHLine]
  dsimp only
  split at hmade
  · next hoff =>
    rw [if_pos hoff]
    cases hmade
    exact Shows.refl c
  · next hon =>
    have hzero : (0 : Int16).toInt = 0 := rfl
    rw [if_neg hon]
    simp only [not_or, Int16.le_iff_toInt_le, Int16.lt_iff_toInt_lt, hzero, Int.not_le,
      Int.not_lt] at hon
    obtain ⟨hw, hy, hyH, hsome, -⟩ := hon
    obtain ⟨hin, hrun⟩ := hc.row_run hw hy hyH hsome
    obtain ⟨hoffset, -⟩ := hc.offset_eq hin
    rw [← hoffset] at hmade
    have hstores : (runCells (c.offset (Surface.cut x w c.gfx.width).1 y)
        (Surface.cut x w c.gfx.width).2.toInt.toNat).map (plainStore color) = made := by
      rw [runCells, List.map_map]
      exact Option.some.inj hmade
    rw [← hstores]
    cases hformat : c.format with
    | gray8 => exact shows_memset_gray8 hc hrun color hformat
    | bw | rgb565 | rgb888 | argb8888 => exact shows_fill hc hrun color

/-- Pixels of a column, one after the other. -/
theorem shows_column {x : Int16} {rows : List Int16} (color : UInt32)
    (hin : ∀ row ∈ rows, c.gfx.inside x row = true) :
    c.Shows (rows.flatMap fun row => c.picture.setPixelRaw true x row color)
      (rows.foldl (fun c row => c.setPixelRaw x row color) c) := by
  induction rows generalizing c with
  | nil => exact Shows.refl c
  | cons row rows ih =>
      rw [List.forall_mem_cons] at hin
      have hfirst := shows_setPixelRaw hc hin.1 color
      have hrest := ih (hfirst.upright hc) (by rw [hfirst.gfx]; exact hin.2)
      rw [hfirst.picture] at hrest
      exact hfirst.trans hrest

theorem shows_drawFastVLine {x y h : Int16} {color : UInt32}
    (hmade : c.picture.drawFastVLine x y h color = some made) :
    ∃ c', c.drawFastVLine x y h color = some c' ∧ c.Shows made c' := by
  rw [Surface.drawFastVLine_cut (show c.picture.backing = .canvas c.format true from rfl)] at hmade
  change (if h ≤ 0 ∨ x < 0 ∨ c.gfx.width ≤ x ∨ (Surface.cut y h c.gfx.height).2 ≤ 0 ∨
    alpha color = 0 then some [] else (forUp (Surface.cut y h c.gfx.height).1
      ((Surface.cut y h c.gfx.height).1.toInt + (Surface.cut y h c.gfx.height).2.toInt)).map
        fun rows => rows.map fun row => spanStore color (c.picture.rawCell x row)) =
          some made at hmade
  rw [drawFastVLine]
  dsimp only
  split at hmade
  · next hoff =>
    rw [if_pos hoff]
    cases hmade
    exact ⟨c, rfl, Shows.refl c⟩
  · next hon =>
    have hzero : (0 : Int16).toInt = 0 := rfl
    rw [if_neg hon]
    simp only [not_or, Int16.le_iff_toInt_le, Int16.lt_iff_toInt_lt, hzero, Int.not_le,
      Int.not_lt] at hon
    obtain ⟨hh, hx, hxW, -, hcolor⟩ := hon
    obtain ⟨hfirst, hlength⟩ := Surface.cut_spec hh c.gfx.height (a := y)
    rw [hc.cutEnd_eq y h hc.height] at hlength
    obtain ⟨rows, hrows, rfl⟩ := Option.map_eq_some_iff.mp hmade
    have hH := c.gfx.height.toInt_lt
    have hinside : ∀ row ∈ rows, c.gfx.inside x row = true := by
      rw [forUp_eq _ (by omega)] at hrows
      cases hrows
      intro row hrow
      obtain ⟨k, hk, rfl⟩ := List.mem_map.mp hrow
      rw [List.mem_range] at hk
      rw [inside_iff, toInt_add_ofNat (by omega), hfirst]
      omega
    have hstores : (rows.flatMap fun row => c.picture.setPixelRaw true x row color) =
        rows.map fun row => spanStore color (c.picture.rawCell x row) := by
      rw [List.map_eq_flatMap]
      refine List.flatMap_congr fun row _ => ?_
      rw [Surface.setPixelRaw, if_neg (by simpa using hcolor)]
    rw [hrows]
    refine ⟨_, rfl, ?_⟩
    rw [← hstores]
    exact shows_column hc color hinside

/-! ## Stores of a surface -/

theorem Upright.pixelCell_in {x y : Int} (h : c.gfx.Inside x y) :
    0 ≤ c.picture.pixelCell x y ∧ c.picture.pixelCell x y < c.pixels := by
  obtain ⟨hx, hxW, hy, hyH⟩ := h
  obtain ⟨hnonneg, hend, -⟩ := hc.row_in hy hyH
  have hcell : c.picture.pixelCell x y = y * c.gfx.width.toInt + x := rfl
  omega

omit hc in
/-- Stores to pixels that are in the clip. -/
theorem in_map_spanStore {n : Nat} {cells : List Int} (h : ∀ cell ∈ cells, 0 ≤ cell ∧ cell < n)
    (color : UInt32) : ∀ s ∈ cells.map (spanStore color), s.In n := by
  intro s hs
  obtain ⟨cell, hcell, rfl⟩ := List.mem_map.mp hs
  exact in_spanStore (h cell hcell) color

theorem Upright.in_writePixel (x y : Int16) (color : UInt32) :
    ∀ s ∈ c.picture.writePixel x y color, s.In c.pixels := by
  have hpanel : c.picture.Panel := Surface.panel_canvas rfl hc.rotation
  by_cases hclear : alpha color = 0
  · rw [Surface.writePixel, if_pos (Or.inl hclear)]
    exact List.forall_mem_nil _
  · cases hin : c.picture.gfx.inside x y with
    | false =>
        rw [Surface.writePixel_outside hin]
        exact List.forall_mem_nil _
    | true =>
        rw [hpanel.writePixel_eq hclear hin]
        exact List.forall_mem_singleton.mpr
          (in_spanStore (hc.pixelCell_in (inside_iff.mp hin)) color)

theorem Upright.in_writeFastHLine {x y w : Int16} {color : UInt32}
    (hmade : c.picture.writeFastHLine x y w color = some made) : ∀ s ∈ made, s.In c.pixels := by
  have hpanel : c.picture.Panel := Surface.panel_canvas rfl hc.rotation
  rw [hpanel.writeFastHLine_eq] at hmade
  cases hmade
  refine in_map_spanStore (fun cell hcell => ?_) color
  obtain ⟨x', y', hin, rfl⟩ := Surface.inside_of_mem_hLineCells hcell
  exact hc.pixelCell_in hin

theorem Upright.in_writeFastVLine {x y h : Int16} {color : UInt32}
    (hmade : c.picture.writeFastVLine x y h color = some made) : ∀ s ∈ made, s.In c.pixels := by
  have hpanel : c.picture.Panel := Surface.panel_canvas rfl hc.rotation
  cases hbuffer : c.picture.backing.hasBuffer with
  | true =>
      rw [hpanel.writeFastVLine_eq hbuffer] at hmade
      cases hmade
      refine in_map_spanStore (fun cell hcell => ?_) color
      obtain ⟨x', y', hin, rfl⟩ := Surface.inside_of_mem_vLineCells hcell
      exact hc.pixelCell_in hin
  | false =>
      rw [Surface.writeFastVLine, hbuffer, if_neg Bool.false_ne_true] at hmade
      split at hmade
      · cases hmade
        exact List.forall_mem_nil _
      · obtain ⟨rows, -, rfl⟩ := Option.map_eq_some_iff.mp hmade
        intro s hs
        obtain ⟨row, -, hmem⟩ := List.mem_flatMap.mp hs
        exact hc.in_writePixel x row color s hmem

/-- The rows of a blit are all the first one of a canvas. -/
theorem Upright.in_drawRGB565Bitmap {x y w h : Int16} (hw : 0 < w.toInt) (hh : 0 < h.toInt)
    (hxw : x.toInt + w.toInt ≤ 32767) (hyh : y.toInt + h.toInt ≤ 32767) (bitmap : List UInt16) :
    ∀ s ∈ c.picture.drawRGB565Bitmap x y bitmap w h, s.In c.pixels := by
  have hx := x.toInt_lt
  have hy := y.toInt_lt
  have hwidth := hc.width
  have hheight := hc.height
  have hx0 : (u32 (blitCut x w c.gfx.width).1).toNat = (max 0 x.toInt).toNat := by
    rw [toNat_u32 (by rw [blitCut_start]; omega), blitCut_start]
  have hlength := (blitCut_length x c.gfx.width hw).1 ⟨hxw, by omega⟩
  have hlength' := (blitCut_length y c.gfx.height hh).1 ⟨hyh, by omega⟩
  rw [Surface.drawRGB565Bitmap_eq]
  split
  · exact List.forall_mem_nil _
  · next hsome =>
    intro s hs
    obtain ⟨p, hp, rfl⟩ := List.mem_map.mp hs
    simp only [cells, List.mem_flatMap, List.mem_map, List.mem_range] at hp
    obtain ⟨j, hj, i, hi, rfl⟩ := hp
    have hpitch : c.picture.backing.pitch / 4 = 0 := by
      show (0 : UInt32) / 4 = 0
      decide
    change i < (blitCut x w c.gfx.width).2.2.toInt.toNat at hi
    change j < (blitCut y h c.gfx.height).2.2.toInt.toNat at hj
    rw [hlength, Int.lt_toNat] at hi
    rw [hlength', Int.lt_toNat] at hj
    obtain ⟨⟨hleft, hright⟩, -⟩ := Surface.seen_of_cut hi
    obtain ⟨⟨htop, hbottom⟩, -⟩ := Surface.seen_of_cut hj
    obtain ⟨-, hend, -⟩ := hc.row_in (Int.le_refl 0) (Int.lt_of_le_of_lt htop hbottom)
    rw [Int.zero_mul, Int.zero_add] at hend
    refine ⟨?_, fun _ _ hink => by cases hink⟩
    dsimp only
    rw [hpitch, UInt32.mul_zero, UInt32.zero_add]
    change 0 ≤ (((u32 (blitCut x w c.gfx.width).1).toNat + j * 0 + i : Nat) : Int) ∧
      (((u32 (blitCut x w c.gfx.width).1).toNat + j * 0 + i : Nat) : Int) < c.pixels
    have hcell : (((u32 (blitCut x w c.gfx.width).1).toNat + j * 0 + i : Nat) : Int) =
        max 0 x.toInt + i := by
      rw [hx0, Nat.mul_zero, Nat.add_zero, Int.natCast_add,
        Int.toNat_of_nonneg (Int.le_max_left 0 x.toInt)]
    rw [hcell]
    exact ⟨hleft, Int.lt_of_lt_of_le hright hend⟩

end Upright

/-! ## Steps -/

/-- A step on the buffer.  The draw buffer is the buffer of an ARGB canvas: what is written into it
are words, as `setPixelRaw` would write them. -/
def step (c : GFXcanvas F) : Step → Option (GFXcanvas F)
  | .writePixel x y color => some (c.writePixel x y color)
  | .writeFastVLine x y h color =>
      (c.picture.writeFastVLine x y h color).map fun made => made.foldl put c
  | .writeFastHLine x y w color =>
      (c.picture.writeFastHLine x y w color).map fun made => made.foldl put c
  | .drawPixel x y color => some (c.drawPixel x y color)
  | .drawFastVLine x y h color => c.drawFastVLine x y h color
  | .drawFastHLine x y w color => some (c.drawFastHLine x y w color)
  | .fillScreen color => some (c.fillScreen color)
  | .drawRGB565Bitmap x y bitmap w h =>
      some ((c.picture.drawRGB565Bitmap x y bitmap w h).foldl put c)

/-- Make steps in turn. -/
def steps : GFXcanvas F → List Step → Option (GFXcanvas F)
  | c, [] => some c
  | c, step :: rest => (c.step step).bind fun c' => steps c' rest

section Calls

variable (fm : FloatMath) (face : F → GFXfont) (pixels : F → FontPixels)

/-- Make a call on the canvas. -/
def draw (c : GFXcanvas F) (call : GfxCall F) : Option (GFXcanvas F) :=
  ((call.plan fm face pixels c.gfx).bind c.steps).map fun c' =>
    { c' with gfx := call.apply face c.gfx }

/-- Make calls in turn. -/
def drawAll : GFXcanvas F → List (GfxCall F) → Option (GFXcanvas F)
  | c, [] => some c
  | c, call :: calls => (c.draw fm face pixels call).bind fun c' => drawAll c' calls

end Calls

end GFXcanvas

/-- A bitmap of some size whose ends are in reach. -/
def Step.Fits : Step → Prop
  | .drawRGB565Bitmap x y _ w h =>
      0 < w.toInt ∧ 0 < h.toInt ∧ x.toInt + w.toInt ≤ 32767 ∧ y.toInt + h.toInt ≤ 32767
  | _ => True

/-- A call that draws on a canvas, without turning it. -/
def GfxCall.OnCanvas : GfxCall F → Prop
  | .setRotation _ => False
  | .swapBuffers _ => False
  | .drawRGB565Bitmap x y _ w h =>
      0 < w.toInt ∧ 0 < h.toInt ∧ x.toInt + w.toInt ≤ 32767 ∧ y.toInt + h.toInt ≤ 32767
  | _ => True

theorem LinuxGFX.advanceChar_rotation (face : F → GFXfont) (left : Int16) (g : LinuxGFX F)
    (c : UInt8) : (g.advanceChar face left c).rotation = g.rotation := by
  simp only [advanceChar, newLine]
  split_ifs <;> rfl

/-- Text does not turn a surface. -/
theorem LinuxGFX.foldl_advanceChar_rotation (face : F → GFXfont) (left : Int16)
    (text : List UInt8) (g : LinuxGFX F) :
    (text.foldl (LinuxGFX.advanceChar face left) g).rotation = g.rotation := by
  induction text generalizing g with
  | nil => rfl
  | cons c text ih => rw [List.foldl_cons, ih, advanceChar_rotation]

namespace GfxCall.OnCanvas

variable {call : GfxCall F} (h : call.OnCanvas)

include h

theorem draws : call.Draws := by
  cases call with
  | setRotation r => exact h.elim
  | swapBuffers autoclear => exact h.elim
  | _ => trivial

/-- A call that draws leaves the rotation. -/
theorem rotation (face : F → GFXfont) (g : LinuxGFX F) :
    (call.apply face g).rotation = g.rotation := by
  cases call with
  | setRotation r => exact h.elim
  | writeText text => exact g.foldl_advanceChar_rotation face 0 (cString text)
  | setText x y text color bgColor sizeX sizeY font rotation =>
      show (g.setText face x y text color bgColor sizeX sizeY font rotation).rotation = _
      rw [LinuxGFX.setText]
      split_ifs
      · exact LinuxGFX.foldl_advanceChar_rotation face 0 (cString text) _
      · exact LinuxGFX.foldl_advanceChar_rotation face _ (cString text) _
  | _ => rfl

theorem fits (fm : FloatMath) (face : F → GFXfont) (pixels : F → FontPixels) (g : LinuxGFX F)
    {made : List Step} (hplan : call.plan fm face pixels g = some made) :
    ∀ step ∈ made, step.Fits := by
  cases hblit : call.isBlit with
  | true =>
      cases call with
      | drawRGB565Bitmap x y bitmap w h' =>
          cases hplan
          exact List.forall_mem_singleton.mpr h
      | _ => cases hblit
  | false =>
      have hspans := unblitted_plan fm face pixels g hblit made hplan
      intro step hstep
      have hspan := List.all_eq_true.mp hspans step hstep
      cases step with
      | drawRGB565Bitmap x y bitmap w h' => cases hspan
      | _ => trivial

end GfxCall.OnCanvas

namespace GFXcanvas

variable {c c' : GFXcanvas F} {fm : FloatMath} {face : F → GFXfont} {pixels : F → FontPixels}

theorem shows_step (hc : c.Upright) {step : Step} (hstep : step.Fits) {made : List Store}
    (hmade : c.picture.stores step = some made) :
    ∃ c', c.step step = some c' ∧ c.Shows made c' := by
  cases step with
  | writePixel x y color =>
      cases hmade
      exact ⟨_, rfl, shows_writePixel hc x y color⟩
  | writeFastVLine x y h color =>
      have hmade' : c.picture.writeFastVLine x y h color = some made := hmade
      refine ⟨made.foldl put c, ?_, shows_puts hc (hc.in_writeFastVLine hmade')⟩
      rw [GFXcanvas.step, hmade']
      rfl
  | writeFastHLine x y w color =>
      have hmade' : c.picture.writeFastHLine x y w color = some made := hmade
      refine ⟨made.foldl put c, ?_, shows_puts hc (hc.in_writeFastHLine hmade')⟩
      rw [GFXcanvas.step, hmade']
      rfl
  | drawPixel x y color =>
      cases hmade
      exact ⟨_, rfl, shows_drawPixel hc x y color⟩
  | drawFastVLine x y h color => exact shows_drawFastVLine hc hmade
  | drawFastHLine x y w color => exact ⟨_, rfl, shows_drawFastHLine hc hmade⟩
  | fillScreen color => exact ⟨_, rfl, shows_fillScreen hc hmade⟩
  | drawRGB565Bitmap x y bitmap w h =>
      obtain ⟨hw, hh, hxw, hyh⟩ := hstep
      cases hmade
      exact ⟨_, rfl, shows_puts hc (hc.in_drawRGB565Bitmap hw hh hxw hyh bitmap)⟩

theorem shows_steps (hc : c.Upright) {made : List Step} (hsteps : ∀ step ∈ made, step.Fits)
    {stores : List Store} (hstores : c.picture.storesOf made = some stores) :
    ∃ c', c.steps made = some c' ∧ c.Shows stores c' := by
  induction made generalizing c stores with
  | nil =>
      cases hstores
      exact ⟨c, rfl, Shows.refl c⟩
  | cons step made ih =>
      rw [List.forall_mem_cons] at hsteps
      obtain ⟨first, hfirst, hmap⟩ := Option.bind_eq_some_iff.mp hstores
      obtain ⟨rest, hrest, rfl⟩ := Option.map_eq_some_iff.mp hmap
      obtain ⟨c₁, hstep, hshows⟩ := shows_step hc hsteps.1 hfirst
      -- the stores of a surface are no matter of what its cells have
      have hrest' : c₁.picture.storesOf made = some rest := by
        rw [hshows.picture]
        exact hrest
      obtain ⟨c₂, hsteps', hshows'⟩ := ih (hshows.upright hc) hsteps.2 hrest'
      refine ⟨c₂, ?_, hshows.trans hshows'⟩
      rw [GFXcanvas.steps, hstep]
      exact hsteps'

theorem picture_gfx {g : LinuxGFX F} (h : ({ c with gfx := g } : GFXcanvas F).pixels = c.pixels) :
    ({ c with gfx := g } : GFXcanvas F).picture = { c.picture with gfx := g } := by
  rw [picture, picture, h]

/-- The canvas after a run: of the same kind, and with nothing changed behind its buffer. -/
structure Keeps (c c' : GFXcanvas F) : Prop where
  upright : c'.Upright
  size : c'.gfx.width = c.gfx.width ∧ c'.gfx.height = c.gfx.height
  format : c'.format = c.format
  beyond : ∀ k, c.bufferBytes ≤ k → c'.canvasBuffer k = c.canvasBuffer k

theorem Keeps.pixels_eq (h : c.Keeps c') : c'.pixels = c.pixels := by
  rw [GFXcanvas.pixels, GFXcanvas.pixels, h.size.1, h.size.2]

theorem Keeps.trans {c'' : GFXcanvas F} (h : c.Keeps c') (h' : c'.Keeps c'') : c.Keeps c'' where
  upright := h'.upright
  size := ⟨h'.size.1.trans h.size.1, h'.size.2.trans h.size.2⟩
  format := h'.format.trans h.format
  beyond := by
    intro k hk
    have hbytes : c'.bufferBytes = c.bufferBytes := by
      rw [bufferBytes, bufferBytes, h.format, h.size.1, h.size.2]
    rw [h'.beyond k (by rw [hbytes]; exact hk), h.beyond k hk]

/-- A call on the buffer is the call on the picture. -/
theorem draw_picture (hc : c.Upright) {call : GfxCall F} (hcall : call.OnCanvas) {t : Surface F}
    (hdraw : c.picture.draw fm face pixels call = some t) :
    ∃ c', c.draw fm face pixels call = some c' ∧ c'.picture = t ∧ c.Keeps c' := by
  obtain ⟨stores, hstrokes, rfl⟩ := Option.map_eq_some_iff.mp hdraw
  obtain ⟨made, hplan, hstores⟩ := Option.bind_eq_some_iff.mp hstrokes
  obtain ⟨c₁, hsteps, hshows⟩ := shows_steps hc (hcall.fits fm face pixels c.gfx hplan) hstores
  have hplan' : call.plan fm face pixels c.gfx = some made := hplan
  have hsize := hcall.draws.size face c.gfx
  refine ⟨{ c₁ with gfx := call.apply face c.gfx }, ?_, ?_, ⟨?_, ?_, ?_⟩, hsize, hshows.format,
    hshows.beyond⟩
  · rw [draw, hplan', Option.bind_some, hsteps]
    rfl
  · have hpixels : ({ c₁ with gfx := call.apply face c.gfx } : GFXcanvas F).pixels = c₁.pixels := by
      rw [GFXcanvas.pixels, GFXcanvas.pixels, hshows.gfx]
      dsimp only
      rw [hsize.1, hsize.2]
    rw [picture_gfx hpixels, hshows.picture]
    rfl
  · exact (hcall.rotation face c.gfx).trans hc.rotation
  · show 0 ≤ (call.apply face c.gfx).width.toInt
    rw [hsize.1]
    exact hc.width
  · show 0 ≤ (call.apply face c.gfx).height.toInt
    rw [hsize.2]
    exact hc.height

theorem drawAll_keeps (hc : c.Upright) {calls : List (GfxCall F)}
    (hcalls : ∀ call ∈ calls, call.OnCanvas) {t : Surface F}
    (hdraw : c.picture.drawAll fm face pixels calls = some t) :
    ∃ c', c.drawAll fm face pixels calls = some c' ∧ c'.picture = t ∧ c.Keeps c' := by
  induction calls generalizing c with
  | nil =>
      cases hdraw
      exact ⟨c, rfl, rfl, hc, ⟨rfl, rfl⟩, rfl, fun _ _ => rfl⟩
  | cons call calls ih =>
      rw [List.forall_mem_cons] at hcalls
      obtain ⟨t₁, hfirst, hrest⟩ := Option.bind_eq_some_iff.mp hdraw
      obtain ⟨c₁, hdraw₁, rfl, hkeeps⟩ := draw_picture hc hcalls.1 hfirst
      obtain ⟨c₂, hdraw₂, hpicture, hkeeps'⟩ := ih hkeeps.upright hcalls.2 hrest
      refine ⟨c₂, ?_, hpicture, hkeeps.trans hkeeps'⟩
      rw [drawAll, hdraw₁]
      exact hdraw₂

/-! ## Reading a canvas -/

/-- The colour of a cell. -/
def colour (c : GFXcanvas F) (cell : Int) : UInt32 := c.format.argb (c.picture.mem cell)

theorem colour_eq {i : Nat} (h : i < c.pixels) :
    c.colour i = c.format.get c.canvasBuffer i := by
  rw [colour, picture_mem (show 0 ≤ (i : Int) ∧ (i : Int) < c.pixels by omega), Int.toNat_natCast,
    Format.get_eq]

theorem getPixel_eq (hc : c.Upright) {x y : Int16} (hin : c.gfx.inside x y = true) :
    c.getPixel x y = c.colour (c.picture.getPixelCell x y) := by
  obtain ⟨hoffset, hlt⟩ := hc.offset_eq hin
  rw [getPixel, if_pos hin, Surface.getPixelCell]
  show c.getPixelRaw _ _ = c.colour (c.picture.rawCell _ _)
  rw [hc.rotated_eq, ← hoffset, colour_eq hlt]
  rfl

theorem copyToARGB8888_eq (c : GFXcanvas F) :
    c.copyToARGB8888 = (List.range c.pixels).map fun i : Nat => c.colour i :=
  List.map_congr_left fun _ hi => (colour_eq (List.mem_range.mp hi)).symm

/-- The pixels of an RGB565 canvas are copied as they are, which is what they would be converted
to. -/
theorem copyToRGB565_eq (c : GFXcanvas F) :
    c.copyToRGB565 = (List.range c.pixels).map fun i : Nat => rgb565FromARGB (c.colour i) := by
  refine List.map_congr_left fun i hi => ?_
  rw [colour_eq (List.mem_range.mp hi)]
  cases hformat : c.format with
  | rgb565 => exact (rgb565FromARGB_argbFromRGB565 _).symm
  | bw | gray8 | rgb888 | argb8888 => rfl

/-- `GFXcanvas`, with a buffer of its own. -/
def new (w h : UInt16) (format : Format) : GFXcanvas F where
  gfx := { LinuxGFX.canvas with width := w.toInt16, height := h.toInt16 }
  format := format
  canvasBuffer := fun _ => 0

/-- Black pixels on white. -/
def checker : List (GfxCall Empty) :=
  [.fillScreen 0xFFFFFFFF, .drawPixel 1 0 0xFF000000, .drawPixel 0 1 0xFF000000,
    .drawPixel 2 1 0xFF000000]

end GFXcanvas

end MFoES.Libgfx
