import Mathlib.Logic.Function.Basic
import MFoES.Libgfx.Primitives
import MFoES.Libgfx.TextState

/-!
# The pixels of a surface

A surface is the draw buffer of a device (framebuffer, DRM, SDL or set-top box), or a
`GFXcanvas`.  A step of a drawing function comes down to stores: which cells it sets, and whether
to a colour or to a colour over what a cell has.  They are made in turn (`paint`).

A device addresses its pixels without a rotation.  A canvas that is rotated does not: `drawPixel`
and `getPixel` turn the coordinates and `setPixel` leaves them.  The cells of a canvas are its
pixels, whatever their format, and what lies around them is memory like any other.
-/

namespace MFoES.Libgfx

/-! ## Colours -/

/-- A channel of a colour. -/
def channel (color : UInt32) (shift : UInt32) : UInt32 := (color >>> shift) &&& 0xFF

/-- A channel of `blendARGB`. -/
def mix (src dst sa shift : UInt32) : UInt8 :=
  ((channel src shift * sa + channel dst shift * (255 - sa)) / 255).toUInt8

/-- `blendARGB`. -/
def blendARGB (src dst : UInt32) : UInt32 :=
  let sa := channel src 24
  if sa = 0xFF then src
  else if sa = 0 then dst
  else solidRGB (mix src dst sa 16) (mix src dst sa 8) (mix src dst sa 0)

theorem channel_alpha (c : UInt32) : channel c 24 = alpha c := by
  have hlt := c.toNat_lt
  rw [channel, alpha, ← UInt32.toNat_inj]
  simp only [UInt32.toNat_and, UInt32.toNat_shiftRight, UInt32.reduceToNat, Nat.reduceMod]
  rw [Nat.shiftRight_eq_div_pow, show 255 = 2 ^ 8 - 1 by rfl, Nat.and_two_pow_sub_one_eq_mod]
  omega

theorem alpha_solidRGB (r g b : UInt8) : alpha (solidRGB r g b) = 0xFF := by
  have hr := r.toNat_lt
  have hg := g.toNat_lt
  have hb := b.toNat_lt
  rw [alpha, solidRGB, ← UInt32.toNat_inj]
  simp only [UInt32.toNat_or, UInt32.toNat_shiftRight, UInt32.toNat_shiftLeft, UInt32.reduceToNat,
    Nat.reduceMod, UInt8.toNat_toUInt32, Nat.shiftRight_or_distrib]
  simp only [Nat.shiftRight_eq_div_pow, Nat.shiftLeft_eq]
  -- no channel reaches up to the alpha
  rw [Nat.div_eq_of_lt (a := b.toNat) (by omega),
    Nat.div_eq_of_lt (a := r.toNat * 2 ^ 16 % 2 ^ 32) (by omega),
    Nat.div_eq_of_lt (a := g.toNat * 2 ^ 8 % 2 ^ 32) (by omega)]
  rfl

/-- A blend is opaque. -/
theorem alpha_blendARGB {src : UInt32} (dst : UInt32) (h : alpha src ≠ 0) (h' : alpha src ≠ 0xFF) :
    alpha (blendARGB src dst) = 0xFF := by
  rw [blendARGB, channel_alpha, if_neg h', if_neg h]
  exact alpha_solidRGB _ _ _

/-- The colour of an RGB565 pixel, its five and six bits filled up to eight. -/
def argbFromRGB565 (c : UInt16) : UInt32 :=
  let r := ((c >>> 11) &&& 0x1F).toUInt8
  let g := ((c >>> 5) &&& 0x3F).toUInt8
  let b := (c &&& 0x1F).toUInt8
  solidRGB ((r <<< 3) ||| (r >>> 2)) ((g <<< 2) ||| (g >>> 4)) ((b <<< 3) ||| (b >>> 2))

/-- `gray8FromARGB`. -/
def gray8FromARGB (argb : UInt32) : UInt8 :=
  ((77 * channel argb 16 + 150 * channel argb 8 + 29 * channel argb 0) >>> 8).toUInt8

/-- `rgb565FromARGB`. -/
def rgb565FromARGB (argb : UInt32) : UInt16 :=
  (((channel argb 16 &&& 0xF8) <<< 8) ||| ((channel argb 8 &&& 0xFC) <<< 3) |||
    (channel argb 0 >>> 3)).toUInt16

/-- `GFXcanvas::Format`. -/
inductive Format where
  | bw
  | gray8
  | rgb565
  | rgb888
  | argb8888
deriving DecidableEq, Repr

/-- What a canvas keeps of a colour. -/
def Format.keep : Format → UInt32 → UInt32
  | bw, c => if 128 ≤ gray8FromARGB c then 1 else 0
  | gray8, c => (gray8FromARGB c).toUInt32
  | rgb565, c => (rgb565FromARGB c).toUInt32
  | rgb888, c => c &&& 0x00FFFFFF
  | argb8888, c => c

/-- The colour of what a canvas has kept. -/
def Format.argb : Format → UInt32 → UInt32
  | bw, v => if v ≠ 0 then 0xFFFFFFFF else 0xFF000000
  | gray8, v => grey v.toUInt8
  | rgb565, v => argbFromRGB565 v.toUInt16
  | rgb888, v => 0xFF000000 ||| v
  | argb8888, v => v

/-! ## Surfaces -/

/-- Where the pixels are: in the draw buffer of a device, `pitch` bytes a line, or in a canvas. -/
inductive Backing where
  | device (pitch : UInt32) (mapped : Bool)
  | canvas (format : Format) (allocated : Bool)

namespace Backing

/-- What a cell keeps of a colour. -/
def keep : Backing → UInt32 → UInt32
  | device _ _, c => c
  | canvas format _, c => format.keep c

/-- The colour of a cell. -/
def argb : Backing → UInt32 → UInt32
  | device _ _, v => v
  | canvas format _, v => format.argb v

/-- `m_pBuffer` is not null. -/
def hasBuffer : Backing → Bool
  | device _ mapped => mapped
  | canvas .argb8888 allocated => allocated
  | canvas _ _ => false

/-- `m_pitch`. -/
def pitch : Backing → UInt32
  | device pitch _ => pitch
  | canvas _ _ => 0

end Backing

/-- An object of `LinuxGFX` or `GFXcanvas`, with the memory that has its pixels. -/
structure Surface (F : Type) where
  gfx : LinuxGFX F
  backing : Backing
  mem : Int → UInt32

/-- What a store puts into its cell: a colour, or a colour over what is in a cell. -/
inductive Ink where
  | plain (color : UInt32)
  | over (color : UInt32) (src : Int)
deriving DecidableEq

/-- A store to a cell. -/
structure Store where
  cell : Int
  ink : Ink
deriving DecidableEq

/-- What a store puts into its cell. -/
def Store.value (b : Backing) (mem : Int → UInt32) (s : Store) : UInt32 :=
  b.keep <|
    match s.ink with
    | .plain color => color
    | .over color src => blendARGB color (b.argb (mem src))

/-- Make a store. -/
def Store.run (b : Backing) (mem : Int → UInt32) (s : Store) : Int → UInt32 :=
  Function.update mem s.cell (s.value b mem)

/-- Make stores in turn. -/
def paint (b : Backing) (mem : Int → UInt32) (stores : List Store) : Int → UInt32 :=
  stores.foldl (Store.run b) mem

theorem paint_append (b : Backing) (mem : Int → UInt32) (made made' : List Store) :
    paint b mem (made ++ made') = paint b (paint b mem made) made' :=
  List.foldl_append

/-- A cell that is not set keeps what it has. -/
theorem paint_other {b : Backing} {mem : Int → UInt32} {made : List Store} {cell : Int}
    (h : ∀ s ∈ made, s.cell ≠ cell) : paint b mem made cell = mem cell := by
  induction made generalizing mem with
  | nil => rfl
  | cons s made ih =>
      rw [List.forall_mem_cons] at h
      show paint b (s.run b mem) made cell = _
      rw [ih h.2, Store.run, Function.update_of_ne (Ne.symm h.1)]

/-- The last store to a cell decides. -/
theorem paint_last {b : Backing} {mem : Int → UInt32} {before after : List Store} {s : Store}
    (h : ∀ s' ∈ after, s'.cell ≠ s.cell) :
    paint b mem (before ++ s :: after) s.cell = s.value b (paint b mem before) := by
  rw [paint_append]
  show paint b (s.run b (paint b mem before)) after s.cell = _
  rw [paint_other h, Store.run, Function.update_self]

/-- A store that does not blend. -/
def Store.Plain (s : Store) : Prop := ∃ color, s.ink = .plain color

/-- What plain stores leave in a cell is a matter of that cell. -/
theorem paint_plain {b : Backing} {mem mem' : Int → UInt32} {made : List Store} {cell : Int}
    (hplain : ∀ s ∈ made, s.Plain) (h : mem cell = mem' cell) :
    paint b mem made cell = paint b mem' made cell := by
  induction made generalizing mem mem' with
  | nil => exact h
  | cons s made ih =>
      rw [List.forall_mem_cons] at hplain
      obtain ⟨color, hcolor⟩ := hplain.1
      refine ih hplain.2 ?_
      rw [Store.run, Store.run, Store.value, Store.value, hcolor, Function.update_apply,
        Function.update_apply, h]

/-- `(uint32_t)v`. -/
def u32 (v : Int16) : UInt32 := UInt32.ofInt v.toInt

/-- The clip that precedes an access to a pixel. -/
def LinuxGFX.inside {F : Type} (g : LinuxGFX F) (x y : Int16) : Bool :=
  0 ≤ x && x < g.width && 0 ≤ y && y < g.height

/-- A pixel of a span that is written into the draw buffer. -/
def spanStore (color : UInt32) (cell : Int) : Store :=
  ⟨cell, if alpha color = 0xFF then .plain color else .over color cell⟩

namespace Surface

variable {F : Type} (t : Surface F)

/-! ## Pixels -/

/-- The pixel of a device. -/
def deviceCell (pitch : UInt32) (x y : Int16) : Int :=
  ((u32 y * (pitch / 4) + u32 x).toNat : Int)

/-- The pixel of a canvas, as `setPixelRaw` and `getPixelRaw` find it. -/
def rawCell (x y : Int16) : Int := y.toInt * t.gfx.width.toInt + x.toInt

/-- The coordinates that a rotated canvas reads or writes. -/
def rotated (x y : Int16) : Int16 × Int16 :=
  if t.gfx.rotation = 1 then (t.gfx.width - 1 - y, x)
  else if t.gfx.rotation = 2 then (t.gfx.width - 1 - x, t.gfx.height - 1 - y)
  else if t.gfx.rotation = 3 then (y, t.gfx.height - 1 - x)
  else (x, y)

/-- The cell that `getPixel` reads, in the clip. -/
def getPixelCell (x y : Int16) : Int :=
  match t.backing with
  | .device pitch _ => deviceCell pitch x y
  | .canvas _ _ => t.rawCell (t.rotated x y).1 (t.rotated x y).2

/-- `setPixel`, on a colour that is opaque. -/
def setPixel (x y : Int16) (ink : Ink) : List Store :=
  if t.gfx.inside x y then
    match t.backing with
    | .device pitch mapped => if mapped then [⟨deviceCell pitch x y, ink⟩] else []
    | .canvas _ allocated => if allocated then [⟨t.rawCell x y, ink⟩] else []
  else []

/-- `setPixelRaw`. -/
def setPixelRaw (allocated : Bool) (x y : Int16) (argb : UInt32) : List Store :=
  if allocated = false ∨ alpha argb = 0 then [] else [spanStore argb (t.rawCell x y)]

/-- `writePixel`. -/
def writePixel (x y : Int16) (color : UInt32) : List Store :=
  if alpha color = 0 ∨ t.gfx.inside x y = false then []
  else if alpha color = 0xFF then t.setPixel x y (.plain color)
  else t.setPixel x y (.over color (t.getPixelCell x y))

/-! ## Spans -/

/-- `_stridePx`. -/
def stridePx : UInt32 := if t.backing.pitch ≠ 0 then t.backing.pitch / 4 else u32 t.gfx.width

/-- The cells of a span, one `step` after the other. -/
def spanCells (first : UInt32) (step n : Nat) : List Int :=
  (List.range n).map fun i => (first.toNat + i * step : Nat)

/-- `writeFastVLine`. -/
def writeFastVLine (x y h : Int16) (color : UInt32) : Option (List Store) :=
  if alpha color = 0 then some []
  else if t.backing.hasBuffer then
    let ys := max 0 y
    let ye := min t.gfx.height (Int16.ofInt (y.toInt + h.toInt))
    if x < 0 ∨ t.gfx.width ≤ x ∨ ye ≤ ys then some []
    else some ((spanCells (u32 ys * t.stridePx + u32 x) t.stridePx.toNat
      (ye.toInt - ys.toInt).toNat).map (spanStore color))
  else (forUp y (y.toInt + h.toInt)).map fun is => is.flatMap fun i => t.writePixel x i color

/-- `writeFastHLine`. -/
def writeFastHLine (x y w : Int16) (color : UInt32) : Option (List Store) :=
  let xs := max 0 x
  let xe := min t.gfx.width (Int16.ofInt (x.toInt + w.toInt))
  if alpha color = 0 ∨ y < 0 ∨ t.gfx.height ≤ y then some []
  else if t.backing.hasBuffer then
    if xe ≤ xs then some []
    else some ((spanCells (u32 y * t.stridePx + u32 xs) 1
      (xe.toInt - xs.toInt).toNat).map (spanStore color))
  else (forUp xs xe.toInt).map fun is => is.flatMap fun i => t.writePixel i y color

/-- `writeFillRect`. -/
def writeFillRect (x y w h : Int16) (color : UInt32) : Option (List Store) :=
  if alpha color = 0 then some []
  else (forUp y (y.toInt + h.toInt)).bind fun is =>
    inTurn (is.map fun i => t.writeFastHLine x i w color)

/-! ## The virtual functions -/

/-- `drawPixel`. -/
def drawPixel (x y : Int16) (color : UInt32) : List Store :=
  match t.backing with
  | .device _ _ => t.writePixel x y color
  | .canvas _ allocated =>
      if t.gfx.inside x y then
        t.setPixelRaw allocated (t.rotated x y).1 (t.rotated x y).2 color
      else []

/-- `drawFastVLine`. -/
def drawFastVLine (x y h : Int16) (color : UInt32) : Option (List Store) :=
  match t.backing with
  | .device _ _ =>
      let sw := Int16.ofNat t.gfx.drawStyle.strokeWidth.toNat
      if 1 < sw then t.writeFillRect (x - sw / 2) y sw h color else t.writeFastVLine x y h color
  | .canvas _ allocated =>
      let (y', h') := if y < 0 then (0, h + y) else (y, h)
      let h' := if t.gfx.height.toInt < y'.toInt + h'.toInt then t.gfx.height - y' else h'
      if allocated = false ∨ h ≤ 0 ∨ x < 0 ∨ t.gfx.width ≤ x ∨ h' ≤ 0 ∨ alpha color = 0 then some []
      else (forUp y' (y'.toInt + h'.toInt)).map fun rows =>
        rows.flatMap fun row => t.setPixelRaw allocated x row color

/-- `drawFastHLine`.  The one of a canvas does not blend. -/
def drawFastHLine (x y w : Int16) (color : UInt32) : Option (List Store) :=
  match t.backing with
  | .device _ _ =>
      let sw := Int16.ofNat t.gfx.drawStyle.strokeWidth.toNat
      if 1 < sw then t.writeFillRect x (y - sw / 2) w sw color else t.writeFastHLine x y w color
  | .canvas _ allocated =>
      let (x', w') := if x < 0 then (0, w + x) else (x, w)
      let w' := if t.gfx.width.toInt < x'.toInt + w'.toInt then t.gfx.width - x' else w'
      if allocated = false ∨ w ≤ 0 ∨ y < 0 ∨ t.gfx.height ≤ y ∨ w' ≤ 0 ∨ alpha color = 0 then
        some []
      else some ((List.range w'.toInt.toNat).map fun i => ⟨t.rawCell x' y + i, .plain color⟩)

/-- The pixels that `fillScreen` of a canvas sets: those in the bytes of its buffer, or as many as
the product of its sides says as a `size_t`. -/
def screenPixels (format : Format) : Nat :=
  match format with
  | .bw | .gray8 => t.gfx.width.toUInt16.toNat * t.gfx.height.toUInt16.toNat
  | .rgb565 | .rgb888 | .argb8888 => (t.gfx.width.toInt * t.gfx.height.toInt % 2 ^ 64).toNat

/-- `fillScreen`.  The one of a canvas does not blend. -/
def fillScreen (color : UInt32) : Option (List Store) :=
  match t.backing with
  | .device _ _ =>
      if alpha color = 0 then some [] else t.writeFillRect 0 0 t.gfx.width t.gfx.height color
  | .canvas format allocated =>
      if allocated = false ∨ alpha color = 0 then some []
      else some ((List.range (t.screenPixels format)).map fun i : Nat => ⟨i, .plain color⟩)

/-! ## Blits -/

/-- `drawRGB565Bitmap`.  The rows are `m_pitch / 4` apart, which is none for a canvas. -/
def drawRGB565Bitmap (x y : Int16) (bitmap : List UInt16) (w h : Int16) : List Store :=
  let (x0, bx) := if x < 0 then (0, -x) else (x, 0)
  let (y0, b_y) := if y < 0 then (0, -y) else (y, 0)
  let x1 := if t.gfx.width < x + w then t.gfx.width else x + w
  let y1 := if t.gfx.height < y + h then t.gfx.height else y + h
  let dw := x1 - x0
  let dh := y1 - y0
  if t.backing.hasBuffer = false ∨ dw ≤ 0 ∨ dh ≤ 0 then []
  else
    let dstStride := t.backing.pitch / 4
    let dst := (u32 y0 * dstStride + u32 x0).toNat
    let src := (u32 b_y * u32 w + u32 bx).toNat
    (cells dw dh).map fun (i, j) =>
      ⟨(dst + j * dstStride.toNat + i : Nat),
        .plain (argbFromRGB565 (bitmap.getD ((src : Int) + j * w.toInt + i).toNat 0))⟩

/-! ## Drawing -/

/-- The stores of a step. -/
def stores : Step → Option (List Store)
  | .writePixel x y color => some (t.writePixel x y color)
  | .writeFastVLine x y h color => t.writeFastVLine x y h color
  | .writeFastHLine x y w color => t.writeFastHLine x y w color
  | .drawPixel x y color => some (t.drawPixel x y color)
  | .drawFastVLine x y h color => t.drawFastVLine x y h color
  | .drawFastHLine x y w color => t.drawFastHLine x y w color
  | .fillScreen color => t.fillScreen color
  | .drawRGB565Bitmap x y bitmap w h => some (t.drawRGB565Bitmap x y bitmap w h)

/-- The stores of steps, if all of them return. -/
def storesOf (steps : List Step) : Option (List Store) := inTurn (steps.map t.stores)

variable (fm : FloatMath) (face : F → GFXfont) (pixels : F → FontPixels)

/-- The stores of a call on the surface. -/
def strokes (c : GfxCall F) : Option (List Store) := (c.plan fm face pixels t.gfx).bind t.storesOf

/-- Make a call on the surface. -/
def draw (c : GfxCall F) : Option (Surface F) :=
  (t.strokes fm face pixels c).map fun made =>
    { t with gfx := c.apply face t.gfx, mem := paint t.backing t.mem made }

/-- Make calls in turn. -/
def drawAll : Surface F → List (GfxCall F) → Option (Surface F)
  | t, [] => some t
  | t, c :: cs => (t.draw fm face pixels c).bind fun t' => drawAll t' cs

end Surface

end MFoES.Libgfx
