import MFoES.Lib.ByteMemory
import MFoES.Lib.LittleEndian
import MFoES.Libgfx.Blits
import MFoES.Libgfx.CanvasSpans

/-!
# The buffer of a canvas

A `GFXcanvas` keeps its pixels in bytes: eight pixels in one, or a pixel in one, two, three or
four.  A surface has cells instead, with what is kept of each pixel.  The cells that the bytes
stand for are the `picture` of the canvas.

To store a pixel into the bytes is to store it into its cell (`Format.kept_set`).  The loops and
the `memset`s over the bytes leave what the stores of a surface leave (`Shows`).
-/

namespace MFoES.Libgfx

open ByteMemory LittleEndian

variable {F : Type}

/-! ## Formats -/

namespace Format

/-- The bytes of so many pixels. -/
def bufferBytes : Format → Nat → Nat
  | bw, pixels => (pixels + 7) / 8
  | gray8, pixels => pixels
  | rgb565, pixels => pixels * 2
  | rgb888, pixels => pixels * 3
  | argb8888, pixels => pixels * 4

/-- `rgb888FromARGB`. -/
def rgb888FromARGB (argb : UInt32) : List UInt8 :=
  [(channel argb 16).toUInt8, (channel argb 8).toUInt8, (channel argb 0).toUInt8]

/-- How `setPixelRaw` stores a colour. -/
def set : Format → Memory → Nat → UInt32 → Memory
  | bw, mem, offset, c => putBit mem offset (128 ≤ gray8FromARGB c)
  | gray8, mem, offset, c => poke mem offset [gray8FromARGB c]
  | rgb565, mem, offset, c => poke mem (offset * 2) (le16 (rgb565FromARGB c))
  | rgb888, mem, offset, c => poke mem (offset * 3) (rgb888FromARGB c)
  | argb8888, mem, offset, c => poke mem (offset * 4) (le32 c)

/-- How `getPixelRaw` reads a pixel. -/
def get : Format → Memory → Nat → UInt32
  | bw, mem, offset => if getBit mem offset then 0xFFFFFFFF else 0xFF000000
  | gray8, mem, offset => grey (mem offset)
  | rgb565, mem, offset => argbFromRGB565 (ofLE16 (mem (offset * 2)) (mem (offset * 2 + 1)))
  | rgb888, mem, offset =>
      solidRGB (mem (offset * 3)) (mem (offset * 3 + 1)) (mem (offset * 3 + 2))
  | argb8888, mem, offset =>
      ofLE32 (mem (offset * 4)) (mem (offset * 4 + 1)) (mem (offset * 4 + 2)) (mem (offset * 4 + 3))

/-- What the bytes have kept of a pixel. -/
def kept : Format → Memory → Nat → UInt32
  | bw, mem, i => if getBit mem i then 1 else 0
  | gray8, mem, i => (mem i).toUInt32
  | rgb565, mem, i => (get16 (record mem 2 i) 0).toUInt32
  | rgb888, mem, i => get32 (record mem 3 i).reverse 0
  | argb8888, mem, i => get32 (record mem 4 i) 0

theorem solidRGB_eq (r g b : UInt8) : solidRGB r g b = 0xFF000000 ||| ofLE32 b g r 0 := by
  have hzero : (0 : UInt8).toUInt32 <<< 24 = 0 := rfl
  rw [solidRGB, ofLE32, hzero, UInt32.or_zero]
  ac_rfl

/-- A pixel is read as its kept value says. -/
theorem get_eq (format : Format) (mem : Memory) (i : Nat) :
    format.get mem i = format.argb (format.kept mem i) := by
  cases format with
  | bw =>
      rw [get, kept, argb]
      cases getBit mem i <;> rfl
  | gray8 => rw [get, kept, argb, UInt8.toUInt8_toUInt32]
  | rgb565 =>
      rw [get, kept, argb, UInt16.toUInt16_toUInt32]
      rfl
  | rgb888 => exact solidRGB_eq _ _ _
  | argb8888 => rfl

theorem keep_rgb888 (c : UInt32) :
    ofLE32 (channel c 0).toUInt8 (channel c 8).toUInt8 (channel c 16).toUInt8 0 =
      c &&& 0x00FFFFFF := by
  have hzero : (c >>> 0).toNat = c.toNat := by
    rw [UInt32.toNat_shiftRight]
    rfl
  have hmask : (c &&& 0x00FFFFFF).toNat = c.toNat % 2 ^ 24 := by
    rw [UInt32.toNat_and]
    exact Nat.and_two_pow_sub_one_eq_mod c.toNat 24
  have hlast : (0 : UInt8).toNat = 0 := rfl
  rw [← UInt32.toNat_inj, ofLE32_toNat, hmask, channel, channel, channel, mask_toNat32,
    mask_toNat32, mask_toNat32, hzero, shift8_toNat32, shift16_toNat32, hlast]
  omega

/-- To store a colour is to change what is kept of its pixel, and of no other. -/
theorem kept_set (format : Format) (mem : Memory) (i j : Nat) (c : UInt32) :
    format.kept (format.set mem i c) j = if i = j then format.keep c else format.kept mem j := by
  cases format with
  | bw =>
      rw [kept, set, getBit_putBit]
      split
      · rw [keep]
        simp only [decide_eq_true_eq]
      · rfl
  | gray8 =>
      rw [kept, set]
      split
      · next hown =>
        subst hown
        exact congrArg UInt8.toUInt32
          (poke_inside (show 0 < [gray8FromARGB c].length from Nat.zero_lt_one))
      · next hne => rw [poke_outside (by rw [List.length_singleton]; omega), kept]
  | rgb565 =>
      rw [kept, kept, set, record_poke mem (length_le16 _)]
      split
      · exact congrArg UInt16.toUInt32 (ofLE16_le16 _)
      · rfl
  | rgb888 =>
      rw [kept, kept, set, record_poke mem (show (rgb888FromARGB c).length = 3 from rfl)]
      split
      · exact keep_rgb888 c
      · rfl
  | argb8888 =>
      rw [kept, kept, set, record_poke mem (length_le32 _)]
      split
      · exact ofLE32_le32 c
      · rfl

/-- A pixel of the first `n` has its bytes below those of the others. -/
theorem set_beyond (format : Format) (mem : Memory) {i n : Nat} (c : UInt32) (hi : i < n) {k : Nat}
    (hk : format.bufferBytes n ≤ k) : format.set mem i c k = mem k := by
  cases format with
  | bw => exact putBit_beyond _ hi hk
  | gray8 =>
      refine poke_outside (Or.inr ?_)
      rw [bufferBytes] at hk
      rw [List.length_singleton]
      omega
  | rgb565 => exact poke_beyond (length_le16 _) hi hk
  | rgb888 => exact poke_beyond (show (rgb888FromARGB c).length = 3 from rfl) hi hk
  | argb8888 => exact poke_beyond (length_le32 _) hi hk

end Format

theorem channel_solidRGB (r g b : UInt8) :
    channel (solidRGB r g b) 16 = r.toUInt32 ∧ channel (solidRGB r g b) 8 = g.toUInt32 ∧
      channel (solidRGB r g b) 0 = b.toUInt32 := by
  have hr := r.toNat_lt
  have hg := g.toNat_lt
  have hb := b.toNat_lt
  have hsolid := toNat_solidRGB r g b
  have hmask : ∀ v : UInt32, (v &&& 0xFF).toNat = v.toNat % 2 ^ 8 := fun v => by
    rw [UInt32.toNat_and]
    exact Nat.and_two_pow_sub_one_eq_mod v.toNat 8
  have hzero : (solidRGB r g b >>> 0).toNat = (solidRGB r g b).toNat := by
    rw [UInt32.toNat_shiftRight]
    rfl
  simp only [← UInt32.toNat_inj, channel, hmask, shift16_toNat32, shift8_toNat32, hzero,
    UInt8.toNat_toUInt32, hsolid]
  omega

/-- The bits that are filled up are left out again. -/
theorem rgb565FromARGB_argbFromRGB565 (c : UInt16) : rgb565FromARGB (argbFromRGB565 c) = c := by
  have hc := c.toNat_lt
  have hfive : ∀ k : Fin 32,
      (UInt8.ofNat k <<< 3 ||| UInt8.ofNat k >>> 2).toUInt32 &&& (0xF8 : UInt32) =
          UInt32.ofNat k <<< 3 ∧
        (UInt8.ofNat k <<< 3 ||| UInt8.ofNat k >>> 2).toUInt32 >>> 3 = UInt32.ofNat k := by decide
  have hsix : ∀ k : Fin 64,
      (UInt8.ofNat k <<< 2 ||| UInt8.ofNat k >>> 4).toUInt32 &&& (0xFC : UInt32) =
        UInt32.ofNat k <<< 2 := by decide
  have hred : ((c >>> 11) &&& 0x1F).toUInt8 = UInt8.ofNat (c.toNat / 2 ^ 11) := by
    rw [← UInt8.toNat_inj, UInt16.toNat_toUInt8, UInt16.toNat_and, UInt16.toNat_shiftRight,
      UInt8.toNat_ofNat']
    change (c.toNat >>> 11 &&& 2 ^ 5 - 1) % 2 ^ 8 = _
    rw [Nat.and_two_pow_sub_one_eq_mod, Nat.shiftRight_eq_div_pow]
    omega
  have hgreen : ((c >>> 5) &&& 0x3F).toUInt8 = UInt8.ofNat (c.toNat / 2 ^ 5 % 2 ^ 6) := by
    rw [← UInt8.toNat_inj, UInt16.toNat_toUInt8, UInt16.toNat_and, UInt16.toNat_shiftRight,
      UInt8.toNat_ofNat']
    change (c.toNat >>> 5 &&& 2 ^ 6 - 1) % 2 ^ 8 = _
    rw [Nat.and_two_pow_sub_one_eq_mod, Nat.shiftRight_eq_div_pow]
  have hblue : (c &&& 0x1F).toUInt8 = UInt8.ofNat (c.toNat % 2 ^ 5) := by
    rw [← UInt8.toNat_inj, UInt16.toNat_toUInt8, UInt16.toNat_and, UInt8.toNat_ofNat']
    change (c.toNat &&& 2 ^ 5 - 1) % 2 ^ 8 = _
    rw [Nat.and_two_pow_sub_one_eq_mod]
  have hr := (hfive ⟨c.toNat / 2 ^ 11, by omega⟩).1
  have hg := hsix ⟨c.toNat / 2 ^ 5 % 2 ^ 6, by omega⟩
  have hb := (hfive ⟨c.toNat % 2 ^ 5, by omega⟩).2
  dsimp only at hr hg hb
  rw [argbFromRGB565, rgb565FromARGB]
  rw [(channel_solidRGB _ _ _).1, (channel_solidRGB _ _ _).2.1, (channel_solidRGB _ _ _).2.2,
    hred, hgreen, hblue, hr, hg, hb, ← UInt16.toNat_inj]
  simp only [UInt32.toNat_toUInt16, UInt32.toNat_or, UInt32.toNat_shiftLeft, UInt32.toNat_ofNat',
    UInt32.reduceToNat, Nat.reduceMod, Nat.shiftLeft_eq]
  have hhigh : c.toNat / 2 ^ 11 % 2 ^ 32 * 2 ^ 3 % 2 ^ 32 * 2 ^ 8 % 2 ^ 32 =
      2 ^ 11 * (c.toNat / 2 ^ 11) := by omega
  have hmid : c.toNat / 2 ^ 5 % 2 ^ 6 % 2 ^ 32 * 2 ^ 2 % 2 ^ 32 * 2 ^ 3 % 2 ^ 32 =
      2 ^ 5 * (c.toNat / 2 ^ 5 % 2 ^ 6) := by omega
  have htwo : 2 ^ 11 * (c.toNat / 2 ^ 11) ||| 2 ^ 5 * (c.toNat / 2 ^ 5 % 2 ^ 6) =
      2 ^ 5 * (c.toNat / 2 ^ 5) := by
    rw [← Nat.two_pow_add_eq_or_of_lt (by omega)]
    omega
  rw [hhigh, hmid, htwo, ← Nat.two_pow_add_eq_or_of_lt (by omega)]
  omega

/-- A store to one of the first `n` cells, and from one of them if it blends. -/
structure Store.In (n : Nat) (s : Store) : Prop where
  cell : 0 ≤ s.cell ∧ s.cell < n
  src : ∀ color src, s.ink = .over color src → 0 ≤ src ∧ src < n

/-! ## Canvases -/

/-- `GFXcanvas`, with its buffer. -/
structure GFXcanvas (F : Type) where
  gfx : LinuxGFX F
  format : Format
  canvasBuffer : Memory

namespace GFXcanvas

variable (c : GFXcanvas F)

/-- `(size_t)m_width * (size_t)m_height`. -/
def pixels : Nat := (c.gfx.width.toInt * c.gfx.height.toInt % 2 ^ 64).toNat

/-- `m_bufferBytes`. -/
def bufferBytes : Nat :=
  c.format.bufferBytes (c.gfx.width.toUInt16.toNat * c.gfx.height.toUInt16.toNat)

/-- `(size_t)y * (size_t)m_width + (size_t)x`. -/
def offset (x y : Int16) : Nat := ((y.toInt * c.gfx.width.toInt + x.toInt) % 2 ^ 64).toNat

/-- `getPixelRaw`. -/
def getPixelRaw (x y : Int16) : UInt32 := c.format.get c.canvasBuffer (c.offset x y)

/-- `setPixelRaw`. -/
def setPixelRaw (x y : Int16) (argb : UInt32) : GFXcanvas F :=
  if alpha argb = 0 then c
  else
    let blended := if alpha argb = 0xFF then argb else blendARGB argb (c.getPixelRaw x y)
    { c with canvasBuffer := c.format.set c.canvasBuffer (c.offset x y) blended }

/-- The cells that the buffer stands for. -/
def picture : Surface F where
  gfx := c.gfx
  backing := .canvas c.format true
  mem cell :=
    if 0 ≤ cell ∧ cell < c.pixels then c.format.kept c.canvasBuffer cell.toNat else 0

/-- `getPixel`. -/
def getPixel (x y : Int16) : UInt32 :=
  if c.gfx.inside x y then
    c.getPixelRaw (c.picture.rotated x y).1 (c.picture.rotated x y).2
  else 0

/-- `drawPixel`. -/
def drawPixel (x y : Int16) (color : UInt32) : GFXcanvas F :=
  if c.gfx.inside x y then
    c.setPixelRaw (c.picture.rotated x y).1 (c.picture.rotated x y).2 color
  else c

/-- `setPixel`. -/
def setPixel (x y : Int16) (color : UInt32) : GFXcanvas F :=
  if c.gfx.inside x y then c.setPixelRaw x y color else c

/-- `writePixel`. -/
def writePixel (x y : Int16) (color : UInt32) : GFXcanvas F :=
  if alpha color = 0 ∨ c.gfx.inside x y = false then c
  else if alpha color = 0xFF then c.setPixel x y color
  else c.setPixel x y (blendARGB color (c.getPixel x y))

/-- The pixels of a loop, each of which is set to the colour. -/
def fill (first n : Nat) (color : UInt32) : GFXcanvas F :=
  { c with
    canvasBuffer := (List.range n).foldl
      (fun mem i => c.format.set mem (first + i) color) c.canvasBuffer }

/-- `memset` from an address on. -/
def memset (base : Nat) (value : UInt8) (n : Nat) : GFXcanvas F :=
  { c with
    canvasBuffer := fun k => if base ≤ k ∧ k < base + n then value else c.canvasBuffer k }

/-- `fillScreen`. -/
def fillScreen (color : UInt32) : GFXcanvas F :=
  if alpha color = 0 then c
  else
    match c.format with
    | .bw => c.memset 0 (if 128 ≤ gray8FromARGB color then 0xFF else 0x00) c.bufferBytes
    | .gray8 => c.memset 0 (gray8FromARGB color) c.bufferBytes
    | .rgb565 | .rgb888 | .argb8888 => c.fill 0 c.pixels color

/-- `drawFastHLine`. -/
def drawFastHLine (x y w : Int16) (color : UInt32) : GFXcanvas F :=
  let (x', w') := Surface.cut x w c.gfx.width
  if w ≤ 0 ∨ y < 0 ∨ c.gfx.height ≤ y ∨ w' ≤ 0 ∨ alpha color = 0 then c
  else
    match c.format with
    | .gray8 => c.memset (c.offset x' y) (gray8FromARGB color) w'.toInt.toNat
    | .bw | .rgb565 | .rgb888 | .argb8888 => c.fill (c.offset x' y) w'.toInt.toNat color

/-- `drawFastVLine`. -/
def drawFastVLine (x y h : Int16) (color : UInt32) : Option (GFXcanvas F) :=
  let (y', h') := Surface.cut y h c.gfx.height
  if h ≤ 0 ∨ x < 0 ∨ c.gfx.width ≤ x ∨ h' ≤ 0 ∨ alpha color = 0 then some c
  else (forUp y' (y'.toInt + h'.toInt)).map fun rows =>
    rows.foldl (fun c row => c.setPixelRaw x row color) c

/-- `copyToARGB8888`. -/
def copyToARGB8888 : List UInt32 := (List.range c.pixels).map fun i => c.format.get c.canvasBuffer i

/-- `copyToRGB565`. -/
def copyToRGB565 : List UInt16 := (List.range c.pixels).map fun i =>
  match c.format with
  | .rgb565 => get16 (record c.canvasBuffer 2 i) 0
  | .bw | .gray8 | .rgb888 | .argb8888 => rgb565FromARGB (c.format.get c.canvasBuffer i)

/-! ## The cells of a canvas -/

/-- A canvas that is not turned, with no more than 32767 pixels a side. -/
structure Upright : Prop where
  rotation : c.gfx.rotation = 0
  width : 0 ≤ c.gfx.width.toInt
  height : 0 ≤ c.gfx.height.toInt

/-- The second canvas has what the stores leave of the first one, and has changed nothing behind
the buffer. -/
structure Shows (made : List Store) (c' : GFXcanvas F) : Prop where
  picture : c'.picture = { c.picture with mem := paint c.picture.backing c.picture.mem made }
  beyond : ∀ k, c.bufferBytes ≤ k → c'.canvasBuffer k = c.canvasBuffer k

variable {c} {c' c'' : GFXcanvas F} {made made' : List Store}

theorem Shows.gfx (h : c.Shows made c') : c'.gfx = c.gfx := congrArg Surface.gfx h.picture

theorem Shows.format (h : c.Shows made c') : c'.format = c.format :=
  (Backing.canvas.inj (congrArg Surface.backing h.picture)).1

theorem Shows.refl (c : GFXcanvas F) : c.Shows [] c := ⟨rfl, fun _ _ => rfl⟩

theorem Shows.trans (h : c.Shows made c') (h' : c'.Shows made' c'') :
    c.Shows (made ++ made') c'' := by
  have hbytes : c'.bufferBytes = c.bufferBytes := by
    rw [bufferBytes, bufferBytes, h.format, h.gfx]
  refine ⟨?_, fun k hk => ?_⟩
  · rw [h'.picture, h.picture, paint_append]
  · rw [h'.beyond k (by rw [hbytes]; exact hk), h.beyond k hk]

theorem Shows.upright (h : c.Shows made c') (hc : c.Upright) : c'.Upright := by
  constructor
  · rw [h.gfx]
    exact hc.rotation
  · rw [h.gfx]
    exact hc.width
  · rw [h.gfx]
    exact hc.height

theorem Shows.pixels (h : c.Shows made c') : c'.pixels = c.pixels := by
  rw [GFXcanvas.pixels, GFXcanvas.pixels, h.gfx]

section Upright

variable (hc : c.Upright)

include hc

theorem Upright.pixels_eq : (c.pixels : Int) = c.gfx.width.toInt * c.gfx.height.toInt :=
  Surface.screenPixels_eq (t := c.picture) hc.width hc.height .argb8888

theorem Upright.bufferBytes_eq : c.bufferBytes = c.format.bufferBytes c.pixels := by
  have hsides : (c.picture.screenPixels .gray8 : Int) = c.pixels :=
    (Surface.screenPixels_eq (t := c.picture) hc.width hc.height .gray8).trans hc.pixels_eq.symm
  exact congrArg c.format.bufferBytes (Int.natCast_inj.mp hsides)

/-- A row of pixels is in the buffer. -/
theorem Upright.row_in {y : Int} (hy : 0 ≤ y) (hyH : y < c.gfx.height.toInt) :
    0 ≤ y * c.gfx.width.toInt ∧ y * c.gfx.width.toInt + c.gfx.width.toInt ≤ c.pixels ∧
      (c.pixels : Int) < 2 ^ 64 := by
  have hwidth := c.gfx.width.toInt_lt
  have hheight := c.gfx.height.toInt_lt
  have hrow : (y + 1) * c.gfx.width.toInt ≤ c.gfx.height.toInt * c.gfx.width.toInt :=
    Int.mul_le_mul_of_nonneg_right (by omega) hc.width
  have hall : c.gfx.height.toInt * c.gfx.width.toInt ≤ 32767 * 32767 :=
    Int.mul_le_mul (by omega) (by omega) hc.width (by omega)
  rw [hc.pixels_eq, Int.mul_comm c.gfx.width.toInt]
  rw [Int.add_mul, Int.one_mul] at hrow
  exact ⟨Int.mul_nonneg hy hc.width, hrow, by omega⟩

/-- A pixel in the clip has its cell in the buffer. -/
theorem Upright.offset_eq {x y : Int16} (hin : c.gfx.inside x y = true) :
    (c.offset x y : Int) = c.picture.rawCell x y ∧ c.offset x y < c.pixels := by
  obtain ⟨hx, hxW, hy, hyH⟩ := inside_iff.mp hin
  obtain ⟨hnonneg, hend, hmost⟩ := hc.row_in hy hyH
  have hoffset : (c.offset x y : Int) = y.toInt * c.gfx.width.toInt + x.toInt := by
    rw [offset, Int.emod_eq_of_lt (by omega) (by omega), Int.toNat_of_nonneg (by omega)]
  exact ⟨hoffset, by omega⟩

end Upright

/-! ## Stores -/

/-- What a store puts into its cell, with the colours that the bytes stand for. -/
def inkColor (c : GFXcanvas F) : Ink → UInt32
  | .plain color => color
  | .over color src => blendARGB color (c.format.get c.canvasBuffer src.toNat)

/-- Make a store. -/
def put (c : GFXcanvas F) (s : Store) : GFXcanvas F :=
  { c with canvasBuffer := c.format.set c.canvasBuffer s.cell.toNat (c.inkColor s.ink) }

theorem picture_mem {cell : Int} (h : 0 ≤ cell ∧ cell < c.pixels) :
    c.picture.mem cell = c.format.kept c.canvasBuffer cell.toNat := if_pos h

/-- Two canvases of one kind that have kept the same have the same picture. -/
theorem picture_eq (hgfx : c'.gfx = c.gfx) (hformat : c'.format = c.format) {mem : Int → UInt32}
    (hin : ∀ i < c.pixels, c.format.kept c'.canvasBuffer i = mem i)
    (hout : ∀ cell : Int, ¬ (0 ≤ cell ∧ cell < c.pixels) → mem cell = 0) :
    c'.picture = { c.picture with mem := mem } := by
  have hmem : c'.picture.mem = mem := by
    funext cell
    show (if 0 ≤ cell ∧ cell < (c'.pixels : Int) then
      c'.format.kept c'.canvasBuffer cell.toNat else 0) = mem cell
    rw [pixels, hgfx, hformat]
    split
    · next hcell =>
      have hcell' : 0 ≤ cell ∧ cell < c.pixels := hcell
      rw [hin cell.toNat (by omega), Int.toNat_of_nonneg hcell.1]
    · next hcell => exact (hout cell hcell).symm
  rw [← hmem, picture, picture, hgfx, hformat]

theorem paint_outside {n : Nat} (hmade : ∀ s ∈ made, s.In n) {cell : Int}
    (h : ¬ (0 ≤ cell ∧ cell < n)) (b : Backing) (mem : Int → UInt32) :
    paint b mem made cell = mem cell :=
  paint_other fun s hs heq => h (heq ▸ (hmade s hs).cell)

theorem shows_put (hc : c.Upright) {s : Store} (hs : s.In c.pixels) : c.Shows [s] (c.put s) := by
  constructor
  · refine picture_eq (show (c.put s).gfx = c.gfx from rfl) rfl (fun i hi => ?_)
      fun cell hcell => ?_
    · obtain ⟨hnonneg, -⟩ := hs.cell
      have hvalue : s.value c.picture.backing c.picture.mem = c.format.keep (c.inkColor s.ink) := by
        rw [Store.value]
        refine congrArg c.format.keep ?_
        rcases hink : s.ink with color | ⟨color, src⟩
        · rfl
        · rw [inkColor, Format.get_eq, ← picture_mem (hs.src color src hink)]
          rfl
      have howner : s.cell.toNat = i ↔ (i : Int) = s.cell := by omega
      show c.format.kept (c.format.set c.canvasBuffer s.cell.toNat (c.inkColor s.ink)) i =
        Store.run c.picture.backing c.picture.mem s i
      rw [Format.kept_set, Store.run, Function.update_apply, hvalue,
        picture_mem (show 0 ≤ (i : Int) ∧ (i : Int) < c.pixels by omega), Int.toNat_natCast]
      exact if_congr howner rfl rfl
    · rw [paint_outside (List.forall_mem_singleton.mpr hs) hcell]
      exact if_neg hcell
  · intro k hk
    obtain ⟨hnonneg, hlt⟩ := hs.cell
    rw [hc.bufferBytes_eq] at hk
    exact Format.set_beyond _ _ _ (by omega) hk

/-- Stores into the bytes are stores into the cells. -/
theorem shows_puts (hc : c.Upright) (hmade : ∀ s ∈ made, s.In c.pixels) :
    c.Shows made (made.foldl put c) := by
  induction made generalizing c with
  | nil => exact Shows.refl c
  | cons s made ih =>
      rw [List.forall_mem_cons] at hmade
      have hfirst := shows_put hc hmade.1
      exact hfirst.trans (ih (hfirst.upright hc) (by rw [hfirst.pixels]; exact hmade.2))

/-- Pixels of one colour. -/
theorem shows_plain {color : UInt32} {l : List Int} (hgfx : c'.gfx = c.gfx)
    (hformat : c'.format = c.format) (hl : ∀ cell ∈ l, 0 ≤ cell ∧ cell < c.pixels)
    (hkept : ∀ i < c.pixels, c.format.kept c'.canvasBuffer i =
      if (i : Int) ∈ l then c.format.keep color else c.format.kept c.canvasBuffer i)
    (hbeyond : ∀ k, c.bufferBytes ≤ k → c'.canvasBuffer k = c.canvasBuffer k) :
    c.Shows (l.map (plainStore color)) c' := by
  refine ⟨picture_eq hgfx hformat (fun i hi => ?_) fun cell hcell => ?_, hbeyond⟩
  · rw [hkept i hi, paint_plainStores,
      picture_mem (show 0 ≤ (i : Int) ∧ (i : Int) < c.pixels by omega), Int.toNat_natCast]
    rfl
  · rw [paint_plainStores, if_neg fun hmem => hcell (hl cell hmem)]
    exact if_neg hcell

/-! ## Pixels -/

theorem in_spanStore {n : Nat} {cell : Int} (h : 0 ≤ cell ∧ cell < n) (color : UInt32) :
    (spanStore color cell).In n := by
  refine ⟨h, fun color' src hink => ?_⟩
  rw [spanStore] at hink
  dsimp only at hink
  split at hink
  · cases hink
  · cases hink
    exact h

/-- A colour over a pixel, or in its place. -/
def blended (c : GFXcanvas F) (x y : Int16) (argb : UInt32) : UInt32 :=
  if alpha argb = 0xFF then argb else blendARGB argb (c.getPixelRaw x y)

section Pixels

variable (hc : c.Upright) {x y : Int16} (hin : c.gfx.inside x y = true)

include hc hin

theorem Upright.rawCell_in :
    0 ≤ c.picture.rawCell x y ∧ c.picture.rawCell x y < c.pixels := by
  obtain ⟨hoffset, hlt⟩ := hc.offset_eq hin
  omega

theorem Upright.put_eq (argb : UInt32) :
    c.put (spanStore argb (c.picture.rawCell x y)) =
      { c with canvasBuffer := c.format.set c.canvasBuffer (c.offset x y) (c.blended x y argb) } := by
  have hcell : (c.picture.rawCell x y).toNat = c.offset x y := by
    obtain ⟨hoffset, -⟩ := hc.offset_eq hin
    omega
  have hink : c.inkColor (spanStore argb (c.picture.rawCell x y)).ink = c.blended x y argb := by
    rw [spanStore, blended]
    dsimp only
    split
    · rfl
    · rw [inkColor, hcell]
      rfl
  rw [put, hink]
  exact congrArg (fun i => ({ c with
    canvasBuffer := c.format.set c.canvasBuffer i (c.blended x y argb) } : GFXcanvas F)) hcell

theorem shows_setPixelRaw (argb : UInt32) :
    c.Shows (c.picture.setPixelRaw true x y argb) (c.setPixelRaw x y argb) := by
  rw [Surface.setPixelRaw, setPixelRaw]
  by_cases hclear : alpha argb = 0
  · rw [if_pos (Or.inr hclear), if_pos hclear]
    exact Shows.refl c
  · rw [if_neg (by simpa using hclear), if_neg hclear]
    have hput := shows_put hc (in_spanStore (hc.rawCell_in hin) argb)
    rw [hc.put_eq hin] at hput
    exact hput

omit hin in
theorem Upright.rotated_eq (x y : Int16) : c.picture.rotated x y = (x, y) := by
  have hrot : c.picture.gfx.rotation = 0 := hc.rotation
  rw [Surface.rotated, hrot]
  rfl

omit hin in
theorem shows_drawPixel (x y : Int16) (color : UInt32) :
    c.Shows (c.picture.drawPixel x y color) (c.drawPixel x y color) := by
  show c.Shows (if c.gfx.inside x y then _ else []) (if c.gfx.inside x y then _ else c)
  rw [hc.rotated_eq]
  split
  · next hin => exact shows_setPixelRaw hc hin color
  · exact Shows.refl c

/-- A colour that is blended first is blended once. -/
theorem Upright.writePixel_eq (color : UInt32) :
    c.writePixel x y color = c.setPixelRaw x y color := by
  have hget : c.getPixel x y = c.getPixelRaw x y := by
    rw [getPixel, if_pos hin, hc.rotated_eq]
  rw [writePixel, hget, setPixelRaw]
  by_cases hclear : alpha color = 0
  · rw [if_pos (Or.inl hclear), if_pos hclear]
  · rw [if_neg (by simp [hclear, hin]), if_neg hclear]
    by_cases hfull : alpha color = 0xFF
    · rw [if_pos hfull, setPixel, if_pos hin, setPixelRaw, if_neg hclear]
    · have hopaque := alpha_blendARGB (c.getPixelRaw x y) hclear hfull
      rw [if_neg hfull, if_neg hfull, setPixel, if_pos hin, setPixelRaw, hopaque,
        if_neg (by decide), if_pos rfl]

omit hin in
theorem shows_writePixel (x y : Int16) (color : UInt32) :
    c.Shows (c.picture.writePixel x y color) (c.writePixel x y color) := by
  have hpanel : c.picture.Panel := Surface.panel_canvas rfl hc.rotation
  rw [← hpanel.drawPixel_eq]
  cases hin : c.gfx.inside x y with
  | true =>
      have hdrawn := shows_drawPixel hc x y color
      rw [drawPixel, if_pos hin, hc.rotated_eq] at hdrawn
      rw [hc.writePixel_eq hin]
      exact hdrawn
  | false =>
      have hdrawn := shows_drawPixel hc x y color
      rw [drawPixel, hin, if_neg Bool.false_ne_true] at hdrawn
      rw [writePixel, if_pos (Or.inr hin)]
      exact hdrawn

end Pixels

/-! ## Loops and `memset`s -/

/-- The cells of a run of pixels. -/
def runCells (first n : Nat) : List Int := (List.range n).map fun k : Nat => (first : Int) + k

theorem mem_runCells {first n i : Nat} :
    (i : Int) ∈ runCells first n ↔ first ≤ i ∧ i < first + n := by
  simp only [runCells, List.mem_map, List.mem_range]
  constructor
  · rintro ⟨k, hk, heq⟩
    omega
  · rintro ⟨hlow, hhigh⟩
    exact ⟨i - first, by omega, by omega⟩

theorem in_runCells {first n m : Nat} (h : first + n ≤ m) :
    ∀ cell ∈ runCells first n, 0 ≤ cell ∧ cell < m := by
  intro cell hcell
  obtain ⟨k, hk, rfl⟩ := List.mem_map.mp hcell
  rw [List.mem_range] at hk
  omega

theorem kept_fill (c : GFXcanvas F) (first n : Nat) (color : UInt32) (i : Nat) :
    c.format.kept (c.fill first n color).canvasBuffer i =
      if (i : Int) ∈ runCells first n then c.format.keep color
      else c.format.kept c.canvasBuffer i := by
  simp only [mem_runCells]
  induction n with
  | zero => rw [if_neg (by omega)]; rfl
  | succ n ih =>
      have hlast : (c.fill first (n + 1) color).canvasBuffer =
          c.format.set (c.fill first n color).canvasBuffer (first + n) color := by
        rw [fill, List.range_succ, List.foldl_append]
        rfl
      rw [hlast, Format.kept_set, ih]
      by_cases hown : first + n = i
      · rw [if_pos hown, if_pos (by omega)]
      · rw [if_neg hown]
        exact if_congr (by omega) rfl rfl

theorem fill_beyond (c : GFXcanvas F) {first n m : Nat} (h : first + n ≤ m) (color : UInt32)
    {k : Nat} (hk : c.format.bufferBytes m ≤ k) :
    (c.fill first n color).canvasBuffer k = c.canvasBuffer k := by
  induction n with
  | zero => rfl
  | succ n ih =>
      rw [fill, List.range_succ, List.foldl_append]
      exact (Format.set_beyond _ _ _ (by omega) hk).trans (ih (by omega))

section Runs

variable (hc : c.Upright) {first n : Nat} (h : first + n ≤ c.pixels) (color : UInt32)

include hc h

theorem shows_fill :
    c.Shows ((runCells first n).map (plainStore color)) (c.fill first n color) := by
  refine shows_plain rfl rfl (in_runCells h) (fun i _ => kept_fill c first n color i) fun k hk => ?_
  rw [hc.bufferBytes_eq] at hk
  exact fill_beyond c h color hk

theorem shows_memset_gray8 (hformat : c.format = .gray8) :
    c.Shows ((runCells first n).map (plainStore color))
      (c.memset first (gray8FromARGB color) n) := by
  refine shows_plain rfl rfl (in_runCells h) (fun i _ => ?_) fun k hk => ?_
  · rw [hformat, Format.kept, Format.kept, Format.keep, memset]
    simp only [mem_runCells]
    split <;> rfl
  · rw [hc.bufferBytes_eq, hformat, Format.bufferBytes] at hk
    rw [memset]
    exact if_neg (by omega)

omit h in
/-- All the bits of the buffer, with those that are no pixels. -/
theorem shows_memset_bw (hformat : c.format = .bw) :
    c.Shows ((runCells 0 c.pixels).map (plainStore color))
      (c.memset 0 (if 128 ≤ gray8FromARGB color then 0xFF else 0x00) c.bufferBytes) := by
  refine shows_plain rfl rfl (in_runCells (Nat.le_of_eq (Nat.zero_add _))) (fun i hi => ?_)
    fun k hk => ?_
  · have hbyte : 0 ≤ i / 8 ∧ i / 8 < 0 + c.bufferBytes := by
      rw [hc.bufferBytes_eq, hformat, Format.bufferBytes]
      omega
    have hbit : getBit (c.memset 0 (if 128 ≤ gray8FromARGB color then 0xFF else 0x00)
        c.bufferBytes).canvasBuffer i = decide (128 ≤ gray8FromARGB color) := by
      rw [memset, getBit]
      refine (congrArg (fun byte => bitOf byte i) (if_pos hbyte)).trans ?_
      rw [bitOf_eq]
      by_cases hlight : 128 ≤ gray8FromARGB color
      · rw [if_pos hlight, decide_eq_true hlight]
        refine (Nat.testBit_two_pow_sub_one 8 _).trans (decide_eq_true ?_)
        omega
      · rw [if_neg hlight, decide_eq_false hlight]
        exact Nat.zero_testBit _
    rw [hformat, Format.kept, Format.kept, Format.keep, hbit,
      if_pos (mem_runCells.mpr ⟨Nat.zero_le i, by omega⟩)]
    simp only [decide_eq_true_eq]
  · rw [memset]
    exact if_neg (by omega)

end Runs

theorem shows_fillScreen (hc : c.Upright) {color : UInt32}
    (hmade : c.picture.fillScreen color = some made) : c.Shows made (c.fillScreen color) := by
  have hpixels : (c.picture.screenPixels c.format : Int) = c.pixels :=
    (Surface.screenPixels_eq (t := c.picture) hc.width hc.height c.format).trans hc.pixels_eq.symm
  have hstores : ((List.range (c.picture.screenPixels c.format)).map
      fun i : Nat => (⟨i, .plain color⟩ : Store)) =
        (runCells 0 c.pixels).map (plainStore color) := by
    rw [Int.natCast_inj.mp hpixels, runCells, List.map_map]
    refine List.map_congr_left fun i _ => ?_
    show plainStore color i = plainStore color (((0 : Nat) : Int) + i)
    rw [Int.natCast_zero, Int.zero_add]
  change (if _ ∨ alpha color = 0 then some [] else some _) = some made at hmade
  rw [hstores] at hmade
  rw [fillScreen]
  by_cases hclear : alpha color = 0
  · rw [if_pos (Or.inr hclear)] at hmade
    rw [if_pos hclear]
    cases hmade
    exact Shows.refl c
  · rw [if_neg (by simpa using hclear)] at hmade
    rw [if_neg hclear]
    cases hmade
    have hall : 0 + c.pixels ≤ c.pixels := Nat.le_of_eq (Nat.zero_add _)
    cases hformat : c.format with
    | bw => exact shows_memset_bw hc color hformat
    | gray8 =>
        have hbytes : c.bufferBytes = c.pixels := by
          rw [hc.bufferBytes_eq, hformat, Format.bufferBytes]
        dsimp only
        rw [hbytes]
        exact shows_memset_gray8 hc hall color hformat
    | rgb565 | rgb888 | argb8888 => exact shows_fill hc hall color

end GFXcanvas

end MFoES.Libgfx
