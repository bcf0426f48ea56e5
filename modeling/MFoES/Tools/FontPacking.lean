import MFoES.Lib.BitPacking
import MFoES.Lib.Transition
import MFoES.Libgfx.Panels
import MFoES.Libgfx.TextLayout

/-!
# Fonts from the packer

`ttf_to_adafruit.py` renders the glyphs of a font with FreeType, packs the bits of each bitmap row
after row into bytes, and writes the bytes of all glyphs one after the other, with the offset at
which each starts.  `drawChar` reads the bits of a glyph with a counter of eight bits.

The two agree: a character is drawn with exactly the pixels that FreeType has set
(`drawChar_packed`).  FreeType itself is a parameter, `Face`.
-/

namespace MFoES.Tools

open BitPacking MFoES.Libgfx Transition

/-! ## The packer -/

/-- A glyph slot of FreeType, with a bitmap of one bit for a pixel. -/
structure GlyphSlot where
  width : Nat
  rows : Nat
  pitch : Nat
  buffer : Nat → UInt8
  bitmapLeft : Int
  bitmapTop : Int
  advanceX : Int

/-- A font that FreeType has opened, at a size. -/
structure Face where
  /-- `size.height`. -/
  height : Int
  charIndex : Nat → Nat
  loadGlyph : Nat → GlyphSlot
  loadChar : Nat → GlyphSlot

/-- `bit`. -/
def GlyphSlot.pixel (slot : GlyphSlot) (p : Nat × Nat) : Bool :=
  let (row, col) := p
  let byteIdx := row * slot.pitch + (col >>> 3)
  ((slot.buffer byteIdx).toNat >>> (7 - (col &&& 7))) &&& 1 = 1

/-- The rows of a bitmap, and the columns in each. -/
def rowMajor (w h : Nat) : List (Nat × Nat) :=
  (List.range h).flatMap fun row => (List.range w).map fun col => (row, col)

/-- `packed`. -/
def GlyphSlot.packed (slot : GlyphSlot) : List Nat :=
  ((rowMajor slot.width slot.rows).foldl (fun w p => w.push (slot.pixel p)) ({} : Writer)).flush

/-- An entry of `glyphs`, in the order of the header's columns. -/
structure GlyphEntry where
  bitmapOffset : Nat
  w : Nat
  h : Nat
  xa : Int
  xo : Int
  yo : Int
  code : Nat

/-- The lists of `render_font`. -/
structure Rendered where
  bitmaps : List Nat := []
  glyphs : List GlyphEntry := []
  bitmapOffset : Nat := 0

/-- The body of the loop over the code points. -/
def Rendered.add (face : Face) (r : Rendered) (code : Nat) : Rendered :=
  let glyphIndex := face.charIndex code
  if glyphIndex = 0 then
    let xa := (face.loadChar 32).advanceX >>> (6 : Nat)
    { r with glyphs := r.glyphs ++ [⟨r.bitmapOffset, 0, 0, xa, 0, 0, code⟩] }
  else
    let slot := face.loadGlyph glyphIndex
    let entry : GlyphEntry := ⟨r.bitmapOffset, slot.width, slot.rows, slot.advanceX >>> (6 : Nat),
      slot.bitmapLeft, -slot.bitmapTop, code⟩
    { bitmaps := r.bitmaps ++ slot.packed
      glyphs := r.glyphs ++ [entry]
      bitmapOffset := r.bitmapOffset + slot.packed.length }

/-- `range(first_code, last_code + 1)`. -/
def codePoints (first last : Nat) : List Nat := List.range' first (last + 1 - first)

/-- `render_font`, with its `y_advance`. -/
def renderFont (face : Face) (sizePx first last : Nat) : Rendered × Int :=
  let yAdvance := face.height >>> (6 : Nat)
  ((codePoints first last).foldl (Rendered.add face) {},
    if yAdvance = 0 then (sizePx : Int) else yAdvance)

/-! ## The packed bytes -/

/-- The bitmap of a code point: FreeType's, or none. -/
def Face.slot (face : Face) (code : Nat) : Option GlyphSlot :=
  if face.charIndex code = 0 then none else some (face.loadGlyph (face.charIndex code))

/-- The bytes of a code point. -/
def Face.packed (face : Face) (code : Nat) : List Nat :=
  match face.slot code with
  | none => []
  | some slot => slot.packed

/-- The entry of a code point whose bytes start at an offset. -/
def Face.entry (face : Face) (offset code : Nat) : GlyphEntry :=
  match face.slot code with
  | none => ⟨offset, 0, 0, (face.loadChar 32).advanceX >>> (6 : Nat), 0, 0, code⟩
  | some slot => ⟨offset, slot.width, slot.rows, slot.advanceX >>> (6 : Nat), slot.bitmapLeft,
      -slot.bitmapTop, code⟩

theorem GlyphSlot.packed_eq (slot : GlyphSlot) :
    slot.packed = pack ((rowMajor slot.width slot.rows).map slot.pixel) := by
  rw [packed, pack, List.foldl_map]

theorem Rendered.add_eq (face : Face) (r : Rendered) (code : Nat) :
    r.add face code =
      { bitmaps := r.bitmaps ++ face.packed code
        glyphs := r.glyphs ++ [face.entry r.bitmapOffset code]
        bitmapOffset := r.bitmapOffset + (face.packed code).length } := by
  rw [add, Face.packed, Face.entry, Face.slot]
  by_cases hnone : face.charIndex code = 0
  · simp only [if_pos hnone, List.append_nil, List.length_nil, Nat.add_zero]
  · simp only [if_neg hnone]

/-- What the loop has made of some code points. -/
structure RendersTo (face : Face) (codes : List Nat) (r : Rendered) : Prop where
  bitmaps : r.bitmaps = codes.flatMap face.packed
  offset : r.bitmapOffset = r.bitmaps.length
  length : r.glyphs.length = codes.length
  entry : ∀ before code after, codes = before ++ code :: after →
    r.glyphs[before.length]? = some (face.entry (before.flatMap face.packed).length code)

theorem RendersTo.add {face : Face} {codes : List Nat} {r : Rendered} (h : RendersTo face codes r)
    (code : Nat) : RendersTo face (codes ++ [code]) (r.add face code) := by
  rw [Rendered.add_eq]
  refine ⟨?_, ?_, ?_, ?_⟩
  · rw [h.bitmaps, List.flatMap_append, List.flatMap_singleton]
  · rw [h.offset, List.length_append]
  · rw [List.length_append, List.length_append, h.length]
    rfl
  · intro before code' after hcodes
    rcases split_concat hcodes with ⟨rfl, rfl, -⟩ | ⟨rest, -, hcodes⟩
    · rw [List.getElem?_append_right (Nat.le_of_eq h.length), h.length, Nat.sub_self, h.offset,
        h.bitmaps]
      rfl
    · have hshort : before.length < r.glyphs.length := by
        rw [h.length, hcodes, List.length_append, List.length_cons]
        omega
      rw [List.getElem?_append_left hshort]
      exact h.entry before code' rest hcodes

theorem rendersTo_foldl (face : Face) (codes : List Nat) :
    RendersTo face codes (codes.foldl (Rendered.add face) {}) := by
  induction codes using List.reverseRecOn with
  | nil => exact ⟨rfl, rfl, rfl, fun before code after h => by simp at h⟩
  | append_singleton codes code ih =>
      rw [List.foldl_append]
      exact ih.add code

/-- The number of a pixel in its bitmap. -/
def pixelIndex (w : Nat) (p : Nat × Nat) : Nat := p.1 * w + p.2

theorem mem_rowMajor {w h : Nat} {p : Nat × Nat} : p ∈ rowMajor w h ↔ p.1 < h ∧ p.2 < w := by
  obtain ⟨row, col⟩ := p
  simp [rowMajor, and_comm]

/-- The pixels of a bitmap are numbered in order. -/
theorem map_pixelIndex (w h : Nat) :
    (rowMajor w h).map (pixelIndex w) = List.range (h * w) := by
  induction h with
  | zero => simp [rowMajor]
  | succ h ih =>
      have hrow : ((List.range w).map fun col => (h, col)).map (pixelIndex w) =
          (List.range w).map (h * w + ·) := by
        rw [List.map_map]
        rfl
      rw [rowMajor, List.range_succ, List.flatMap_append, List.map_append, List.flatMap_singleton,
        hrow, Nat.succ_mul, List.range_add]
      exact congrArg (· ++ _) ih

/-- The pixels of a bitmap are numbered one after the other from 0. -/
theorem map_pixelIndex_range' (w h : Nat) :
    (rowMajor w h).map (pixelIndex w) = List.range' 0 (rowMajor w h).length := by
  have hlen := congrArg List.length (map_pixelIndex w h)
  rw [List.length_map, List.length_range] at hlen
  rw [map_pixelIndex, hlen, List.range_eq_range']

theorem nodup_rowMajor (w h : Nat) : (rowMajor w h).Nodup := by
  refine List.Nodup.of_map (pixelIndex w) ?_
  rw [map_pixelIndex]
  exact List.nodup_range

/-- The bit of a pixel is where its number says. -/
theorem GlyphSlot.testBit_packed (slot : GlyphSlot) {p : Nat × Nat}
    (hp : p ∈ rowMajor slot.width slot.rows) :
    pixelIndex slot.width p / 8 < slot.packed.length ∧
      (slot.packed.getD (pixelIndex slot.width p / 8) 0).testBit
        (7 - pixelIndex slot.width p % 8) = slot.pixel p := by
  obtain ⟨n, hn, rfl⟩ := List.getElem_of_mem hp
  have hmap := map_pixelIndex slot.width slot.rows
  have hlen : n < ((rowMajor slot.width slot.rows).map (pixelIndex slot.width)).length := by
    rwa [List.length_map]
  have hindex : pixelIndex slot.width (rowMajor slot.width slot.rows)[n] = n := by
    have hget := List.getElem_map (pixelIndex slot.width) (h := hlen)
    simp only [hmap, List.getElem_range] at hget
    exact hget.symm
  have hbits : n < ((rowMajor slot.width slot.rows).map slot.pixel).length := by
    rwa [List.length_map]
  have htest := testBit_pack hbits
  rw [List.getElem_map, ← slot.packed_eq] at htest
  rwa [hindex]

/-! ## The reader -/

section Reader

variable {F : Type} (faces : F → GFXfont) (pixels : F → FontPixels)

/-- The two loops of `drawChar` in a font: what is drawn for each pixel. -/
def glyphLoop (bitmap : Nat → UInt8) (draw : Nat × Nat → Plan) :
    List (Nat × Nat) → Reader → List Plan
  | [], _ => []
  | p :: ps, bits =>
      let (set, bits) := bits.read bitmap
      (if set then draw p else some []) :: glyphLoop bitmap draw ps bits

/-- `drawChar` in a font, with the counter and the byte that is shifted. -/
def drawGlyph (f : F) (x y : Int16) (c : UInt8) (color : UInt32) (sx sy : UInt8) : Plan :=
  let first := (faces f).first
  if c.toUInt16 < first ∨ (pixels f).last < c.toUInt16 then some []
  else
    let ci := c - first.toUInt8
    let gl := (pixels f).glyph ci.toNat
    let gx := x + gl.xOffset.toInt16
    let gy := y + gl.yOffset.toInt16
    let draw (p : Nat × Nat) : Plan :=
      textPixel (gx + Int16.ofNat (p.2 * sx.toNat)) (gy + Int16.ofNat (p.1 * sy.toNat)) sx sy color
    inTurn (glyphLoop (pixels f).bitmap draw (rowMajor gl.width.toNat gl.height.toNat)
      { next := gl.bitmapOffset.toNat })

/-- The running counter finds each pixel at its number. -/
theorem glyphLoop_eq {bitmap : Nat → UInt8} {start : Nat} (draw : Nat × Nat → Plan)
    (index : Nat × Nat → Nat) {n : Nat} {ps : List (Nat × Nat)} {bits : Reader}
    (hps : ps.map index = List.range' n ps.length) (hbits : bits.At bitmap start n) :
    glyphLoop bitmap draw ps bits = ps.map fun p =>
      if (bitmap (start + index p / 8) <<< UInt8.ofNat (index p % 8)) &&& 0x80 ≠ 0 then draw p
      else some [] := by
  induction ps generalizing n bits with
  | nil => rfl
  | cons p ps ih =>
      obtain ⟨hset, hnext⟩ := hbits.read
      rw [List.map_cons, List.length_cons, List.range'_succ, List.cons.injEq] at hps
      obtain ⟨hp, hps⟩ := hps
      rw [glyphLoop, List.map_cons, hp]
      dsimp only
      rw [hset, ih hps hnext]
      simp only [decide_eq_true_eq]

/-- The counter makes no difference to `drawChar`. -/
theorem drawGlyph_eq (f : F) (x y : Int16) (c : UInt8) (color : UInt32) (sx sy : UInt8) :
    drawGlyph faces pixels f x y c color sx sy =
      drawFontChar faces pixels f x y c color sx sy := by
  rw [drawGlyph, drawFontChar]
  by_cases hrange : c.toUInt16 < (faces f).first ∨ (pixels f).last < c.toUInt16
  · rw [if_pos hrange, if_pos hrange]
  · rw [if_neg hrange, if_neg hrange]
    dsimp only
    generalize (pixels f).glyph (c - (faces f).first.toUInt8).toNat = gl
    rw [glyphLoop_eq _ _ (map_pixelIndex_range' _ _) (Reader.At.start _ _), rowMajor,
      List.map_flatMap]
    simp only [List.map_map]
    rfl

end Reader

/-! ## From the header to the pixels -/

/-- The entry of `GFXglyph` that the header has. -/
def GlyphEntry.box (e : GlyphEntry) : GlyphBox where
  bitmapOffset := UInt16.ofNat e.bitmapOffset
  width := UInt8.ofNat e.w
  height := UInt8.ofNat e.h
  xOffset := Int8.ofInt e.xo
  yOffset := Int8.ofInt e.yo

/-- The font is that of `generate_header`.  Nothing is said of the memory around its tables. -/
structure HasHeader (first last : Nat) (r : Rendered) (f : GFXfont) (p : FontPixels) : Prop where
  first : f.first = UInt16.ofNat first
  last : p.last = UInt16.ofNat last
  bitmap : ∀ i b, r.bitmaps[i]? = some b → p.bitmap i = UInt8.ofNat b
  glyph : ∀ i e, r.glyphs[i]? = some e → p.glyph i = e.box

/-- The tables of `generate_header`, as far as the pixels need them. -/
def Rendered.fontPixels (r : Rendered) (last : Nat) : FontPixels where
  bitmap i := UInt8.ofNat (r.bitmaps.getD i 0)
  glyph i := (r.glyphs[i]?.map GlyphEntry.box).getD ⟨0, 0, 0, 0, 0⟩
  last := UInt16.ofNat last

/-- The tables of `generate_header`, as far as the cursor needs them. -/
def Rendered.gfxFont (r : Rendered) (yAdvance : Int) (first : Nat) : GFXfont where
  glyph i := ⟨UInt8.ofInt ((r.glyphs[i.toNat]?.map GlyphEntry.xa).getD 0)⟩
  first := UInt16.ofNat first
  yAdvance := UInt8.ofInt yAdvance

theorem hasHeader (r : Rendered) (yAdvance : Int) (first last : Nat) :
    HasHeader first last r (r.gfxFont yAdvance first) (r.fontPixels last) where
  first := rfl
  last := rfl
  bitmap i b h := by
    show UInt8.ofNat (r.bitmaps.getD i 0) = _
    rw [List.getD_eq_getElem?_getD, h, Option.getD_some]
  glyph i e h := by
    show (r.glyphs[i]?.map GlyphEntry.box).getD _ = _
    rw [h, Option.map_some, Option.getD_some]

/-- The fields of the header can hold the font. -/
structure Packable (face : Face) (sizePx first last : Nat) : Prop where
  codes : last < 2 ^ 16
  slot : ∀ code slot, first ≤ code → code ≤ last → face.slot code = some slot →
    slot.width ≤ 255 ∧ slot.rows ≤ 255
  total : (renderFont face sizePx first last).1.bitmaps.length ≤ 65535

/-- The code points before one of them, and those behind it. -/
theorem codePoints_split {first last code : Nat} (hfirst : first ≤ code) (hlast : code ≤ last) :
    codePoints first last =
      List.range' first (code - first) ++ code :: List.range' (code + 1) (last - code) := by
  have hlen : last + 1 - first = (code - first) + (last - code + 1) := by omega
  have hcode : first + (code - first) = code := by omega
  rw [codePoints, hlen, ← List.range'_append_1, hcode, List.range'_succ]

section Header

variable {face : Face} {sizePx first last code : Nat} {f : GFXfont} {p : FontPixels}
  {slot : GlyphSlot}

/-- Where the bytes of a code point start. -/
def startOf (face : Face) (first code : Nat) : Nat :=
  ((List.range' first (code - first)).flatMap face.packed).length

theorem bitmaps_eq (hfirst : first ≤ code) (hlast : code ≤ last) :
    (renderFont face sizePx first last).1.bitmaps =
      (List.range' first (code - first)).flatMap face.packed ++ (face.packed code ++
        (List.range' (code + 1) (last - code)).flatMap face.packed) := by
  have hbitmaps := (rendersTo_foldl face (codePoints first last)).bitmaps
  rw [codePoints_split hfirst hlast, List.flatMap_append, List.flatMap_cons] at hbitmaps
  rw [renderFont, codePoints_split hfirst hlast]
  exact hbitmaps

theorem HasHeader.glyph_eq (h : HasHeader first last (renderFont face sizePx first last).1 f p)
    (hfirst : first ≤ code) (hlast : code ≤ last) :
    p.glyph (code - first) = (face.entry (startOf face first code) code).box := by
  have hentry := (rendersTo_foldl face (codePoints first last)).entry _ code _
    (codePoints_split hfirst hlast)
  rw [List.length_range'] at hentry
  exact h.glyph _ _ hentry

/-- A byte of a code point is found from its start. -/
theorem HasHeader.bitmap_eq (h : HasHeader first last (renderFont face sizePx first last).1 f p)
    (hfirst : first ≤ code) (hlast : code ≤ last) (hslot : face.slot code = some slot) {i : Nat}
    (hi : i < slot.packed.length) :
    (p.bitmap (startOf face first code + i)).toNat = slot.packed.getD i 0 := by
  have hpacked : face.packed code = slot.packed := by rw [Face.packed, hslot]
  have hget : (renderFont face sizePx first last).1.bitmaps[startOf face first code + i]? =
      some (slot.packed.getD i 0) := by
    rw [bitmaps_eq hfirst hlast, startOf, List.getElem?_append_right (Nat.le_add_right _ _),
      Nat.add_sub_cancel_left, hpacked, List.getElem?_append_left hi,
      List.getElem?_eq_getElem hi, List.getD_eq_getElem _ _ hi]
  have hlt : slot.packed.getD i 0 < 256 := by
    rw [List.getD_eq_getElem _ _ hi]
    have hall := pack_lt ((rowMajor slot.width slot.rows).map slot.pixel)
    rw [← slot.packed_eq] at hall
    exact hall _ (List.getElem_mem hi)
  rw [h.bitmap _ _ hget, UInt8.toNat_ofNat_of_lt' hlt]

theorem Packable.startOf_lt (h : Packable face sizePx first last) (hfirst : first ≤ code)
    (hlast : code ≤ last) : startOf face first code < 2 ^ 16 := by
  have htotal := h.total
  rw [bitmaps_eq hfirst hlast, List.length_append] at htotal
  rw [startOf]
  omega

end Header

/-- A choice of steps that all return. -/
theorem inTurn_filter {α β : Type} (keep : α → Bool) (f : α → β) (l : List α) :
    inTurn (l.map fun a => if keep a = true then some [f a] else some []) =
      some ((l.filter keep).map f) := by
  induction l with
  | nil => rfl
  | cons a l ih =>
      rw [List.map_cons, inTurn, ih]
      cases hkeep : keep a with
      | true =>
          rw [List.filter_cons_of_pos hkeep]
          rfl
      | false =>
          rw [List.filter_cons_of_neg (by simp [hkeep])]
          rfl

section Drawn

variable {F : Type} {faces : F → GFXfont} {pixels : F → FontPixels} {f : F} {face : Face}
  {sizePx first last : Nat} {c : UInt8}

/-- The index of a character is that of its code point. -/
theorem HasHeader.index (h : HasHeader first last (renderFont face sizePx first last).1 (faces f)
    (pixels f)) (hlast : last < 2 ^ 16) (hc : first ≤ c.toNat ∧ c.toNat ≤ last) :
    LinuxGFX.Has faces pixels f c ∧ (c - (faces f).first.toUInt8).toNat = c.toNat - first := by
  have hlt := c.toNat_lt
  have hfirstNat : (faces f).first.toNat = first := by
    rw [h.first, UInt16.toNat_ofNat_of_lt']
    show first < 65536
    omega
  have hlastNat : (pixels f).last.toNat = last := by
    rw [h.last, UInt16.toNat_ofNat_of_lt' hlast]
  have hhas : LinuxGFX.Has faces pixels f c := by
    rw [LinuxGFX.Has, hasChar_iff, hfirstNat, hlastNat]
    exact hc
  have hindex := toNat_sub_first hhas
  rw [hfirstNat] at hindex
  exact ⟨hhas, by omega⟩

/-- A character of the font is drawn from the entry of its code point. -/
theorem HasHeader.drawGlyph_eq_loop (h : HasHeader first last (renderFont face sizePx first last).1
    (faces f) (pixels f)) (hlast : last < 2 ^ 16) (hc : first ≤ c.toNat ∧ c.toNat ≤ last)
    (x y : Int16) (color : UInt32) :
    drawGlyph faces pixels f x y c color 1 1 =
      let gl := (face.entry (startOf face first c.toNat) c.toNat).box
      inTurn (glyphLoop (pixels f).bitmap
        (fun p => textPixel (x + gl.xOffset.toInt16 + Int16.ofNat (p.2 * (1 : UInt8).toNat))
          (y + gl.yOffset.toInt16 + Int16.ofNat (p.1 * (1 : UInt8).toNat)) 1 1 color)
        (rowMajor gl.width.toNat gl.height.toNat) { next := gl.bitmapOffset.toNat }) := by
  obtain ⟨hhas, hindex⟩ := h.index hlast hc
  have hrange : ¬ (c.toUInt16 < (faces f).first ∨ (pixels f).last < c.toUInt16) := by
    rw [not_or, UInt16.not_lt, UInt16.not_lt]
    exact hhas
  rw [drawGlyph, if_neg hrange]
  dsimp only
  rw [hindex, h.glyph_eq hc.1 hc.2]

/-- A character of FreeType's is drawn with a step for each pixel that is set. -/
theorem drawGlyph_packed (hpack : Packable face sizePx first last)
    (h : HasHeader first last (renderFont face sizePx first last).1 (faces f) (pixels f))
    (hc : first ≤ c.toNat ∧ c.toNat ≤ last) {slot : GlyphSlot}
    (hslot : face.slot c.toNat = some slot) (x y : Int16) (color : UInt32) :
    drawGlyph faces pixels f x y c color 1 1 =
      some (((rowMajor slot.width slot.rows).filter slot.pixel).map fun p =>
        .writePixel (x + (Int8.ofInt slot.bitmapLeft).toInt16 + Int16.ofNat p.2)
          (y + (Int8.ofInt (-slot.bitmapTop)).toInt16 + Int16.ofNat p.1) color) := by
  obtain ⟨hwidth, hrows⟩ := hpack.slot _ slot hc.1 hc.2 hslot
  have hw : (UInt8.ofNat slot.width).toNat = slot.width :=
    UInt8.toNat_ofNat_of_lt' (Nat.lt_succ_of_le hwidth)
  have hh : (UInt8.ofNat slot.rows).toNat = slot.rows :=
    UInt8.toNat_ofNat_of_lt' (Nat.lt_succ_of_le hrows)
  have hstart : (UInt16.ofNat (startOf face first c.toNat)).toNat = startOf face first c.toNat :=
    UInt16.toNat_ofNat_of_lt' (hpack.startOf_lt hc.1 hc.2)
  rw [h.drawGlyph_eq_loop hpack.codes hc, Face.entry, hslot]
  simp only [GlyphEntry.box, hw, hh, hstart]
  rw [glyphLoop_eq _ _ (map_pixelIndex_range' _ _) (Reader.At.start _ _), ← inTurn_filter]
  refine congrArg inTurn (List.map_congr_left fun p hp => ?_)
  obtain ⟨hin, hbit⟩ := slot.testBit_packed hp
  have hmod : pixelIndex slot.width p % 8 < 8 := Nat.mod_lt _ (by decide)
  refine if_congr ?_ ?_ rfl
  · rw [Reader.shiftLeft_and_top hmod, h.bitmap_eq hc.1 hc.2 hslot hin, hbit]
  · rw [textPixel, if_pos ⟨rfl, rfl⟩]
    simp

/-- FreeType has no glyph for the character, and nothing is drawn. -/
theorem drawGlyph_placeholder (hpack : Packable face sizePx first last)
    (h : HasHeader first last (renderFont face sizePx first last).1 (faces f) (pixels f))
    (hc : first ≤ c.toNat ∧ c.toNat ≤ last) (hslot : face.slot c.toNat = none) (x y : Int16)
    (color : UInt32) : drawGlyph faces pixels f x y c color 1 1 = some [] := by
  rw [h.drawGlyph_eq_loop hpack.codes hc, Face.entry, hslot]
  rfl

end Drawn

/-! ## On a surface -/

/-- `xOffset`, as the header's field has it. -/
def GlyphSlot.xOffset (slot : GlyphSlot) : Int := (Int8.ofInt slot.bitmapLeft).toInt

/-- `yOffset`, as the header's field has it. -/
def GlyphSlot.yOffset (slot : GlyphSlot) : Int := (Int8.ofInt (-slot.bitmapTop)).toInt

/-- The pixels of a code point that are set, where it is drawn. -/
def Face.SetPixels (face : Face) (code : Nat) (x y : Int) (i j : Int) : Prop :=
  ∃ slot, face.slot code = some slot ∧ ∃ row col, row < slot.rows ∧ col < slot.width ∧
    slot.pixel (row, col) = true ∧ i = x + slot.xOffset + col ∧ j = y + slot.yOffset + row

/-- The surface is large enough for a code point. -/
def Face.HasRoom {F : Type} (face : Face) (code : Nat) (g : LinuxGFX F) (x y : Int) : Prop :=
  ∀ slot, face.slot code = some slot →
    (0 ≤ x + slot.xOffset ∧ x + slot.xOffset + slot.width ≤ g.width.toInt) ∧
      0 ≤ y + slot.yOffset ∧ y + slot.yOffset + slot.rows ≤ g.height.toInt

/-- A coordinate of a pixel that does not wrap. -/
theorem toInt_glyph {a size : Int16} {offset : Int8} {k n : Nat} (hk : k < n)
    (hlow : 0 ≤ a.toInt + offset.toInt) (hhigh : a.toInt + offset.toInt + n ≤ size.toInt) :
    (a + offset.toInt16 + Int16.ofNat k).toInt = a.toInt + offset.toInt + k := by
  have hsize := size.toInt_lt
  have hto : (offset.toInt16).toInt = offset.toInt := Int8.toInt_toInt16 offset
  have hsum : (a + offset.toInt16).toInt = a.toInt + offset.toInt := by
    rw [toInt_add_of (by omega) (by omega), hto]
  rw [toInt_add_ofNat (by omega), hsum]

/-- The point of a pixel of a glyph. -/
def GlyphSlot.point (slot : GlyphSlot) (x y : Int16) (p : Nat × Nat) : Int16 × Int16 :=
  (x + (Int8.ofInt slot.bitmapLeft).toInt16 + Int16.ofNat p.2,
    y + (Int8.ofInt (-slot.bitmapTop)).toInt16 + Int16.ofNat p.1)

/-- The points of a glyph that is drawn with room do not wrap. -/
theorem GlyphSlot.toInt_point {F : Type} {face : Face} {code : Nat} {g : LinuxGFX F}
    {slot : GlyphSlot} (hslot : face.slot code = some slot) {x y : Int16}
    (hroom : face.HasRoom code g x.toInt y.toInt) {p : Nat × Nat}
    (hp : p ∈ rowMajor slot.width slot.rows) :
    (slot.point x y p).1.toInt = x.toInt + slot.xOffset + p.2 ∧
      (slot.point x y p).2.toInt = y.toInt + slot.yOffset + p.1 := by
  obtain ⟨⟨hxlow, hxhigh⟩, hylow, hyhigh⟩ := hroom slot hslot
  obtain ⟨hrow, hcol⟩ := mem_rowMajor.mp hp
  exact ⟨toInt_glyph hcol hxlow hxhigh, toInt_glyph hrow hylow hyhigh⟩

/-- The points of a glyph that are set. -/
def GlyphSlot.points (slot : GlyphSlot) (x y : Int16) : List (Int16 × Int16) :=
  ((rowMajor slot.width slot.rows).filter slot.pixel).map (slot.point x y)

section Points

variable {F : Type} {face : Face} {code : Nat} {g : LinuxGFX F} {slot : GlyphSlot} {x y : Int16}

theorem GlyphSlot.nodup_points (hslot : face.slot code = some slot)
    (hroom : face.HasRoom code g x.toInt y.toInt) : (slot.points x y).Nodup := by
  refine List.Nodup.map_on (fun p hp q hq heq => ?_) ((nodup_rowMajor _ _).filter _)
  obtain ⟨hpx, hpy⟩ := toInt_point hslot hroom (List.mem_filter.mp hp).1
  obtain ⟨hqx, hqy⟩ := toInt_point hslot hroom (List.mem_filter.mp hq).1
  rw [heq] at hpx hpy
  exact Prod.ext (by omega) (by omega)

theorem GlyphSlot.inside_points (hslot : face.slot code = some slot)
    (hroom : face.HasRoom code g x.toInt y.toInt) :
    ∀ q ∈ slot.points x y, g.inside q.1 q.2 = true := by
  rw [points, List.forall_mem_map]
  intro p hp
  have hmem := (List.mem_filter.mp hp).1
  obtain ⟨hx, hy⟩ := toInt_point hslot hroom hmem
  obtain ⟨hrow, hcol⟩ := mem_rowMajor.mp hmem
  obtain ⟨⟨hxlow, hxhigh⟩, hylow, hyhigh⟩ := hroom slot hslot
  rw [inside_iff, hx, hy]
  omega

/-- The points are the pixels that are set. -/
theorem GlyphSlot.exists_point_iff (hslot : face.slot code = some slot)
    (hroom : face.HasRoom code g x.toInt y.toInt) (i j : Int) :
    (∃ q ∈ slot.points x y, q.1.toInt = i ∧ q.2.toInt = j) ↔
      face.SetPixels code x.toInt y.toInt i j := by
  constructor
  · rintro ⟨q, hq, rfl, rfl⟩
    obtain ⟨p, hp, rfl⟩ := List.mem_map.mp hq
    obtain ⟨hmem, hset⟩ := List.mem_filter.mp hp
    obtain ⟨hrow, hcol⟩ := mem_rowMajor.mp hmem
    obtain ⟨hx, hy⟩ := toInt_point hslot hroom hmem
    exact ⟨slot, hslot, p.1, p.2, hrow, hcol, hset, hx, hy⟩
  · rintro ⟨slot', hsome, row, col, hrow, hcol, hset, rfl, rfl⟩
    obtain rfl : slot = slot' := Option.some.inj (hslot.symm.trans hsome)
    have hp : (row, col) ∈ rowMajor slot.width slot.rows := mem_rowMajor.mpr ⟨hrow, hcol⟩
    refine ⟨_, List.mem_map_of_mem (List.mem_filter.mpr ⟨hp, hset⟩), ?_⟩
    exact toInt_point hslot hroom hp

end Points

/-- Packing and drawing agree: on a surface that is large enough, a character of a packed font is
drawn with the pixels that FreeType has set, and changes no others. -/
theorem drawChar_packed {F : Type} {t : Surface F} (ht : t.Panel) {fm : FloatMath}
    {faces : F → GFXfont} {pixels : F → FontPixels} {f : F} (hfont : t.gfx.font = some f)
    {face : Face} {sizePx first last : Nat} (hpack : Packable face sizePx first last)
    (hheader : HasHeader first last (renderFont face sizePx first last).1 (faces f) (pixels f))
    {c : UInt8} (hc : first ≤ c.toNat ∧ c.toNat ≤ last) {x y : Int16}
    (hroom : face.HasRoom c.toNat t.gfx x.toInt y.toInt) (color bg : UInt32) :
    t.Fills (face.SetPixels c.toNat x.toInt y.toInt) color
      (t.strokes fm faces pixels (.drawChar x y c color bg 1 1)) := by
  have hplan : t.strokes fm faces pixels (.drawChar x y c color bg 1 1) =
      (drawGlyph faces pixels f x y c color 1 1).bind t.storesOf := by
    rw [drawGlyph_eq, Surface.strokes, GfxCall.plan, Libgfx.drawChar, hfont]
  rw [hplan]
  cases hslot : face.slot c.toNat with
  | none =>
      rw [drawGlyph_placeholder hpack hheader hc hslot]
      refine (Surface.fills_iff .nil (List.forall_mem_nil _)).mpr (.inr fun i j _ => ?_)
      refine iff_of_false List.not_mem_nil ?_
      rintro ⟨slot, hsome, -⟩
      rw [hslot] at hsome
      cases hsome
  | some slot =>
      have hfills := ht.fills_points color (GlyphSlot.nodup_points hslot hroom)
        (GlyphSlot.inside_points hslot hroom)
      simp only [GlyphSlot.exists_point_iff hslot hroom] at hfills
      rw [GlyphSlot.points, List.map_map] at hfills
      rw [drawGlyph_packed hpack hheader hc hslot]
      exact hfills

/-- A font with a letter of two rows of nine pixels, and no other. -/
def letterFace : Face where
  height := 640
  charIndex code := if code = 65 then 1 else 0
  loadGlyph _ := ⟨9, 2, 2, fun i => [0xFF, 0x80, 0x80, 0x80].getD i 0, 1, 2, 704⟩
  loadChar _ := ⟨0, 0, 0, fun _ => 0, 0, 0, 256⟩

/-- The letter, packed, with the place of the next one. -/
def letterFont : Rendered × Int := renderFont letterFace 10 65 66

/-- A canvas with the font. -/
def letterCanvas : Surface Unit where
  gfx := { (LinuxGFX.canvas : LinuxGFX Unit) with width := 20, height := 20, font := some () }
  backing := .canvas .argb8888 true
  mem _ := 0

/-- The bits of the second row follow those of the first one, and the third byte is filled up. -/
example : letterFont.1.bitmaps = [0xFF, 0xC0, 0x40] := by decide

theorem packable_letterFace : Packable letterFace 10 65 66 where
  codes := by decide
  slot code slot _ _ h := by
    rw [Face.slot] at h
    split_ifs at h
    cases h
    exact ⟨(by decide : 9 ≤ 255), (by decide : 2 ≤ 255)⟩
  total := by decide

theorem drawChar_packed_letter :
    letterCanvas.Fills (letterFace.SetPixels 65 3 4) 0xFFFF0000
      (letterCanvas.strokes FloatMath.none
        (fun _ => letterFont.1.gfxFont letterFont.2 65) (fun _ => letterFont.1.fontPixels 66)
        (.drawChar 3 4 65 0xFFFF0000 0 1 1)) := by
  have hpanel : letterCanvas.Panel := ⟨rfl, .inr ⟨.argb8888, rfl⟩⟩
  have hroom : letterFace.HasRoom 65 letterCanvas.gfx 3 4 := by
    intro slot h
    cases h
    decide
  exact drawChar_packed hpanel rfl packable_letterFace (hasHeader _ _ _ _) (c := 65)
    (by decide) (x := 3) (y := 4) hroom 0xFFFF0000 0

end MFoES.Tools
