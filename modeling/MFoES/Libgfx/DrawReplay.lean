import MFoES.Libgfx.DRRender

/-!
# The recorder

`DrawReplay` appends a command to its stream for every draw call, and keeps the
text state it inherits from `LinuxGFX`.  All recorders go through `record`: a
gate on the record mask and the inline limit, the opcode, the payload.

A pointer argument is `none` for null, and otherwise the memory at the pointer.
The overloads on pointers to mutable bitmaps only forward and have no
definition of their own.
-/

namespace MFoES.Libgfx

/-! ## Record mask -/

/-- `DR_REC_GEOMETRY`. -/
def drRecGeometry : UInt32 := 0x00000001
/-- `DR_REC_TEXT`. -/
def drRecText : UInt32 := 0x00000002
/-- `DR_REC_STYLE`. -/
def drRecStyle : UInt32 := 0x00000004
/-- `DR_REC_FRAME`. -/
def drRecFrame : UInt32 := 0x00000008
/-- `DR_REC_PIXEL`. -/
def drRecPixel : UInt32 := 0x00000010
/-- `DR_REC_BITMAP_1BIT`. -/
def drRecBitmap1Bit : UInt32 := 0x00000100
/-- `DR_REC_BITMAP_XBM`. -/
def drRecBitmapXbm : UInt32 := 0x00000200
/-- `DR_REC_BITMAP_GRAY`. -/
def drRecBitmapGray : UInt32 := 0x00000400
/-- `DR_REC_BITMAP_RGB`. -/
def drRecBitmapRgb : UInt32 := 0x00000800
/-- `DR_REC_BITMAP_565`. -/
def drRecBitmap565 : UInt32 := 0x00001000
/-- `DR_REC_BITMAP_TRI`. -/
def drRecBitmapTri : UInt32 := 0x00002000
/-- `DR_REC_ALL`. -/
def drRecAll : UInt32 := 0xFFFFFFFF

/-- `DrawReplay`.  `fontIds` never holds the null font. -/
structure DrawReplay (F : Type) where
  gfx : LinuxGFX F
  suppress : Bool
  stream : List UInt8
  cmdCount : Nat
  recordMask : UInt32
  skipped : Nat
  maxInlineBytes : Nat
  fontIds : List (F × UInt8)

namespace DrawReplay

variable {F : Type}

/-- `DrawReplay(w, h)`. -/
def new (w h : Int16) : DrawReplay F where
  gfx := { LinuxGFX.canvas with
    width := if 0 < w then w else 0
    height := if 0 < h then h else 0 }
  suppress := false
  stream := []
  cmdCount := 0
  recordMask := drRecAll
  skipped := 0
  maxInlineBytes := 0
  fontIds := []

/-! ## Stream writers -/

/-- `beginCmd`. -/
def beginCmd (r : DrawReplay F) (op : DROp) : DrawReplay F :=
  { r with stream := r.stream ++ putU8 op.toByte, cmdCount := r.cmdCount + 1 }

/-- A sequence of puts. -/
def put (r : DrawReplay F) (pieces : List (List UInt8)) : DrawReplay F :=
  { r with stream := r.stream ++ pieces.flatten }

/-- `putText`, on a text that is not null: at most 64 KB. -/
def putText (text : List UInt8) : List (List UInt8) :=
  let n := if 0xFFFF < (cString text).length then 0xFFFF else (cString text).length
  [putU16 (UInt16.ofNat n), (cString text).take n]

/-- `putMonoPlane`. -/
def putMonoPlane (bits : List UInt8) (w h : Int16) : List UInt8 := bits.take (monoPlaneBytes w h)

/-- `allow`. -/
def allow (r : DrawReplay F) (feature : UInt32) (inlineBytes : Nat) : DrawReplay F × Bool :=
  if r.recordMask &&& feature = 0 then ({ r with skipped := r.skipped + 1 }, false)
  else if r.maxInlineBytes ≠ 0 ∧ r.maxInlineBytes < inlineBytes then
    ({ r with skipped := r.skipped + 1 }, false)
  else (r, true)

/-- Emit a command, if its feature is allowed. -/
def record (r : DrawReplay F) (feature : UInt32) (op : DROp) (payload : List (List UInt8))
    (inlineBytes : Nat := 0) : DrawReplay F :=
  match r.allow feature inlineBytes with
  | (r, false) => r
  | (r, true) => (r.beginCmd op).put payload

@[simp] theorem allow_gfx (r : DrawReplay F) (feature : UInt32) (n : Nat) :
    (r.allow feature n).1.gfx = r.gfx := by
  rw [allow]
  split
  · rfl
  · split <;> rfl

@[simp] theorem record_gfx (r : DrawReplay F) (feature : UInt32) (op : DROp)
    (payload : List (List UInt8)) (n : Nat) : (r.record feature op payload n).gfx = r.gfx := by
  have hgfx := r.allow_gfx feature n
  rw [record]
  rcases h : r.allow feature n with ⟨s, _ | _⟩
  · rw [h] at hgfx
    exact hgfx
  · rw [h] at hgfx
    exact hgfx

/-- Run a base implementation, which sees only the members it inherits. -/
def base (r : DrawReplay F) (f : LinuxGFX F → LinuxGFX F) : DrawReplay F :=
  { r with gfx := f r.gfx }

/-- The same in a `SuppressScope`: the primitives that the base implementation
draws with come back to the recorder and return at once. -/
def suppressed (r : DrawReplay F) (f : LinuxGFX F → LinuxGFX F) : DrawReplay F :=
  { r with gfx := f r.gfx, suppress := false }

@[simp] theorem base_gfx (r : DrawReplay F) (f : LinuxGFX F → LinuxGFX F) :
    (r.base f).gfx = f r.gfx := rfl

@[simp] theorem suppressed_gfx (r : DrawReplay F) (f : LinuxGFX F → LinuxGFX F) :
    (r.suppressed f).gfx = f r.gfx := rfl

/-! ## Fonts -/

/-- `registerFont`, on a font that is not null. -/
def registerFont [DecidableEq F] (r : DrawReplay F) (font : F) (id : UInt8) : DrawReplay F :=
  { r with
    fontIds :=
      if r.fontIds.any fun b => b.1 = font then
        r.fontIds.map fun b => if b.1 = font then (b.1, id) else b
      else r.fontIds ++ [(font, id)] }

/-- `fontId`. -/
def fontId [DecidableEq F] (r : DrawReplay F) : Option F → UInt8
  | none => drFontBuiltin
  | some font =>
      match r.fontIds.find? fun b => b.1 = font with
      | some b => b.2
      | none => drFontBuiltin

/-- `setFontId`. -/
def setFontId (r : DrawReplay F) (id : UInt8) : DrawReplay F :=
  let r := r.record drRecText .setFont [putU8 id]
  match r.fontIds.find? fun b => b.2 = id with
  | some b => r.base fun g => g.setFont b.1
  | none => if id = drFontBuiltin then r.base fun g => g.setFont none else r

/-! ## Geometry -/

section Geometry

variable (r : DrawReplay F)

/-- The recorders that base implementations can reach. -/
def recordPrimitive (feature : UInt32) (op : DROp) (payload : List (List UInt8)) : DrawReplay F :=
  if r.suppress then r else r.record feature op payload

@[simp] theorem recordPrimitive_gfx (feature : UInt32) (op : DROp) (payload : List (List UInt8)) :
    (r.recordPrimitive feature op payload).gfx = r.gfx := by
  rw [recordPrimitive]
  split_ifs
  · rfl
  · exact r.record_gfx feature op payload 0

/-- `drawPixel`. -/
def drawPixel (x y : Int16) (color : UInt32) : DrawReplay F :=
  r.recordPrimitive drRecPixel .drawPixel [putI16 x, putI16 y, putU32 color]

/-- `drawFastVLine`. -/
def drawFastVLine (x y h : Int16) (color : UInt32) : DrawReplay F :=
  r.recordPrimitive drRecGeometry .fastVLine [putI16 x, putI16 y, putI16 h, putU32 color]

/-- `drawFastHLine`. -/
def drawFastHLine (x y w : Int16) (color : UInt32) : DrawReplay F :=
  r.recordPrimitive drRecGeometry .fastHLine [putI16 x, putI16 y, putI16 w, putU32 color]

/-- `fillScreen`. -/
def fillScreen (color : UInt32) : DrawReplay F :=
  r.recordPrimitive drRecGeometry .fillScreen [putU32 color]

/-- `drawLine`. -/
def drawLine (x0 y0 x1 y1 : Int16) (color : UInt32) : DrawReplay F :=
  r.record drRecGeometry .line [putI16 x0, putI16 y0, putI16 x1, putI16 y1, putU32 color]

/-- `drawRect`. -/
def drawRect (x y w h : Int16) (color : UInt32) : DrawReplay F :=
  r.record drRecGeometry .rect [putI16 x, putI16 y, putI16 w, putI16 h, putU32 color]

/-- `fillRect`. -/
def fillRect (x y w h : Int16) (color : UInt32) : DrawReplay F :=
  r.record drRecGeometry .fillRect [putI16 x, putI16 y, putI16 w, putI16 h, putU32 color]

/-- `drawCircle`. -/
def drawCircle (x0 y0 rad : Int16) (color : UInt32) : DrawReplay F :=
  r.record drRecGeometry .circle [putI16 x0, putI16 y0, putI16 rad, putU32 color]

/-- `fillCircle`. -/
def fillCircle (x0 y0 rad : Int16) (color : UInt32) : DrawReplay F :=
  r.record drRecGeometry .fillCircle [putI16 x0, putI16 y0, putI16 rad, putU32 color]

/-- `drawArc`. -/
def drawArc (x0 y0 rad : Int16) (startAngle endAngle : F32) (color : UInt32) : DrawReplay F :=
  r.record drRecGeometry .arc
    [putI16 x0, putI16 y0, putI16 rad, putF32 startAngle, putF32 endAngle, putU32 color]

/-- `drawRoundRect`. -/
def drawRoundRect (x y w h radius : Int16) (color : UInt32) : DrawReplay F :=
  r.record drRecGeometry .roundRect
    [putI16 x, putI16 y, putI16 w, putI16 h, putI16 radius, putU32 color]

/-- `fillRoundRect`. -/
def fillRoundRect (x y w h radius : Int16) (color : UInt32) : DrawReplay F :=
  r.record drRecGeometry .fillRoundRect
    [putI16 x, putI16 y, putI16 w, putI16 h, putI16 radius, putU32 color]

/-- `drawTriangle`. -/
def drawTriangle (x0 y0 x1 y1 x2 y2 : Int16) (color : UInt32) : DrawReplay F :=
  r.record drRecGeometry .triangle
    [putI16 x0, putI16 y0, putI16 x1, putI16 y1, putI16 x2, putI16 y2, putU32 color]

/-- `fillTriangle`. -/
def fillTriangle (x0 y0 x1 y1 x2 y2 : Int16) (color : UInt32) : DrawReplay F :=
  r.record drRecGeometry .fillTriangle
    [putI16 x0, putI16 y0, putI16 x1, putI16 y1, putI16 x2, putI16 y2, putU32 color]

end Geometry

/-! ## Bitmaps -/

/-- `(size_t)w * (size_t)h`, for positive extents. -/
def extent (w h : Int16) : Nat := w.toInt.toNat * h.toInt.toNat

/-- Record a bitmap, unless its pointer is null or an extent is not positive. -/
def recordBitmap {α : Type} (r : DrawReplay F) (bitmap : Option α) (w h : Int16)
    (feature : UInt32) (op : DROp) (payload : α → List (List UInt8)) (inlineBytes : Nat) :
    DrawReplay F :=
  match bitmap with
  | none => r
  | some bitmap =>
      if w ≤ 0 ∨ h ≤ 0 then r else r.record feature op (payload bitmap) inlineBytes

@[simp] theorem recordBitmap_gfx {α : Type} (r : DrawReplay F) (bitmap : Option α) (w h : Int16)
    (feature : UInt32) (op : DROp) (payload : α → List (List UInt8)) (n : Nat) :
    (r.recordBitmap bitmap w h feature op payload n).gfx = r.gfx := by
  cases bitmap with
  | none => rfl
  | some bitmap =>
      rw [recordBitmap]
      split_ifs
      · rfl
      · exact r.record_gfx feature op (payload bitmap) n

/-- Two pointers, of which neither may be null. -/
def both {α β : Type} (a : Option α) (b : Option β) : Option (α × β) := a.bind fun a => b.map (a, ·)

section Bitmaps

variable (r : DrawReplay F)

/-- `drawBitmap` with a background. -/
def drawBitmapBg (x y : Int16) (bitmap : Option (List UInt8)) (w h : Int16) (color bg : UInt32) :
    DrawReplay F :=
  r.recordBitmap bitmap w h drRecBitmap1Bit .bitmap1Bit (fun bits =>
    [putI16 x, putI16 y, putI16 w, putI16 h, putU32 color, putU32 bg, putMonoPlane bits w h])
    (monoPlaneBytes w h)

/-- `drawBitmap` without a background. -/
def drawBitmap (x y : Int16) (bitmap : Option (List UInt8)) (w h : Int16) (color : UInt32) :
    DrawReplay F :=
  r.drawBitmapBg x y bitmap w h color gfxTransparent

/-- `drawXBitmap`. -/
def drawXBitmap (x y : Int16) (bitmap : Option (List UInt8)) (w h : Int16) (color : UInt32) :
    DrawReplay F :=
  r.recordBitmap bitmap w h drRecBitmapXbm .xBitmap (fun bits =>
    [putI16 x, putI16 y, putI16 w, putI16 h, putU32 color, putMonoPlane bits w h])
    (monoPlaneBytes w h)

/-- `drawGrayscaleBitmap`. -/
def drawGrayscaleBitmap (x y : Int16) (bitmap : Option (List UInt8)) (w h : Int16) :
    DrawReplay F :=
  r.recordBitmap bitmap w h drRecBitmapGray .grayBitmap (fun px =>
    [putI16 x, putI16 y, putI16 w, putI16 h, px.take (extent w h)]) (extent w h)

/-- `drawGrayscaleBitmap` with a mask. -/
def drawGrayscaleBitmapMask (x y : Int16) (bitmap mask : Option (List UInt8)) (w h : Int16) :
    DrawReplay F :=
  r.recordBitmap (both bitmap mask) w h drRecBitmapGray .grayBitmapMask (fun (px, mask) =>
    [putI16 x, putI16 y, putI16 w, putI16 h, px.take (extent w h), putMonoPlane mask w h])
    (extent w h + monoPlaneBytes w h)

/-- `drawRGBBitmap`. -/
def drawRGBBitmap (x y : Int16) (bitmap : Option (List UInt32)) (w h : Int16) : DrawReplay F :=
  r.recordBitmap bitmap w h drRecBitmapRgb .rgbBitmap (fun px =>
    [putI16 x, putI16 y, putI16 w, putI16 h, (px.take (extent w h)).flatMap putU32])
    (extent w h * 4)

/-- `drawRGBBitmap` with a mask. -/
def drawRGBBitmapMask (x y : Int16) (bitmap : Option (List UInt32)) (mask : Option (List UInt8))
    (w h : Int16) : DrawReplay F :=
  r.recordBitmap (both bitmap mask) w h drRecBitmapRgb .rgbBitmapMask (fun (px, mask) =>
    [putI16 x, putI16 y, putI16 w, putI16 h, (px.take (extent w h)).flatMap putU32,
      putMonoPlane mask w h])
    (extent w h * 4 + monoPlaneBytes w h)

/-- `drawRGB565Bitmap`. -/
def drawRGB565Bitmap (x y : Int16) (bitmap : Option (List UInt16)) (w h : Int16) : DrawReplay F :=
  r.recordBitmap bitmap w h drRecBitmap565 .rgb565Bitmap (fun px =>
    [putI16 x, putI16 y, putI16 w, putI16 h, (px.take (extent w h)).flatMap putU16])
    (extent w h * 2)

/-- `drawBitmapTriangle`. -/
def drawBitmapTriangle (x0 y0 x1 y1 x2 y2 : Int16) (bitmap : Option (List UInt32))
    (texW texH : Int16) : DrawReplay F :=
  r.recordBitmap bitmap texW texH drRecBitmapTri .bitmapTriangle (fun px =>
    [putI16 x0, putI16 y0, putI16 x1, putI16 y1, putI16 x2, putI16 y2, putI16 texW, putI16 texH,
      (px.take (extent texW texH)).flatMap putU32])
    (extent texW texH * 4)

end Bitmaps

/-! ## Text -/

section Text

variable (face : F → GFXfont) (r : DrawReplay F)

/-- `setCursor`. -/
def setCursor (x y : Int16) : DrawReplay F :=
  (r.record drRecText .setCursor [putI16 x, putI16 y]).base fun g => g.setCursor x y

/-- `setTextColor` with a background. -/
def setTextColorBg (c bg : UInt32) : DrawReplay F :=
  (r.record drRecText .setTextColor [putU32 c, putU32 bg]).base fun g => g.setTextColor c bg

/-- `setTextColor` without a background. -/
def setTextColor (c : UInt32) : DrawReplay F := r.setTextColorBg c gfxTransparent

/-- `setTextColorTransparentBg`. -/
def setTextColorTransparentBg (c : UInt32) : DrawReplay F := r.setTextColorBg c gfxTransparent

/-- `setTextSize` with two sizes. -/
def setTextSizeXY (sx sy : UInt8) : DrawReplay F :=
  (r.record drRecText .setTextSize [putU8 sx, putU8 sy]).base fun g => g.setTextSize sx sy

/-- `setTextSize` with one size. -/
def setTextSize (s : UInt8) : DrawReplay F := r.setTextSizeXY s s

/-- `setTextWrap`. -/
def setTextWrap (w : Bool) : DrawReplay F :=
  (r.record drRecText .setTextWrap [putBool w]).base fun g => g.setTextWrap w

/-- `setTextRotation`. -/
def setTextRotation (rotation : UInt8) : DrawReplay F :=
  (r.record drRecText .setTextRotation [putU8 rotation]).base fun g => g.setTextRotation rotation

/-- `setFont`. -/
def setFont [DecidableEq F] (f : Option F) : DrawReplay F :=
  (r.record drRecText .setFont [putU8 (r.fontId f)]).base fun g => g.setFont f

/-- `drawChar` with two sizes. -/
def drawCharXY (x y : Int16) (c : UInt8) (color bg : UInt32) (sizeX sizeY : UInt8) :
    DrawReplay F :=
  r.record drRecText .drawChar
    [putI16 x, putI16 y, putU8 c, putU32 color, putU32 bg, putU8 sizeX, putU8 sizeY]

/-- `drawChar` with one size. -/
def drawChar (x y : Int16) (c : UInt8) (color bg : UInt32) (size : UInt8) : DrawReplay F :=
  r.drawCharXY x y c color bg size size

/-- `writeText`. -/
def writeText (text : Option (List UInt8)) : DrawReplay F :=
  match text with
  | none => r
  | some text =>
      if cString text = [] then r
      else (r.record drRecText .writeText (putText text)).suppressed fun g => g.writeText face text

@[simp] theorem writeText_drawStyle (text : Option (List UInt8)) :
    (r.writeText face text).gfx.drawStyle = r.gfx.drawStyle := by
  cases text with
  | none => rfl
  | some text =>
      rw [writeText]
      split_ifs
      · rfl
      · rw [suppressed_gfx, LinuxGFX.writeText_drawStyle, record_gfx]

/-- `writeTextF`, with what `vsnprintf` makes of the format and its arguments:
`none` for a null format and for an error. -/
def writeTextF (formatted : Option (List UInt8)) : DrawReplay F :=
  match formatted with
  | none => r
  | some out => if out = [] then r else r.writeText face (some (out.take 511 ++ [0]))

/-- `setText`. -/
def setText [DecidableEq F] (x y : Int16) (text : Option (List UInt8)) (color bgColor : UInt32)
    (sizeX sizeY : UInt8) (font : Option F) (rotation : UInt8) : DrawReplay F :=
  match text with
  | none => r
  | some text =>
      (r.record drRecText .setText
        ([putI16 x, putI16 y, putU32 color, putU32 bgColor, putU8 sizeX, putU8 sizeY,
          putU8 (r.fontId font), putU8 rotation] ++ putText text)).suppressed
        fun g => g.setText face x y text color bgColor sizeX sizeY font rotation

/-- `print`. -/
def print (text : Option (List UInt8)) : DrawReplay F := r.writeText face text

/-- `println` without a text. -/
def println : DrawReplay F := r.writeText face (some [10])

/-- `println` with a text. -/
def printlnText (text : Option (List UInt8)) : DrawReplay F := (r.writeText face text).println face

end Text

/-! ## Style and control -/

section Style

variable (r : DrawReplay F)

/-- `setDrawStyle`. -/
def setDrawStyle (style : GFXDrawStyle) : DrawReplay F :=
  (r.record drRecStyle .setDrawStyle [putU8 style.strokeWidth, putU8 style.lineCap.toByte,
    putU8 style.lineJoin.toByte, putBool style.antiAlias]).base fun g => g.setDrawStyle style

/-- `setStrokeWidth`. -/
def setStrokeWidth (width : UInt8) : DrawReplay F :=
  r.setDrawStyle { r.gfx.drawStyle with strokeWidth := width }

/-- `setLineCap`. -/
def setLineCap (cap : GFXLineCap) : DrawReplay F :=
  r.setDrawStyle { r.gfx.drawStyle with lineCap := cap }

/-- `setLineJoin`. -/
def setLineJoin (join : GFXLineJoin) : DrawReplay F :=
  r.setDrawStyle { r.gfx.drawStyle with lineJoin := join }

/-- `setAntiAlias`. -/
def setAntiAlias (enable : Bool) : DrawReplay F :=
  r.setDrawStyle { r.gfx.drawStyle with antiAlias := enable }

/-- `setRotation`. -/
def setRotation (rot : UInt8) : DrawReplay F :=
  (r.record drRecStyle .setRotation [putU8 rot]).base fun g => g.setRotation rot

/-- `invertDisplay`. -/
def invertDisplay (i : Bool) : DrawReplay F :=
  (r.record drRecStyle .invertDisplay [putBool i]).base fun g => { g with inverted := i }

/-- `swapBuffers`. -/
def swapBuffers (autoclear : Bool) : DrawReplay F :=
  r.record drRecFrame .swapBuffers [putBool autoclear]

end Style

/-! ## Export -/

/-- The header of a blob.  The body counts its `End`. -/
def exportHeader (r : DrawReplay F) : DRHeader where
  width := r.gfx.width
  height := r.gfx.height
  cmdCount := UInt32.ofNat r.cmdCount
  bodyBytes := UInt32.ofNat (r.stream.length + 1)

/-- `DRExport`. -/
def drExport (r : DrawReplay F) : List UInt8 :=
  r.exportHeader.bytes ++ (r.stream ++ [DROp.endOp.toByte])

theorem bodyBytes_exportHeader {r : DrawReplay F} (h : r.stream.length < 2 ^ 32 - 1) :
    r.exportHeader.bodyBytes.toNat = r.stream.length + 1 :=
  UInt32.toNat_ofNat_of_lt' (Nat.add_lt_of_lt_sub h)

end DrawReplay

end MFoES.Libgfx
