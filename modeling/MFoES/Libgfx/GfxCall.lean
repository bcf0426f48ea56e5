import MFoES.Libgfx.GFX

/-!
# Calls on a render target and their layout on the wire

`GfxCall` is a call the renderer can make on its target.  A bitmap is its plane
and a text its bytes before the NUL.

`GfxCall.op` and `GfxCall.payload` are the layout the comments of `DROp`
promise, one command to a call.  Recorder and renderer are each compared with
this table, and with each other only through it.
-/

namespace MFoES.Libgfx

/-- A call on the target, overloads told apart by their arguments. -/
inductive GfxCall (F : Type) where
  | drawPixel (x y : Int16) (color : UInt32)
  | drawFastVLine (x y h : Int16) (color : UInt32)
  | drawFastHLine (x y w : Int16) (color : UInt32)
  | drawLine (x0 y0 x1 y1 : Int16) (color : UInt32)
  | drawRect (x y w h : Int16) (color : UInt32)
  | fillRect (x y w h : Int16) (color : UInt32)
  | fillScreen (color : UInt32)
  | drawCircle (x0 y0 r : Int16) (color : UInt32)
  | fillCircle (x0 y0 r : Int16) (color : UInt32)
  | drawArc (x0 y0 r : Int16) (startAngle endAngle : F32) (color : UInt32)
  | drawRoundRect (x y w h radius : Int16) (color : UInt32)
  | fillRoundRect (x y w h radius : Int16) (color : UInt32)
  | drawTriangle (x0 y0 x1 y1 x2 y2 : Int16) (color : UInt32)
  | fillTriangle (x0 y0 x1 y1 x2 y2 : Int16) (color : UInt32)
  | setDrawStyle (style : GFXDrawStyle)
  | setRotation (r : UInt8)
  | invertDisplay (i : Bool)
  | setCursor (x y : Int16)
  | setTextColor (c bg : UInt32)
  | setTextSize (sx sy : UInt8)
  | setTextWrap (w : Bool)
  | setTextRotation (rotation : UInt8)
  | setFont (f : Option F)
  | writeText (text : List UInt8)
  | drawChar (x y : Int16) (c : UInt8) (color bg : UInt32) (sizeX sizeY : UInt8)
  | setText (x y : Int16) (text : List UInt8) (color bgColor : UInt32) (sizeX sizeY : UInt8)
      (font : Option F) (rotation : UInt8)
  | drawBitmap (x y : Int16) (bitmap : List UInt8) (w h : Int16) (color bg : UInt32)
  | drawXBitmap (x y : Int16) (bitmap : List UInt8) (w h : Int16) (color : UInt32)
  | drawGrayscaleBitmap (x y : Int16) (bitmap : List UInt8) (w h : Int16)
  | drawGrayscaleBitmapMask (x y : Int16) (bitmap mask : List UInt8) (w h : Int16)
  | drawRGBBitmap (x y : Int16) (bitmap : List UInt32) (w h : Int16)
  | drawRGBBitmapMask (x y : Int16) (bitmap : List UInt32) (mask : List UInt8) (w h : Int16)
  | drawRGB565Bitmap (x y : Int16) (bitmap : List UInt16) (w h : Int16)
  | drawBitmapTriangle (x0 y0 x1 y1 x2 y2 : Int16) (bitmap : List UInt32) (texW texH : Int16)
  | swapBuffers (autoclear : Bool)
deriving DecidableEq

/-- `monoPlaneBytes`: the bytes of a plane with one bit a pixel.  The product of
a 13-bit and a 16-bit number fits in 64 bits. -/
def monoPlaneBytes (w h : Int16) : Nat := (w.toUInt16.toNat + 7) / 8 * h.toUInt16.toNat

/-- The pixels of a bitmap, as the renderer counts them. -/
def pixelCount (w h : Int16) : Nat := w.toUInt16.toNat * h.toUInt16.toNat

/-- `b ? 1u : 0u`. -/
def putBool (b : Bool) : List UInt8 := putU8 (if b then 1 else 0)

/-- A length and the bytes of a text. -/
def textBytes (text : List UInt8) : List (List UInt8) := [putU16 (UInt16.ofNat text.length), text]

namespace GfxCall

variable {F : Type}

/-- The opcode of a call. -/
def op : GfxCall F → DROp
  | drawPixel .. => .drawPixel
  | drawFastVLine .. => .fastVLine
  | drawFastHLine .. => .fastHLine
  | drawLine .. => .line
  | drawRect .. => .rect
  | fillRect .. => .fillRect
  | fillScreen .. => .fillScreen
  | drawCircle .. => .circle
  | fillCircle .. => .fillCircle
  | drawArc .. => .arc
  | drawRoundRect .. => .roundRect
  | fillRoundRect .. => .fillRoundRect
  | drawTriangle .. => .triangle
  | fillTriangle .. => .fillTriangle
  | setDrawStyle .. => .setDrawStyle
  | setRotation .. => .setRotation
  | invertDisplay .. => .invertDisplay
  | setCursor .. => .setCursor
  | setTextColor .. => .setTextColor
  | setTextSize .. => .setTextSize
  | setTextWrap .. => .setTextWrap
  | setTextRotation .. => .setTextRotation
  | setFont .. => .setFont
  | writeText .. => .writeText
  | drawChar .. => .drawChar
  | setText .. => .setText
  | drawBitmap .. => .bitmap1Bit
  | drawXBitmap .. => .xBitmap
  | drawGrayscaleBitmap .. => .grayBitmap
  | drawGrayscaleBitmapMask .. => .grayBitmapMask
  | drawRGBBitmap .. => .rgbBitmap
  | drawRGBBitmapMask .. => .rgbBitmapMask
  | drawRGB565Bitmap .. => .rgb565Bitmap
  | drawBitmapTriangle .. => .bitmapTriangle
  | swapBuffers .. => .swapBuffers

/-- The pieces of a call's payload, with `fontId` for the wire ids of fonts. -/
def payload (fontId : Option F → UInt8) : GfxCall F → List (List UInt8)
  | drawPixel x y c => [putI16 x, putI16 y, putU32 c]
  | drawFastVLine x y h c => [putI16 x, putI16 y, putI16 h, putU32 c]
  | drawFastHLine x y w c => [putI16 x, putI16 y, putI16 w, putU32 c]
  | drawLine x0 y0 x1 y1 c => [putI16 x0, putI16 y0, putI16 x1, putI16 y1, putU32 c]
  | drawRect x y w h c => [putI16 x, putI16 y, putI16 w, putI16 h, putU32 c]
  | fillRect x y w h c => [putI16 x, putI16 y, putI16 w, putI16 h, putU32 c]
  | fillScreen c => [putU32 c]
  | drawCircle x0 y0 r c => [putI16 x0, putI16 y0, putI16 r, putU32 c]
  | fillCircle x0 y0 r c => [putI16 x0, putI16 y0, putI16 r, putU32 c]
  | drawArc x0 y0 r a0 a1 c => [putI16 x0, putI16 y0, putI16 r, putF32 a0, putF32 a1, putU32 c]
  | drawRoundRect x y w h r c =>
      [putI16 x, putI16 y, putI16 w, putI16 h, putI16 r, putU32 c]
  | fillRoundRect x y w h r c =>
      [putI16 x, putI16 y, putI16 w, putI16 h, putI16 r, putU32 c]
  | drawTriangle x0 y0 x1 y1 x2 y2 c =>
      [putI16 x0, putI16 y0, putI16 x1, putI16 y1, putI16 x2, putI16 y2, putU32 c]
  | fillTriangle x0 y0 x1 y1 x2 y2 c =>
      [putI16 x0, putI16 y0, putI16 x1, putI16 y1, putI16 x2, putI16 y2, putU32 c]
  | setDrawStyle s =>
      [putU8 s.strokeWidth, putU8 s.lineCap.toByte, putU8 s.lineJoin.toByte, putBool s.antiAlias]
  | setRotation r => [putU8 r]
  | invertDisplay i => [putBool i]
  | setCursor x y => [putI16 x, putI16 y]
  | setTextColor c bg => [putU32 c, putU32 bg]
  | setTextSize sx sy => [putU8 sx, putU8 sy]
  | setTextWrap w => [putBool w]
  | setTextRotation r => [putU8 r]
  | setFont f => [putU8 (fontId f)]
  | writeText text => textBytes text
  | drawChar x y c fg bg sx sy =>
      [putI16 x, putI16 y, putU8 c, putU32 fg, putU32 bg, putU8 sx, putU8 sy]
  | setText x y text fg bg sx sy font rot =>
      [putI16 x, putI16 y, putU32 fg, putU32 bg, putU8 sx, putU8 sy, putU8 (fontId font),
        putU8 rot] ++ textBytes text
  | drawBitmap x y bits w h fg bg =>
      [putI16 x, putI16 y, putI16 w, putI16 h, putU32 fg, putU32 bg, bits]
  | drawXBitmap x y bits w h fg => [putI16 x, putI16 y, putI16 w, putI16 h, putU32 fg, bits]
  | drawGrayscaleBitmap x y px w h => [putI16 x, putI16 y, putI16 w, putI16 h, px]
  | drawGrayscaleBitmapMask x y px mask w h =>
      [putI16 x, putI16 y, putI16 w, putI16 h, px, mask]
  | drawRGBBitmap x y px w h => [putI16 x, putI16 y, putI16 w, putI16 h, px.flatMap putU32]
  | drawRGBBitmapMask x y px mask w h =>
      [putI16 x, putI16 y, putI16 w, putI16 h, px.flatMap putU32, mask]
  | drawRGB565Bitmap x y px w h => [putI16 x, putI16 y, putI16 w, putI16 h, px.flatMap putU16]
  | drawBitmapTriangle x0 y0 x1 y1 x2 y2 px w h =>
      [putI16 x0, putI16 y0, putI16 x1, putI16 y1, putI16 x2, putI16 y2, putI16 w, putI16 h,
        px.flatMap putU32]
  | swapBuffers autoclear => [putBool autoclear]

/-- A call as a command. -/
def encode (fontId : Option F → UInt8) (c : GfxCall F) : List UInt8 :=
  putU8 c.op.toByte ++ (c.payload fontId).flatten

/-- A text that one command carries and a C string holds. -/
structure FitsText (text : List UInt8) : Prop where
  length_le : text.length ≤ 0xFFFF
  noNul : cString text = text

/-- A bitmap that the renderer accepts. -/
structure FitsExtent (w h : Int16) : Prop where
  w_pos : 0 < w
  h_pos : 0 < h

/-- The calls one command can carry: planes have the length their extents say,
texts fit, and a font is what `fontOf` makes of its id. -/
def Fits (fontId : Option F → UInt8) (fontOf : UInt8 → Option F) : GfxCall F → Prop
  | setFont f => fontOf (fontId f) = f
  | writeText text => FitsText text
  | setText _ _ text _ _ _ _ font _ => FitsText text ∧ fontOf (fontId font) = font
  | drawBitmap _ _ bits w h _ _ => FitsExtent w h ∧ bits.length = monoPlaneBytes w h
  | drawXBitmap _ _ bits w h _ => FitsExtent w h ∧ bits.length = monoPlaneBytes w h
  | drawGrayscaleBitmap _ _ px w h => FitsExtent w h ∧ px.length = pixelCount w h
  | drawGrayscaleBitmapMask _ _ px mask w h =>
      FitsExtent w h ∧ px.length = pixelCount w h ∧ mask.length = monoPlaneBytes w h
  | drawRGBBitmap _ _ px w h => FitsExtent w h ∧ px.length = pixelCount w h
  | drawRGBBitmapMask _ _ px mask w h =>
      FitsExtent w h ∧ px.length = pixelCount w h ∧ mask.length = monoPlaneBytes w h
  | drawRGB565Bitmap _ _ px w h => FitsExtent w h ∧ px.length = pixelCount w h
  | drawBitmapTriangle _ _ _ _ _ _ px w h => FitsExtent w h ∧ px.length = pixelCount w h
  | _ => True

end GfxCall

end MFoES.Libgfx
