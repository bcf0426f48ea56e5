import MFoES.Libgfx.DrawReplayWire
import Mathlib.Tactic.SplitIfs

/-!
# The text, style and size state of LinuxGFX

`DrawReplay` inherits from `LinuxGFX` and keeps its text state up to date by
calling the base implementations.  Those are here, without their pixels: the
primitives they reach are virtual, and a suppressed recorder ignores them.

A font pointer is a value of a type `F`, and `face` says what it points to.
`glyph` is the memory at the font's glyph table, so every index has a value.
-/

namespace MFoES.Libgfx

/-- `GFX_TRANSPARENT`. -/
def gfxTransparent : UInt32 := 0x00000000

/-- `GFX_WHITE`. -/
def gfxWhite : UInt32 := 0xFFFFFFFF

/-- `GFXglyph`, as far as the cursor needs it. -/
structure GFXglyph where
  xAdvance : UInt8
deriving DecidableEq, Repr

/-- `GFXfont`, as far as the cursor needs it. -/
structure GFXfont where
  glyph : Int → GFXglyph
  first : UInt16
  yAdvance : UInt8

/-- `GFXLineCap`.  The renderer casts any byte to it. -/
structure GFXLineCap where
  toByte : UInt8
deriving DecidableEq, Repr

/-- `GFXLineJoin`.  The renderer casts any byte to it. -/
structure GFXLineJoin where
  toByte : UInt8
deriving DecidableEq, Repr

/-- `GFXDrawStyle`, with `Butt` and `Miter` for the defaults. -/
structure GFXDrawStyle where
  strokeWidth : UInt8 := 1
  lineCap : GFXLineCap := ⟨0⟩
  lineJoin : GFXLineJoin := ⟨0⟩
  antiAlias : Bool := false
deriving DecidableEq, Repr

/-- The text before the first NUL. -/
def cString (p : List UInt8) : List UInt8 := p.takeWhile fun c => c != 0

theorem cString_idem (p : List UInt8) : cString (cString p) = cString p := by
  induction p with
  | nil => rfl
  | cons c p ih =>
      by_cases hc : (c != 0) = true
      · simp only [cString, List.takeWhile_cons, hc, if_true] at ih ⊢
        rw [ih]
      · simp [cString, hc]

/-- What follows a terminator is not looked at. -/
theorem cString_append_nul (p q : List UInt8) : cString (p ++ 0 :: q) = cString p := by
  induction p with
  | nil => simp [cString]
  | cons c p ih =>
      simp only [cString, List.cons_append, List.takeWhile_cons] at ih ⊢
      rw [ih]

/-- The members of `LinuxGFX` that the recorder's calls read or set. -/
structure LinuxGFX (F : Type) where
  width : Int16
  height : Int16
  cursorX : Int16
  cursorY : Int16
  textColor : UInt32
  textBgColor : UInt32
  textSizeX : UInt8
  textSizeY : UInt8
  textRotation : UInt8
  textWrap : Bool
  rotation : UInt8
  inverted : Bool
  font : Option F
  drawStyle : GFXDrawStyle

namespace LinuxGFX

variable {F : Type}

/-- `LinuxGFX(CanvasTag)`. -/
def canvas : LinuxGFX F where
  width := 0
  height := 0
  cursorX := 0
  cursorY := 0
  textColor := gfxWhite
  textBgColor := gfxTransparent
  textSizeX := 1
  textSizeY := 1
  textRotation := 0
  textWrap := true
  rotation := 0
  inverted := false
  font := none
  drawStyle := {}

/-- `setCursor`. -/
def setCursor (g : LinuxGFX F) (x y : Int16) : LinuxGFX F := { g with cursorX := x, cursorY := y }

/-- `setTextColor(c, bg)`. -/
def setTextColor (g : LinuxGFX F) (c bg : UInt32) : LinuxGFX F :=
  { g with textColor := c, textBgColor := bg }

/-- `setTextSize(sx, sy)`. -/
def setTextSize (g : LinuxGFX F) (sx sy : UInt8) : LinuxGFX F :=
  { g with
    textSizeX := if sx = 0 then 1 else sx
    textSizeY := if sy = 0 then 1 else sy }

/-- `setTextWrap`. -/
def setTextWrap (g : LinuxGFX F) (w : Bool) : LinuxGFX F := { g with textWrap := w }

/-- `setTextRotation`.  The `% 360` does nothing to a byte. -/
def setTextRotation (g : LinuxGFX F) (rotation : UInt8) : LinuxGFX F :=
  { g with textRotation := UInt8.ofNat (rotation.toNat % 360) }

/-- `setFont`. -/
def setFont (g : LinuxGFX F) (f : Option F) : LinuxGFX F := { g with font := f }

/-- `setDrawStyle`. -/
def setDrawStyle (g : LinuxGFX F) (s : GFXDrawStyle) : LinuxGFX F := { g with drawStyle := s }

/-- `setRotation`. -/
def setRotation (g : LinuxGFX F) (r : UInt8) : LinuxGFX F :=
  let rotation := r % 4
  if rotation = 1 ∨ rotation = 3 then
    { g with rotation := rotation, width := g.height, height := g.width }
  else { g with rotation := rotation }

/-- The step of a line in the current font. -/
def lineStep (face : F → GFXfont) (g : LinuxGFX F) : Int :=
  g.textSizeY.toNat * match g.font with
    | some f => ((face f).yAdvance.toNat : Int)
    | none => 8

/-- The step of a character in the current font. -/
def charStep (face : F → GFXfont) (g : LinuxGFX F) (c : UInt8) : Int :=
  g.textSizeX.toNat * match g.font with
    | some f => (((face f).glyph ((c.toNat : Int) - (face f).first.toNat)).xAdvance.toNat : Int)
    | none => 6

/-- Go to a new line that starts at `left`. -/
def newLine (face : F → GFXfont) (g : LinuxGFX F) (left : Int16) : LinuxGFX F :=
  { g with cursorX := left, cursorY := Int16.ofInt (g.cursorY.toInt + g.lineStep face) }

/-- What a character does to the cursor, on lines that start at `left`. -/
def advanceChar (face : F → GFXfont) (left : Int16) (g : LinuxGFX F) (c : UInt8) : LinuxGFX F :=
  if c = 10 then g.newLine face left
  else if c = 13 then g
  else
    let adv := g.charStep face c
    let g' := if g.textWrap ∧ g.width.toInt < g.cursorX.toInt + adv then g.newLine face left else g
    { g' with cursorX := Int16.ofInt (g'.cursorX.toInt + adv) }

/-- `writeText`. -/
def writeText (face : F → GFXfont) (g : LinuxGFX F) (text : List UInt8) : LinuxGFX F :=
  (cString text).foldl (advanceChar face 0) g

@[simp] theorem advanceChar_drawStyle (face : F → GFXfont) (left : Int16) (g : LinuxGFX F)
    (c : UInt8) : (g.advanceChar face left c).drawStyle = g.drawStyle := by
  simp only [advanceChar, newLine]
  split_ifs <;> rfl

theorem foldl_advanceChar_drawStyle (face : F → GFXfont) (left : Int16) (text : List UInt8)
    (g : LinuxGFX F) : (text.foldl (advanceChar face left) g).drawStyle = g.drawStyle := by
  induction text generalizing g with
  | nil => rfl
  | cons c text ih => rw [List.foldl_cons, ih, advanceChar_drawStyle]

@[simp] theorem writeText_drawStyle (face : F → GFXfont) (g : LinuxGFX F) (text : List UInt8) :
    (g.writeText face text).drawStyle = g.drawStyle :=
  foldl_advanceChar_drawStyle face 0 _ g

/-- `writeTextRotated`.  The rotation moves only the pixels. -/
def writeTextRotated (face : F → GFXfont) (g : LinuxGFX F) (text : List UInt8) : LinuxGFX F :=
  (cString text).foldl (advanceChar face g.cursorX) g

/-- `setText`. -/
def setText (face : F → GFXfont) (g : LinuxGFX F) (x y : Int16) (text : List UInt8)
    (color bgColor : UInt32) (sizeX sizeY : UInt8) (font : Option F) (rotation : UInt8) :
    LinuxGFX F :=
  let g' := ((((g.setCursor x y).setTextColor color bgColor).setTextSize sizeX sizeY).setFont
    font).setTextRotation rotation
  if rotation = 0 then g'.writeText face text else g'.writeTextRotated face text

@[simp] theorem setText_drawStyle (face : F → GFXfont) (g : LinuxGFX F) (x y : Int16)
    (text : List UInt8) (color bgColor : UInt32) (sizeX sizeY : UInt8) (font : Option F)
    (rotation : UInt8) :
    (g.setText face x y text color bgColor sizeX sizeY font rotation).drawStyle = g.drawStyle := by
  rw [setText]
  split_ifs
  · exact writeText_drawStyle face _ text
  · exact foldl_advanceChar_drawStyle face _ _ _

@[simp] theorem setRotation_drawStyle (g : LinuxGFX F) (r : UInt8) :
    (g.setRotation r).drawStyle = g.drawStyle := by
  rw [setRotation]
  split_ifs <;> rfl

/-- The width and the height. -/
def size (g : LinuxGFX F) : Int16 × Int16 := (g.width, g.height)

@[simp] theorem advanceChar_size (face : F → GFXfont) (left : Int16) (g : LinuxGFX F)
    (c : UInt8) : (g.advanceChar face left c).size = g.size := by
  simp only [advanceChar, newLine]
  split_ifs <;> rfl

theorem foldl_advanceChar_size (face : F → GFXfont) (left : Int16) (text : List UInt8)
    (g : LinuxGFX F) : (text.foldl (advanceChar face left) g).size = g.size := by
  induction text generalizing g with
  | nil => rfl
  | cons c text ih => rw [List.foldl_cons, ih, advanceChar_size]

@[simp] theorem writeText_size (face : F → GFXfont) (g : LinuxGFX F) (text : List UInt8) :
    (g.writeText face text).size = g.size :=
  foldl_advanceChar_size face 0 _ g

@[simp] theorem setText_size (face : F → GFXfont) (g : LinuxGFX F) (x y : Int16)
    (text : List UInt8) (color bgColor : UInt32) (sizeX sizeY : UInt8) (font : Option F)
    (rotation : UInt8) :
    (g.setText face x y text color bgColor sizeX sizeY font rotation).size = g.size := by
  rw [setText]
  split_ifs
  · exact writeText_size face _ text
  · exact foldl_advanceChar_size face _ _ _

theorem setRotation_size (g : LinuxGFX F) (r : UInt8) :
    (g.setRotation r).size = if r % 4 = 1 ∨ r % 4 = 3 then g.size.swap else g.size := by
  simp only [setRotation]
  split_ifs <;> rfl

end LinuxGFX

end MFoES.Libgfx
