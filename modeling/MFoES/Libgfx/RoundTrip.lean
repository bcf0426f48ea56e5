import MFoES.Libgfx.DrawReplay

/-!
# Recording and rendering

`DRCall` is a draw call on a recorder.  `DRCall.replayed` says which calls on a
target it stands for: mostly the call of the same name, with shorter overloads
filled up, printed text as `writeText`, and single style fields as a whole
style.

Each recorder appends the commands of these calls and nothing else
(`records_run`), so a blob renders to them (`drRender_drExport`).
-/

namespace MFoES.Libgfx

variable {F : Type}

/-- A draw call on a recorder. -/
inductive DRCall (F : Type) where
  | drawPixel (x y : Int16) (color : UInt32)
  | drawFastVLine (x y h : Int16) (color : UInt32)
  | drawFastHLine (x y w : Int16) (color : UInt32)
  | fillScreen (color : UInt32)
  | drawLine (x0 y0 x1 y1 : Int16) (color : UInt32)
  | drawRect (x y w h : Int16) (color : UInt32)
  | fillRect (x y w h : Int16) (color : UInt32)
  | drawCircle (x0 y0 r : Int16) (color : UInt32)
  | fillCircle (x0 y0 r : Int16) (color : UInt32)
  | drawArc (x0 y0 r : Int16) (startAngle endAngle : F32) (color : UInt32)
  | drawRoundRect (x y w h radius : Int16) (color : UInt32)
  | fillRoundRect (x y w h radius : Int16) (color : UInt32)
  | drawTriangle (x0 y0 x1 y1 x2 y2 : Int16) (color : UInt32)
  | fillTriangle (x0 y0 x1 y1 x2 y2 : Int16) (color : UInt32)
  | drawBitmap (x y : Int16) (bitmap : Option (List UInt8)) (w h : Int16) (color : UInt32)
  | drawBitmapBg (x y : Int16) (bitmap : Option (List UInt8)) (w h : Int16) (color bg : UInt32)
  | drawXBitmap (x y : Int16) (bitmap : Option (List UInt8)) (w h : Int16) (color : UInt32)
  | drawGrayscaleBitmap (x y : Int16) (bitmap : Option (List UInt8)) (w h : Int16)
  | drawGrayscaleBitmapMask (x y : Int16) (bitmap mask : Option (List UInt8)) (w h : Int16)
  | drawRGBBitmap (x y : Int16) (bitmap : Option (List UInt32)) (w h : Int16)
  | drawRGBBitmapMask (x y : Int16) (bitmap : Option (List UInt32)) (mask : Option (List UInt8))
      (w h : Int16)
  | drawRGB565Bitmap (x y : Int16) (bitmap : Option (List UInt16)) (w h : Int16)
  | drawBitmapTriangle (x0 y0 x1 y1 x2 y2 : Int16) (bitmap : Option (List UInt32))
      (texW texH : Int16)
  | setCursor (x y : Int16)
  | setTextColor (c : UInt32)
  | setTextColorBg (c bg : UInt32)
  | setTextColorTransparentBg (c : UInt32)
  | setTextSize (s : UInt8)
  | setTextSizeXY (sx sy : UInt8)
  | setTextWrap (w : Bool)
  | setTextRotation (rotation : UInt8)
  | setFont (f : Option F)
  | setFontId (id : UInt8)
  | drawChar (x y : Int16) (c : UInt8) (color bg : UInt32) (size : UInt8)
  | drawCharXY (x y : Int16) (c : UInt8) (color bg : UInt32) (sizeX sizeY : UInt8)
  | writeText (text : Option (List UInt8))
  | writeTextF (formatted : Option (List UInt8))
  | setText (x y : Int16) (text : Option (List UInt8)) (color bgColor : UInt32)
      (sizeX sizeY : UInt8) (font : Option F) (rotation : UInt8)
  | print (text : Option (List UInt8))
  | printlnText (text : Option (List UInt8))
  | println
  | setDrawStyle (style : GFXDrawStyle)
  | setStrokeWidth (width : UInt8)
  | setLineCap (cap : GFXLineCap)
  | setLineJoin (join : GFXLineJoin)
  | setAntiAlias (enable : Bool)
  | setRotation (r : UInt8)
  | invertDisplay (i : Bool)
  | swapBuffers (autoclear : Bool)

namespace DRCall

/-- Make the call. -/
@[reducible] def run [DecidableEq F] (face : F → GFXfont) (r : DrawReplay F) : DRCall F → DrawReplay F
  | drawPixel x y color => r.drawPixel x y color
  | drawFastVLine x y h color => r.drawFastVLine x y h color
  | drawFastHLine x y w color => r.drawFastHLine x y w color
  | fillScreen color => r.fillScreen color
  | drawLine x0 y0 x1 y1 color => r.drawLine x0 y0 x1 y1 color
  | drawRect x y w h color => r.drawRect x y w h color
  | fillRect x y w h color => r.fillRect x y w h color
  | drawCircle x0 y0 rad color => r.drawCircle x0 y0 rad color
  | fillCircle x0 y0 rad color => r.fillCircle x0 y0 rad color
  | drawArc x0 y0 rad a0 a1 color => r.drawArc x0 y0 rad a0 a1 color
  | drawRoundRect x y w h radius color => r.drawRoundRect x y w h radius color
  | fillRoundRect x y w h radius color => r.fillRoundRect x y w h radius color
  | drawTriangle x0 y0 x1 y1 x2 y2 color => r.drawTriangle x0 y0 x1 y1 x2 y2 color
  | fillTriangle x0 y0 x1 y1 x2 y2 color => r.fillTriangle x0 y0 x1 y1 x2 y2 color
  | drawBitmap x y bitmap w h color => r.drawBitmap x y bitmap w h color
  | drawBitmapBg x y bitmap w h color bg => r.drawBitmapBg x y bitmap w h color bg
  | drawXBitmap x y bitmap w h color => r.drawXBitmap x y bitmap w h color
  | drawGrayscaleBitmap x y bitmap w h => r.drawGrayscaleBitmap x y bitmap w h
  | drawGrayscaleBitmapMask x y bitmap mask w h => r.drawGrayscaleBitmapMask x y bitmap mask w h
  | drawRGBBitmap x y bitmap w h => r.drawRGBBitmap x y bitmap w h
  | drawRGBBitmapMask x y bitmap mask w h => r.drawRGBBitmapMask x y bitmap mask w h
  | drawRGB565Bitmap x y bitmap w h => r.drawRGB565Bitmap x y bitmap w h
  | drawBitmapTriangle x0 y0 x1 y1 x2 y2 bitmap texW texH =>
      r.drawBitmapTriangle x0 y0 x1 y1 x2 y2 bitmap texW texH
  | setCursor x y => r.setCursor x y
  | setTextColor c => r.setTextColor c
  | setTextColorBg c bg => r.setTextColorBg c bg
  | setTextColorTransparentBg c => r.setTextColorTransparentBg c
  | setTextSize s => r.setTextSize s
  | setTextSizeXY sx sy => r.setTextSizeXY sx sy
  | setTextWrap w => r.setTextWrap w
  | setTextRotation rotation => r.setTextRotation rotation
  | setFont f => r.setFont f
  | setFontId id => r.setFontId id
  | drawChar x y c color bg size => r.drawChar x y c color bg size
  | drawCharXY x y c color bg sizeX sizeY => r.drawCharXY x y c color bg sizeX sizeY
  | writeText text => r.writeText face text
  | writeTextF formatted => r.writeTextF face formatted
  | setText x y text color bg sizeX sizeY font rotation =>
      r.setText face x y text color bg sizeX sizeY font rotation
  | print text => r.print face text
  | printlnText text => r.printlnText face text
  | println => r.println face
  | setDrawStyle style => r.setDrawStyle style
  | setStrokeWidth width => r.setStrokeWidth width
  | setLineCap cap => r.setLineCap cap
  | setLineJoin join => r.setLineJoin join
  | setAntiAlias enable => r.setAntiAlias enable
  | setRotation rot => r.setRotation rot
  | invertDisplay i => r.invertDisplay i
  | swapBuffers autoclear => r.swapBuffers autoclear

/-! ## What a call stands for -/

/-- The draw style after a call. -/
def styleAfter (style : GFXDrawStyle) : DRCall F → GFXDrawStyle
  | setDrawStyle s => s
  | setStrokeWidth width => { style with strokeWidth := width }
  | setLineCap cap => { style with lineCap := cap }
  | setLineJoin join => { style with lineJoin := join }
  | setAntiAlias enable => { style with antiAlias := enable }
  | _ => style

/-- Written text, if there is any. -/
def written (text : List UInt8) : List (GfxCall F) :=
  if cString text = [] then [] else [.writeText (cString text)]

/-- A call on a bitmap that is there. -/
def onBitmap {α : Type} (bitmap : Option α) (c : α → GfxCall F) : List (GfxCall F) :=
  (bitmap.map c).toList

/-- The calls on a target that a draw call stands for.  `fonts` resolves a font
given by its id, and `style` is the style before the call. -/
def replayed (fonts : Option (DRFontTable F)) (style : GFXDrawStyle) :
    DRCall F → List (GfxCall F)
  | drawPixel x y color => [.drawPixel x y color]
  | drawFastVLine x y h color => [.drawFastVLine x y h color]
  | drawFastHLine x y w color => [.drawFastHLine x y w color]
  | fillScreen color => [.fillScreen color]
  | drawLine x0 y0 x1 y1 color => [.drawLine x0 y0 x1 y1 color]
  | drawRect x y w h color => [.drawRect x y w h color]
  | fillRect x y w h color => [.fillRect x y w h color]
  | drawCircle x0 y0 r color => [.drawCircle x0 y0 r color]
  | fillCircle x0 y0 r color => [.fillCircle x0 y0 r color]
  | drawArc x0 y0 r a0 a1 color => [.drawArc x0 y0 r a0 a1 color]
  | drawRoundRect x y w h radius color => [.drawRoundRect x y w h radius color]
  | fillRoundRect x y w h radius color => [.fillRoundRect x y w h radius color]
  | drawTriangle x0 y0 x1 y1 x2 y2 color => [.drawTriangle x0 y0 x1 y1 x2 y2 color]
  | fillTriangle x0 y0 x1 y1 x2 y2 color => [.fillTriangle x0 y0 x1 y1 x2 y2 color]
  | drawBitmap x y bitmap w h color => onBitmap bitmap fun bits =>
      .drawBitmap x y (bits.take (monoPlaneBytes w h)) w h color gfxTransparent
  | drawBitmapBg x y bitmap w h color bg => onBitmap bitmap fun bits =>
      .drawBitmap x y (bits.take (monoPlaneBytes w h)) w h color bg
  | drawXBitmap x y bitmap w h color => onBitmap bitmap fun bits =>
      .drawXBitmap x y (bits.take (monoPlaneBytes w h)) w h color
  | drawGrayscaleBitmap x y bitmap w h => onBitmap bitmap fun px =>
      .drawGrayscaleBitmap x y (px.take (pixelCount w h)) w h
  | drawGrayscaleBitmapMask x y bitmap mask w h => onBitmap (DrawReplay.both bitmap mask) fun p =>
      .drawGrayscaleBitmapMask x y (p.1.take (pixelCount w h)) (p.2.take (monoPlaneBytes w h)) w h
  | drawRGBBitmap x y bitmap w h => onBitmap bitmap fun px =>
      .drawRGBBitmap x y (px.take (pixelCount w h)) w h
  | drawRGBBitmapMask x y bitmap mask w h => onBitmap (DrawReplay.both bitmap mask) fun p =>
      .drawRGBBitmapMask x y (p.1.take (pixelCount w h)) (p.2.take (monoPlaneBytes w h)) w h
  | drawRGB565Bitmap x y bitmap w h => onBitmap bitmap fun px =>
      .drawRGB565Bitmap x y (px.take (pixelCount w h)) w h
  | drawBitmapTriangle x0 y0 x1 y1 x2 y2 bitmap texW texH => onBitmap bitmap fun px =>
      .drawBitmapTriangle x0 y0 x1 y1 x2 y2 (px.take (pixelCount texW texH)) texW texH
  | setCursor x y => [.setCursor x y]
  | setTextColor c => [.setTextColor c gfxTransparent]
  | setTextColorBg c bg => [.setTextColor c bg]
  | setTextColorTransparentBg c => [.setTextColor c gfxTransparent]
  | setTextSize s => [.setTextSize s s]
  | setTextSizeXY sx sy => [.setTextSize sx sy]
  | setTextWrap w => [.setTextWrap w]
  | setTextRotation rotation => [.setTextRotation rotation]
  | setFont f => [.setFont f]
  | setFontId id => [.setFont (DRFontTable.lookup fonts id)]
  | drawChar x y c color bg size => [.drawChar x y c color bg size size]
  | drawCharXY x y c color bg sizeX sizeY => [.drawChar x y c color bg sizeX sizeY]
  | writeText text => text.elim [] written
  | writeTextF formatted => formatted.elim [] fun out => written (out.take 511)
  | setText x y text color bg sizeX sizeY font rotation => text.elim [] fun text =>
      [.setText x y (cString text) color bg sizeX sizeY font rotation]
  | print text => text.elim [] written
  | printlnText text => text.elim [] written ++ [.writeText [10]]
  | println => [.writeText [10]]
  | setDrawStyle s => [.setDrawStyle s]
  | c@(setStrokeWidth _) | c@(setLineCap _) | c@(setLineJoin _) | c@(setAntiAlias _) =>
      [.setDrawStyle (c.styleAfter style)]
  | setRotation r => [.setRotation r]
  | invertDisplay i => [.invertDisplay i]
  | swapBuffers autoclear => [.swapBuffers autoclear]

/-- A bitmap of positive extents, with its planes present. -/
structure HasPlanes (w h : Int16) (planes : Prop) : Prop where
  w_pos : 0 < w
  h_pos : 0 < h
  present : planes

/-- A bitmap is not null and has `n` elements. -/
def HasPlane {α : Type} (bitmap : Option (List α)) (n : Nat) : Prop :=
  ∃ p, bitmap = some p ∧ n ≤ p.length

/-- A text of at most 65535 bytes. -/
def ShortText (text : Option (List UInt8)) : Prop := ∀ t ∈ text, (cString t).length ≤ 0xFFFF

/-- The calls of the round trip: bitmaps are there, texts fit in a command, and
fonts are null or satisfy `known`. -/
def Recordable (known : F → Prop) : DRCall F → Prop
  | drawBitmap _ _ bitmap w h _ => HasPlanes w h (HasPlane bitmap (monoPlaneBytes w h))
  | drawBitmapBg _ _ bitmap w h _ _ => HasPlanes w h (HasPlane bitmap (monoPlaneBytes w h))
  | drawXBitmap _ _ bitmap w h _ => HasPlanes w h (HasPlane bitmap (monoPlaneBytes w h))
  | drawGrayscaleBitmap _ _ bitmap w h => HasPlanes w h (HasPlane bitmap (pixelCount w h))
  | drawGrayscaleBitmapMask _ _ bitmap mask w h =>
      HasPlanes w h (HasPlane bitmap (pixelCount w h) ∧ HasPlane mask (monoPlaneBytes w h))
  | drawRGBBitmap _ _ bitmap w h => HasPlanes w h (HasPlane bitmap (pixelCount w h))
  | drawRGBBitmapMask _ _ bitmap mask w h =>
      HasPlanes w h (HasPlane bitmap (pixelCount w h) ∧ HasPlane mask (monoPlaneBytes w h))
  | drawRGB565Bitmap _ _ bitmap w h => HasPlanes w h (HasPlane bitmap (pixelCount w h))
  | drawBitmapTriangle _ _ _ _ _ _ bitmap texW texH =>
      HasPlanes texW texH (HasPlane bitmap (pixelCount texW texH))
  | setFont f => ∀ font ∈ f, known font
  | writeText text | print text | printlnText text => ShortText text
  | setText _ _ text _ _ _ _ f _ => ShortText text ∧ ∀ font ∈ f, known font
  | _ => True

/-- The calls a sequence of draw calls stands for. -/
def replayedAll (fonts : Option (DRFontTable F)) :
    GFXDrawStyle → List (DRCall F) → List (GfxCall F)
  | _, [] => []
  | style, c :: cs => c.replayed fonts style ++ replayedAll fonts (c.styleAfter style) cs

end DRCall

/-! ## What a recorder records -/

open DrawReplay

/-- A recorder that records everything, whose fonts are bound on the render
side under the same ids. -/
structure Recording (fonts : Option (DRFontTable F)) (r : DrawReplay F) : Prop where
  all : r.recordMask = drRecAll
  noLimit : r.maxInlineBytes = 0
  live : r.suppress = false
  bound : ∀ b ∈ r.fontIds, DRFontTable.lookup fonts b.2 = some b.1

/-- From `r` to `r'` exactly commands of `cs` were recorded. -/
structure Records (fonts : Option (DRFontTable F)) (r r' : DrawReplay F)
    (cs : List (GfxCall F)) : Prop where
  stream : ∃ b, r'.stream = r.stream ++ b ∧ Commands fonts b cs
  cmdCount : r'.cmdCount = r.cmdCount + cs.length
  fontIds : r'.fontIds = r.fontIds
  recording : Recording fonts r'

namespace Records

variable {fonts : Option (DRFontTable F)} {r r' r'' : DrawReplay F} {cs cs' : List (GfxCall F)}

theorem refl (h : Recording fonts r) : Records fonts r r [] where
  stream := ⟨[], (List.append_nil _).symm, .nil⟩
  cmdCount := rfl
  fontIds := rfl
  recording := h

theorem trans (h : Records fonts r r' cs) (h' : Records fonts r' r'' cs') :
    Records fonts r r'' (cs ++ cs') where
  stream := by
    obtain ⟨b, hb, hcs⟩ := h.stream
    obtain ⟨b', hb', hcs'⟩ := h'.stream
    exact ⟨b ++ b', by rw [hb', hb, List.append_assoc], hcs.append hcs'⟩
  cmdCount := by rw [h'.cmdCount, h.cmdCount, List.length_append, Nat.add_assoc]
  fontIds := h'.fontIds.trans h.fontIds
  recording := h'.recording

theorem base (h : Records fonts r r' cs) (f : LinuxGFX F → LinuxGFX F) :
    Records fonts r (r'.base f) cs :=
  ⟨h.stream, h.cmdCount, h.fontIds,
    ⟨h.recording.all, h.recording.noLimit, h.recording.live, h.recording.bound⟩⟩

theorem suppressed (h : Records fonts r r' cs) (f : LinuxGFX F → LinuxGFX F) :
    Records fonts r (r'.suppressed f) cs :=
  ⟨h.stream, h.cmdCount, h.fontIds,
    ⟨h.recording.all, h.recording.noLimit, rfl, h.recording.bound⟩⟩

end Records

section Recorders

variable {fonts : Option (DRFontTable F)} {r : DrawReplay F}

/-- An allowed command is emitted. -/
theorem record_eq (hr : Recording fonts r) {feature : UInt32} (hf : drRecAll &&& feature ≠ 0)
    (op : DROp) (payload : List (List UInt8)) (n : Nat) :
    r.record feature op payload n = (r.beginCmd op).put payload := by
  have hallow : r.allow feature n = (r, true) := by
    rw [allow, hr.all, if_neg hf, if_neg]
    exact fun h => h.1 hr.noLimit
  rw [record, hallow]

/-- A recorder that emits the command of a call records the call. -/
theorem records_record (hr : Recording fonts r) {feature : UInt32}
    (hf : drRecAll &&& feature ≠ 0) (c : GfxCall F) (fontId : Option F → UInt8)
    (hc : c.Fits fontId (DRFontTable.lookup fonts)) {payload : List (List UInt8)}
    (hp : payload = c.payload fontId) (n : Nat) :
    Records fonts r (r.record feature c.op payload n) [c] := by
  rw [record_eq hr hf, hp]
  refine ⟨⟨c.encode fontId, ?_, .single hc⟩, rfl, rfl, hr.all, hr.noLimit, hr.live, hr.bound⟩
  exact List.append_assoc _ _ _

/-- A recorder may go on with the base implementation. -/
theorem records_recordBase (hr : Recording fonts r) {feature : UInt32}
    (hf : drRecAll &&& feature ≠ 0) (c : GfxCall F) (fontId : Option F → UInt8)
    (hc : c.Fits fontId (DRFontTable.lookup fonts)) {payload : List (List UInt8)}
    (hp : payload = c.payload fontId) (f : LinuxGFX F → LinuxGFX F) :
    Records fonts r ((r.record feature c.op payload).base f) [c] :=
  (records_record hr hf c fontId hc hp 0).base f

theorem records_recordPrimitive (hr : Recording fonts r) {feature : UInt32}
    (hf : drRecAll &&& feature ≠ 0) (c : GfxCall F) (fontId : Option F → UInt8)
    (hc : c.Fits fontId (DRFontTable.lookup fonts)) {payload : List (List UInt8)}
    (hp : payload = c.payload fontId) :
    Records fonts r (r.recordPrimitive feature c.op payload) [c] := by
  rw [recordPrimitive, hr.live]
  exact records_record hr hf c fontId hc hp 0

theorem records_recordBitmap {α : Type} (hr : Recording fonts r) {w h : Int16}
    (hwh : GfxCall.FitsExtent w h) {feature : UInt32} (hf : drRecAll &&& feature ≠ 0)
    (c : GfxCall F) (fontId : Option F → UInt8)
    (hc : c.Fits fontId (DRFontTable.lookup fonts)) {bitmap : α}
    {payload : α → List (List UInt8)} (hp : payload bitmap = c.payload fontId) (n : Nat) :
    Records fonts r (r.recordBitmap (some bitmap) w h feature c.op payload n) [c] := by
  have hpos : ¬ (w ≤ 0 ∨ h ≤ 0) := by
    rintro (hle | hle)
    · exact absurd hwh.w_pos (Int16.not_lt.mpr hle)
    · exact absurd hwh.h_pos (Int16.not_lt.mpr hle)
  rw [recordBitmap, if_neg hpos]
  exact records_record hr hf c fontId hc hp n

end Recorders

/-! ## Every draw call -/

section Calls

variable [DecidableEq F] {fonts : Option (DRFontTable F)} {r : DrawReplay F}

/-- The fonts a recorder has an id for. -/
def Registered (r : DrawReplay F) (f : F) : Prop := ∃ id, (f, id) ∈ r.fontIds

/-- The id of a null or registered font is bound to it. -/
theorem lookup_fontId (hbound : ∀ b ∈ r.fontIds, DRFontTable.lookup fonts b.2 = some b.1)
    {f : Option F} (hf : ∀ font ∈ f, Registered r font) :
    DRFontTable.lookup fonts (r.fontId f) = f := by
  cases f with
  | none => exact DRFontTable.lookup_builtin fonts
  | some font =>
      obtain ⟨id, hid⟩ := hf font rfl
      simp only [fontId]
      cases hfind : r.fontIds.find? fun b => b.1 = font with
      | none =>
          have hne := List.find?_eq_none.mp hfind (font, id) hid
          simp at hne
      | some b =>
          have hb := hbound b (List.mem_of_find?_eq_some hfind)
          have hfont := List.find?_some hfind
          rw [decide_eq_true_eq] at hfont
          rw [← hfont]
          exact hb

/-- The two counts of the pixels of a bitmap agree. -/
theorem extent_eq {w h : Int16} (hwh : GfxCall.FitsExtent w h) : extent w h = pixelCount w h := by
  have key : ∀ v : Int16, 0 < v → v.toInt.toNat = v.toUInt16.toNat := fun v hv =>
    (Int16.toNat_toUInt16_of_le (Int16.le_of_lt hv)).symm
  rw [extent, pixelCount, key w hwh.w_pos, key h hwh.h_pos]

theorem putText_eq {text : List UInt8} (h : (cString text).length ≤ 0xFFFF) :
    putText text = textBytes (cString text) := by
  rw [putText, if_neg (Nat.not_lt.mpr h), List.take_length, textBytes]

theorem fitsText_cString {text : List UInt8} (h : (cString text).length ≤ 0xFFFF) :
    GfxCall.FitsText (cString text) :=
  ⟨h, cString_idem text⟩

theorem records_writeText (hr : Recording fonts r) (face : F → GFXfont) (text : List UInt8)
    (h : (cString text).length ≤ 0xFFFF) :
    Records fonts r (r.writeText face (some text)) (DRCall.written text) := by
  rw [writeText, DRCall.written]
  by_cases hnil : cString text = []
  · rw [if_pos hnil, if_pos hnil]
    exact .refl hr
  · rw [if_neg hnil, if_neg hnil]
    exact (records_record hr (by decide) (.writeText (cString text)) r.fontId
      (fitsText_cString h) (putText_eq h) 0).suppressed _

/-- `vsnprintf` leaves at most 511 bytes in the buffer, and a NUL. -/
theorem records_writeTextF (hr : Recording fonts r) (face : F → GFXfont) (out : List UInt8) :
    Records fonts r (r.writeTextF face (some out)) (DRCall.written (out.take 511)) := by
  rw [writeTextF]
  by_cases hnil : out = []
  · rw [if_pos hnil, hnil]
    exact .refl hr
  · have hbuf : cString (out.take 511 ++ [0]) = cString (out.take 511) := cString_append_nul _ _
    have hlen : (cString (out.take 511)).length ≤ 511 :=
      (List.takeWhile_sublist _).length_le.trans (List.length_take_le _ _)
    have hrec := records_writeText hr face (out.take 511 ++ [0])
      (by rw [hbuf]; exact hlen.trans (by decide))
    rw [if_neg hnil]
    rw [DRCall.written, hbuf] at hrec
    exact hrec

theorem records_setText (hr : Recording fonts r) (face : F → GFXfont) (x y : Int16)
    (text : List UInt8) (fg bg : UInt32) (sx sy : UInt8) (f : Option F) (rot : UInt8)
    (h : (cString text).length ≤ 0xFFFF) (hf : ∀ font ∈ f, Registered r font) :
    Records fonts r (r.setText face x y (some text) fg bg sx sy f rot)
      [.setText x y (cString text) fg bg sx sy f rot] := by
  rw [setText, putText_eq h]
  exact (records_record hr (by decide) (.setText x y (cString text) fg bg sx sy f rot) r.fontId
    ⟨fitsText_cString h, lookup_fontId hr.bound hf⟩ rfl 0).suppressed _

theorem records_println (hr : Recording fonts r) (face : F → GFXfont) :
    Records fonts r (r.println face) [.writeText [10]] :=
  records_writeText hr face [10] (by decide)

omit [DecidableEq F] in
theorem records_setTextColorBg (hr : Recording fonts r) (c bg : UInt32) :
    Records fonts r (r.setTextColorBg c bg) [.setTextColor c bg] :=
  records_recordBase hr (by decide) (.setTextColor c bg) (fun _ => 0) trivial rfl _

omit [DecidableEq F] in
theorem records_setTextSizeXY (hr : Recording fonts r) (sx sy : UInt8) :
    Records fonts r (r.setTextSizeXY sx sy) [.setTextSize sx sy] :=
  records_recordBase hr (by decide) (.setTextSize sx sy) (fun _ => 0) trivial rfl _

omit [DecidableEq F] in
theorem records_setDrawStyle (hr : Recording fonts r) (style : GFXDrawStyle) :
    Records fonts r (r.setDrawStyle style) [.setDrawStyle style] :=
  records_recordBase hr (by decide) (.setDrawStyle style) (fun _ => 0) trivial rfl _

omit [DecidableEq F] in
theorem records_setFontId (hr : Recording fonts r) (id : UInt8) :
    Records fonts r (r.setFontId id) [.setFont (DRFontTable.lookup fonts id)] := by
  have hrec := records_record hr (by decide : drRecAll &&& drRecText ≠ 0)
    (.setFont (DRFontTable.lookup fonts id)) (fun _ => id) rfl rfl 0
  rw [setFontId]
  split
  · exact hrec.base _
  · split
    · exact hrec.base _
    · exact hrec

/-- A draw call records the calls it stands for. -/
theorem records_run (hr : Recording fonts r) (face : F → GFXfont) :
    ∀ c : DRCall F, c.Recordable (Registered r) →
      Records fonts r (c.run face r) (c.replayed fonts r.gfx.drawStyle)
  | .drawPixel x y c, _ =>
      records_recordPrimitive hr (by decide) (.drawPixel x y c) r.fontId trivial rfl
  | .drawFastVLine x y h c, _ =>
      records_recordPrimitive hr (by decide) (.drawFastVLine x y h c) r.fontId trivial rfl
  | .drawFastHLine x y w c, _ =>
      records_recordPrimitive hr (by decide) (.drawFastHLine x y w c) r.fontId trivial rfl
  | .fillScreen c, _ =>
      records_recordPrimitive hr (by decide) (.fillScreen c) r.fontId trivial rfl
  | .drawLine x0 y0 x1 y1 c, _ =>
      records_record hr (by decide) (.drawLine x0 y0 x1 y1 c) r.fontId trivial rfl 0
  | .drawRect x y w h c, _ =>
      records_record hr (by decide) (.drawRect x y w h c) r.fontId trivial rfl 0
  | .fillRect x y w h c, _ =>
      records_record hr (by decide) (.fillRect x y w h c) r.fontId trivial rfl 0
  | .drawCircle x y rad c, _ =>
      records_record hr (by decide) (.drawCircle x y rad c) r.fontId trivial rfl 0
  | .fillCircle x y rad c, _ =>
      records_record hr (by decide) (.fillCircle x y rad c) r.fontId trivial rfl 0
  | .drawArc x y rad a0 a1 c, _ =>
      records_record hr (by decide) (.drawArc x y rad a0 a1 c) r.fontId trivial rfl 0
  | .drawRoundRect x y w h rad c, _ =>
      records_record hr (by decide) (.drawRoundRect x y w h rad c) r.fontId trivial rfl 0
  | .fillRoundRect x y w h rad c, _ =>
      records_record hr (by decide) (.fillRoundRect x y w h rad c) r.fontId trivial rfl 0
  | .drawTriangle x0 y0 x1 y1 x2 y2 c, _ =>
      records_record hr (by decide) (.drawTriangle x0 y0 x1 y1 x2 y2 c) r.fontId trivial rfl 0
  | .fillTriangle x0 y0 x1 y1 x2 y2 c, _ =>
      records_record hr (by decide) (.fillTriangle x0 y0 x1 y1 x2 y2 c) r.fontId trivial rfl 0
  | .drawBitmap x y bitmap w h c, hc => by
      obtain ⟨hw, hh, bits, rfl, hlen⟩ := hc
      exact records_recordBitmap hr ⟨hw, hh⟩ (by decide) (.drawBitmap x y _ w h c gfxTransparent)
        r.fontId ⟨⟨hw, hh⟩, List.length_take_of_le hlen⟩ rfl _
  | .drawBitmapBg x y bitmap w h c bg, hc => by
      obtain ⟨hw, hh, bits, rfl, hlen⟩ := hc
      exact records_recordBitmap hr ⟨hw, hh⟩ (by decide) (.drawBitmap x y _ w h c bg) r.fontId
        ⟨⟨hw, hh⟩, List.length_take_of_le hlen⟩ rfl _
  | .drawXBitmap x y bitmap w h c, hc => by
      obtain ⟨hw, hh, bits, rfl, hlen⟩ := hc
      exact records_recordBitmap hr ⟨hw, hh⟩ (by decide) (.drawXBitmap x y _ w h c) r.fontId
        ⟨⟨hw, hh⟩, List.length_take_of_le hlen⟩ rfl _
  | .drawGrayscaleBitmap x y bitmap w h, hc => by
      obtain ⟨hw, hh, px, rfl, hlen⟩ := hc
      exact records_recordBitmap hr ⟨hw, hh⟩ (by decide) (.drawGrayscaleBitmap x y _ w h) r.fontId
        ⟨⟨hw, hh⟩, List.length_take_of_le hlen⟩ (by simp only [extent_eq ⟨hw, hh⟩]; rfl) _
  | .drawGrayscaleBitmapMask x y bitmap mask w h, hc => by
      obtain ⟨hw, hh, ⟨px, rfl, hlen⟩, mask, rfl, hmask⟩ := hc
      exact records_recordBitmap hr ⟨hw, hh⟩ (by decide) (.drawGrayscaleBitmapMask x y _ _ w h)
        r.fontId ⟨⟨hw, hh⟩, List.length_take_of_le hlen, List.length_take_of_le hmask⟩
        (by simp only [extent_eq ⟨hw, hh⟩]; rfl) _
  | .drawRGBBitmap x y bitmap w h, hc => by
      obtain ⟨hw, hh, px, rfl, hlen⟩ := hc
      exact records_recordBitmap hr ⟨hw, hh⟩ (by decide) (.drawRGBBitmap x y _ w h) r.fontId
        ⟨⟨hw, hh⟩, List.length_take_of_le hlen⟩ (by simp only [extent_eq ⟨hw, hh⟩]; rfl) _
  | .drawRGBBitmapMask x y bitmap mask w h, hc => by
      obtain ⟨hw, hh, ⟨px, rfl, hlen⟩, mask, rfl, hmask⟩ := hc
      exact records_recordBitmap hr ⟨hw, hh⟩ (by decide) (.drawRGBBitmapMask x y _ _ w h)
        r.fontId ⟨⟨hw, hh⟩, List.length_take_of_le hlen, List.length_take_of_le hmask⟩
        (by simp only [extent_eq ⟨hw, hh⟩]; rfl) _
  | .drawRGB565Bitmap x y bitmap w h, hc => by
      obtain ⟨hw, hh, px, rfl, hlen⟩ := hc
      exact records_recordBitmap hr ⟨hw, hh⟩ (by decide) (.drawRGB565Bitmap x y _ w h) r.fontId
        ⟨⟨hw, hh⟩, List.length_take_of_le hlen⟩ (by simp only [extent_eq ⟨hw, hh⟩]; rfl) _
  | .drawBitmapTriangle x0 y0 x1 y1 x2 y2 bitmap w h, hc => by
      obtain ⟨hw, hh, px, rfl, hlen⟩ := hc
      exact records_recordBitmap hr ⟨hw, hh⟩ (by decide)
        (.drawBitmapTriangle x0 y0 x1 y1 x2 y2 _ w h) r.fontId
        ⟨⟨hw, hh⟩, List.length_take_of_le hlen⟩ (by simp only [extent_eq ⟨hw, hh⟩]; rfl) _
  | .setCursor x y, _ =>
      records_recordBase hr (by decide) (.setCursor x y) r.fontId trivial rfl _
  | .setTextColor c, _ => records_setTextColorBg hr c gfxTransparent
  | .setTextColorBg c bg, _ => records_setTextColorBg hr c bg
  | .setTextColorTransparentBg c, _ => records_setTextColorBg hr c gfxTransparent
  | .setTextSize s, _ => records_setTextSizeXY hr s s
  | .setTextSizeXY sx sy, _ => records_setTextSizeXY hr sx sy
  | .setTextWrap w, _ =>
      records_recordBase hr (by decide) (.setTextWrap w) r.fontId trivial rfl _
  | .setTextRotation rot, _ =>
      records_recordBase hr (by decide) (.setTextRotation rot) r.fontId trivial rfl _
  | .setFont f, hf =>
      records_recordBase hr (by decide) (.setFont f) r.fontId (lookup_fontId hr.bound hf) rfl _
  | .setFontId id, _ => records_setFontId hr id
  | .drawChar x y c fg bg s, _ =>
      records_record hr (by decide) (.drawChar x y c fg bg s s) r.fontId trivial rfl 0
  | .drawCharXY x y c fg bg sx sy, _ =>
      records_record hr (by decide) (.drawChar x y c fg bg sx sy) r.fontId trivial rfl 0
  | .writeText none, _ => .refl hr
  | .writeText (some text), h => records_writeText hr face text (h text rfl)
  | .writeTextF none, _ => .refl hr
  | .writeTextF (some out), _ => records_writeTextF hr face out
  | .setText x y none fg bg sx sy f rot, _ => .refl hr
  | .setText x y (some text) fg bg sx sy f rot, hc =>
      records_setText hr face x y text fg bg sx sy f rot (hc.1 text rfl) hc.2
  | .print none, _ => .refl hr
  | .print (some text), h => records_writeText hr face text (h text rfl)
  | .printlnText none, _ => records_println hr face
  | .printlnText (some text), h => by
      have htext := records_writeText hr face text (h text rfl)
      exact htext.trans (records_println htext.recording face)
  | .println, _ => records_println hr face
  | .setDrawStyle s, _ => records_setDrawStyle hr s
  | .setStrokeWidth _, _ => records_setDrawStyle hr _
  | .setLineCap _, _ => records_setDrawStyle hr _
  | .setLineJoin _, _ => records_setDrawStyle hr _
  | .setAntiAlias _, _ => records_setDrawStyle hr _
  | .setRotation rot, _ =>
      records_recordBase hr (by decide) (.setRotation rot) r.fontId trivial rfl _
  | .invertDisplay i, _ =>
      records_recordBase hr (by decide) (.invertDisplay i) r.fontId trivial rfl _
  | .swapBuffers autoclear, _ =>
      records_record hr (by decide) (.swapBuffers autoclear) r.fontId trivial rfl 0

/-- A draw call sets the style it says. -/
theorem drawStyle_run (face : F → GFXfont) (r : DrawReplay F) (c : DRCall F) :
    (c.run face r).gfx.drawStyle = c.styleAfter r.gfx.drawStyle := by
  cases c with
  | writeTextF formatted =>
      cases formatted with
      | none => rfl
      | some out =>
          simp only [DRCall.run, writeTextF]
          split_ifs
          · rfl
          · exact r.writeText_drawStyle face _
  | setText x y text fg bg sx sy font rot =>
      cases text with
      | none => rfl
      | some text => simp [DRCall.run, DrawReplay.setText, DRCall.styleAfter]
  | setFontId id =>
      simp only [DRCall.run, setFontId]
      split
      · simp [LinuxGFX.setFont, DRCall.styleAfter]
      · split <;> simp [LinuxGFX.setFont, DRCall.styleAfter]
  | _ =>
      simp [DRCall.run, DRCall.styleAfter, DrawReplay.drawPixel, DrawReplay.drawFastVLine,
        DrawReplay.drawFastHLine, DrawReplay.fillScreen, DrawReplay.drawLine, DrawReplay.drawRect,
        DrawReplay.fillRect, DrawReplay.drawCircle, DrawReplay.fillCircle, DrawReplay.drawArc,
        DrawReplay.drawRoundRect, DrawReplay.fillRoundRect, DrawReplay.drawTriangle,
        DrawReplay.fillTriangle, DrawReplay.drawBitmap, drawBitmapBg, DrawReplay.drawXBitmap,
        DrawReplay.drawGrayscaleBitmap, DrawReplay.drawGrayscaleBitmapMask,
        DrawReplay.drawRGBBitmap, DrawReplay.drawRGBBitmapMask, DrawReplay.drawRGB565Bitmap,
        DrawReplay.drawBitmapTriangle, DrawReplay.setCursor, DrawReplay.setTextColor,
        setTextColorBg, setTextColorTransparentBg, DrawReplay.setTextSize, setTextSizeXY,
        DrawReplay.setTextWrap, DrawReplay.setTextRotation, DrawReplay.setFont,
        DrawReplay.drawChar, drawCharXY, print, println, printlnText, DrawReplay.setDrawStyle,
        setStrokeWidth, setLineCap, setLineJoin, setAntiAlias, DrawReplay.setRotation,
        DrawReplay.invertDisplay, DrawReplay.swapBuffers, LinuxGFX.setCursor,
        LinuxGFX.setTextColor, LinuxGFX.setTextSize, LinuxGFX.setTextWrap,
        LinuxGFX.setTextRotation, LinuxGFX.setFont, LinuxGFX.setDrawStyle]

/-- Make a sequence of draw calls. -/
def DRCall.runAll (face : F → GFXfont) (r : DrawReplay F) (cs : List (DRCall F)) : DrawReplay F :=
  cs.foldl (DRCall.run face) r

/-- A sequence of draw calls records the calls they stand for. -/
theorem records_runAll (face : F → GFXfont) :
    ∀ {r : DrawReplay F} (cs : List (DRCall F)), Recording fonts r →
      (∀ c ∈ cs, c.Recordable (Registered r)) →
      Records fonts r (DRCall.runAll face r cs) (DRCall.replayedAll fonts r.gfx.drawStyle cs)
  | r, [], hr, _ => .refl hr
  | r, c :: cs, hr, hcs => by
      have hc := records_run hr face c (hcs c List.mem_cons_self)
      have hreg : Registered (c.run face r) = Registered r := by
        funext f
        rw [Registered, Registered, hc.fontIds]
      have hrest := records_runAll face cs hc.recording fun d hd =>
        hreg ▸ hcs d (List.mem_cons_of_mem _ hd)
      rw [drawStyle_run] at hrest
      exact hc.trans hrest

end Calls

/-! ## The round trip -/

section RoundTrip

variable [DecidableEq F]

/-- A recorder with its fonts registered. -/
def DrawReplay.withFonts (w h : Int16) (regs : List (F × UInt8)) : DrawReplay F :=
  regs.foldl (fun r b => r.registerFont b.1 b.2) (DrawReplay.new w h)

theorem mem_registerFont {r : DrawReplay F} {font : F} {id : UInt8} {b : F × UInt8}
    (hb : b ∈ (r.registerFont font id).fontIds) : b = (font, id) ∨ b ∈ r.fontIds := by
  simp only [registerFont] at hb
  split_ifs at hb
  · obtain ⟨a, ha, rfl⟩ := List.mem_map.mp hb
    by_cases hfont : a.1 = font
    · rw [if_pos hfont, hfont]
      exact .inl rfl
    · rw [if_neg hfont]
      exact .inr ha
  · rcases List.mem_append.mp hb with h | h
    · exact .inr h
    · exact .inl (List.mem_singleton.mp h)

theorem recording_registerFont {fonts : Option (DRFontTable F)} {r : DrawReplay F}
    (hr : Recording fonts r) {font : F} {id : UInt8} (h : DRFontTable.lookup fonts id = some font) :
    Recording fonts (r.registerFont font id) := by
  refine ⟨hr.all, hr.noLimit, hr.live, fun b hb => ?_⟩
  rcases mem_registerFont hb with rfl | hb
  · exact h
  · exact hr.bound b hb

theorem registered_registerFont (r : DrawReplay F) (font : F) (id : UInt8) :
    Registered (r.registerFont font id) font := by
  refine ⟨id, ?_⟩
  simp only [registerFont]
  split_ifs with hany
  · obtain ⟨a, ha, hfont⟩ := List.any_eq_true.mp hany
    rw [decide_eq_true_eq] at hfont
    exact List.mem_map.mpr ⟨a, ha, by rw [if_pos hfont, hfont]⟩
  · exact List.mem_append_right _ List.mem_cons_self

theorem Registered.registerFont {r : DrawReplay F} {f : F} (h : Registered r f) (font : F)
    (id : UInt8) : Registered (r.registerFont font id) f := by
  by_cases hf : f = font
  · rw [hf]
    exact registered_registerFont r font id
  · obtain ⟨i, hi⟩ := h
    refine ⟨i, ?_⟩
    simp only [DrawReplay.registerFont]
    split_ifs
    · exact List.mem_map.mpr ⟨(f, i), hi, if_neg hf⟩
    · exact List.mem_append_left _ hi

/-- Registrations that are bound on the render side keep a recorder recording,
and make their fonts known. -/
theorem recording_registerFonts {fonts : Option (DRFontTable F)} (regs : List (F × UInt8))
    (r : DrawReplay F) (hr : Recording fonts r)
    (h : ∀ b ∈ regs, DRFontTable.lookup fonts b.2 = some b.1) :
    Recording fonts (regs.foldl (fun r b => r.registerFont b.1 b.2) r) ∧
      ∀ f, (Registered r f ∨ ∃ id, (f, id) ∈ regs) →
        Registered (regs.foldl (fun r b => r.registerFont b.1 b.2) r) f := by
  induction regs generalizing r with
  | nil =>
      refine ⟨hr, fun f hf => ?_⟩
      rcases hf with hf | ⟨_, hmem⟩
      · exact hf
      · exact absurd hmem List.not_mem_nil
  | cons b regs ih =>
      obtain ⟨font, id⟩ := b
      have hreg := recording_registerFont hr (h _ List.mem_cons_self)
      obtain ⟨hrec, hknown⟩ := ih _ hreg fun b hb => h b (List.mem_cons_of_mem _ hb)
      refine ⟨hrec, fun f hf => hknown f ?_⟩
      rcases hf with hf | ⟨i, hi⟩
      · exact .inl (hf.registerFont font id)
      · rcases List.mem_cons.mp hi with heq | hi
        · rw [Prod.mk.injEq] at heq
          rw [heq.1]
          exact .inl (registered_registerFont r font id)
        · exact .inr ⟨i, hi⟩

omit [DecidableEq F] in
/-- A call stays recordable when more fonts are known. -/
theorem DRCall.Recordable.mono {known known' : F → Prop} (h : ∀ f, known f → known' f) :
    ∀ {c : DRCall F}, c.Recordable known → c.Recordable known' := by
  intro c hc
  cases c with
  | setFont f => exact fun font hf => h font (hc font hf)
  | setText x y text fg bg sx sy f rot => exact ⟨hc.1, fun font hf => h font (hc.2 font hf)⟩
  | _ => exact hc

omit [DecidableEq F] in
theorem recording_new (fonts : Option (DRFontTable F)) (w h : Int16) :
    Recording fonts (DrawReplay.new w h) :=
  ⟨rfl, rfl, rfl, fun _ hb => absurd hb List.not_mem_nil⟩

/-- Registering fonts leaves the draw style alone, and the stream empty. -/
theorem registerFonts_frame (regs : List (F × UInt8)) (r : DrawReplay F) :
    (regs.foldl (fun r b => r.registerFont b.1 b.2) r).gfx = r.gfx ∧
      (regs.foldl (fun r b => r.registerFont b.1 b.2) r).stream = r.stream := by
  induction regs generalizing r with
  | nil => exact ⟨rfl, rfl⟩
  | cons b regs ih => exact ih (r.registerFont b.1 b.2)

/-- A blob renders to the calls that its draw calls stand for, in order and with
their arguments, when fonts are bound on the render side under the ids they are
registered with and the body length fits in its field. -/
theorem drRender_drExport (face : F → GFXfont) (w h : Int16) (regs : List (F × UInt8))
    (fonts : Option (DRFontTable F))
    (hregs : ∀ b ∈ regs, DRFontTable.lookup fonts b.2 = some b.1) (cs : List (DRCall F))
    (hcs : ∀ c ∈ cs, c.Recordable fun f => ∃ id, (f, id) ∈ regs)
    (hlen : (DRCall.runAll face (DrawReplay.withFonts w h regs) cs).stream.length < 2 ^ 32 - 1) :
    drRender (some (DRCall.runAll face (DrawReplay.withFonts w h regs) cs).drExport) fonts =
      (.ok, DRCall.replayedAll fonts {} cs) := by
  obtain ⟨hrec, hknown⟩ := recording_registerFonts regs _ (recording_new fonts w h) hregs
  obtain ⟨hgfx, hempty⟩ := registerFonts_frame regs (DrawReplay.new w h)
  have hrun := records_runAll face cs hrec fun c hc =>
    (hcs c hc).mono fun f hf => hknown f (.inr hf)
  rw [hgfx] at hrun
  obtain ⟨b, hstream, hcmds⟩ := hrun.stream
  rw [hempty] at hstream
  have hb : (DRCall.runAll face (DrawReplay.withFonts w h regs) cs).stream = b := hstream
  have hbody := bodyBytes_exportHeader hlen
  rw [hb] at hbody
  rw [drExport, hb]
  exact drRender_bytes hcmds hbody

/-- A registered font, a text in it, a bitmap without a background, and a line
of another width. -/
theorem drRender_drExport_scene :
    drRender (some (DRCall.runAll (fun _ : Nat => ⟨fun _ => ⟨6⟩, 32, 8⟩)
        (DrawReplay.withFonts 320 240 [(7, 3)])
        [.setFont (some 7), .print (some [72, 105]), .drawBitmap 1 (-2) (some [0xF0, 0x0F]) 4 2 9,
          .setStrokeWidth 3, .drawLine 0 0 5 5 1, .println]).drExport)
      (some ((DRFontTable.mk []).bind 3 (some 7))) =
    (.ok, [.setFont (some 7), .writeText [72, 105],
      .drawBitmap 1 (-2) [0xF0, 0x0F] 4 2 9 gfxTransparent,
      .setDrawStyle { strokeWidth := 3 }, .drawLine 0 0 5 5 1, .writeText [10]]) := by
  refine drRender_drExport _ 320 240 [(7, 3)] _ ?_ _ ?_ ?_
  · decide
  · simp only [List.forall_mem_cons]
    refine ⟨?_, ?_, ⟨by decide, by decide, _, rfl, by decide⟩, trivial, trivial, trivial, ?_⟩
    · rintro font ⟨⟩
      exact ⟨3, List.mem_cons_self⟩
    · rintro text ⟨⟩
      decide
    · exact fun _ h => absurd h List.not_mem_nil
  · decide

end RoundTrip

end MFoES.Libgfx
