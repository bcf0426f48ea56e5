import MFoES.Libgfx.GfxCall

/-!
# The renderer

`DRRender` reads the header, and then one command after another until `End` or
an error.  It issues calls on its target as it goes, so the result is an error
code and the calls made.

`decodeCmd` is the body of the loop's `switch`.  The command of a call that
fits decodes to that call and nothing is left of it (`reads_decodeCmd`).  By
induction a stream of such commands renders to their calls
(`renderLoop_commands`).
-/

namespace MFoES.Libgfx

open Reading DRReader

variable {F : Type}

/-! ## Fonts on the render side -/

/-- `DR_FONT_BUILTIN`. -/
def drFontBuiltin : UInt8 := 0xFF

/-- `DRFontTable`, by its member `m_fonts`. -/
structure DRFontTable (F : Type) where
  fonts : List (Option F)

namespace DRFontTable

/-- `bind`. -/
def bind (t : DRFontTable F) (id : UInt8) (font : Option F) : DRFontTable F :=
  if id = drFontBuiltin then t
  else
    let resized := t.fonts ++ List.replicate (id.toNat + 1 - t.fonts.length) none
    ⟨resized.set id.toNat font⟩

/-- `get`. -/
def get (t : DRFontTable F) (id : UInt8) : Option F :=
  if id = drFontBuiltin ∨ t.fonts.length ≤ id.toNat then none else t.fonts.getD id.toNat none

/-- `fonts ? fonts->get(id) : nullptr`. -/
def lookup (fonts : Option (DRFontTable F)) (id : UInt8) : Option F :=
  fonts.bind fun t => t.get id

theorem lookup_builtin (fonts : Option (DRFontTable F)) : lookup fonts drFontBuiltin = none := by
  cases fonts with
  | none => rfl
  | some t => simp [lookup, get]

end DRFontTable

/-! ## The commands -/

/-- `extentOk`. -/
def extentOk (w h : Int16) (bytesNeeded : Nat) (rd : DRReader) : Bool :=
  if w ≤ 0 ∨ h ≤ 0 then false else decide (bytesNeeded ≤ rd.remaining)

/-- What a case of the `switch` does: return an error, or break, possibly after
a call. -/
abbrev Decoded (F : Type) := Except DRError (Option (GfxCall F))

/-- `if (rd.ok) target.call(..)`. -/
def issue (c : GfxCall F) : StateM DRReader (Decoded F) := do
  let rd ← get
  pure (.ok (if rd.ok then some c else none))

/-- The checks between the extents of a bitmap and its pixels. -/
def guarded (w h : Int16) (need : Nat) (k : StateM DRReader (Decoded F)) :
    StateM DRReader (Decoded F) := do
  let rd ← get
  if !rd.ok then pure (.ok none)
  else if !extentOk w h need rd then pure (.error .badPayload)
  else k

/-- Issue a call on bytes that may be missing. -/
def issueBytes (bits : Option (List UInt8)) (c : List UInt8 → GfxCall F) :
    StateM DRReader (Decoded F) :=
  match bits with
  | some bits => issue (c bits)
  | none => pure (.ok none)

/-- `rd.u8() != 0`. -/
def DRReader.flag : StateM DRReader Bool := do
  let v ← u8
  pure (v != 0)

/-- The `switch` of `DRRender`.  `End` never gets here. -/
def decodeCmd (fonts : Option (DRFontTable F)) : DROp → StateM DRReader (Decoded F)
  | .endOp => pure (.ok none)
  | .drawPixel => do
      let x ← i16; let y ← i16; let c ← u32
      issue (.drawPixel x y c)
  | .fastVLine => do
      let x ← i16; let y ← i16; let h ← i16; let c ← u32
      issue (.drawFastVLine x y h c)
  | .fastHLine => do
      let x ← i16; let y ← i16; let w ← i16; let c ← u32
      issue (.drawFastHLine x y w c)
  | .line => do
      let x0 ← i16; let y0 ← i16; let x1 ← i16; let y1 ← i16; let c ← u32
      issue (.drawLine x0 y0 x1 y1 c)
  | .rect => do
      let x ← i16; let y ← i16; let w ← i16; let h ← i16; let c ← u32
      issue (.drawRect x y w h c)
  | .fillRect => do
      let x ← i16; let y ← i16; let w ← i16; let h ← i16; let c ← u32
      issue (.fillRect x y w h c)
  | .fillScreen => do
      let c ← u32
      issue (.fillScreen c)
  | .circle => do
      let x ← i16; let y ← i16; let r ← i16; let c ← u32
      issue (.drawCircle x y r c)
  | .fillCircle => do
      let x ← i16; let y ← i16; let r ← i16; let c ← u32
      issue (.fillCircle x y r c)
  | .arc => do
      let x ← i16; let y ← i16; let r ← i16; let a0 ← f32; let a1 ← f32; let c ← u32
      issue (.drawArc x y r a0 a1 c)
  | .roundRect => do
      let x ← i16; let y ← i16; let w ← i16; let h ← i16; let rad ← i16; let c ← u32
      issue (.drawRoundRect x y w h rad c)
  | .fillRoundRect => do
      let x ← i16; let y ← i16; let w ← i16; let h ← i16; let rad ← i16; let c ← u32
      issue (.fillRoundRect x y w h rad c)
  | .triangle => do
      let x0 ← i16; let y0 ← i16; let x1 ← i16; let y1 ← i16; let x2 ← i16; let y2 ← i16
      let c ← u32
      issue (.drawTriangle x0 y0 x1 y1 x2 y2 c)
  | .fillTriangle => do
      let x0 ← i16; let y0 ← i16; let x1 ← i16; let y1 ← i16; let x2 ← i16; let y2 ← i16
      let c ← u32
      issue (.fillTriangle x0 y0 x1 y1 x2 y2 c)
  | .setDrawStyle => do
      let strokeWidth ← u8; let lineCap ← u8; let lineJoin ← u8; let antiAlias ← flag
      issue (.setDrawStyle ⟨strokeWidth, ⟨lineCap⟩, ⟨lineJoin⟩, antiAlias⟩)
  | .setRotation => do
      let r ← u8
      issue (.setRotation r)
  | .invertDisplay => do
      let inv ← flag
      issue (.invertDisplay inv)
  | .setCursor => do
      let x ← i16; let y ← i16
      issue (.setCursor x y)
  | .setTextColor => do
      let fg ← u32; let bg ← u32
      issue (.setTextColor fg bg)
  | .setTextSize => do
      let sx ← u8; let sy ← u8
      issue (.setTextSize sx sy)
  | .setTextWrap => do
      let w ← flag
      issue (.setTextWrap w)
  | .setTextRotation => do
      let r ← u8
      issue (.setTextRotation r)
  | .setFont => do
      let id ← u8
      issue (.setFont (DRFontTable.lookup fonts id))
  | .writeText => do
      let n ← u16; let s ← bytes n.toNat
      issueBytes s fun s => .writeText (cString (s ++ [0]))
  | .drawChar => do
      let x ← i16; let y ← i16; let ch ← u8; let fg ← u32; let bg ← u32; let sx ← u8; let sy ← u8
      issue (.drawChar x y ch fg bg sx sy)
  | .setText => do
      let x ← i16; let y ← i16; let fg ← u32; let bg ← u32; let sx ← u8; let sy ← u8
      let fid ← u8; let rot ← u8; let n ← u16; let s ← bytes n.toNat
      issueBytes s fun s =>
        .setText x y (cString (s ++ [0])) fg bg sx sy (DRFontTable.lookup fonts fid) rot
  | .bitmap1Bit => do
      let x ← i16; let y ← i16; let w ← i16; let h ← i16; let fg ← u32; let bg ← u32
      guarded w h (monoPlaneBytes w h) do
        let bits ← bytes (monoPlaneBytes w h)
        issueBytes bits fun bits => .drawBitmap x y bits w h fg bg
  | .xBitmap => do
      let x ← i16; let y ← i16; let w ← i16; let h ← i16; let fg ← u32
      guarded w h (monoPlaneBytes w h) do
        let bits ← bytes (monoPlaneBytes w h)
        issueBytes bits fun bits => .drawXBitmap x y bits w h fg
  | .grayBitmap => do
      let x ← i16; let y ← i16; let w ← i16; let h ← i16
      guarded w h (pixelCount w h) do
        let px ← bytes (pixelCount w h)
        issueBytes px fun px => .drawGrayscaleBitmap x y px w h
  | .grayBitmapMask => do
      let x ← i16; let y ← i16; let w ← i16; let h ← i16
      guarded w h (pixelCount w h + monoPlaneBytes w h) do
        let px ← bytes (pixelCount w h); let mask ← bytes (monoPlaneBytes w h)
        match px with
        | some px => issueBytes mask fun mask => .drawGrayscaleBitmapMask x y px mask w h
        | none => pure (.ok none)
  | .rgbBitmap => do
      let x ← i16; let y ← i16; let w ← i16; let h ← i16
      guarded w h (pixelCount w h * 4) do
        let argb ← readN u32 (pixelCount w h)
        issue (.drawRGBBitmap x y argb w h)
  | .rgbBitmapMask => do
      let x ← i16; let y ← i16; let w ← i16; let h ← i16
      guarded w h (pixelCount w h * 4 + monoPlaneBytes w h) do
        let argb ← readN u32 (pixelCount w h); let mask ← bytes (monoPlaneBytes w h)
        issueBytes mask fun mask => .drawRGBBitmapMask x y argb mask w h
  | .rgb565Bitmap => do
      let x ← i16; let y ← i16; let w ← i16; let h ← i16
      guarded w h (pixelCount w h * 2) do
        let rgb565 ← readN u16 (pixelCount w h)
        issue (.drawRGB565Bitmap x y rgb565 w h)
  | .bitmapTriangle => do
      let x0 ← i16; let y0 ← i16; let x1 ← i16; let y1 ← i16; let x2 ← i16; let y2 ← i16
      let tw ← i16; let th ← i16
      guarded tw th (pixelCount tw th * 4) do
        let argb ← readN u32 (pixelCount tw th)
        issue (.drawBitmapTriangle x0 y0 x1 y1 x2 y2 argb tw th)
  | .swapBuffers => do
      let autoclear ← flag
      issue (.swapBuffers autoclear)

/-! ## The loop -/

/-- The `for (;;)` of `DRRender` on fuel: the return value and the calls made. -/
def renderLoop (fonts : Option (DRFontTable F)) : Nat → DRReader → DRError × List (GfxCall F)
  | 0, _ => (.truncated, [])
  | fuel + 1, rd =>
      let (opByte, rd) := u8 rd
      if !rd.ok then (.truncated, [])
      else match DROp.ofByte opByte with
        | none => (.unknownOpcode, [])
        | some op =>
            if op = .endOp then (.ok, [])
            else match decodeCmd fonts op rd with
              | (.error e, _) => (e, [])
              | (.ok call, rd) =>
                  if !rd.ok then (.truncated, call.toList)
                  else
                    let r := renderLoop fonts fuel rd
                    (r.1, call.toList ++ r.2)

/-- `DRRender`.  A pass of the loop takes a byte at least, so the declared body
length is fuel enough. -/
def drRender (data : Option (List UInt8)) (fonts : Option (DRFontTable F)) :
    DRError × List (GfxCall F) :=
  match data, drPeek data with
  | _, .error e => (e, [])
  | none, .ok _ => (.truncated, [])
  | some data, .ok hdr =>
      renderLoop fonts (hdr.bodyBytes.toNat + 1)
        (DRReader.new (data.drop drHeaderSize) hdr.bodyBytes.toNat)

/-! ## A command decodes to its call -/

theorem reads_issue (c : GfxCall F) : Reads Holds (issue c) [] (.ok (some c)) :=
  Reads.get_bind fun s L h => by
    rw [h.ok]
    exact Reads.pure _

theorem reads_flag (b : Bool) : Reads Holds flag (putBool b) b := by
  cases b with
  | false => exact (reads_u8 0).map fun v => v != 0
  | true => exact (reads_u8 1).map fun v => v != 0

theorem reads_guarded {w h : Int16} (hwh : GfxCall.FitsExtent w h) {need : Nat}
    {k : StateM DRReader (Decoded F)} {b : List UInt8} {v : Decoded F} (hneed : need = b.length)
    (hk : Reads Holds k b v) : Reads Holds (guarded w h need k) b v :=
  Reads.get_bind fun s L hs => by
    have hw : ¬ (w ≤ 0 ∨ h ≤ 0) := by
      rintro (hle | hle)
      · exact absurd hwh.w_pos (Int16.not_lt.mpr hle)
      · exact absurd hwh.h_pos (Int16.not_lt.mpr hle)
    have hext : extentOk w h need s = true := by
      rw [extentOk, if_neg hw, hs.remaining, List.length_append, hneed]
      exact decide_eq_true (Nat.le_add_right _ _)
    rw [hs.ok, hext]
    exact hk

theorem reads_readN_u32 {px : List UInt32} {n : Nat} (h : px.length = n) :
    Reads Holds (readN u32 n) (px.flatMap putU32) px :=
  h ▸ reads_readN reads_u32 px

theorem reads_readN_u16 {px : List UInt16} {n : Nat} (h : px.length = n) :
    Reads Holds (readN u16 n) (px.flatMap putU16) px :=
  h ▸ reads_readN reads_u16 px

@[simp] theorem length_putU16 (v : UInt16) : (putU16 v).length = 2 := rfl

@[simp] theorem length_putU32 (v : UInt32) : (putU32 v).length = 4 := rfl

theorem GfxCall.FitsText.terminated {text : List UInt8} (h : GfxCall.FitsText text) :
    cString (text ++ [0]) = text := by
  rw [cString_append_nul, h.noNul]

theorem GfxCall.FitsText.toNat {text : List UInt8} (h : GfxCall.FitsText text) :
    text.length = (UInt16.ofNat text.length).toNat := by
  have hle := h.length_le
  rw [UInt16.toNat_ofNat_of_lt' (Nat.lt_succ_of_le hle)]

/-- Bytes that are there reach the call. -/
theorem reads_issueBytes {bits : List UInt8} {c : List UInt8 → GfxCall F} {v : GfxCall F}
    (h : c bits = v) : Reads Holds (issueBytes (some bits) c) [] (.ok (some v)) :=
  h ▸ reads_issue (c bits)

/-- The command of a call that fits decodes to the call. -/
theorem reads_decodeCmd (fonts : Option (DRFontTable F)) (fontId : Option F → UInt8) :
    ∀ c : GfxCall F, c.Fits fontId (DRFontTable.lookup fonts) →
      Reads Holds (decodeCmd fonts c.op) (c.payload fontId).flatten (.ok (some c))
  | .drawPixel x y c, _ => (reads_i16 x).cons <| (reads_i16 y).cons <| (reads_u32 c).cons <|
      reads_issue _
  | .drawFastVLine x y h c, _ => (reads_i16 x).cons <| (reads_i16 y).cons <| (reads_i16 h).cons <|
      (reads_u32 c).cons <| reads_issue _
  | .drawFastHLine x y w c, _ => (reads_i16 x).cons <| (reads_i16 y).cons <| (reads_i16 w).cons <|
      (reads_u32 c).cons <| reads_issue _
  | .drawLine x0 y0 x1 y1 c, _ => (reads_i16 x0).cons <| (reads_i16 y0).cons <|
      (reads_i16 x1).cons <| (reads_i16 y1).cons <| (reads_u32 c).cons <| reads_issue _
  | .drawRect x y w h c, _ => (reads_i16 x).cons <| (reads_i16 y).cons <| (reads_i16 w).cons <|
      (reads_i16 h).cons <| (reads_u32 c).cons <| reads_issue _
  | .fillRect x y w h c, _ => (reads_i16 x).cons <| (reads_i16 y).cons <| (reads_i16 w).cons <|
      (reads_i16 h).cons <| (reads_u32 c).cons <| reads_issue _
  | .fillScreen c, _ => (reads_u32 c).cons <| reads_issue _
  | .drawCircle x y r c, _ => (reads_i16 x).cons <| (reads_i16 y).cons <| (reads_i16 r).cons <|
      (reads_u32 c).cons <| reads_issue _
  | .fillCircle x y r c, _ => (reads_i16 x).cons <| (reads_i16 y).cons <| (reads_i16 r).cons <|
      (reads_u32 c).cons <| reads_issue _
  | .drawArc x y r a0 a1 c, _ => (reads_i16 x).cons <| (reads_i16 y).cons <| (reads_i16 r).cons <|
      (reads_f32 a0).cons <| (reads_f32 a1).cons <| (reads_u32 c).cons <| reads_issue _
  | .drawRoundRect x y w h r c, _ => (reads_i16 x).cons <| (reads_i16 y).cons <|
      (reads_i16 w).cons <| (reads_i16 h).cons <| (reads_i16 r).cons <| (reads_u32 c).cons <|
      reads_issue _
  | .fillRoundRect x y w h r c, _ => (reads_i16 x).cons <| (reads_i16 y).cons <|
      (reads_i16 w).cons <| (reads_i16 h).cons <| (reads_i16 r).cons <| (reads_u32 c).cons <|
      reads_issue _
  | .drawTriangle x0 y0 x1 y1 x2 y2 c, _ => (reads_i16 x0).cons <| (reads_i16 y0).cons <|
      (reads_i16 x1).cons <| (reads_i16 y1).cons <| (reads_i16 x2).cons <| (reads_i16 y2).cons <|
      (reads_u32 c).cons <| reads_issue _
  | .fillTriangle x0 y0 x1 y1 x2 y2 c, _ => (reads_i16 x0).cons <| (reads_i16 y0).cons <|
      (reads_i16 x1).cons <| (reads_i16 y1).cons <| (reads_i16 x2).cons <| (reads_i16 y2).cons <|
      (reads_u32 c).cons <| reads_issue _
  | .setDrawStyle s, _ => (reads_u8 s.strokeWidth).cons <| (reads_u8 s.lineCap.toByte).cons <|
      (reads_u8 s.lineJoin.toByte).cons <| (reads_flag s.antiAlias).cons <| reads_issue _
  | .setRotation r, _ => (reads_u8 r).cons <| reads_issue _
  | .invertDisplay i, _ => (reads_flag i).cons <| reads_issue _
  | .setCursor x y, _ => (reads_i16 x).cons <| (reads_i16 y).cons <| reads_issue _
  | .setTextColor c bg, _ => (reads_u32 c).cons <| (reads_u32 bg).cons <| reads_issue _
  | .setTextSize sx sy, _ => (reads_u8 sx).cons <| (reads_u8 sy).cons <| reads_issue _
  | .setTextWrap w, _ => (reads_flag w).cons <| reads_issue _
  | .setTextRotation r, _ => (reads_u8 r).cons <| reads_issue _
  | .setFont f, h => (reads_u8 (fontId f)).cons <| by
      change DRFontTable.lookup fonts (fontId f) = f at h
      rw [h]
      exact reads_issue _
  | .writeText text, h => (reads_u16 _).cons <| (reads_bytes text (GfxCall.FitsText.toNat h)).cons <|
      reads_issueBytes (congrArg GfxCall.writeText (GfxCall.FitsText.terminated h))
  | .drawChar x y c fg bg sx sy, _ => (reads_i16 x).cons <| (reads_i16 y).cons <|
      (reads_u8 c).cons <| (reads_u32 fg).cons <| (reads_u32 bg).cons <| (reads_u8 sx).cons <|
      (reads_u8 sy).cons <| reads_issue _
  | .setText x y text fg bg sx sy font rot, h => (reads_i16 x).cons <| (reads_i16 y).cons <|
      (reads_u32 fg).cons <| (reads_u32 bg).cons <| (reads_u8 sx).cons <| (reads_u8 sy).cons <|
      (reads_u8 (fontId font)).cons <| (reads_u8 rot).cons <| (reads_u16 _).cons <|
      (reads_bytes text (GfxCall.FitsText.toNat h.1)).cons <|
      reads_issueBytes (by rw [GfxCall.FitsText.terminated h.1, h.2])
  | .drawBitmap x y bits w h fg bg, hf => (reads_i16 x).cons <| (reads_i16 y).cons <|
      (reads_i16 w).cons <| (reads_i16 h).cons <| (reads_u32 fg).cons <| (reads_u32 bg).cons <|
      reads_guarded hf.1 (by simp [hf.2]) <| (reads_bytes bits hf.2).cons <| reads_issueBytes rfl
  | .drawXBitmap x y bits w h fg, hf => (reads_i16 x).cons <| (reads_i16 y).cons <|
      (reads_i16 w).cons <| (reads_i16 h).cons <| (reads_u32 fg).cons <|
      reads_guarded hf.1 (by simp [hf.2]) <| (reads_bytes bits hf.2).cons <| reads_issueBytes rfl
  | .drawGrayscaleBitmap x y px w h, hf => (reads_i16 x).cons <| (reads_i16 y).cons <|
      (reads_i16 w).cons <| (reads_i16 h).cons <|
      reads_guarded hf.1 (by simp [hf.2]) <| (reads_bytes px hf.2).cons <| reads_issueBytes rfl
  | .drawGrayscaleBitmapMask x y px mask w h, hf => (reads_i16 x).cons <| (reads_i16 y).cons <|
      (reads_i16 w).cons <| (reads_i16 h).cons <|
      reads_guarded hf.1 (by simp [hf.2.1, hf.2.2]) <| (reads_bytes px hf.2.1).cons <|
      (reads_bytes mask hf.2.2).cons <| reads_issueBytes rfl
  | .drawRGBBitmap x y px w h, hf => (reads_i16 x).cons <| (reads_i16 y).cons <|
      (reads_i16 w).cons <| (reads_i16 h).cons <|
      reads_guarded hf.1 (by simp [hf.2]) <|
      (reads_readN_u32 hf.2).cons <| reads_issue _
  | .drawRGBBitmapMask x y px mask w h, hf => (reads_i16 x).cons <| (reads_i16 y).cons <|
      (reads_i16 w).cons <| (reads_i16 h).cons <|
      reads_guarded hf.1 (by simp [hf.2.1, hf.2.2]) <|
      (reads_readN_u32 hf.2.1).cons <| (reads_bytes mask hf.2.2).cons <| reads_issueBytes rfl
  | .drawRGB565Bitmap x y px w h, hf => (reads_i16 x).cons <| (reads_i16 y).cons <|
      (reads_i16 w).cons <| (reads_i16 h).cons <|
      reads_guarded hf.1 (by simp [hf.2]) <|
      (reads_readN_u16 hf.2).cons <| reads_issue _
  | .drawBitmapTriangle x0 y0 x1 y1 x2 y2 px w h, hf => (reads_i16 x0).cons <|
      (reads_i16 y0).cons <| (reads_i16 x1).cons <| (reads_i16 y1).cons <| (reads_i16 x2).cons <|
      (reads_i16 y2).cons <| (reads_i16 w).cons <| (reads_i16 h).cons <|
      reads_guarded hf.1 (by simp [hf.2]) <|
      (reads_readN_u32 hf.2).cons <| reads_issue _
  | .swapBuffers autoclear, _ => (reads_flag autoclear).cons <| reads_issue _

/-! ## A stream renders to its calls -/

theorem GfxCall.op_ne_endOp (c : GfxCall F) : c.op ≠ .endOp := by
  cases c <;> exact DROp.noConfusion

/-- A pass over the command of a call that fits makes that call. -/
theorem renderLoop_cons (fonts : Option (DRFontTable F)) (fontId : Option F → UInt8)
    {c : GfxCall F} (hc : c.Fits fontId (DRFontTable.lookup fonts)) {rd : DRReader}
    {L : List UInt8} (h : rd.Holds (c.encode fontId ++ L)) (fuel : Nat) :
    ∃ rd' : DRReader, rd'.Holds L ∧ renderLoop fonts (fuel + 1) rd =
      ((renderLoop fonts fuel rd').1, c :: (renderLoop fonts fuel rd').2) := by
  rw [GfxCall.encode, List.append_assoc] at h
  obtain ⟨rd₁, hbyte, h₁⟩ := (reads_u8 c.op.toByte).run h
  obtain ⟨rd₂, hcall, h₂⟩ := (reads_decodeCmd fonts fontId c hc).run h₁
  refine ⟨rd₂, h₂, ?_⟩
  simp only [renderLoop, hbyte, h₁.ok, DROp.ofByte_toByte, if_neg c.op_ne_endOp, hcall, h₂.ok,
    Bool.not_true, Bool.false_eq_true, if_false, Option.toList_some, List.singleton_append]

/-- The end of the stream ends the loop. -/
theorem renderLoop_end (fonts : Option (DRFontTable F)) {rd : DRReader} {L : List UInt8}
    (h : rd.Holds (DROp.endOp.toByte :: L)) (fuel : Nat) :
    renderLoop fonts (fuel + 1) rd = (.ok, []) := by
  obtain ⟨rd₁, hbyte, h₁⟩ := (reads_u8 DROp.endOp.toByte).run h
  simp only [renderLoop, hbyte, h₁.ok, DROp.ofByte_toByte, Bool.not_true, Bool.false_eq_true,
    if_false, if_true]

/-- `b` is a sequence of commands of the calls `cs`.  Each command has ids for
its fonts that the render side resolves. -/
inductive Commands (fonts : Option (DRFontTable F)) : List UInt8 → List (GfxCall F) → Prop
  | nil : Commands fonts [] []
  | cons {c : GfxCall F} {fontId : Option F → UInt8} {b : List UInt8} {cs : List (GfxCall F)}
      (fits : c.Fits fontId (DRFontTable.lookup fonts)) (rest : Commands fonts b cs) :
      Commands fonts (c.encode fontId ++ b) (c :: cs)

namespace Commands

variable {fonts : Option (DRFontTable F)} {b b' : List UInt8} {cs cs' : List (GfxCall F)}

theorem single {c : GfxCall F} {fontId : Option F → UInt8}
    (h : c.Fits fontId (DRFontTable.lookup fonts)) : Commands fonts (c.encode fontId) [c] := by
  have hc := Commands.cons h .nil
  rw [List.append_nil] at hc
  exact hc

theorem append (h : Commands fonts b cs) (h' : Commands fonts b' cs') :
    Commands fonts (b ++ b') (cs ++ cs') := by
  induction h with
  | nil => exact h'
  | cons fits _ ih =>
      rw [List.append_assoc]
      exact .cons fits ih

/-- A command has an opcode at least. -/
theorem length_le (h : Commands fonts b cs) : cs.length ≤ b.length := by
  induction h with
  | nil => exact Nat.le_refl _
  | cons fits _ ih =>
      simp only [GfxCall.encode, putU8, List.length_cons, List.length_append, List.length_nil]
      omega

end Commands

/-- A stream of commands renders to their calls. -/
theorem renderLoop_commands {fonts : Option (DRFontTable F)} {b : List UInt8}
    {cs : List (GfxCall F)} (h : Commands fonts b cs) :
    ∀ {fuel : Nat} {rd : DRReader}, rd.Holds (b ++ [DROp.endOp.toByte]) → cs.length < fuel →
      renderLoop fonts fuel rd = (.ok, cs) := by
  induction h with
  | nil =>
      rintro (_ | fuel) rd hrd hfuel
      · exact absurd hfuel (Nat.not_lt_zero _)
      · exact renderLoop_end fonts hrd fuel
  | cons fits _ ih =>
      rintro (_ | fuel) rd hrd hfuel
      · exact absurd hfuel (Nat.not_lt_zero _)
      · rw [List.append_assoc] at hrd
        obtain ⟨rd', hrd', hstep⟩ := renderLoop_cons fonts _ fits hrd fuel
        rw [hstep, ih hrd' (Nat.lt_of_succ_lt_succ hfuel)]

/-! ## The header -/

/-- A header as `DRExport` writes it, with no flags. -/
def DRHeader.bytes (hdr : DRHeader) : List UInt8 :=
  drSyncMagic ++ [putU16 drVersion, putU16 0, putI16 hdr.width, putI16 hdr.height,
    putU32 hdr.cmdCount, putU32 hdr.bodyBytes].flatten

@[simp] theorem DRHeader.length_bytes (hdr : DRHeader) : hdr.bytes.length = drHeaderSize := rfl

theorem reads_readHeader (version flags : UInt16) (hdr : DRHeader) :
    Reads Holds readHeader
      [putU16 version, putU16 flags, putI16 hdr.width, putI16 hdr.height, putU32 hdr.cmdCount,
        putU32 hdr.bodyBytes].flatten (version, hdr) :=
  (reads_u16 version).cons <| (reads_u16 flags).cons <| (reads_i16 hdr.width).cons <|
    (reads_i16 hdr.height).cons <| (reads_u32 hdr.cmdCount).cons <|
    (reads_u32 hdr.bodyBytes).cons <| Reads.pure _

/-- A header is read back, if its body is there. -/
theorem drPeek_header (hdr : DRHeader) (body : List UInt8) :
    drPeek (some (hdr.bytes ++ body)) =
      if body.length < hdr.bodyBytes.toNat then .error .truncated else .ok hdr := by
  have hnew := @holds_new (hdr.bytes.drop 4 ++ body) (drHeaderSize - 4) (by simp [drHeaderSize])
  have htake : (hdr.bytes.drop 4 ++ body).take (drHeaderSize - 4) = hdr.bytes.drop 4 ++ [] := by
    rw [List.append_nil]
    exact List.take_left' rfl
  rw [htake] at hnew
  obtain ⟨rd, hread, hrd⟩ := (reads_readHeader drVersion 0 hdr).run hnew
  have hlong : ¬ (hdr.bytes ++ body).length < drHeaderSize := by
    rw [List.length_append, hdr.length_bytes]
    omega
  have hmagic : (hdr.bytes ++ body).take 4 = drSyncMagic := rfl
  have hdrop : (hdr.bytes ++ body).drop 4 = hdr.bytes.drop 4 ++ body := rfl
  have hbody : (hdr.bytes ++ body).length - drHeaderSize = body.length := by
    rw [List.length_append, hdr.length_bytes, Nat.add_sub_cancel_left]
  simp only [drPeek, if_neg hlong, hmagic, ne_eq, not_true_eq_false, if_false, hdrop, hread, hrd.ok,
    UInt16.lt_irrefl, Bool.not_true, Bool.false_eq_true, hbody]

theorem drPeek_bytes (hdr : DRHeader) {body : List UInt8} (h : hdr.bodyBytes.toNat ≤ body.length) :
    drPeek (some (hdr.bytes ++ body)) = .ok hdr := by
  rw [drPeek_header, if_neg (Nat.not_lt.mpr h)]

/-- A header whose body is not all there ends the rendering. -/
theorem drRender_short {fonts : Option (DRFontTable F)} (hdr : DRHeader) {body : List UInt8}
    (h : body.length < hdr.bodyBytes.toNat) :
    drRender (some (hdr.bytes ++ body)) fonts = (.truncated, []) := by
  have hpeek := drPeek_header hdr body
  rw [if_pos h] at hpeek
  simp only [drRender, hpeek]

/-- A header and a body of commands render to the calls. -/
theorem drRender_bytes {fonts : Option (DRFontTable F)} {hdr : DRHeader} {b : List UInt8}
    {cs : List (GfxCall F)} (h : Commands fonts b cs)
    (hbody : hdr.bodyBytes.toNat = b.length + 1) :
    drRender (some (hdr.bytes ++ (b ++ [DROp.endOp.toByte]))) fonts = (.ok, cs) := by
  have hlen : (b ++ [DROp.endOp.toByte]).length = hdr.bodyBytes.toNat := by
    rw [List.length_append, hbody, List.length_singleton]
  have hnew := @holds_new (b ++ [DROp.endOp.toByte]) _ (Nat.le_of_eq hlen.symm)
  rw [← hlen, List.take_length] at hnew
  have hdrop : (hdr.bytes ++ (b ++ [DROp.endOp.toByte])).drop drHeaderSize =
      b ++ [DROp.endOp.toByte] := List.drop_left' hdr.length_bytes
  have hcs := h.length_le
  simp only [drRender, drPeek_bytes hdr (Nat.le_of_eq hlen.symm), hdrop]
  exact renderLoop_commands h (hlen ▸ hnew) (by omega)

end MFoES.Libgfx
