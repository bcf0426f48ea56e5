import MFoES.Libgfx.Recorder

/-!
# The text state of a recorder and of its target

A text call on a recorder runs the base implementation with drawing suppressed, so that the
cursor stays in step with what the renderer will compute.  A target runs the same
implementation when the blob is rendered.

The commands in the stream take a target from where it started to the text state of the
recorder (`InStep`).  Every call on that state keeps this, except one: a font set by an id that
the recorder has no font for is null on the target, and stays what it is on the recorder.
-/

namespace MFoES.Libgfx

variable {F : Type}

/-! ## What a call does to its target -/

/-- Make a call.  Drawing leaves these members alone. -/
def GfxCall.apply (face : F → GFXfont) (g : LinuxGFX F) : GfxCall F → LinuxGFX F
  | setDrawStyle style => g.setDrawStyle style
  | setRotation r => g.setRotation r
  | invertDisplay i => { g with inverted := i }
  | setCursor x y => g.setCursor x y
  | setTextColor c bg => g.setTextColor c bg
  | setTextSize sx sy => g.setTextSize sx sy
  | setTextWrap w => g.setTextWrap w
  | setTextRotation rotation => g.setTextRotation rotation
  | setFont f => g.setFont f
  | writeText text => g.writeText face text
  | setText x y text color bgColor sizeX sizeY font rotation =>
      g.setText face x y text color bgColor sizeX sizeY font rotation
  | _ => g

/-- Make all of them. -/
def GfxCall.applyAll (face : F → GFXfont) (g : LinuxGFX F) (cs : List (GfxCall F)) : LinuxGFX F :=
  cs.foldl (GfxCall.apply face) g

/-! ## The same text state -/

/-- Two surfaces have the same text state and the same size. -/
structure SameText (g g' : LinuxGFX F) : Prop where
  width : g.width = g'.width
  height : g.height = g'.height
  cursorX : g.cursorX = g'.cursorX
  cursorY : g.cursorY = g'.cursorY
  textColor : g.textColor = g'.textColor
  textBgColor : g.textBgColor = g'.textBgColor
  textSizeX : g.textSizeX = g'.textSizeX
  textSizeY : g.textSizeY = g'.textSizeY
  textRotation : g.textRotation = g'.textRotation
  textWrap : g.textWrap = g'.textWrap
  rotation : g.rotation = g'.rotation
  font : g.font = g'.font

namespace SameText

variable {face : F → GFXfont} {g g' : LinuxGFX F}

theorem refl (g : LinuxGFX F) : SameText g g :=
  ⟨rfl, rfl, rfl, rfl, rfl, rfl, rfl, rfl, rfl, rfl, rfl, rfl⟩

theorem lineStep (h : SameText g g') : g.lineStep face = g'.lineStep face := by
  rw [LinuxGFX.lineStep, LinuxGFX.lineStep, h.textSizeY, h.font]

theorem charStep (h : SameText g g') (c : UInt8) : g.charStep face c = g'.charStep face c := by
  rw [LinuxGFX.charStep, LinuxGFX.charStep, h.textSizeX, h.font]

theorem newLine (h : SameText g g') (left : Int16) :
    SameText (g.newLine face left) (g'.newLine face left) := by
  have hstep : g.lineStep face = g'.lineStep face := h.lineStep
  refine { h with cursorX := rfl, cursorY := ?_ }
  show Int16.ofInt (g.cursorY.toInt + g.lineStep face) =
    Int16.ofInt (g'.cursorY.toInt + g'.lineStep face)
  rw [h.cursorY, hstep]

theorem advanceChar (h : SameText g g') (left : Int16) (c : UInt8) :
    SameText (g.advanceChar face left c) (g'.advanceChar face left c) := by
  have hadv : g.charStep face c = g'.charStep face c := h.charStep c
  -- the wrap is decided on what the two have in common
  have hwrap : SameText
      (if g.textWrap ∧ g.width.toInt < g.cursorX.toInt + g.charStep face c then
        g.newLine face left else g)
      (if g'.textWrap ∧ g'.width.toInt < g'.cursorX.toInt + g'.charStep face c then
        g'.newLine face left else g') := by
    rw [h.textWrap, h.width, h.cursorX, hadv]
    split
    · exact h.newLine left
    · exact h
  rw [LinuxGFX.advanceChar, LinuxGFX.advanceChar]
  split
  · exact h.newLine left
  · split
    · exact h
    · refine { hwrap with cursorX := ?_ }
      dsimp only
      rw [hwrap.cursorX, hadv]

/-- A text is laid out in the same way, newlines, wraps and advances. -/
theorem layout (h : SameText g g') (left : Int16) (text : List UInt8) :
    SameText (text.foldl (LinuxGFX.advanceChar face left) g)
      (text.foldl (LinuxGFX.advanceChar face left) g') := by
  induction text generalizing g g' with
  | nil => exact h
  | cons c text ih => exact ih (h.advanceChar left c)

theorem writeText (h : SameText g g') (text : List UInt8) :
    SameText (g.writeText face text) (g'.writeText face text) :=
  h.layout 0 (cString text)

/-- The lines of a rotated text start where the cursor is. -/
theorem writeTextRotated (h : SameText g g') (text : List UInt8) :
    SameText (g.writeTextRotated face text) (g'.writeTextRotated face text) := by
  rw [LinuxGFX.writeTextRotated, LinuxGFX.writeTextRotated, h.cursorX]
  exact h.layout g'.cursorX (cString text)

theorem setText (h : SameText g g') (x y : Int16) (text : List UInt8) (color bgColor : UInt32)
    (sizeX sizeY : UInt8) (font : Option F) (rotation : UInt8) :
    SameText (g.setText face x y text color bgColor sizeX sizeY font rotation)
      (g'.setText face x y text color bgColor sizeX sizeY font rotation) := by
  have hset : SameText
      (((((g.setCursor x y).setTextColor color bgColor).setTextSize sizeX sizeY).setFont
        font).setTextRotation rotation)
      (((((g'.setCursor x y).setTextColor color bgColor).setTextSize sizeX sizeY).setFont
        font).setTextRotation rotation) :=
    ⟨h.width, h.height, rfl, rfl, rfl, rfl, rfl, rfl, rfl, h.textWrap, h.rotation, rfl⟩
  rw [LinuxGFX.setText, LinuxGFX.setText]
  split_ifs
  · exact hset.writeText text
  · exact hset.writeTextRotated text

theorem setRotation (h : SameText g g') (r : UInt8) :
    SameText (g.setRotation r) (g'.setRotation r) := by
  rw [LinuxGFX.setRotation, LinuxGFX.setRotation]
  split_ifs
  · exact ⟨h.height, h.width, h.cursorX, h.cursorY, h.textColor, h.textBgColor, h.textSizeX,
      h.textSizeY, h.textRotation, h.textWrap, rfl, h.font⟩
  · exact { h with rotation := rfl }

/-- A call does the same to the same text state. -/
theorem apply (h : SameText g g') (c : GfxCall F) :
    SameText (c.apply face g) (c.apply face g') := by
  cases c with
  | setDrawStyle style => exact { h with }
  | setRotation r => exact h.setRotation r
  | invertDisplay i => exact { h with }
  | setCursor x y => exact { h with cursorX := rfl, cursorY := rfl }
  | setTextColor c bg => exact { h with textColor := rfl, textBgColor := rfl }
  | setTextSize sx sy => exact { h with textSizeX := rfl, textSizeY := rfl }
  | setTextWrap w => exact { h with textWrap := rfl }
  | setTextRotation rotation => exact { h with textRotation := rfl }
  | setFont f => exact { h with font := rfl }
  | writeText text => exact h.writeText text
  | setText x y text color bgColor sizeX sizeY font rotation =>
      exact h.setText x y text color bgColor sizeX sizeY font rotation
  | _ => exact h

end SameText

open DrawReplay

/-! ## Calls on the text state -/

/-- The text, style, font and rotation calls: texts fit in a command, and fonts are null or
satisfy `known`. -/
def DRCall.Textual (known : F → Prop) : DRCall F → Prop
  | setCursor .. | setTextColor .. | setTextColorBg .. | setTextColorTransparentBg .. => True
  | setTextSize .. | setTextSizeXY .. | setTextWrap .. | setTextRotation .. => True
  | setFont f => ∀ font ∈ f, known font
  | setFontId .. | drawChar .. | drawCharXY .. | writeTextF .. | println => True
  | writeText text | print text | printlnText text => ShortText text
  | setText _ _ text _ _ _ _ f _ => ShortText text ∧ ∀ font ∈ f, known font
  | setDrawStyle .. | setStrokeWidth .. | setLineCap .. | setLineJoin .. | setAntiAlias .. => True
  | setRotation .. | invertDisplay .. => True
  | _ => False

/-- A font set by its id is the built-in one, or `known` has the id. -/
def DRCall.KnownId (known : UInt8 → Prop) : DRCall F → Prop
  | setFontId id => id = drFontBuiltin ∨ known id
  | _ => True

/-- A recorder has recorded nothing yet and will record text and style.  The target has the
recorder's fonts, text state and size. -/
structure Starts (fonts : Option (DRFontTable F)) (target : LinuxGFX F) (r : DrawReplay F) :
    Prop where
  empty : r.stream = []
  text : r.recordMask &&& drRecText ≠ 0
  style : r.recordMask &&& drRecStyle ≠ 0
  bound : ∀ b ∈ r.fontIds, DRFontTable.lookup fonts b.2 = some b.1
  same : SameText target r.gfx

/-- The export brings a target to the text state of the recorder. -/
def Mirrors (fonts : Option (DRFontTable F)) (face : F → GFXfont) (target : LinuxGFX F)
    (r : DrawReplay F) : Prop :=
  SameText (GfxCall.applyAll face target (drRender (some r.drExport) fonts).2) r.gfx

/-! ## Every call keeps the two in step -/

/-- The commands in the stream bring a target to the text state of the recorder, whose fonts are
`regs`. -/
structure InStep (fonts : Option (DRFontTable F)) (face : F → GFXfont) (target : LinuxGFX F)
    (regs : List (F × UInt8)) (r : DrawReplay F) : Prop where
  text : r.recordMask &&& drRecText ≠ 0
  style : r.recordMask &&& drRecStyle ≠ 0
  fontIds : r.fontIds = regs
  bound : ∀ b ∈ regs, DRFontTable.lookup fonts b.2 = some b.1
  body : ∃ cs, Commands fonts r.stream cs ∧ SameText (GfxCall.applyAll face target cs) r.gfx

theorem Starts.inStep {fonts : Option (DRFontTable F)} {face : F → GFXfont}
    {target : LinuxGFX F} {r : DrawReplay F} (h : Starts fonts target r) :
    InStep fonts face target r.fontIds r where
  text := h.text
  style := h.style
  fontIds := rfl
  bound := h.bound
  body := by
    rw [h.empty]
    exact ⟨[], .nil, h.same⟩

/-- A feature in the mask is recorded, if nothing is inline. -/
theorem record_of_mask {r : DrawReplay F} {feature : UInt32} (h : r.recordMask &&& feature ≠ 0)
    (op : DROp) (payload : List (List UInt8)) :
    r.record feature op payload = (r.beginCmd op).put payload := by
  have hallow : r.allow feature 0 = (r, true) := by
    rw [allow, if_neg h, if_neg]
    exact fun hlim => Nat.not_lt_zero _ hlim.2
  rw [record, hallow]

namespace InStep

variable {fonts : Option (DRFontTable F)} {face : F → GFXfont} {target : LinuxGFX F}
  {regs : List (F × UInt8)} {r : DrawReplay F}

/-- A recorder that does to its own members what the command does to the target's. -/
theorem emit (h : InStep fonts face target regs r) {feature : UInt32}
    (hf : r.recordMask &&& feature ≠ 0) (c : GfxCall F) (fontId : Option F → UInt8)
    (hc : c.Fits fontId (DRFontTable.lookup fonts)) {payload : List (List UInt8)}
    (hp : payload = c.payload fontId) {f : LinuxGFX F → LinuxGFX F}
    (heq : c.apply face r.gfx = f r.gfx) :
    InStep fonts face target regs ((r.record feature c.op payload).base f) := by
  obtain ⟨cs, hcs, hsame⟩ := h.body
  rw [record_of_mask hf, hp]
  refine ⟨h.text, h.style, h.fontIds, h.bound, cs ++ [c], ?_, ?_⟩
  · show Commands fonts ((r.stream ++ putU8 c.op.toByte) ++ (c.payload fontId).flatten) (cs ++ [c])
    rw [List.append_assoc]
    exact hcs.append (.single hc)
  · show SameText (GfxCall.applyAll face target (cs ++ [c])) (f r.gfx)
    rw [GfxCall.applyAll, List.foldl_append, ← heq]
    exact hsame.apply c

theorem suppressed {f : LinuxGFX F → LinuxGFX F} (h : InStep fonts face target regs (r.base f)) :
    InStep fonts face target regs (r.suppressed f) :=
  ⟨h.text, h.style, h.fontIds, h.bound, h.body⟩

theorem setTextColorBg (h : InStep fonts face target regs r) (c bg : UInt32) :
    InStep fonts face target regs (r.setTextColorBg c bg) :=
  h.emit h.text (.setTextColor c bg) (fun _ => 0) trivial rfl rfl

theorem setTextSizeXY (h : InStep fonts face target regs r) (sx sy : UInt8) :
    InStep fonts face target regs (r.setTextSizeXY sx sy) :=
  h.emit h.text (.setTextSize sx sy) (fun _ => 0) trivial rfl rfl

theorem setDrawStyle (h : InStep fonts face target regs r) (style : GFXDrawStyle) :
    InStep fonts face target regs (r.setDrawStyle style) :=
  h.emit h.style (.setDrawStyle style) (fun _ => 0) trivial rfl rfl

/-- A character goes where it is told, not where the cursor is. -/
theorem drawCharXY (h : InStep fonts face target regs r) (x y : Int16) (c : UInt8)
    (color bg : UInt32) (sx sy : UInt8) :
    InStep fonts face target regs (r.drawCharXY x y c color bg sx sy) :=
  h.emit (f := id) h.text (.drawChar x y c color bg sx sy) (fun _ => 0) trivial rfl rfl

/-- The layout that is suppressed here is the layout of the target. -/
theorem writeText (h : InStep fonts face target regs r) {text : Option (List UInt8)}
    (hshort : DRCall.ShortText text) : InStep fonts face target regs (r.writeText face text) := by
  cases text with
  | none => exact h
  | some text =>
      have hlen : (cString text).length ≤ 0xFFFF := hshort text rfl
      rw [DrawReplay.writeText]
      split_ifs
      · exact h
      · have hlayout : r.gfx.writeText face (cString text) = r.gfx.writeText face text := by
          rw [LinuxGFX.writeText, LinuxGFX.writeText, cString_idem]
        exact (h.emit (f := fun g => g.writeText face text) h.text (.writeText (cString text))
          (fun _ => 0) (fitsText_cString hlen) (putText_eq hlen) hlayout).suppressed

theorem writeTextF (h : InStep fonts face target regs r) (formatted : Option (List UInt8)) :
    InStep fonts face target regs (r.writeTextF face formatted) := by
  cases formatted with
  | none => exact h
  | some out =>
      rw [DrawReplay.writeTextF]
      split_ifs
      · exact h
      · refine h.writeText ?_
        rintro text ⟨⟩
        have hle : (out.take 511 ++ [0]).length ≤ 512 := by
          rw [List.length_append]
          exact Nat.add_le_add_right (List.length_take_le 511 out) 1
        exact (List.takeWhile_sublist _).length_le.trans (hle.trans (by decide))

theorem println (h : InStep fonts face target regs r) :
    InStep fonts face target regs (r.println face) :=
  h.writeText (by rintro text ⟨⟩; decide)

/-- An id that is known has one font on both sides. -/
theorem setFontId (h : InStep fonts face target regs r) {id : UInt8}
    (hid : id = drFontBuiltin ∨ ∃ font, (font, id) ∈ regs) :
    InStep fonts face target regs (r.setFontId id) := by
  have hset (f : Option F) (hf : DRFontTable.lookup fonts id = f) :
      InStep fonts face target regs
        ((r.record drRecText .setFont [putU8 id]).base fun g => g.setFont f) :=
    h.emit (f := fun g => g.setFont f) h.text (.setFont f) (fun _ => id) hf rfl rfl
  have hids : (r.record drRecText .setFont [putU8 id]).fontIds = regs := by
    rw [record_of_mask h.text]
    exact h.fontIds
  rw [DrawReplay.setFontId, hids]
  cases hfind : regs.find? fun b => b.2 = id with
  | some b =>
      have hb := List.find?_some hfind
      rw [decide_eq_true_eq] at hb
      refine hset (some b.1) ?_
      rw [← hb]
      exact h.bound b (List.mem_of_find?_eq_some hfind)
  | none =>
      rcases hid with hbuiltin | ⟨font, hmem⟩
      · rw [if_pos hbuiltin]
        refine hset none ?_
        rw [hbuiltin]
        exact DRFontTable.lookup_builtin fonts
      · have hne := List.find?_eq_none.mp hfind (font, id) hmem
        exact absurd (decide_eq_true rfl) hne

variable [DecidableEq F]

/-- A font that the recorder has an id for is bound to the id. -/
theorem lookup_fontId (h : InStep fonts face target regs r) {f : Option F}
    (hf : ∀ font ∈ f, ∃ id, (font, id) ∈ regs) : DRFontTable.lookup fonts (r.fontId f) = f := by
  refine Libgfx.lookup_fontId ?_ ?_
  · rw [h.fontIds]
    exact h.bound
  · intro font hfont
    rw [Registered, h.fontIds]
    exact hf font hfont

theorem setText (h : InStep fonts face target regs r) (x y : Int16) {text : Option (List UInt8)}
    (color bgColor : UInt32) (sizeX sizeY : UInt8) {f : Option F} (rotation : UInt8)
    (hshort : DRCall.ShortText text) (hf : ∀ font ∈ f, ∃ id, (font, id) ∈ regs) :
    InStep fonts face target regs
      (r.setText face x y text color bgColor sizeX sizeY f rotation) := by
  cases text with
  | none => exact h
  | some text =>
      have hlen : (cString text).length ≤ 0xFFFF := hshort text rfl
      have hlayout : r.gfx.setText face x y (cString text) color bgColor sizeX sizeY f rotation =
          r.gfx.setText face x y text color bgColor sizeX sizeY f rotation := by
        simp only [LinuxGFX.setText, LinuxGFX.writeText, LinuxGFX.writeTextRotated, cString_idem]
      rw [DrawReplay.setText, putText_eq hlen]
      exact (h.emit (f := fun g => g.setText face x y text color bgColor sizeX sizeY f rotation)
        h.text (.setText x y (cString text) color bgColor sizeX sizeY f rotation) r.fontId
        ⟨fitsText_cString hlen, h.lookup_fontId hf⟩ rfl hlayout).suppressed

/-- A call on the text state keeps the two in step. -/
theorem run (h : InStep fonts face target regs r) {c : DRCall F}
    (hc : c.Textual fun font => ∃ id, (font, id) ∈ regs)
    (hid : c.KnownId fun id => ∃ font, (font, id) ∈ regs) :
    InStep fonts face target regs (c.run face r) := by
  cases c with
  | setCursor x y =>
      exact h.emit h.text (.setCursor x y) (fun _ => 0) trivial rfl rfl
  | setTextColor c => exact h.setTextColorBg c gfxTransparent
  | setTextColorBg c bg => exact h.setTextColorBg c bg
  | setTextColorTransparentBg c => exact h.setTextColorBg c gfxTransparent
  | setTextSize s => exact h.setTextSizeXY s s
  | setTextSizeXY sx sy => exact h.setTextSizeXY sx sy
  | setTextWrap w =>
      exact h.emit h.text (.setTextWrap w) (fun _ => 0) trivial rfl rfl
  | setTextRotation rotation =>
      exact h.emit h.text (.setTextRotation rotation) (fun _ => 0) trivial rfl rfl
  | setFont f =>
      exact h.emit h.text (.setFont f) r.fontId (h.lookup_fontId hc) rfl rfl
  | setFontId id => exact h.setFontId hid
  | drawChar x y c color bg size => exact h.drawCharXY x y c color bg size size
  | drawCharXY x y c color bg sx sy => exact h.drawCharXY x y c color bg sx sy
  | writeText text => exact h.writeText hc
  | writeTextF formatted => exact h.writeTextF formatted
  | setText x y text color bgColor sizeX sizeY f rotation =>
      exact h.setText x y color bgColor sizeX sizeY rotation hc.1 hc.2
  | print text => exact h.writeText hc
  | printlnText text => exact (h.writeText hc).println
  | println => exact h.println
  | setDrawStyle style => exact h.setDrawStyle style
  | setStrokeWidth width => exact h.setDrawStyle _
  | setLineCap cap => exact h.setDrawStyle _
  | setLineJoin join => exact h.setDrawStyle _
  | setAntiAlias enable => exact h.setDrawStyle _
  | setRotation rotation =>
      exact h.emit h.style (.setRotation rotation) (fun _ => 0) trivial rfl rfl
  | invertDisplay i =>
      exact h.emit h.style (.invertDisplay i) (fun _ => 0) trivial rfl rfl
  | _ => exact absurd hc id

/-- So does a sequence of them. -/
theorem runAll (h : InStep fonts face target regs r) {cs : List (DRCall F)}
    (hcs : ∀ c ∈ cs, c.Textual (fun font => ∃ id, (font, id) ∈ regs) ∧
      c.KnownId fun id => ∃ font, (font, id) ∈ regs) :
    InStep fonts face target regs (DRCall.runAll face r cs) := by
  induction cs generalizing r with
  | nil => exact h
  | cons c cs ih =>
      have hc := hcs c List.mem_cons_self
      exact ih (h.run hc.1 hc.2) fun d hd => hcs d (List.mem_cons_of_mem c hd)

omit [DecidableEq F] in
/-- A recorder that is in step exports its text state. -/
theorem mirrors (h : InStep fonts face target regs r) (hlen : r.stream.length < 2 ^ 32 - 1) :
    (drRender (some r.drExport) fonts).1 = .ok ∧ Mirrors fonts face target r := by
  obtain ⟨cs, hcs, hsame⟩ := h.body
  rw [Mirrors, WellFormed.drRender hcs hlen]
  exact ⟨rfl, hsame⟩

end InStep

/-! ## The recorder's text state is the target's -/

section Mirror

variable [DecidableEq F]

/-- After a rendered export, the text state of the target is that of the recorder. -/
theorem mirrors_runAll (face : F → GFXfont) (fonts : Option (DRFontTable F))
    (target : LinuxGFX F) (r : DrawReplay F) (hstart : Starts fonts target r)
    (cs : List (DRCall F))
    (hcs : ∀ c ∈ cs, c.Textual (fun font => ∃ id, (font, id) ∈ r.fontIds) ∧
      c.KnownId fun id => ∃ font, (font, id) ∈ r.fontIds)
    (hlen : (DRCall.runAll face r cs).stream.length < 2 ^ 32 - 1) :
    (drRender (some (DRCall.runAll face r cs).drExport) fonts).1 = .ok ∧
      Mirrors fonts face target (DRCall.runAll face r cs) :=
  (hstart.inStep.runAll hcs).mirrors hlen

end Mirror

/-- A font of one size for all characters. -/
def plainFace : Nat → GFXfont := fun _ => ⟨fun _ => ⟨6⟩, 32, 8⟩

/-- Font 7 under the id 3. -/
def plainFonts : Option (DRFontTable Nat) := some ((DRFontTable.mk []).bind 3 (some 7))

/-- A surface of the size of the recorders below. -/
def plainTarget : LinuxGFX Nat := { LinuxGFX.canvas with width := 320, height := 240 }

theorem starts_plain : Starts plainFonts plainTarget (DrawReplay.withFonts 320 240 [(7, 3)]) where
  empty := rfl
  text := by decide
  style := by decide
  bound := by decide
  same := .refl _

theorem recording_plain : Recording plainFonts (DrawReplay.withFonts 320 240 [(7, 3)]) where
  all := rfl
  noLimit := rfl
  live := rfl
  bound := starts_plain.bound

/-- A font by its id, a turned surface, a text that wraps on it, and a rotated text. -/
theorem mirrors_scene :
    Mirrors plainFonts plainFace plainTarget
      (DRCall.runAll plainFace (DrawReplay.withFonts 320 240 [(7, 3)])
        [.setFontId 3, .setTextSize 9, .setRotation 1, .print (some [72, 105, 10, 72, 101, 108]),
          .setText 1 (-2) (some [72, 105]) 9 0 2 2 (some 7) 90, .println]) := by
  refine (mirrors_runAll plainFace plainFonts plainTarget _ starts_plain _ ?_ ?_).2
  · simp only [List.forall_mem_cons]
    refine ⟨⟨trivial, .inr ⟨7, List.mem_cons_self⟩⟩, ⟨trivial, trivial⟩, ⟨trivial, trivial⟩,
      ⟨?_, trivial⟩, ⟨⟨?_, ?_⟩, trivial⟩, ⟨trivial, trivial⟩, ?_⟩
    · rintro text ⟨⟩
      decide
    · rintro text ⟨⟩
      decide
    · rintro font ⟨⟩
      exact ⟨3, List.mem_cons_self⟩
    · exact fun _ h => absurd h List.not_mem_nil
  · decide

/-- An id that neither side knows. -/
theorem drRender_unknownId :
    drRender (some (DRCall.runAll plainFace (DrawReplay.withFonts 320 240 [(7, 3)])
      [.setFont (some 7), .setFontId 9]).drExport) plainFonts =
    (.ok, [.setFont (some 7), .setFont none]) := by
  obtain ⟨b, hb, hcs⟩ := (records_runAll plainFace [.setFont (some 7), .setFontId 9]
    recording_plain (by
    simp only [List.forall_mem_cons]
    refine ⟨?_, trivial, fun _ h => absurd h List.not_mem_nil⟩
    rintro font ⟨⟩
    exact ⟨3, List.mem_cons_self⟩)).stream
  refine WellFormed.drRender ?_ (by decide)
  rw [hb]
  exact hcs

/-- After `n + 1` calls the cursor is where the last one put it. -/
theorem cursorX_moveCursors (r : DrawReplay Nat) (n : Nat) :
    (DRCall.runAll plainFace r (List.replicate (n + 1) moveCursor)).gfx.cursorX = 1 := by
  rw [DRCall.runAll, List.replicate_succ', List.foldl_append]
  rfl

/-- With an id that neither side knows the fonts differ, and a body too long for its header is
not rendered. -/
theorem not_mirrors :
    (¬ ∀ (face : Nat → GFXfont) (fonts : Option (DRFontTable Nat)) (target : LinuxGFX Nat)
      (r : DrawReplay Nat), Starts fonts target r → ∀ cs : List (DRCall Nat),
      (∀ c ∈ cs, c.Textual fun font => ∃ id, (font, id) ∈ r.fontIds) →
        (DRCall.runAll face r cs).stream.length < 2 ^ 32 - 1 →
          Mirrors fonts face target (DRCall.runAll face r cs)) ∧
    ¬ ∀ (face : Nat → GFXfont) (fonts : Option (DRFontTable Nat)) (target : LinuxGFX Nat)
      (r : DrawReplay Nat), Starts fonts target r → ∀ cs : List (DRCall Nat),
      (∀ c ∈ cs, c.Textual (fun font => ∃ id, (font, id) ∈ r.fontIds) ∧
        c.KnownId fun id => ∃ font, (font, id) ∈ r.fontIds) →
          Mirrors fonts face target (DRCall.runAll face r cs) := by
  constructor
  · intro h
    have hmirror := h plainFace plainFonts plainTarget _ starts_plain
      [.setFont (some 7), .setFontId 9] (by
        simp only [List.forall_mem_cons]
        refine ⟨?_, trivial, fun _ h => absurd h List.not_mem_nil⟩
        rintro font ⟨⟩
        exact ⟨3, List.mem_cons_self⟩) (by decide)
    rw [Mirrors, drRender_unknownId] at hmirror
    exact absurd hmirror.font (by decide)
  · intro h
    obtain ⟨n, hn⟩ : ∃ n, 5 * (n + 1) = 2 ^ 32 - 1 := ⟨858993458, by decide⟩
    have hmirror := h plainFace plainFonts plainTarget _ starts_plain
      (List.replicate (n + 1) moveCursor) fun c hc => by
        rw [List.eq_of_mem_replicate hc]
        exact ⟨trivial, trivial⟩
    have hlen : (DRCall.runAll plainFace (DrawReplay.withFonts 320 240 [(7, 3)])
        (List.replicate (n + 1) moveCursor)).stream.length = 2 ^ 32 - 1 := by
      rw [length_moveCursors plainFace recording_plain, hn]
      exact Nat.zero_add _
    rw [Mirrors, drRender_wrapped hlen] at hmirror
    have hcursor := hmirror.cursorX
    rw [cursorX_moveCursors] at hcursor
    exact absurd hcursor (by decide)

end MFoES.Libgfx
