import Mathlib.Data.List.TakeWhile
import MFoES.Libgfx.RoundTrip

/-!
# What the recorder has recorded

A recorder is used in three ways: by its own draw calls, by calls through a `LinuxGFX`
reference, and by the calls that set it up.  A call through a reference runs a base
implementation, which reaches the recorder only by the virtual functions.  So does the base
implementation that a text call runs in its `SuppressScope`, and there the virtual functions
return at once.  What a base implementation does is not fixed here: it is any sequence of
`BaseStep`.

Whatever is called, the stream is as many commands as the counter says (`WellFormed`).
-/

namespace MFoES.Libgfx

variable {F : Type}

/-! ## Base implementations -/

namespace DrawReplay

section Hooks

variable (r : DrawReplay F)

/-- `setPixel`. -/
def setPixel (x y : Int16) (color : UInt32) : DrawReplay F :=
  r.recordPrimitive drRecPixel .drawPixel [putI16 x, putI16 y, putU32 color]

/-- `drawFastVLineInternal`. -/
def drawFastVLineInternal (x y h : Int16) (color : UInt32) : DrawReplay F :=
  r.recordPrimitive drRecGeometry .fastVLine [putI16 x, putI16 y, putI16 h, putU32 color]

/-- `drawFastHLineInternal`. -/
def drawFastHLineInternal (x y w : Int16) (color : UInt32) : DrawReplay F :=
  r.recordPrimitive drRecGeometry .fastHLine [putI16 x, putI16 y, putI16 w, putU32 color]

end Hooks

end DrawReplay

/-- A call of a virtual function of `LinuxGFX`. -/
inductive VirtualCall where
  | drawPixel (x y : Int16) (color : UInt32)
  | drawFastVLine (x y h : Int16) (color : UInt32)
  | drawFastHLine (x y w : Int16) (color : UInt32)
  | fillScreen (color : UInt32)
  | setPixel (x y : Int16) (color : UInt32)
  | getPixel (x y : Int16)
  | drawFastVLineInternal (x y h : Int16) (color : UInt32)
  | drawFastHLineInternal (x y w : Int16) (color : UInt32)

/-- The override.  `getPixel` returns 0 and does nothing else. -/
def VirtualCall.run (r : DrawReplay F) : VirtualCall → DrawReplay F
  | drawPixel x y color => r.drawPixel x y color
  | drawFastVLine x y h color => r.drawFastVLine x y h color
  | drawFastHLine x y w color => r.drawFastHLine x y w color
  | fillScreen color => r.fillScreen color
  | setPixel x y color => r.setPixel x y color
  | getPixel _ _ => r
  | drawFastVLineInternal x y h color => r.drawFastVLineInternal x y h color
  | drawFastHLineInternal x y w color => r.drawFastHLineInternal x y w color

/-- A step of a base implementation: a virtual call, or a change of its own members. -/
inductive BaseStep (F : Type) where
  | virtual (c : VirtualCall)
  | members (f : LinuxGFX F → LinuxGFX F)

/-- Make a step. -/
def BaseStep.run (r : DrawReplay F) : BaseStep F → DrawReplay F
  | .virtual c => c.run r
  | .members f => r.base f

/-- What a step does to the members of the base class. -/
def BaseStep.effect (g : LinuxGFX F) : BaseStep F → LinuxGFX F
  | .virtual _ => g
  | .members f => f g

/-- The base implementations of the text calls, step by step. -/
structure BaseText (F : Type) where
  writeText (g : LinuxGFX F) (text : List UInt8) : List (BaseStep F)
  setText (g : LinuxGFX F) (x y : Int16) (text : List UInt8) (color bgColor : UInt32)
    (sizeX sizeY : UInt8) (font : Option F) (rotation : UInt8) : List (BaseStep F)

/-- The steps do to the members what the base implementations do. -/
structure BaseText.Faithful (face : F → GFXfont) (impl : BaseText F) : Prop where
  writeText (g : LinuxGFX F) (text : List UInt8) :
    (impl.writeText g text).foldl BaseStep.effect g = g.writeText face text
  setText (g : LinuxGFX F) (x y : Int16) (text : List UInt8) (color bgColor : UInt32)
    (sizeX sizeY : UInt8) (font : Option F) (rotation : UInt8) :
    (impl.setText g x y text color bgColor sizeX sizeY font rotation).foldl BaseStep.effect g =
      g.setText face x y text color bgColor sizeX sizeY font rotation

/-- Base implementations of blank fonts, which draw nothing. -/
def BaseText.blank (face : F → GFXfont) : BaseText F where
  writeText _ text := [.members fun g => g.writeText face text]
  setText _ x y text color bgColor sizeX sizeY font rotation :=
    [.members fun g => g.setText face x y text color bgColor sizeX sizeY font rotation]

theorem BaseText.faithful_blank (face : F → GFXfont) : (blank face).Faithful face :=
  ⟨fun _ _ => rfl, fun _ _ _ _ _ _ _ _ _ _ => rfl⟩

namespace DrawReplay

/-- Run a base implementation, with what it calls. -/
def baseSteps (r : DrawReplay F) (steps : List (BaseStep F)) : DrawReplay F :=
  steps.foldl BaseStep.run r

/-- The same in a `SuppressScope`. -/
def suppressScope (r : DrawReplay F) (steps : List (BaseStep F)) : DrawReplay F :=
  { ({ r with suppress := true } : DrawReplay F).baseSteps steps with suppress := false }

theorem recordPrimitive_of_suppress {r : DrawReplay F} (h : r.suppress = true) (feature : UInt32)
    (op : DROp) (payload : List (List UInt8)) : r.recordPrimitive feature op payload = r := by
  rw [recordPrimitive, if_pos h]

/-- A suppressed recorder ignores its virtual functions. -/
theorem run_of_suppress {r : DrawReplay F} (h : r.suppress = true) (c : VirtualCall) :
    c.run r = r := by
  cases c with
  | getPixel x y => rfl
  | drawPixel x y color => exact recordPrimitive_of_suppress h _ _ _
  | drawFastVLine x y l color => exact recordPrimitive_of_suppress h _ _ _
  | drawFastHLine x y l color => exact recordPrimitive_of_suppress h _ _ _
  | fillScreen color => exact recordPrimitive_of_suppress h _ _ _
  | setPixel x y color => exact recordPrimitive_of_suppress h _ _ _
  | drawFastVLineInternal x y l color => exact recordPrimitive_of_suppress h _ _ _
  | drawFastHLineInternal x y l color => exact recordPrimitive_of_suppress h _ _ _

theorem baseSteps_of_suppress {r : DrawReplay F} (h : r.suppress = true)
    (steps : List (BaseStep F)) :
    r.baseSteps steps = r.base fun g => steps.foldl BaseStep.effect g := by
  induction steps generalizing r with
  | nil => rfl
  | cons step steps ih =>
      cases step with
      | virtual c =>
          rw [baseSteps, List.foldl_cons, BaseStep.run, run_of_suppress h]
          exact ih h
      | members f => exact ih h

/-- What is drawn in a `SuppressScope` does not matter. -/
theorem suppressScope_eq (r : DrawReplay F) (steps : List (BaseStep F)) :
    r.suppressScope steps = r.suppressed fun g => steps.foldl BaseStep.effect g := by
  rw [suppressScope, baseSteps_of_suppress rfl]
  rfl

/-! ## Text calls with what they draw -/

/-- `writeText`. -/
def writeTextBy (impl : BaseText F) (r : DrawReplay F) (text : Option (List UInt8)) :
    DrawReplay F :=
  match text with
  | none => r
  | some text =>
      if cString text = [] then r
      else
        let r := r.record drRecText .writeText (putText text)
        r.suppressScope (impl.writeText r.gfx text)

/-- `writeTextF`. -/
def writeTextFBy (impl : BaseText F) (r : DrawReplay F) (formatted : Option (List UInt8)) :
    DrawReplay F :=
  match formatted with
  | none => r
  | some out => if out = [] then r else r.writeTextBy impl (some (out.take 511 ++ [0]))

/-- `setText`. -/
def setTextBy [DecidableEq F] (impl : BaseText F) (r : DrawReplay F) (x y : Int16)
    (text : Option (List UInt8)) (color bgColor : UInt32) (sizeX sizeY : UInt8) (font : Option F)
    (rotation : UInt8) : DrawReplay F :=
  match text with
  | none => r
  | some text =>
      let r := r.record drRecText .setText
        ([putI16 x, putI16 y, putU32 color, putU32 bgColor, putU8 sizeX, putU8 sizeY,
          putU8 (r.fontId font), putU8 rotation] ++ putText text)
      r.suppressScope (impl.setText r.gfx x y text color bgColor sizeX sizeY font rotation)

end DrawReplay

open DrawReplay

section Calls

variable [DecidableEq F] (face : F → GFXfont) (impl : BaseText F)

/-- Make a draw call, with what the base implementation of a text call draws. -/
@[reducible] def DRCall.runBy (r : DrawReplay F) : DRCall F → DrawReplay F
  | writeText text => r.writeTextBy impl text
  | writeTextF formatted => r.writeTextFBy impl formatted
  | setText x y text color bgColor sizeX sizeY font rotation =>
      r.setTextBy impl x y text color bgColor sizeX sizeY font rotation
  | print text => r.writeTextBy impl text
  | printlnText text => (r.writeTextBy impl text).writeTextBy impl (some [10])
  | println => r.writeTextBy impl (some [10])
  | c => c.run face r

variable {face impl}

omit [DecidableEq F] in
theorem writeTextBy_eq (h : impl.Faithful face) (r : DrawReplay F) (text : Option (List UInt8)) :
    r.writeTextBy impl text = r.writeText face text := by
  cases text with
  | none => rfl
  | some text =>
      rw [writeTextBy, writeText]
      split_ifs
      · rfl
      · dsimp only
        rw [suppressScope_eq, suppressed, suppressed, h.writeText]

omit [DecidableEq F] in
theorem writeTextFBy_eq (h : impl.Faithful face) (r : DrawReplay F)
    (formatted : Option (List UInt8)) :
    r.writeTextFBy impl formatted = r.writeTextF face formatted := by
  cases formatted with
  | none => rfl
  | some out =>
      rw [writeTextFBy, writeTextF]
      split_ifs
      · rfl
      · exact writeTextBy_eq h r _

theorem setTextBy_eq (h : impl.Faithful face) (r : DrawReplay F) (x y : Int16)
    (text : Option (List UInt8)) (color bgColor : UInt32) (sizeX sizeY : UInt8) (font : Option F)
    (rotation : UInt8) :
    r.setTextBy impl x y text color bgColor sizeX sizeY font rotation =
      r.setText face x y text color bgColor sizeX sizeY font rotation := by
  cases text with
  | none => rfl
  | some text =>
      rw [setTextBy, DrawReplay.setText, suppressScope_eq, suppressed, suppressed, h.setText]

/-- With what the base implementations do to the members, this is the draw call. -/
theorem DRCall.runBy_eq (h : impl.Faithful face) (r : DrawReplay F) (c : DRCall F) :
    c.runBy face impl r = c.run face r := by
  cases c with
  | writeText text => exact writeTextBy_eq h r text
  | writeTextF formatted => exact writeTextFBy_eq h r formatted
  | setText x y text color bgColor sizeX sizeY font rotation =>
      exact setTextBy_eq h r x y text color bgColor sizeX sizeY font rotation
  | print text => exact writeTextBy_eq h r text
  | printlnText text =>
      show (r.writeTextBy impl text).writeTextBy impl (some [10]) = _
      rw [writeTextBy_eq h, writeTextBy_eq h]
      rfl
  | println => exact writeTextBy_eq h r (some [10])
  | _ => rfl

end Calls

/-! ## Everything a recorder can be asked for -/

/-- The memory at a bitmap that is drawn is there. -/
def Backs {α : Type} (bitmap : Option (List α)) (w h : Int16) (n : Nat) : Prop :=
  ∀ p ∈ bitmap, 0 < w → 0 < h → n ≤ p.length

/-- The memory at the bitmaps of a call is there. -/
def DRCall.Backed : DRCall F → Prop
  | drawBitmap _ _ bitmap w h _ => Backs bitmap w h (monoPlaneBytes w h)
  | drawBitmapBg _ _ bitmap w h _ _ => Backs bitmap w h (monoPlaneBytes w h)
  | drawXBitmap _ _ bitmap w h _ => Backs bitmap w h (monoPlaneBytes w h)
  | drawGrayscaleBitmap _ _ bitmap w h => Backs bitmap w h (pixelCount w h)
  | drawGrayscaleBitmapMask _ _ bitmap mask w h =>
      Backs bitmap w h (pixelCount w h) ∧ Backs mask w h (monoPlaneBytes w h)
  | drawRGBBitmap _ _ bitmap w h => Backs bitmap w h (pixelCount w h)
  | drawRGBBitmapMask _ _ bitmap mask w h =>
      Backs bitmap w h (pixelCount w h) ∧ Backs mask w h (monoPlaneBytes w h)
  | drawRGB565Bitmap _ _ bitmap w h => Backs bitmap w h (pixelCount w h)
  | drawBitmapTriangle _ _ _ _ _ _ bitmap texW texH =>
      Backs bitmap texW texH (pixelCount texW texH)
  | _ => True

/-- What a recorder can be asked for. -/
inductive Action (F : Type) where
  /-- A draw call on the recorder. -/
  | direct (c : DRCall F) (backed : c.Backed)
  /-- A call through a `LinuxGFX` reference. -/
  | reference (steps : List (BaseStep F))
  | drSetRecordMask (mask : UInt32)
  | drIgnore (features : UInt32)
  | drAllow (features : UInt32)
  | setMaxInlineBytes (bytes : Nat)
  | registerFont (font : Option F) (id : UInt8)
  | drFlush
  | drReset

namespace DrawReplay

/-- `DRFlush`. -/
def drFlush (r : DrawReplay F) : DrawReplay F := { r with stream := [], cmdCount := 0, skipped := 0 }

/-- `DRReset`. -/
def drReset (r : DrawReplay F) : DrawReplay F :=
  { r.drFlush with
    fontIds := []
    gfx := { (LinuxGFX.canvas : LinuxGFX F) with width := r.gfx.width, height := r.gfx.height } }

/-- `exportSize`. -/
def exportSize (r : DrawReplay F) : Nat := drHeaderSize + r.stream.length + 1

/-- `DRExport` into a vector: what it returns, and the vector. -/
def drExportTo (r : DrawReplay F) (out : List UInt8) : Nat × List UInt8 :=
  let out' := out ++ r.drExport
  (out'.length - out.length, out')

end DrawReplay

section Actions

variable [DecidableEq F] (face : F → GFXfont) (impl : BaseText F)

/-- Do it. -/
def Action.run (r : DrawReplay F) : Action F → DrawReplay F
  | direct c _ => c.runBy face impl r
  | reference steps => r.baseSteps steps
  | drSetRecordMask mask => { r with recordMask := mask }
  | drIgnore features => { r with recordMask := r.recordMask &&& ~~~features }
  | drAllow features => { r with recordMask := r.recordMask ||| features }
  | setMaxInlineBytes bytes => { r with maxInlineBytes := bytes }
  | registerFont none _ => r
  | registerFont (some font) id => r.registerFont font id
  | drFlush => r.drFlush
  | drReset => r.drReset

/-- Do all of it. -/
def Action.runAll (r : DrawReplay F) (actions : List (Action F)) : DrawReplay F :=
  actions.foldl (Action.run face impl) r

end Actions

/-! ## What a call adds -/

/-- From `r` to `r'` the commands of `cs` were added. -/
structure Adds (fonts : Option (DRFontTable F)) (r r' : DrawReplay F) (cs : List (GfxCall F)) :
    Prop where
  stream : ∃ b, r'.stream = r.stream ++ b ∧ Commands fonts b cs
  cmdCount : r'.cmdCount = r.cmdCount + cs.length
  live : r.suppress = false → r'.suppress = false

/-- At most `n` commands were added. -/
def AddsUpTo (fonts : Option (DRFontTable F)) (n : Nat) (r r' : DrawReplay F) : Prop :=
  ∃ cs, Adds fonts r r' cs ∧ cs.length ≤ n

section Adding

variable {fonts : Option (DRFontTable F)} {r r' r'' : DrawReplay F} {n m : Nat}

theorem AddsUpTo.refl (n : Nat) : AddsUpTo fonts n r r :=
  ⟨[], ⟨⟨[], (List.append_nil _).symm, .nil⟩, rfl, id⟩, Nat.zero_le n⟩

theorem AddsUpTo.trans (h : AddsUpTo fonts n r r') (h' : AddsUpTo fonts m r' r'') :
    AddsUpTo fonts (n + m) r r'' := by
  obtain ⟨cs, ⟨⟨b, hb, hcs⟩, hcount, hlive⟩, hn⟩ := h
  obtain ⟨cs', ⟨⟨b', hb', hcs'⟩, hcount', hlive'⟩, hm⟩ := h'
  refine ⟨cs ++ cs', ⟨⟨b ++ b', ?_, hcs.append hcs'⟩, ?_, fun hs => hlive' (hlive hs)⟩, ?_⟩
  · rw [hb', hb, List.append_assoc]
  · rw [hcount', hcount, List.length_append, Nat.add_assoc]
  · rw [List.length_append]
    exact Nat.add_le_add hn hm

theorem AddsUpTo.base (h : AddsUpTo fonts n r r') (f : LinuxGFX F → LinuxGFX F) :
    AddsUpTo fonts n r (r'.base f) := by
  obtain ⟨cs, ⟨hstream, hcount, hlive⟩, hn⟩ := h
  exact ⟨cs, ⟨hstream, hcount, hlive⟩, hn⟩

theorem AddsUpTo.suppressed (h : AddsUpTo fonts n r r') (f : LinuxGFX F → LinuxGFX F) :
    AddsUpTo fonts n r (r'.suppressed f) := by
  obtain ⟨cs, ⟨hstream, hcount, -⟩, hn⟩ := h
  exact ⟨cs, ⟨hstream, hcount, fun _ => rfl⟩, hn⟩

theorem AddsUpTo.live (h : AddsUpTo fonts n r r') (hr : r.suppress = false) :
    r'.suppress = false := by
  obtain ⟨cs, hadds, -⟩ := h
  exact hadds.live hr

/-- A skipped call adds nothing. -/
theorem addsUpTo_allow (r : DrawReplay F) (feature : UInt32) (inlineBytes : Nat) :
    AddsUpTo fonts 0 r (r.allow feature inlineBytes).1 := by
  rw [allow]
  split_ifs
  · exact ⟨[], ⟨⟨[], (List.append_nil _).symm, .nil⟩, rfl, id⟩, Nat.le_refl 0⟩
  · exact ⟨[], ⟨⟨[], (List.append_nil _).symm, .nil⟩, rfl, id⟩, Nat.le_refl 0⟩
  · exact .refl 0

/-- A recorder of a call adds its command or nothing. -/
theorem addsUpTo_record (c : GfxCall F) (fontId : Option F → UInt8)
    (hc : c.Fits fontId (DRFontTable.lookup fonts)) {payload : List (List UInt8)}
    (hp : payload = c.payload fontId) (feature : UInt32) (inlineBytes : Nat) :
    AddsUpTo fonts 1 r (r.record feature c.op payload inlineBytes) := by
  have hallow : AddsUpTo fonts 0 r (r.allow feature inlineBytes).1 :=
    addsUpTo_allow r feature inlineBytes
  rw [record]
  rcases h : r.allow feature inlineBytes with ⟨s, _ | _⟩
  · rw [h] at hallow
    exact hallow.trans (.refl 1)
  · rw [h] at hallow
    have hadds : AddsUpTo fonts 1 s ((s.beginCmd c.op).put payload) := by
      subst hp
      exact ⟨[c], ⟨⟨c.encode fontId, List.append_assoc _ _ _, .single hc⟩, rfl, id⟩, Nat.le_refl 1⟩
    exact hallow.trans hadds

theorem addsUpTo_recordPrimitive (c : GfxCall F) (fontId : Option F → UInt8)
    (hc : c.Fits fontId (DRFontTable.lookup fonts)) {payload : List (List UInt8)}
    (hp : payload = c.payload fontId) (feature : UInt32) :
    AddsUpTo fonts 1 r (r.recordPrimitive feature c.op payload) := by
  rw [recordPrimitive]
  split_ifs
  · exact .refl 1
  · exact addsUpTo_record c fontId hc hp feature 0

/-- A recorder of a bitmap may have returned before. -/
theorem addsUpTo_recordBitmap {α : Type} {bitmap : Option α} {w h : Int16}
    {payload : α → List (List UInt8)} (c : α → GfxCall F) (op : DROp) (fontId : Option F → UInt8)
    (hc : ∀ p ∈ bitmap, GfxCall.FitsExtent w h →
      (c p).op = op ∧ (c p).Fits fontId (DRFontTable.lookup fonts) ∧
        payload p = (c p).payload fontId) (feature : UInt32) (inlineBytes : Nat) :
    AddsUpTo fonts 1 r (r.recordBitmap bitmap w h feature op payload inlineBytes) := by
  cases bitmap with
  | none => exact .refl 1
  | some p =>
      rw [recordBitmap]
      split_ifs with hempty
      · exact .refl 1
      · rw [not_or, Int16.not_le, Int16.not_le] at hempty
        obtain ⟨rfl, hfits, hp⟩ := hc p rfl ⟨hempty.1, hempty.2⟩
        exact addsUpTo_record (c p) fontId hfits hp feature inlineBytes

end Adding

/-! ## Every call adds complete commands -/

section Calls

variable [DecidableEq F] {fonts : Option (DRFontTable F)} {face : F → GFXfont}
  {impl : BaseText F} {r : DrawReplay F}

omit [DecidableEq F] in
theorem addsUpTo_virtual (c : VirtualCall) : AddsUpTo fonts 1 r (c.run r) := by
  have fontId : Option F → UInt8 := fun _ => 0
  cases c with
  | drawPixel x y color =>
      exact addsUpTo_recordPrimitive (.drawPixel x y color) fontId trivial rfl _
  | drawFastVLine x y l color =>
      exact addsUpTo_recordPrimitive (.drawFastVLine x y l color) fontId trivial rfl _
  | drawFastHLine x y l color =>
      exact addsUpTo_recordPrimitive (.drawFastHLine x y l color) fontId trivial rfl _
  | fillScreen color => exact addsUpTo_recordPrimitive (.fillScreen color) fontId trivial rfl _
  | setPixel x y color =>
      exact addsUpTo_recordPrimitive (.drawPixel x y color) fontId trivial rfl _
  | getPixel x y => exact .refl 1
  | drawFastVLineInternal x y l color =>
      exact addsUpTo_recordPrimitive (.drawFastVLine x y l color) fontId trivial rfl _
  | drawFastHLineInternal x y l color =>
      exact addsUpTo_recordPrimitive (.drawFastHLine x y l color) fontId trivial rfl _

omit [DecidableEq F] in
/-- A base implementation adds a command for a virtual call at most. -/
theorem addsUpTo_baseSteps (steps : List (BaseStep F)) :
    AddsUpTo fonts steps.length r (r.baseSteps steps) := by
  induction steps generalizing r with
  | nil => exact .refl 0
  | cons step steps ih =>
      have hstep : AddsUpTo fonts 1 r (step.run r) := by
        cases step with
        | virtual c => exact addsUpTo_virtual c
        | members f => exact (AddsUpTo.refl 1).base f
      have hrest := hstep.trans (ih (r := step.run r))
      rw [Nat.add_comm] at hrest
      exact hrest

theorem cString_take (p : List UInt8) (n : Nat) :
    cString ((cString p).take n) = (cString p).take n := by
  have hall : ∀ c ∈ (cString p).take n, (c != 0) = true := by
    intro c hc
    have hmem : c ∈ p.takeWhile fun c => c != 0 := List.mem_of_mem_take hc
    exact List.mem_takeWhile_imp (p := fun c => c != 0) hmem
  exact List.takeWhile_eq_self_iff.mpr hall

/-- The part of a text that a command carries. -/
def carried (text : List UInt8) : List UInt8 := (cString text).take 0xFFFF

theorem putText_carried (text : List UInt8) : putText text = textBytes (carried text) := by
  have hlen : (carried text).length =
      if 0xFFFF < (cString text).length then 0xFFFF else (cString text).length := by
    rw [carried, List.length_take]
    split_ifs with hlong
    · exact Nat.min_eq_left (Nat.le_of_lt hlong)
    · exact Nat.min_eq_right (Nat.not_lt.mp hlong)
  rw [putText, textBytes, hlen]
  split_ifs with hlong
  · rfl
  · rw [carried, List.take_length, List.take_of_length_le (Nat.not_lt.mp hlong)]

theorem fitsText_carried (text : List UInt8) : GfxCall.FitsText (carried text) :=
  ⟨(List.length_take_le _ _), cString_take text _⟩

omit [DecidableEq F] in
theorem addsUpTo_writeText (text : Option (List UInt8)) :
    AddsUpTo fonts 1 r (r.writeTextBy impl text) := by
  cases text with
  | none => exact .refl 1
  | some text =>
      rw [writeTextBy]
      split_ifs
      · exact .refl 1
      · dsimp only
        rw [suppressScope_eq]
        exact (addsUpTo_record (.writeText (carried text)) (fun _ => 0) (fitsText_carried text)
          (putText_carried text) _ _).suppressed _

omit [DecidableEq F] in
theorem addsUpTo_writeTextF (formatted : Option (List UInt8)) :
    AddsUpTo fonts 1 r (r.writeTextFBy impl formatted) := by
  cases formatted with
  | none => exact .refl 1
  | some out =>
      rw [writeTextFBy]
      split_ifs
      · exact .refl 1
      · exact addsUpTo_writeText _

/-- A font goes by its id, whatever the id is bound to. -/
theorem addsUpTo_setText (x y : Int16) (text : Option (List UInt8)) (color bgColor : UInt32)
    (sizeX sizeY : UInt8) (font : Option F) (rotation : UInt8) :
    AddsUpTo fonts 1 r (r.setTextBy impl x y text color bgColor sizeX sizeY font rotation) := by
  cases text with
  | none => exact .refl 1
  | some text =>
      rw [setTextBy, suppressScope_eq]
      exact (addsUpTo_record (.setText x y (carried text) color bgColor sizeX sizeY
        (DRFontTable.lookup fonts (r.fontId font)) rotation) (fun _ => r.fontId font)
        ⟨fitsText_carried text, rfl⟩ (by rw [putText_carried]; rfl) _ _).suppressed _

omit [DecidableEq F] in
theorem addsUpTo_setFontId (id : UInt8) : AddsUpTo fonts 1 r (r.setFontId id) := by
  have hrecord : AddsUpTo fonts 1 r (r.record drRecText .setFont [putU8 id]) :=
    addsUpTo_record (.setFont (DRFontTable.lookup fonts id)) (fun _ => id) rfl rfl _ _
  rw [setFontId]
  split
  · exact hrecord.base _
  · split_ifs
    · exact hrecord.base _
    · exact hrecord

omit [DecidableEq F] in
theorem addsUpTo_setTextColorBg (c bg : UInt32) : AddsUpTo fonts 1 r (r.setTextColorBg c bg) :=
  (addsUpTo_record (.setTextColor c bg) (fun _ => 0) trivial rfl _ _).base _

omit [DecidableEq F] in
theorem addsUpTo_setTextSizeXY (sx sy : UInt8) : AddsUpTo fonts 1 r (r.setTextSizeXY sx sy) :=
  (addsUpTo_record (.setTextSize sx sy) (fun _ => 0) trivial rfl _ _).base _

omit [DecidableEq F] in
theorem addsUpTo_setDrawStyle (style : GFXDrawStyle) :
    AddsUpTo fonts 1 r (r.setDrawStyle style) :=
  (addsUpTo_record (.setDrawStyle style) (fun _ => 0) trivial rfl _ _).base _

omit [DecidableEq F] in
/-- A bitmap adds its command if it is there. -/
theorem addsUpTo_bitmap {α : Type} {bitmap : Option (List α)} {w h : Int16} {n : Nat}
    (hback : Backs bitmap w h n) {payload : List α → List (List UInt8)}
    (c : List α → GfxCall F) (op : DROp)
    (hc : ∀ p : List α, GfxCall.FitsExtent w h → n ≤ p.length →
      (c p).op = op ∧ (c p).Fits (fun _ => 0) (DRFontTable.lookup fonts) ∧
        payload p = (c p).payload fun _ => 0) (feature : UInt32) (inlineBytes : Nat) :
    AddsUpTo fonts 1 r (r.recordBitmap bitmap w h feature op payload inlineBytes) :=
  addsUpTo_recordBitmap c op (fun _ => 0)
    (fun p hp hwh => hc p hwh (hback p hp hwh.w_pos hwh.h_pos)) feature inlineBytes

omit [DecidableEq F] in
/-- A bitmap with a mask adds its command if both are there. -/
theorem addsUpTo_masked {α β : Type} {bitmap : Option (List α)} {mask : Option (List β)}
    {w h : Int16} {n m : Nat} (hback : Backs bitmap w h n ∧ Backs mask w h m)
    {payload : List α × List β → List (List UInt8)} (c : List α × List β → GfxCall F) (op : DROp)
    (hc : ∀ p : List α × List β, GfxCall.FitsExtent w h → n ≤ p.1.length → m ≤ p.2.length →
      (c p).op = op ∧ (c p).Fits (fun _ => 0) (DRFontTable.lookup fonts) ∧
        payload p = (c p).payload fun _ => 0) (feature : UInt32) (inlineBytes : Nat) :
    AddsUpTo fonts 1 r (r.recordBitmap (both bitmap mask) w h feature op payload inlineBytes) := by
  refine addsUpTo_recordBitmap c op (fun _ => 0) ?_ feature inlineBytes
  rintro ⟨px, plane⟩ hp hwh
  obtain ⟨px', rfl, hplane⟩ := Option.bind_eq_some_iff.mp hp
  obtain ⟨plane', rfl, heq⟩ := Option.map_eq_some_iff.mp hplane
  obtain ⟨rfl, rfl⟩ := Prod.mk.inj heq
  exact hc (px', plane') hwh (hback.1 px' rfl hwh.w_pos hwh.h_pos)
    (hback.2 plane' rfl hwh.w_pos hwh.h_pos)

omit [DecidableEq F] in
theorem addsUpTo_drawBitmapBg (x y : Int16) {bitmap : Option (List UInt8)} {w h : Int16}
    (color bg : UInt32) (hback : Backs bitmap w h (monoPlaneBytes w h)) :
    AddsUpTo fonts 1 r (r.drawBitmapBg x y bitmap w h color bg) :=
  addsUpTo_bitmap hback
    (fun bits => .drawBitmap x y (bits.take (monoPlaneBytes w h)) w h color bg) _
    (fun _ hwh hlen => ⟨rfl, ⟨hwh, List.length_take_of_le hlen⟩, rfl⟩) _ _

/-- The most commands a draw call adds.  A line of text is two calls. -/
@[reducible] def DRCall.mostCommands : DRCall F → Nat
  | printlnText _ => 2
  | _ => 1

theorem addsUpTo_runBy (c : DRCall F) (hc : c.Backed) :
    AddsUpTo fonts c.mostCommands r (c.runBy face impl r) := by
  have fontId : Option F → UInt8 := fun _ => 0
  cases c with
  | drawPixel x y color =>
      exact addsUpTo_recordPrimitive (.drawPixel x y color) fontId trivial rfl _
  | drawFastVLine x y l color =>
      exact addsUpTo_recordPrimitive (.drawFastVLine x y l color) fontId trivial rfl _
  | drawFastHLine x y l color =>
      exact addsUpTo_recordPrimitive (.drawFastHLine x y l color) fontId trivial rfl _
  | fillScreen color => exact addsUpTo_recordPrimitive (.fillScreen color) fontId trivial rfl _
  | drawLine x0 y0 x1 y1 color =>
      exact addsUpTo_record (.drawLine x0 y0 x1 y1 color) fontId trivial rfl _ _
  | drawRect x y w h color =>
      exact addsUpTo_record (.drawRect x y w h color) fontId trivial rfl _ _
  | fillRect x y w h color =>
      exact addsUpTo_record (.fillRect x y w h color) fontId trivial rfl _ _
  | drawCircle x y rad color =>
      exact addsUpTo_record (.drawCircle x y rad color) fontId trivial rfl _ _
  | fillCircle x y rad color =>
      exact addsUpTo_record (.fillCircle x y rad color) fontId trivial rfl _ _
  | drawArc x y rad a0 a1 color =>
      exact addsUpTo_record (.drawArc x y rad a0 a1 color) fontId trivial rfl _ _
  | drawRoundRect x y w h rad color =>
      exact addsUpTo_record (.drawRoundRect x y w h rad color) fontId trivial rfl _ _
  | fillRoundRect x y w h rad color =>
      exact addsUpTo_record (.fillRoundRect x y w h rad color) fontId trivial rfl _ _
  | drawTriangle x0 y0 x1 y1 x2 y2 color =>
      exact addsUpTo_record (.drawTriangle x0 y0 x1 y1 x2 y2 color) fontId trivial rfl _ _
  | fillTriangle x0 y0 x1 y1 x2 y2 color =>
      exact addsUpTo_record (.fillTriangle x0 y0 x1 y1 x2 y2 color) fontId trivial rfl _ _
  | drawBitmap x y bitmap w h color => exact addsUpTo_drawBitmapBg x y color _ hc
  | drawBitmapBg x y bitmap w h color bg => exact addsUpTo_drawBitmapBg x y color bg hc
  | drawXBitmap x y bitmap w h color =>
      exact addsUpTo_bitmap hc
        (fun bits => .drawXBitmap x y (bits.take (monoPlaneBytes w h)) w h color) _
        (fun _ hwh hlen => ⟨rfl, ⟨hwh, List.length_take_of_le hlen⟩, rfl⟩) _ _
  | drawGrayscaleBitmap x y bitmap w h =>
      exact addsUpTo_bitmap hc
        (fun px => .drawGrayscaleBitmap x y (px.take (pixelCount w h)) w h) _
        (fun _ hwh hlen => ⟨rfl, ⟨hwh, List.length_take_of_le hlen⟩, by
          simp only [extent_eq hwh]
          rfl⟩) _ _
  | drawGrayscaleBitmapMask x y bitmap mask w h =>
      exact addsUpTo_masked hc
        (fun p => .drawGrayscaleBitmapMask x y (p.1.take (pixelCount w h))
          (p.2.take (monoPlaneBytes w h)) w h) _
        (fun _ hwh hlen hmask =>
          ⟨rfl, ⟨hwh, List.length_take_of_le hlen, List.length_take_of_le hmask⟩, by
            simp only [extent_eq hwh]
            rfl⟩) _ _
  | drawRGBBitmap x y bitmap w h =>
      exact addsUpTo_bitmap hc (fun px => .drawRGBBitmap x y (px.take (pixelCount w h)) w h) _
        (fun _ hwh hlen => ⟨rfl, ⟨hwh, List.length_take_of_le hlen⟩, by
          simp only [extent_eq hwh]
          rfl⟩) _ _
  | drawRGBBitmapMask x y bitmap mask w h =>
      exact addsUpTo_masked hc
        (fun p => .drawRGBBitmapMask x y (p.1.take (pixelCount w h))
          (p.2.take (monoPlaneBytes w h)) w h) _
        (fun _ hwh hlen hmask =>
          ⟨rfl, ⟨hwh, List.length_take_of_le hlen, List.length_take_of_le hmask⟩, by
            simp only [extent_eq hwh]
            rfl⟩) _ _
  | drawRGB565Bitmap x y bitmap w h =>
      exact addsUpTo_bitmap hc (fun px => .drawRGB565Bitmap x y (px.take (pixelCount w h)) w h) _
        (fun _ hwh hlen => ⟨rfl, ⟨hwh, List.length_take_of_le hlen⟩, by
          simp only [extent_eq hwh]
          rfl⟩) _ _
  | drawBitmapTriangle x0 y0 x1 y1 x2 y2 bitmap w h =>
      exact addsUpTo_bitmap hc
        (fun px => .drawBitmapTriangle x0 y0 x1 y1 x2 y2 (px.take (pixelCount w h)) w h) _
        (fun _ hwh hlen => ⟨rfl, ⟨hwh, List.length_take_of_le hlen⟩, by
          simp only [extent_eq hwh]
          rfl⟩) _ _
  | setCursor x y =>
      exact (addsUpTo_record (.setCursor x y) fontId trivial rfl _ _).base _
  | setTextColor color => exact addsUpTo_setTextColorBg color gfxTransparent
  | setTextColorBg color bg => exact addsUpTo_setTextColorBg color bg
  | setTextColorTransparentBg color => exact addsUpTo_setTextColorBg color gfxTransparent
  | setTextSize size => exact addsUpTo_setTextSizeXY size size
  | setTextSizeXY sx sy => exact addsUpTo_setTextSizeXY sx sy
  | setTextWrap wrap =>
      exact (addsUpTo_record (.setTextWrap wrap) fontId trivial rfl _ _).base _
  | setTextRotation rotation =>
      exact (addsUpTo_record (.setTextRotation rotation) fontId trivial rfl _ _).base _
  | setFont font =>
      exact (addsUpTo_record (.setFont (DRFontTable.lookup fonts (r.fontId font)))
        (fun _ => r.fontId font) rfl rfl _ _).base _
  | setFontId id => exact addsUpTo_setFontId id
  | drawChar x y ch color bg size =>
      exact addsUpTo_record (.drawChar x y ch color bg size size) fontId trivial rfl _ _
  | drawCharXY x y ch color bg sx sy =>
      exact addsUpTo_record (.drawChar x y ch color bg sx sy) fontId trivial rfl _ _
  | writeText text => exact addsUpTo_writeText text
  | writeTextF formatted => exact addsUpTo_writeTextF formatted
  | setText x y text color bg sx sy font rotation =>
      exact addsUpTo_setText x y text color bg sx sy font rotation
  | print text => exact addsUpTo_writeText text
  | printlnText text => exact (addsUpTo_writeText text).trans (addsUpTo_writeText _)
  | println => exact addsUpTo_writeText _
  | setDrawStyle style => exact addsUpTo_setDrawStyle style
  | setStrokeWidth width => exact addsUpTo_setDrawStyle _
  | setLineCap cap => exact addsUpTo_setDrawStyle _
  | setLineJoin join => exact addsUpTo_setDrawStyle _
  | setAntiAlias enable => exact addsUpTo_setDrawStyle _
  | setRotation rotation =>
      exact (addsUpTo_record (.setRotation rotation) fontId trivial rfl _ _).base _
  | invertDisplay inverted =>
      exact (addsUpTo_record (.invertDisplay inverted) fontId trivial rfl _ _).base _
  | swapBuffers autoclear =>
      exact addsUpTo_record (.swapBuffers autoclear) fontId trivial rfl _ _

end Calls

/-! ## Well-formed recorders -/

/-- The stream is as many complete commands as the counter says, and nothing is suppressed. -/
structure WellFormed (fonts : Option (DRFontTable F)) (r : DrawReplay F) : Prop where
  body : ∃ cs, Commands fonts r.stream cs ∧ cs.length = r.cmdCount
  live : r.suppress = false

section WellFormed

variable {fonts : Option (DRFontTable F)} {r r' : DrawReplay F}

theorem wellFormed_new (w h : Int16) : WellFormed fonts (DrawReplay.new w h) :=
  ⟨⟨[], .nil, rfl⟩, rfl⟩

theorem WellFormed.adds {n : Nat} (h : WellFormed fonts r) (hadds : AddsUpTo fonts n r r') :
    WellFormed fonts r' := by
  obtain ⟨cs, hcs, hlen⟩ := h.body
  obtain ⟨cs', ⟨⟨b, hb, hcs'⟩, hcount, hlive⟩, -⟩ := hadds
  refine ⟨⟨cs ++ cs', ?_, ?_⟩, hlive h.live⟩
  · rw [hb]
    exact hcs.append hcs'
  · rw [hcount, List.length_append, hlen]

/-- Calls that leave the stream alone. -/
theorem WellFormed.setUp (h : WellFormed fonts r) (hstream : r'.stream = r.stream)
    (hcount : r'.cmdCount = r.cmdCount) (hlive : r'.suppress = r.suppress) :
    WellFormed fonts r' := by
  refine ⟨?_, hlive.trans h.live⟩
  rw [hstream, hcount]
  exact h.body

variable [DecidableEq F] (face : F → GFXfont) (impl : BaseText F)

theorem WellFormed.run (h : WellFormed fonts r) (a : Action F) :
    WellFormed fonts (a.run face impl r) := by
  cases a with
  | direct c backed => exact h.adds (addsUpTo_runBy c backed)
  | reference steps => exact h.adds (addsUpTo_baseSteps steps)
  | drSetRecordMask mask => exact h.setUp rfl rfl rfl
  | drIgnore features => exact h.setUp rfl rfl rfl
  | drAllow features => exact h.setUp rfl rfl rfl
  | setMaxInlineBytes bytes => exact h.setUp rfl rfl rfl
  | registerFont font id =>
      cases font with
      | none => exact h
      | some font => exact h.setUp rfl rfl rfl
  | drFlush => exact ⟨⟨[], .nil, rfl⟩, h.live⟩
  | drReset => exact ⟨⟨[], .nil, rfl⟩, h.live⟩

theorem WellFormed.runAll (h : WellFormed fonts r) (actions : List (Action F)) :
    WellFormed fonts (Action.runAll face impl r actions) := by
  induction actions generalizing r with
  | nil => exact h
  | cons a actions ih => exact ih (h.run face impl a)

end WellFormed

/-! ## Exports -/

/-- An export has the size it says, and its header reads back as long as the length of the body
fits in it. -/
structure Exports (r : DrawReplay F) : Prop where
  size (out : List UInt8) : r.drExportTo out = (r.exportSize, out ++ r.drExport)
  header : r.stream.length < 2 ^ 32 - 1 → ∃ hdr, drPeek (some r.drExport) = .ok hdr ∧
    hdr.cmdCount.toNat = r.cmdCount ∧ hdr.bodyBytes.toNat = r.stream.length + 1

theorem length_drExport (r : DrawReplay F) : r.drExport.length = r.exportSize := by
  rw [drExport, List.length_append, List.length_append, DRHeader.length_bytes, exportSize,
    Nat.add_assoc, List.length_singleton]

theorem drPeek_drExport {r : DrawReplay F}
    (h : r.exportHeader.bodyBytes.toNat ≤ r.stream.length + 1) :
    drPeek (some r.drExport) = .ok r.exportHeader := by
  rw [drExport]
  refine drPeek_bytes r.exportHeader ?_
  rw [List.length_append, List.length_singleton]
  exact h

theorem WellFormed.exports {fonts : Option (DRFontTable F)} {r : DrawReplay F}
    (h : WellFormed fonts r) : Exports r where
  size out := by
    rw [drExportTo, List.length_append, Nat.add_sub_cancel_left, length_drExport]
  header hlen := by
    have hbody := bodyBytes_exportHeader hlen
    obtain ⟨cs, hcs, hcount⟩ := h.body
    have hle := hcs.length_le
    have hfits : r.cmdCount < 2 ^ 32 := by omega
    exact ⟨r.exportHeader, drPeek_drExport (Nat.le_of_eq hbody), UInt32.toNat_ofNat_of_lt' hfits,
      hbody⟩

/-- An export of a well-formed recorder renders to the commands in the stream. -/
theorem WellFormed.drRender {fonts : Option (DRFontTable F)} {r : DrawReplay F}
    {cs : List (GfxCall F)} (hcs : Commands fonts r.stream cs)
    (hlen : r.stream.length < 2 ^ 32 - 1) : drRender (some r.drExport) fonts = (.ok, cs) :=
  drRender_bytes hcs (bodyBytes_exportHeader hlen)

/-! ## Text calls -/

/-- The calls that run a base implementation with drawing suppressed. -/
def DRCall.IsText : DRCall F → Prop
  | writeText _ => True
  | writeTextF _ => True
  | setText .. => True
  | _ => False

/-- A text call adds one command at most, and leaves no trace of what is drawn in it. -/
structure Quiet [DecidableEq F] (fonts : Option (DRFontTable F)) (face : F → GFXfont)
    (impl : BaseText F) (r : DrawReplay F) (c : DRCall F) : Prop where
  adds : AddsUpTo fonts 1 r (c.runBy face impl r)
  live : (c.runBy face impl r).suppress = false
  drawn (impl' : BaseText F) : (c.runBy face impl' r).stream = (c.runBy face impl r).stream ∧
    (c.runBy face impl' r).cmdCount = (c.runBy face impl r).cmdCount ∧
    (c.runBy face impl' r).skipped = (c.runBy face impl r).skipped

section Text

variable [DecidableEq F] {fonts : Option (DRFontTable F)} {face : F → GFXfont}
  {impl : BaseText F} {r : DrawReplay F}

omit [DecidableEq F] in
/-- Two base implementations differ in the members at most. -/
theorem suppressScope_frame (steps steps' : List (BaseStep F)) :
    (r.suppressScope steps').stream = (r.suppressScope steps).stream ∧
      (r.suppressScope steps').cmdCount = (r.suppressScope steps).cmdCount ∧
      (r.suppressScope steps').skipped = (r.suppressScope steps).skipped := by
  rw [suppressScope_eq, suppressScope_eq]
  exact ⟨rfl, rfl, rfl⟩

omit [DecidableEq F] in
theorem writeTextBy_frame (impl' : BaseText F) (text : Option (List UInt8)) :
    (r.writeTextBy impl' text).stream = (r.writeTextBy impl text).stream ∧
      (r.writeTextBy impl' text).cmdCount = (r.writeTextBy impl text).cmdCount ∧
      (r.writeTextBy impl' text).skipped = (r.writeTextBy impl text).skipped := by
  cases text with
  | none => exact ⟨rfl, rfl, rfl⟩
  | some text =>
      simp only [writeTextBy]
      split_ifs
      · exact ⟨rfl, rfl, rfl⟩
      · exact suppressScope_frame _ _

theorem quiet_of_isText (h : r.suppress = false) {c : DRCall F} (hc : c.IsText) :
    Quiet fonts face impl r c := by
  cases c with
  | writeText text =>
      have hadds : AddsUpTo fonts 1 r (r.writeTextBy impl text) := addsUpTo_writeText text
      exact ⟨hadds, hadds.live h, fun impl' => writeTextBy_frame impl' text⟩
  | writeTextF formatted =>
      have hadds : AddsUpTo fonts 1 r (r.writeTextFBy impl formatted) :=
        addsUpTo_writeTextF formatted
      refine ⟨hadds, hadds.live h, fun impl' => ?_⟩
      cases formatted with
      | none => exact ⟨rfl, rfl, rfl⟩
      | some out =>
          simp only [DRCall.runBy, writeTextFBy]
          split_ifs
          · exact ⟨rfl, rfl, rfl⟩
          · exact writeTextBy_frame impl' _
  | setText x y text color bgColor sizeX sizeY font rotation =>
      have hadds : AddsUpTo fonts 1 r
          (r.setTextBy impl x y text color bgColor sizeX sizeY font rotation) :=
        addsUpTo_setText x y text color bgColor sizeX sizeY font rotation
      refine ⟨hadds, hadds.live h, fun impl' => ?_⟩
      cases text with
      | none => exact ⟨rfl, rfl, rfl⟩
      | some text => exact suppressScope_frame _ _
  | _ => exact absurd hc id

/-! ## Every use of a recorder -/

/-- However a recorder is used, its stream is well formed, it exports what it says, and its text
calls are quiet. -/
theorem wellFormed_of_actions (fonts : Option (DRFontTable F)) (face : F → GFXfont)
    (impl : BaseText F) (w h : Int16) (actions : List (Action F)) :
    WellFormed fonts (Action.runAll face impl (DrawReplay.new w h) actions) ∧
      Exports (Action.runAll face impl (DrawReplay.new w h) actions) ∧
      ∀ c : DRCall F, c.IsText →
        Quiet fonts face impl (Action.runAll face impl (DrawReplay.new w h) actions) c := by
  have hr : WellFormed fonts (Action.runAll face impl (DrawReplay.new w h) actions) :=
    (wellFormed_new w h).runAll face impl actions
  exact ⟨hr, hr.exports, fun c hc => quiet_of_isText hr.live hc⟩

end Text

/-! ## A body too long for its header -/

section Wrapped

variable [DecidableEq F] (face : F → GFXfont) (impl : BaseText F)

/-- A call of five bytes. -/
def moveCursor : DRCall F := .setCursor 1 1

theorem recording_moveCursor {fonts : Option (DRFontTable F)} {r : DrawReplay F}
    (hr : Recording fonts r) : Recording fonts (moveCursor.run face r) ∧
      (moveCursor.run face r).stream.length = r.stream.length + 5 := by
  have hrec := records_run hr face (.setCursor 1 1) trivial
  refine ⟨hrec.recording, ?_⟩
  show (r.record drRecText .setCursor [putI16 1, putI16 1]).stream.length = _
  rw [record_eq hr (by decide)]
  show ((r.stream ++ putU8 DROp.setCursor.toByte) ++ [putI16 1, putI16 1].flatten).length = _
  rw [List.length_append, List.length_append]
  rfl

theorem length_moveCursors {fonts : Option (DRFontTable F)} {r : DrawReplay F}
    (hr : Recording fonts r) (n : Nat) :
    (DRCall.runAll face r (List.replicate n moveCursor)).stream.length =
      r.stream.length + 5 * n := by
  induction n generalizing r with
  | zero => rfl
  | succ n ih =>
      obtain ⟨hrec, hlen⟩ := recording_moveCursor face hr
      have hrest := ih hrec
      rw [hlen] at hrest
      rw [List.replicate_succ]
      exact hrest.trans (by omega)

omit [DecidableEq F] in
/-- A body of 4 GiB is declared empty. -/
theorem bodyBytes_wrapped {r : DrawReplay F} (h : r.stream.length = 2 ^ 32 - 1) :
    r.exportHeader.bodyBytes = 0 := by
  rw [exportHeader, h]
  rfl

omit [DecidableEq F] in
theorem drRender_wrapped {r : DrawReplay F} (h : r.stream.length = 2 ^ 32 - 1)
    (fonts : Option (DRFontTable F)) : drRender (some r.drExport) fonts = (.truncated, []) := by
  have hbody := bodyBytes_wrapped h
  have hpeek : drPeek (some r.drExport) = .ok r.exportHeader :=
    drPeek_drExport (by rw [hbody]; exact Nat.zero_le _)
  simp only [Libgfx.drRender, hpeek, hbody]
  rfl

/-- The direct calls of a use. -/
theorem runAll_direct (r : DrawReplay F) {c : DRCall F} (hc : c.Backed)
    (hrun : ∀ r, c.runBy face impl r = c.run face r) (n : Nat) :
    Action.runAll face impl r (List.replicate n (.direct c hc)) =
      DRCall.runAll face r (List.replicate n c) := by
  induction n generalizing r with
  | zero => rfl
  | succ n ih =>
      rw [List.replicate_succ, List.replicate_succ]
      show Action.runAll face impl (c.runBy face impl r) _ = DRCall.runAll face (c.run face r) _
      rw [hrun]
      exact ih (c.run face r)

omit [DecidableEq F] in
theorem not_header_wrapped {r : DrawReplay F} (h : r.stream.length = 2 ^ 32 - 1) :
    ¬ ∃ hdr, drPeek (some r.drExport) = .ok hdr ∧ hdr.cmdCount.toNat = r.cmdCount ∧
      hdr.bodyBytes.toNat = r.stream.length + 1 := by
  rintro ⟨hdr, hpeek, -, hbody⟩
  have hwrap := bodyBytes_wrapped h
  rw [drPeek_drExport (by rw [hwrap]; exact Nat.zero_le _)] at hpeek
  cases hpeek
  rw [hwrap, UInt32.toNat_zero] at hbody
  exact Nat.succ_ne_zero _ hbody.symm

omit [DecidableEq F] in
theorem backed_moveCursor : (moveCursor : DRCall F).Backed := trivial

/-- Calls enough to wrap the length. -/
theorem length_wrapped (w h : Int16) {n : Nat} (hn : 5 * n = 2 ^ 32 - 1) :
    (Action.runAll face impl (DrawReplay.new w h)
      (List.replicate n (.direct moveCursor backed_moveCursor))).stream.length = 2 ^ 32 - 1 := by
  rw [runAll_direct face impl _ _ fun _ => rfl,
    length_moveCursors face (recording_new none w h), hn]
  exact Nat.zero_add _

/-- A header does not always read back. -/
theorem not_exports_wrapped :
    ¬ ∀ (face : Nat → GFXfont) (impl : BaseText Nat) (w h : Int16) (actions : List (Action Nat)),
      impl.Faithful face →
        ∃ hdr, drPeek (some (Action.runAll face impl (DrawReplay.new w h) actions).drExport) =
            .ok hdr ∧
          hdr.cmdCount.toNat = (Action.runAll face impl (DrawReplay.new w h) actions).cmdCount ∧
          hdr.bodyBytes.toNat =
            (Action.runAll face impl (DrawReplay.new w h) actions).stream.length + 1 := by
  intro h
  have face : Nat → GFXfont := fun _ => ⟨fun _ => ⟨6⟩, 32, 8⟩
  obtain ⟨n, hn⟩ : ∃ n, 5 * n = 2 ^ 32 - 1 := ⟨858993459, by decide⟩
  exact not_header_wrapped (length_wrapped face (.blank face) 0 0 hn)
    (h face (.blank face) 0 0 _ (BaseText.faithful_blank face))

end Wrapped

end MFoES.Libgfx
