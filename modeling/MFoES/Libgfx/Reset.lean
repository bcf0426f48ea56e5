import MFoES.Libgfx.RecordMask
import Mathlib.Algebra.Ring.Parity

/-!
# What a reset restores

`setRotation` swaps the width and the height on every call with an odd rotation, whatever the
rotation was before.  `DRReset` sets the rotation back and leaves the size.  So a recorder is as
good as new just where the size was swapped back, or is the same both ways (`asNew_iff`).
-/

namespace MFoES.Libgfx

open DrawReplay

variable {F : Type}

/-! ## What swaps the size -/

@[simp] theorem DrawReplay.writeText_size (face : F → GFXfont) (r : DrawReplay F)
    (text : Option (List UInt8)) : (r.writeText face text).gfx.size = r.gfx.size := by
  cases text with
  | none => rfl
  | some text =>
      rw [DrawReplay.writeText]
      split_ifs
      · rfl
      · rw [suppressed_gfx, LinuxGFX.writeText_size, record_gfx]

/-- A call that swaps the width and the height. -/
def DRCall.swapsSize : DRCall F → Bool
  | setRotation rotation => decide (rotation % 4 = 1 ∨ rotation % 4 = 3)
  | _ => false

/-- A draw call swaps the size or leaves it. -/
theorem size_run [DecidableEq F] (face : F → GFXfont) (r : DrawReplay F) (c : DRCall F) :
    (c.run face r).gfx.size = if c.swapsSize then r.gfx.size.swap else r.gfx.size := by
  cases c with
  | writeTextF formatted =>
      cases formatted with
      | none => rfl
      | some out =>
          show (r.writeTextF face (some out)).gfx.size = r.gfx.size
          rw [writeTextF]
          split_ifs
          · rfl
          · exact r.writeText_size face _
  | setText x y text fg bg sx sy font rot =>
      cases text with
      | none => rfl
      | some text => simp [DRCall.run, DrawReplay.setText, DRCall.swapsSize]
  | setFontId id =>
      simp only [DRCall.run, setFontId]
      split
      · simp [LinuxGFX.setFont, DRCall.swapsSize, LinuxGFX.size]
      · split <;> simp [LinuxGFX.setFont, DRCall.swapsSize, LinuxGFX.size]
  | setRotation rotation =>
      simp only [DRCall.run, DrawReplay.setRotation, base_gfx, record_gfx, DRCall.swapsSize,
        LinuxGFX.setRotation_size, decide_eq_true_eq]
  | writeText text => exact r.writeText_size face text
  | print text => exact r.writeText_size face text
  | println => exact r.writeText_size face _
  | printlnText text =>
      exact ((r.writeText face text).writeText_size face (some [10])).trans
        (r.writeText_size face text)
  | _ =>
      simp [DRCall.run, DRCall.swapsSize, LinuxGFX.size, DrawReplay.drawPixel,
        DrawReplay.drawFastVLine, DrawReplay.drawFastHLine, DrawReplay.fillScreen,
        DrawReplay.drawLine, DrawReplay.drawRect, DrawReplay.fillRect, DrawReplay.drawCircle,
        DrawReplay.fillCircle, DrawReplay.drawArc, DrawReplay.drawRoundRect,
        DrawReplay.fillRoundRect, DrawReplay.drawTriangle, DrawReplay.fillTriangle,
        DrawReplay.drawBitmap, drawBitmapBg, DrawReplay.drawXBitmap,
        DrawReplay.drawGrayscaleBitmap, DrawReplay.drawGrayscaleBitmapMask,
        DrawReplay.drawRGBBitmap, DrawReplay.drawRGBBitmapMask, DrawReplay.drawRGB565Bitmap,
        DrawReplay.drawBitmapTriangle, DrawReplay.setCursor, DrawReplay.setTextColor,
        setTextColorBg, setTextColorTransparentBg, DrawReplay.setTextSize, setTextSizeXY,
        DrawReplay.setTextWrap, DrawReplay.setTextRotation, DrawReplay.setFont,
        DrawReplay.drawChar, drawCharXY, DrawReplay.setDrawStyle, setStrokeWidth, setLineCap,
        setLineJoin, setAntiAlias, DrawReplay.invertDisplay, DrawReplay.swapBuffers,
        LinuxGFX.setCursor, LinuxGFX.setTextColor, LinuxGFX.setTextSize, LinuxGFX.setTextWrap,
        LinuxGFX.setTextRotation, LinuxGFX.setFont, LinuxGFX.setDrawStyle]

/-! ## Histories -/

/-- A call on a recorder. -/
inductive RecorderCall (F : Type) where
  | recording (c : RecordingCall F)
  | setMaxInlineBytes (bytes : Nat)

/-- A call that swaps the width and the height. -/
def RecorderCall.swapsSize : RecorderCall F → Bool
  | recording (.use (.draw c _)) => c.swapsSize
  | _ => false

section Histories

variable [DecidableEq F] (face : F → GFXfont)

/-- Make a call. -/
def RecorderCall.run (r : DrawReplay F) : RecorderCall F → DrawReplay F
  | recording c => c.run face r
  | setMaxInlineBytes bytes => { r with maxInlineBytes := bytes }

/-- Make a sequence of calls. -/
def RecorderCall.runAll (r : DrawReplay F) (cs : List (RecorderCall F)) : DrawReplay F :=
  cs.foldl (RecorderCall.run face) r

theorem RecorderCall.size_run (r : DrawReplay F) (c : RecorderCall F) :
    (c.run face r).gfx.size = if c.swapsSize then r.gfx.size.swap else r.gfx.size := by
  rcases c with ⟨⟨u⟩ | ⟨m⟩⟩ | ⟨bytes⟩
  · cases u with
    | draw c backed => exact Libgfx.size_run face r c
    | registerFont font id => cases font <;> rfl
    | drFlush => rfl
    | drReset => rfl
  · cases m <;> rfl
  · rfl

theorem RecorderCall.live_run {r : DrawReplay F} (h : r.suppress = false) (c : RecorderCall F) :
    (c.run face r).suppress = false := by
  cases c with
  | recording c => exact (c.run_settings face h).2
  | setMaxInlineBytes bytes => exact h

theorem RecorderCall.live_runAll {r : DrawReplay F} (h : r.suppress = false)
    (cs : List (RecorderCall F)) : (runAll face r cs).suppress = false := by
  induction cs generalizing r with
  | nil => exact h
  | cons c cs ih => exact ih (c.live_run face h)

/-- Every call that swaps the size swaps it once more. -/
theorem RecorderCall.size_runAll (r : DrawReplay F) (cs : List (RecorderCall F)) :
    (runAll face r cs).gfx.size = Prod.swap^[cs.countP swapsSize] r.gfx.size := by
  induction cs generalizing r with
  | nil => rfl
  | cons c cs ih =>
      show (runAll face (c.run face r) cs).gfx.size = _
      rw [ih, c.size_run face r, List.countP_cons]
      cases c.swapsSize with
      | false => rfl
      | true => rfl

/-! ## As good as new -/

/-- What can be read back from a recorder: its blob, its cursor and its size. -/
def DrawReplay.readBack (r : DrawReplay F) : List UInt8 × (Int16 × Int16) × (Int16 × Int16) :=
  (r.drExport, (r.gfx.cursorX, r.gfx.cursorY), r.gfx.size)

/-- A new recorder, with the settings of another one. -/
def DrawReplay.newLike (w h : Int16) (r : DrawReplay F) : DrawReplay F :=
  { DrawReplay.new w h with recordMask := r.recordMask, maxInlineBytes := r.maxInlineBytes }

/-- After a reset, whatever is called reads back as on a new recorder with the same settings. -/
def AsNew (w h : Int16) (history : List (RecorderCall F)) : Prop :=
  let r := RecorderCall.runAll face (DrawReplay.new w h) history
  ∀ calls, (RecorderCall.runAll face r.drReset calls).readBack =
    (RecorderCall.runAll face (newLike w h r) calls).readBack

omit [DecidableEq F] in
/-- A reset restores all but the size. -/
theorem drReset_eq_newLike {w h : Int16} {r : DrawReplay F} (hlive : r.suppress = false)
    (hsize : r.gfx.size = (DrawReplay.new w h : DrawReplay F).gfx.size) :
    r.drReset = newLike w h r := by
  obtain ⟨hwidth, hheight⟩ := Prod.mk.inj hsize
  rw [drReset, newLike, drFlush, hlive, hwidth, hheight]
  rfl

omit [DecidableEq F] in
/-- A size is its own mirror image just for a square, or with nothing in it. -/
theorem swap_size_new_iff (w h : Int16) :
    (DrawReplay.new w h : DrawReplay F).gfx.size.swap =
        (DrawReplay.new w h : DrawReplay F).gfx.size ↔
      w = h ∨ w ≤ 0 ∧ h ≤ 0 := by
  have hsize : (DrawReplay.new w h : DrawReplay F).gfx.size =
      (if 0 < w then w else 0, if 0 < h then h else 0) := rfl
  rw [hsize, Prod.swap_prod_mk, Prod.mk.injEq]
  by_cases hw : 0 < w
  · rw [if_pos hw, and_iff_left_of_imp Eq.symm, or_iff_left fun hle => Int16.not_le.mpr hw hle.1]
    by_cases hh : 0 < h
    · rw [if_pos hh]
      exact eq_comm
    · rw [if_neg hh]
      exact iff_of_false (fun heq => Int16.lt_irrefl (heq ▸ hw)) fun heq => hh (heq ▸ hw)
  · rw [if_neg hw, and_iff_left_of_imp Eq.symm]
    by_cases hh : 0 < h
    · rw [if_pos hh]
      refine iff_of_false (fun heq => Int16.lt_irrefl (heq ▸ hh)) ?_
      rintro (heq | hle)
      · exact hw (heq ▸ hh)
      · exact Int16.not_le.mpr hh hle.2
    · rw [if_neg hh]
      exact iff_of_true rfl (Or.inr ⟨Int16.not_lt.mp hw, Int16.not_lt.mp hh⟩)

/-- All that a reset can leave as it was is the size. -/
theorem asNew_iff_size (w h : Int16) (history : List (RecorderCall F)) :
    AsNew face w h history ↔
      (RecorderCall.runAll face (DrawReplay.new w h) history).gfx.size =
        (DrawReplay.new w h : DrawReplay F).gfx.size := by
  constructor
  · intro hnew
    exact congrArg (fun p => p.2.2) (hnew [])
  · intro hsize calls
    have hlive := RecorderCall.live_runAll face (r := DrawReplay.new w h) rfl history
    rw [drReset_eq_newLike hlive hsize]

/-- Whatever was called before, a recorder is as good as new after a reset just where the size
was swapped an even number of times, or is the same both ways. -/
theorem asNew_iff (w h : Int16) (history : List (RecorderCall F)) :
    AsNew face w h history ↔
      Even (history.countP RecorderCall.swapsSize) ∨ w = h ∨ w ≤ 0 ∧ h ≤ 0 := by
  have hswap : Function.Involutive (Prod.swap : Int16 × Int16 → Int16 × Int16) := Prod.swap_swap
  rw [asNew_iff_size, RecorderCall.size_runAll face (DrawReplay.new w h) history]
  rcases Nat.even_or_odd (history.countP RecorderCall.swapsSize) with heven | hodd
  · rw [hswap.iterate_even heven]
    exact iff_of_true rfl (Or.inl heven)
  · rw [hswap.iterate_odd hodd, swap_size_new_iff,
      or_iff_right (Nat.not_even_iff_odd.mpr hodd)]

end Histories

/-- A canvas of 320 by 240 that was turned once stays 240 by 320. -/
theorem not_asNew_turned :
    ¬ AsNew (F := Empty) Empty.elim 320 240
      [.recording (.use (.draw (.setRotation 1) trivial))] := by
  rw [asNew_iff_size]
  decide

end MFoES.Libgfx
