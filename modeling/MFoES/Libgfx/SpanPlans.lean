import MFoES.Libgfx.DirtyRect

/-!
# What drawing is made of

Whatever a call draws, it draws with pixels and spans: `drawRGB565Bitmap` is the only one that
copies rows (`unblitted_plan`).
-/

namespace MFoES.Libgfx

variable {F : Type}

/-- Pixels and spans. -/
def spans (steps : List Step) : Bool := steps.all fun step => !step.isBlit

@[simp] theorem spans_nil : spans [] = true := rfl

@[simp] theorem spans_append (steps steps' : List Step) :
    spans (steps ++ steps') = (spans steps && spans steps') := List.all_append

theorem spans_flatMap {α : Type} {l : List α} {f : α → List Step} (h : ∀ a, spans (f a) = true) :
    spans (l.flatMap f) = true := by
  rw [spans, List.all_flatMap, List.all_eq_true]
  exact fun a _ => h a

theorem spans_ite {p : Prop} [Decidable p] {steps steps' : List Step} (h : spans steps = true)
    (h' : spans steps' = true) : spans (if p then steps else steps') = true := by
  split
  · exact h
  · exact h'

/-- A plan of pixels and spans. -/
def Plan.Unblitted (plan : Plan) : Prop := ∀ steps, plan = some steps → spans steps = true

namespace Plan.Unblitted

theorem of_spans {steps : List Step} (h : spans steps = true) : Plan.Unblitted (some steps) :=
  fun _ heq => Option.some.inj heq ▸ h

theorem of_nil : Plan.Unblitted (some []) := of_spans rfl

theorem of_each {α : Type} {passes : Option (List α)} {body : α → List Step}
    (h : ∀ i, spans (body i) = true) : (Plan.each passes body).Unblitted := by
  intro steps hsteps
  obtain ⟨is, -, rfl⟩ := Option.map_eq_some_iff.mp hsteps
  exact spans_flatMap h

theorem of_inTurn {plans : List Plan} (h : ∀ plan ∈ plans, plan.Unblitted) :
    Plan.Unblitted (inTurn plans) := by
  intro steps hsteps
  rw [spans, List.all_eq_true]
  intro step hstep
  obtain ⟨made, hmade, hmem⟩ := mem_inTurn hsteps hstep
  exact List.all_eq_true.mp (h _ hmade made rfl) step hmem

theorem of_ite {p : Prop} [Decidable p] {plan plan' : Plan} (h : plan.Unblitted)
    (h' : plan'.Unblitted) : Plan.Unblitted (if p then plan else plan') := by
  split
  · exact h
  · exact h'

end Plan.Unblitted

open Plan.Unblitted

/-! ## Shapes -/

section Shapes

variable (fm : FloatMath) (g : LinuxGFX F)

theorem unblitted_writeFillRect (x y w h : Int16) (color : UInt32) :
    (writeFillRect x y w h color).Unblitted :=
  of_ite of_nil (of_each fun _ => rfl)

theorem unblitted_writeLine (x0 y0 x1 y1 : Int16) (color : UInt32) :
    (writeLine x0 y0 x1 y1 color).Unblitted :=
  of_each fun _ => rfl

theorem unblitted_fillCircleHelper (x0 y0 r : Int16) (c : UInt8) (delta : Int16) (color : UInt32) :
    (fillCircleHelper x0 y0 r c delta color).Unblitted :=
  of_each fun _ => by rw [spans_append, spans_ite rfl rfl, spans_ite rfl rfl]; rfl

theorem unblitted_fillCircle (x0 y0 r : Int16) (color : UInt32) :
    (fillCircle x0 y0 r color).Unblitted := by
  refine of_inTurn ?_
  simp only [List.forall_mem_cons, List.not_mem_nil, false_imp_iff, implies_true, and_true]
  exact ⟨of_spans rfl, unblitted_fillCircleHelper _ _ _ _ _ _⟩

theorem spans_scanline (a b y : Int16) (color : UInt32) : spans (scanline a b y color) = true := by
  unfold scanline
  split
  rfl

theorem unblitted_fillTriangle (x0 y0 x1 y1 x2 y2 : Int16) (color : UInt32) :
    (fillTriangle x0 y0 x1 y1 x2 y2 color).Unblitted := by
  unfold fillTriangle
  dsimp only
  refine of_ite (of_spans rfl) (of_inTurn ?_)
  simp only [List.forall_mem_cons, List.not_mem_nil, false_imp_iff, implies_true, and_true]
  exact ⟨of_each fun _ => spans_scanline _ _ _ _,
    of_ite of_nil (of_each fun _ => spans_scanline _ _ _ _)⟩

theorem unblitted_writeThickLine (x0 y0 x1 y1 : Int16) (color : UInt32) (width : UInt8) :
    (writeThickLine fm g x0 y0 x1 y1 color width).Unblitted := by
  unfold writeThickLine
  refine of_ite (unblitted_writeLine x0 y0 x1 y1 color) ?_
  dsimp only
  split
  · exact of_ite (unblitted_fillCircle _ _ _ _) (unblitted_writeFillRect _ _ _ _ _)
  · refine of_inTurn ?_
    simp only [List.forall_mem_cons, List.not_mem_nil, false_imp_iff, implies_true, and_true]
    refine ⟨unblitted_fillTriangle _ _ _ _ _ _ _, unblitted_fillTriangle _ _ _ _ _ _ _,
      of_ite (of_inTurn ?_) of_nil⟩
    simp only [List.forall_mem_cons, List.not_mem_nil, false_imp_iff, implies_true, and_true]
    exact ⟨unblitted_fillCircle _ _ _ _, unblitted_fillCircle _ _ _ _⟩

theorem unblitted_writeLineAA (x0 y0 x1 y1 : Int16) (color : UInt32) :
    (writeLineAA fm g x0 y0 x1 y1 color).Unblitted :=
  of_spans (spans_flatMap fun _ => spans_ite rfl rfl)

theorem unblitted_drawLine (x0 y0 x1 y1 : Int16) (color : UInt32) :
    (drawLine fm g x0 y0 x1 y1 color).Unblitted :=
  of_ite (unblitted_writeThickLine fm g _ _ _ _ _ _)
    (of_ite (unblitted_writeLineAA fm g _ _ _ _ _) (unblitted_writeLine _ _ _ _ _))

theorem unblitted_drawCircleHelper (x0 y0 r : Int16) (c : UInt8) (color : UInt32) :
    (drawCircleHelper x0 y0 r c color).Unblitted :=
  of_each fun _ => by
    rw [spans_append, spans_append, spans_append, spans_ite rfl rfl, spans_ite rfl rfl,
      spans_ite rfl rfl, spans_ite rfl rfl]
    rfl

theorem unblitted_writeCircleAA (x0 y0 r : Int16) (color : UInt32) :
    (writeCircleAA fm x0 y0 r color).Unblitted :=
  of_each fun _ => spans_flatMap fun _ => spans_ite rfl (spans_ite rfl rfl)

theorem unblitted_writeThickCircle (x0 y0 r : Int16) (color : UInt32) (w : UInt8) :
    (writeThickCircle fm x0 y0 r color w).Unblitted :=
  of_each fun _ => spans_ite rfl (spans_ite (spans_ite rfl rfl) rfl)

theorem unblitted_writeThickArc (x0 y0 r : Int16) (cornermask : UInt8) (color : UInt32)
    (w : UInt8) : (writeThickArc fm x0 y0 r cornermask color w).Unblitted :=
  of_each fun _ => by
    dsimp only
    refine spans_ite rfl (spans_ite (spans_ite ?_ rfl) ?_)
    · rw [spans_append, spans_ite rfl rfl, spans_ite rfl rfl]
      rfl
    · rw [spans_append, spans_ite rfl rfl, spans_ite rfl rfl]
      rfl

theorem unblitted_writeArcThick (x0 y0 r : Int16) (startAngle sweep : F32) (color : UInt32)
    (w : UInt8) : (writeArcThick fm x0 y0 r startAngle sweep color w).Unblitted := by
  intro steps hsteps
  obtain ⟨dys, -, hrows⟩ := Option.bind_eq_some_iff.mp hsteps
  refine of_inTurn (fun plan hplan => ?_) steps hrows
  obtain ⟨dy, -, rfl⟩ := List.mem_map.mp hplan
  exact of_ite of_nil (of_each fun _ => spans_ite rfl rfl)

theorem unblitted_writeArcAA (x0 y0 r : Int16) (startAngle sweep : F32) (color : UInt32) :
    (writeArcAA fm x0 y0 r startAngle sweep color).Unblitted :=
  of_each fun _ => spans_flatMap fun _ => spans_ite rfl rfl

theorem unblitted_drawCircle (x0 y0 r : Int16) (color : UInt32) :
    (drawCircle fm g x0 y0 r color).Unblitted :=
  of_ite (unblitted_writeThickCircle fm _ _ _ _ _)
    (of_ite (unblitted_writeCircleAA fm _ _ _ _) (of_each fun _ => rfl))

theorem unblitted_drawArc (x0 y0 r : Int16) (startAngle endAngle : F32) (color : UInt32) :
    (drawArc fm g x0 y0 r startAngle endAngle color).Unblitted := by
  unfold drawArc
  refine of_ite of_nil ?_
  split
  · exact of_nil
  · exact of_ite (unblitted_writeArcThick fm _ _ _ _ _ _ _)
      (of_ite (unblitted_writeArcAA fm _ _ _ _ _ _)
        (of_ite (of_spans rfl) (of_each fun _ => spans_ite rfl rfl)))

theorem unblitted_drawRoundRect (x y w h radius : Int16) (color : UInt32) :
    (drawRoundRect fm g x y w h radius color).Unblitted := by
  unfold drawRoundRect
  dsimp only
  refine of_ite (of_inTurn ?_) (of_inTurn ?_)
  · simp only [List.forall_mem_cons, List.not_mem_nil, false_imp_iff, implies_true, and_true]
    exact ⟨of_spans rfl, unblitted_drawCircleHelper _ _ _ _ _, unblitted_drawCircleHelper _ _ _ _ _,
      unblitted_drawCircleHelper _ _ _ _ _, unblitted_drawCircleHelper _ _ _ _ _⟩
  · simp only [List.forall_mem_cons, List.not_mem_nil, false_imp_iff, implies_true, and_true]
    exact ⟨unblitted_writeFillRect _ _ _ _ _, unblitted_writeFillRect _ _ _ _ _,
      unblitted_writeFillRect _ _ _ _ _, unblitted_writeFillRect _ _ _ _ _,
      unblitted_writeThickArc fm _ _ _ _ _ _, unblitted_writeThickArc fm _ _ _ _ _ _,
      unblitted_writeThickArc fm _ _ _ _ _ _, unblitted_writeThickArc fm _ _ _ _ _ _⟩

theorem unblitted_fillRoundRect (x y w h radius : Int16) (color : UInt32) :
    (fillRoundRect x y w h radius color).Unblitted := by
  refine of_inTurn ?_
  simp only [List.forall_mem_cons, List.not_mem_nil, false_imp_iff, implies_true, and_true]
  exact ⟨unblitted_writeFillRect _ _ _ _ _, unblitted_fillCircleHelper _ _ _ _ _ _,
    unblitted_fillCircleHelper _ _ _ _ _ _⟩

theorem unblitted_drawTriangle (x0 y0 x1 y1 x2 y2 : Int16) (color : UInt32) :
    (drawTriangle fm g x0 y0 x1 y1 x2 y2 color).Unblitted := by
  refine of_inTurn ?_
  simp only [List.forall_mem_cons, List.not_mem_nil, false_imp_iff, implies_true, and_true]
  exact ⟨unblitted_drawLine fm g _ _ _ _ _, unblitted_drawLine fm g _ _ _ _ _,
    unblitted_drawLine fm g _ _ _ _ _⟩

theorem unblitted_drawCells (x y w h : Int16) (pixel : Nat → Nat → Option UInt32) :
    (drawCells x y w h pixel).Unblitted :=
  of_spans (spans_flatMap fun p => by
    dsimp only
    split <;> rfl)

theorem unblitted_drawBitmapTriangle (x0 y0 x1 y1 x2 y2 : Int16) (bitmap : List UInt32)
    (texW texH : Int16) :
    (drawBitmapTriangle fm x0 y0 x1 y1 x2 y2 bitmap texW texH).Unblitted :=
  of_ite of_nil (of_each fun _ => rfl)

end Shapes

/-! ## Text -/

section Text

variable (face : F → GFXfont) (pixels : F → FontPixels) (g : LinuxGFX F)

theorem unblitted_textPixel (x y : Int16) (sx sy : UInt8) (color : UInt32) :
    (textPixel x y sx sy color).Unblitted :=
  of_ite (of_spans rfl) (unblitted_writeFillRect _ _ _ _ _)

theorem unblitted_drawBuiltinChar (x y : Int16) (c : UInt8) (color bg : UInt32) (sx sy : UInt8) :
    (drawBuiltinChar g x y c color bg sx sy).Unblitted := by
  unfold drawBuiltinChar
  refine of_ite of_nil (of_inTurn ?_)
  simp only [List.forall_mem_cons, List.not_mem_nil, false_imp_iff, implies_true, and_true]
  refine ⟨of_inTurn fun plan hplan => ?_, of_ite (of_inTurn fun plan hplan => ?_) of_nil⟩
  · obtain ⟨col, -, hmem⟩ := List.mem_flatMap.mp hplan
    obtain ⟨row, -, rfl⟩ := List.mem_map.mp hmem
    exact of_ite (unblitted_textPixel _ _ _ _ _) (of_ite (unblitted_textPixel _ _ _ _ _) of_nil)
  · obtain ⟨row, -, rfl⟩ := List.mem_map.mp hplan
    exact unblitted_textPixel _ _ _ _ _

theorem unblitted_drawFontChar (f : F) (x y : Int16) (c : UInt8) (color : UInt32) (sx sy : UInt8) :
    (drawFontChar face pixels f x y c color sx sy).Unblitted := by
  refine of_ite of_nil (of_inTurn fun plan hplan => ?_)
  obtain ⟨row, -, hmem⟩ := List.mem_flatMap.mp hplan
  obtain ⟨col, -, rfl⟩ := List.mem_map.mp hmem
  exact of_ite (unblitted_textPixel _ _ _ _ _) of_nil

theorem unblitted_drawChar (x y : Int16) (c : UInt8) (color bg : UInt32) (sx sy : UInt8) :
    (drawChar face pixels g x y c color bg sx sy).Unblitted := by
  unfold drawChar
  split
  · exact unblitted_drawBuiltinChar g _ _ _ _ _ _ _
  · exact unblitted_drawFontChar face pixels _ _ _ _ _ _ _

theorem unblitted_textPlan (left : Int16) (place : Int16 × Int16 → Int16 × Int16)
    (text : List UInt8) : (textPlan face pixels left place g text).Unblitted := by
  induction text generalizing g with
  | nil => exact of_nil
  | cons c text ih =>
      refine of_inTurn ?_
      simp only [List.forall_mem_cons, List.not_mem_nil, false_imp_iff, implies_true, and_true]
      exact ⟨of_ite of_nil (unblitted_drawChar face pixels _ _ _ _ _ _ _ _), ih _⟩

theorem unblitted_setTextPlan (x y : Int16) (text : List UInt8) (color bgColor : UInt32)
    (sizeX sizeY : UInt8) (font : Option F) (rotation : UInt8) :
    (setTextPlan face pixels g x y text color bgColor sizeX sizeY font rotation).Unblitted :=
  of_ite (unblitted_textPlan face pixels _ _ _ _) (unblitted_textPlan face pixels _ _ _ _)

end Text

/-- The calls that copy rows. -/
def GfxCall.isBlit : GfxCall F → Bool
  | .drawRGB565Bitmap _ _ _ _ _ => true
  | _ => false

/-- A call draws pixels and spans, unless it is a blit. -/
theorem unblitted_plan (fm : FloatMath) (face : F → GFXfont) (pixels : F → FontPixels)
    (g : LinuxGFX F) {c : GfxCall F} (hblit : c.isBlit = false) :
    (c.plan fm face pixels g).Unblitted := by
  cases c with
  | drawRGB565Bitmap x y bitmap w h => cases hblit
  | drawLine x0 y0 x1 y1 color => exact unblitted_drawLine fm g _ _ _ _ _
  | fillRect x y w h color => exact unblitted_writeFillRect _ _ _ _ _
  | drawCircle x0 y0 r color => exact unblitted_drawCircle fm g _ _ _ _
  | fillCircle x0 y0 r color => exact unblitted_fillCircle _ _ _ _
  | drawArc x0 y0 r startAngle endAngle color => exact unblitted_drawArc fm g _ _ _ _ _ _
  | drawRoundRect x y w h radius color => exact unblitted_drawRoundRect fm g _ _ _ _ _ _
  | fillRoundRect x y w h radius color => exact unblitted_fillRoundRect _ _ _ _ _ _
  | drawTriangle x0 y0 x1 y1 x2 y2 color => exact unblitted_drawTriangle fm g _ _ _ _ _ _ _
  | fillTriangle x0 y0 x1 y1 x2 y2 color => exact unblitted_fillTriangle _ _ _ _ _ _ _
  | writeText text => exact unblitted_textPlan face pixels g _ _ _
  | drawChar x y c color bg sizeX sizeY => exact unblitted_drawChar face pixels g _ _ _ _ _ _ _
  | setText x y text color bgColor sizeX sizeY font rotation =>
      exact unblitted_setTextPlan face pixels g _ _ _ _ _ _ _ _ _
  | drawBitmap x y bitmap w h color bg =>
      rw [GfxCall.plan, Libgfx.drawBitmap]
      exact unblitted_drawCells x y w h _
  | drawXBitmap x y bitmap w h color =>
      rw [GfxCall.plan, Libgfx.drawXBitmap]
      exact unblitted_drawCells x y w h _
  | drawGrayscaleBitmap x y bitmap w h =>
      rw [GfxCall.plan, Libgfx.drawGrayscaleBitmap]
      exact unblitted_drawCells x y w h _
  | drawGrayscaleBitmapMask x y bitmap mask w h =>
      rw [GfxCall.plan, Libgfx.drawGrayscaleBitmapMask]
      exact unblitted_drawCells x y w h _
  | drawRGBBitmap x y bitmap w h =>
      rw [GfxCall.plan, Libgfx.drawRGBBitmap]
      exact unblitted_drawCells x y w h _
  | drawRGBBitmapMask x y bitmap mask w h =>
      rw [GfxCall.plan, Libgfx.drawRGBBitmapMask]
      exact unblitted_drawCells x y w h _
  | drawBitmapTriangle x0 y0 x1 y1 x2 y2 bitmap texW texH =>
      exact unblitted_drawBitmapTriangle fm _ _ _ _ _ _ _ _ _
  | _ => exact of_spans rfl

end MFoES.Libgfx
