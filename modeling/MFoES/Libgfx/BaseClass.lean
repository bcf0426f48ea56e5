import MFoES.Libgfx.RenderSafety
import MFoES.Libgfx.Spans

/-!
# Recording through the base class

A call through a `LinuxGFX` reference to a recorder runs the base implementation.  Its steps reach
the recorder by the virtual functions (`LinuxGFX.reaches`): pixel by pixel, cut at the recorder's
size, and with a colour that is not opaque blended over 0, which is what `getPixel` returns there.
A blit of an RGB565 bitmap finds no draw buffer and reaches nothing.

So the blob leaves what the same call leaves on a target exactly where that makes no difference
there (`transparent_iff_resolves`).
-/

namespace MFoES.Libgfx

variable {F : Type}

/-! ## What a call reaches on a recorder -/

/-- `writePixel`, on a recorder. -/
def LinuxGFX.reachPixel (g : LinuxGFX F) (x y : Int16) (color : UInt32) : List VirtualCall :=
  if alpha color = 0 ∨ g.inside x y = false then []
  else if alpha color = 0xFF then [.setPixel x y color]
  else [.getPixel x y, .setPixel x y (blendARGB color 0)]

/-- The virtual functions that a step reaches on an object without a draw buffer. -/
def LinuxGFX.reaches (g : LinuxGFX F) : Step → Option (List VirtualCall)
  | .writePixel x y color => some (g.reachPixel x y color)
  | .writeFastVLine x y h color =>
      if alpha color = 0 then some []
      else (forUp y (y.toInt + h.toInt)).map fun is => is.flatMap fun i => g.reachPixel x i color
  | .writeFastHLine x y w color =>
      if alpha color = 0 ∨ y < 0 ∨ g.height ≤ y then some []
      else (forUp (max 0 x) (min g.width (Int16.ofInt (x.toInt + w.toInt))).toInt).map fun is =>
        is.flatMap fun i => g.reachPixel i y color
  | .drawPixel x y color => some [.drawPixel x y color]
  | .drawFastVLine x y h color => some [.drawFastVLine x y h color]
  | .drawFastHLine x y w color => some [.drawFastHLine x y w color]
  | .fillScreen color => some [.fillScreen color]
  | .drawRGB565Bitmap _ _ _ _ _ => some []

namespace VirtualCall

/-- The calls on a target that the override of a recorder stands for. -/
def replayed : VirtualCall → List (GfxCall F)
  | drawPixel x y color => [.drawPixel x y color]
  | drawFastVLine x y h color => [.drawFastVLine x y h color]
  | drawFastHLine x y w color => [.drawFastHLine x y w color]
  | fillScreen color => [.fillScreen color]
  | setPixel x y color => [.drawPixel x y color]
  | getPixel _ _ => []
  | drawFastVLineInternal x y h color => [.drawFastVLine x y h color]
  | drawFastHLineInternal x y w color => [.drawFastHLine x y w color]

/-- The bytes of its command. -/
def size : VirtualCall → Nat
  | drawPixel _ _ _ => 9
  | drawFastVLine _ _ _ _ => 11
  | drawFastHLine _ _ _ _ => 11
  | fillScreen _ => 5
  | setPixel _ _ _ => 9
  | getPixel _ _ => 0
  | drawFastVLineInternal _ _ _ _ => 11
  | drawFastHLineInternal _ _ _ _ => 11

/-- The step that it is on a target. -/
def steps : VirtualCall → List Step
  | drawPixel x y color => [.drawPixel x y color]
  | drawFastVLine x y h color => [.drawFastVLine x y h color]
  | drawFastHLine x y w color => [.drawFastHLine x y w color]
  | fillScreen color => [.fillScreen color]
  | setPixel x y color => [.drawPixel x y color]
  | getPixel _ _ => []
  | drawFastVLineInternal x y h color => [.drawFastVLine x y h color]
  | drawFastHLineInternal x y w color => [.drawFastHLine x y w color]

end VirtualCall

section Reference

variable (fm : FloatMath) (face : F → GFXfont) (pixels : F → FontPixels)

/-- The virtual functions that a call reaches on a recorder with members `g`. -/
def LinuxGFX.hooks (g : LinuxGFX F) (c : GfxCall F) : Option (List VirtualCall) :=
  (c.plan fm face pixels g).bind fun steps => inTurn (steps.map g.reaches)

/-- Make a call through a `LinuxGFX` reference.  The overrides do not look at the members that
the base implementation changes on its way. -/
def DrawReplay.reference (r : DrawReplay F) (c : GfxCall F) : Option (DrawReplay F) :=
  (r.gfx.hooks fm face pixels c).map fun vs =>
    (r.baseSteps (vs.map .virtual)).base fun g => c.apply face g

/-! ## Transparent calls -/

/-- Where the call returns on the target, the recorder's blob of it renders, and leaves the same
pixels. -/
def Transparent (fonts : Option (DRFontTable F)) (r : DrawReplay F) (t : Surface F)
    (c : GfxCall F) : Prop :=
  ∀ t₁, t.draw fm face pixels c = some t₁ →
    ∃ r' calls t₂, r.reference fm face pixels c = some r' ∧
      drRender (some r'.drExport) fonts = (.ok, calls) ∧
      t.drawAll fm face pixels calls = some t₂ ∧ t₂.mem = t₁.mem

/-- Every cell gets from what the call reaches on the recorder what it gets from the call on the
target.  The commands of the call fit in a blob. -/
def Resolves (g : LinuxGFX F) (t : Surface F) (c : GfxCall F) : Prop :=
  ∀ made, t.strokes fm face pixels c = some made →
    ∃ vs left, g.hooks fm face pixels c = some vs ∧
      (vs.map VirtualCall.size).sum < 2 ^ 32 - 1 ∧
      t.storesOf (vs.flatMap VirtualCall.steps) = some left ∧
      ∀ cell, paint t.backing t.mem left cell = paint t.backing t.mem made cell

end Reference

/-! ## The stream of a call -/

/-- A recorder that takes every command. -/
structure DrawReplay.Open (r : DrawReplay F) : Prop where
  all : r.recordMask = drRecAll
  noLimit : r.maxInlineBytes = 0
  live : r.suppress = false

namespace DrawReplay

variable {r : DrawReplay F}

/-- The bytes that a virtual call adds to the stream. -/
def hookBytes (v : VirtualCall) : List UInt8 :=
  (v.replayed (F := F)).flatMap (GfxCall.encode fun _ => 0)

theorem stream_recordPrimitive (h : r.Open) {feature : UInt32} (hf : drRecAll &&& feature ≠ 0)
    (op : DROp) (payload : List (List UInt8)) :
    (r.recordPrimitive feature op payload).Open ∧
      (r.recordPrimitive feature op payload).stream =
        r.stream ++ (putU8 op.toByte ++ payload.flatten) := by
  have hallow : r.allow feature 0 = (r, true) := by
    rw [allow, h.all, if_neg hf, if_neg]
    exact fun h' => h'.1 h.noLimit
  rw [recordPrimitive, h.live, if_neg Bool.false_ne_true, record, hallow]
  refine ⟨⟨h.all, h.noLimit, h.live⟩, ?_⟩
  show r.stream ++ putU8 op.toByte ++ payload.flatten = _
  rw [List.append_assoc]

theorem stream_virtual (h : r.Open) (v : VirtualCall) :
    (v.run r).Open ∧ (v.run r).stream = r.stream ++ hookBytes (F := F) v := by
  cases v with
  | getPixel x y => exact ⟨h, (List.append_nil _).symm⟩
  | _ =>
      rw [hookBytes, VirtualCall.replayed, List.flatMap_singleton]
      exact stream_recordPrimitive h (by decide) _ _

theorem stream_baseSteps (h : r.Open) (vs : List VirtualCall) :
    (r.baseSteps (vs.map .virtual)).stream = r.stream ++ vs.flatMap (hookBytes (F := F)) := by
  induction vs generalizing r with
  | nil => simp [baseSteps]
  | cons v vs ih =>
      obtain ⟨hopen, hstream⟩ := stream_virtual h v
      show ((v.run r).baseSteps (vs.map .virtual)).stream = _
      rw [ih hopen, hstream, List.flatMap_cons, List.append_assoc]

theorem length_hookBytes (vs : List VirtualCall) :
    (vs.flatMap (hookBytes (F := F))).length = (vs.map VirtualCall.size).sum := by
  induction vs with
  | nil => rfl
  | cons v vs ih =>
      rw [List.flatMap_cons, List.length_append, ih, List.map_cons, List.sum_cons]
      cases v <;> rfl

theorem commands_hookBytes (fonts : Option (DRFontTable F)) (vs : List VirtualCall) :
    Commands fonts (vs.flatMap (hookBytes (F := F))) (vs.flatMap VirtualCall.replayed) := by
  induction vs with
  | nil => exact .nil
  | cons v vs ih =>
      cases v with
      | getPixel x y => exact ih
      | _ => exact @Commands.cons F fonts _ (fun _ => 0) _ _ trivial ih

/-- A stream of commands renders, exactly when its length fits in the header. -/
theorem drRender_iff {fonts : Option (DRFontTable F)} {cs : List (GfxCall F)}
    (hcs : Commands fonts r.stream cs) (calls : List (GfxCall F)) :
    drRender (some r.drExport) fonts = (.ok, calls) ↔
      r.stream.length < 2 ^ 32 - 1 ∧ calls = cs := by
  rcases Nat.lt_or_ge r.stream.length (2 ^ 32 - 1) with hfits | hlong
  · rw [drExport, drRender_bytes hcs (bodyBytes_exportHeader hfits)]
    rw [Prod.mk.injEq, and_iff_right rfl, and_iff_right hfits, eq_comm]
  · refine iff_of_false (fun hok => ?_) fun h => Nat.not_lt.mpr hlong h.1
    -- the length wraps, and what it says is there ends before the stream does
    have hbody : r.exportHeader.bodyBytes.toNat ≤ r.stream.length := by
      have hlt := r.exportHeader.bodyBytes.toNat_lt
      omega
    have hnew := @DRReader.holds_new (r.stream ++ [DROp.endOp.toByte]) _
      (hbody.trans (by rw [List.length_append]; exact Nat.le_add_right _ _))
    rw [List.take_append_of_le_length hbody] at hnew
    have hcut := (renderLoop_cut hcs hbody (Nat.lt_succ_self _) hnew).2
    rw [drExport, drRender_header _ (hbody.trans (by
      rw [List.length_append]
      exact Nat.le_add_right _ _))] at hok
    rw [hok] at hcut
    exact hcut rfl

end DrawReplay

/-! ## The blob on the target -/

namespace Surface

variable {t : Surface F}

theorem storesOf_append (steps steps' : List Step) :
    t.storesOf (steps ++ steps') =
      (t.storesOf steps).bind fun made => (t.storesOf steps').map (made ++ ·) := by
  rw [storesOf, List.map_append, inTurn_append]
  rfl

/-- Which cells a step sets, and to what, does not depend on what is in them. -/
theorem stores_mem (mem : Int → UInt32) (step : Step) :
    ({ t with mem := mem } : Surface F).stores step = t.stores step := by
  cases step <;> rfl

theorem storesOf_mem (mem : Int → UInt32) (steps : List Step) :
    ({ t with mem := mem } : Surface F).storesOf steps = t.storesOf steps := by
  rw [storesOf, storesOf]
  exact congrArg inTurn (List.map_congr_left fun step _ => stores_mem mem step)

variable (fm : FloatMath) (face : F → GFXfont) (pixels : F → FontPixels)

/-- The calls of a blob are the steps that its virtual calls are. -/
theorem drawAll_replayed (t : Surface F) (vs : List VirtualCall) :
    t.drawAll fm face pixels (vs.flatMap VirtualCall.replayed) =
      (t.storesOf (vs.flatMap VirtualCall.steps)).map fun left =>
        { t with mem := paint t.backing t.mem left } := by
  induction vs generalizing t with
  | nil => rfl
  | cons v vs ih =>
      have hone : t.drawAll fm face pixels (v.replayed ++ vs.flatMap VirtualCall.replayed) =
          (t.storesOf v.steps).bind fun left =>
            ({ t with mem := paint t.backing t.mem left } : Surface F).drawAll fm face pixels
              (vs.flatMap VirtualCall.replayed) := by
        cases v with
        | getPixel x y => rfl
        | _ =>
            show ((t.storesOf _).map _).bind _ = _
            rw [Option.bind_map]
            rfl
      rw [List.flatMap_cons, List.flatMap_cons, hone, storesOf_append]
      cases t.storesOf v.steps with
      | none => rfl
      | some left =>
          simp only [Option.bind_some, ih, storesOf_mem, Option.map_map]
          congr 1
          funext left'
          simp [paint_append]

end Surface

/-! ## When a call is transparent -/

section Transparency

variable (fm : FloatMath) (face : F → GFXfont) (pixels : F → FontPixels)

/-- What the blob of virtual calls renders to. -/
theorem drRender_hooks_iff (fonts : Option (DRFontTable F)) {r : DrawReplay F} (hopen : r.Open)
    (hempty : r.stream = []) (vs : List VirtualCall) (f : LinuxGFX F → LinuxGFX F)
    (calls : List (GfxCall F)) :
    drRender (some ((r.baseSteps (vs.map .virtual)).base f).drExport) fonts = (.ok, calls) ↔
      (vs.map VirtualCall.size).sum < 2 ^ 32 - 1 ∧ calls = vs.flatMap VirtualCall.replayed := by
  have hstream : ((r.baseSteps (vs.map .virtual)).base f).stream =
      vs.flatMap (DrawReplay.hookBytes (F := F)) := by
    show (r.baseSteps (vs.map .virtual)).stream = _
    rw [DrawReplay.stream_baseSteps hopen, hempty, List.nil_append]
  have hcs := DrawReplay.commands_hookBytes fonts vs
  rw [← hstream] at hcs
  rw [DrawReplay.drRender_iff hcs, hstream, DrawReplay.length_hookBytes]

variable {fm face pixels} {fonts : Option (DRFontTable F)} {r : DrawReplay F} {t : Surface F}
  {c : GfxCall F}

theorem Transparent.resolves (h : Transparent fm face pixels fonts r t c) (hopen : r.Open)
    (hempty : r.stream = []) : Resolves fm face pixels r.gfx t c := by
  intro made hmade
  have hdraw : t.draw fm face pixels c =
      some { t with gfx := c.apply face t.gfx, mem := paint t.backing t.mem made } := by
    rw [Surface.draw, hmade]
    rfl
  obtain ⟨r', calls, t₂, hr', hrender, hall, hmem⟩ := h _ hdraw
  obtain ⟨vs, hvs, rfl⟩ := Option.map_eq_some_iff.mp hr'
  obtain ⟨hfits, rfl⟩ := (drRender_hooks_iff fonts hopen hempty vs _ calls).mp hrender
  rw [Surface.drawAll_replayed] at hall
  obtain ⟨left, hleft, rfl⟩ := Option.map_eq_some_iff.mp hall
  exact ⟨vs, left, hvs, hfits, hleft, fun cell => congrFun hmem cell⟩

theorem Resolves.transparent (h : Resolves fm face pixels r.gfx t c) (hopen : r.Open)
    (hempty : r.stream = []) : Transparent fm face pixels fonts r t c := by
  intro t₁ ht₁
  obtain ⟨made, hmade, rfl⟩ := Option.map_eq_some_iff.mp ht₁
  obtain ⟨vs, left, hvs, hfits, hleft, hcells⟩ := h made hmade
  have hcall : r.reference fm face pixels c =
      some ((r.baseSteps (vs.map .virtual)).base fun g => c.apply face g) := by
    rw [DrawReplay.reference, hvs]
    rfl
  have hall : t.drawAll fm face pixels (vs.flatMap VirtualCall.replayed) =
      some { t with mem := paint t.backing t.mem left } := by
    rw [Surface.drawAll_replayed, hleft]
    rfl
  exact ⟨_, _, _, hcall, (drRender_hooks_iff fonts hopen hempty vs _ _).mpr ⟨hfits, rfl⟩, hall,
    funext hcells⟩

variable (fm face pixels fonts t c)

/-- A call through a reference to a recorder is transparent exactly when its pixels resolve on the
recorder as they do on the target. -/
theorem transparent_iff_resolves (hopen : r.Open) (hempty : r.stream = []) :
    Transparent fm face pixels fonts r t c ↔ Resolves fm face pixels r.gfx t c := by
  constructor
  · intro htransparent
    exact htransparent.resolves hopen hempty
  · intro hresolves
    exact hresolves.transparent hopen hempty

end Transparency

/-! ## Virtual functions -/

/-- A step is a call of a virtual function, with its arguments. -/
def Step.Virtual : Step → Prop
  | .drawPixel _ _ _ => True
  | .drawFastVLine _ _ _ _ => True
  | .drawFastHLine _ _ _ _ => True
  | .fillScreen _ => True
  | _ => False

/-- It reaches the recorder as it is. -/
theorem Step.Virtual.reaches {step : Step} (h : step.Virtual) (g : LinuxGFX F) :
    ∃ v, g.reaches step = some [v] ∧ v.steps = [step] ∧ v.size ≤ 11 := by
  cases step with
  | drawPixel x y color => exact ⟨.drawPixel x y color, rfl, rfl, by simp [VirtualCall.size]⟩
  | drawFastVLine x y l color =>
      exact ⟨.drawFastVLine x y l color, rfl, rfl, by simp [VirtualCall.size]⟩
  | drawFastHLine x y l color =>
      exact ⟨.drawFastHLine x y l color, rfl, rfl, by simp [VirtualCall.size]⟩
  | fillScreen color => exact ⟨.fillScreen color, rfl, rfl, by simp [VirtualCall.size]⟩
  | _ => exact h.elim

theorem reaches_virtual (g : LinuxGFX F) {steps : List Step} (h : ∀ step ∈ steps, step.Virtual) :
    ∃ vs, inTurn (steps.map g.reaches) = some vs ∧ vs.flatMap VirtualCall.steps = steps ∧
      (vs.map VirtualCall.size).sum ≤ 11 * steps.length := by
  induction steps with
  | nil => exact ⟨[], rfl, rfl, Nat.le_refl _⟩
  | cons step steps ih =>
      rw [List.forall_mem_cons] at h
      obtain ⟨v, hv, hstep, hsize⟩ := h.1.reaches g
      obtain ⟨vs, hvs, hsteps, hsizes⟩ := ih h.2
      refine ⟨v :: vs, ?_, ?_, ?_⟩
      · rw [List.map_cons, inTurn, hv, hvs]
        rfl
      · rw [List.flatMap_cons, hstep, hsteps]
        rfl
      · rw [List.map_cons, List.sum_cons, List.length_cons]
        omega

/-- A call that comes down to a few virtual functions is transparent, whatever the size and the
settings of the recorder. -/
theorem transparent_of_virtual {fm : FloatMath} {face : F → GFXfont} {pixels : F → FontPixels}
    {fonts : Option (DRFontTable F)} {r : DrawReplay F} {t : Surface F} {c : GfxCall F}
    (hopen : r.Open) (hempty : r.stream = []) {steps : List Step}
    (hplan : ∀ g, c.plan fm face pixels g = some steps) (hvirtual : ∀ step ∈ steps, step.Virtual)
    (hlen : 11 * steps.length < 2 ^ 32 - 1) : Transparent fm face pixels fonts r t c := by
  refine Resolves.transparent (fun made hmade => ?_) hopen hempty
  obtain ⟨vs, hvs, hsteps, hsizes⟩ := reaches_virtual r.gfx hvirtual
  refine ⟨vs, made, ?_, Nat.lt_of_le_of_lt hsizes hlen, ?_, fun _ => rfl⟩
  · rw [LinuxGFX.hooks, hplan]
    exact hvs
  · rw [Surface.strokes, hplan] at hmade
    rw [hsteps]
    exact hmade

/-- A rectangle is four spans, and each is a virtual function. -/
theorem transparent_drawRect {fm : FloatMath} {face : F → GFXfont} {pixels : F → FontPixels}
    {fonts : Option (DRFontTable F)} {r : DrawReplay F} (hopen : r.Open) (hempty : r.stream = [])
    (t : Surface F) (x y w h : Int16) (color : UInt32) :
    Transparent fm face pixels fonts r t (.drawRect x y w h color) := by
  refine transparent_of_virtual hopen hempty (fun g => rfl) ?_ ?_
  · simp [Step.Virtual]
  · simp

end MFoES.Libgfx
