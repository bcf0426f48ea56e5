import MFoES.Libgfx.Nc5874

/-!
# Frames on the OSD plane

Between two swaps the plane is the surface outside of the dirty rectangle, but for what RGB565
bitmaps have left there (`mem_uncovered`).  A swap converts the rectangle.
-/

namespace MFoES.Libgfx

variable {F : Type}

/-! ## Bulk copies -/

/-- What the bulk copies among steps store. -/
def Surface.blits (t : Surface F) (steps : List Step) : List Store :=
  (steps.filter Step.isBlit).flatMap fun step => (t.stores step).getD []

theorem Surface.plain_blits (t : Surface F) (steps : List Step) :
    ∀ s ∈ t.blits steps, s.Plain := by
  intro s hs
  obtain ⟨step, hstep, hmem⟩ := List.mem_flatMap.mp hs
  have hblit := (List.mem_filter.mp hstep).2
  cases step with
  | drawRGB565Bitmap x y bitmap w h =>
      change s ∈ t.drawRGB565Bitmap x y bitmap w h at hmem
      unfold Surface.drawRGB565Bitmap at hmem
      rw [List.mem_ite_nil_left] at hmem
      obtain ⟨-, -, rfl⟩ := List.mem_map.mp hmem.2
      exact ⟨_, rfl⟩
  | _ => cases hblit

/-- Outside of the rectangles that the steps name, only bulk copies leave something. -/
theorem Surface.Device.paint_blits {t : Surface F} {pitch : UInt32} (ht : t.Device pitch)
    (hfit : t.gfx.width.toInt ≤ (pitch / 4).toNat) {steps : List Step} {made : List Store}
    {rects : List DirtyRect} (hmade : t.storesOf steps = some made)
    (hrects : inTurn (steps.map t.touched) = some rects) {x y : Int16}
    (hin : t.gfx.inside x y = true) (hout : ∀ r ∈ rects, ¬ r.Covers x y) (mem : Int → UInt32) :
    paint t.backing mem made (deviceCell pitch x y) =
      paint t.backing mem (t.blits steps) (deviceCell pitch x y) := by
  induction steps generalizing made rects mem with
  | nil =>
      cases hmade
      rfl
  | cons step steps ih =>
      obtain ⟨first, hfirst, hmap⟩ := Option.bind_eq_some_iff.mp hmade
      obtain ⟨rest, hrest, rfl⟩ := Option.map_eq_some_iff.mp hmap
      obtain ⟨r, hr, hmap⟩ := Option.bind_eq_some_iff.mp hrects
      obtain ⟨rs, hrs, rfl⟩ := Option.map_eq_some_iff.mp hmap
      rw [List.forall_mem_append] at hout
      rw [paint_append, ih hrest hrs hout.2]
      cases hblit : step.isBlit with
      | true =>
          have hcons : t.blits (step :: steps) = first ++ t.blits steps := by
            rw [blits, List.filter_cons_of_pos hblit, List.flatMap_cons, hfirst]
            rfl
          rw [hcons, paint_append]
      | false =>
          have hcons : t.blits (step :: steps) = t.blits steps := by
            rw [blits, List.filter_cons_of_neg (by simp [hblit])]
            rfl
          obtain ⟨r', hr', htracked⟩ := ht.tracked hblit hfirst
          obtain rfl := Option.some.inj (hr.symm.trans hr')
          rw [hcons]
          refine paint_plain (t.plain_blits steps) (paint_other fun s hs heq => ?_)
          obtain ⟨r₁, hr₁, x', y', hcovers, hin', hcell⟩ := htracked.hits s hs
          rw [hcell] at heq
          obtain ⟨rfl, rfl⟩ := ht.cell_inj hfit hin' hin heq
          exact hout.1 r₁ hr₁ hcovers

/-! ## Calls that draw -/

/-- A call that draws, or says how to.  A turned surface has another size. -/
def GfxCall.Draws : GfxCall F → Prop
  | .setRotation _ => False
  | .swapBuffers _ => False
  | _ => True

/-- A call that draws leaves the size. -/
theorem GfxCall.Draws.size {c : GfxCall F} (h : c.Draws) (face : F → GFXfont) (g : LinuxGFX F) :
    (c.apply face g).width = g.width ∧ (c.apply face g).height = g.height := by
  cases c with
  | setRotation r => exact h.elim
  | writeText text => exact Prod.mk.inj (g.writeText_size face text)
  | setText x y text color bgColor sizeX sizeY font rotation =>
      exact Prod.mk.inj (g.setText_size face x y text color bgColor sizeX sizeY font rotation)
  | _ => exact ⟨rfl, rfl⟩

/-- A step of the program that draws. -/
def Nc5874Op.Draws : Nc5874Op F → Prop
  | .call c => c.Draws
  | .clearBuffer _ _ => True

/-! ## Frames -/

namespace Nc5874

variable (fm : FloatMath) (face : F → GFXfont) (pixels : F → FontPixels)

/-- What the RGB565 bitmaps of a step store. -/
def opBlits (s : Nc5874 F) : Nc5874Op F → List Store
  | .call c => ((c.plan fm face pixels s.surface.gfx).map s.surface.blits).getD []
  | .clearBuffer _ _ => []

/-- What the RGB565 bitmaps of a frame store. -/
def frameBlits : Nc5874 F → List (Nc5874Op F) → List Store
  | _, [] => []
  | s, o :: rest =>
      s.opBlits fm face pixels o ++
        ((s.op fm face pixels o).map fun s' => frameBlits s' rest).getD []

/-- Steps, and a swap. -/
def frame (s : Nc5874 F) (f : List (Nc5874Op F)) : Option (Nc5874 F) :=
  (s.ops fm face pixels f).bind swapBuffers

/-- After each swap of a run, the plane shows the surface. -/
def Shown : Nc5874 F → List (List (Nc5874Op F)) → Prop
  | _, [] => True
  | s, f :: rest => ∀ s', s.frame fm face pixels f = some s' → s'.Current ∧ Shown s' rest

/-- Each pixel that RGB565 bitmaps of a frame leave outside of its rectangle looks as it did. -/
def Unseen (s : Nc5874 F) (f : List (Nc5874Op F)) : Prop :=
  ∀ s₁, s.ops fm face pixels f = some s₁ → ∀ x y, s.surface.gfx.inside x y = true →
    s₁.presented.Covers x y ∨
      osdPx (paint s.surface.backing s.surface.mem (s.frameBlits fm face pixels f) (s.cell x y)) =
        osdPx (s.surface.mem (s.cell x y))

/-- So in each frame of a run. -/
def AllUnseen : Nc5874 F → List (List (Nc5874Op F)) → Prop
  | _, [] => True
  | s, f :: rest =>
      s.Unseen fm face pixels f ∧ ∀ s', s.frame fm face pixels f = some s' → AllUnseen s' rest

/-! ## What a step keeps -/

/-- Two states of a run between two swaps: the sizes are the same, the plane too, and a pixel that
is presented in the first is so in the second. -/
structure Grows (s s' : Nc5874 F) : Prop where
  width : s'.surface.gfx.width = s.surface.gfx.width
  height : s'.surface.gfx.height = s.surface.gfx.height
  osd : s'.osd = s.osd
  covers : ∀ x y, s.surface.gfx.inside x y = true → s.presented.Covers x y →
    s'.presented.Covers x y

variable {fm face pixels} {s s' s'' : Nc5874 F}

theorem Grows.refl (s : Nc5874 F) : s.Grows s := ⟨rfl, rfl, rfl, fun _ _ _ h => h⟩

theorem Grows.inside (h : s.Grows s') (x y : Int16) :
    s'.surface.gfx.inside x y = s.surface.gfx.inside x y := by
  rw [LinuxGFX.inside, LinuxGFX.inside, h.width, h.height]

theorem Grows.cell (h : s.Grows s') (x y : Int16) : s'.cell x y = s.cell x y := by
  rw [Nc5874.cell, Nc5874.cell, h.width]

theorem Grows.trans (h : s.Grows s') (h' : s'.Grows s'') : s.Grows s'' where
  width := h'.width.trans h.width
  height := h'.height.trans h.height
  osd := h'.osd.trans h.osd
  covers := by
    intro x y hin hcovers
    refine h'.covers x y ?_ (h.covers x y hin hcovers)
    rw [h.inside]
    exact hin

/-- The whole surface has its pixels. -/
theorem covers_whole (hfull : s.fullDirty = true) {x y : Int16}
    (hin : s.surface.gfx.inside x y = true) : s.presented.Covers x y := by
  have hclip := inside_iff.mp hin
  have hw := @toInt_pred s.surface.gfx.width (by omega)
  have hh := @toInt_pred s.surface.gfx.height (by omega)
  have hzero : (0 : Int16).toInt = 0 := rfl
  rw [presented, if_pos hfull]
  simp only [DirtyRect.Covers]
  omega

/-- The rectangles of steps stay in the surface. -/
theorem Sized.within_touched (hs : s.Sized) {steps : List Step} {made : List Store}
    {rects : List DirtyRect} (hmade : s.surface.storesOf steps = some made)
    (hrects : inTurn (steps.map s.surface.touched) = some rects) :
    ∀ r ∈ rects, r.Within s.surface.gfx.width s.surface.gfx.height := by
  induction steps generalizing made rects with
  | nil =>
      cases hrects
      intro r hr
      cases hr
  | cons step steps ih =>
      obtain ⟨first, hfirst, hmap⟩ := Option.bind_eq_some_iff.mp hmade
      obtain ⟨rest, hrest, rfl⟩ := Option.map_eq_some_iff.mp hmap
      obtain ⟨r, hr, hmap⟩ := Option.bind_eq_some_iff.mp hrects
      obtain ⟨rs, hrs, rfl⟩ := Option.map_eq_some_iff.mp hmap
      rw [List.forall_mem_append]
      refine ⟨?_, ih hrest hrs⟩
      cases hblit : step.isBlit with
      | false =>
          obtain ⟨r', hr', htracked⟩ := hs.device.tracked hblit hfirst
          obtain rfl := Option.some.inj (hr.symm.trans hr')
          exact htracked.within
      | true =>
          cases step with
          | drawRGB565Bitmap x y bitmap w h =>
              cases hr
              intro r hr
              cases hr
          | _ => cases hblit

/-- What a step does between two swaps: the pixels outside of the rectangle have what bulk copies
left. -/
structure Leaves (s s' : Nc5874 F) (blits : List Store) : Prop where
  sized : s'.Sized
  grows : s.Grows s'
  backing : s'.surface.backing = s.surface.backing
  mem_uncovered : ∀ x y, s.surface.gfx.inside x y = true → ¬ s'.presented.Covers x y →
    s'.surface.mem (s.cell x y) = paint s.surface.backing s.surface.mem blits (s.cell x y)

theorem Sized.call {c : GfxCall F} (hs : s.Sized) (hc : c.Draws)
    (h : s.call fm face pixels c = some s') : s'.Sized := by
  obtain ⟨steps, hsteps, h⟩ := Option.bind_eq_some_iff.mp h
  obtain ⟨made, hmade, h⟩ := Option.bind_eq_some_iff.mp h
  obtain ⟨rects, hrects, rfl⟩ := Option.map_eq_some_iff.mp h
  obtain ⟨hw, hh⟩ := hc.size face s.surface.gfx
  have hwithin := hs.within_touched hmade hrects
  constructor
  · show 16 ≤ (c.apply face s.surface.gfx).width.toInt ∧ _
    rw [hw]
    exact hs.wide
  · show 16 ≤ (c.apply face s.surface.gfx).height.toInt ∧ _
    rw [hh]
    exact hs.high
  · show s.surface.backing = .device (u32 (c.apply face s.surface.gfx).width * 4) true
    rw [hw]
    exact hs.backing
  · show (rects.foldl DirtyRect.grow s.dirty).Within (c.apply face s.surface.gfx).width
      (c.apply face s.surface.gfx).height
    rw [hw, hh]
    exact hs.within.foldl hwithin

theorem Grows.call {c : GfxCall F} (hc : c.Draws) (h : s.call fm face pixels c = some s') :
    s.Grows s' := by
  obtain ⟨steps, hsteps, h⟩ := Option.bind_eq_some_iff.mp h
  obtain ⟨made, hmade, h⟩ := Option.bind_eq_some_iff.mp h
  obtain ⟨rects, hrects, rfl⟩ := Option.map_eq_some_iff.mp h
  obtain ⟨hw, hh⟩ := hc.size face s.surface.gfx
  constructor
  · exact hw
  · exact hh
  · rfl
  · intro x y hin hcovers
    unfold presented at hcovers ⊢
    split at hcovers
    · next hfull =>
      rw [if_pos hfull]
      show DirtyRect.Covers ⟨0, 0, (c.apply face s.surface.gfx).width - 1,
        (c.apply face s.surface.gfx).height - 1⟩ x y
      rw [hw, hh]
      exact hcovers
    · next hpart =>
      rw [if_neg hpart]
      exact hcovers.foldl

theorem Leaves.call {c : GfxCall F} (hs : s.Sized) (hc : c.Draws)
    (h : s.call fm face pixels c = some s') :
    s.Leaves s' (s.opBlits fm face pixels (.call c)) := by
  have hsized := hs.call hc h
  have hgrows := Grows.call hc h
  obtain ⟨steps, hsteps, h⟩ := Option.bind_eq_some_iff.mp h
  obtain ⟨made, hmade, h⟩ := Option.bind_eq_some_iff.mp h
  obtain ⟨rects, hrects, rfl⟩ := Option.map_eq_some_iff.mp h
  refine ⟨hsized, hgrows, rfl, ?_⟩
  intro x y hin hout
  have hpart : s.fullDirty = false := by
    rw [← Bool.not_eq_true]
    intro hfull
    exact hout (hgrows.covers x y hin (covers_whole hfull hin))
  have hdirty : ∀ r ∈ rects, ¬ r.Covers x y := by
    intro r hr hcovers
    refine hout ?_
    rw [presented, if_neg (by simp [hpart])]
    exact DirtyRect.covers_foldl hr hcovers s.dirty
  have hfit : s.surface.gfx.width.toInt ≤ (u32 s.surface.gfx.width * 4 / 4).toNat := by
    rw [hs.toNat_pitch]
    exact Int.self_le_toNat _
  rw [opBlits, hsteps]
  exact hs.device.paint_blits hfit hmade hrects hin hdirty s.surface.mem

theorem Leaves.clearBuffer (hs : s.Sized) (idx : Int8) (color : UInt32) :
    s.Leaves (s.clearBuffer idx color) [] := by
  constructor
  · exact ⟨hs.wide, hs.high, hs.backing, hs.within⟩
  · exact ⟨rfl, rfl, rfl, fun x y hin _ => covers_whole rfl hin⟩
  · rfl
  · intro x y hin hout
    exact (hout (covers_whole rfl hin)).elim

theorem Leaves.op {o : Nc5874Op F} (hs : s.Sized) (ho : o.Draws)
    (h : s.op fm face pixels o = some s') : s.Leaves s' (s.opBlits fm face pixels o) := by
  cases o with
  | call c => exact Leaves.call hs ho h
  | clearBuffer idx color =>
      cases h
      exact Leaves.clearBuffer hs idx color

theorem plain_opBlits (s : Nc5874 F) (o : Nc5874Op F) :
    ∀ b ∈ s.opBlits fm face pixels o, b.Plain := by
  cases o with
  | call c =>
      rw [opBlits]
      cases c.plan fm face pixels s.surface.gfx with
      | none =>
          intro b hb
          cases hb
      | some steps => exact s.surface.plain_blits steps
  | clearBuffer idx color =>
      intro b hb
      cases hb

theorem plain_frameBlits (s : Nc5874 F) (f : List (Nc5874Op F)) :
    ∀ b ∈ s.frameBlits fm face pixels f, b.Plain := by
  induction f generalizing s with
  | nil =>
      intro b hb
      cases hb
  | cons o f ih =>
      rw [frameBlits, List.forall_mem_append]
      refine ⟨s.plain_opBlits o, ?_⟩
      cases s.op fm face pixels o with
      | none =>
          intro b hb
          cases hb
      | some s₁ => exact ih s₁

/-- What the steps of a frame do. -/
theorem Leaves.ops {f : List (Nc5874Op F)} (hs : s.Sized) (hf : ∀ o ∈ f, o.Draws)
    (h : s.ops fm face pixels f = some s') :
    s.Leaves s' (s.frameBlits fm face pixels f) := by
  induction f generalizing s with
  | nil =>
      cases h
      exact ⟨hs, .refl _, rfl, fun _ _ _ _ => rfl⟩
  | cons o f ih =>
      rw [List.forall_mem_cons] at hf
      obtain ⟨s₁, hop, hrest⟩ := Option.bind_eq_some_iff.mp h
      have hfirst := Leaves.op hs hf.1 hop
      have hsecond := ih hfirst.sized hf.2 hrest
      constructor
      · exact hsecond.sized
      · exact hfirst.grows.trans hsecond.grows
      · exact hsecond.backing.trans hfirst.backing
      · intro x y hin hout
        have hin₁ : s₁.surface.gfx.inside x y = true := by
          rw [hfirst.grows.inside]
          exact hin
        have hout₁ : ¬ s₁.presented.Covers x y := fun hcovers =>
          hout (hsecond.grows.covers x y hin₁ hcovers)
        have hmem := hsecond.mem_uncovered x y hin₁ hout
        rw [hfirst.grows.cell, hfirst.backing] at hmem
        rw [hmem, frameBlits, hop, paint_append]
        exact paint_plain (s₁.plain_frameBlits f) (hfirst.mem_uncovered x y hin hout₁)

/-! ## The plane after a frame -/

/-- A swap keeps the size. -/
theorem Sized.of_swap (hs : s.Sized) (h : s.swapBuffers = some s') : s'.Sized := by
  obtain ⟨s₂, hswap, hsurface, hclean, -⟩ := hs.swapBuffers
  obtain rfl := Option.some.inj (h.symm.trans hswap)
  have hwide := hs.wide
  have hhigh := hs.high
  constructor
  · rw [hsurface]
    exact hs.wide
  · rw [hsurface]
    exact hs.high
  · rw [hsurface]
    exact hs.backing
  · rw [hclean, hsurface]
    exact DirtyRect.within_clean (by omega) (by omega)

/-- The swap after a frame leaves the plane right just if no bitmap is missed. -/
theorem current_iff_unseen {f : List (Nc5874Op F)} (hs : s.Sized) (hcurrent : s.Current)
    (hf : ∀ o ∈ f, o.Draws) (h : s.frame fm face pixels f = some s') :
    s'.Sized ∧ (s'.Current ↔ s.Unseen fm face pixels f) := by
  obtain ⟨s₁, hops, hswap⟩ := Option.bind_eq_some_iff.mp h
  have hleaves := Leaves.ops hs hf hops
  refine ⟨hleaves.sized.of_swap hswap, ?_⟩
  obtain ⟨s₂, hswap₂, hsurface, -, -, hosd⟩ := hleaves.sized.swapBuffers
  obtain rfl := Option.some.inj (hswap.symm.trans hswap₂)
  have hcell : ∀ x y, s'.cell x y = s.cell x y := by
    intro x y
    rw [← hleaves.grows.cell, Nc5874.cell, Nc5874.cell, hsurface]
  have hin' : ∀ x y, s'.surface.gfx.inside x y = s.surface.gfx.inside x y := by
    intro x y
    rw [hsurface, hleaves.grows.inside]
  -- a pixel of the rectangle is converted, another has what the swap before left
  have hpixel : ∀ x y, s.surface.gfx.inside x y = true →
      (s'.osd (s'.cell x y) = osdPx (s'.surface.mem (s'.cell x y)) ↔
        s₁.presented.Covers x y ∨
          osdPx (paint s.surface.backing s.surface.mem (s.frameBlits fm face pixels f)
            (s.cell x y)) = osdPx (s.surface.mem (s.cell x y))) := by
    intro x y hin
    have hin₁ : s₁.surface.gfx.inside x y = true := by
      rw [hleaves.grows.inside]
      exact hin
    have hpx := hosd x y hin₁
    rw [hleaves.grows.cell] at hpx
    rw [hcell, hpx, hsurface]
    by_cases hcovers : s₁.presented.Covers x y
    · rw [if_pos hcovers]
      exact iff_of_true rfl (Or.inl hcovers)
    · rw [if_neg hcovers, or_iff_right hcovers, hleaves.mem_uncovered x y hin hcovers,
        hleaves.grows.osd, hcurrent x y hin]
      exact eq_comm
  constructor
  · intro hshown s₃ hops₃ x y hin
    obtain rfl := Option.some.inj (hops.symm.trans hops₃)
    exact (hpixel x y hin).mp (hshown x y ((hin' x y).trans hin))
  · intro hunseen x y hin
    rw [hin'] at hin
    exact (hpixel x y hin).mpr (hunseen s₁ hops x y hin)

/-- After each swap of a run the plane shows the surface, just if no frame has a bitmap that its
rectangle misses. -/
theorem shown_iff_of_current {frames : List (List (Nc5874Op F))} (hs : s.Sized)
    (hcurrent : s.Current) (hframes : ∀ f ∈ frames, ∀ o ∈ f, o.Draws) :
    s.Shown fm face pixels frames ↔ s.AllUnseen fm face pixels frames := by
  induction frames generalizing s with
  | nil => exact Iff.rfl
  | cons f frames ih =>
      rw [List.forall_mem_cons] at hframes
      rw [Shown, AllUnseen]
      constructor
      · intro hshown
        constructor
        · intro s₁ hops
          obtain ⟨s', hswap, -⟩ := (Leaves.ops hs hframes.1 hops).sized.swapBuffers
          have hframe : s.frame fm face pixels f = some s' := by
            rw [frame, hops]
            exact hswap
          have hstep := current_iff_unseen hs hcurrent hframes.1 hframe
          exact hstep.2.mp (hshown s' hframe).1 s₁ hops
        · intro s' hframe
          have hstep := current_iff_unseen hs hcurrent hframes.1 hframe
          obtain ⟨hnow, hlater⟩ := hshown s' hframe
          exact (ih hstep.1 hnow hframes.2).mp hlater
      · rintro ⟨hunseen, hlater⟩ s' hframe
        have hstep := current_iff_unseen hs hcurrent hframes.1 hframe
        have hnow := hstep.2.mpr hunseen
        exact ⟨hnow, (ih hstep.1 hnow hframes.2).mpr (hlater s' hframe)⟩

theorem toInt_toInt16 {n : UInt16} (h : n.toNat < 2 ^ 15) : n.toInt16.toInt = n.toNat := by
  rw [UInt16.toInt16, Int16.toInt, BitVec.toInt_eq_toNat_of_lt]
  · rfl
  · show 2 * n.toNat < 2 ^ 16
    omega

/-- The constructor gives a surface whose plane shows it. -/
theorem new_current {out : UInt32} {width height : UInt16} {allocated : Bool}
    (h : new out width height allocated = some s) : s.Sized ∧ s.Current := by
  unfold new at h
  simp only [] at h
  split at h
  · cases h
  · split at h
    · cases h
    · next hsize =>
      split at h
      · cases h
      · cases h
        simp only [UInt16.lt_iff_toNat_lt, not_or, not_lt] at hsize
        change 16 ≤ width.toNat ∧ width.toNat ≤ 1920 ∧ 16 ≤ height.toNat ∧ height.toNat ≤ 1080
          at hsize
        have hwide := toInt_toInt16 (n := width) (by omega)
        have hhigh := toInt_toInt16 (n := height) (by omega)
        refine ⟨?_, fun x y hin => show (0 : UInt16) = osdPx 0 by decide⟩
        constructor
        · show 16 ≤ width.toInt16.toInt ∧ width.toInt16.toInt ≤ 1920
          omega
        · show 16 ≤ height.toInt16.toInt ∧ height.toInt16.toInt ≤ 1080
          omega
        · show Backing.device (width.toUInt32 * 4) true = .device (u32 width.toInt16 * 4) true
          have hu : u32 width.toInt16 = width.toUInt32 := by
            rw [← UInt32.toNat_inj, toNat_u32 (by omega), hwide]
            rfl
          rw [hu]
        · show DirtyRect.clean.Within width.toInt16 height.toInt16
          exact DirtyRect.within_clean (by omega) (by omega)

/-! ## The box shows what was drawn -/

/-- After each swap the plane shows the surface, exactly when no frame has an RGB565 bitmap that
leaves another colour outside of the rectangle. -/
theorem shown_iff {out : UInt32} {width height : UInt16} {allocated : Bool}
    {frames : List (List (Nc5874Op F))} (h : new out width height allocated = some s)
    (hframes : ∀ f ∈ frames, ∀ o ∈ f, o.Draws) :
    s.Shown fm face pixels frames ↔ s.AllUnseen fm face pixels frames := by
  obtain ⟨hs, hcurrent⟩ := new_current h
  exact shown_iff_of_current hs hcurrent hframes

/-- A surface of 16 by 16 pixels, on 720p. -/
def smallBox : Nc5874 Empty where
  surface := {
    gfx := { LinuxGFX.canvas with width := 16, height := 16 }
    backing := .device 64 true
    mem := fun _ => 0 }
  dirty := .clean
  fullDirty := false
  osd := fun _ => 0

theorem new_smallBox : new 0x02D00500 16 16 true = some smallBox := rfl

/-- A pixel is shown. -/
theorem shown_pixel : smallBox.Shown FloatMath.none Empty.elim Empty.elim
    [[.call (.drawPixel 3 4 0xFFFF0000)]] := by
  refine (shown_iff new_smallBox ?_).mpr ⟨?_, fun s' _ => trivial⟩
  · simp [Nc5874Op.Draws, GfxCall.Draws]
  · intro s₁ _ x y _
    exact Or.inr rfl

/-- A white pixel of an RGB565 bitmap is not. -/
theorem not_shown_bitmap : ¬ smallBox.Shown FloatMath.none Empty.elim Empty.elim
    [[.call (.drawRGB565Bitmap 0 0 [0xFFFF] 1 1)]] := by
  intro hshown
  have hframe : ∃ s', smallBox.frame FloatMath.none Empty.elim Empty.elim
      [.call (.drawRGB565Bitmap 0 0 [0xFFFF] 1 1)] = some s' ∧
      s'.surface.gfx.inside 0 0 = true ∧ s'.osd (s'.cell 0 0) = 0 ∧
      s'.surface.mem (s'.cell 0 0) = 0xFFFFFFFF :=
    ⟨_, rfl, rfl, rfl, rfl⟩
  obtain ⟨s', hs', hin, hosd, hmem⟩ := hframe
  have hwhite := (hshown s' hs').1 0 0 hin
  rw [hosd, hmem] at hwhite
  exact absurd hwhite (by decide)

end Nc5874

end MFoES.Libgfx
