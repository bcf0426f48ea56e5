import MFoES.Libgfx.BaseClass

/-!
# What a recorder leaves out

On a device whose members a recorder shares, each store of a call has a counterpart in the blob:
the virtual functions are recorded as they are, a pixel that is blended is recorded as it looks
over 0, and the pixels of an RGB565 bitmap are left out (`Mark.replay`).  So what is left in a
cell is decided by the last store to it (`shows_iff`).
-/

namespace MFoES.Libgfx

/-! ## Marks -/

/-- How a step reaches a recorder: as a virtual function, pixel by pixel, or not at all. -/
inductive Via where
  | hook
  | pixel
  | blit
deriving DecidableEq

/-- How a step reaches a recorder. -/
def Step.via : Step → Via
  | .writePixel _ _ _ => .pixel
  | .writeFastVLine _ _ _ _ => .pixel
  | .writeFastHLine _ _ _ _ => .pixel
  | .drawPixel _ _ _ => .hook
  | .drawFastVLine _ _ _ _ => .hook
  | .drawFastHLine _ _ _ _ => .hook
  | .fillScreen _ => .hook
  | .drawRGB565Bitmap _ _ _ _ _ => .blit

/-- A store on the target, and how its step reaches the recorder. -/
structure Mark where
  via : Via
  store : Store
deriving DecidableEq

/-- The store of a pixel that was blended over 0. -/
def Store.flat (s : Store) : Store :=
  match s.ink with
  | .plain _ => s
  | .over color _ => ⟨s.cell, .plain (blendARGB color 0)⟩

namespace Mark

/-- What the blob has for a store. -/
def replay (m : Mark) : Option Store :=
  match m.via with
  | .hook => some m.store
  | .pixel => some m.store.flat
  | .blit => none

/-- A store leaves the same in its cell as the blob, where what was there before is `direct` on one
side and `replayed` on the other. -/
def Agrees (direct replayed : Int → UInt32) (m : Mark) : Prop :=
  match m.via, m.store.ink with
  | .hook, .plain _ => True
  | .hook, .over color src => blendARGB color (direct src) = blendARGB color (replayed src)
  | .pixel, .plain _ => True
  | .pixel, .over color src => blendARGB color (direct src) = blendARGB color 0
  | .blit, .plain color => color = replayed m.store.cell
  | .blit, .over color src => blendARGB color (direct src) = replayed m.store.cell

end Mark

variable {F : Type}

namespace Surface

variable (t : Surface F)

/-- The stores of steps, with how the steps reach a recorder. -/
def marks (steps : List Step) : Option (List Mark) :=
  inTurn (steps.map fun step => (t.stores step).map fun made => made.map (Mark.mk step.via))

/-- The bytes that a step takes in the blob. -/
def blobBytes : Step → Nat
  | .writePixel x y color => 9 * (t.writePixel x y color).length
  | .writeFastVLine x y h color => 9 * ((t.writeFastVLine x y h color).getD []).length
  | .writeFastHLine x y w color => 9 * ((t.writeFastHLine x y w color).getD []).length
  | .drawPixel _ _ _ => 9
  | .drawFastVLine _ _ _ _ => 11
  | .drawFastHLine _ _ _ _ => 11
  | .fillScreen _ => 5
  | .drawRGB565Bitmap _ _ _ _ _ => 0

/-- The last of the stores to a cell leaves the same there as the blob. -/
def Shows (made : List Mark) (cell : Int) : Prop :=
  ∀ before m after, made = before ++ m :: after → m.store.cell = cell →
    (∀ m' ∈ after, m'.store.cell ≠ cell) →
      m.Agrees (paint t.backing t.mem (before.map Mark.store))
        (paint t.backing t.mem (before.filterMap Mark.replay))

end Surface

/-! ## The last store to a cell -/

/-- A cell that is set is set for the last time. -/
theorem exists_last (made : List Mark) (cell : Int) :
    (∀ m ∈ made, m.store.cell ≠ cell) ∨
      ∃ before m after, made = before ++ m :: after ∧ m.store.cell = cell ∧
        ∀ m' ∈ after, m'.store.cell ≠ cell := by
  induction made with
  | nil => exact Or.inl (fun m hm => (List.not_mem_nil hm).elim)
  | cons m made ih =>
      rcases ih with hnone | ⟨before, m', after, rfl, hm', hafter⟩
      · rcases eq_or_ne m.store.cell cell with hm | hm
        · exact Or.inr ⟨[], m, made, rfl, hm, hnone⟩
        · exact Or.inl (List.forall_mem_cons.mpr ⟨hm, hnone⟩)
      · exact Or.inr ⟨m :: before, m', after, rfl, hm', hafter⟩

theorem Mark.cell_replay {m : Mark} {s : Store} (h : m.replay = some s) :
    s.cell = m.store.cell := by
  obtain ⟨via, ⟨cell, ink⟩⟩ := m
  cases via <;> cases ink <;> simp [Mark.replay, Store.flat] at h <;> simp [← h]

theorem replay_other {made : List Mark} {cell : Int} (h : ∀ m ∈ made, m.store.cell ≠ cell) :
    ∀ s ∈ made.filterMap Mark.replay, s.cell ≠ cell := by
  intro s hs
  obtain ⟨m, hm, hreplay⟩ := List.mem_filterMap.mp hs
  rw [Mark.cell_replay hreplay]
  exact h m hm

/-- What the blob leaves in a cell, from the last mark on it. -/
theorem paint_replay (b : Backing) (mem : Int → UInt32) {before after : List Mark} {m : Mark}
    (h : ∀ m' ∈ after, m'.store.cell ≠ m.store.cell) :
    paint b mem ((before ++ m :: after).filterMap Mark.replay) m.store.cell =
      match m.replay with
      | none => paint b mem (before.filterMap Mark.replay) m.store.cell
      | some s => s.value b (paint b mem (before.filterMap Mark.replay)) := by
  have hafter := replay_other h
  rw [List.filterMap_append, List.filterMap_cons]
  cases hm : m.replay with
  | none => rw [paint_append, paint_other hafter]
  | some s =>
      have hcell := Mark.cell_replay hm
      rw [← hcell] at hafter ⊢
      exact paint_last hafter

/-- What the stores leave in a cell, from the last mark on it. -/
theorem paint_store (b : Backing) (mem : Int → UInt32) {before after : List Mark} {m : Mark}
    (h : ∀ m' ∈ after, m'.store.cell ≠ m.store.cell) :
    paint b mem ((before ++ m :: after).map Mark.store) m.store.cell =
      m.store.value b (paint b mem (before.map Mark.store)) := by
  rw [List.map_append, List.map_cons]
  exact paint_last (List.forall_mem_map.mpr h)

section Device

variable {t : Surface F} {pitch : UInt32}

theorem Surface.Device.agrees_iff (ht : t.Device pitch) {direct replayed : Int → UInt32}
    {m : Mark} :
    (match m.replay with
      | none => replayed m.store.cell
      | some s => s.value t.backing replayed) = m.store.value t.backing direct ↔
        m.Agrees direct replayed := by
  obtain ⟨via, ⟨cell, ink⟩⟩ := m
  have hbacking := ht.backing
  cases via <;> cases ink <;>
    simp [Mark.replay, Mark.Agrees, Store.flat, Store.value, hbacking, Backing.keep, Backing.argb,
      eq_comm]

/-- The blob leaves what the stores leave, where it does so for the last store to each cell. -/
theorem Surface.Device.shows_iff (ht : t.Device pitch) (made : List Mark) :
    (∀ cell, paint t.backing t.mem (made.filterMap Mark.replay) cell =
        paint t.backing t.mem (made.map Mark.store) cell) ↔
      ∀ cell, t.Shows made cell := by
  refine forall_congr' fun cell => ?_
  constructor
  · rintro hcell before m after rfl rfl hafter
    rw [paint_replay _ _ hafter, paint_store _ _ hafter] at hcell
    exact ht.agrees_iff.mp hcell
  · intro hshows
    rcases exists_last made cell with hnone | ⟨before, m, after, rfl, rfl, hafter⟩
    · rw [paint_other (replay_other hnone), paint_other (List.forall_mem_map.mpr hnone)]
    · rw [paint_replay _ _ hafter, paint_store _ _ hafter]
      exact ht.agrees_iff.mpr (hshows before m after rfl rfl hafter)

end Device

theorem shows_single {t : Surface F} {m : Mark} :
    (∀ cell, t.Shows [m] cell) ↔ m.Agrees t.mem t.mem := by
  constructor
  · intro hshows
    exact hshows m.store.cell [] m [] rfl rfl (fun _ h => (List.not_mem_nil h).elim)
  · intro hagrees cell before m' after hmade _ _
    cases before with
    | nil =>
        obtain ⟨rfl, -⟩ := List.cons.inj hmade
        exact hagrees
    | cons m'' before => simp at hmade

/-! ## What a recorder has for a call -/

/-- Virtual functions leave what the blob has for stores, in a number of bytes. -/
structure Surface.Mirrors (t : Surface F) (vs : List VirtualCall) (made : List Mark) (n : Nat) :
    Prop where
  stores : t.storesOf (vs.flatMap VirtualCall.steps) = some (made.filterMap Mark.replay)
  bytes : (vs.map VirtualCall.size).sum = n

section Mirrors

variable {t : Surface F} {vs vs' : List VirtualCall} {made made' : List Mark} {n n' : Nat}

theorem Surface.Mirrors.nil : t.Mirrors [] [] 0 := ⟨rfl, rfl⟩

theorem Surface.Mirrors.append (h : t.Mirrors vs made n) (h' : t.Mirrors vs' made' n') :
    t.Mirrors (vs ++ vs') (made ++ made') (n + n') := by
  constructor
  · rw [List.flatMap_append, Surface.storesOf_append, h.stores, h'.stores, List.filterMap_append]
    rfl
  · rw [List.map_append, List.sum_append, h.bytes, h'.bytes]

/-- Pixel by pixel, nine bytes each. -/
theorem Surface.Mirrors.flatMap {α : Type} {is : List α} {reach : α → List VirtualCall}
    {write : α → List Store}
    (h : ∀ i ∈ is, t.Mirrors (reach i) ((write i).map (Mark.mk .pixel)) (9 * (write i).length)) :
    t.Mirrors (is.flatMap reach) ((is.flatMap write).map (Mark.mk .pixel))
      (9 * (is.flatMap write).length) := by
  induction is with
  | nil => exact .nil
  | cons i is ih =>
      rw [List.forall_mem_cons] at h
      rw [List.flatMap_cons, List.flatMap_cons, List.map_append, List.length_append, Nat.mul_add]
      exact h.1.append (ih h.2)

/-- A virtual function is recorded as it is. -/
theorem Surface.mirrors_hook {step : Step} {v : VirtualCall} {stores : List Store}
    (hstep : v.steps = [step]) (hstores : t.stores step = some stores) :
    t.Mirrors [v] (stores.map (Mark.mk .hook)) v.size := by
  constructor
  · rw [List.flatMap_singleton, hstep, List.filterMap_map]
    show (t.stores step).bind _ = _
    rw [hstores]
    simp [inTurn, Mark.replay, Function.comp_def]
  · simp

end Mirrors

/-- A column ends at a coordinate that an `int16_t` has. -/
def Step.Ends : Step → Prop
  | .writeFastVLine _ y h _ => -32768 ≤ y.toInt + h.toInt ∧ y.toInt + h.toInt ≤ 32767
  | _ => True

section Device

variable {t : Surface F} {pitch : UInt32} (ht : t.Device pitch)

include ht

theorem Surface.Device.mirrors_writePixel (x y : Int16) (color : UInt32) :
    t.Mirrors (t.gfx.reachPixel x y color) ((t.writePixel x y color).map (Mark.mk .pixel))
      (9 * (t.writePixel x y color).length) := by
  rcases Decidable.em (alpha color = 0 ∨ t.gfx.inside x y = false) with hout | hin
  · rw [LinuxGFX.reachPixel, if_pos hout, Surface.writePixel, if_pos hout]
    exact .nil
  · rw [not_or, Bool.not_eq_false] at hin
    obtain ⟨hcolor, hin⟩ := hin
    -- an opaque pixel is stored as it is
    have hplain : ∀ color', alpha color' = 0xFF →
        t.storesOf [.drawPixel x y color'] = some [⟨deviceCell pitch x y, .plain color'⟩] := by
      intro color' hcolor'
      have hne : alpha color' ≠ 0 := by
        rw [hcolor']
        decide
      have hpixel := ht.writePixel hne hin
      rw [spanStore, if_pos hcolor'] at hpixel
      simp [storesOf, inTurn, Surface.stores, Surface.drawPixel, ht.backing, hpixel]
    rw [ht.writePixel hcolor hin, LinuxGFX.reachPixel, if_neg (by simp [hcolor, hin]), spanStore]
    split
    · next hsolid =>
      exact ⟨hplain color hsolid, rfl⟩
    · next hblended =>
      exact ⟨hplain (blendARGB color 0) (alpha_blendARGB 0 hcolor hblended), rfl⟩

/-- What the recorder has for a step. -/
theorem Surface.Device.mirrors_step {step : Step} (hends : step.Ends) {stores : List Store}
    (hstores : t.stores step = some stores) :
    ∃ vs, t.gfx.reaches step = some vs ∧
      t.Mirrors vs (stores.map (Mark.mk step.via)) (t.blobBytes step) := by
  cases step with
  | writePixel x y color =>
      cases hstores
      exact ⟨_, rfl, ht.mirrors_writePixel x y color⟩
  | writeFastVLine x y h color =>
      change t.writeFastVLine x y h color = _ at hstores
      rw [Surface.blobBytes, hstores, LinuxGFX.reaches]
      rw [ht.writeFastVLine_eq hends.1 hends.2] at hstores
      split at hstores
      · next hcolor =>
        cases hstores
        exact ⟨[], if_pos hcolor, .nil⟩
      · next hcolor =>
        obtain ⟨is, his, rfl⟩ := Option.map_eq_some_iff.mp hstores
        rw [if_neg hcolor, his]
        exact ⟨_, rfl, .flatMap fun i _ => ht.mirrors_writePixel x i color⟩
  | writeFastHLine x y w color =>
      change t.writeFastHLine x y w color = _ at hstores
      rw [Surface.blobBytes, hstores, LinuxGFX.reaches]
      rw [ht.writeFastHLine_eq] at hstores
      split at hstores
      · next hout =>
        cases hstores
        exact ⟨[], if_pos hout, .nil⟩
      · next hin =>
        obtain ⟨is, his, rfl⟩ := Option.map_eq_some_iff.mp hstores
        rw [if_neg hin, his]
        exact ⟨_, rfl, .flatMap fun i _ => ht.mirrors_writePixel i y color⟩
  | drawPixel x y color => exact ⟨_, rfl, mirrors_hook rfl hstores⟩
  | drawFastVLine x y h color => exact ⟨_, rfl, mirrors_hook rfl hstores⟩
  | drawFastHLine x y w color => exact ⟨_, rfl, mirrors_hook rfl hstores⟩
  | fillScreen color => exact ⟨_, rfl, mirrors_hook rfl hstores⟩
  | drawRGB565Bitmap x y bitmap w h =>
      refine ⟨[], rfl, ?_, rfl⟩
      rw [List.filterMap_map]
      symm
      exact congrArg some (List.filterMap_eq_nil_iff.mpr fun _ _ => rfl)

/-- What the recorder has for the steps of a call. -/
theorem Surface.Device.mirrors {steps : List Step} (hends : ∀ step ∈ steps, step.Ends)
    {made : List Mark} (hmade : t.marks steps = some made) :
    ∃ vs, inTurn (steps.map t.gfx.reaches) = some vs ∧
      t.Mirrors vs made (steps.map t.blobBytes).sum := by
  induction steps generalizing made with
  | nil =>
      cases hmade
      exact ⟨[], rfl, .nil⟩
  | cons step steps ih =>
      rw [List.forall_mem_cons] at hends
      obtain ⟨first, hfirst, hmap⟩ := Option.bind_eq_some_iff.mp hmade
      obtain ⟨stores, hstores, rfl⟩ := Option.map_eq_some_iff.mp hfirst
      obtain ⟨rest, hrest, rfl⟩ := Option.map_eq_some_iff.mp hmap
      obtain ⟨v, hv, hstep⟩ := ht.mirrors_step hends.1 hstores
      obtain ⟨vs, hvs, hsteps⟩ := ih hends.2 hrest
      refine ⟨v ++ vs, ?_, hstep.append hsteps⟩
      rw [List.map_cons, inTurn, hv, hvs]
      rfl

end Device

/-- Marks are the stores. -/
theorem Surface.storesOf_marks (t : Surface F) (steps : List Step) :
    t.storesOf steps = (t.marks steps).map (List.map Mark.store) := by
  induction steps with
  | nil => rfl
  | cons step steps ih =>
      have hmarks : t.marks (step :: steps) =
          ((t.stores step).map (List.map (Mark.mk step.via))).bind fun first =>
            (t.marks steps).map (first ++ ·) := rfl
      show (t.stores step).bind (fun stores => (t.storesOf steps).map (stores ++ ·)) = _
      rw [hmarks, ih]
      cases t.stores step with
      | none => rfl
      | some stores => cases t.marks steps <;> simp [Function.comp_def]

/-! ## When a call is transparent -/

section Transparency

variable (fm : FloatMath) (face : F → GFXfont) (pixels : F → FontPixels)
  (fonts : Option (DRFontTable F)) {r : DrawReplay F} {t : Surface F} {c : GfxCall F}

/-- On a device whose members the recorder shares, the last store to each cell decides. -/
theorem transparent_iff_shows (hopen : r.Open) (hempty : r.stream = []) {pitch : UInt32}
    (ht : t.Device pitch) (hgfx : r.gfx = t.gfx) {steps : List Step} {made : List Mark}
    (hplan : c.plan fm face pixels t.gfx = some steps) (hends : ∀ step ∈ steps, step.Ends)
    (hmade : t.marks steps = some made) :
    Transparent fm face pixels fonts r t c ↔
      (steps.map t.blobBytes).sum < 2 ^ 32 - 1 ∧ ∀ cell, t.Shows made cell := by
  obtain ⟨vs, hvs, hmirrors⟩ := ht.mirrors hends hmade
  have hhooks : r.gfx.hooks fm face pixels c = some vs := by
    rw [LinuxGFX.hooks, hgfx, hplan]
    exact hvs
  have hstrokes : t.strokes fm face pixels c = some (made.map Mark.store) := by
    rw [Surface.strokes, hplan]
    show t.storesOf steps = _
    rw [Surface.storesOf_marks, hmade]
    rfl
  rw [transparent_iff_resolves fm face pixels fonts t c hopen hempty, ← ht.shows_iff]
  constructor
  · intro hresolves
    obtain ⟨vs', left, hvs', hfits, hleft, hcells⟩ := hresolves _ hstrokes
    cases hhooks.symm.trans hvs'
    cases hmirrors.stores.symm.trans hleft
    rw [hmirrors.bytes] at hfits
    exact ⟨hfits, hcells⟩
  · rintro ⟨hfits, hcells⟩ made' hmade'
    cases hstrokes.symm.trans hmade'
    refine ⟨vs, _, hhooks, ?_, hmirrors.stores, hcells⟩
    rw [hmirrors.bytes]
    exact hfits

/-- A call that stores opaque colours only is transparent, unless it is a bitmap that the recorder
leaves out. -/
theorem transparent_of_solid (hopen : r.Open) (hempty : r.stream = []) {pitch : UInt32}
    (ht : t.Device pitch) (hgfx : r.gfx = t.gfx) {steps : List Step} {made : List Mark}
    (hplan : c.plan fm face pixels t.gfx = some steps) (hends : ∀ step ∈ steps, step.Ends)
    (hmade : t.marks steps = some made) (hfits : (steps.map t.blobBytes).sum < 2 ^ 32 - 1)
    (hsolid : ∀ m ∈ made, m.via ≠ .blit ∧ ∃ color, m.store.ink = .plain color) :
    Transparent fm face pixels fonts r t c := by
  rw [transparent_iff_shows fm face pixels fonts hopen hempty ht hgfx hplan hends hmade]
  refine ⟨hfits, ?_⟩
  rintro cell before ⟨via, store⟩ after rfl - -
  obtain ⟨hvia, color, hcolor⟩ := hsolid ⟨via, store⟩ (by simp)
  simp only at hvia hcolor
  cases via with
  | hook => simp [Mark.Agrees, hcolor]
  | pixel => simp [Mark.Agrees, hcolor]
  | blit => exact (hvia rfl).elim

/-- A call through a reference to a recorder is transparent exactly when its pixels resolve on the
recorder as they do on the target. -/
theorem transparent_iff (hopen : r.Open) (hempty : r.stream = []) :
    (Transparent fm face pixels fonts r t c ↔ Resolves fm face pixels r.gfx t c) ∧
      ∀ pitch steps made, t.Device pitch → r.gfx = t.gfx →
        c.plan fm face pixels t.gfx = some steps → (∀ step ∈ steps, step.Ends) →
          t.marks steps = some made →
            (Transparent fm face pixels fonts r t c ↔
              (steps.map t.blobBytes).sum < 2 ^ 32 - 1 ∧ ∀ cell, t.Shows made cell) := by
  constructor
  · exact transparent_iff_resolves fm face pixels fonts t c hopen hempty
  · intro pitch steps made ht hgfx hplan hends hmade
    exact transparent_iff_shows fm face pixels fonts hopen hempty ht hgfx hplan hends hmade

end Transparency

/-! ## A line and a bitmap on a small screen -/

/-- A screen of four by four pixels. -/
def smallScreen (color : UInt32) : Surface Empty where
  gfx := (DrawReplay.new 4 4).gfx
  backing := .device 16 true
  mem := fun _ => color

theorem smallScreen_device (color : UInt32) : (smallScreen color).Device 16 where
  backing := rfl
  pitch_ne := by decide
  fits := by
    show (4 : Int16).toInt * ((16 / 4 : UInt32).toNat : Int) + (4 : Int16).toInt ≤ 2 ^ 32
    decide

theorem open_new (w h : Int16) : (DrawReplay.new w h : DrawReplay F).Open := ⟨rfl, rfl, rfl⟩

/-- A line of one pixel, half transparent. -/
def point : GfxCall Empty := .drawLine 0 0 0 0 0x800000FF

/-- A white pixel. -/
def whitePixel : GfxCall Empty := .drawRGB565Bitmap 0 0 [0xFFFF] 1 1

theorem plan_point (color : UInt32) :
    point.plan FloatMath.none Empty.elim Empty.elim (smallScreen color).gfx =
      some [.writePixel 0 0 0x800000FF] := by
  show point.plan FloatMath.none Empty.elim Empty.elim (DrawReplay.new 4 4).gfx = _
  decide

theorem marks_point (color : UInt32) :
    (smallScreen color).marks [.writePixel 0 0 0x800000FF] =
      some [⟨.pixel, ⟨0, .over 0x800000FF 0⟩⟩] := by
  show (smallScreen 0).marks [.writePixel 0 0 0x800000FF] = _
  decide

/-- On red the blob leaves another colour, and it leaves the bitmap out. -/
theorem not_transparent_red :
    ¬ Transparent FloatMath.none Empty.elim Empty.elim none (DrawReplay.new 4 4)
        (smallScreen 0xFFFF0000) point ∧
      ¬ Transparent FloatMath.none Empty.elim Empty.elim none (DrawReplay.new 4 4)
        (smallScreen 0xFFFF0000) whitePixel := by
  constructor
  · intro htransparent
    rw [transparent_iff_shows _ _ _ _ (open_new 4 4) rfl (smallScreen_device _) rfl
      (plan_point _) (by simp [Step.Ends]) (marks_point _)] at htransparent
    have hblend : blendARGB 0x800000FF 0xFFFF0000 = blendARGB 0x800000FF 0 :=
      shows_single.mp htransparent.2
    exact absurd hblend (by decide)
  · intro htransparent
    have hmarks : (smallScreen 0xFFFF0000).marks [.drawRGB565Bitmap 0 0 [0xFFFF] 1 1] =
        some [⟨.blit, ⟨0, .plain 0xFFFFFFFF⟩⟩] := by decide
    rw [transparent_iff_shows _ _ _ _ (open_new 4 4) rfl (smallScreen_device _) rfl
      rfl (by simp [Step.Ends]) hmarks] at htransparent
    have hwhite : (0xFFFFFFFF : UInt32) = 0xFFFF0000 := shows_single.mp htransparent.2
    exact absurd hwhite (by decide)

/-- On black the point looks as it does over 0. -/
theorem transparent_black :
    Transparent FloatMath.none Empty.elim Empty.elim none (DrawReplay.new 4 4)
      (smallScreen 0xFF000000) point := by
  have hshows := (transparent_iff FloatMath.none Empty.elim Empty.elim none (t := smallScreen _)
    (c := point) (open_new 4 4) rfl).2 16 _ _ (smallScreen_device 0xFF000000) rfl (plan_point _)
    (by simp [Step.Ends]) (marks_point _)
  refine hshows.mpr ⟨by decide, shows_single.mpr ?_⟩
  show blendARGB 0x800000FF 0xFF000000 = blendARGB 0x800000FF 0
  decide

end MFoES.Libgfx
