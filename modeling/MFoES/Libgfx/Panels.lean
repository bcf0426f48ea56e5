import MFoES.Libgfx.Rotation

/-!
# Painting on a panel

A panel is an unrotated surface with a buffer: a device whose rows do not overlap, or a canvas of
any format.  Its pixels are in rows, each in a cell of its own (`Panel.injective`), and a store of a
span changes its own pixel only.  What a span leaves behind is then a matter of which pixels it
has (`fills_iff`).
-/

namespace MFoES.Libgfx

variable {F : Type}

/-! ## Blending -/

theorem blendARGB_opaque {src : UInt32} (h : alpha src = 0xFF) (dst : UInt32) :
    blendARGB src dst = src := by
  rw [blendARGB, channel_alpha, if_pos h]

theorem blendARGB_transparent {src : UInt32} (h : alpha src = 0) (dst : UInt32) :
    blendARGB src dst = dst := by
  rw [blendARGB, channel_alpha, if_neg (by rw [h]; decide), if_pos h]

namespace Backing

/-- A value that a cell can have: what the cell keeps of its colour. -/
def Kept (b : Backing) (v : UInt32) : Prop := b.keep (b.argb v) = v

/-- What becomes of a cell that a colour is put over. -/
def blended (b : Backing) (color v : UInt32) : UInt32 := b.keep (blendARGB color (b.argb v))

/-- The colour makes no difference to any cell. -/
def Idle (b : Backing) (color : UInt32) : Prop := ∀ v, b.Kept v → b.blended color v = v

theorem idle_of_transparent (b : Backing) {color : UInt32} (h : alpha color = 0) :
    b.Idle color := by
  intro v hv
  rw [blended, blendARGB_transparent h]
  exact hv

end Backing

theorem spanStore_value (b : Backing) (mem : Int → UInt32) (color : UInt32) (cell : Int) :
    (spanStore color cell).value b mem = b.blended color (mem cell) := by
  rw [Store.value, spanStore]
  split
  · next hink =>
    split at hink
    · next hopaque =>
      cases hink
      rw [Backing.blended, blendARGB_opaque hopaque]
    · cases hink
  · next hink =>
    split at hink
    · cases hink
    · cases hink
      rfl

/-- Spans leave the cells that they do not have. -/
theorem paint_span_other {b : Backing} {mem : Int → UInt32} {color : UInt32} {l : List Int}
    {cell : Int} (h : cell ∉ l) : paint b mem (l.map (spanStore color)) cell = mem cell := by
  refine paint_other ?_
  rw [List.forall_mem_map]
  rintro c hc rfl
  exact h hc

/-- Spans that have a cell once put the colour over it. -/
theorem paint_span_own {b : Backing} {mem : Int → UInt32} {color : UInt32} {l : List Int}
    {cell : Int} (hl : l.Nodup) (h : cell ∈ l) :
    paint b mem (l.map (spanStore color)) cell = b.blended color (mem cell) := by
  obtain ⟨before, after, rfl⟩ := List.append_of_mem h
  obtain ⟨_, hafter, hbefore⟩ := List.nodup_append.mp hl
  have hnotAfter : ∀ s ∈ after.map (spanStore color), s.cell ≠ (spanStore color cell).cell := by
    rw [List.forall_mem_map]
    rintro c hc rfl
    exact (List.nodup_cons.mp hafter).1 hc
  have hnotBefore : cell ∉ before := fun hc => hbefore cell hc cell List.mem_cons_self rfl
  rw [List.map_append, List.map_cons]
  show paint b mem _ (spanStore color cell).cell = _
  rw [paint_last hnotAfter, spanStore_value, paint_span_other hnotBefore]

/-- A coordinate of a span that does not wrap, or is in front of every surface. -/
theorem toInt_span {a n : Int16} {k : Nat} (hk : k < n.toInt.toNat)
    (hclip : 0 ≤ (a + Int16.ofNat k).toInt) : (a + Int16.ofNat k).toInt = a.toInt + k := by
  have ha := a.toInt_lt
  have hn := n.toInt_lt
  have hk' : (Int16.ofNat k).toInt = k := Int16.toInt_ofNat_of_lt (by omega)
  rw [Int16.toInt_add, hk'] at hclip ⊢
  rw [Int.bmod_def] at hclip ⊢
  have hlow := a.le_toInt
  omega

/-- The place of a coordinate in a span. -/
theorem toInt_offset {a : Int16} {v : Int} (hlow : a.toInt ≤ v) (hhigh : v ≤ 32767) :
    (a + Int16.ofNat (v - a.toInt).toNat).toInt = v := by
  rw [toInt_add_ofNat (by omega)]
  omega

/-- The coordinates of a span are different ones. -/
theorem offset_injOn {a n : Int16} {k k' : Nat} (hk : k < n.toInt.toNat) (hk' : k' < n.toInt.toNat)
    (heq : a + Int16.ofNat k = a + Int16.ofNat k') : k = k' := by
  have hn := n.toInt_lt
  rw [Int16.add_right_inj, ← Int16.toInt_inj, Int16.toInt_ofNat_of_lt (by omega),
    Int16.toInt_ofNat_of_lt (by omega)] at heq
  omega

/-! ## Panels -/

/-- The clip. -/
def LinuxGFX.Inside (g : LinuxGFX F) (x y : Int) : Prop :=
  0 ≤ x ∧ x < g.width.toInt ∧ 0 ≤ y ∧ y < g.height.toInt

namespace Surface

/-- An unrotated surface with a buffer. -/
structure Panel (t : Surface F) : Prop where
  rotation : t.gfx.rotation = 0
  kind : (∃ pitch, t.Device pitch ∧ t.gfx.width.toInt ≤ (pitch / 4).toNat) ∨
    ∃ format, t.backing = .canvas format true

variable (t : Surface F)

/-- The pixels from one row to the next. -/
def stride : Int :=
  match t.backing with
  | .device pitch _ => (pitch / 4).toNat
  | .canvas _ _ => t.gfx.width.toInt

/-- The cell of a pixel. -/
def pixelCell (x y : Int) : Int := y * t.stride + x

variable {t}

theorem Panel.width_le (h : t.Panel) : t.gfx.width.toInt ≤ t.stride := by
  rw [stride]
  rcases h.kind with ⟨pitch, hdevice, hwidth⟩ | ⟨format, hb⟩
  · rw [hdevice.backing]
    exact hwidth
  · rw [hb]

/-- A pixel has a cell of its own. -/
theorem Panel.injective (h : t.Panel) {x y x' y' : Int} (hin : t.gfx.Inside x y)
    (hin' : t.gfx.Inside x' y') (heq : t.pixelCell x y = t.pixelCell x' y') : x = x' ∧ y = y' := by
  have hwidth := h.width_le
  obtain ⟨hx, hxW, hy, hyH⟩ := hin
  obtain ⟨hx', hxW', hy', hyH'⟩ := hin'
  have hown := Grid.own_rows (W := t.gfx.width.toInt) (H := t.gfx.height.toInt) (S := t.stride)
    (by omega) (Or.inl hwidth) (Int.le_refl _)
  exact hown.injective x y x' y' hx hxW hy hyH hx' hxW' hy' hyH' heq

theorem Panel.getPixelCell_eq (h : t.Panel) {x y : Int16} (hin : t.gfx.inside x y = true) :
    t.getPixelCell x y = t.pixelCell x.toInt y.toInt := by
  rw [getPixelCell, pixelCell, stride]
  rcases h.kind with ⟨pitch, hdevice, _⟩ | ⟨format, hb⟩
  · obtain ⟨hx, _, hy, _⟩ := inside_iff.mp hin
    rw [hdevice.backing]
    dsimp only
    rw [deviceCell, hdevice.toNat_cell hin, Int.natCast_add, Int.natCast_mul,
      Int.toNat_of_nonneg hx, Int.toNat_of_nonneg hy]
  · rw [hb]
    dsimp only
    rw [rotated, h.rotation]
    rfl

theorem Panel.setPixel_eq (h : t.Panel) {x y : Int16} (hin : t.gfx.inside x y = true) (ink : Ink) :
    t.setPixel x y ink = [⟨t.pixelCell x.toInt y.toInt, ink⟩] := by
  rw [← h.getPixelCell_eq hin, getPixelCell, Surface.setPixel, if_pos hin]
  rcases h.kind with ⟨pitch, hdevice, _⟩ | ⟨format, hb⟩
  · rw [hdevice.backing]
    rfl
  · rw [hb]
    dsimp only
    rw [rotated, h.rotation]
    rfl

theorem Panel.writePixel_eq (h : t.Panel) {x y : Int16} {color : UInt32} (hcolor : alpha color ≠ 0)
    (hin : t.gfx.inside x y = true) :
    t.writePixel x y color = [spanStore color (t.pixelCell x.toInt y.toInt)] := by
  have hdraws : ¬ (alpha color = 0 ∨ t.gfx.inside x y = false) := by
    rw [hin]
    simpa using hcolor
  rw [Surface.writePixel, if_neg hdraws, h.setPixel_eq hin, h.setPixel_eq hin,
    h.getPixelCell_eq hin, spanStore]
  split <;> rfl

theorem Panel.drawPixel_eq (h : t.Panel) (x y : Int16) (color : UInt32) :
    t.drawPixel x y color = t.writePixel x y color := by
  rw [Surface.drawPixel]
  rcases h.kind with ⟨pitch, hdevice, _⟩ | ⟨format, hb⟩
  · rw [hdevice.backing]
  · rw [hb]
    dsimp only
    by_cases hcolor : alpha color = 0
    · rw [Surface.writePixel, if_pos (Or.inl hcolor), setPixelRaw, if_pos (Or.inr hcolor)]
      split <;> rfl
    · split
      · next hin =>
        have hdraws : ¬ (true = false ∨ alpha color = 0) := by simpa using hcolor
        rw [h.writePixel_eq hcolor hin, ← h.getPixelCell_eq hin, getPixelCell, hb, setPixelRaw,
          if_neg hdraws]
      · next hout =>
        rw [writePixel_outside (Bool.not_eq_true _ ▸ hout)]

/-! ## Regions -/

/-- What is drawn returns and changes the pixels of a region that are in the clip, and no others:
whatever the cells have, each of them gets the colour over it, once. -/
def Fills (t : Surface F) (region : Int → Int → Prop) (color : UInt32)
    (drawn : Option (List Store)) : Prop :=
  ∃ stores, drawn = some stores ∧ ∀ mem, (∀ cell, t.backing.Kept (mem cell)) →
    (∀ x y, t.gfx.Inside x y → region x y →
      paint t.backing mem stores (t.pixelCell x y) =
        t.backing.blended color (mem (t.pixelCell x y))) ∧
    (∀ x y, t.gfx.Inside x y → ¬ region x y →
      paint t.backing mem stores (t.pixelCell x y) = mem (t.pixelCell x y)) ∧
    ∀ cell, (∀ x y, t.gfx.Inside x y → t.pixelCell x y ≠ cell) →
      paint t.backing mem stores cell = mem cell

/-- Stores of spans fill a region if their cells are those of its pixels, or if the colour makes no
difference; and not otherwise. -/
theorem fills_iff {region : Int → Int → Prop} {color : UInt32} {l : List Int}
    (hl : l.Nodup) (hcells : ∀ cell ∈ l, ∃ x y, t.gfx.Inside x y ∧ t.pixelCell x y = cell) :
    t.Fills region color (some (l.map (spanStore color))) ↔
      t.backing.Idle color ∨ ∀ x y, t.gfx.Inside x y → (t.pixelCell x y ∈ l ↔ region x y) := by
  constructor
  · rintro ⟨stores, hstores, hfills⟩
    rw [Option.some.injEq] at hstores
    subst hstores
    rw [or_iff_not_imp_left]
    intro hidle x y hin
    -- some value shows the difference; let every cell have it
    simp only [Backing.Idle, not_forall] at hidle
    obtain ⟨v, hv, hchanges⟩ := hidle
    obtain ⟨hpainted, hleft, _⟩ := hfills (fun _ => v) fun _ => hv
    constructor
    · intro hmem
      by_contra hout
      have hsame := hleft x y hin hout
      rw [paint_span_own hl hmem] at hsame
      exact hchanges hsame
    · intro hregion
      by_contra hmem
      have hsame := hpainted x y hin hregion
      rw [paint_span_other hmem] at hsame
      exact hchanges hsame.symm
  · intro hcases
    refine ⟨_, rfl, fun mem hmem => ⟨fun x y hin hregion => ?_, fun x y hin hout => ?_,
      fun cell hcell => ?_⟩⟩
    · by_cases hown : t.pixelCell x y ∈ l
      · exact paint_span_own hl hown
      · rcases hcases with hidle | hexact
        · rw [paint_span_other hown, hidle _ (hmem _)]
        · exact (hown ((hexact x y hin).mpr hregion)).elim
    · by_cases hown : t.pixelCell x y ∈ l
      · rcases hcases with hidle | hexact
        · rw [paint_span_own hl hown, hidle _ (hmem _)]
        · exact (hout ((hexact x y hin).mp hown)).elim
      · exact paint_span_other hown
    · refine paint_span_other fun hown => ?_
      obtain ⟨x, y, hin, heq⟩ := hcells cell hown
      exact hcell x y hin heq

/-! ## Rows and columns -/

/-- The cells of a row from `lo` up to `hi`. -/
def rowCells (t : Surface F) (lo hi y : Int) : List Int :=
  (List.range (hi - lo).toNat).map fun k : Nat => t.pixelCell (lo + k) y

/-- The cells of a column from `lo` up to `hi`. -/
def columnCells (t : Surface F) (x lo hi : Int) : List Int :=
  (List.range (hi - lo).toNat).map fun k : Nat => t.pixelCell x (lo + k)

theorem nodup_rowCells (lo hi y : Int) : (t.rowCells lo hi y).Nodup := by
  refine List.Nodup.map_on (fun k _ k' _ heq => ?_) List.nodup_range
  simp only [pixelCell] at heq
  omega

theorem Panel.nodup_columnCells (h : t.Panel) {x lo hi : Int} (hx : 0 ≤ x)
    (hxW : x < t.gfx.width.toInt) (hlo : 0 ≤ lo) (hhi : hi ≤ t.gfx.height.toInt) :
    (t.columnCells x lo hi).Nodup := by
  refine List.Nodup.map_on (fun k hk k' hk' heq => ?_) List.nodup_range
  rw [List.mem_range] at hk hk'
  have hin : ∀ k : Nat, k < (hi - lo).toNat → t.gfx.Inside x (lo + k) :=
    fun k hk => ⟨hx, hxW, by omega, by omega⟩
  have hsame := h.injective (hin k hk) (hin k' hk') heq
  omega

theorem mem_rowCells {lo hi y cell : Int} :
    cell ∈ t.rowCells lo hi y ↔ ∃ x, lo ≤ x ∧ x < hi ∧ t.pixelCell x y = cell := by
  simp only [rowCells, List.mem_map, List.mem_range]
  constructor
  · rintro ⟨k, hk, rfl⟩
    exact ⟨lo + k, by omega, by omega, rfl⟩
  · rintro ⟨x, hlo, hhi, rfl⟩
    exact ⟨(x - lo).toNat, by omega, by rw [show lo + ((x - lo).toNat : Int) = x by omega]⟩

theorem mem_columnCells {x lo hi cell : Int} :
    cell ∈ t.columnCells x lo hi ↔ ∃ y, lo ≤ y ∧ y < hi ∧ t.pixelCell x y = cell := by
  simp only [columnCells, List.mem_map, List.mem_range]
  constructor
  · rintro ⟨k, hk, rfl⟩
    exact ⟨lo + k, by omega, by omega, rfl⟩
  · rintro ⟨y, hlo, hhi, rfl⟩
    exact ⟨(y - lo).toNat, by omega, by rw [show lo + ((y - lo).toNat : Int) = y by omega]⟩

theorem Panel.pixelCell_mem_row (h : t.Panel) {x y lo hi row : Int} (hin : t.gfx.Inside x y)
    (hlo : 0 ≤ lo) (hhi : hi ≤ t.gfx.width.toInt) (hrow : 0 ≤ row)
    (hrowH : row < t.gfx.height.toInt) :
    t.pixelCell x y ∈ t.rowCells lo hi row ↔ y = row ∧ lo ≤ x ∧ x < hi := by
  rw [mem_rowCells]
  constructor
  · rintro ⟨x', hlo', hhi', heq⟩
    obtain ⟨rfl, rfl⟩ := h.injective ⟨by omega, by omega, hrow, hrowH⟩ hin heq
    exact ⟨rfl, hlo', hhi'⟩
  · rintro ⟨rfl, hlo', hhi'⟩
    exact ⟨x, hlo', hhi', rfl⟩

theorem Panel.pixelCell_mem_column (h : t.Panel) {x y lo hi column : Int}
    (hin : t.gfx.Inside x y) (hlo : 0 ≤ lo) (hhi : hi ≤ t.gfx.height.toInt)
    (hcolumn : 0 ≤ column) (hcolumnW : column < t.gfx.width.toInt) :
    t.pixelCell x y ∈ t.columnCells column lo hi ↔ x = column ∧ lo ≤ y ∧ y < hi := by
  rw [mem_columnCells]
  constructor
  · rintro ⟨y', hlo', hhi', heq⟩
    obtain ⟨rfl, rfl⟩ := h.injective ⟨hcolumn, hcolumnW, by omega, by omega⟩ hin heq
    exact ⟨rfl, hlo', hhi'⟩
  · rintro ⟨rfl, hlo', hhi'⟩
    exact ⟨y, hlo', hhi', rfl⟩

/-! ## Points -/

/-- A step for each of some points in the clip. -/
theorem Panel.storesOf_points (h : t.Panel) {color : UInt32} {l : List (Int16 × Int16)}
    (hin : ∀ p ∈ l, t.gfx.inside p.1 p.2 = true) (hcolor : alpha color ≠ 0) :
    t.storesOf (l.map fun p => .writePixel p.1 p.2 color) =
      some ((l.map fun p => t.pixelCell p.1.toInt p.2.toInt).map (spanStore color)) := by
  rw [storesOf, List.map_map, List.map_map, ← inTurn_singletons]
  refine congrArg inTurn (List.map_congr_left fun p hp => congrArg some ?_)
  exact h.writePixel_eq hcolor (hin p hp)

theorem storesOf_transparent {color : UInt32} (h : alpha color = 0) (l : List (Int16 × Int16)) :
    t.storesOf (l.map fun p => .writePixel p.1 p.2 color) = some [] := by
  induction l with
  | nil => rfl
  | cons p l ih =>
      have hnone : t.writePixel p.1 p.2 color = [] := if_pos (.inl h)
      rw [storesOf, List.map_cons, List.map_cons, inTurn, ← storesOf, ih, stores, hnone]
      rfl

/-- Points that are drawn one by one fill the region that they are. -/
theorem Panel.fills_points (h : t.Panel) (color : UInt32) {l : List (Int16 × Int16)}
    (hl : l.Nodup) (hin : ∀ p ∈ l, t.gfx.inside p.1 p.2 = true) :
    t.Fills (fun x y => ∃ p ∈ l, p.1.toInt = x ∧ p.2.toInt = y) color
      (t.storesOf (l.map fun p => .writePixel p.1 p.2 color)) := by
  have hclip : ∀ p ∈ l, t.gfx.Inside p.1.toInt p.2.toInt := fun p hp => inside_iff.mp (hin p hp)
  by_cases hcolor : alpha color = 0
  · rw [storesOf_transparent hcolor]
    exact (fills_iff .nil nofun).mpr (.inl (t.backing.idle_of_transparent hcolor))
  · rw [h.storesOf_points hin hcolor]
    refine (fills_iff ?_ ?_).mpr (.inr fun x y hxy => ?_)
    · refine List.Nodup.map_on (fun p hp q hq heq => ?_) hl
      obtain ⟨hx, hy⟩ := h.injective (hclip p hp) (hclip q hq) heq
      exact Prod.ext (Int16.toInt_inj.mp hx) (Int16.toInt_inj.mp hy)
    · intro cell hcell
      obtain ⟨p, hp, rfl⟩ := List.mem_map.mp hcell
      exact ⟨_, _, hclip p hp, rfl⟩
    · rw [List.mem_map]
      constructor
      · rintro ⟨p, hp, heq⟩
        exact ⟨p, hp, h.injective (hclip p hp) hxy heq⟩
      · rintro ⟨p, hp, rfl, rfl⟩
        exact ⟨p, hp, rfl⟩

end Surface

end MFoES.Libgfx
