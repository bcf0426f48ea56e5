import MFoES.Libgfx.Panels

/-!
# Blits of RGB565 bitmaps

`drawRGB565Bitmap` cuts a bitmap by hand in `int16_t` and writes it into the draw buffer.  Where
nothing wraps its cut is that of `writePixel` on each pixel.  What is left there differs all the
same: its colours have their low bits filled up, which `fromRGB565` leaves at 0; on a canvas its
rows are no pixels apart; and a canvas of another format has no draw buffer
(`drawRGB565Bitmap_agrees_iff`).
-/

namespace MFoES.Libgfx

variable {F : Type}

/-! ## Colours -/

/-- `fromRGB565`. -/
def fromRGB565 (c : UInt16) : UInt32 :=
  let r := ((c >>> 11) &&& 0x1F).toUInt8 <<< 3
  let g := ((c >>> 5) &&& 0x3F).toUInt8 <<< 2
  let b := (c &&& 0x1F).toUInt8 <<< 3
  solidRGB r g b

/-- The channels of a colour that has nothing to fill its low bits with. -/
def Dark (c : UInt16) : Prop :=
  ((c >>> 11) &&& 0x1F).toUInt8 < 4 ∧ ((c >>> 5) &&& 0x3F).toUInt8 < 16 ∧ (c &&& 0x1F).toUInt8 < 4

theorem toNat_solidRGB (r g b : UInt8) :
    (solidRGB r g b).toNat = ((255 * 256 + r.toNat) * 256 + g.toNat) * 256 + b.toNat := by
  have hr := r.toNat_lt
  have hg := g.toNat_lt
  have hb := b.toNat_lt
  simp only [solidRGB, UInt32.toNat_or, UInt32.toNat_shiftLeft, UInt32.reduceToNat,
    Nat.reduceMod, UInt8.toNat_toUInt32, Nat.shiftLeft_eq]
  rw [Nat.mod_eq_of_lt (by omega), Nat.mod_eq_of_lt (by omega)]
  -- the channels have bits of their own
  have hred : 4278190080 ||| r.toNat * 2 ^ 16 = 2 ^ 16 * (255 * 256 + r.toNat) := by
    rw [show 4278190080 = 2 ^ 24 * 255 from rfl, ← Nat.two_pow_add_eq_or_of_lt (by omega)]
    omega
  have hgreen : 2 ^ 16 * (255 * 256 + r.toNat) ||| g.toNat * 2 ^ 8 =
      2 ^ 8 * ((255 * 256 + r.toNat) * 256 + g.toNat) := by
    rw [← Nat.two_pow_add_eq_or_of_lt (by omega)]
    omega
  rw [hred, hgreen, ← Nat.two_pow_add_eq_or_of_lt (by omega)]
  omega

theorem solidRGB_inj {r g b r' g' b' : UInt8} :
    solidRGB r g b = solidRGB r' g' b' ↔ r = r' ∧ g = g' ∧ b = b' := by
  constructor
  · intro h
    have hr := r.toNat_lt
    have hg := g.toNat_lt
    have hb := b.toNat_lt
    have hr' := r'.toNat_lt
    have hg' := g'.toNat_lt
    have hb' := b'.toNat_lt
    have hnat := congrArg UInt32.toNat h
    rw [toNat_solidRGB, toNat_solidRGB] at hnat
    simp only [← UInt8.toNat_inj]
    omega
  · rintro ⟨rfl, rfl, rfl⟩
    rfl

/-- Low bits that are filled up with the high ones stay 0 where those are. -/
theorem filled_five_iff {v : UInt8} (hv : v.toNat < 32) :
    v <<< 3 ||| v >>> 2 = v <<< 3 ↔ v < 4 := by
  have hall : ∀ k : Fin 32, UInt8.ofNat k <<< 3 ||| UInt8.ofNat k >>> 2 = UInt8.ofNat k <<< 3 ↔
      UInt8.ofNat k < 4 := by decide
  simpa using hall ⟨v.toNat, hv⟩

theorem filled_six_iff {v : UInt8} (hv : v.toNat < 64) :
    v <<< 2 ||| v >>> 4 = v <<< 2 ↔ v < 16 := by
  have hall : ∀ k : Fin 64, UInt8.ofNat k <<< 2 ||| UInt8.ofNat k >>> 4 = UInt8.ofNat k <<< 2 ↔
      UInt8.ofNat k < 16 := by decide
  simpa using hall ⟨v.toNat, hv⟩

/-- The two conversions agree on the dark colours only. -/
theorem argbFromRGB565_eq_iff (c : UInt16) : argbFromRGB565 c = fromRGB565 c ↔ Dark c := by
  have hmask : ∀ d m : UInt16, (d &&& m).toUInt8.toNat ≤ m.toNat := by
    intro d m
    rw [UInt16.toNat_toUInt8, UInt16.toNat_and]
    exact (Nat.mod_le _ _).trans Nat.and_le_right
  rw [argbFromRGB565, fromRGB565, solidRGB_inj, Dark]
  refine and_congr ?_ (and_congr ?_ ?_)
  · exact filled_five_iff (Nat.lt_succ_of_le (hmask _ 0x1F))
  · exact filled_six_iff (Nat.lt_succ_of_le (hmask _ 0x3F))
  · exact filled_five_iff (Nat.lt_succ_of_le (hmask _ 0x1F))

/-! ## Stores of colours -/

/-- A cell that is set is set by a last store. -/
theorem exists_last_store {l : List Store} {cell : Int} (h : cell ∈ l.map Store.cell) :
    ∃ before s after, l = before ++ s :: after ∧ s.cell = cell ∧ ∀ s' ∈ after, s'.cell ≠ cell := by
  induction l with
  | nil => cases h
  | cons s l ih =>
      by_cases hrest : cell ∈ l.map Store.cell
      · obtain ⟨before, s', after, rfl, hs', hafter⟩ := ih hrest
        exact ⟨s :: before, s', after, rfl, hs', hafter⟩
      · rw [List.map_cons, List.mem_cons, or_iff_left hrest] at h
        exact ⟨[], s, l, rfl, h.symm, fun s' hs' heq => hrest (List.mem_map.mpr ⟨s', hs', heq⟩)⟩

/-- Where plain stores set a cell, they leave the same whatever there was. -/
theorem paint_plain_const (b : Backing) {l : List Store} (hl : ∀ s ∈ l, s.Plain) {cell : Int}
    (hcell : cell ∈ l.map Store.cell) : ∃ v, ∀ mem, paint b mem l cell = v := by
  obtain ⟨before, s, after, rfl, rfl, hafter⟩ := exists_last_store hcell
  obtain ⟨color, hink⟩ := hl s (List.mem_append_right _ List.mem_cons_self)
  exact ⟨b.keep color, fun mem => by rw [paint_last hafter, Store.value, hink]⟩

/-- A cell that is set to one colour only. -/
theorem paint_colour {b : Backing} {mem : Int → UInt32} {l : List Store} {cell : Int}
    {color : UInt32} (hcell : cell ∈ l.map Store.cell)
    (h : ∀ s ∈ l, s.cell = cell → s.ink = .plain color) :
    paint b mem l cell = b.keep color := by
  obtain ⟨before, s, after, rfl, rfl, hafter⟩ := exists_last_store hcell
  have hink := h s (List.mem_append_right _ List.mem_cons_self) rfl
  rw [paint_last hafter, Store.value, hink]

/-- Plain stores that agree on every content set the same cells. -/
theorem cells_eq_of_paint_eq {b : Backing} {l l' : List Store} (hl : ∀ s ∈ l, s.Plain)
    (h : ∀ mem, paint b mem l = paint b mem l') {cell : Int} (hcell : cell ∈ l.map Store.cell) :
    cell ∈ l'.map Store.cell := by
  by_contra hnone
  obtain ⟨v, hv⟩ := paint_plain_const b hl hcell
  have hother : ∀ s ∈ l', s.cell ≠ cell :=
    fun s hs heq => hnone (List.mem_map.mpr ⟨s, hs, heq⟩)
  have hleft := congrFun (h fun _ => v + 1) cell
  rw [hv, paint_other hother] at hleft
  have hone : (v + 1).toNat = v.toNat := by rw [← hleft]
  have hlt := v.toNat_lt
  rw [UInt32.toNat_add] at hone
  have hnat : (1 : UInt32).toNat = 1 := rfl
  omega

/-! ## The cut -/

/-- What the blit computes in one direction: where it starts, what it leaves out before, and how
much it takes. -/
def blitCut (a n size : Int16) : Int16 × Int16 × Int16 :=
  let (a0, skip) := if a < 0 then (0, -a) else (a, 0)
  let a1 := if size < a + n then size else a + n
  (a0, skip, a1 - a0)

/-- What the blit computes in one direction does not wrap. -/
def BlitFits (a n size : Int16) : Prop :=
  a.toInt + n.toInt ≤ 32767 ∧ a.toInt ≤ size.toInt + 32768

/-- Nothing of a span is on the surface. -/
def Unseen (a n size : Int16) : Prop := min size.toInt (a.toInt + n.toInt) ≤ max 0 a.toInt

theorem blitCut_start (a n size : Int16) : (blitCut a n size).1.toInt = max 0 a.toInt := by
  have hzero : (0 : Int16).toInt = 0 := rfl
  rw [blitCut]
  by_cases hneg : a < 0
  · rw [if_pos hneg]
    rw [Int16.lt_iff_toInt_lt] at hneg
    dsimp only
    omega
  · rw [if_neg hneg]
    rw [Int16.lt_iff_toInt_lt] at hneg
    dsimp only
    omega

theorem blitCut_length (a size : Int16) {n : Int16} (hn : 0 < n.toInt) :
    (BlitFits a n size →
      (blitCut a n size).2.2.toInt = min size.toInt (a.toInt + n.toInt) - max 0 a.toInt) ∧
    (¬ BlitFits a n size → 0 < (blitCut a n size).2.2.toInt ∧ 1 ≤ a.toInt ∧
      (0 ≤ size.toInt → (blitCut a n size).2.2.toInt = n.toInt)) := by
  have ha := a.le_toInt
  have ha' := a.toInt_lt
  have hn' := n.toInt_lt
  have hsize := size.le_toInt
  have hsize' := size.toInt_lt
  have hlength : (blitCut a n size).2.2.toInt =
      (min size.toInt (a + n).toInt - max 0 a.toInt).bmod (2 ^ 16) := by
    rw [← blitCut_start a n size, ← toInt_ite_lt]
    exact Int16.toInt_sub _ _
  rw [hlength, BlitFits]
  by_cases hend : a.toInt + n.toInt ≤ 32767
  · rw [toInt_add_of (by omega) hend, and_iff_right hend]
    generalize hlast : a.toInt + n.toInt = last at hend ⊢
    by_cases hfits : a.toInt ≤ size.toInt + 32768
    · exact ⟨fun _ => Int.bmod_eq_of_le (by omega) (by omega), fun h => (h hfits).elim⟩
    · -- the surface ends too far in front of the span
      have hwrap : (min size.toInt last - max 0 a.toInt).bmod (2 ^ 16) =
          size.toInt - a.toInt + 65536 := by
        rw [Int.bmod_def]
        omega
      rw [hwrap]
      exact ⟨fun h => (hfits h).elim, fun _ => ⟨by omega, by omega, fun _ => by omega⟩⟩
  · -- the end of the span is in front of it
    have hsum : (a + n).toInt = a.toInt + n.toInt - 65536 := by
      rw [Int16.toInt_add, Int.bmod_def]
      omega
    rw [hsum]
    refine ⟨fun h => (hend h.1).elim, fun _ => ?_⟩
    rcases Int.le_total (a.toInt + n.toInt - 65536) size.toInt with hle | hle
    · have hwrap : (min size.toInt (a.toInt + n.toInt - 65536) - max 0 a.toInt).bmod (2 ^ 16) =
          n.toInt := by
        rw [Int.min_eq_right hle, Int.bmod_def]
        omega
      rw [hwrap]
      exact ⟨hn, by omega, fun _ => rfl⟩
    · have hwrap : 0 < (min size.toInt (a.toInt + n.toInt - 65536) - max 0 a.toInt).bmod
          (2 ^ 16) := by
        rw [Int.min_eq_left hle, Int.bmod_def]
        omega
      exact ⟨hwrap, by omega, fun _ => by omega⟩

/-- The blit draws nothing where nothing of the span is on the surface, and where that shows. -/
theorem blitCut_length_le_iff {a n size : Int16} (hn : 0 < n.toInt) :
    (blitCut a n size).2.2 ≤ 0 ↔ BlitFits a n size ∧ Unseen a n size := by
  obtain ⟨hfits, hwraps⟩ := blitCut_length a size hn
  have hzero : (0 : Int16).toInt = 0 := rfl
  rw [Int16.le_iff_toInt_le, Unseen]
  by_cases h : BlitFits a n size
  · have hlength := hfits h
    rw [and_iff_right h]
    omega
  · have hlength := (hwraps h).1
    exact iff_of_false (by omega) fun hboth => h hboth.1

theorem blitCut_skip {a n size : Int16} (hn : 0 < n.toInt) (h : 0 < (blitCut a n size).2.2.toInt) :
    (blitCut a n size).2.1.toInt = max 0 a.toInt - a.toInt := by
  have ha := a.le_toInt
  have hn' := n.toInt_lt
  have hzero : (0 : Int16).toInt = 0 := rfl
  have hlow : -32768 < a.toInt := by
    by_contra hmin
    obtain ⟨hfits, _⟩ := blitCut_length a size hn
    rw [hfits ⟨by omega, by have := size.le_toInt; omega⟩] at h
    omega
  rw [blitCut]
  by_cases hneg : a < 0
  · rw [if_pos hneg]
    rw [Int16.lt_iff_toInt_lt] at hneg
    dsimp only
    rw [toInt_neg_of hlow]
    omega
  · rw [if_neg hneg]
    rw [Int16.lt_iff_toInt_lt] at hneg
    dsimp only
    omega

/-! ## Pixel by pixel -/

namespace Surface

variable (t : Surface F)

/-- `writePixel` on each pixel of a bitmap, converted by `fromRGB565`. -/
def writeBitmap (x y : Int16) (bitmap : List UInt16) (w h : Int16) : List Store :=
  (cells w h).flatMap fun p =>
    t.writePixel (x + Int16.ofNat p.1) (y + Int16.ofNat p.2)
      (fromRGB565 (cellOf bitmap w p.1 p.2 0))

/-- The blit leaves what `writePixel` leaves on each pixel, whatever there was. -/
def BlitAgrees (x y : Int16) (bitmap : List UInt16) (w h : Int16) : Prop :=
  ∀ mem, paint t.backing mem (t.drawRGB565Bitmap x y bitmap w h) =
    paint t.backing mem (t.writeBitmap x y bitmap w h)

/-- The pixels of a bitmap on the surface. -/
def Seen (x y w h : Int16) (x' y' : Int) : Prop :=
  t.gfx.Inside x' y' ∧ x.toInt ≤ x' ∧ x' < x.toInt + w.toInt ∧ y.toInt ≤ y' ∧
    y' < y.toInt + h.toInt

variable {t}

theorem alpha_fromRGB565 (c : UInt16) : alpha (fromRGB565 c) = 0xFF := alpha_solidRGB _ _ _

/-- The stores of the pixels. -/
theorem Panel.writePixel_fromRGB565 (h : t.Panel) {x y : Int16} (hin : t.gfx.inside x y = true)
    (c : UInt16) :
    t.writePixel x y (fromRGB565 c) =
      [⟨t.pixelCell x.toInt y.toInt, .plain (fromRGB565 c)⟩] := by
  have hcolor : alpha (fromRGB565 c) ≠ 0 := by
    rw [alpha_fromRGB565]
    decide
  rw [h.writePixel_eq hcolor hin, spanStore, if_pos (alpha_fromRGB565 c)]

theorem Panel.mem_writeBitmap (hp : t.Panel) {x y w h : Int16} {bitmap : List UInt16} {s : Store} :
    s ∈ t.writeBitmap x y bitmap w h ↔ ∃ x' y', t.Seen x y w h x' y' ∧
      s = ⟨t.pixelCell x' y', .plain (fromRGB565
        (cellOf bitmap w (x' - x.toInt).toNat (y' - y.toInt).toNat 0))⟩ := by
  rw [writeBitmap, List.mem_flatMap]
  simp only [cells, List.mem_flatMap, List.mem_map, List.mem_range]
  constructor
  · rintro ⟨_, ⟨j, hj, i, hi, rfl⟩, hs⟩
    dsimp only at hs
    cases hin : t.gfx.inside (x + Int16.ofNat i) (y + Int16.ofNat j) with
    | false =>
        rw [writePixel_outside hin] at hs
        cases hs
    | true =>
        rw [hp.writePixel_fromRGB565 hin, List.mem_singleton] at hs
        have hinside := inside_iff.mp hin
        have hx := toInt_span hi hinside.1
        have hy := toInt_span hj hinside.2.2.1
        rw [hx, hy] at hs hinside
        refine ⟨x.toInt + i, y.toInt + j, ⟨hinside, by omega, by omega, by omega, by omega⟩, ?_⟩
        rw [hs, show (x.toInt + i - x.toInt).toNat = i by omega,
          show (y.toInt + j - y.toInt).toNat = j by omega]
  · rintro ⟨x', y', ⟨hin, hx, hxw, hy, hyh⟩, rfl⟩
    have hinside := hin
    obtain ⟨_, hxW, _, hyH⟩ := hinside
    have hW := t.gfx.width.toInt_lt
    have hH := t.gfx.height.toInt_lt
    have hxt := toInt_offset hx (show x' ≤ 32767 by omega)
    have hyt := toInt_offset hy (show y' ≤ 32767 by omega)
    refine ⟨_, ⟨(y' - y.toInt).toNat, by omega, (x' - x.toInt).toNat, by omega, rfl⟩, ?_⟩
    dsimp only
    rw [hp.writePixel_fromRGB565 (inside_iff.mpr (by rw [hxt, hyt]; exact hin)), hxt, hyt]
    exact List.mem_singleton_self _

/-- Stores of pixels, each in its colour. -/
def PaintsPixels (t : Surface F) (seen : Int → Int → Prop) (color : Int → Int → UInt32)
    (l : List Store) : Prop :=
  ∀ s, s ∈ l ↔ ∃ x y, seen x y ∧ s = ⟨t.pixelCell x y, .plain (color x y)⟩

theorem Panel.paint_pixel (h : t.Panel) {seen : Int → Int → Prop} {color : Int → Int → UInt32}
    {l : List Store} (hseen : ∀ x y, seen x y → t.gfx.Inside x y)
    (hl : t.PaintsPixels seen color l) (mem : Int → UInt32) {x y : Int} (hxy : seen x y) :
    paint t.backing mem l (t.pixelCell x y) = t.backing.keep (color x y) := by
  refine paint_colour (List.mem_map.mpr ⟨_, (hl _).mpr ⟨x, y, hxy, rfl⟩, rfl⟩) fun s hs hcell => ?_
  obtain ⟨x', y', hxy', rfl⟩ := (hl s).mp hs
  obtain ⟨rfl, rfl⟩ := h.injective (hseen _ _ hxy') (hseen _ _ hxy) hcell
  rfl

theorem PaintsPixels.paint_other {seen : Int → Int → Prop} {color : Int → Int → UInt32}
    {l : List Store} (hl : t.PaintsPixels seen color l) (mem : Int → UInt32) {cell : Int}
    (hcell : ∀ x y, seen x y → t.pixelCell x y ≠ cell) : paint t.backing mem l cell = mem cell := by
  refine Libgfx.paint_other fun s hs => ?_
  obtain ⟨x, y, hxy, rfl⟩ := (hl s).mp hs
  exact hcell x y hxy

/-- The same pixels in two colourings. -/
theorem Panel.paint_pixels_iff (h : t.Panel) {seen : Int → Int → Prop}
    {color color' : Int → Int → UInt32} {l l' : List Store}
    (hseen : ∀ x y, seen x y → t.gfx.Inside x y) (hl : t.PaintsPixels seen color l)
    (hl' : t.PaintsPixels seen color' l') :
    (∀ mem, paint t.backing mem l = paint t.backing mem l') ↔
      ∀ x y, seen x y → t.backing.keep (color x y) = t.backing.keep (color' x y) := by
  constructor
  · intro hagree x y hxy
    have hvalue := congrFun (hagree fun _ => 0) (t.pixelCell x y)
    rwa [h.paint_pixel hseen hl _ hxy, h.paint_pixel hseen hl' _ hxy] at hvalue
  · intro hsame mem
    funext cell
    by_cases hcell : ∃ x y, seen x y ∧ t.pixelCell x y = cell
    · obtain ⟨x, y, hxy, rfl⟩ := hcell
      rw [h.paint_pixel hseen hl _ hxy, h.paint_pixel hseen hl' _ hxy, hsame x y hxy]
    · push Not at hcell
      rw [hl.paint_other _ hcell, hl'.paint_other _ hcell]

theorem Panel.plain_writeBitmap (hp : t.Panel) {x y w h : Int16} {bitmap : List UInt16} {s : Store}
    (hs : s ∈ t.writeBitmap x y bitmap w h) : s.Plain := by
  obtain ⟨_, _, _, rfl⟩ := hp.mem_writeBitmap.mp hs
  exact ⟨_, rfl⟩

/-- Where the blit agrees with the pixels, it sets each of theirs. -/
theorem Panel.mem_blit_of_seen (hp : t.Panel) {x y w h : Int16} {bitmap : List UInt16}
    (hagrees : t.BlitAgrees x y bitmap w h) {x' y' : Int} (hseen : t.Seen x y w h x' y') :
    t.pixelCell x' y' ∈ (t.drawRGB565Bitmap x y bitmap w h).map Store.cell :=
  cells_eq_of_paint_eq (fun _ => hp.plain_writeBitmap) (fun mem => (hagrees mem).symm)
    (List.mem_map.mpr ⟨_, hp.mem_writeBitmap.mpr ⟨x', y', hseen, rfl⟩, rfl⟩)

/-! ## The blit -/

/-- The cell that the blit gives a pixel of its cut. -/
def blitCell (t : Surface F) (x y w h : Int16) (i j : Nat) : Int :=
  (u32 (blitCut y h t.gfx.height).1 * (t.backing.pitch / 4) +
    u32 (blitCut x w t.gfx.width).1).toNat + j * (t.backing.pitch / 4).toNat + i

/-- The blit by its cuts. -/
theorem drawRGB565Bitmap_eq (x y : Int16) (bitmap : List UInt16) (w h : Int16) :
    t.drawRGB565Bitmap x y bitmap w h =
      if t.backing.hasBuffer = false ∨ (blitCut x w t.gfx.width).2.2 ≤ 0 ∨
          (blitCut y h t.gfx.height).2.2 ≤ 0 then []
      else (cells (blitCut x w t.gfx.width).2.2 (blitCut y h t.gfx.height).2.2).map fun p =>
        ⟨((u32 (blitCut y h t.gfx.height).1 * (t.backing.pitch / 4) +
            u32 (blitCut x w t.gfx.width).1).toNat + p.2 * (t.backing.pitch / 4).toNat + p.1 : Nat),
          .plain (argbFromRGB565 (bitmap.getD
            (((u32 (blitCut y h t.gfx.height).2.1 * u32 w +
              u32 (blitCut x w t.gfx.width).2.1).toNat : Int) + p.2 * w.toInt + p.1).toNat 0))⟩ :=
  rfl

theorem blit_of_empty {x y w h : Int16} (hw : 0 < w.toInt) (hh : 0 < h.toInt)
    (hempty : t.backing.hasBuffer = false ∨
      (BlitFits x w t.gfx.width ∧ Unseen x w t.gfx.width) ∨
        BlitFits y h t.gfx.height ∧ Unseen y h t.gfx.height) (bitmap : List UInt16) :
    t.drawRGB565Bitmap x y bitmap w h = [] := by
  rw [← blitCut_length_le_iff hw, ← blitCut_length_le_iff hh] at hempty
  rw [drawRGB565Bitmap_eq, if_pos hempty]

/-- Along one axis, a pixel of the cut is one of the bitmap, inside. -/
theorem seen_of_cut {a n size : Int} {i : Nat} (h : (i : Int) < min size (a + n) - max 0 a) :
    (0 ≤ max 0 a + i ∧ max 0 a + i < size) ∧ (a ≤ max 0 a + i ∧ max 0 a + i < a + n) ∧
      (max 0 a + i - a).toNat = (max 0 a - a).toNat + i := by
  have hlow := Int.le_max_left 0 a
  have hfirst := Int.le_max_right 0 a
  obtain ⟨hhigh, hlast⟩ := Int.lt_min.mp (Int.add_lt_of_lt_sub_right h)
  generalize max 0 a = start at hlow hfirst hhigh hlast ⊢
  omega

theorem cut_of_seen {a n size p : Int} (hlow : 0 ≤ p) (hhigh : p < size) (hfirst : a ≤ p)
    (hlast : p < a + n) :
    ((p - max 0 a).toNat : Int) < min size (a + n) - max 0 a ∧
      max 0 a + ((p - max 0 a).toNat : Int) = p ∧
      (max 0 a - a).toNat + (p - max 0 a).toNat = (p - a).toNat := by
  have hstart : max 0 a ≤ p := Int.max_le.mpr ⟨hlow, hfirst⟩
  have hfirst' := Int.le_max_right 0 a
  have hlast' : p < min size (a + n) := Int.lt_min.mpr ⟨hhigh, hlast⟩
  generalize max 0 a = start at hstart hfirst' ⊢
  generalize min size (a + n) = last at hlast' ⊢
  omega

section Blit

variable {x y w h : Int16} (hw : 0 < w.toInt) (hh : 0 < h.toInt)
  (hbuffer : t.backing.hasBuffer = true) (hdw : 0 < (blitCut x w t.gfx.width).2.2.toInt)
  (hdh : 0 < (blitCut y h t.gfx.height).2.2.toInt)

include hw hh hbuffer hdw hdh

/-- The stores of a blit that draws something. -/
theorem mem_drawRGB565Bitmap (bitmap : List UInt16) {s : Store} :
    s ∈ t.drawRGB565Bitmap x y bitmap w h ↔
      ∃ i j : Nat, i < (blitCut x w t.gfx.width).2.2.toInt ∧
        j < (blitCut y h t.gfx.height).2.2.toInt ∧
        s = ⟨t.blitCell x y w h i j, .plain (argbFromRGB565
          (cellOf bitmap w ((max 0 x.toInt - x.toInt).toNat + i)
            ((max 0 y.toInt - y.toInt).toNat + j) 0))⟩ := by
  have hsome : ¬ (t.backing.hasBuffer = false ∨ (blitCut x w t.gfx.width).2.2 ≤ 0 ∨
      (blitCut y h t.gfx.height).2.2 ≤ 0) := by
    rw [hbuffer, Int16.le_iff_toInt_le, Int16.le_iff_toInt_le]
    simp only [Bool.true_eq_false, false_or, not_or]
    exact ⟨Int.not_le.mpr hdw, Int.not_le.mpr hdh⟩
  have hskip := blitCut_skip hw hdw
  have hskip' := blitCut_skip hh hdh
  have hx := x.le_toInt
  have hy := y.le_toInt
  have hw' := w.toInt_lt
  have hsrc : (u32 (blitCut y h t.gfx.height).2.1 * u32 w +
      u32 (blitCut x w t.gfx.width).2.1).toNat =
      (max 0 y.toInt - y.toInt).toNat * w.toInt.toNat + (max 0 x.toInt - x.toInt).toNat := by
    have hrow : (max 0 y.toInt - y.toInt).toNat * w.toInt.toNat ≤ 32768 * 32767 :=
      Nat.mul_le_mul (by omega) (by omega)
    rw [UInt32.toNat_add, UInt32.toNat_mul, toNat_u32 (by omega), toNat_u32 (by omega),
      toNat_u32 (by omega), hskip, hskip', Nat.mod_add_mod, Nat.mod_eq_of_lt (by omega)]
  have hcolour : ∀ i j : Nat, (((u32 (blitCut y h t.gfx.height).2.1 * u32 w +
      u32 (blitCut x w t.gfx.width).2.1).toNat : Int) + j * w.toInt + i).toNat =
      ((max 0 y.toInt - y.toInt).toNat + j) * w.toInt.toNat +
        ((max 0 x.toInt - x.toInt).toNat + i) := by
    intro i j
    have hwidth : (j : Int) * w.toInt = (j * w.toInt.toNat : Nat) := by
      rw [Int.natCast_mul, Int.toNat_of_nonneg (Int.le_of_lt hw)]
    rw [hsrc, hwidth, Nat.add_mul]
    omega
  rw [drawRGB565Bitmap_eq, if_neg hsome]
  simp only [List.mem_map, cells, List.mem_flatMap, List.mem_range]
  constructor
  · rintro ⟨_, ⟨j, hj, i, hi, rfl⟩, rfl⟩
    refine ⟨i, j, by omega, by omega, ?_⟩
    simp only [hcolour, cellOf, blitCell, Int.natCast_add, Int.natCast_mul]
  · rintro ⟨i, j, hi, hj, rfl⟩
    refine ⟨(i, j), ⟨j, by omega, i, by omega, rfl⟩, ?_⟩
    simp only [hcolour, cellOf, blitCell, Int.natCast_add, Int.natCast_mul]

/-- A blit that lands on its pixels agrees with them in dark colours. -/
theorem Panel.blitAgrees_iff_dark (hp : t.Panel) (hkeep : ∀ c, t.backing.keep c = c)
    (hfits : BlitFits x w t.gfx.width) (hfits' : BlitFits y h t.gfx.height)
    (hlands : ∀ i j : Nat, i < (blitCut x w t.gfx.width).2.2.toInt →
      j < (blitCut y h t.gfx.height).2.2.toInt →
      t.blitCell x y w h i j = t.pixelCell (max 0 x.toInt + i) (max 0 y.toInt + j))
    (bitmap : List UInt16) :
    t.BlitAgrees x y bitmap w h ↔ ∀ x' y', t.Seen x y w h x' y' →
      Dark (cellOf bitmap w (x' - x.toInt).toNat (y' - y.toInt).toNat 0) := by
  have hlength := (blitCut_length _ _ hw).1 hfits
  have hlength' := (blitCut_length _ _ hh).1 hfits'
  have hblit : t.PaintsPixels (t.Seen x y w h)
      (fun x' y' => argbFromRGB565 (cellOf bitmap w (x' - x.toInt).toNat (y' - y.toInt).toNat 0))
      (t.drawRGB565Bitmap x y bitmap w h) := by
    intro s
    rw [mem_drawRGB565Bitmap hw hh hbuffer hdw hdh]
    constructor
    · rintro ⟨i, j, hi, hj, rfl⟩
      obtain ⟨hx, hxl, hcol⟩ := seen_of_cut (hlength ▸ hi)
      obtain ⟨hy, hyl, hrow⟩ := seen_of_cut (hlength' ▸ hj)
      refine ⟨max 0 x.toInt + i, max 0 y.toInt + j, ⟨⟨hx.1, hx.2, hy.1, hy.2⟩,
        hxl.1, hxl.2, hyl.1, hyl.2⟩, ?_⟩
      dsimp only
      rw [hlands i j hi hj, hcol, hrow]
    · rintro ⟨x', y', ⟨⟨hx, hxW, hy, hyH⟩, hxl, hxw, hyl, hyh⟩, rfl⟩
      obtain ⟨hi, hx', hcol⟩ := cut_of_seen hx hxW hxl hxw
      obtain ⟨hj, hy', hrow⟩ := cut_of_seen hy hyH hyl hyh
      rw [← hlength] at hi
      rw [← hlength'] at hj
      refine ⟨(x' - max 0 x.toInt).toNat, (y' - max 0 y.toInt).toNat, hi, hj, ?_⟩
      rw [hlands _ _ hi hj, hx', hy', hcol, hrow]
  rw [BlitAgrees, hp.paint_pixels_iff (fun _ _ hseen => hseen.1) hblit
    fun s => hp.mem_writeBitmap]
  simp only [hkeep, argbFromRGB565_eq_iff]

/-- Where a blit that draws something agrees with the pixels, its cells are theirs. -/
theorem Panel.seen_of_blitAgrees (hp : t.Panel) {bitmap : List UInt16}
    (hagrees : t.BlitAgrees x y bitmap w h) {i j : Nat}
    (hi : i < (blitCut x w t.gfx.width).2.2.toInt)
    (hj : j < (blitCut y h t.gfx.height).2.2.toInt) :
    ∃ x' y', t.Seen x y w h x' y' ∧ t.pixelCell x' y' = t.blitCell x y w h i j := by
  have hplain : ∀ s ∈ t.drawRGB565Bitmap x y bitmap w h, s.Plain := by
    intro s hs
    obtain ⟨_, _, _, _, rfl⟩ := (mem_drawRGB565Bitmap hw hh hbuffer hdw hdh bitmap).mp hs
    exact ⟨_, rfl⟩
  have hcell := cells_eq_of_paint_eq hplain hagrees (List.mem_map.mpr
    ⟨_, (mem_drawRGB565Bitmap hw hh hbuffer hdw hdh bitmap).mpr ⟨i, j, hi, hj, rfl⟩, rfl⟩)
  obtain ⟨s, hs, heq⟩ := List.mem_map.mp hcell
  obtain ⟨x', y', hseen, rfl⟩ := hp.mem_writeBitmap.mp hs
  exact ⟨x', y', hseen, heq⟩

/-- The other way round. -/
theorem Panel.blit_of_seen (hp : t.Panel) {bitmap : List UInt16}
    (hagrees : t.BlitAgrees x y bitmap w h) {x' y' : Int} (hseen : t.Seen x y w h x' y') :
    ∃ i j : Nat, i < (blitCut x w t.gfx.width).2.2.toInt ∧
      j < (blitCut y h t.gfx.height).2.2.toInt ∧ t.pixelCell x' y' = t.blitCell x y w h i j := by
  obtain ⟨s, hs, heq⟩ := List.mem_map.mp (hp.mem_blit_of_seen hagrees hseen)
  obtain ⟨i, j, hi, hj, rfl⟩ := (mem_drawRGB565Bitmap hw hh hbuffer hdw hdh bitmap).mp hs
  exact ⟨i, j, hi, hj, heq.symm⟩

end Blit

/-- A pixel in the clip on which the cuts agree. -/
theorem seen_corner {x y w h : Int16} (hw : 0 < w.toInt) (hh : 0 < h.toInt)
    (hx : ¬ Unseen x w t.gfx.width) (hy : ¬ Unseen y h t.gfx.height) :
    t.Seen x y w h (max 0 x.toInt) (max 0 y.toInt) := by
  rw [Unseen] at hx hy
  exact ⟨⟨by omega, by omega, by omega, by omega⟩, by omega, by omega, by omega, by omega⟩

theorem Panel.writeBitmap_of_unseen (hp : t.Panel) {x y w h : Int16}
    (hunseen : Unseen x w t.gfx.width ∨ Unseen y h t.gfx.height) (bitmap : List UInt16) :
    t.writeBitmap x y bitmap w h = [] := by
  rw [List.eq_nil_iff_forall_not_mem]
  intro s hs
  obtain ⟨x', y', ⟨⟨hx, hxW, hy, hyH⟩, hxl, hxw, hyl, hyh⟩, _⟩ := hp.mem_writeBitmap.mp hs
  rw [Unseen, Unseen] at hunseen
  omega

/-- The pixels of a bitmap that are on the surface are dark. -/
def SeenDark (t : Surface F) (x y : Int16) (bitmap : List UInt16) (w h : Int16) : Prop :=
  ∀ x' y', t.Seen x y w h x' y' →
    Dark (cellOf bitmap w (x' - x.toInt).toNat (y' - y.toInt).toNat 0)

/-- Where nothing of a bitmap is on the surface, and the cut shows it. -/
def Missed (t : Surface F) (x y w h : Int16) : Prop :=
  (BlitFits x w t.gfx.width ∧ Unseen x w t.gfx.width) ∨
    BlitFits y h t.gfx.height ∧ Unseen y h t.gfx.height

theorem Panel.blitAgrees_of_missed (hp : t.Panel) {x y w h : Int16} (hw : 0 < w.toInt)
    (hh : 0 < h.toInt) (hmissed : t.Missed x y w h) (bitmap : List UInt16) :
    t.BlitAgrees x y bitmap w h := by
  intro mem
  have hunseen : Unseen x w t.gfx.width ∨ Unseen y h t.gfx.height :=
    hmissed.imp And.right And.right
  rw [blit_of_empty hw hh (Or.inr hmissed), hp.writeBitmap_of_unseen hunseen]

/-- What the blit takes where it does not miss. -/
theorem length_of_not_missed {x y w h : Int16} (hw : 0 < w.toInt) (hh : 0 < h.toInt)
    (hmissed : ¬ t.Missed x y w h) :
    0 < (blitCut x w t.gfx.width).2.2.toInt ∧ 0 < (blitCut y h t.gfx.height).2.2.toInt := by
  rw [Missed, ← blitCut_length_le_iff hw, ← blitCut_length_le_iff hh, not_or,
    Int16.le_iff_toInt_le, Int16.le_iff_toInt_le] at hmissed
  exact ⟨Int.not_le.mp hmissed.1, Int.not_le.mp hmissed.2⟩

/-- On a device the blit lands on the pixels of its cut, if the first of them is in the clip. -/
theorem Device.blitCell_eq {pitch : UInt32} (hdevice : t.Device pitch) {x y : Int16}
    (hx : max 0 x.toInt < t.gfx.width.toInt) (hy : max 0 y.toInt < t.gfx.height.toInt)
    (w h : Int16) (i j : Nat) :
    t.blitCell x y w h i j = t.pixelCell (max 0 x.toInt + i) (max 0 y.toInt + j) := by
  have hstart := blitCut_start x w t.gfx.width
  have hstart' := blitCut_start y h t.gfx.height
  have hpitch : t.backing.pitch = pitch := by rw [hdevice.backing]; rfl
  have hstride : t.stride = (pitch / 4).toNat := by rw [stride, hdevice.backing]
  have hin : t.gfx.inside (blitCut x w t.gfx.width).1 (blitCut y h t.gfx.height).1 = true :=
    inside_iff.mpr (by omega)
  have hfirst : ((u32 (blitCut y h t.gfx.height).1 * (pitch / 4) +
      u32 (blitCut x w t.gfx.width).1).toNat : Int) =
      max 0 y.toInt * (pitch / 4).toNat + max 0 x.toInt := by
    rw [hdevice.toNat_cell hin, hstart, hstart']
    simp
  rw [blitCell, hpitch, hfirst, pixelCell, hstride, Int.add_mul]
  omega

/-- Where the blit on a device agrees with the pixels, nothing wraps: its last cell would be behind
every pixel. -/
theorem Device.fits_of_blitAgrees {pitch : UInt32} (hdevice : t.Device pitch) (hp : t.Panel)
    {x y w h : Int16} (hw : 0 < w.toInt) (hh : 0 < h.toInt)
    (hdw : 0 < (blitCut x w t.gfx.width).2.2.toInt)
    (hdh : 0 < (blitCut y h t.gfx.height).2.2.toInt) {bitmap : List UInt16}
    (hagrees : t.BlitAgrees x y bitmap w h) :
    BlitFits x w t.gfx.width ∧ BlitFits y h t.gfx.height := by
  by_contra hfits
  have hwidth := hp.width_le
  obtain ⟨hcut, hwraps⟩ := blitCut_length x t.gfx.width hw
  obtain ⟨hcut', hwraps'⟩ := blitCut_length y t.gfx.height hh
  obtain ⟨x', y', ⟨⟨hx, hxW, hy, hyH⟩, hxl, hxw, hyl, hyh⟩, heq⟩ :=
    hp.seen_of_blitAgrees hw hh hdevice.hasBuffer hdw hdh hagrees
      (i := (blitCut x w t.gfx.width).2.2.toInt.toNat - 1)
      (j := (blitCut y h t.gfx.height).2.2.toInt.toNat - 1) (by omega) (by omega)
  rw [hdevice.blitCell_eq (by omega) (by omega), pixelCell, pixelCell] at heq
  generalize (blitCut x w t.gfx.width).2.2.toInt = dw at hdw hcut hwraps heq
  generalize (blitCut y h t.gfx.height).2.2.toInt = dh at hdh hcut' hwraps' heq
  rw [show ((dh.toNat - 1 : Nat) : Int) = dh - 1 by omega,
    show ((dw.toNat - 1 : Nat) : Int) = dw - 1 by omega] at heq
  generalize t.stride = S at hwidth heq
  have hW' := t.gfx.width.toInt_lt
  have hH' := t.gfx.height.toInt_lt
  have hx' := x.toInt_lt
  have hy' := y.toInt_lt
  by_cases hfits' : BlitFits x w t.gfx.width
  · have hover : ¬ BlitFits y h t.gfx.height := fun h => hfits ⟨hfits', h⟩
    have hcolumn := hcut hfits'
    have hrow := hwraps' hover
    have hbelow : y' + 1 ≤ max 0 y.toInt + (dh - 1) := by
      rw [BlitFits] at hover
      omega
    have hmul := Int.mul_le_mul_of_nonneg_right hbelow (show 0 ≤ S by omega)
    rw [Int.add_mul, Int.one_mul] at hmul
    omega
  · have hcolumn := hwraps hfits'
    have hright : x' < max 0 x.toInt + (dw - 1) := by
      rw [BlitFits] at hfits'
      omega
    have hbelow : y' ≤ max 0 y.toInt + (dh - 1) := by
      by_cases hrows : BlitFits y h t.gfx.height
      · have hlength' := hcut' hrows
        omega
      · have hlength' := hwraps' hrows
        rw [BlitFits] at hrows
        omega
    have hmul := Int.mul_le_mul_of_nonneg_right hbelow (show 0 ≤ S by omega)
    omega

/-- A device. -/
theorem Device.blitAgrees_iff {pitch : UInt32} (hdevice : t.Device pitch) (hp : t.Panel)
    {x y w h : Int16} (hw : 0 < w.toInt) (hh : 0 < h.toInt) (bitmap : List UInt16) :
    t.BlitAgrees x y bitmap w h ↔ t.Missed x y w h ∨
      BlitFits x w t.gfx.width ∧ BlitFits y h t.gfx.height ∧ t.SeenDark x y bitmap w h := by
  by_cases hmissed : t.Missed x y w h
  · exact iff_of_true (hp.blitAgrees_of_missed hw hh hmissed bitmap) (Or.inl hmissed)
  · rw [or_iff_right hmissed]
    obtain ⟨hdw, hdh⟩ := length_of_not_missed hw hh hmissed
    by_cases hfits : BlitFits x w t.gfx.width ∧ BlitFits y h t.gfx.height
    · rw [← and_assoc, and_iff_right hfits]
      have hlength := (blitCut_length x t.gfx.width hw).1 hfits.1
      have hlength' := (blitCut_length y t.gfx.height hh).1 hfits.2
      exact hp.blitAgrees_iff_dark hw hh hdevice.hasBuffer hdw hdh
        (fun c => by rw [hdevice.backing]; rfl) hfits.1 hfits.2
        (fun i j _ _ => hdevice.blitCell_eq (by omega) (by omega) w h i j) bitmap
    · exact iff_of_false
        (fun hagrees => hfits (hdevice.fits_of_blitAgrees hp hw hh hdw hdh hagrees))
        fun h => hfits ⟨h.1, h.2.1⟩

section Canvas

variable (hb : t.backing = .canvas .argb8888 true)

include hb

/-- The rows of a canvas are no pixels apart for the blit, so all of them land in the first one. -/
theorem blitCell_canvas (x y w h : Int16) (i j : Nat) :
    t.blitCell x y w h i j = max 0 x.toInt + i := by
  have hstart := blitCut_start x w t.gfx.width
  have hpitch : t.backing.pitch / 4 = 0 := by rw [hb]; rfl
  rw [blitCell, hpitch, UInt32.mul_zero, UInt32.zero_add, toNat_u32 (by omega), hstart,
    Int.toNat_of_nonneg (by omega)]
  simp

/-- Where the blit on a canvas agrees with the pixels, nothing wraps, and row 0 is the only one
that is seen. -/
theorem Panel.oneRow_of_blitAgrees (hp : t.Panel) {x y w h : Int16} (hw : 0 < w.toInt)
    (hh : 0 < h.toInt) (hdw : 0 < (blitCut x w t.gfx.width).2.2.toInt)
    (hdh : 0 < (blitCut y h t.gfx.height).2.2.toInt) {bitmap : List UInt16}
    (hagrees : t.BlitAgrees x y bitmap w h) :
    BlitFits x w t.gfx.width ∧ BlitFits y h t.gfx.height ∧ y.toInt ≤ 0 ∧
      min t.gfx.height.toInt (y.toInt + h.toInt) = 1 := by
  have hbuffer : t.backing.hasBuffer = true := by rw [hb]; rfl
  have hstride : t.stride = t.gfx.width.toInt := by rw [stride, hb]
  obtain ⟨hcut, hwraps⟩ := blitCut_length x t.gfx.width hw
  have hcells : ∀ i : Nat, i < (blitCut x w t.gfx.width).2.2.toInt →
      ∃ x' y', t.Seen x y w h x' y' ∧ y' * t.gfx.width.toInt + x' = max 0 x.toInt + i := by
    intro i hi
    obtain ⟨x', y', hseen, heq⟩ :=
      hp.seen_of_blitAgrees hw hh hbuffer hdw hdh hagrees (j := 0) hi (by omega)
    rw [blitCell_canvas hb, pixelCell, hstride] at heq
    exact ⟨x', y', hseen, heq⟩
  have hbehind : ∀ {v : Int}, 1 ≤ v → 0 ≤ t.gfx.width.toInt →
      t.gfx.width.toInt ≤ v * t.gfx.width.toInt := by
    intro v hv hW
    have hmul := Int.mul_le_mul_of_nonneg_right hv hW
    rwa [Int.one_mul] at hmul
  have hx' := x.toInt_lt
  have hh' := h.toInt_lt
  have hH := t.gfx.height.le_toInt
  have hW' := t.gfx.width.toInt_lt
  -- its first cell is a pixel of row 0
  obtain ⟨u, v, ⟨⟨hu, huW, hv, hvH⟩, hul, huw, hvl, hvh⟩, hcell⟩ := hcells 0 (by omega)
  have htop : v = 0 := by
    by_contra hne
    have hrow := hbehind (show 1 ≤ v by omega) (by omega)
    omega
  subst htop
  have hfits' : BlitFits y h t.gfx.height := ⟨by omega, by omega⟩
  have hfits : BlitFits x w t.gfx.width := by
    by_contra hover
    obtain ⟨_, hpos, hlength⟩ := hwraps hover
    rw [BlitFits] at hover
    -- the cell behind row 0 is in column 0 of row 1
    obtain ⟨u', v', ⟨⟨hu', huW', hv', _⟩, hul', _⟩, hcell'⟩ :=
      hcells (t.gfx.width.toInt - x.toInt).toNat (by omega)
    rcases (show v' = 0 ∨ 1 ≤ v' by omega) with rfl | hrow
    · omega
    · have hlow := hbehind hrow (by omega)
      omega
  refine ⟨hfits, hfits', by omega, ?_⟩
  by_contra hmore
  have hlength := hcut hfits
  have hseen : t.Seen x y w h (max 0 x.toInt) 1 :=
    ⟨⟨by omega, by omega, by omega, by omega⟩, by omega, by omega, by omega, by omega⟩
  obtain ⟨i, j, hi, _, heq⟩ := hp.blit_of_seen hw hh hbuffer hdw hdh hagrees hseen
  rw [blitCell_canvas hb, pixelCell, hstride] at heq
  omega

/-- A canvas with a draw buffer. -/
theorem Panel.blitAgrees_canvas_iff (hp : t.Panel) {x y w h : Int16} (hw : 0 < w.toInt)
    (hh : 0 < h.toInt) (bitmap : List UInt16) :
    t.BlitAgrees x y bitmap w h ↔ t.Missed x y w h ∨
      BlitFits x w t.gfx.width ∧ BlitFits y h t.gfx.height ∧ y ≤ 0 ∧
        min t.gfx.height.toInt (y.toInt + h.toInt) = 1 ∧ t.SeenDark x y bitmap w h := by
  by_cases hmissed : t.Missed x y w h
  · exact iff_of_true (hp.blitAgrees_of_missed hw hh hmissed bitmap) (Or.inl hmissed)
  · rw [or_iff_right hmissed]
    obtain ⟨hdw, hdh⟩ := length_of_not_missed hw hh hmissed
    have hbuffer : t.backing.hasBuffer = true := by rw [hb]; rfl
    have hzero : (0 : Int16).toInt = 0 := rfl
    rw [Int16.le_iff_toInt_le, hzero]
    by_cases hfits : BlitFits x w t.gfx.width ∧ BlitFits y h t.gfx.height ∧ y.toInt ≤ 0 ∧
        min t.gfx.height.toInt (y.toInt + h.toInt) = 1
    · obtain ⟨hfits, hfits', htop, hone⟩ := hfits
      have hlength' := (blitCut_length y t.gfx.height hh).1 hfits'
      rw [and_iff_right hfits, and_iff_right hfits', and_iff_right htop, and_iff_right hone]
      refine hp.blitAgrees_iff_dark hw hh hbuffer hdw hdh (fun c => by rw [hb]; rfl) hfits hfits'
        (fun i j _ hj => ?_) bitmap
      obtain rfl : j = 0 := by omega
      rw [blitCell_canvas hb, pixelCell, show max 0 y.toInt + ((0 : Nat) : Int) = 0 by omega,
        Int.zero_mul, Int.zero_add]
    · exact iff_of_false
        (fun hagrees => hfits (hp.oneRow_of_blitAgrees hb hw hh hdw hdh hagrees))
        fun h => hfits ⟨h.1, h.2.1, h.2.2.1, h.2.2.2.1⟩

end Canvas

/-- A canvas without a draw buffer, on which a blit draws nothing. -/
theorem Panel.blitAgrees_of_noBuffer_iff (hp : t.Panel) (hbuffer : t.backing.hasBuffer = false)
    {x y w h : Int16} (hw : 0 < w.toInt) (hh : 0 < h.toInt) (bitmap : List UInt16) :
    t.BlitAgrees x y bitmap w h ↔ Unseen x w t.gfx.width ∨ Unseen y h t.gfx.height := by
  have hblit := blit_of_empty (x := x) (y := y) hw hh (Or.inl hbuffer) bitmap
  constructor
  · intro hagrees
    by_contra! hseen
    have hcell := hp.mem_blit_of_seen hagrees (seen_corner hw hh hseen.1 hseen.2)
    rw [hblit] at hcell
    cases hcell
  · intro hunseen mem
    rw [hblit, hp.writeBitmap_of_unseen hunseen]

/-- A surface without a buffer. -/
theorem blitAgrees_of_unallocated (hbuffer : t.allocated = false) {x y w h : Int16}
    (hw : 0 < w.toInt) (hh : 0 < h.toInt) (bitmap : List UInt16) : t.BlitAgrees x y bitmap w h := by
  have hnone : t.backing.hasBuffer = false ∧ ∀ x y ink, t.setPixel x y ink = [] := by
    rw [allocated] at hbuffer
    simp only [Surface.setPixel]
    cases hb : t.backing with
    | device pitch mapped =>
        rw [hb] at hbuffer
        obtain rfl : mapped = false := hbuffer
        exact ⟨rfl, fun _ _ _ => ite_self _⟩
    | canvas format a =>
        rw [hb] at hbuffer
        obtain rfl : a = false := hbuffer
        exact ⟨by cases format <;> rfl, fun _ _ _ => ite_self _⟩
  have hpixels : t.writeBitmap x y bitmap w h = [] := by
    refine List.flatMap_eq_nil_iff.mpr fun p _ => ?_
    rw [Surface.writePixel, hnone.2, hnone.2, ite_self, ite_self]
  intro mem
  rw [blit_of_empty hw hh (Or.inl hnone.1), hpixels]

/-- Where the blit agrees with the pixels. -/
def BlitExact (t : Surface F) (x y : Int16) (bitmap : List UInt16) (w h : Int16) : Prop :=
  t.allocated = false ∨
    match t.backing with
    | .device _ _ => t.Missed x y w h ∨
        BlitFits x w t.gfx.width ∧ BlitFits y h t.gfx.height ∧ t.SeenDark x y bitmap w h
    | .canvas .argb8888 _ => t.Missed x y w h ∨
        BlitFits x w t.gfx.width ∧ BlitFits y h t.gfx.height ∧ y ≤ 0 ∧
          min t.gfx.height.toInt (y.toInt + h.toInt) = 1 ∧ t.SeenDark x y bitmap w h
    | .canvas _ _ => Unseen x w t.gfx.width ∨ Unseen y h t.gfx.height

/-- `drawRGB565Bitmap` leaves what `writePixel` leaves on each pixel of the bitmap exactly where
there is nothing to draw and the cut shows it; on a device, where nothing wraps and the colours
that are seen have no low bits to fill; and on a canvas with a draw buffer, where besides only the
first row is seen. -/
theorem drawRGB565Bitmap_agrees_iff (hrot : t.gfx.rotation = 0)
    (hdevice : ∀ pitch, t.backing = .device pitch true →
      t.Device pitch ∧ t.gfx.width.toInt ≤ (pitch / 4).toNat)
    {x y w h : Int16} (hw : 0 < w.toInt) (hh : 0 < h.toInt) (bitmap : List UInt16) :
    t.BlitAgrees x y bitmap w h ↔ t.BlitExact x y bitmap w h := by
  rw [BlitExact]
  cases hbuffer : t.allocated with
  | false => exact iff_of_true (blitAgrees_of_unallocated hbuffer hw hh bitmap) (Or.inl rfl)
  | true =>
      simp only [Bool.true_eq_false, false_or]
      rw [allocated] at hbuffer
      cases hb : t.backing with
      | device pitch mapped =>
          rw [hb] at hbuffer
          obtain rfl : mapped = true := hbuffer
          obtain ⟨hdev, hwidth⟩ := hdevice pitch hb
          exact hdev.blitAgrees_iff ⟨hrot, Or.inl ⟨pitch, hdev, hwidth⟩⟩ hw hh bitmap
      | canvas format a =>
          rw [hb] at hbuffer
          obtain rfl : a = true := hbuffer
          have hp : t.Panel := ⟨hrot, Or.inr ⟨format, hb⟩⟩
          cases format with
          | argb8888 => exact hp.blitAgrees_canvas_iff hb hw hh bitmap
          | bw | gray8 | rgb565 | rgb888 =>
              exact hp.blitAgrees_of_noBuffer_iff (by rw [hb]; rfl) hw hh bitmap

end Surface

theorem device_landscape (pitch : UInt32) (hb : landscape.backing = .device pitch true) :
    landscape.Device pitch ∧ landscape.gfx.width.toInt ≤ (pitch / 4).toNat := by
  obtain rfl : 1280 = pitch := (Backing.device.inj hb).1
  exact ⟨⟨rfl, by decide, by decide⟩, by decide⟩

/-- A black pixel on the screen. -/
theorem blitAgrees_black : landscape.BlitAgrees 10 10 [0] 1 1 := by
  refine (Surface.drawRGB565Bitmap_agrees_iff rfl device_landscape (by decide) (by decide) [0]).mpr
    (Or.inr (Or.inr ⟨⟨by decide, by decide⟩, ⟨by decide, by decide⟩, fun x' y' hseen => ?_⟩))
  obtain ⟨_, hx, hxw, hy, hyh⟩ := hseen
  have hten : (10 : Int16).toInt = 10 := rfl
  have hone : (1 : Int16).toInt = 1 := rfl
  obtain rfl : x' = 10 := by omega
  obtain rfl : y' = 10 := by omega
  exact ⟨by decide, by decide, by decide⟩

/-- A white pixel on the screen is not the one of `fromRGB565`. -/
theorem not_blitAgrees_white : ¬ landscape.BlitAgrees 10 10 [0xFFFF] 1 1 := by
  intro hagrees
  have hwhite := congrFun (hagrees fun _ => 0) 3210
  revert hwhite
  decide

end MFoES.Libgfx
