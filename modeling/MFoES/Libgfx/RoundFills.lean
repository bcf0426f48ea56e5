import MFoES.Libgfx.Circles
import MFoES.Libgfx.ClippedSpans

/-!
# Filled round shapes

`fillCircleHelper` makes two columns on each side in every pass: one at `x` and one at `y`.  Where
the eighth ends on the diagonal they are the same column, and where it ends beyond it the last one
is that of the pass before.  So some pixel is written twice, in every circle that has a pass
(`not_nodup_helper`), and in every rounded rectangle but the smallest
(`filledRound_writesOnce_iff`).
-/

namespace MFoES.Libgfx

variable {F : Type}

/-! ## What steps write -/

/-- The pixels of a column. -/
def columnPixels (color : UInt32) (x y h : Int16) : List (Int × Int) :=
  if alpha color = 0 then []
  else (List.range h.toInt.toNat).map fun k : Nat => (x.toInt, y.toInt + k)

/-- The pixels of a row. -/
def rowPixels (color : UInt32) (x y w : Int16) : List (Int × Int) :=
  if alpha color = 0 then []
  else (List.range w.toInt.toNat).map fun k : Nat => (x.toInt + k, y.toInt)

/-- The pixels that a step writes, in the clip or not.  Those of a virtual function, and of the
blit, are up to the object. -/
def Step.written : Step → Option (List (Int × Int))
  | writePixel x y color => some (if alpha color = 0 then [] else [(x.toInt, y.toInt)])
  | writeFastVLine x y h color => some (columnPixels color x y h)
  | writeFastHLine x y w color => some (rowPixels color x y w)
  | _ => none

/-- The pixels that a plan writes, in turn. -/
def Plan.written (p : Plan) : Option (List (Int × Int)) :=
  p.bind fun steps => inTurn (steps.map Step.written)

/-- A plan that writes no pixel twice. -/
def Plan.WritesOnce (p : Plan) : Prop := ∃ pixels, p.written = some pixels ∧ pixels.Nodup

theorem mem_columnPixels {color : UInt32} {x y h : Int16} {p : Int × Int} :
    p ∈ columnPixels color x y h ↔ alpha color ≠ 0 ∧ Surface.vSpan x y h p.1 p.2 := by
  rw [columnPixels]
  split
  · next hcolor => exact iff_of_false List.not_mem_nil fun h => h.1 hcolor
  · next hcolor =>
    rw [and_iff_right hcolor, Surface.vSpan, List.mem_map]
    simp only [List.mem_range, Prod.ext_iff]
    constructor
    · rintro ⟨k, hk, hx, hy⟩
      omega
    · rintro ⟨hx, hlo, hhi⟩
      exact ⟨(p.2 - y.toInt).toNat, by omega, by omega, by omega⟩

theorem mem_rowPixels {color : UInt32} {x y w : Int16} {p : Int × Int} :
    p ∈ rowPixels color x y w ↔ alpha color ≠ 0 ∧ Surface.hSpan x y w p.1 p.2 := by
  rw [rowPixels]
  split
  · next hcolor => exact iff_of_false List.not_mem_nil fun h => h.1 hcolor
  · next hcolor =>
    rw [and_iff_right hcolor, Surface.hSpan, List.mem_map]
    simp only [List.mem_range, Prod.ext_iff]
    constructor
    · rintro ⟨k, hk, hx, hy⟩
      omega
    · rintro ⟨hy, hlo, hhi⟩
      exact ⟨(p.1 - x.toInt).toNat, by omega, by omega, by omega⟩

theorem nodup_columnPixels (color : UInt32) (x y h : Int16) : (columnPixels color x y h).Nodup := by
  rw [columnPixels]
  split
  · exact List.nodup_nil
  · refine List.nodup_range.map fun k k' heq => ?_
    rw [Prod.mk.injEq] at heq
    omega

theorem nodup_rowPixels (color : UInt32) (x y w : Int16) : (rowPixels color x y w).Nodup := by
  rw [rowPixels]
  split
  · exact List.nodup_nil
  · refine List.nodup_range.map fun k k' heq => ?_
    rw [Prod.mk.injEq] at heq
    omega

theorem Plan.written_inTurn (ps : List Plan) :
    Plan.written (inTurn ps) = inTurn (ps.map Plan.written) := by
  induction ps with
  | nil => rfl
  | cons p ps ih =>
      rw [inTurn, List.map_cons, inTurn, ← ih]
      cases p with
      | none => rfl
      | some steps =>
          cases inTurn ps with
          | none => simp [Plan.written]
          | some rest => simp [Plan.written, inTurn_append]

/-- What the passes of a loop write. -/
theorem Plan.written_each {α : Type} {body : α → List Step} {pixels : α → List (Int × Int)}
    (hbody : ∀ a, Plan.written (some (body a)) = some (pixels a)) (l : List α) :
    Plan.written (Plan.each (some l) body) = some (l.flatMap pixels) := by
  induction l with
  | nil => rfl
  | cons a l ih =>
      have hfirst := hbody a
      simp only [Plan.written, Plan.each, Option.map_some, Option.bind_some] at ih hfirst ⊢
      rw [List.flatMap_cons, List.map_append, inTurn_append, hfirst, ih]
      rfl

/-! ## The passes of the helper -/

/-- What a pass of `fillCircleHelper` writes. -/
def helperPixels (x0 y0 : Int16) (c : UInt8) (delta : Int16) (color : UInt32) (p : CirclePoint) :
    List (Int × Int) :=
  (if c &&& 0x1 ≠ 0 then
    columnPixels color (x0 + p.x) (y0 - p.y) (2 * p.y + 1 + delta) ++
      columnPixels color (x0 + p.y) (y0 - p.x) (2 * p.x + 1 + delta)
  else []) ++
  (if c &&& 0x2 ≠ 0 then
    columnPixels color (x0 - p.x) (y0 - p.y) (2 * p.y + 1 + delta) ++
      columnPixels color (x0 - p.y) (y0 - p.x) (2 * p.x + 1 + delta)
  else [])

theorem written_fillCircleHelper {r : Int16} {ps : List CirclePoint} (h : circlePoints r = some ps)
    (x0 y0 : Int16) (c : UInt8) (delta : Int16) (color : UInt32) :
    Plan.written (fillCircleHelper x0 y0 r c delta color) =
      some (ps.flatMap (helperPixels x0 y0 c delta color)) := by
  rw [fillCircleHelper, h]
  refine Plan.written_each (fun p => ?_) ps
  rw [helperPixels]
  split <;> split <;> simp [Plan.written, Step.written, inTurn]

theorem circlePoints_of_nonpos {r : Int16} (h : r ≤ 0) : circlePoints r = some [] := by
  have hlast : (CirclePoint.start r).next = none := by
    rw [CirclePoint.next, if_neg]
    exact Int16.not_lt.mpr h
  rw [circlePoints_start, show 2 ^ 16 = (2 ^ 16 - 1) + 1 from rfl, Loop.run_last hlast]
  rfl

/-- The column at an offset. -/
theorem toInt_column {y0 delta : Int16} {r v : Int} (hy : -32768 ≤ y0.toInt - r)
    (hlow : -1 ≤ delta.toInt) (hhigh : 2 * r + 1 + delta.toInt ≤ 32767) (hv : 0 ≤ v)
    (hvr : v ≤ r) :
    (y0 - Int16.ofInt v).toInt = y0.toInt - v ∧
      (2 * Int16.ofInt v + 1 + delta).toInt = 2 * v + 1 + delta.toInt := by
  have hy0 := y0.toInt_lt
  have hvs : (Int16.ofInt v).toInt = v := Int16.toInt_ofInt_of_le (by omega) (by omega)
  constructor
  · rw [toInt_sub_of (by omega) (by omega), hvs]
  · rw [show 2 * Int16.ofInt v + 1 + delta = Int16.ofInt (2 * v + 1 + delta.toInt) by
      simp only [Int16.ofInt_add, Int16.ofInt_mul, Int16.ofInt_toInt]
      rfl]
    exact Int16.toInt_ofInt_of_le (by omega) (by omega)

/-- The middle row is in the column at an offset. -/
theorem mem_columnPixels_middle {color : UInt32} (hcolor : alpha color ≠ 0) (delta : Int16)
    {y0 : Int16} {r v : Int} (hy : -32768 ≤ y0.toInt - r) (hlow : -1 ≤ delta.toInt)
    (hhigh : 2 * r + 1 + delta.toInt ≤ 32767) (hv : 0 ≤ v + delta.toInt) (hv' : 0 ≤ v)
    (hvr : v ≤ r) (x : Int16) :
    (x.toInt, y0.toInt) ∈
      columnPixels color x (y0 - Int16.ofInt v) (2 * Int16.ofInt v + 1 + delta) := by
  obtain ⟨htop, hheight⟩ := toInt_column hy hlow hhigh hv' hvr
  rw [mem_columnPixels, Surface.vSpan, htop, hheight]
  exact ⟨hcolor, rfl, by omega, by omega⟩

section Passes

variable {x0 y0 r delta : Int16} {c : UInt8} {color : UInt32} {n : Nat}

/-- A circle of radius 2 or more has two passes. -/
theorem two_le_passes (hr : 2 ≤ r.toInt) (h : MidpointCircle.Ends r.toInt n) : 2 ≤ n := by
  have hfirst : (MidpointCircle.point r.toInt 1).2 = r.toInt := by
    have hdecision : ¬ 0 ≤ MidpointCircle.decision r.toInt (0, r.toInt) := by
      simp only [MidpointCircle.decision, MidpointCircle.excess]
      omega
    show (MidpointCircle.next r.toInt (0, r.toInt)).2 = r.toInt
    rw [MidpointCircle.next, if_neg hdecision]
  have hlast := h.last
  by_contra! hn
  rcases (show n = 0 ∨ n = 1 by omega) with rfl | rfl
  · exact hlast (show (0 : Int) < r.toInt by omega)
  · rw [hfirst, MidpointCircle.point_fst] at hlast
    omega

/-- The last pass writes a pixel again: one of its own, or of the pass before. -/
theorem not_nodup_helper (x0 y0 delta : Int16) (hcolor : alpha color ≠ 0) (hc : c &&& 0x1 ≠ 0)
    (hr : 2 ≤ r.toInt) (hr' : r.toInt ≤ 16383) (hy : -32768 ≤ y0.toInt - r.toInt)
    (hlow : -1 ≤ delta.toInt) (hhigh : 2 * r.toInt + 1 + delta.toInt ≤ 32767) :
    ∃ pixels, Plan.written (fillCircleHelper x0 y0 r c delta color) = some pixels ∧
      ¬ pixels.Nodup := by
  obtain ⟨n, h⟩ := MidpointCircle.exists_ends (r := r.toInt) (by omega)
  refine ⟨_, written_fillCircleHelper (circlePoints_eq hr' h) x0 y0 c delta color, ?_⟩
  obtain ⟨m, rfl⟩ : ∃ m, n = m + 1 + 1 := ⟨n - 2, by have := two_le_passes hr h; omega⟩
  have hlast := h.last
  have hdiagonal := (h.octant (m + 1 + 1) (Nat.le_refl _)).diagonal
  have hbefore := h.before (m + 1) (Nat.lt_succ_self _)
  have htop := (h.octant (m + 1) (Nat.le_succ _)).top
  rw [MidpointCircle.point_fst] at hlast hdiagonal hbefore
  -- the columns at an offset have the middle row
  have hcolumn : ∀ x v, 1 ≤ v → v ≤ r.toInt → (x.toInt, y0.toInt) ∈
      columnPixels color x (y0 - Int16.ofInt v) (2 * Int16.ofInt v + 1 + delta) :=
    fun x v hv hvr => mem_columnPixels_middle hcolor delta hy hlow hhigh (by omega) (by omega) hvr x
  have hlower := hcolumn (x0 + (onCircle r (m + 1 + 1)).y) (m + 1 + 1 : Nat) (by omega) (by omega)
  have hx : Int16.ofInt (m + 1 + 1 : Nat) = (onCircle r (m + 1 + 1)).x := by
    simp only [onCircle, MidpointCircle.point_fst]
  rw [hx] at hlower
  intro hnodup
  rw [List.flatMap_map] at hnodup
  obtain ⟨heach, hpair⟩ := List.nodup_flatMap.mp hnodup
  rcases (show (MidpointCircle.point r.toInt (m + 1 + 1)).2 = (m + 1 + 1 : Nat) ∨
    (MidpointCircle.point r.toInt (m + 1 + 1)).2 = (m + 1 : Nat) by omega) with heq | heq
  · -- the two columns of the last pass are one
    have hsame : (onCircle r (m + 1 + 1)).y = (onCircle r (m + 1 + 1)).x := by
      simp only [onCircle, heq, MidpointCircle.point_fst]
    have hpass := heach (m + 1) (List.mem_range.mpr (Nat.lt_succ_self _))
    rw [helperPixels, if_pos hc, hsame] at hpass
    rw [hsame] at hlower
    exact (List.nodup_append.mp (List.nodup_append.mp hpass).1).2.2 _ hlower _ hlower rfl
  · -- the lower column of the last pass is the upper one of the pass before
    have hupper := hcolumn (x0 + (onCircle r (m + 1)).x) (MidpointCircle.point r.toInt (m + 1)).2
      (by omega) htop
    have hsame : (onCircle r (m + 1 + 1)).y = (onCircle r (m + 1)).x := by
      simp only [onCircle, heq, MidpointCircle.point_fst]
    rw [hsame] at hlower
    have hfirst : ((x0 + (onCircle r (m + 1)).x).toInt, y0.toInt) ∈
        helperPixels x0 y0 c delta color (onCircle r (m + 1)) := by
      rw [helperPixels, if_pos hc]
      exact List.mem_append_left _ (List.mem_append_left _ hupper)
    have hsecond : ((x0 + (onCircle r (m + 1)).x).toInt, y0.toInt) ∈
        helperPixels x0 y0 c delta color (onCircle r (m + 1 + 1)) := by
      rw [helperPixels, if_pos hc, hsame]
      exact List.mem_append_left _ (List.mem_append_right _ hlower)
    rw [List.range_succ, List.pairwise_append] at hpair
    exact hpair.2.2 m (List.mem_range.mpr (Nat.lt_succ_self m)) (m + 1)
      (List.mem_singleton.mpr rfl) hfirst hsecond

end Passes

/-- The one pass of the smallest circle. -/
theorem circlePoints_one : circlePoints 1 = some [⟨3, 3, 0, 1, 0⟩] := rfl

theorem helperPixels_one (x0 y0 : Int16) (c : UInt8) (delta : Int16) (color : UInt32) :
    helperPixels x0 y0 c delta color ⟨3, 3, 0, 1, 0⟩ =
      (if c &&& 0x1 ≠ 0 then
        columnPixels color (x0 + 1) y0 (1 + delta) ++ columnPixels color x0 (y0 - 1) (3 + delta)
      else []) ++
      (if c &&& 0x2 ≠ 0 then
        columnPixels color (x0 - 1) y0 (1 + delta) ++ columnPixels color x0 (y0 - 1) (3 + delta)
      else []) := by
  have hthree : (2 : Int16) * 1 + 1 = 3 := rfl
  have hone : (2 : Int16) * 0 + 1 = 1 := rfl
  simp only [helperPixels, Int16.add_zero, Int16.sub_zero, hthree, hone]

/-! ## Circles -/

/-- What `fillCircle` computes fits. -/
structure CircleFits (x0 y0 r : Int16) : Prop where
  height : Short (2 * r.toInt + 1)
  top : Short (y0.toInt - r.toInt)
  bottom : Short (y0.toInt + r.toInt + 1)
  sides : 0 < r.toInt → Short (x0.toInt - r.toInt) ∧ Short (x0.toInt + r.toInt)

theorem columnPixels_transparent {color : UInt32} (h : alpha color = 0) (x y l : Int16) :
    columnPixels color x y l = [] := if_pos h

theorem rowPixels_transparent {color : UInt32} (h : alpha color = 0) (x y w : Int16) :
    rowPixels color x y w = [] := if_pos h

theorem helperPixels_transparent {color : UInt32} (h : alpha color = 0) (x0 y0 : Int16) (c : UInt8)
    (delta : Int16) (ps : List CirclePoint) :
    ps.flatMap (helperPixels x0 y0 c delta color) = [] := by
  refine List.flatMap_eq_nil_iff.mpr fun p _ => ?_
  simp [helperPixels, columnPixels_transparent h]

theorem written_fillCircle {r : Int16} {ps : List CirclePoint} (h : circlePoints r = some ps)
    (x0 y0 : Int16) (color : UInt32) :
    Plan.written (fillCircle x0 y0 r color) =
      some (columnPixels color x0 (y0 - r) (2 * r + 1) ++
        ps.flatMap (helperPixels x0 y0 3 0 color)) := by
  rw [fillCircle, Plan.written_inTurn, List.map_cons, List.map_singleton,
    written_fillCircleHelper h]
  simp [inTurn, Plan.written, Step.written]

/-- `fillCircle` writes each pixel once where there is no pass, or nothing to write. -/
theorem fillCircle_writesOnce_iff {x0 y0 r : Int16} (h : CircleFits x0 y0 r) (color : UInt32) :
    (fillCircle x0 y0 r color).WritesOnce ↔ alpha color = 0 ∨ r ≤ 0 := by
  obtain ⟨ps, hps⟩ := circlePoints_ends r
  have hwritten := written_fillCircle hps x0 y0 color
  simp only [Plan.WritesOnce, hwritten, Option.some.injEq, exists_eq_left']
  by_cases hcolor : alpha color = 0
  · refine iff_of_true ?_ (Or.inl hcolor)
    simp [columnPixels_transparent hcolor, helperPixels_transparent hcolor]
  · rw [or_iff_right hcolor]
    obtain ⟨hheight, htop, _, _⟩ := h
    by_cases hr : r ≤ 0
    · rw [circlePoints_of_nonpos hr, Option.some.injEq] at hps
      subst hps
      exact iff_of_true (by simpa using nodup_columnPixels color x0 (y0 - r) (2 * r + 1)) hr
    · refine iff_of_false (fun hnodup => ?_) hr
      rw [Int16.le_iff_toInt_le] at hr
      have hzero : (0 : Int16).toInt = 0 := rfl
      rcases (show 2 ≤ r.toInt ∨ r.toInt = 1 by omega) with htwo | hone
      · obtain ⟨pixels, hpixels, htwice⟩ := not_nodup_helper (c := 3) x0 y0 0 hcolor
          (by decide) htwo (by have := hheight.2; omega) htop.1 (by decide)
          (by have := hheight.2; omega)
        rw [written_fillCircleHelper hps, Option.some.injEq] at hpixels
        rw [hpixels] at hnodup
        exact htwice (List.nodup_append.mp hnodup).2.1
      · -- the middle column is that of the only pass
        obtain rfl : r = 1 := Int16.toInt_inj.mp hone
        rw [circlePoints_one, Option.some.injEq] at hps
        subst hps
        have hmiddle := mem_columnPixels_middle hcolor 0 (r := 1) (v := 1) htop.1
          (by decide) (by decide) (by decide) (by decide) (by decide) x0
        have hlower : (x0.toInt, y0.toInt) ∈
            [(⟨3, 3, 0, 1, 0⟩ : CirclePoint)].flatMap (helperPixels x0 y0 3 0 color) := by
          rw [List.flatMap_singleton, helperPixels_one, if_pos (by decide)]
          exact List.mem_append_left _ (List.mem_append_right _ hmiddle)
        exact (List.nodup_append.mp hnodup).2.2 _ hmiddle _ hlower rfl

/-! ## Rounded rectangles -/

/-- What `fillRoundRect` computes fits. -/
structure RoundRectFits (x y w h r : Int16) : Prop where
  left : Short (x.toInt + r.toInt)
  width : Short (w.toInt - 2 * r.toInt)
  right : Short (x.toInt + w.toInt - r.toInt)
  corner : Short (x.toInt + w.toInt - r.toInt - 1)
  top : Short (y.toInt + r.toInt)
  delta : Short (h.toInt - 2 * r.toInt - 1)
  bottom : Short (y.toInt + h.toInt)
  side : 0 < r.toInt → Short (x.toInt + w.toInt - 1)

theorem RoundRectFits.toInt_width {x y w h r : Int16} (hfits : RoundRectFits x y w h r) :
    (w - 2 * r).toInt = w.toInt - 2 * r.toInt := by
  rw [show w - 2 * r = Int16.ofInt (w.toInt - 2 * r.toInt) by
    simp only [Int16.ofInt_sub, Int16.ofInt_mul, Int16.ofInt_toInt]
    rfl]
  exact hfits.width.toInt_ofInt

theorem RoundRectFits.toInt_delta {x y w h r : Int16} (hfits : RoundRectFits x y w h r) :
    (h - 2 * r - 1).toInt = h.toInt - 2 * r.toInt - 1 := by
  rw [show h - 2 * r - 1 = Int16.ofInt (h.toInt - 2 * r.toInt - 1) by
    simp only [Int16.ofInt_sub, Int16.ofInt_mul, Int16.ofInt_toInt]
    rfl]
  exact hfits.delta.toInt_ofInt

/-- A corner takes at most half of a side. -/
theorem cornerRadius_le {w h radius : Int16} (hr : 0 < (cornerRadius w h radius).toInt) :
    2 * (cornerRadius w h radius).toInt ≤ w.toInt ∧
      2 * (cornerRadius w h radius).toInt ≤ h.toInt := by
  rw [cornerRadius] at hr ⊢
  generalize hside : (if w < h then w else h) = side at hr ⊢
  have hmin : side.toInt ≤ w.toInt ∧ side.toInt ≤ h.toInt := by
    rw [← hside, toInt_ite_lt]
    exact ⟨Int.min_le_left _ _, Int.min_le_right _ _⟩
  have hlow := side.le_toInt
  have hhigh := side.toInt_lt
  have htwo : (2 : Int16).toInt = 2 := rfl
  have htdiv : side.toInt.tdiv 2 = side.toInt / 2 ∨ side.toInt < 0 ∧
      side.toInt.tdiv 2 = side.toInt / 2 + 1 := by
    rw [Int.tdiv_eq_ediv]
    split
    · exact Or.inl (Int.add_zero _)
    · next hneg => exact Or.inr ⟨by omega, rfl⟩
  have hhalf : (side / 2).toInt = side.toInt.tdiv 2 := by
    rw [Int16.toInt_div, htwo]
    exact Int.bmod_eq_of_le (by omega) (by omega)
  split at hr
  · next hcut =>
    rw [if_pos hcut]
    omega
  · next hkept =>
    rw [if_neg hkept]
    rw [Int16.lt_iff_toInt_lt] at hkept
    omega

theorem written_writeFillRect {y h : Int16} (hreach : y.toInt + h.toInt ≤ 32767) (x w : Int16)
    (color : UInt32) :
    Plan.written (writeFillRect x y w h color) =
      some ((List.range h.toInt.toNat).flatMap fun k =>
        rowPixels color x (y + Int16.ofNat k) w) := by
  rw [writeFillRect]
  split
  · next hcolor => simp [Plan.written, inTurn, rowPixels_transparent hcolor]
  · rw [forUp_eq _ hreach, show y.toInt + h.toInt - y.toInt = h.toInt by omega, Plan.each,
      Option.map_some, List.flatMap_map]
    exact Plan.written_each (fun k => by simp [Plan.written, Step.written, inTurn]) _

theorem written_fillRoundRect {x y w h radius : Int16} {ps : List CirclePoint}
    (hps : circlePoints (cornerRadius w h radius) = some ps)
    (hreach : y.toInt + h.toInt ≤ 32767) (color : UInt32) :
    Plan.written (fillRoundRect x y w h radius color) =
      some ((List.range h.toInt.toNat).flatMap (fun k =>
          rowPixels color (x + cornerRadius w h radius) (y + Int16.ofNat k)
            (w - 2 * cornerRadius w h radius)) ++
        (ps.flatMap (helperPixels (x + w - cornerRadius w h radius - 1)
            (y + cornerRadius w h radius) 1 (h - 2 * cornerRadius w h radius - 1) color) ++
          ps.flatMap (helperPixels (x + cornerRadius w h radius) (y + cornerRadius w h radius) 2
            (h - 2 * cornerRadius w h radius - 1) color))) := by
  rw [fillRoundRect, Plan.written_inTurn, List.map_cons, List.map_cons, List.map_singleton,
    written_writeFillRect hreach, written_fillCircleHelper hps, written_fillCircleHelper hps]
  simp [inTurn]

/-- The rows of a rectangle are different ones. -/
theorem nodup_rows {y h : Int16} (hreach : y.toInt + h.toInt ≤ 32767) (color : UInt32)
    (x w : Int16) :
    ((List.range h.toInt.toNat).flatMap fun k =>
      rowPixels color x (y + Int16.ofNat k) w).Nodup := by
  rw [List.nodup_flatMap]
  refine ⟨fun k _ => nodup_rowPixels _ _ _ _, ?_⟩
  refine List.nodup_range.imp_of_mem fun {k k'} hk hk' hne p hp hp' => ?_
  rw [List.mem_range] at hk hk'
  have hrow := (mem_rowPixels.mp hp).2
  have hrow' := (mem_rowPixels.mp hp').2
  rw [Surface.hSpan, toInt_add_ofNat (by omega)] at hrow hrow'
  omega

/-- The smallest corners write a pixel again, but for those of the smallest square. -/
theorem nodup_smallest_iff {x y w h : Int16} {color : UInt32} (hcolor : alpha color ≠ 0)
    (hw : 2 ≤ w.toInt) (hh : 2 ≤ h.toInt) (hside : x.toInt + w.toInt - 1 ≤ 32767)
    (hreach : y.toInt + h.toInt ≤ 32767) :
    ((List.range h.toInt.toNat).flatMap (fun k =>
        rowPixels color (x + 1) (y + Int16.ofNat k) (w - 2 * 1)) ++
      (helperPixels (x + w - 1 - 1) (y + 1) 1 (h - 2 * 1 - 1) color ⟨3, 3, 0, 1, 0⟩ ++
        helperPixels (x + 1) (y + 1) 2 (h - 2 * 1 - 1) color ⟨3, 3, 0, 1, 0⟩)).Nodup ↔
      w = 2 ∧ h = 2 := by
  have hone : (1 : Int16).toInt = 1 := rfl
  have htwo : (2 : Int16).toInt = 2 := rfl
  have hx := x.le_toInt
  have hy := y.le_toInt
  have hw' := w.toInt_lt
  have hh' := h.toInt_lt
  have hwidth : (w - 2).toInt = w.toInt - 2 := by
    rw [toInt_sub_of (by omega) (by omega), htwo]
  have hxW : (x + w - 1 - 1).toInt = x.toInt + w.toInt - 2 := by
    rw [show x + w - 1 - 1 = x + (w - 2) by grind, toInt_add_of (by omega) (by omega), hwidth]
    omega
  have hx1 : (x + 1).toInt = x.toInt + 1 := toInt_succ (by omega)
  have hy1 : (y + 1).toInt = y.toInt + 1 := toInt_succ (by omega)
  have hh2 : (h - 2).toInt = h.toInt - 2 := by
    rw [toInt_sub_of (by omega) (by omega), htwo]
  rw [helperPixels_one, helperPixels_one, if_pos (by decide), if_neg (by decide),
    if_neg (by decide), if_pos (by decide), List.append_nil, List.nil_append,
    show x + w - 1 - 1 + 1 = x + w - 1 by grind, show 1 + (h - 2 * 1 - 1) = h - 2 by grind,
    show 3 + (h - 2 * 1 - 1) = h by grind, Int16.add_sub_cancel, Int16.add_sub_cancel,
    show (2 : Int16) * 1 = 2 from rfl]
  constructor
  · intro hnodup
    by_contra hlarge
    rw [← Int16.toInt_inj, ← Int16.toInt_inj, htwo] at hlarge
    obtain ⟨_, hcorners, hapart⟩ := List.nodup_append.mp hnodup
    by_cases hwide : 3 ≤ w.toInt
    · -- the lower column of the right corners is in the rectangle
      have hrect : ((x + w - 1 - 1).toInt, y.toInt) ∈
          (List.range h.toInt.toNat).flatMap fun k =>
            rowPixels color (x + 1) (y + Int16.ofNat k) (w - 2) := by
        refine List.mem_flatMap.mpr ⟨0, List.mem_range.mpr (by omega), ?_⟩
        rw [mem_rowPixels, Surface.hSpan, hx1, hwidth, hxW]
        exact ⟨hcolor, by simp, by omega, by omega⟩
      have hcolumn : ((x + w - 1 - 1).toInt, y.toInt) ∈ columnPixels color (x + w - 1 - 1) y h :=
        mem_columnPixels.mpr ⟨hcolor, rfl, by dsimp only; omega, by dsimp only; omega⟩
      exact hapart _ hrect _ (List.mem_append_left _ (List.mem_append_right _ hcolumn)) rfl
    · -- it is the upper column of the left ones
      have hcolumn : (x.toInt, (y + 1).toInt) ∈ columnPixels color (x + w - 1 - 1) y h :=
        mem_columnPixels.mpr ⟨hcolor, by dsimp only; omega, by dsimp only; omega,
          by dsimp only; omega⟩
      have hleft : (x.toInt, (y + 1).toInt) ∈ columnPixels color x (y + 1) (h - 2) :=
        mem_columnPixels.mpr ⟨hcolor, rfl, by dsimp only; omega, by dsimp only; omega⟩
      exact (List.nodup_append.mp hcorners).2.2 _ (List.mem_append_right _ hcolumn) _
        (List.mem_append_left _ hleft) rfl
  · rintro ⟨rfl, rfl⟩
    have hempty : ∀ u v, columnPixels color u v 0 = [] ∧ rowPixels color u v 0 = [] := by
      intro u v
      simp [columnPixels, rowPixels]
    have hzero : (2 : Int16) - 2 = 0 := rfl
    have hrect : (List.range (2 : Int16).toInt.toNat).flatMap
        (fun k => rowPixels color (x + 1) (y + Int16.ofNat k) 0) = [] :=
      List.flatMap_eq_nil_iff.mpr fun k _ => (hempty _ _).2
    rw [hzero, hrect, (hempty _ _).1, (hempty _ _).1, List.nil_append, List.nil_append,
      List.nil_append, List.nodup_append]
    refine ⟨nodup_columnPixels _ _ _ _, nodup_columnPixels _ _ _ _, ?_⟩
    rintro p hp _ hp' rfl
    have hright := (mem_columnPixels.mp hp).2
    have hleft := (mem_columnPixels.mp hp').2
    rw [Surface.vSpan] at hright hleft
    omega

/-- `fillRoundRect` writes each pixel once where it has no corners, or nothing to write; and in a
square of two pixels by two. -/
theorem fillRoundRect_writesOnce_iff {x y w h radius : Int16}
    (hfits : RoundRectFits x y w h (cornerRadius w h radius)) (color : UInt32) :
    (fillRoundRect x y w h radius color).WritesOnce ↔
      alpha color = 0 ∨ cornerRadius w h radius ≤ 0 ∨ (w = 2 ∧ h = 2) := by
  obtain ⟨ps, hps⟩ := circlePoints_ends (cornerRadius w h radius)
  have hreach := hfits.bottom.2
  have hwritten := written_fillRoundRect (x := x) hps hreach color
  have hradius := @cornerRadius_le w h radius
  simp only [Plan.WritesOnce, hwritten, Option.some.injEq, exists_eq_left']
  clear hwritten
  generalize cornerRadius w h radius = r at hfits hps hradius ⊢
  by_cases hcolor : alpha color = 0
  · refine iff_of_true ?_ (Or.inl hcolor)
    rw [helperPixels_transparent hcolor, helperPixels_transparent hcolor, List.append_nil,
      List.append_nil]
    exact nodup_rows hreach color _ _
  · rw [or_iff_right hcolor]
    by_cases hr : r ≤ 0
    · rw [circlePoints_of_nonpos hr, Option.some.injEq] at hps
      subst hps
      rw [List.flatMap_nil, List.flatMap_nil, List.append_nil, List.append_nil]
      exact iff_of_true (nodup_rows hreach color _ _) (Or.inl hr)
    · rw [or_iff_right hr]
      rw [Int16.le_iff_toInt_le] at hr
      have hzero : (0 : Int16).toInt = 0 := rfl
      obtain ⟨hw, hh⟩ := hradius (by omega)
      have hside := (hfits.side (by omega)).2
      rcases (show 2 ≤ r.toInt ∨ r.toInt = 1 by omega) with htwo | hone
      · refine iff_of_false (fun hnodup => ?_) ?_
        · have hmiddle : (y + r).toInt = y.toInt + r.toInt := toInt_add_of hfits.top.1 hfits.top.2
          have hdelta := hfits.toInt_delta
          have hlow := y.le_toInt
          have hhigh := h.toInt_lt
          obtain ⟨pixels, hpixels, htwice⟩ := not_nodup_helper (c := 1)
            (x + w - r - 1) (y + r) (h - 2 * r - 1) hcolor (by decide) htwo
            (by omega) (by omega) (by omega) (by omega)
          rw [written_fillCircleHelper hps, Option.some.injEq] at hpixels
          rw [hpixels] at hnodup
          exact htwice (List.nodup_append.mp (List.nodup_append.mp hnodup).2.1).1
        · rintro ⟨rfl, rfl⟩
          have : (2 : Int16).toInt = 2 := rfl
          omega
      · obtain rfl : r = 1 := Int16.toInt_inj.mp hone
        rw [circlePoints_one, Option.some.injEq] at hps
        subst hps
        rw [List.flatMap_singleton, List.flatMap_singleton]
        exact nodup_smallest_iff hcolor (by omega) (by omega) hside hreach

/-- Filled round shapes write each pixel once where they have no pass, where there is nothing to
write, and in the smallest rounded square; and not otherwise. -/
theorem filledRound_writesOnce_iff (color : UInt32) :
    (∀ x0 y0 r, CircleFits x0 y0 r →
      ((fillCircle x0 y0 r color).WritesOnce ↔ alpha color = 0 ∨ r ≤ 0)) ∧
    ∀ x y w h radius, RoundRectFits x y w h (cornerRadius w h radius) →
      ((fillRoundRect x y w h radius color).WritesOnce ↔
        alpha color = 0 ∨ cornerRadius w h radius ≤ 0 ∨ (w = 2 ∧ h = 2)) :=
  ⟨fun _ _ _ h => fillCircle_writesOnce_iff h color,
    fun _ _ _ _ _ h => fillRoundRect_writesOnce_iff h color⟩

/-- A rounded square of two pixels by two, each of them once. -/
theorem writesOnce_square : (fillRoundRect 10 10 2 2 1 0x80FF0000).WritesOnce :=
  ((filledRound_writesOnce_iff 0x80FF0000).2 10 10 2 2 1
    ⟨by decide, by decide, by decide, by decide, by decide, by decide, by decide, by decide⟩).mpr
    (Or.inr (Or.inr ⟨rfl, rfl⟩))

/-- A circle of radius 1 has its middle column twice. -/
theorem not_writesOnce_small : ¬ (fillCircle 10 10 1 0x80FF0000).WritesOnce := by
  rintro ⟨pixels, hpixels, hnodup⟩
  rw [written_fillCircle circlePoints_one, Option.some.injEq] at hpixels
  subst hpixels
  revert hnodup
  decide

/-! ## On a panel -/

namespace Surface

variable {t : Surface F}

/-- The end of a span is in reach. -/
def InReach : Step → Prop
  | .writeFastVLine _ y h _ => Short (y.toInt + h.toInt)
  | .writeFastHLine x _ w _ => Short (x.toInt + w.toInt)
  | _ => True

/-- Cells in which every pixel of the clip is as often as in a list of pixels. -/
def Tallies (t : Surface F) (cells : List Int) (pixels : List (Int × Int)) : Prop :=
  ∀ x y, t.gfx.Inside x y → cells.count (t.pixelCell x y) = pixels.count (x, y)

theorem Tallies.append {cells cells' : List Int} {pixels pixels' : List (Int × Int)}
    (h : t.Tallies cells pixels) (h' : t.Tallies cells' pixels') :
    t.Tallies (cells ++ cells') (pixels ++ pixels') := by
  intro x y hin
  rw [List.count_append, List.count_append, h x y hin, h' x y hin]

theorem tallies_of_nodup {cells : List Int} {pixels : List (Int × Int)} (hcells : cells.Nodup)
    (hpixels : pixels.Nodup)
    (h : ∀ x y, t.gfx.Inside x y → (t.pixelCell x y ∈ cells ↔ (x, y) ∈ pixels)) :
    t.Tallies cells pixels := by
  intro x y hin
  rw [hcells.count, hpixels.count]
  exact if_congr (h x y hin) rfl rfl

theorem cells_spanStores (color : UInt32) (cells : List Int) :
    (cells.map (spanStore color)).map Store.cell = cells := by
  rw [List.map_map]
  exact List.map_id cells

/-- A step of a panel stores to a pixel as often as it writes it. -/
theorem Panel.tallies_stores (h : t.Panel) {s : Step} (hs : InReach s) {pixels : List (Int × Int)}
    (hwritten : s.written = some pixels) :
    ∃ stores, t.stores s = some stores ∧ t.Tallies (stores.map Store.cell) pixels := by
  cases s with
  | writePixel x y color =>
      cases hwritten
      refine ⟨_, rfl, ?_⟩
      by_cases hdraws : alpha color = 0 ∨ t.gfx.inside x y = false
      · rw [Surface.writePixel, if_pos hdraws]
        refine tallies_of_nodup List.nodup_nil (by split <;> simp) fun x' y' hin => ?_
        refine iff_of_false List.not_mem_nil fun hmem => ?_
        rcases hdraws with hcolor | hclip
        · rw [if_pos hcolor] at hmem
          cases hmem
        · split at hmem
          · cases hmem
          · rw [List.mem_singleton, Prod.mk.injEq] at hmem
            obtain ⟨rfl, rfl⟩ := hmem
            have hout := not_inside_iff.mp hclip
            obtain ⟨hx, hxW, hy, hyH⟩ := hin
            omega
      · rw [not_or, Bool.not_eq_false] at hdraws
        obtain ⟨hcolor, hclip⟩ := hdraws
        rw [h.writePixel_eq hcolor hclip, if_neg hcolor]
        refine tallies_of_nodup (List.nodup_singleton _) (List.nodup_singleton _)
          fun x' y' hin => ?_
        rw [List.map_singleton, List.mem_singleton, List.mem_singleton, Prod.mk.injEq]
        constructor
        · exact h.injective hin (inside_iff.mp hclip)
        · rintro ⟨rfl, rfl⟩
          rfl
  | writeFastVLine x y l color =>
      cases hwritten
      have hend : (Int16.ofInt (y.toInt + l.toInt)).toInt = y.toInt + l.toInt :=
        Short.toInt_ofInt hs
      have hcells : t.writeFastVLine x y l color =
          some ((t.vLineCells x y (y.toInt + l.toInt) color).map (spanStore color)) := by
        cases hbuffer : t.backing.hasBuffer with
        | true => rw [h.writeFastVLine_eq hbuffer, hend]
        | false => exact h.writeFastVLine_pixels hbuffer hs.2 color
      refine ⟨_, hcells, ?_⟩
      rw [cells_spanStores]
      refine tallies_of_nodup (h.nodup_vLineCells _ _ _ _) (nodup_columnPixels _ _ _ _) ?_
      intro x' y' hin
      rw [h.mem_vLineCells hin, mem_columnPixels]
      rfl
  | writeFastHLine x y w color =>
      cases hwritten
      refine ⟨_, h.writeFastHLine_eq x y w color, ?_⟩
      rw [cells_spanStores]
      refine tallies_of_nodup (nodup_hLineCells _ _ _ _) (nodup_rowPixels _ _ _ _) ?_
      intro x' y' hin
      rw [h.mem_hLineCells hin, mem_rowPixels, Short.toInt_ofInt hs]
      rfl
  | drawPixel x y color => cases hwritten
  | drawFastVLine x y h color => cases hwritten
  | drawFastHLine x y w color => cases hwritten
  | fillScreen color => cases hwritten
  | drawRGB565Bitmap x y bitmap w h => cases hwritten

/-- The steps of a plan together. -/
theorem Panel.tallies_storesOf (h : t.Panel) {steps : List Step} (hs : ∀ s ∈ steps, InReach s)
    {pixels : List (Int × Int)} (hwritten : Plan.written (some steps) = some pixels) :
    ∃ stores, t.storesOf steps = some stores ∧ t.Tallies (stores.map Store.cell) pixels := by
  induction steps generalizing pixels with
  | nil =>
      cases hwritten
      exact ⟨[], rfl, fun _ _ _ => rfl⟩
  | cons s steps ih =>
      rw [List.forall_mem_cons] at hs
      simp only [Plan.written, Option.bind_some, List.map_cons, inTurn] at hwritten ih
      obtain ⟨first, hfirst, hmore⟩ := Option.bind_eq_some_iff.mp hwritten
      obtain ⟨rest, hrest, rfl⟩ := Option.map_eq_some_iff.mp hmore
      obtain ⟨stores, hstores, htallies⟩ := h.tallies_stores hs.1 hfirst
      obtain ⟨stores', hstores', htallies'⟩ := ih hs.2 hrest
      refine ⟨stores ++ stores', ?_, ?_⟩
      · rw [storesOf] at hstores' ⊢
        rw [List.map_cons, inTurn, hstores, Option.bind_some, hstores', Option.map_some]
      · rw [List.map_append]
        exact htallies.append htallies'

/-- The columns of the passes end in reach. -/
theorem inReach_fillCircleHelper {x0 y0 r delta : Int16} {c : UInt8} {color : UInt32}
    (hr : r.toInt ≤ 16383) (hy : 0 < r.toInt → -32768 ≤ y0.toInt - r.toInt ∧ -1 ≤ delta.toInt ∧
      2 * r.toInt + 1 + delta.toInt ≤ 32767 ∧ y0.toInt + r.toInt + 1 + delta.toInt ≤ 32767)
    {steps : List Step} (hsteps : fillCircleHelper x0 y0 r c delta color = some steps) :
    ∀ s ∈ steps, InReach s := by
  rw [fillCircleHelper] at hsteps
  obtain ⟨ps, hps, rfl⟩ := Option.map_eq_some_iff.mp hsteps
  intro s hs
  obtain ⟨p, hp, hs⟩ := List.mem_flatMap.mp hs
  by_cases hpos : 0 < r.toInt
  · obtain ⟨htop, hlow, hhigh, hend⟩ := hy hpos
    obtain ⟨n, h⟩ := MidpointCircle.exists_ends (r := r.toInt) (by omega)
    rw [circlePoints_eq hr h, Option.some.injEq] at hps
    subst hps
    obtain ⟨k, hk, rfl⟩ := List.mem_map.mp hp
    rw [List.mem_range] at hk
    have hcolumn : ∀ x v, 0 ≤ v → v ≤ r.toInt →
        InReach (.writeFastVLine x (y0 - Int16.ofInt v) (2 * Int16.ofInt v + 1 + delta) color) := by
      intro x v hv hvr
      obtain ⟨hfirst, hheight⟩ := toInt_column htop hlow hhigh hv hvr
      rw [InReach, hfirst, hheight]
      exact ⟨by omega, by omega⟩
    have hbottom := (h.octant (k + 1) hk).bottom
    have hbelow := (h.octant (k + 1) hk).top
    have hbefore := h.before k hk
    have htop' := (h.octant k (Nat.le_of_lt hk)).top
    rw [MidpointCircle.point_fst] at hbefore
    have hupper := fun x => hcolumn x _ hbottom hbelow
    have hlower := fun x => hcolumn x (k + 1 : Nat) (by omega) (by omega)
    simp only [onCircle, MidpointCircle.point_fst] at hs
    rcases List.mem_append.mp hs with hs | hs
    all_goals
      split at hs
      · rw [List.mem_cons, List.mem_singleton] at hs
        rcases hs with rfl | rfl
        · exact hupper _
        · exact hlower _
      · cases hs
  · rw [circlePoints_of_nonpos (Int16.le_iff_toInt_le.mpr (Int.not_lt.mp hpos)),
      Option.some.injEq] at hps
    subst hps
    cases hp

/-- A filled circle on a panel: its pixels in the clip, each as often as the plan writes it. -/
theorem Panel.tallies_fillCircle (h : t.Panel) {x0 y0 r : Int16} (hfits : CircleFits x0 y0 r)
    (color : UInt32) :
    ∃ stores pixels, (fillCircle x0 y0 r color).bind t.storesOf = some stores ∧
      (fillCircle x0 y0 r color).written = some pixels ∧
      t.Tallies (stores.map Store.cell) pixels := by
  obtain ⟨ps, hps⟩ := circlePoints_ends r
  have hwritten := written_fillCircle hps x0 y0 color
  obtain ⟨steps, hsteps, hpixels⟩ := Option.bind_eq_some_iff.mp hwritten
  have hdelta : (0 : Int16).toInt = 0 := rfl
  have hheight : (2 * r + 1).toInt = 2 * r.toInt + 1 := by
    rw [show 2 * r + 1 = Int16.ofInt (2 * r.toInt + 1) by
      simp only [Int16.ofInt_add, Int16.ofInt_mul, Int16.ofInt_toInt]
      rfl]
    exact hfits.height.toInt_ofInt
  obtain ⟨⟨hlow, hhigh⟩, ⟨htop, htop'⟩, hbottom, _⟩ := hfits
  have hreach : ∀ s ∈ steps, InReach s := by
    intro s hs
    obtain ⟨made, hmade, hs⟩ := mem_inTurn hsteps hs
    rw [List.mem_cons, List.mem_singleton] at hmade
    rcases hmade with hmiddle | hhelper
    · rw [Option.some.injEq] at hmiddle
      subst hmiddle
      rw [List.mem_singleton] at hs
      subst hs
      rw [InReach, hheight, toInt_sub_of htop htop']
      rw [show y0.toInt - r.toInt + (2 * r.toInt + 1) = y0.toInt + r.toInt + 1 by omega]
      exact hbottom
    · have hbottom' := hbottom.2
      exact inReach_fillCircleHelper (by omega) (fun _ => ⟨htop, by omega, by omega, by omega⟩)
        hhelper.symm s hs
  obtain ⟨stores, hstores, htallies⟩ := h.tallies_storesOf hreach hpixels
  exact ⟨stores, _, by rw [hsteps, Option.bind_some, hstores], hwritten, htallies⟩

/-- A filled rounded rectangle on a panel. -/
theorem Panel.tallies_fillRoundRect (h : t.Panel) {x y w l radius : Int16}
    (hfits : RoundRectFits x y w l (cornerRadius w l radius)) (color : UInt32) :
    ∃ stores pixels, (fillRoundRect x y w l radius color).bind t.storesOf = some stores ∧
      (fillRoundRect x y w l radius color).written = some pixels ∧
      t.Tallies (stores.map Store.cell) pixels := by
  obtain ⟨ps, hps⟩ := circlePoints_ends (cornerRadius w l radius)
  have hwritten := written_fillRoundRect (x := x) hps hfits.bottom.2 color
  obtain ⟨steps, hsteps, hpixels⟩ := Option.bind_eq_some_iff.mp hwritten
  have hradius := @cornerRadius_le w l radius
  have hreach : ∀ s ∈ steps, InReach s := by
    intro s hs
    obtain ⟨made, hmade, hs⟩ := mem_inTurn hsteps hs
    have hhelper : ∀ u c, fillCircleHelper u (y + cornerRadius w l radius)
        (cornerRadius w l radius) c (l - 2 * cornerRadius w l radius - 1) color = some made →
        InReach s := by
      intro u c hmade
      have hmiddle := toInt_add_of hfits.top.1 hfits.top.2
      have hdelta := hfits.toInt_delta
      have hbottom := hfits.bottom.2
      have hfirst := y.le_toInt
      have hlength := l.toInt_lt
      refine inReach_fillCircleHelper (by omega) (fun hpos => ?_) hmade s hs
      obtain ⟨_, hcorner⟩ := hradius hpos
      exact ⟨by omega, by omega, by omega, by omega⟩
    rw [List.mem_cons, List.mem_cons, List.mem_singleton] at hmade
    rcases hmade with hrect | hright | hleft
    · rw [Libgfx.writeFillRect] at hrect
      split at hrect
      · rw [Option.some.injEq] at hrect
        subst hrect
        cases hs
      · obtain ⟨i, hi⟩ := mem_each hrect.symm hs
        rw [List.mem_singleton] at hi
        subst hi
        rw [InReach, toInt_add_of hfits.left.1 hfits.left.2, hfits.toInt_width]
        rw [show x.toInt + (cornerRadius w l radius).toInt +
          (w.toInt - 2 * (cornerRadius w l radius).toInt) =
          x.toInt + w.toInt - (cornerRadius w l radius).toInt by omega]
        exact hfits.right
    · exact hhelper _ _ hright.symm
    · exact hhelper _ _ hleft.symm
  obtain ⟨stores, hstores, htallies⟩ := h.tallies_storesOf hreach hpixels
  exact ⟨stores, _, by rw [hsteps, Option.bind_some, hstores], hwritten, htallies⟩

end Surface

end MFoES.Libgfx
