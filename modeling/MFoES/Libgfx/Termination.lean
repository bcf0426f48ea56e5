import MFoES.Libgfx.Lines
import MFoES.Libgfx.Triangles

/-!
# Which drawing functions return

A loop on an `int16_t` up to a bound ends where the bound is one that an `int16_t` can pass: with
32767 as its last value it starts again from the other end (`isSome_forUp_iff`).  What follows for
the rows of the primitives is exact.

A line that never comes to its end point goes on for good.  It does not as long as the error term
fits when it is doubled (`LineFits`).
-/

namespace MFoES.Libgfx

variable {F : Type}

/-! ## Passes -/

theorem isSome_inTurn_iff {α : Type} (ps : List (Option (List α))) :
    (inTurn ps).isSome ↔ ∀ p ∈ ps, p.isSome := by
  induction ps with
  | nil => simp [inTurn]
  | cons p ps ih =>
      rw [List.forall_mem_cons, ← ih, inTurn]
      cases p with
      | none => simp
      | some made => cases inTurn ps <;> simp

theorem forall_mem_ite {α : Type} {p : α → Prop} {c : Prop} [Decidable c] {l l' : List α}
    (h : ∀ a ∈ l, p a) (h' : ∀ a ∈ l', p a) : ∀ a ∈ (if c then l else l'), p a := by
  split
  · exact h
  · exact h'

namespace Surface

variable (t : Surface F)

/-! ## Steps -/

/-- A row returns, whatever its length. -/
theorem isSome_writeFastHLine (x y w : Int16) (color : UInt32) :
    (t.writeFastHLine x y w color).isSome := by
  have hlt := (min t.gfx.width (Int16.ofInt (x.toInt + w.toInt))).toInt_lt
  have hloop := (isSome_forUp_iff (max 0 x)
    (min t.gfx.width (Int16.ofInt (x.toInt + w.toInt))).toInt).mpr (by omega)
  unfold Surface.writeFastHLine
  dsimp only
  split
  · rfl
  · split
    · split <;> rfl
    · rw [Option.isSome_map]
      exact hloop

/-- `writeFillRect` returns where its last row is in reach. -/
theorem isSome_writeFillRect_iff (x y w h : Int16) (color : UInt32) :
    (t.writeFillRect x y w h color).isSome ↔ alpha color = 0 ∨ y.toInt + h.toInt ≤ 32767 := by
  rw [Surface.writeFillRect]
  split
  · next hcolor => exact iff_of_true rfl (Or.inl hcolor)
  · next hcolor =>
    rw [or_iff_right hcolor, ← isSome_forUp_iff y]
    cases forUp y (y.toInt + h.toInt) with
    | none => rfl
    | some is =>
        refine iff_of_true ?_ rfl
        rw [Option.bind_some, isSome_inTurn_iff, List.forall_mem_map]
        exact fun i _ => t.isSome_writeFastHLine x i w color

/-- A column that is drawn pixel by pixel returns where its end is in reach. -/
theorem isSome_writeFastVLine_iff (h : t.backing.hasBuffer = false) (x y l : Int16)
    (color : UInt32) :
    (t.writeFastVLine x y l color).isSome ↔ alpha color = 0 ∨ y.toInt + l.toInt ≤ 32767 := by
  rw [Surface.writeFastVLine]
  split
  · next hcolor => exact iff_of_true rfl (Or.inl hcolor)
  · next hcolor =>
    rw [or_iff_right hcolor, if_neg (by rw [h]; decide), Option.isSome_map, isSome_forUp_iff]

/-- Steps that all return do so in turn. -/
theorem isSome_strokes_iff {plan : Plan}
    (h : ∀ steps, plan = some steps → ∀ step ∈ steps, (t.stores step).isSome) :
    (plan.bind t.storesOf).isSome ↔ plan.isSome := by
  cases plan with
  | none => rfl
  | some steps =>
      refine iff_of_true ?_ rfl
      rw [Option.bind_some, storesOf, isSome_inTurn_iff, List.forall_mem_map]
      exact h steps rfl

/-- A primitive whose passes return ends where its loop ends. -/
theorem isSome_strokes_each_iff {α : Type} (passes : Option (List α)) {body : α → List Step}
    (hbody : ∀ i, ∀ step ∈ body i, (t.stores step).isSome) :
    ((Plan.each passes body).bind t.storesOf).isSome ↔ passes.isSome := by
  rw [isSome_strokes_iff, Plan.each, Option.isSome_map]
  intro steps hsteps step hstep
  obtain ⟨i, hi⟩ := mem_each hsteps hstep
  exact hbody i step hi

variable (fm : FloatMath)

/-- The rows of a smooth circle. -/
theorem isSome_writeCircleAA_iff (x0 y0 r : Int16) (color : UInt32) :
    ((writeCircleAA fm x0 y0 r color).bind t.storesOf).isSome ↔ r ≠ 32766 := by
  rw [writeCircleAA, isSome_strokes_each_iff, isSome_forUp_iff]
  · have hlt := (r + 1).toInt_lt
    have hlast : r = 32766 ↔ (r + 1).toInt = (32767 : Int16).toInt := by
      rw [Int16.toInt_inj]
      exact ⟨fun h => by rw [h]; rfl, fun h => by rw [← Int16.add_sub_cancel r 1, h]; rfl⟩
    rw [Ne, hlast]
    show _ ↔ ¬ (r + 1).toInt = 32767
    omega
  · intro dy step hstep
    obtain ⟨⟨dx, a⟩, _, hmem⟩ := List.mem_flatMap.mp hstep
    dsimp only at hmem
    split at hmem
    · cases hmem
    · split at hmem <;> simp at hmem
      · rcases hmem with rfl | rfl <;> rfl
      · rw [hmem]
        rfl

/-- The rows of a ring. -/
theorem isSome_writeThickCircle_iff (x0 y0 r : Int16) (color : UInt32) (w : UInt8) :
    ((writeThickCircle fm x0 y0 r color w).bind t.storesOf).isSome ↔
      r + Int16.ofNat (w.toNat / 2) ≠ 32767 := by
  have hlt := (r + Int16.ofNat (w.toNat / 2)).toInt_lt
  simp only [writeThickCircle, ring]
  rw [isSome_strokes_each_iff, isSome_forUp_iff, Ne, ← Int16.toInt_inj]
  · show _ ↔ ¬ (r + Int16.ofNat (w.toNat / 2)).toInt = 32767
    omega
  · intro dy
    refine forall_mem_ite (by simp) (forall_mem_ite (forall_mem_ite ?_ (by simp)) ?_) <;>
      simp [Surface.stores, isSome_writeFastHLine]

/-- The rows of a part of a ring. -/
theorem isSome_writeThickArc_iff (x0 y0 r : Int16) (cornermask : UInt8) (color : UInt32)
    (w : UInt8) :
    ((writeThickArc fm x0 y0 r cornermask color w).bind t.storesOf).isSome ↔
      r + Int16.ofNat (w.toNat / 2) ≠ 32767 := by
  have hlt := (r + Int16.ofNat (w.toNat / 2)).toInt_lt
  have hrow : ∀ (side : Prop) [Decidable side] (x y l : Int16),
      ∀ step ∈ (if side then [Step.writeFastHLine x y l color] else []),
        (t.stores step).isSome := by
    intro side _ x y l
    exact forall_mem_ite (by simp [Surface.stores, isSome_writeFastHLine]) (by simp)
  simp only [writeThickArc, ring]
  rw [isSome_strokes_each_iff, isSome_forUp_iff, Ne, ← Int16.toInt_inj]
  · show _ ↔ ¬ (r + Int16.ofNat (w.toNat / 2)).toInt = 32767
    omega
  · intro dy
    refine forall_mem_ite (by simp) (forall_mem_ite (forall_mem_ite ?_ (by simp)) ?_) <;>
      exact List.forall_mem_append.mpr ⟨hrow _ _ _ _, hrow _ _ _ _⟩

/-! ## Triangles -/

/-- Where a flat triangle returns: it is a stroke, and of more than one row on a device. -/
def FlatReturns (y : Int16) (color : UInt32) : Prop :=
  t.backing.isCanvas ∨ t.strokeWidth ≤ 1 ∨ alpha color = 0 ∨
    (y - t.strokeWidth / 2).toInt + t.strokeWidth.toInt ≤ 32767

/-- Where a triangle returns, whose corners come out as `a`, `b` and `c`: its last row is not the
last one there is, and its middle corner not on the first one. -/
def SortedReturns (a b c : Int16 × Int16) (color : UInt32) : Prop :=
  (a.2 = c.2 → t.FlatReturns a.2 color) ∧
    (a.2 ≠ c.2 → c.2.toInt < 32767 ∧ -32768 < b.2.toInt)

/-- Where `fillTriangle` returns. -/
def TriangleReturns (x0 y0 x1 y1 x2 y2 : Int16) (color : UInt32) : Prop :=
  t.SortedReturns (sortByY (x0, y0) (x1, y1) (x2, y2)).1
    (sortByY (x0, y0) (x1, y1) (x2, y2)).2.1 (sortByY (x0, y0) (x1, y1) (x2, y2)).2.2 color

theorem isSome_drawFastHLine_iff (x y w : Int16) (color : UInt32) :
    (t.drawFastHLine x y w color).isSome ↔ t.FlatReturns y color := by
  rw [FlatReturns]
  unfold Surface.drawFastHLine
  cases hb : t.backing with
  | device pitch mapped =>
      show Option.isSome (if 1 < t.strokeWidth then _ else _) ↔ False ∨ _
      rw [false_or]
      split
      · next hwide =>
        rw [isSome_writeFillRect_iff, or_iff_right (Int16.not_le.mpr hwide)]
        rfl
      · next hthin =>
        exact iff_of_true (t.isSome_writeFastHLine x y w color) (Or.inl (Int16.not_lt.mp hthin))
  | canvas format a =>
      refine iff_of_true ?_ (Or.inl trivial)
      simp only [apply_ite Option.isSome, Option.isSome_some, ite_self]

/-- The rows of a triangle. -/
theorem isSome_fillTriangle_iff (x0 y0 x1 y1 x2 y2 : Int16) (color : UInt32) :
    ((fillTriangle x0 y0 x1 y1 x2 y2 color).bind t.storesOf).isSome ↔
      t.TriangleReturns x0 y0 x1 y1 x2 y2 color := by
  obtain ⟨a, b, c, hsort⟩ : ∃ a b c, sortByY (x0, y0) (x1, y1) (x2, y2) = (a, b, c) :=
    ⟨_, _, _, rfl⟩
  obtain ⟨hab, hbc⟩ := sortByY_sorted hsort
  rw [TriangleReturns, SortedReturns, hsort]
  dsimp only
  have hlow := b.2.le_toInt
  have hlow' := a.2.le_toInt
  have hline : ∀ u v y : Int16, ∀ step ∈ scanline u v y color, (t.stores step).isSome := by
    intro u v y step hstep
    rw [scanline, List.mem_singleton] at hstep
    rw [hstep]
    exact t.isSome_writeFastHLine _ _ _ color
  by_cases hac : a.2 = c.2
  · rw [and_iff_left fun hne => (hne hac).elim, imp_iff_right hac, ← isSome_drawFastHLine_iff]
    simp only [fillTriangle, hsort, if_pos hac, Option.bind_some]
    rw [storesOf, isSome_inTurn_iff, List.map_singleton, List.forall_mem_singleton]
    rfl
  · have hne := mt Int16.toInt_inj.mp hac
    rw [and_iff_right fun heq => (hac heq).elim, imp_iff_right hac, isSome_strokes_iff]
    · simp only [fillTriangle, hsort, if_neg hac]
      rw [isSome_inTurn_iff, List.forall_mem_cons, List.forall_mem_singleton, Plan.each,
        Option.isSome_map, Option.isSome_map, isSome_forUp_iff]
      have hdy : c.2 - b.2 = 0 ↔ b.2 = c.2 := by
        rw [Int16.sub_eq_iff_eq_add, Int16.zero_add, eq_comm]
      by_cases hflat : b.2 = c.2
      · have hflat' := congrArg Int16.toInt hflat
        rw [if_pos hflat, if_pos (hdy.mpr hflat)]
        simp only [Option.isSome_some, and_true]
        omega
      · have hflat' := mt Int16.toInt_inj.mp hflat
        rw [if_neg hflat, if_neg (mt hdy.mp hflat), Plan.each, Option.isSome_map,
          Option.isSome_map, isSome_forUp_iff]
        rcases Int.lt_or_eq_of_le hlow with hpos | hfirst
        · have hpred := toInt_pred hpos
          omega
        · -- one less than the first row is the last one
          have hwrap : (b.2 - 1).toInt = 32767 := by
            rw [show b.2 = -32768 from Int16.toInt_inj.mp hfirst.symm]
            rfl
          omega
    · intro steps hsteps step hstep
      simp only [fillTriangle, hsort, if_neg hac] at hsteps
      obtain ⟨made, hmade, hstep⟩ := mem_inTurn hsteps hstep
      simp only [List.mem_cons, List.not_mem_nil, or_false] at hmade
      rcases hmade with hmade | hmade
      · obtain ⟨_, hi⟩ := mem_each hmade.symm hstep
        exact hline _ _ _ step hi
      · split at hmade
        · cases hmade
          cases hstep
        · obtain ⟨_, hi⟩ := mem_each hmade.symm hstep
          exact hline _ _ _ step hi

end Surface

/-! ## Lines -/

/-- The distances of a line fit, and the error term where it goes furthest, doubled. -/
def LineFits (x0 y0 x1 y1 : Int16) : Prop :=
  let a := distance x0 x1
  let b := distance y0 y1
  a ≤ 32767 ∧ b ≤ 32767 ∧
    2 * (Int.gcd a b : Int) * ((max a b / Int.gcd a b - 1) / 2) + 2 * (max a b - min a b) ≤
      if b ≤ a then 32767 else 32768

theorem LineFits.fitting {x0 y0 x1 y1 : Int16} (h : LineFits x0 y0 x1 y1) :
    Fitting x0 y0 x1 y1 := by
  obtain ⟨hdx, hdy, hbound⟩ := h
  have ha := distance_nonneg x0 x1
  have hb := distance_nonneg y0 y1
  refine ⟨hdx, hdy, fun k hk => ?_⟩
  have hfits := Bresenham.double_err_fits ha hb hk hbound
  split at hfits
  · exact ⟨by omega, by omega⟩
  · exact ⟨by omega, by omega⟩

/-- A line whose error term fits is drawn in as many pixels as its longer side is long. -/
theorem Surface.isSome_writeLine (t : Surface F) {x0 y0 x1 y1 : Int16}
    (h : LineFits x0 y0 x1 y1) (color : UInt32) :
    ((writeLine x0 y0 x1 y1 color).bind t.storesOf).isSome := by
  rw [writeLine, t.isSome_strokes_each_iff, linePoints_eq h.fitting]
  · rfl
  · intro p
    rw [List.forall_mem_singleton]
    rfl

/-- A flat line of 16384 steps: the error term comes back to itself in four passes, without a step
towards the end point. -/
theorem linePoints_stuck : linePoints 0 0 16384 0 = none := by
  have hgo : ∀ p : LinePoint,
      p.x = 0 ∧ (p.err = 16384 ∨ p.err = -32768 ∨ p.err = -16384 ∨ p.err = 0) →
      ∃ p', p.next 16384 0 1 (-1) 16384 0 = some p' ∧
        p'.x = 0 ∧ (p'.err = 16384 ∨ p'.err = -32768 ∨ p'.err = -16384 ∨ p'.err = 0) := by
    rintro p ⟨hx, herr⟩
    have hne : ¬ (p.x = 16384 ∧ p.y = 0) := by
      rw [hx]
      exact fun h => absurd h.1 (by decide)
    rw [LinePoint.next_eq hne]
    refine ⟨_, rfl, ?_, ?_⟩
    · rcases herr with h | h | h | h <;> rw [h, hx] <;> rfl
    · rcases herr with h | h | h | h <;> rw [h] <;> dsimp only <;> decide
  exact Loop.run_eq_none hgo ⟨rfl, Or.inl rfl⟩

/-! ## All of them -/

/-- Which primitives return on a surface, for any arguments: filled rectangles and columns that are
drawn pixel by pixel where their end is in reach, triangles where their last row is not the last one
there is, circles where their rows are not as many as there are, and lines where the error term
fits. -/
theorem drawing_returns (fm : FloatMath) (t : Surface F) :
    (∀ x y w h color, (t.writeFillRect x y w h color).isSome ↔
      alpha color = 0 ∨ y.toInt + h.toInt ≤ 32767) ∧
    (t.backing.hasBuffer = false → ∀ x y h color, (t.writeFastVLine x y h color).isSome ↔
      alpha color = 0 ∨ y.toInt + h.toInt ≤ 32767) ∧
    (∀ x0 y0 x1 y1 color, LineFits x0 y0 x1 y1 →
      ((writeLine x0 y0 x1 y1 color).bind t.storesOf).isSome) ∧
    (∀ x0 y0 x1 y1 x2 y2 color,
      ((fillTriangle x0 y0 x1 y1 x2 y2 color).bind t.storesOf).isSome ↔
        t.TriangleReturns x0 y0 x1 y1 x2 y2 color) ∧
    (∀ x0 y0 r color, ((writeCircleAA fm x0 y0 r color).bind t.storesOf).isSome ↔ r ≠ 32766) ∧
    (∀ x0 y0 r color w, ((writeThickCircle fm x0 y0 r color w).bind t.storesOf).isSome ↔
      r + Int16.ofNat (w.toNat / 2) ≠ 32767) ∧
    (∀ x0 y0 r cornermask color w,
      ((writeThickArc fm x0 y0 r cornermask color w).bind t.storesOf).isSome ↔
        r + Int16.ofNat (w.toNat / 2) ≠ 32767) :=
  ⟨t.isSome_writeFillRect_iff, t.isSome_writeFastVLine_iff,
    fun _ _ _ _ color h => t.isSome_writeLine h color, t.isSome_fillTriangle_iff,
    t.isSome_writeCircleAA_iff fm, t.isSome_writeThickCircle_iff fm, t.isSome_writeThickArc_iff fm⟩

/-- Primitives that return: a rectangle, and a line whose error term just fits. -/
theorem drawing_returns_landscape :
    (landscape.writeFillRect 0 32000 1 767 0xFFFFFFFF).isSome ∧
      ((writeLine 0 0 16383 0 0xFFFFFFFF).bind landscape.storesOf).isSome :=
  ⟨((drawing_returns FloatMath.none landscape).1 0 32000 1 767 0xFFFFFFFF).mpr (by decide),
    (drawing_returns FloatMath.none landscape).2.2.1 0 0 16383 0 0xFFFFFFFF
      ⟨by decide, by decide, by decide⟩⟩

/-- A pixel on the last row there is goes on for good, and so does a flat line of 16384 steps. -/
theorem drawing_stuck :
    ¬ (landscape.writeFillRect 0 32767 1 1 0xFFFFFFFF).isSome ∧
      ¬ ((writeLine 0 0 16384 0 0xFFFFFFFF).bind landscape.storesOf).isSome := by
  constructor
  · rw [Surface.isSome_writeFillRect_iff]
    decide
  · rw [writeLine, linePoints_stuck]
    exact Bool.false_ne_true

end MFoES.Libgfx
