import MFoES.Lib.Edges
import MFoES.Libgfx.Spans

/-!
# Filled triangles

`fillTriangle` fills a triangle by one span on each scanline that it meets, with its ends less than
a pixel from two edges (`fillTriangle_spans`).  A flat one it leaves to `drawFastHLine`, which is a
primitive of its own and goes by the stroke width: on a device it draws as many rows as that.
-/

namespace MFoES.Libgfx

variable {F : Type}

/-! ## Spans -/

/-- A horizontal span, as `writeFastHLine` takes it. -/
structure Span where
  x : Int16
  y : Int16
  w : Int16
deriving DecidableEq

/-- The pixels of a span. -/
def Span.row (s : Span) : Edges.Row := ⟨s.y.toInt, s.x.toInt, s.x.toInt + s.w.toInt - 1⟩

namespace Surface

variable (t : Surface F)

/-- The width that the surface strokes with. -/
def strokeWidth : Int16 := Int16.ofNat t.gfx.drawStyle.strokeWidth.toNat

/-- The spans that a step comes down to, if it returns. -/
def spans : Step → Option (List Span)
  | .writeFastHLine x y w _ => some [⟨x, y, w⟩]
  | .drawFastHLine x y w color =>
      match t.backing with
      | .device _ _ =>
          if 1 < t.strokeWidth then
            let y := y - t.strokeWidth / 2
            if alpha color = 0 then some []
            else (forUp y (y.toInt + t.strokeWidth.toInt)).map fun is => is.map fun i => ⟨x, i, w⟩
          else some [⟨x, y, w⟩]
      | .canvas _ _ => some [⟨x, y, w⟩]
  | _ => some []

/-- The spans of steps. -/
def spansOf (steps : List Step) : Option (List Span) := inTurn (steps.map t.spans)

variable {t}

theorem spansOf_singleton (step : Step) : t.spansOf [step] = t.spans step := by
  rw [spansOf, List.map_singleton, inTurn, inTurn]
  cases t.spans step <;> simp

/-- On a device the spans of `drawFastHLine` are what it draws. -/
theorem drawFastHLine_spans {pitch : UInt32} {mapped : Bool} (hb : t.backing = .device pitch mapped)
    (x y w : Int16) (color : UInt32) :
    t.drawFastHLine x y w color = (t.spans (.drawFastHLine x y w color)).bind fun ss =>
      inTurn (ss.map fun s => t.writeFastHLine s.x s.y s.w color) := by
  simp only [Surface.drawFastHLine, spans, hb]
  rw [strokeWidth]
  split
  · rw [Surface.writeFillRect]
    split
    · rfl
    · cases forUp (y - Int16.ofNat t.gfx.drawStyle.strokeWidth.toNat / 2)
        ((y - Int16.ofNat t.gfx.drawStyle.strokeWidth.toNat / 2).toInt +
          (Int16.ofNat t.gfx.drawStyle.strokeWidth.toNat).toInt) with
      | none => rfl
      | some is =>
          rw [Option.map_some, Option.bind_some, Option.bind_some, List.map_map]
          rfl
  · rw [Option.bind_some, List.map_singleton, inTurn, inTurn]
    cases t.writeFastHLine x y w color <;> simp

end Surface

/-! ## Corners -/

/-- A corner, as integers. -/
def corner (v : Int16 × Int16) : Edges.Point := (v.1.toInt, v.2.toInt)

/-- The corners come out by their `y`. -/
theorem sortByY_sorted {u v w a b c : Int16 × Int16} (h : sortByY u v w = (a, b, c)) :
    a.2.toInt ≤ b.2.toInt ∧ b.2.toInt ≤ c.2.toInt := by
  have hsorted : (sortByY u v w).1.2.toInt ≤ (sortByY u v w).2.1.2.toInt ∧
      (sortByY u v w).2.1.2.toInt ≤ (sortByY u v w).2.2.2.toInt := by
    simp only [sortByY, Int16.lt_iff_toInt_lt]
    split <;> split <;> try split
    all_goals dsimp only at *; omega
  rwa [h] at hsorted

/-- What does not depend on the order of the corners holds of them sorted. -/
theorem sortByY_perm {P : Int16 × Int16 → Int16 × Int16 → Int16 × Int16 → Prop}
    (hswap : ∀ u v w, P u v w → P v u w) (hlast : ∀ u v w, P u v w → P u w v)
    (u v w : Int16 × Int16) :
    P (sortByY u v w).1 (sortByY u v w).2.1 (sortByY u v w).2.2 ↔ P u v w := by
  have hswap' : ∀ u v w, P u v w ↔ P v u w := fun u v w => ⟨hswap u v w, hswap v u w⟩
  have hlast' : ∀ u v w, P u v w ↔ P u w v := fun u v w => ⟨hlast u v w, hlast u w v⟩
  simp only [sortByY]
  split
  · split
    · split
      · rw [hswap', hlast', hswap']
      · rw [hlast', hswap']
    · split
      · rfl
      · rw [hswap']
  · split
    · split
      · rw [hswap', hlast']
      · rw [hlast']
    · rfl

/-- The coordinates of a corner that leaves room for what is computed from them. -/
def Central (v : Int16 × Int16) : Prop :=
  (-16383 ≤ v.1.toInt ∧ v.1.toInt ≤ 16383) ∧ -16383 ≤ v.2.toInt ∧ v.2.toInt ≤ 16383

/-! ## Scanlines -/

theorem ofInt_lt_ofInt {u v : Int} (hu : Short u) (hv : Short v) :
    Int16.ofInt u < Int16.ofInt v ↔ u < v := by
  rw [Int16.lt_iff_toInt_lt, hu.toInt_ofInt, hv.toInt_ofInt]

/-- A scanline goes from the lesser end to the greater one. -/
theorem scanline_eq {u v : Int} (hu : Short u) (hv : Short v) (y : Int16) (color : UInt32) :
    scanline (Int16.ofInt u) (Int16.ofInt v) y color =
      [.writeFastHLine (Int16.ofInt (min u v)) y (Int16.ofInt (max u v - min u v + 1)) color] := by
  simp only [scanline, ofInt_lt_ofInt hv hu]
  split
  · next hlt =>
    rw [min_eq_right (by omega), max_eq_left (by omega), Int16.ofInt_add, Int16.ofInt_sub]
    rfl
  · next hle =>
    rw [min_eq_left (by omega), max_eq_right (by omega), Int16.ofInt_add, Int16.ofInt_sub]
    rfl

/-- A loop on the rows of a triangle, with its passes counted. -/
theorem each_rows {y : Int16} {b : Int} (hb : b ≤ 32767) (body : Int16 × Nat → List Step) :
    Plan.each ((forUp y b).map List.zipIdx) body =
      some ((List.range (b - y.toInt).toNat).flatMap fun k => body (y + Int16.ofNat k, k)) := by
  have hzip : ((List.range (b - y.toInt).toNat).map fun k => y + Int16.ofNat k).zipIdx =
      (List.range (b - y.toInt).toNat).map fun k => (y + Int16.ofNat k, k) := by
    refine List.ext_getElem (by simp) fun k _ _ => by simp
  rw [forUp_eq y hb, Option.map_some, hzip, Plan.each, Option.map_some, List.flatMap_map]

section Sorted

variable {a b c : Int16 × Int16} (ha : Central a) (hb : Central b) (hc : Central c)
  (hab : a.2.toInt ≤ b.2.toInt) (hbc : b.2.toInt ≤ c.2.toInt) (hac : a.2.toInt < c.2.toInt)

/-- A row of a triangle, of which `b` is the middle corner. -/
def rowSpan (a b c : Int16 × Int16) (k : Nat) : Span :=
  let l := min (Edges.ends (corner a) (corner b) (corner c) k).1
    (Edges.ends (corner a) (corner b) (corner c) k).2
  let r := max (Edges.ends (corner a) (corner b) (corner c) k).1
    (Edges.ends (corner a) (corner b) (corner c) k).2
  ⟨Int16.ofInt l, a.2 + Int16.ofNat k, Int16.ofInt (r - l + 1)⟩

/-- The step that draws a row. -/
def rowStep (a b c : Int16 × Int16) (color : UInt32) (k : Nat) : Step :=
  .writeFastHLine (rowSpan a b c k).x (rowSpan a b c k).y (rowSpan a b c k).w color

include ha hb in
theorem toInt_sub_corner : (b.1 - a.1).toInt = b.1.toInt - a.1.toInt ∧
    (b.2 - a.2).toInt = b.2.toInt - a.2.toInt := by
  obtain ⟨⟨hax, hax'⟩, hay, hay'⟩ := ha
  obtain ⟨⟨hbx, hbx'⟩, hby, hby'⟩ := hb
  exact ⟨toInt_sub_of (by omega) (by omega), toInt_sub_of (by omega) (by omega)⟩

include ha hb in
/-- An end of a row is where the edge is. -/
theorem edgeAt_corner (k : Int) :
    edgeAt a.1 (k * (b.1 - a.1).toInt) (b.2 - a.2) =
      Int16.ofInt ((corner a).1 + Edges.aside (corner a) (corner b) k) := by
  obtain ⟨hdx, hdy⟩ := toInt_sub_corner ha hb
  rw [edgeAt, hdx, hdy]
  rfl

include ha hb hc hab hbc hac in
theorem ends_short {k : Int} (hk : 0 ≤ k) (hk' : k ≤ c.2.toInt - a.2.toInt) :
    Short (Edges.ends (corner a) (corner b) (corner c) k).1 ∧
      Short (Edges.ends (corner a) (corner b) (corner c) k).2 := by
  have hmem := Edges.ends_mem (a := corner a) (b := corner b) (c := corner c) (k := k) hab hbc hac
    hk hk'
  obtain ⟨⟨hax, hax'⟩, _⟩ := ha
  obtain ⟨⟨hbx, hbx'⟩, _⟩ := hb
  obtain ⟨⟨hcx, hcx'⟩, _⟩ := hc
  simp only [corner] at hmem ⊢
  exact ⟨⟨by omega, by omega⟩, by omega, by omega⟩

include ha hb hc hab hbc hac in
/-- A row on or above the middle corner. -/
theorem scanline_upper {k : Nat} (hk : (k : Int) ≤ c.2.toInt - a.2.toInt)
    (hupper : a.2.toInt + k < b.2.toInt ∨ b.2.toInt = c.2.toInt) (color : UInt32) :
    scanline (edgeAt a.1 (k * (b.1 - a.1).toInt) (b.2 - a.2))
      (edgeAt a.1 (k * (c.1 - a.1).toInt) (c.2 - a.2)) (a.2 + Int16.ofNat k) color =
        [rowStep a b c color k] := by
  have hends : Edges.ends (corner a) (corner b) (corner c) k =
      ((corner a).1 + Edges.aside (corner a) (corner b) k,
        (corner a).1 + Edges.aside (corner a) (corner c) k) := if_pos hupper
  obtain ⟨hl, hr⟩ := ends_short ha hb hc hab hbc hac (k := k) (by omega) hk
  rw [hends] at hl hr
  rw [edgeAt_corner ha hb, edgeAt_corner ha hc, scanline_eq hl hr, rowStep, rowSpan, hends]

include ha hb hc hab hbc hac in
/-- A row on or below the middle corner. -/
theorem scanline_lower {j : Nat} (hj : (j : Int) ≤ c.2.toInt - b.2.toInt)
    (hlower : b.2.toInt ≠ c.2.toInt) (color : UInt32) :
    scanline (edgeAt b.1 (j * (c.1 - b.1).toInt) (c.2 - b.2))
      (edgeAt a.1 ((c.1 - a.1).toInt * (b.2.toInt - a.2.toInt) + j * (c.1 - a.1).toInt)
        (c.2 - a.2)) (b.2 + Int16.ofNat j) color =
        [rowStep a b c color ((b.2.toInt - a.2.toInt).toNat + j)] := by
  generalize hk : (b.2.toInt - a.2.toInt).toNat + j = k
  have hkj : (j : Int) = k - (b.2.toInt - a.2.toInt) := by omega
  have hends : Edges.ends (corner a) (corner b) (corner c) k =
      ((corner b).1 + Edges.aside (corner b) (corner c) j,
        (corner a).1 + Edges.aside (corner a) (corner c) k) := by
    have hnot : ¬ ((corner a).2 + k < (corner b).2 ∨ (corner b).2 = (corner c).2) := by
      simp only [corner]
      omega
    rw [Edges.ends, if_neg hnot, hkj]
    rfl
  obtain ⟨hl, hr⟩ := ends_short ha hb hc hab hbc hac (k := k) (by omega) (by omega)
  have hlong : (c.1 - a.1).toInt * (b.2.toInt - a.2.toInt) + j * (c.1 - a.1).toInt =
      k * (c.1 - a.1).toInt := by
    rw [Int.mul_comm, ← Int.add_mul, hkj]
    congr 1
    omega
  have hrow : b.2 + Int16.ofNat j = a.2 + Int16.ofNat k := by
    have hlast := hc.2.2
    rw [← Int16.toInt_inj, toInt_add_ofNat (by omega), toInt_add_ofNat (by omega)]
    omega
  rw [hends] at hl hr
  rw [hlong, edgeAt_corner hb hc, edgeAt_corner ha hc, scanline_eq hl hr, rowStep, rowSpan, hends,
    hrow]

end Sorted

/-- The rows of a triangle, from its first scanline to its last. -/
theorem fillTriangle_eq {x0 y0 x1 y1 x2 y2 : Int16} {a b c : Int16 × Int16}
    (hsort : sortByY (x0, y0) (x1, y1) (x2, y2) = (a, b, c)) (ha : Central a) (hb : Central b)
    (hc : Central c) (hac : a.2 ≠ c.2) (color : UInt32) :
    fillTriangle x0 y0 x1 y1 x2 y2 color =
      some ((List.range (c.2.toInt - a.2.toInt + 1).toNat).map (rowStep a b c color)) := by
  obtain ⟨hab, hbc⟩ := sortByY_sorted hsort
  have hne := mt Int16.toInt_inj.mp hac
  have hlow := ha.2.1
  have hhigh := hc.2.2
  have hdy : (c.2 - b.2 = 0) ↔ b.2.toInt = c.2.toInt := by
    rw [← Int16.toInt_inj, (toInt_sub_corner hb hc).2]
    show _ = 0 ↔ _
    omega
  simp only [fillTriangle, hsort, if_neg hac, hdy]
  by_cases hflat : b.2 = c.2
  · have hflat' : b.2.toInt = c.2.toInt := congrArg Int16.toInt hflat
    rw [if_pos hflat, if_pos hflat', each_rows (by omega), inTurn, inTurn, inTurn]
    simp only [Option.bind_some, Option.map_some, List.append_nil, Option.some.injEq]
    rw [show (b.2.toInt + 1 - a.2.toInt).toNat = (c.2.toInt - a.2.toInt + 1).toNat by omega,
      List.map_eq_flatMap]
    refine List.flatMap_congr fun k hk => ?_
    rw [List.mem_range] at hk
    exact scanline_upper ha hb hc hab hbc (by omega) (by omega) (Or.inr hflat') color
  · have hflat' := mt Int16.toInt_inj.mp hflat
    have hpred : (b.2 - 1).toInt = b.2.toInt - 1 := toInt_pred (by omega)
    rw [if_neg hflat, if_neg hflat', hpred, each_rows (by omega), each_rows (by omega), inTurn,
      inTurn, inTurn]
    simp only [Option.bind_some, Option.map_some, List.append_nil, Option.some.injEq]
    have hcount : (c.2.toInt - a.2.toInt + 1).toNat =
        (b.2.toInt - 1 + 1 - a.2.toInt).toNat + (c.2.toInt + 1 - b.2.toInt).toNat := by omega
    rw [hcount, List.range_add, List.map_append, List.map_map, List.map_eq_flatMap,
      List.map_eq_flatMap]
    refine congrArg₂ (· ++ ·) (List.flatMap_congr fun k hk => ?_)
      (List.flatMap_congr fun j hj => ?_)
    · rw [List.mem_range] at hk
      exact scanline_upper ha hb hc hab hbc (by omega) (by omega) (Or.inl (by omega)) color
    · rw [List.mem_range] at hj
      rw [scanline_lower ha hb hc hab hbc (by omega) (by omega) hflat' color, Function.comp_apply,
        Int.sub_add_cancel]

/-! ## What is computed -/

/-- `int32_t` has it. -/
def Long (n : Int) : Prop := -2 ^ 31 ≤ n ∧ n < 2 ^ 31

/-- A pass computes an end of its span, `x + s / dy`, without a division by zero, and nothing
overflows, the sum for the next pass included. -/
structure EndSafe (x s dx dy : Int) : Prop where
  divisor : dy ≠ 0
  sum : Long s
  next : Long (s + dx)
  place : Short (x + s.tdiv dy)

/-- What is computed for a triangle with its corners sorted does not overflow, and no divisor is
zero. -/
structure TriangleSafe (a b c : Edges.Point) : Prop where
  upperSides : Short (b.1 - a.1) ∧ Short (b.2 - a.2)
  longSides : Short (c.1 - a.1) ∧ Short (c.2 - a.2)
  lowerSides : Short (c.1 - b.1) ∧ Short (c.2 - b.2)
  flat : Short (max a.1 (max b.1 c.1) - min a.1 (min b.1 c.1) + 1)
  upper : a.2 < c.2 → ∀ k : Nat, a.2 + k < b.2 ∨ b.2 = c.2 ∧ a.2 + k ≤ b.2 →
    EndSafe a.1 (k * (b.1 - a.1)) (b.1 - a.1) (b.2 - a.2) ∧
      EndSafe a.1 (k * (c.1 - a.1)) (c.1 - a.1) (c.2 - a.2)
  lower : b.2 ≠ c.2 → ∀ j : Nat, b.2 + j ≤ c.2 →
    EndSafe b.1 (j * (c.1 - b.1)) (c.1 - b.1) (c.2 - b.2) ∧
      EndSafe a.1 ((c.1 - a.1) * (b.2 - a.2) + j * (c.1 - a.1)) (c.1 - a.1) (c.2 - a.2)

theorem long_mul {k d : Int} (hk : 0 ≤ k) (hk' : k ≤ 32767) (hd : -32766 ≤ d) (hd' : d ≤ 32766) :
    Long (k * d) := by
  have hlow : k * -32766 ≤ k * d := Int.mul_le_mul_of_nonneg_left hd hk
  have hhigh : k * d ≤ k * 32766 := Int.mul_le_mul_of_nonneg_left hd' hk
  exact ⟨by omega, by omega⟩

/-- An end on an edge between central corners. -/
theorem endSafe_aside {u v : Int16 × Int16} (hu : Central u) (hv : Central v) {k : Int}
    (hdy : u.2.toInt < v.2.toInt) (hk : 0 ≤ k) (hk' : k ≤ v.2.toInt - u.2.toInt) :
    EndSafe u.1.toInt (k * (v.1.toInt - u.1.toInt)) (v.1.toInt - u.1.toInt)
      (v.2.toInt - u.2.toInt) := by
  have hmem := Edges.aside_mem (p := corner u) (q := corner v) (k := k)
    (Int.sub_pos_of_lt hdy) hk hk'
  obtain ⟨⟨hux, hux'⟩, huy, huy'⟩ := hu
  obtain ⟨⟨hvx, hvx'⟩, hvy, hvy'⟩ := hv
  refine ⟨by omega, long_mul hk (by omega) (by omega) (by omega), ?_, ?_⟩
  · have hnext : k * (v.1.toInt - u.1.toInt) + (v.1.toInt - u.1.toInt) =
        (k + 1) * (v.1.toInt - u.1.toInt) := by rw [Int.add_mul, Int.one_mul]
    rw [hnext]
    exact long_mul (by omega) (by omega) (by omega) (by omega)
  · simp only [corner, Edges.aside] at hmem
    exact ⟨by omega, by omega⟩

theorem triangleSafe_corners {a b c : Int16 × Int16} (ha : Central a) (hb : Central b)
    (hc : Central c) (hab : a.2.toInt ≤ b.2.toInt) (hbc : b.2.toInt ≤ c.2.toInt) :
    TriangleSafe (corner a) (corner b) (corner c) := by
  obtain ⟨⟨hax, hax'⟩, hay, hay'⟩ := id ha
  obtain ⟨⟨hbx, hbx'⟩, hby, hby'⟩ := id hb
  obtain ⟨⟨hcx, hcx'⟩, hcy, hcy'⟩ := id hc
  constructor <;> simp only [corner]
  · exact ⟨⟨by omega, by omega⟩, by omega, by omega⟩
  · exact ⟨⟨by omega, by omega⟩, by omega, by omega⟩
  · exact ⟨⟨by omega, by omega⟩, by omega, by omega⟩
  · exact ⟨by omega, by omega⟩
  · intro hac k hk
    exact ⟨endSafe_aside ha hb (by omega) (by omega) (by omega),
      endSafe_aside ha hc (by omega) (by omega) (by omega)⟩
  · intro hne j hj
    refine ⟨endSafe_aside hb hc (by omega) (by omega) (by omega), ?_⟩
    rw [Int.mul_comm, ← Int.add_mul]
    exact endSafe_aside ha hc (by omega) (by omega) (by omega)

/-! ## The triangle -/

/-- `fillTriangle` computes without an overflow or a division by zero, and draws one span on each
scanline of the triangle. -/
structure Surface.FillsTriangle (t : Surface F) (x0 y0 x1 y1 x2 y2 : Int16) (color : UInt32) :
    Prop where
  safe : TriangleSafe (corner (sortByY (x0, y0) (x1, y1) (x2, y2)).1)
    (corner (sortByY (x0, y0) (x1, y1) (x2, y2)).2.1)
    (corner (sortByY (x0, y0) (x1, y1) (x2, y2)).2.2)
  filled : ∃ spans, (fillTriangle x0 y0 x1 y1 x2 y2 color).bind t.spansOf = some spans ∧
    Edges.Filled (corner (x0, y0)) (corner (x1, y1)) (corner (x2, y2)) (spans.map Span.row)

/-- A row on the raster. -/
theorem row_rowSpan {a b c : Int16 × Int16} (ha : Central a) (hb : Central b) (hc : Central c)
    (hab : a.2.toInt ≤ b.2.toInt) (hbc : b.2.toInt ≤ c.2.toInt) (hac : a.2.toInt < c.2.toInt)
    {k : Nat} (hk : (k : Int) ≤ c.2.toInt - a.2.toInt) :
    (rowSpan a b c k).row = Edges.rowAt (corner a) (corner b) (corner c) k := by
  obtain ⟨hl, hr⟩ := Edges.ends_mem (a := corner a) (b := corner b) (c := corner c) (k := k)
    hab hbc hac (by omega) hk
  obtain ⟨⟨hax, hax'⟩, hay, hay'⟩ := ha
  obtain ⟨⟨hbx, hbx'⟩, hby, hby'⟩ := hb
  obtain ⟨⟨hcx, hcx'⟩, hcy, hcy'⟩ := hc
  simp only [rowSpan, Span.row, Edges.rowAt]
  generalize Edges.ends (corner a) (corner b) (corner c) k = e at hl hr ⊢
  simp only [corner] at hl hr
  rw [toInt_add_ofNat (by omega), Int16.toInt_ofInt_of_le (by omega) (by omega),
    Int16.toInt_ofInt_of_le (by omega) (by omega), Edges.Row.mk.injEq]
  exact ⟨rfl, rfl, by omega⟩

/-- The spans of a triangle that is not flat. -/
theorem fillTriangle_spans (t : Surface F) {x0 y0 x1 y1 x2 y2 : Int16} {a b c : Int16 × Int16}
    (hsort : sortByY (x0, y0) (x1, y1) (x2, y2) = (a, b, c)) (ha : Central a) (hb : Central b)
    (hc : Central c) (hac : a.2 ≠ c.2) (color : UInt32) :
    ∃ spans, (fillTriangle x0 y0 x1 y1 x2 y2 color).bind t.spansOf = some spans ∧
      Edges.Filled (corner a) (corner b) (corner c) (spans.map Span.row) := by
  obtain ⟨hab, hbc⟩ := sortByY_sorted hsort
  have hne := mt Int16.toInt_inj.mp hac
  have hac' : a.2.toInt < c.2.toInt := by omega
  refine ⟨(List.range (c.2.toInt - a.2.toInt + 1).toNat).map (rowSpan a b c), ?_, ?_⟩
  · rw [fillTriangle_eq hsort ha hb hc hac color, Option.bind_some, Surface.spansOf, List.map_map]
    exact inTurn_singletons (rowSpan a b c) _
  · have hrow : ∀ k ∈ List.range (c.2.toInt - a.2.toInt + 1).toNat,
        (Span.row ∘ rowSpan a b c) k = Edges.rowAt (corner a) (corner b) (corner c) k := by
      intro k hk
      rw [List.mem_range] at hk
      exact row_rowSpan ha hb hc hab hbc hac' (by omega)
    rw [List.map_map, List.map_congr_left hrow]
    exact Edges.filled_rowAt hab hbc hac'

/-- The span of a flat triangle goes from its first corner to its last. -/
theorem flat_row {a b c : Int16 × Int16} (ha : Central a) (hb : Central b) (hc : Central c)
    (hab : a.2 = b.2) (hac : a.2 = c.2) :
    Edges.Filled (corner a) (corner b) (corner c)
      [Span.row ⟨min a.1 (min b.1 c.1), a.2,
        max a.1 (max b.1 c.1) - min a.1 (min b.1 c.1) + 1⟩] := by
  have hfilled := Edges.filled_flat (a := corner a) (b := corner b) (c := corner c)
    (congrArg Int16.toInt hab) (congrArg Int16.toInt hac)
  obtain ⟨⟨hax, hax'⟩, _⟩ := ha
  obtain ⟨⟨hbx, hbx'⟩, _⟩ := hb
  obtain ⟨⟨hcx, hcx'⟩, _⟩ := hc
  have hmin : (min a.1 (min b.1 c.1)).toInt = min a.1.toInt (min b.1.toInt c.1.toInt) := by
    rw [toInt_min, toInt_min]
  have hmax : (max a.1 (max b.1 c.1)).toInt = max a.1.toInt (max b.1.toInt c.1.toInt) := by
    rw [toInt_max, toInt_max]
  generalize min a.1 (min b.1 c.1) = l at hmin ⊢
  generalize max a.1 (max b.1 c.1) = r at hmax ⊢
  have hlen : (r - l + 1).toInt = r.toInt - l.toInt + 1 := by
    have hsub : (r - l).toInt = r.toInt - l.toInt := toInt_sub_of (by omega) (by omega)
    rw [toInt_succ (by omega), hsub]
  have hspan : Span.row ⟨l, a.2, r - l + 1⟩ = ⟨(corner a).2,
      min (corner a).1 (min (corner b).1 (corner c).1),
      max (corner a).1 (max (corner b).1 (corner c).1)⟩ := by
    simp only [Span.row, hlen, corner, hmin, hmax, Edges.Row.mk.injEq, true_and]
    omega
  rw [hspan]
  exact hfilled

/-- A canvas. -/
def Backing.isCanvas : Backing → Prop
  | .device _ _ => False
  | .canvas _ _ => True

/-- A flat triangle on a device whose strokes are wide is as many rows as the stroke is wide. -/
theorem not_filled_wide {t : Surface F} {pitch : UInt32} {mapped : Bool}
    (hb : t.backing = .device pitch mapped) (hsw : 1 < t.strokeWidth) {x y w : Int16}
    {color : UInt32} {a b c : Edges.Point} (hab : a.2 = b.2) (hac : a.2 = c.2)
    {spans : List Span} (hspans : t.spans (.drawFastHLine x y w color) = some spans) :
    ¬ Edges.Filled a b c (spans.map Span.row) := by
  intro hfilled
  have hlen := congrArg List.length hfilled.scanlines
  rw [← hab, ← hac, min_self, min_self, max_self, max_self, Int.sub_self] at hlen
  simp only [Surface.spans, hb, if_pos hsw] at hspans
  split at hspans
  · -- nothing is drawn
    cases hspans
    cases hlen
  · obtain ⟨is, his, rfl⟩ := Option.map_eq_some_iff.mp hspans
    have hreach := (isSome_forUp_iff _ _).mp (Option.isSome_of_eq_some his)
    rw [forUp_eq _ hreach, Option.some.injEq] at his
    subst his
    rw [Int16.lt_iff_toInt_lt] at hsw
    have hone : (1 : Int16).toInt = 1 := rfl
    simp only [List.length_map, List.length_range] at hlen
    omega

/-- `fillTriangle` fills a triangle, but for a flat one on a device whose strokes are wide. -/
theorem fillsTriangle_iff (t : Surface F) {x0 y0 x1 y1 x2 y2 : Int16} (color : UInt32)
    (h0 : Central (x0, y0)) (h1 : Central (x1, y1)) (h2 : Central (x2, y2)) :
    t.FillsTriangle x0 y0 x1 y1 x2 y2 color ↔
      t.strokeWidth ≤ 1 ∨ t.backing.isCanvas ∨ ¬ (y0 = y1 ∧ y1 = y2) := by
  obtain ⟨a, b, c, hsort⟩ : ∃ a b c, sortByY (x0, y0) (x1, y1) (x2, y2) = (a, b, c) :=
    ⟨_, _, _, rfl⟩
  obtain ⟨hab, hbc⟩ := sortByY_sorted hsort
  have hcentral := (sortByY_perm (P := fun u v w => Central u ∧ Central v ∧ Central w)
    (fun _ _ _ h => ⟨h.2.1, h.1, h.2.2⟩) (fun _ _ _ h => ⟨h.1, h.2.2, h.2.1⟩)
    (x0, y0) (x1, y1) (x2, y2)).mpr ⟨h0, h1, h2⟩
  have hflat := sortByY_perm (P := fun u v w => u.2 = v.2 ∧ v.2 = w.2)
    (fun _ _ _ h => ⟨h.1.symm, h.1.trans h.2⟩) (fun _ _ _ h => ⟨h.1.trans h.2, h.2.symm⟩)
    (x0, y0) (x1, y1) (x2, y2)
  have horder : ∀ rows, Edges.Filled (corner a) (corner b) (corner c) rows ↔
      Edges.Filled (corner (x0, y0)) (corner (x1, y1)) (corner (x2, y2)) rows := by
    intro rows
    have hperm := sortByY_perm
      (P := fun u v w => Edges.Filled (corner u) (corner v) (corner w) rows)
      (fun _ _ _ h => h.swap) (fun _ _ _ h => h.swap_last) (x0, y0) (x1, y1) (x2, y2)
    rwa [hsort] at hperm
  rw [hsort] at hcentral hflat
  dsimp only at hcentral hflat
  obtain ⟨ha, hb, hc⟩ := hcentral
  have hsafe := triangleSafe_corners ha hb hc hab hbc
  have hiff : t.FillsTriangle x0 y0 x1 y1 x2 y2 color ↔
      ∃ spans, (fillTriangle x0 y0 x1 y1 x2 y2 color).bind t.spansOf = some spans ∧
        Edges.Filled (corner a) (corner b) (corner c) (spans.map Span.row) := by
    simp only [horder]
    exact ⟨fun h => h.filled, fun h => ⟨by rw [hsort]; exact hsafe, h⟩⟩
  rw [hiff, ← hflat]
  by_cases hac : a.2 = c.2
  · have hac' := congrArg Int16.toInt hac
    have hab' : a.2 = b.2 := Int16.toInt_inj.mp (by omega)
    have hplan : (fillTriangle x0 y0 x1 y1 x2 y2 color).bind t.spansOf =
        (t.spans (.drawFastHLine (min a.1 (min b.1 c.1)) a.2
          (max a.1 (max b.1 c.1) - min a.1 (min b.1 c.1) + 1) color)) := by
      simp only [fillTriangle, hsort, if_pos hac, Option.bind_some, Surface.spansOf_singleton]
    rw [hplan, or_iff_left (not_not_intro ⟨hab', hab'.symm.trans hac⟩ : ¬ ¬ _)]
    have hfilled := flat_row ha hb hc hab' hac
    cases hb' : t.backing with
    | device pitch mapped =>
        by_cases hsw : 1 < t.strokeWidth
        · refine iff_of_false ?_ (not_or.mpr ⟨Int16.not_le.mpr hsw, id⟩)
          rintro ⟨spans, hspans, hrows⟩
          exact not_filled_wide hb' hsw (congrArg Int16.toInt hab') hac' hspans hrows
        · refine iff_of_true ⟨[_], ?_, hfilled⟩ (Or.inl (Int16.not_lt.mp hsw))
          simp only [Surface.spans, hb', if_neg hsw]
    | canvas format allocated =>
        refine iff_of_true ⟨[_], ?_, hfilled⟩ (Or.inr trivial)
        simp only [Surface.spans, hb']
  · refine iff_of_true (fillTriangle_spans t hsort ha hb hc hac color) (Or.inr (Or.inr ?_))
    exact fun h => hac (h.1.trans h.2)

/-- A triangle at work, its corners given from below. -/
theorem fillsTriangle_tip : landscape.FillsTriangle 10 20 0 5 (-3) 0 0xFFFFFFFF :=
  (fillsTriangle_iff landscape 0xFFFFFFFF ⟨by decide, by decide⟩ ⟨by decide, by decide⟩
    ⟨by decide, by decide⟩).mpr (Or.inl (by decide))

/-- A flat triangle in strokes of three pixels is three rows high. -/
theorem not_fillsTriangle_flat :
    ¬ ({ landscape with gfx := { landscape.gfx with drawStyle := { strokeWidth := 3 } } }
      : Surface Empty).FillsTriangle 0 10 5 10 9 10 0xFFFFFFFF := by
  rintro ⟨_, spans, hspans, hfilled⟩
  have hplan : fillTriangle 0 10 5 10 9 10 0xFFFFFFFF =
      some [.drawFastHLine 0 10 10 0xFFFFFFFF] := by decide
  rw [hplan, Option.bind_some, Surface.spansOf_singleton] at hspans
  exact not_filled_wide (a := corner (0, 10)) (b := corner (5, 10)) (c := corner (9, 10))
    rfl (by decide) rfl rfl hspans hfilled

end MFoES.Libgfx
