import MFoES.Lib.Loops
import MFoES.Libgfx.GfxCall

/-!
# The drawing functions of LinuxGFX

A drawing function of the base class comes down to a sequence of steps, of which each writes
pixels on the object that it is called on.  Which steps they are depends on the arguments and on
members of the object, and never on its pixels (`GfxCall.plan`).  The four functions that are
virtual, and the blit of an RGB565 bitmap, which reaches for the draw buffer, are steps of their
own.

Coordinates are `int16_t` and wrap where the source narrows to it.  Loops on an `int16_t` end, or
they do not: a plan is none where its call does not return.

What the source computes in `float` is not fixed here: `FloatMath` has a function for each of it.
-/

namespace MFoES.Libgfx

/-! ## Loops on `int16_t` -/

/-- A pass of `for (int16_t i = a; i < b; i++)`. -/
def countUp (b : Int) (i : Int16) : Option Int16 := if i.toInt < b then some (i + 1) else none

/-- The values of `i` in the passes.  An `int16_t` has `2 ^ 16` values. -/
def forUp (a : Int16) (b : Int) : Option (List Int16) :=
  (Loop.run (countUp b) (2 ^ 16) a).map List.dropLast

theorem toInt_add_of {i j : Int16} (hlow : -32768 ≤ i.toInt + j.toInt)
    (hhigh : i.toInt + j.toInt ≤ 32767) : (i + j).toInt = i.toInt + j.toInt := by
  rw [Int16.toInt_add]
  exact Int.bmod_eq_of_le (by omega) (by omega)

theorem toInt_sub_of {i j : Int16} (hlow : -32768 ≤ i.toInt - j.toInt)
    (hhigh : i.toInt - j.toInt ≤ 32767) : (i - j).toInt = i.toInt - j.toInt := by
  rw [Int16.toInt_sub]
  exact Int.bmod_eq_of_le (by omega) (by omega)

theorem toInt_neg_of {i : Int16} (h : -32768 < i.toInt) : (-i).toInt = -i.toInt := by
  have hhigh := i.toInt_lt
  rw [Int16.toInt_neg]
  exact Int.bmod_eq_of_le (by omega) (by omega)

theorem toInt_succ {i : Int16} (h : i.toInt < 32767) : (i + 1).toInt = i.toInt + 1 := by
  have hlow := i.le_toInt
  have hone : (1 : Int16).toInt = 1 := rfl
  rw [toInt_add_of (by omega) (by omega), hone]

theorem toInt_pred {i : Int16} (h : -32768 < i.toInt) : (i - 1).toInt = i.toInt - 1 := by
  have hhigh := i.toInt_lt
  have hone : (1 : Int16).toInt = 1 := rfl
  rw [toInt_sub_of (by omega) (by omega), hone]

theorem toInt_add_ofNat {a : Int16} {k : Nat} (h : a.toInt + k ≤ 32767) :
    (a + Int16.ofNat k).toInt = a.toInt + k := by
  have hlow := a.le_toInt
  have hk : (Int16.ofNat k).toInt = (k : Int).bmod (2 ^ 16) := Int16.toInt_ofNat'
  rw [Int16.toInt_add, hk]
  show Int.bmod _ (2 ^ 16) = _
  rw [Int.add_bmod_bmod, Int.bmod_eq_of_le] <;> omega

/-- `int16_t` has it. -/
def Short (n : Int) : Prop := -32768 ≤ n ∧ n ≤ 32767

instance (n : Int) : Decidable (Short n) := inferInstanceAs (Decidable (_ ∧ _))

theorem Short.toInt_ofInt {n : Int} (h : Short n) : (Int16.ofInt n).toInt = n :=
  Int16.toInt_ofInt_of_le h.1 (by have := h.2; omega)

theorem run_countUp {b : Int} (hb : b ≤ 32767) {fuel : Nat} {i : Int16}
    (hfuel : (b - i.toInt).toNat < fuel) :
    Loop.run (countUp b) fuel i =
      some ((List.range ((b - i.toInt).toNat + 1)).map fun k => i + Int16.ofNat k) := by
  have hlow := i.le_toInt
  have hhigh := i.toInt_lt
  have hstep : ∀ k < (b - i.toInt).toNat,
      countUp b (i + Int16.ofNat k) = some (i + Int16.ofNat (k + 1)) := by
    intro k hk
    have hto := toInt_add_ofNat (a := i) (k := k) (by omega)
    rw [countUp, if_pos (by omega), Int16.ofNat_add, ← Int16.add_assoc]
    rfl
  have hlast : countUp b (i + Int16.ofNat (b - i.toInt).toNat) = none := by
    have hto := toInt_add_ofNat (a := i) (k := (b - i.toInt).toNat) (by omega)
    exact if_neg (by omega)
  have hrun := Loop.run_of_steps hstep hlast hfuel
  rwa [show i + Int16.ofNat 0 = i by simp] at hrun

/-- A loop up to a bound that an `int16_t` can reach ends. -/
theorem forUp_eq (a : Int16) {b : Int} (hb : b ≤ 32767) :
    forUp a b = some ((List.range (b - a.toInt).toNat).map fun k => a + Int16.ofNat k) := by
  have hlow := a.le_toInt
  rw [forUp, run_countUp hb (by omega), Option.map_some, List.range_succ, List.map_append]
  simp

/-- A loop on an `int16_t` ends where its bound is in reach. -/
theorem isSome_forUp_iff (a : Int16) (b : Int) : (forUp a b).isSome ↔ b ≤ 32767 := by
  constructor
  · intro h
    by_contra hb
    have hgo : ∀ i : Int16, True → ∃ i', countUp b i = some i' ∧ True := by
      intro i _
      have hlt := i.toInt_lt
      exact ⟨i + 1, if_pos (by omega), trivial⟩
    rw [forUp, Loop.run_eq_none hgo trivial] at h
    cases h
  · intro hb
    rw [forUp_eq a hb]
    rfl

theorem injective_toFin : Function.Injective fun i : Int16 => i.toBitVec.toFin := by
  intro i j h
  exact Int16.toBitVec_inj.mp (BitVec.toFin_inj.mp h)

/-- A loop that ends is given the fuel to. -/
theorem forUp_of_run {a : Int16} {b : Int} {fuel : Nat} {is : List Int16}
    (h : Loop.run (countUp b) fuel a = some is) : forUp a b = some is.dropLast := by
  rw [forUp, Loop.run_of_injective injective_toFin (Nat.le_refl _) h, Option.map_some]

/-- The pixel of a line, and the error term. -/
structure LinePoint where
  x : Int16
  y : Int16
  err : Int16
deriving DecidableEq

/-- The number of a point, among `2 ^ 48`. -/
def LinePoint.code (p : LinePoint) : Fin (2 ^ 48) :=
  ⟨(p.x.toBitVec.toNat * 2 ^ 16 + p.y.toBitVec.toNat) * 2 ^ 16 + p.err.toBitVec.toNat, by omega⟩

theorem LinePoint.injective_code : Function.Injective LinePoint.code := by
  intro p q h
  have hcode := Fin.val_eq_of_eq h
  simp only [LinePoint.code] at hcode
  have hfields : p.x.toBitVec = q.x.toBitVec ∧ p.y.toBitVec = q.y.toBitVec ∧
      p.err.toBitVec = q.err.toBitVec := by
    simp only [← BitVec.toNat_inj]
    omega
  obtain ⟨hx, hy, herr⟩ := hfields
  cases p
  cases q
  simp only [LinePoint.mk.injEq, ← Int16.toBitVec_inj]
  exact ⟨hx, hy, herr⟩

/-- The body of the `while (true)` of `writeLine` behind its `writePixel`. -/
def LinePoint.next (dx dy sx sy x1 y1 : Int16) (p : LinePoint) : Option LinePoint :=
  if p.x = x1 ∧ p.y = y1 then none
  else
    let e2 := 2 * p.err
    let p := if -dy.toInt < e2.toInt then { p with err := p.err - dy, x := p.x + sx } else p
    some (if e2.toInt < dx.toInt then { p with err := p.err + dx, y := p.y + sy } else p)

/-- The pixels of `writeLine`.  A line has at most `2 ^ 48` points. -/
def linePoints (x0 y0 x1 y1 : Int16) : Option (List LinePoint) :=
  let dx := Int16.ofNat (x1.toInt - x0.toInt).natAbs
  let dy := Int16.ofNat (y1.toInt - y0.toInt).natAbs
  let sx := if x0 < x1 then 1 else -1
  let sy := if y0 < y1 then 1 else -1
  Loop.run (LinePoint.next dx dy sx sy x1 y1) (2 ^ 48) ⟨x0, y0, dx - dy⟩

/-- A line that ends is given the fuel to. -/
theorem linePoints_of_run {x0 y0 x1 y1 dx dy sx sy : Int16} {fuel : Nat} {ps : List LinePoint}
    (hdx : dx = Int16.ofNat (x1.toInt - x0.toInt).natAbs)
    (hdy : dy = Int16.ofNat (y1.toInt - y0.toInt).natAbs)
    (hsx : sx = if x0 < x1 then 1 else -1) (hsy : sy = if y0 < y1 then 1 else -1)
    (h : Loop.run (LinePoint.next dx dy sx sy x1 y1) fuel ⟨x0, y0, dx - dy⟩ = some ps) :
    linePoints x0 y0 x1 y1 = some ps := by
  subst hdx hdy hsx hsy
  exact Loop.run_of_injective LinePoint.injective_code (Nat.le_refl _) h

/-- Where the midpoint loop of a circle is. -/
structure CirclePoint where
  f : Int16
  ddx : Int16
  ddy : Int16
  x : Int16
  y : Int16

/-- A pass of `while (x < y)`. -/
def CirclePoint.next (p : CirclePoint) : Option CirclePoint :=
  if p.x < p.y then
    let p := if 0 ≤ p.f then
      { p with y := p.y - 1, ddy := p.ddy + 2, f := p.f + (p.ddy + 2) } else p
    some { p with x := p.x + 1, ddx := p.ddx + 2, f := p.f + (p.ddx + 2) }
  else none

/-- The offsets that the midpoint loop plots, pass by pass.  `x` goes up in each. -/
def circlePoints (r : Int16) : Option (List CirclePoint) :=
  (Loop.run CirclePoint.next (2 ^ 16) ⟨1 - r, 1, -2 * r, 0, r⟩).map List.tail

theorem CirclePoint.next_x {p p' : CirclePoint} (h : p.next = some p') :
    p.x.toInt < 32767 ∧ p'.x.toInt = p.x.toInt + 1 := by
  have hx : p.x < p.y ∧ p'.x = p.x + 1 := by
    rw [CirclePoint.next] at h
    split at h
    · next hlt =>
      cases h
      exact ⟨hlt, by split <;> rfl⟩
    · cases h
  obtain ⟨hlt, hsucc⟩ := hx
  rw [Int16.lt_iff_toInt_lt] at hlt
  have hbound := p.y.toInt_lt
  have hlast : p.x.toInt < 32767 := by omega
  exact ⟨hlast, by rw [hsucc, toInt_succ hlast]⟩

/-- The midpoint loop ends, whatever the radius. -/
theorem circlePoints_ends (r : Int16) : ∃ ps, circlePoints r = some ps := by
  have hends : ∃ ps, Loop.run CirclePoint.next (2 ^ 16) ⟨1 - r, 1, -2 * r, 0, r⟩ = some ps := by
    refine Loop.exists_run_of_measure (fun p => (32767 - p.x.toInt).toNat) ?_ ?_
    · intro p p' h
      obtain ⟨hlast, hsucc⟩ := CirclePoint.next_x h
      omega
    · show (32767 - (0 : Int16).toInt).toNat < 2 ^ 16
      decide
  obtain ⟨ps, hps⟩ := hends
  exact ⟨ps.tail, by rw [circlePoints, hps, Option.map_some]⟩

/-! ## Steps -/

/-- A step of a drawing function. -/
inductive Step where
  | writePixel (x y : Int16) (color : UInt32)
  | writeFastVLine (x y h : Int16) (color : UInt32)
  | writeFastHLine (x y w : Int16) (color : UInt32)
  | drawPixel (x y : Int16) (color : UInt32)
  | drawFastVLine (x y h : Int16) (color : UInt32)
  | drawFastHLine (x y w : Int16) (color : UInt32)
  | fillScreen (color : UInt32)
  | drawRGB565Bitmap (x y : Int16) (bitmap : List UInt16) (w h : Int16)
deriving DecidableEq

/-- The steps of a call, if it returns. -/
abbrev Plan := Option (List Step)

/-- One call after the other, if all of them return. -/
def inTurn {α : Type} : List (Option (List α)) → Option (List α)
  | [] => some []
  | p :: ps => p.bind fun made => (inTurn ps).map (made ++ ·)

theorem inTurn_append {α : Type} (ps qs : List (Option (List α))) :
    inTurn (ps ++ qs) = (inTurn ps).bind fun made => (inTurn qs).map (made ++ ·) := by
  induction ps with
  | nil =>
      rw [List.nil_append, inTurn]
      cases inTurn qs <;> rfl
  | cons p ps ih =>
      rw [List.cons_append, inTurn, inTurn, ih]
      cases p with
      | none => rfl
      | some made =>
          cases inTurn ps with
          | none => rfl
          | some made' => cases inTurn qs <;> simp

theorem inTurn_singletons {α β : Type} (f : α → β) (l : List α) :
    inTurn (l.map fun a => some [f a]) = some (l.map f) := by
  induction l with
  | nil => rfl
  | cons a l ih => rw [List.map_cons, inTurn, ih, List.map_cons]; rfl

theorem mem_inTurn {α : Type} {ps : List (Option (List α))} {l : List α} {a : α}
    (h : inTurn ps = some l) (ha : a ∈ l) : ∃ made, some made ∈ ps ∧ a ∈ made := by
  induction ps generalizing l with
  | nil =>
      rw [inTurn, Option.some.injEq] at h
      subst h
      cases ha
  | cons p ps ih =>
      rw [inTurn] at h
      obtain ⟨made, rfl, hmade⟩ := Option.bind_eq_some_iff.mp h
      obtain ⟨rest, hrest, rfl⟩ := Option.map_eq_some_iff.mp hmade
      rcases List.mem_append.mp ha with ha | ha
      · exact ⟨made, List.mem_cons_self, ha⟩
      · obtain ⟨made', hmade', ha'⟩ := ih hrest ha
        exact ⟨made', List.mem_cons_of_mem _ hmade', ha'⟩

/-- The steps that the passes of a loop make. -/
def Plan.each {α : Type} (passes : Option (List α)) (body : α → List Step) : Plan :=
  passes.map fun is => is.flatMap body

theorem mem_each {α : Type} {passes : Option (List α)} {body : α → List Step} {steps : List Step}
    {step : Step} (h : Plan.each passes body = some steps) (hstep : step ∈ steps) :
    ∃ i, step ∈ body i := by
  obtain ⟨is, _, rfl⟩ := Option.map_eq_some_iff.mp h
  obtain ⟨i, _, hi⟩ := List.mem_flatMap.mp hstep
  exact ⟨i, hi⟩

/-- `color >> 24`. -/
def alpha (color : UInt32) : UInt32 := color >>> 24

/-- `rgb | (a << 24)`, with the `rgb` of a colour. -/
def withAlpha (color a : UInt32) : UInt32 :=
  (color &&& (0x00FFFFFF : UInt32)) ||| (a <<< (24 : UInt32))

/-- `0xFF000000u | (r << 16) | (g << 8) | b`. -/
def solidRGB (r g b : UInt8) : UInt32 :=
  (0xFF000000 : UInt32) ||| (r.toUInt32 <<< (16 : UInt32)) ||| (g.toUInt32 <<< (8 : UInt32)) |||
    b.toUInt32

/-! ## What the source computes in `float` -/

/-- The corners of a thick line, as `writeThickLine` names them. -/
structure Corners where
  ax : Int16
  ay : Int16
  bx : Int16
  y_b : Int16
  cx : Int16
  cy : Int16
  ddx : Int16
  ddy2 : Int16

/-- The results of the source's `float` computations. -/
structure FloatMath where
  /-- `(int16_t)sqrtf((float)n)`. -/
  root : Int → Int16
  /-- `(int16_t)(sqrtf((float)n) + 0.5f)`. -/
  rootRound : Int → Int16
  /-- `writeThickLine`: none where `len < 1.0f`. -/
  corners (x0 y0 x1 y1 : Int16) (width : UInt8) (cap : GFXLineCap) : Option Corners
  /-- `writeLineAA`: the arguments of `plot`, with the alpha that it computes. -/
  lineAA (x0 y0 x1 y1 : Int16) (baseAlpha : UInt32) : List (Int × Int × UInt32)
  /-- `writeCircleAA`: the `dx` of a row, with the alpha computed. -/
  circleAA (r dy : Int16) (baseAlpha : UInt32) : List (Int × UInt32)
  /-- `drawArc`: the normalised sweep, none where the span is degenerate. -/
  sweep (startAngle endAngle : F32) : Option F32
  /-- `drawArc`: whether `plot` writes. -/
  onOutline (startAngle sweep : F32) (r : Int16) (dx dy : Int) : Bool
  /-- `writeArcThick`: whether the angle is in the span. -/
  inSpan (startAngle sweep : F32) (dx dy : Int16) : Bool
  /-- `writeArcAA`: the `dx` of a row, with the alpha computed. -/
  arcAA (startAngle sweep : F32) (r dy : Int16) (baseAlpha : UInt32) : List (Int × UInt32)
  /-- `drawBitmapTriangle`: the pixels, with `tx` and `ty` before they are clamped. -/
  texels (x0 y0 x1 y1 x2 y2 texW texH : Int16) : Option (List (Int16 × Int16 × Int × Int))

/-- The `float` functions of calls that compute nothing in `float`. -/
def FloatMath.none : FloatMath where
  root _ := 0
  rootRound _ := 0
  corners _ _ _ _ _ _ := Option.none
  lineAA _ _ _ _ _ := []
  circleAA _ _ _ := []
  sweep _ _ := Option.none
  onOutline _ _ _ _ _ := false
  inSpan _ _ _ _ := false
  arcAA _ _ _ _ _ := []
  texels _ _ _ _ _ _ _ _ := Option.none

section Shapes

variable {F : Type} (fm : FloatMath) (g : LinuxGFX F)

/-! ## Rectangles and lines -/

/-- `writeFillRect`. -/
def writeFillRect (x y w h : Int16) (color : UInt32) : Plan :=
  if alpha color = 0 then some []
  else Plan.each (forUp y (y.toInt + h.toInt)) fun i => [.writeFastHLine x i w color]

/-- `writeLine`. -/
def writeLine (x0 y0 x1 y1 : Int16) (color : UInt32) : Plan :=
  Plan.each (linePoints x0 y0 x1 y1) fun p => [.writePixel p.x p.y color]

/-- `fillCircleHelper`. -/
def fillCircleHelper (x0 y0 r : Int16) (c : UInt8) (delta : Int16) (color : UInt32) : Plan :=
  Plan.each (circlePoints r) fun p =>
    (if c &&& 0x1 ≠ 0 then
      [.writeFastVLine (x0 + p.x) (y0 - p.y) (2 * p.y + 1 + delta) color,
        .writeFastVLine (x0 + p.y) (y0 - p.x) (2 * p.x + 1 + delta) color]
    else []) ++
    (if c &&& 0x2 ≠ 0 then
      [.writeFastVLine (x0 - p.x) (y0 - p.y) (2 * p.y + 1 + delta) color,
        .writeFastVLine (x0 - p.y) (y0 - p.x) (2 * p.x + 1 + delta) color]
    else [])

/-- `fillCircle`. -/
def fillCircle (x0 y0 r : Int16) (color : UInt32) : Plan :=
  inTurn [some [.writeFastVLine x0 (y0 - r) (2 * r + 1) color],
    fillCircleHelper x0 y0 r 3 0 color]

/-- The three corners by their `y`: three comparisons, each with a swap. -/
def sortByY (a b c : Int16 × Int16) : (Int16 × Int16) × (Int16 × Int16) × (Int16 × Int16) :=
  let (a, b) := if b.2 < a.2 then (b, a) else (a, b)
  let (b, c) := if c.2 < b.2 then (c, b) else (b, c)
  let (a, b) := if b.2 < a.2 then (b, a) else (a, b)
  (a, b, c)

/-- A scanline between two edges. -/
def scanline (a b y : Int16) (color : UInt32) : List Step :=
  let (a, b) := if b < a then (b, a) else (a, b)
  [.writeFastHLine a y (b - a + 1) color]

/-- `x + s / dy`, narrowed. -/
def edgeAt (x : Int16) (s : Int) (dy : Int16) : Int16 := Int16.ofInt (x.toInt + s.tdiv dy.toInt)

/-- `fillTriangle`.  The sums `sa` and `sb` stay in `int32_t`; in pass `k` of a loop they have
grown `k` times. -/
def fillTriangle (x0 y0 x1 y1 x2 y2 : Int16) (color : UInt32) : Plan :=
  let ((x0, y0), (x1, y1), (x2, y2)) := sortByY (x0, y0) (x1, y1) (x2, y2)
  if y0 = y2 then
    let a := min x0 (min x1 x2)
    let b := max x0 (max x1 x2)
    some [.drawFastHLine a y0 (b - a + 1) color]
  else
    let dx01 := x1 - x0
    let dy01 := y1 - y0
    let dx02 := x2 - x0
    let dy02 := y2 - y0
    let dx12 := x2 - x1
    let dy12 := y2 - y1
    let last := if y1 = y2 then y1 else y1 - 1
    inTurn [
      Plan.each ((forUp y0 (last.toInt + 1)).map List.zipIdx) fun (y, k) =>
        scanline (edgeAt x0 (k * dx01.toInt) dy01) (edgeAt x0 (k * dx02.toInt) dy02) y color,
      if dy12 = 0 then some []
      else Plan.each ((forUp y1 (y2.toInt + 1)).map List.zipIdx) fun (y, k) =>
        scanline (edgeAt x1 (k * dx12.toInt) dy12)
          (edgeAt x0 (dx02.toInt * (y1.toInt - y0.toInt) + k * dx02.toInt) dy02) y color]

/-- `writeThickLine`. -/
def writeThickLine (x0 y0 x1 y1 : Int16) (color : UInt32) (width : UInt8) : Plan :=
  if width ≤ 1 then writeLine x0 y0 x1 y1 color
  else
    let r := Int16.ofNat (width.toNat / 2)
    match fm.corners x0 y0 x1 y1 width g.drawStyle.lineCap with
    | none =>
        if g.drawStyle.lineCap = ⟨1⟩ then fillCircle x0 y0 r color
        else
          writeFillRect (x0 - r) (y0 - r) (Int16.ofNat width.toNat) (Int16.ofNat width.toNat) color
    | some k =>
        inTurn [fillTriangle k.ax k.ay k.bx k.y_b k.cx k.cy color,
          fillTriangle k.ax k.ay k.cx k.cy k.ddx k.ddy2 color,
          if g.drawStyle.lineCap = ⟨1⟩ then
            inTurn [fillCircle x0 y0 r color, fillCircle x1 y1 r color]
          else some []]

/-- `writeLineAA`. -/
def writeLineAA (x0 y0 x1 y1 : Int16) (color : UInt32) : Plan :=
  some ((fm.lineAA x0 y0 x1 y1 (alpha color)).flatMap fun (x, y, a) =>
    if x < 0 ∨ g.width.toInt ≤ x ∨ y < 0 ∨ g.height.toInt ≤ y ∨ a = 0 then []
    else [.writePixel (Int16.ofInt x) (Int16.ofInt y) (withAlpha color a)])

/-- `drawLine`. -/
def drawLine (x0 y0 x1 y1 : Int16) (color : UInt32) : Plan :=
  let sw := g.drawStyle.strokeWidth
  if 1 < sw then writeThickLine fm g x0 y0 x1 y1 color sw
  else if g.drawStyle.antiAlias then writeLineAA fm g x0 y0 x1 y1 color
  else writeLine x0 y0 x1 y1 color

/-- `drawRect`. -/
def drawRect (x y w h : Int16) (color : UInt32) : Plan :=
  some [.drawFastHLine x y w color, .drawFastHLine x (y + h - 1) w color,
    .drawFastVLine x y h color, .drawFastVLine (x + w - 1) y h color]

/-! ## Circles and arcs -/

/-- `drawCircleHelper`. -/
def drawCircleHelper (x0 y0 r : Int16) (c : UInt8) (color : UInt32) : Plan :=
  Plan.each (circlePoints r) fun p =>
    (if c &&& 0x4 ≠ 0 then
      [.writePixel (x0 + p.x) (y0 + p.y) color, .writePixel (x0 + p.y) (y0 + p.x) color]
    else []) ++
    (if c &&& 0x2 ≠ 0 then
      [.writePixel (x0 + p.x) (y0 - p.y) color, .writePixel (x0 + p.y) (y0 - p.x) color]
    else []) ++
    (if c &&& 0x8 ≠ 0 then
      [.writePixel (x0 - p.y) (y0 + p.x) color, .writePixel (x0 - p.x) (y0 + p.y) color]
    else []) ++
    (if c &&& 0x1 ≠ 0 then
      [.writePixel (x0 - p.y) (y0 - p.x) color, .writePixel (x0 - p.x) (y0 - p.y) color]
    else [])

/-- The points of a plain outline: the four on the axes, and eight for each pass. -/
def outline (x0 y0 r : Int16) : Option (List (Int16 × Int16)) :=
  (circlePoints r).map fun ps =>
    [(x0, y0 + r), (x0, y0 - r), (x0 + r, y0), (x0 - r, y0)] ++
      ps.flatMap fun p =>
        [(x0 + p.x, y0 + p.y), (x0 - p.x, y0 + p.y), (x0 + p.x, y0 - p.y), (x0 - p.x, y0 - p.y),
          (x0 + p.y, y0 + p.x), (x0 - p.y, y0 + p.x), (x0 + p.y, y0 - p.x), (x0 - p.y, y0 - p.x)]

/-- `writeCircleAA`. -/
def writeCircleAA (x0 y0 r : Int16) (color : UInt32) : Plan :=
  Plan.each (forUp (-(r + 1)) ((r + 1).toInt + 1)) fun dy =>
    (fm.circleAA r dy (alpha color)).flatMap fun (dx, a) =>
      if a = 0 then []
      else
        .writePixel (Int16.ofInt (x0.toInt + dx)) (y0 + dy) (withAlpha color a) ::
          if 0 < dx then [.writePixel (Int16.ofInt (x0.toInt - dx)) (y0 + dy) (withAlpha color a)]
          else []

/-- `r_outer` and `r_inner` of a ring. -/
def ring (r : Int16) (w : UInt8) : Int16 × Int16 :=
  let inner := r - Int16.ofNat ((w.toNat + 1) / 2)
  (r + Int16.ofNat (w.toNat / 2), if inner < 0 then 0 else inner)

/-- `writeThickCircle`. -/
def writeThickCircle (x0 y0 r : Int16) (color : UInt32) (w : UInt8) : Plan :=
  let (outer, inner) := ring r w
  let ro2 := outer.toInt * outer.toInt
  let ri2 := inner.toInt * inner.toInt
  Plan.each (forUp (-outer) (outer.toInt + 1)) fun dy =>
    let dy2 := dy.toInt * dy.toInt
    if ro2 < dy2 then []
    else
      let ox := fm.root (ro2 - dy2)
      if dy2 < ri2 then
        let ix := fm.rootRound (ri2 - dy2)
        let len := ox - ix + 1
        if 0 < len then
          [.writeFastHLine (x0 - ox) (y0 + dy) len color,
            .writeFastHLine (x0 + ix) (y0 + dy) len color]
        else []
      else [.writeFastHLine (x0 - ox) (y0 + dy) (2 * ox + 1) color]

/-- `writeThickArc`. -/
def writeThickArc (x0 y0 r : Int16) (cornermask : UInt8) (color : UInt32) (w : UInt8) : Plan :=
  let (outer, inner) := ring r w
  let ro2 := outer.toInt * outer.toInt
  let ri2 := inner.toInt * inner.toInt
  Plan.each (forUp (-outer) (outer.toInt + 1)) fun dy =>
    let sides : UInt8 × UInt8 := if dy < 0 then (0x1, 0x2) else if 0 < dy then (0x8, 0x4) else
      (0x1 ||| 0x8, 0x2 ||| 0x4)
    let left := cornermask &&& sides.1 ≠ 0
    let right := cornermask &&& sides.2 ≠ 0
    let dy2 := dy.toInt * dy.toInt
    if ro2 < dy2 then []
    else
      let ox := fm.root (ro2 - dy2)
      if dy2 < ri2 then
        let ix := fm.rootRound (ri2 - dy2)
        let len := ox - ix + 1
        if 0 < len then
          (if left then [.writeFastHLine (x0 - ox) (y0 + dy) len color] else []) ++
            if right then [.writeFastHLine (x0 + ix) (y0 + dy) len color] else []
        else []
      else
        (if left then [.writeFastHLine (x0 - ox) (y0 + dy) (ox + 1) color] else []) ++
          if right then [.writeFastHLine x0 (y0 + dy) (ox + 1) color] else []

/-- `writeArcThick`. -/
def writeArcThick (x0 y0 r : Int16) (startAngle sweep : F32) (color : UInt32) (w : UInt8) :
    Plan :=
  let (outer, inner) := ring r w
  let ro2 := outer.toInt * outer.toInt
  let ri2 := inner.toInt * inner.toInt
  let rows := forUp (-outer) (outer.toInt + 1)
  -- a row whose `dy` is out of the ring is left before its own loop
  (rows.bind fun dys => inTurn (dys.map fun dy =>
    if ro2 < dy.toInt * dy.toInt then some []
    else Plan.each rows fun dx =>
      let d2 := dx.toInt * dx.toInt + dy.toInt * dy.toInt
      if ro2 < d2 ∨ d2 < ri2 ∨ fm.inSpan startAngle sweep dx dy = false then []
      else [.writePixel (x0 + dx) (y0 + dy) color]))

/-- `writeArcAA`. -/
def writeArcAA (x0 y0 r : Int16) (startAngle sweep : F32) (color : UInt32) : Plan :=
  Plan.each (forUp (-(r + 1)) ((r + 1).toInt + 1)) fun dy =>
    (fm.arcAA startAngle sweep r dy (alpha color)).flatMap fun (dx, a) =>
      if a = 0 then []
      else [.writePixel (Int16.ofInt (x0.toInt + dx)) (y0 + dy) (withAlpha color a)]

/-- `drawCircle`. -/
def drawCircle (x0 y0 r : Int16) (color : UInt32) : Plan :=
  let sw := g.drawStyle.strokeWidth
  if 1 < sw then writeThickCircle fm x0 y0 r color sw
  else if g.drawStyle.antiAlias then writeCircleAA fm x0 y0 r color
  else Plan.each (outline x0 y0 r) fun (x, y) => [.writePixel x y color]

/-- `drawArc`. -/
def drawArc (x0 y0 r : Int16) (startAngle endAngle : F32) (color : UInt32) : Plan :=
  if r < 0 then some []
  else
    match fm.sweep startAngle endAngle with
    | none => some []
    | some sweep =>
        let sw := g.drawStyle.strokeWidth
        if 1 < sw then writeArcThick fm x0 y0 r startAngle sweep color sw
        else if g.drawStyle.antiAlias then writeArcAA fm x0 y0 r startAngle sweep color
        else if r = 0 then some [.writePixel x0 y0 color]
        else Plan.each (outline x0 y0 r) fun (x, y) =>
          if fm.onOutline startAngle sweep r (x.toInt - x0.toInt) (y.toInt - y0.toInt) then
            [.writePixel x y color]
          else []

/-! ## Rounded rectangles and triangles -/

/-- The radius of a corner, cut to half the shorter side. -/
def cornerRadius (w h r : Int16) : Int16 :=
  let mx := (if w < h then w else h) / 2
  if mx < r then mx else r

/-- `drawRoundRect`. -/
def drawRoundRect (x y w h radius : Int16) (color : UInt32) : Plan :=
  let r := cornerRadius w h radius
  let sw := g.drawStyle.strokeWidth
  if sw ≤ 1 then
    inTurn [some [.writeFastHLine (x + r) y (w - 2 * r) color,
        .writeFastHLine (x + r) (y + h - 1) (w - 2 * r) color,
        .writeFastVLine x (y + r) (h - 2 * r) color,
        .writeFastVLine (x + w - 1) (y + r) (h - 2 * r) color],
      drawCircleHelper (x + r) (y + r) r 1 color,
      drawCircleHelper (x + w - r - 1) (y + r) r 2 color,
      drawCircleHelper (x + w - r - 1) (y + h - r - 1) r 4 color,
      drawCircleHelper (x + r) (y + h - r - 1) r 8 color]
  else
    let half := Int16.ofNat (sw.toNat / 2)
    let width := Int16.ofNat sw.toNat
    inTurn [writeFillRect (x + r) (y - half) (w - 2 * r) width color,
      writeFillRect (x + r) (y + h - 1 - half) (w - 2 * r) width color,
      writeFillRect (x - half) (y + r) width (h - 2 * r) color,
      writeFillRect (x + w - 1 - half) (y + r) width (h - 2 * r) color,
      writeThickArc fm (x + r) (y + r) r 0x1 color sw,
      writeThickArc fm (x + w - r - 1) (y + r) r 0x2 color sw,
      writeThickArc fm (x + w - r - 1) (y + h - r - 1) r 0x4 color sw,
      writeThickArc fm (x + r) (y + h - r - 1) r 0x8 color sw]

/-- `fillRoundRect`. -/
def fillRoundRect (x y w h radius : Int16) (color : UInt32) : Plan :=
  let r := cornerRadius w h radius
  inTurn [writeFillRect (x + r) y (w - 2 * r) h color,
    fillCircleHelper (x + w - r - 1) (y + r) r 1 (h - 2 * r - 1) color,
    fillCircleHelper (x + r) (y + r) r 2 (h - 2 * r - 1) color]

/-- `drawTriangle`. -/
def drawTriangle (x0 y0 x1 y1 x2 y2 : Int16) (color : UInt32) : Plan :=
  inTurn [drawLine fm g x0 y0 x1 y1 color, drawLine fm g x1 y1 x2 y2 color,
    drawLine fm g x2 y2 x0 y0 color]

/-! ## Bitmaps -/

/-- The pixels of a bitmap, row by row: offsets from its corner. -/
def cells (w h : Int16) : List (Nat × Nat) :=
  (List.range h.toInt.toNat).flatMap fun j => (List.range w.toInt.toNat).map fun i => (i, j)

/-- Write what `pixel` has for a cell of a bitmap, if anything. -/
def drawCells (x y w h : Int16) (pixel : Nat → Nat → Option UInt32) : Plan :=
  some ((cells w h).flatMap fun (i, j) =>
    match pixel i j with
    | none => []
    | some color => [.writePixel (x + Int16.ofNat i) (y + Int16.ofNat j) color])

/-- The byte that has the bit of a cell, `b = bitmap[j * bw + i / 8]`. -/
def planeByte (plane : List UInt8) (w : Int16) (i j : Nat) : UInt8 :=
  plane.getD (j * ((w.toInt.toNat + 7) / 8) + i / 8) 0

/-- `b & 0x80`, where `b` has been shifted up to the bit of the cell. -/
def bitSet (plane : List UInt8) (w : Int16) (i j : Nat) : Bool :=
  (planeByte plane w i j <<< UInt8.ofNat (i % 8)) &&& 0x80 ≠ 0

/-- `b & 0x01`, where `b` has been shifted down to the bit of the cell. -/
def xBitSet (plane : List UInt8) (w : Int16) (i j : Nat) : Bool :=
  (planeByte plane w i j >>> UInt8.ofNat (i % 8)) &&& 0x01 ≠ 0

/-- `bitmap[j * w + i]`. -/
def cellOf {α : Type} (bitmap : List α) (w : Int16) (i j : Nat) (d : α) : α :=
  bitmap.getD (j * w.toInt.toNat + i) d

/-- `drawBitmap`.  Without a background it is the same with a transparent one. -/
def drawBitmap (x y : Int16) (bitmap : List UInt8) (w h : Int16) (color bg : UInt32) : Plan :=
  drawCells x y w h fun i j =>
    let px := if bitSet bitmap w i j then color else bg
    if alpha px ≠ 0 then some px else none

/-- `drawXBitmap`. -/
def drawXBitmap (x y : Int16) (bitmap : List UInt8) (w h : Int16) (color : UInt32) : Plan :=
  drawCells x y w h fun i j => if xBitSet bitmap w i j then some color else none

/-- The colour of a grey value. -/
def grey (v : UInt8) : UInt32 := solidRGB v v v

/-- `drawGrayscaleBitmap`. -/
def drawGrayscaleBitmap (x y : Int16) (bitmap : List UInt8) (w h : Int16) : Plan :=
  drawCells x y w h fun i j => some (grey (cellOf bitmap w i j 0))

/-- `drawGrayscaleBitmap` with a mask. -/
def drawGrayscaleBitmapMask (x y : Int16) (bitmap mask : List UInt8) (w h : Int16) : Plan :=
  drawCells x y w h fun i j =>
    if bitSet mask w i j then some (grey (cellOf bitmap w i j 0)) else none

/-- `drawRGBBitmap`. -/
def drawRGBBitmap (x y : Int16) (bitmap : List UInt32) (w h : Int16) : Plan :=
  drawCells x y w h fun i j => some (cellOf bitmap w i j 0)

/-- `drawRGBBitmap` with a mask. -/
def drawRGBBitmapMask (x y : Int16) (bitmap : List UInt32) (mask : List UInt8) (w h : Int16) :
    Plan :=
  drawCells x y w h fun i j => if bitSet mask w i j then some (cellOf bitmap w i j 0) else none

/-- A texture coordinate, clamped. -/
def clampTexel (t : Int) (size : Int16) : Nat :=
  (if size.toInt ≤ (if t < 0 then 0 else t) then size.toInt - 1 else if t < 0 then 0 else t).toNat

/-- `drawBitmapTriangle`. -/
def drawBitmapTriangle (x0 y0 x1 y1 x2 y2 : Int16) (bitmap : List UInt32) (texW texH : Int16) :
    Plan :=
  if texW ≤ 0 ∨ texH ≤ 0 then some []
  else Plan.each (fm.texels x0 y0 x1 y1 x2 y2 texW texH) fun (x, y, tx, ty) =>
    [.writePixel x y (cellOf bitmap texW (clampTexel tx texW) (clampTexel ty texH) 0)]

end Shapes

/-! ## Text -/

/-- `s_font`, the built-in font: five columns for each character from the space on. -/
def sFont : List UInt8 := [
  0x00, 0x00, 0x00, 0x00, 0x00, 0x00, 0x00, 0x5F, 0x00, 0x00, 0x00, 0x07, 0x00, 0x07, 0x00,
  0x14, 0x7F, 0x14, 0x7F, 0x14, 0x24, 0x2A, 0x7F, 0x2A, 0x12, 0x23, 0x13, 0x08, 0x64, 0x62,
  0x36, 0x49, 0x55, 0x22, 0x50, 0x00, 0x05, 0x03, 0x00, 0x00, 0x00, 0x1C, 0x22, 0x41, 0x00,
  0x00, 0x41, 0x22, 0x1C, 0x00, 0x14, 0x08, 0x3E, 0x08, 0x14, 0x08, 0x08, 0x3E, 0x08, 0x08,
  0x00, 0x50, 0x30, 0x00, 0x00, 0x08, 0x08, 0x08, 0x08, 0x08, 0x00, 0x60, 0x60, 0x00, 0x00,
  0x20, 0x10, 0x08, 0x04, 0x02, 0x3E, 0x51, 0x49, 0x45, 0x3E, 0x00, 0x42, 0x7F, 0x40, 0x00,
  0x42, 0x61, 0x51, 0x49, 0x46, 0x21, 0x41, 0x45, 0x4B, 0x31, 0x18, 0x14, 0x12, 0x7F, 0x10,
  0x27, 0x45, 0x45, 0x45, 0x39, 0x3C, 0x4A, 0x49, 0x49, 0x30, 0x01, 0x71, 0x09, 0x05, 0x03,
  0x36, 0x49, 0x49, 0x49, 0x36, 0x06, 0x49, 0x49, 0x29, 0x1E, 0x00, 0x36, 0x36, 0x00, 0x00,
  0x00, 0x56, 0x36, 0x00, 0x00, 0x08, 0x14, 0x22, 0x41, 0x00, 0x14, 0x14, 0x14, 0x14, 0x14,
  0x00, 0x41, 0x22, 0x14, 0x08, 0x02, 0x01, 0x51, 0x09, 0x06, 0x32, 0x49, 0x79, 0x41, 0x3E,
  0x7E, 0x11, 0x11, 0x11, 0x7E, 0x7F, 0x49, 0x49, 0x49, 0x36, 0x3E, 0x41, 0x41, 0x41, 0x22,
  0x7F, 0x41, 0x41, 0x22, 0x1C, 0x7F, 0x49, 0x49, 0x49, 0x41, 0x7F, 0x09, 0x09, 0x09, 0x01,
  0x3E, 0x41, 0x49, 0x49, 0x7A, 0x7F, 0x08, 0x08, 0x08, 0x7F, 0x00, 0x41, 0x7F, 0x41, 0x00,
  0x20, 0x40, 0x41, 0x3F, 0x01, 0x7F, 0x08, 0x14, 0x22, 0x41, 0x7F, 0x40, 0x40, 0x40, 0x40,
  0x7F, 0x02, 0x0C, 0x02, 0x7F, 0x7F, 0x04, 0x08, 0x10, 0x7F, 0x3E, 0x41, 0x41, 0x41, 0x3E,
  0x7F, 0x09, 0x09, 0x09, 0x06, 0x3E, 0x41, 0x51, 0x21, 0x5E, 0x7F, 0x09, 0x19, 0x29, 0x46,
  0x46, 0x49, 0x49, 0x49, 0x31, 0x01, 0x01, 0x7F, 0x01, 0x01, 0x3F, 0x40, 0x40, 0x40, 0x3F,
  0x1F, 0x20, 0x40, 0x20, 0x1F, 0x3F, 0x40, 0x38, 0x40, 0x3F, 0x63, 0x14, 0x08, 0x14, 0x63,
  0x07, 0x08, 0x70, 0x08, 0x07, 0x61, 0x51, 0x49, 0x45, 0x43, 0x00, 0x7F, 0x41, 0x41, 0x00,
  0x02, 0x04, 0x08, 0x10, 0x20, 0x00, 0x41, 0x41, 0x7F, 0x00, 0x04, 0x02, 0x01, 0x02, 0x04,
  0x40, 0x40, 0x40, 0x40, 0x40, 0x00, 0x01, 0x02, 0x04, 0x00, 0x20, 0x54, 0x54, 0x54, 0x78,
  0x7F, 0x48, 0x44, 0x44, 0x38, 0x38, 0x44, 0x44, 0x44, 0x20, 0x38, 0x44, 0x44, 0x48, 0x7F,
  0x38, 0x54, 0x54, 0x54, 0x18, 0x08, 0x7E, 0x09, 0x01, 0x02, 0x0C, 0x52, 0x52, 0x52, 0x3E,
  0x7F, 0x08, 0x04, 0x04, 0x78, 0x00, 0x44, 0x7D, 0x40, 0x00, 0x20, 0x40, 0x44, 0x3D, 0x00,
  0x7F, 0x10, 0x28, 0x44, 0x00, 0x00, 0x41, 0x7F, 0x40, 0x00, 0x7C, 0x04, 0x18, 0x04, 0x78,
  0x7C, 0x08, 0x04, 0x04, 0x78, 0x38, 0x44, 0x44, 0x44, 0x38, 0x7C, 0x14, 0x14, 0x14, 0x08,
  0x08, 0x14, 0x14, 0x18, 0x7C, 0x7C, 0x08, 0x04, 0x04, 0x08, 0x48, 0x54, 0x54, 0x54, 0x20,
  0x04, 0x3F, 0x44, 0x40, 0x20, 0x3C, 0x40, 0x40, 0x20, 0x7C, 0x1C, 0x20, 0x40, 0x20, 0x1C,
  0x3C, 0x40, 0x30, 0x40, 0x3C, 0x44, 0x28, 0x10, 0x28, 0x44, 0x0C, 0x50, 0x50, 0x50, 0x3C,
  0x44, 0x64, 0x54, 0x4C, 0x44, 0x00, 0x08, 0x36, 0x41, 0x00, 0x00, 0x00, 0x7F, 0x00, 0x00,
  0x00, 0x41, 0x36, 0x08, 0x00, 0x10, 0x08, 0x08, 0x10, 0x08, 0x78, 0x46, 0x41, 0x46, 0x78]

/-- `GFXglyph`, as far as its pixels need it. -/
structure GlyphBox where
  bitmapOffset : UInt16
  width : UInt8
  height : UInt8
  xOffset : Int8
  yOffset : Int8

/-- `GFXfont`, as far as its pixels need it. -/
structure FontPixels where
  bitmap : Nat → UInt8
  glyph : Nat → GlyphBox
  last : UInt16

section Text

variable {F : Type} (face : F → GFXfont) (pixels : F → FontPixels) (g : LinuxGFX F)

/-- A pixel of a character, at a text size. -/
def textPixel (x y : Int16) (sx sy : UInt8) (color : UInt32) : Plan :=
  if sx = 1 ∧ sy = 1 then some [.writePixel x y color]
  else writeFillRect x y (Int16.ofNat sx.toNat) (Int16.ofNat sy.toNat) color

/-- `drawChar` in the built-in font. -/
def drawBuiltinChar (x y : Int16) (c : UInt8) (color bg : UInt32) (sx sy : UInt8) : Plan :=
  if g.width ≤ x ∨ g.height ≤ y ∨ x.toInt + 6 * (sx.toNat : Int) - 1 < 0 ∨
      y.toInt + 8 * (sy.toNat : Int) - 1 < 0 then some []
  else
    let c := if c < 32 ∨ 126 < c then 63 else c
    let column (col : Nat) : UInt8 := sFont.getD ((c.toNat - 32) * 5 + col) 0
    let at_ (col row : Nat) (color : UInt32) : Plan :=
      textPixel (x + Int16.ofNat (col * sx.toNat)) (y + Int16.ofNat (row * sy.toNat)) sx sy color
    inTurn [inTurn ((List.range 5).flatMap fun col => (List.range 8).map fun row =>
        if (column col >>> UInt8.ofNat row) &&& 1 ≠ 0 then at_ col row color
        else if alpha bg ≠ 0 then at_ col row bg
        else some []),
      if alpha bg ≠ 0 then inTurn ((List.range 8).map fun row => at_ 5 row bg) else some []]

/-- `drawChar` in a font.  `bit` counts through the rows. -/
def drawFontChar (f : F) (x y : Int16) (c : UInt8) (color : UInt32) (sx sy : UInt8) : Plan :=
  let first := (face f).first
  if c.toUInt16 < first ∨ (pixels f).last < c.toUInt16 then some []
  else
    let ci := c - first.toUInt8
    let gl := (pixels f).glyph ci.toNat
    let gx := x + gl.xOffset.toInt16
    let gy := y + gl.yOffset.toInt16
    inTurn ((List.range gl.height.toNat).flatMap fun row =>
      (List.range gl.width.toNat).map fun col =>
      let bit := row * gl.width.toNat + col
      let byte := (pixels f).bitmap (gl.bitmapOffset.toNat + bit / 8)
      if (byte <<< UInt8.ofNat (bit % 8)) &&& 0x80 ≠ 0 then
        textPixel (gx + Int16.ofNat (col * sx.toNat)) (gy + Int16.ofNat (row * sy.toNat)) sx sy
          color
      else some [])

/-- `drawChar`. -/
def drawChar (x y : Int16) (c : UInt8) (color bg : UInt32) (sx sy : UInt8) : Plan :=
  match g.font with
  | none => drawBuiltinChar g x y c color bg sx sy
  | some f => drawFontChar face pixels f x y c color sx sy

/-- The members at which a character is drawn: the line may have been wrapped. -/
def wrapped (left : Int16) (c : UInt8) : LinuxGFX F :=
  if g.textWrap ∧ g.width.toInt < g.cursorX.toInt + g.charStep face c then g.newLine face left
  else g

/-- The characters of a text, each drawn where `place` puts the cursor. -/
def textPlan (left : Int16) (place : Int16 × Int16 → Int16 × Int16) :
    LinuxGFX F → List UInt8 → Plan
  | _, [] => some []
  | g, c :: text =>
      let here :=
        if c = 10 ∨ c = 13 then some []
        else
          let g' := wrapped face g left c
          let (x, y) := place (g'.cursorX, g'.cursorY)
          drawChar face pixels g' x y c g'.textColor g'.textBgColor g'.textSizeX g'.textSizeY
      inTurn [here, textPlan left place (g.advanceChar face left c) text]

/-- `rotatePoint`, by a rotation that is a byte. -/
def rotatePoint (originX originY : Int16) (rotation : UInt8) (p : Int16 × Int16) : Int16 × Int16 :=
  let dx := p.1 - originX
  let dy := p.2 - originY
  if rotation = 90 then (originX + dy, originY - dx)
  else if rotation = 180 then (originX - dx, originY - dy)
  else p

/-- `writeText`. -/
def writeTextPlan (text : List UInt8) : Plan := textPlan face pixels 0 id g (cString text)

/-- `writeTextRotated`. -/
def writeTextRotatedPlan (text : List UInt8) (originX originY : Int16) : Plan :=
  textPlan face pixels g.cursorX (rotatePoint originX originY g.textRotation) g (cString text)

/-- `setText`. -/
def setTextPlan (x y : Int16) (text : List UInt8) (color bgColor : UInt32) (sizeX sizeY : UInt8)
    (font : Option F) (rotation : UInt8) : Plan :=
  let g' := ((((g.setCursor x y).setTextColor color bgColor).setTextSize sizeX sizeY).setFont
    font).setTextRotation rotation
  if rotation = 0 then writeTextPlan face pixels g' text
  else writeTextRotatedPlan face pixels g' text x y

end Text

/-- The steps that a call of the base class makes on an object with members `g`. -/
def GfxCall.plan {F : Type} (fm : FloatMath) (face : F → GFXfont) (pixels : F → FontPixels)
    (g : LinuxGFX F) : GfxCall F → Plan
  | drawPixel x y color => some [.drawPixel x y color]
  | drawFastVLine x y h color => some [.drawFastVLine x y h color]
  | drawFastHLine x y w color => some [.drawFastHLine x y w color]
  | drawLine x0 y0 x1 y1 color => Libgfx.drawLine fm g x0 y0 x1 y1 color
  | drawRect x y w h color => Libgfx.drawRect x y w h color
  | fillRect x y w h color => writeFillRect x y w h color
  | fillScreen color => some [.fillScreen color]
  | drawCircle x0 y0 r color => Libgfx.drawCircle fm g x0 y0 r color
  | fillCircle x0 y0 r color => Libgfx.fillCircle x0 y0 r color
  | drawArc x0 y0 r startAngle endAngle color =>
      Libgfx.drawArc fm g x0 y0 r startAngle endAngle color
  | drawRoundRect x y w h radius color => Libgfx.drawRoundRect fm g x y w h radius color
  | fillRoundRect x y w h radius color => Libgfx.fillRoundRect x y w h radius color
  | drawTriangle x0 y0 x1 y1 x2 y2 color => Libgfx.drawTriangle fm g x0 y0 x1 y1 x2 y2 color
  | fillTriangle x0 y0 x1 y1 x2 y2 color => Libgfx.fillTriangle x0 y0 x1 y1 x2 y2 color
  | writeText text => writeTextPlan face pixels g text
  | drawChar x y c color bg sizeX sizeY =>
      Libgfx.drawChar face pixels g x y c color bg sizeX sizeY
  | setText x y text color bgColor sizeX sizeY font rotation =>
      setTextPlan face pixels g x y text color bgColor sizeX sizeY font rotation
  | drawBitmap x y bitmap w h color bg => Libgfx.drawBitmap x y bitmap w h color bg
  | drawXBitmap x y bitmap w h color => Libgfx.drawXBitmap x y bitmap w h color
  | drawGrayscaleBitmap x y bitmap w h => Libgfx.drawGrayscaleBitmap x y bitmap w h
  | drawGrayscaleBitmapMask x y bitmap mask w h =>
      Libgfx.drawGrayscaleBitmapMask x y bitmap mask w h
  | drawRGBBitmap x y bitmap w h => Libgfx.drawRGBBitmap x y bitmap w h
  | drawRGBBitmapMask x y bitmap mask w h => Libgfx.drawRGBBitmapMask x y bitmap mask w h
  | drawRGB565Bitmap x y bitmap w h => some [.drawRGB565Bitmap x y bitmap w h]
  | drawBitmapTriangle x0 y0 x1 y1 x2 y2 bitmap texW texH =>
      Libgfx.drawBitmapTriangle fm x0 y0 x1 y1 x2 y2 bitmap texW texH
  -- the setters draw nothing, and presenting leaves the draw buffer of a surface
  | setDrawStyle _ => some []
  | setRotation _ => some []
  | invertDisplay _ => some []
  | setCursor _ _ => some []
  | setTextColor _ _ => some []
  | setTextSize _ _ => some []
  | setTextWrap _ => some []
  | setTextRotation _ => some []
  | setFont _ => some []
  | swapBuffers _ => some []

end MFoES.Libgfx
