import MFoES.Lib.Transition
import MFoES.Uisys.Manager

/-!
# Combo boxes

A combo box keeps a list of items and the index of the selected one.  `setSelectedIndex` and a
press on the dropdown check an index against the list.  The constructor and `setItems` take the
index that they are given, and `addItem` to an empty list makes an old index one into a list.
`selection_valid_iff` says that a run stays valid exactly if these are used with an index that
fits.

The dropdown is hit and drawn by different code.  `draw` paints rows, of which each ends where the
next begins.  `hitTestDropdown` takes a point on the far edges too, so that one column of pixels
beside the rows and one line below them select as well (`OnEdge`).  Everywhere else a press selects
what is painted where it is (`selects_iff_paints`).
-/

namespace MFoES.Uisys

open MFoES.Touch Transition

namespace ComboBoxWidget

/-! ## The operations on the items -/

/-- The constructor, with `font.charH() + 12` for the font. -/
def construct (x y w h : Int) (items : List Text) (defaultIndex : Int) (itemH : Int)
    (maxVisible : Int) : ComboBoxWidget :=
  { x := x, y := y, w := w, h := h, items := items, itemH := itemH,
    selectedIndex := defaultIndex, maxVisible := maxVisible }

/-- `addItem`. -/
def addItem (c : ComboBoxWidget) (item : Text) : ComboBoxWidget :=
  { c with items := c.items ++ [item] }

/-- `clearItems`. -/
def clearItems (c : ComboBoxWidget) : ComboBoxWidget :=
  { c with items := [], selectedIndex := 0, scrollOffset := 0 }

/-- `setItems`. -/
def setItems (c : ComboBoxWidget) (newItems : List Text) (defaultIndex : Int) : ComboBoxWidget :=
  { c with items := newItems, selectedIndex := defaultIndex, scrollOffset := 0, isOpen := false }

/-- `setSelectedIndex`. -/
def setSelectedIndex (c : ComboBoxWidget) (idx : Int) : ComboBoxWidget :=
  if idx ≥ 0 ∧ idx < c.items.length then { c with selectedIndex := idx } else c

/-- `items[idx]`; `none` where there is no such item to read. -/
def itemAt (c : ComboBoxWidget) (idx : Int) : Option Text :=
  if 0 ≤ idx then c.items[idx.toNat]? else none

/-- `getSelectedValue`, and the text of the header. -/
def getSelectedValue (c : ComboBoxWidget) : Option Text :=
  if c.items = [] then some [] else c.itemAt c.selectedIndex

/-- The calls on a combo box. -/
inductive Op
  | addItem (item : Text)
  | clearItems
  | setItems (newItems : List Text) (defaultIndex : Int)
  | setSelectedIndex (idx : Int)
  | setVisible (v : Bool)
  | setMaxVisible (n : Int)
  | handleEvent (e : TouchEventData)

/-- A call. -/
def op (c : ComboBoxWidget) : Op → Option ComboBoxWidget
  | .addItem item => some (c.addItem item)
  | .clearItems => some c.clearItems
  | .setItems newItems defaultIndex => some (c.setItems newItems defaultIndex)
  | .setSelectedIndex idx => some (c.setSelectedIndex idx)
  | .setVisible v => some { c with visibleWidget := v }
  | .setMaxVisible n => some { c with maxVisible := n }
  | .handleEvent e => some (c.handleEvent e).1

/-! ## The selection -/

/-- An index into a list, unless the list is empty. -/
def Fits (items : List Text) (idx : Int) : Prop := items ≠ [] → 0 ≤ idx ∧ idx < items.length

instance (items : List Text) (idx : Int) : Decidable (Fits items idx) :=
  inferInstanceAs (Decidable (_ → _))

/-- The selection is valid. -/
def Valid (c : ComboBoxWidget) : Prop := Fits c.items c.selectedIndex

instance (c : ComboBoxWidget) : Decidable c.Valid := inferInstanceAs (Decidable (Fits _ _))

/-- A call does not put an index beside the list. -/
def Accepts (c : ComboBoxWidget) : Op → Prop
  | .addItem _ => c.items = [] → c.selectedIndex = 0
  | .setItems newItems defaultIndex => Fits newItems defaultIndex
  | _ => True

instance (c : ComboBoxWidget) (o : Op) : Decidable (c.Accepts o) := by
  unfold Accepts
  split <;> infer_instance

theorem itemAt_isSome {c : ComboBoxWidget} {idx : Int} :
    (c.itemAt idx).isSome ↔ 0 ≤ idx ∧ idx < c.items.length := by
  rw [itemAt]
  split_ifs with h
  · rw [isSome_getElem?]
    omega
  · exact iff_of_false (by simp) fun hidx => h hidx.1

/-- The selection is valid exactly where the selected item can be read. -/
theorem getSelectedValue_isSome {c : ComboBoxWidget} : c.getSelectedValue.isSome ↔ c.Valid := by
  rw [getSelectedValue, Valid, Fits]
  split_ifs with h
  · exact iff_of_true rfl fun hne => absurd h hne
  · rw [itemAt_isSome]
    exact ⟨fun hidx _ => hidx, fun hvalid => hvalid h⟩

@[simp] theorem items_scrollTo (c : ComboBoxWidget) (offset : Int) :
    (c.scrollTo offset).items = c.items := rfl

@[simp] theorem selectedIndex_scrollTo (c : ComboBoxWidget) (offset : Int) :
    (c.scrollTo offset).selectedIndex = c.selectedIndex := rfl

/-- The width of the dropdown without the scrollbar, `dropW`. -/
def dropW (c : ComboBoxWidget) : Int := if c.needsScroll then c.w - scrollW else c.w

/-- The row that a line of pixels is in, counted from the first one of the dropdown. -/
def rowAt (c : ComboBoxWidget) (p : TouchPoint) : Int :=
  ((p.y.toNat : Int) - (c.y + c.h)).tdiv c.itemH

theorem hitTestDropdown_eq (c : ComboBoxWidget) (p : TouchPoint) :
    c.hitTestDropdown p =
      if c.isOpen && inRect c.x (c.y + c.h) c.dropW c.dropdownH p.x.toNat p.y.toNat &&
          c.scrollOffset + c.rowAt p ≥ 0 && c.scrollOffset + c.rowAt p < c.items.length then
        c.scrollOffset + c.rowAt p
      else -1 := rfl

/-- An index that the dropdown gives is one of an item. -/
theorem hitTestDropdown_lt {c : ComboBoxWidget} {p : TouchPoint} (h : 0 ≤ c.hitTestDropdown p) :
    c.hitTestDropdown p < c.items.length := by
  rw [hitTestDropdown_eq] at h ⊢
  split_ifs at h ⊢ with hin
  · simp only [Bool.and_eq_true, decide_eq_true_eq] at hin
    exact hin.2
  · omega

/-- An event keeps the items, and selects an item if any. -/
theorem handleEvent_selection (c : ComboBoxWidget) (e : TouchEventData) :
    (c.handleEvent e).1.items = c.items ∧
      ((c.handleEvent e).1.selectedIndex = c.selectedIndex ∨
        0 ≤ (c.handleEvent e).1.selectedIndex ∧
          (c.handleEvent e).1.selectedIndex < c.items.length) := by
  unfold handleEvent
  split
  · split
    · dsimp only
      split_ifs with hopen hup hdown hsel hhead
      · exact ⟨rfl, .inl rfl⟩
      · exact ⟨rfl, .inl rfl⟩
      · exact ⟨rfl, .inr ⟨hsel, hitTestDropdown_lt hsel⟩⟩
      · exact ⟨rfl, .inl rfl⟩
      · exact ⟨rfl, .inl rfl⟩
      · exact ⟨rfl, .inl rfl⟩
    · dsimp only
      split_ifs <;> exact ⟨rfl, .inl rfl⟩
    · exact ⟨rfl, .inl rfl⟩
    · exact ⟨rfl, .inl rfl⟩
  · exact ⟨rfl, .inl rfl⟩

/-- A call keeps the selection valid exactly if it puts no index beside the list. -/
theorem op_valid_iff {c : ComboBoxWidget} {o : Op} (hc : c.Valid) :
    (∀ t, c.op o = some t → t.Valid) ↔ c.Accepts o := by
  have honly : ∀ {s : ComboBoxWidget} {P : Prop}, (s.Valid ↔ P) →
      ((∀ t, some s = some t → t.Valid) ↔ P) := fun h =>
    ⟨fun hall => h.mp (hall _ rfl), fun hP _ ht => Option.some.inj ht ▸ h.mpr hP⟩
  cases o with
  | addItem item =>
      refine honly ⟨fun h hnil => ?_, fun h _ => ?_⟩
      · have hidx := h (List.append_ne_nil_of_right_ne_nil _ (List.cons_ne_nil _ _))
        simp only [addItem, hnil, List.nil_append, List.length_singleton] at hidx
        omega
      · simp only [addItem, List.length_append, List.length_singleton]
        rcases eq_or_ne c.items [] with hnil | hne
        · rw [h hnil, hnil]
          decide
        · have := hc hne
          omega
  | clearItems => exact honly (iff_of_true (fun h => absurd rfl h) trivial)
  | setItems newItems defaultIndex => exact honly Iff.rfl
  | setSelectedIndex idx =>
      refine honly (iff_of_true ?_ trivial)
      rw [setSelectedIndex]
      split_ifs with hidx
      · exact fun _ => hidx
      · exact hc
  | setVisible v => exact honly (iff_of_true hc trivial)
  | setMaxVisible n => exact honly (iff_of_true hc trivial)
  | handleEvent e =>
      refine honly (iff_of_true ?_ trivial)
      obtain ⟨hitems, hsel⟩ := c.handleEvent_selection e
      rw [Valid, Fits, hitems]
      intro hne
      rcases hsel with hsame | hidx
      · rw [hsame]
        exact hc hne
      · exact hidx

/-- All along a run the selection is valid and the selected item can be read, exactly if the
constructor, every `setItems`, and every first item come with an index that fits. -/
theorem selection_valid_iff (x y w h : Int) (items : List Text)
    (defaultIndex itemH maxVisible : Int) (ops : List Op) :
    Always op (fun c => c.Valid ∧ c.getSelectedValue.isSome)
        (construct x y w h items defaultIndex itemH maxVisible) ops ↔
      Fits items defaultIndex ∧
        Throughout op Accepts (construct x y w h items defaultIndex itemH maxVisible) ops := by
  have hboth : (fun c : ComboBoxWidget => c.Valid ∧ c.getSelectedValue.isSome) = Valid := by
    funext c
    exact propext (and_iff_left_of_imp getSelectedValue_isSome.mpr)
  rw [hboth]
  exact always_iff (I := fun _ => True) (fun _ _ _ _ => trivial) (fun _ hc => op_valid_iff hc)
    trivial

/-- Two items, and the third selected from the start. -/
theorem not_selection_valid :
    (construct 0 0 200 40 [['a'], ['b']] 2 28 4).getSelectedValue = none ∧
      ¬ Always op (fun c => c.Valid ∧ c.getSelectedValue.isSome)
        (construct 0 0 200 40 [['a'], ['b']] 2 28 4) [] := by
  refine ⟨rfl, fun h => ?_⟩
  have hvalid := (h [] _ List.nil_prefix rfl).1
  exact absurd hvalid (by decide)

/-! ## The dropdown -/

/-- `visibleCount`. -/
def visibleCount (c : ComboBoxWidget) : Int :=
  if (c.items.length : Int) < c.maxVisible then c.items.length else c.maxVisible

/-- A row that `draw` paints: the item whose text it writes, and the place of the row. -/
structure PaintedRow where
  itemIdx : Int
  text : Text
  x : Int
  y : Int
  w : Int
  h : Int

/-- A pixel is of a row. -/
def PaintedRow.Contains (r : PaintedRow) (tx ty : Int) : Prop :=
  r.x ≤ tx ∧ tx < r.x + r.w ∧ r.y ≤ ty ∧ ty < r.y + r.h

/-- The rows of `draw`.  The loop breaks behind the last item. -/
def paintedRows (c : ComboBoxWidget) : List PaintedRow :=
  if c.visibleWidget && c.isOpen then
    ((List.range c.visibleCount.toNat).takeWhile fun (i : Nat) =>
        decide (c.scrollOffset + i < c.items.length)).filterMap fun (i : Nat) =>
      (c.itemAt (c.scrollOffset + i)).map fun text =>
        ⟨c.scrollOffset + i, text, c.x, c.y + c.h + i * c.itemH, c.dropW, c.itemH⟩
  else []

/-- The pixel at a point is of a row with this item. -/
def Paints (c : ComboBoxWidget) (idx : Int) (p : TouchPoint) : Prop :=
  ∃ r ∈ c.paintedRows, r.itemIdx = idx ∧ r.Contains p.x.toNat p.y.toNat

instance (r : PaintedRow) (tx ty : Int) : Decidable (r.Contains tx ty) :=
  inferInstanceAs (Decidable (_ ∧ _))

instance (c : ComboBoxWidget) (idx : Int) (p : TouchPoint) : Decidable (c.Paints idx p) :=
  inferInstanceAs (Decidable (∃ r ∈ _, _))

/-- A press selects an item. -/
def Selects (c : ComboBoxWidget) (idx : Int) (e : TouchEventData) : Prop :=
  (c.handleEvent e).2 = some idx

/-- A point right of the rows or below them that the dropdown takes, and that no scroll button
takes first. -/
def OnEdge (c : ComboBoxWidget) (p : TouchPoint) : Prop :=
  (c.x + c.dropW = p.x.toNat ∨ c.y + c.h + c.dropdownH = p.y.toNat) ∧
    inRect c.x (c.y + c.h) c.dropW c.dropdownH p.x.toNat p.y.toNat = true ∧
    c.hitScrollUp p = false ∧ c.hitScrollDown p = false ∧
    0 ≤ c.scrollOffset + c.rowAt p ∧ c.scrollOffset + c.rowAt p < c.items.length

instance (c : ComboBoxWidget) (idx : Int) (e : TouchEventData) : Decidable (c.Selects idx e) :=
  inferInstanceAs (Decidable (_ = _))

instance (c : ComboBoxWidget) (p : TouchPoint) : Decidable (c.OnEdge p) :=
  inferInstanceAs (Decidable (_ ∧ _))

/-- `font.charH() + 12` of a font with this scale. -/
def itemHeight (scale : UInt8) : Int := 8 * scale.toNat + 12

theorem dropdownH_eq (c : ComboBoxWidget) : c.dropdownH = c.visibleCount * c.itemH := rfl

theorem inRect_iff {x y w h tx ty : Int} :
    inRect x y w h tx ty = true ↔ x ≤ tx ∧ tx ≤ x + w ∧ y ≤ ty ∧ ty ≤ y + h := by
  simp [inRect, and_assoc]

/-- What a loop that breaks comes to, where what breaks it stays. -/
theorem mem_takeWhile_of_antitone {l : List Nat} {q : Nat → Bool} (hl : l.Pairwise (· < ·))
    (hq : ∀ i j, i < j → q j = true → q i = true) {i : Nat} :
    i ∈ l.takeWhile q ↔ i ∈ l ∧ q i = true := by
  constructor
  · exact fun h =>
      ⟨(List.takeWhile_sublist _).subset h, List.all_eq_true.mp List.all_takeWhile i h⟩
  · rintro ⟨hi, hqi⟩
    induction l with
    | nil => exact absurd hi List.not_mem_nil
    | cons a l ih =>
        obtain ⟨hlt, hl⟩ := List.pairwise_cons.mp hl
        rcases List.mem_cons.mp hi with rfl | hi
        · rw [List.takeWhile_cons_of_pos hqi]
          exact List.mem_cons_self
        · rw [List.takeWhile_cons_of_pos (hq a i (hlt i hi) hqi)]
          exact List.mem_cons_of_mem _ (ih hl hi)

section Dropdown

variable {c : ComboBoxWidget} {p : TouchPoint} {idx : Int}

/-- Where an open combo box paints an item. -/
theorem paints_iff (hopen : (c.visibleWidget && c.isOpen) = true) (hrow : 0 < c.itemH) :
    c.Paints idx p ↔
      (c.x ≤ p.x.toNat ∧ (p.x.toNat : Int) < c.x + c.dropW) ∧
        (0 ≤ (p.y.toNat : Int) - (c.y + c.h) ∧ c.rowAt p < c.visibleCount) ∧
        idx = c.scrollOffset + c.rowAt p ∧ 0 ≤ idx ∧ idx < c.items.length := by
  have hrows : ∀ {r : PaintedRow}, r ∈ c.paintedRows ↔ ∃ i : Nat, (i : Int) < c.visibleCount ∧
      c.scrollOffset + i < c.items.length ∧ ∃ text, c.itemAt (c.scrollOffset + i) = some text ∧
        (⟨c.scrollOffset + i, text, c.x, c.y + c.h + i * c.itemH, c.dropW, c.itemH⟩ :
          PaintedRow) = r := by
    intro r
    rw [paintedRows, if_pos hopen, List.mem_filterMap]
    refine exists_congr fun i => ?_
    rw [mem_takeWhile_of_antitone List.pairwise_lt_range
      fun i j hij hj => decide_eq_true (by have := of_decide_eq_true hj; omega),
      List.mem_range, decide_eq_true_eq, Option.map_eq_some_iff]
    constructor
    · rintro ⟨⟨hi, hlt⟩, htext⟩
      exact ⟨by omega, hlt, htext⟩
    · rintro ⟨hi, hlt, htext⟩
      exact ⟨⟨by omega, hlt⟩, htext⟩
  constructor
  · rintro ⟨r, hr, rfl, hx, hx', hy, hy'⟩
    obtain ⟨i, hi, hlt, text, htext, rfl⟩ := hrows.mp hr
    dsimp only at hx hx' hy hy' ⊢
    have hat : c.rowAt p = i := by
      have hnum : (p.y.toNat : Int) - (c.y + c.h) =
          ((p.y.toNat : Int) - (c.y + c.h + i * c.itemH)) + i * c.itemH := by omega
      have hpos : 0 ≤ (i : Int) * c.itemH := Int.mul_nonneg (Int.natCast_nonneg i) (by omega)
      rw [rowAt, Int.tdiv_eq_ediv_of_nonneg (by omega), hnum,
        Int.add_mul_ediv_right _ _ (by omega), Int.ediv_eq_zero_of_lt (by omega) (by omega),
        Int.zero_add]
    have hpos : 0 ≤ (i : Int) * c.itemH := Int.mul_nonneg (Int.natCast_nonneg i) (by omega)
    have hidx := itemAt_isSome.mp (Option.isSome_iff_exists.mpr ⟨text, htext⟩)
    rw [hat]
    exact ⟨⟨hx, hx'⟩, ⟨by omega, hi⟩, rfl, hidx.1, hidx.2⟩
  · rintro ⟨⟨hx, hx'⟩, ⟨hy, hvisible⟩, rfl, hidx, hidx'⟩
    have hdiv : c.rowAt p = ((p.y.toNat : Int) - (c.y + c.h)) / c.itemH :=
      Int.tdiv_eq_ediv_of_nonneg hy
    have hnonneg : 0 ≤ c.rowAt p := by
      rw [hdiv]
      exact Int.ediv_nonneg hy (by omega)
    obtain ⟨i, hi⟩ := Int.eq_ofNat_of_zero_le hnonneg
    rw [hi] at hvisible hidx hidx' ⊢
    obtain ⟨text, htext⟩ := Option.isSome_iff_exists.mp (itemAt_isSome.mpr ⟨hidx, hidx'⟩)
    refine ⟨_, hrows.mpr ⟨i, hvisible, hidx', text, htext, rfl⟩, rfl, hx, hx', ?_, ?_⟩
    · have := Int.ediv_mul_le ((p.y.toNat : Int) - (c.y + c.h)) (by omega : c.itemH ≠ 0)
      rw [← hdiv, hi] at this
      dsimp only
      omega
    · have := Int.lt_ediv_add_one_mul_self ((p.y.toNat : Int) - (c.y + c.h)) hrow
      rw [← hdiv, hi, Int.add_mul, Int.one_mul] at this
      dsimp only
      omega

/-- What a press on an open combo box selects. -/
theorem selects_iff {e : TouchEventData} (hopen : (c.visibleWidget && c.isOpen) = true)
    (hpress : e.event = .press) :
    c.Selects idx e ↔
      (c.hitScrollUp e.point = false ∧ c.hitScrollDown e.point = false ∧
        inRect c.x (c.y + c.h) c.dropW c.dropdownH e.point.x.toNat e.point.y.toNat = true) ∧
      idx = c.scrollOffset + c.rowAt e.point ∧ 0 ≤ idx ∧ idx < c.items.length := by
  rw [Bool.and_eq_true] at hopen
  have hhit : 0 ≤ c.hitTestDropdown e.point ↔
      inRect c.x (c.y + c.h) c.dropW c.dropdownH e.point.x.toNat e.point.y.toNat = true ∧
        0 ≤ c.scrollOffset + c.rowAt e.point ∧
        c.scrollOffset + c.rowAt e.point < c.items.length := by
    rw [hitTestDropdown_eq, hopen.2]
    split_ifs with hin
    · simp only [Bool.true_and, Bool.and_eq_true, decide_eq_true_eq] at hin
      exact iff_of_true hin.1.2 ⟨hin.1.1, hin.1.2, hin.2⟩
    · simp only [Bool.true_and, Bool.and_eq_true, decide_eq_true_eq] at hin
      exact iff_of_false (by decide) fun h => hin ⟨⟨h.1, h.2.1⟩, h.2.2⟩
  have hidx : 0 ≤ c.hitTestDropdown e.point →
      c.hitTestDropdown e.point = c.scrollOffset + c.rowAt e.point := by
    rw [hitTestDropdown_eq]
    split_ifs
    · exact fun _ => rfl
    · exact fun h => absurd h (by decide)
  rw [Selects, handleEvent, if_pos hopen.1, hpress]
  dsimp only
  rw [if_pos hopen.2]
  cases hup : c.hitScrollUp e.point with
  | true => simp
  | false =>
      cases hdown : c.hitScrollDown e.point with
      | true => simp
      | false =>
          simp only [Bool.false_eq_true, if_false, true_and]
          split_ifs with hsel
          · obtain ⟨hin, hlow, hhigh⟩ := hhit.mp hsel
            rw [Option.some_inj, hidx hsel]
            constructor
            · rintro rfl
              exact ⟨hin, rfl, hlow, hhigh⟩
            · exact fun h => h.2.1.symm
          · refine iff_of_false (by simp) ?_
            rintro ⟨hin, rfl, hlow, hhigh⟩
            exact hsel (hhit.mpr ⟨hin, hlow, hhigh⟩)

/-- The scroll buttons are right of the rows. -/
theorem not_hitScroll (h : (p.x.toNat : Int) < c.x + c.dropW) :
    c.hitScrollUp p = false ∧ c.hitScrollDown p = false := by
  rw [hitScrollUp, hitScrollDown]
  cases hscroll : c.needsScroll with
  | false => simp
  | true =>
      rw [dropW, hscroll, if_pos rfl] at h
      have hleft : ∀ y' h', inRect (c.x + c.w - scrollW) y' scrollW h' p.x.toNat p.y.toNat =
          false := by
        intro y' h'
        rw [← Bool.not_eq_true, inRect_iff]
        omega
      rw [hleft, hleft]
      simp

/-- A line of pixels is in a row that the dropdown has exactly if it is above the last one. -/
theorem rowAt_lt_iff (hrow : 0 < c.itemH) (hy : 0 ≤ (p.y.toNat : Int) - (c.y + c.h)) :
    c.rowAt p < c.visibleCount ↔ (p.y.toNat : Int) < c.y + c.h + c.dropdownH := by
  rw [rowAt, Int.tdiv_eq_ediv_of_nonneg hy, Int.ediv_lt_iff_lt_mul hrow, dropdownH_eq]
  omega

/-- A press on an open dropdown selects an item exactly where that item is painted, unless the
point is on one of the far edges. -/
theorem selects_iff_paints (scale : UInt8) {e : TouchEventData}
    (hfont : c.itemH = itemHeight scale) (hopen : (c.visibleWidget && c.isOpen) = true)
    (hpress : e.event = .press) :
    (∀ idx, c.Selects idx e ↔ c.Paints idx e.point) ↔ ¬ c.OnEdge e.point := by
  have hrow : 0 < c.itemH := by
    rw [hfont, itemHeight]
    omega
  simp only [selects_iff hopen hpress, paints_iff hopen hrow]
  constructor
  · -- on an edge the item is selected, and its row is not there
    rintro hall ⟨hedge, hin, hup, hdown, hlow, hhigh⟩
    obtain ⟨⟨-, hx⟩, ⟨hy, hvisible⟩, -⟩ :=
      (hall (c.scrollOffset + c.rowAt e.point)).mp ⟨⟨hup, hdown, hin⟩, rfl, hlow, hhigh⟩
    rw [rowAt_lt_iff hrow hy] at hvisible
    omega
  · intro hedge idx
    constructor
    · rintro ⟨⟨hup, hdown, hin⟩, rfl, hlow, hhigh⟩
      have hnot : ¬ (c.x + c.dropW = e.point.x.toNat ∨
          c.y + c.h + c.dropdownH = e.point.y.toNat) := fun h =>
        hedge ⟨h, hin, hup, hdown, hlow, hhigh⟩
      rw [inRect_iff] at hin
      have hy : 0 ≤ (e.point.y.toNat : Int) - (c.y + c.h) := by omega
      refine ⟨⟨hin.1, by omega⟩, ⟨hy, ?_⟩, rfl, hlow, hhigh⟩
      rw [rowAt_lt_iff hrow hy]
      omega
    · rintro ⟨⟨hx, hx'⟩, ⟨hy, hvisible⟩, rfl, hlow, hhigh⟩
      obtain ⟨hup, hdown⟩ := not_hitScroll hx'
      rw [rowAt_lt_iff hrow hy] at hvisible
      refine ⟨⟨hup, hdown, ?_⟩, rfl, hlow, hhigh⟩
      rw [inRect_iff]
      omega

end Dropdown

/-- A dropdown of three items at 100, 100, with 28 lines of pixels for each. -/
def dropdown : ComboBoxWidget :=
  { construct 100 60 200 40 [['a'], ['b'], ['c']] 0 28 4 with isOpen := true }

/-- A press. -/
def pressAt (x y : UInt16) : TouchEventData := ⟨.press, ⟨0, x, y, 0, true⟩, 0, 0, 0⟩

/-- A press in the second row selects the item painted there, and no other. -/
theorem selects_second :
    dropdown.Selects 1 (pressAt 150 130) ∧
      ∀ idx, dropdown.Selects idx (pressAt 150 130) ↔
        dropdown.Paints idx (pressAt 150 130).point :=
  ⟨by decide, (selects_iff_paints 2 rfl rfl rfl).mpr (by decide)⟩

/-- A press on the first pixel right of the second row selects its item. -/
theorem not_selects_iff_paints :
    dropdown.Selects 1 (pressAt 300 130) ∧
      ¬ ∀ idx, dropdown.Selects idx (pressAt 300 130) ↔
        dropdown.Paints idx (pressAt 300 130).point := by
  have hselects : dropdown.Selects 1 (pressAt 300 130) := by decide
  refine ⟨hselects, fun h => ?_⟩
  have hpaints := (h 1).mp hselects
  exact absurd hpaints (by decide)

end ComboBoxWidget

end MFoES.Uisys
