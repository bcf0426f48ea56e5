import MFoES.Uisys.Manager

/-!
# What a dialog answers to

A dialog notes the button of a press in `pressedBtn`, for its looks.  Its answer is the button of
the release, and `pressedBtn` is not asked.  So the dialog answers what was pressed exactly where
the first release in a button is one whose press was in the same button (`answersPressed_iff`).
It does not hold of a finger that was down before the dialog was fired, and the manager gives the
release of that finger to the dialog (`Manager.handleEvent_answered`).
-/

namespace MFoES.Uisys

open MFoES.Touch

namespace DialogWidget

/-! ## The buttons -/

/-- `startX`. -/
def startX (d : DialogWidget) : Int :=
  let totalBtns := (results d.mode).length
  let totalW : Int := totalBtns * 110 + (totalBtns - 1) * 12
  d.boxX + (d.boxW - totalW).tdiv 2

/-- The left edge of a button. -/
def btnX (d : DialogWidget) (i : Nat) : Int := d.startX + (110 + 12) * i

/-- The upper edge of the buttons. -/
def btnY (d : DialogWidget) : Int := d.boxY + d.boxH - 40 - 12

/-- The point is in the `i`-th button. -/
def InBtn (d : DialogWidget) (i : Nat) (p : TouchPoint) : Prop :=
  inRect (d.btnX i) d.btnY 110 40 p.x.toNat p.y.toNat = true

/-- The point is in the button with a result, and the buttons are there. -/
def InsideBtn (d : DialogWidget) (b : DialogResult) (p : TouchPoint) : Prop :=
  d.buttonsHidden = false ∧ ∃ i, (results d.mode)[i]? = some b ∧ d.InBtn i p

variable {d : DialogWidget} {e : TouchEventData} {b : DialogResult} {p : TouchPoint}

theorem inBtn_iff {i : Nat} : d.InBtn i p ↔
    (d.btnX i ≤ p.x.toNat ∧ p.x.toNat ≤ d.btnX i + 110) ∧
      d.btnY ≤ p.y.toNat ∧ p.y.toNat ≤ d.btnY + 40 := by
  simp [InBtn, inRect, and_assoc]

/-- There is a gap between the buttons. -/
theorem InBtn.index_eq {i j : Nat} (hi : d.InBtn i p) (hj : d.InBtn j p) : i = j := by
  rw [inBtn_iff, btnX] at hi hj
  omega

/-- The first hit of `_hitTestBtn` is the only one. -/
theorem hitTestBtn_eq_some_iff : d.hitTestBtn p = some b ↔ d.InsideBtn b p := by
  rw [hitTestBtn, InsideBtn]
  cases hhidden : d.buttonsHidden with
  | true => simp
  | false =>
      simp only [Bool.false_eq_true, if_false, true_and, Option.map_eq_some_iff, Prod.exists,
        exists_and_right, exists_eq_right]
      constructor
      · rintro ⟨i, hfind⟩
        have hmem := List.mem_of_find?_eq_some hfind
        rw [List.mem_zipIdx_iff_getElem?] at hmem
        have hin := List.find?_some hfind
        exact ⟨i, hmem, hin⟩
      · rintro ⟨i, hget, hin⟩
        have hmem : (b, i) ∈ (results d.mode).zipIdx := List.mem_zipIdx_iff_getElem?.mpr hget
        cases hfind : (results d.mode).zipIdx.find? fun x =>
          inRect (d.btnX x.2) d.btnY 110 40 p.x.toNat p.y.toNat with
        | none =>
            have hnot := List.find?_eq_none.mp hfind (b, i) hmem
            exact absurd hin hnot
        | some x =>
            obtain ⟨b', j⟩ := x
            have hj := List.mem_zipIdx_iff_getElem?.mp (List.mem_of_find?_eq_some hfind)
            have hinj := List.find?_some hfind
            obtain rfl : i = j := InBtn.index_eq hin hinj
            obtain rfl : b' = b := Option.some.inj (hj.symm.trans hget)
            exact ⟨i, hfind⟩

/-! ## One touch -/

/-- An open dialog answers a release in a button, and nothing else. -/
theorem handleEvent_eq_some_iff : (d.handleEvent e).2 = some b ↔
    d.isVisible = true ∧ e.event = .release ∧ d.InsideBtn b e.point := by
  rw [handleEvent, ← hitTestBtn_eq_some_iff]
  cases d.isVisible with
  | false => simp
  | true =>
      cases e.event with
      | press => simp
      | move => simp
      | hold => simp
      | release => cases d.hitTestBtn e.point <;> simp

/-- An answer closes the dialog, and nothing else that is touched does. -/
theorem isVisible_handleEvent : (d.handleEvent e).1.isVisible = true ↔
    d.isVisible = true ∧ (d.handleEvent e).2 = none := by
  rw [handleEvent]
  cases hvisible : d.isVisible with
  | false => simp [hvisible]
  | true =>
      cases e.event with
      | press => simpa [isVisible] using hvisible
      | move => simp [hvisible]
      | hold => simp [hvisible]
      | release =>
          cases d.hitTestBtn e.point with
          | none => simpa [isVisible] using hvisible
          | some r => simp [isVisible]

/-- The dialog looks the same. -/
structure SameLayout (d d' : DialogWidget) : Prop where
  boxX : d'.boxX = d.boxX
  boxY : d'.boxY = d.boxY
  boxW : d'.boxW = d.boxW
  boxH : d'.boxH = d.boxH
  mode : d'.mode = d.mode
  hidden : d'.buttonsHidden = d.buttonsHidden

theorem SameLayout.refl (d : DialogWidget) : SameLayout d d := ⟨rfl, rfl, rfl, rfl, rfl, rfl⟩

theorem SameLayout.trans {d₁ d₂ d₃ : DialogWidget} (h : SameLayout d₁ d₂)
    (h' : SameLayout d₂ d₃) : SameLayout d₁ d₃ :=
  ⟨h'.boxX.trans h.boxX, h'.boxY.trans h.boxY, h'.boxW.trans h.boxW, h'.boxH.trans h.boxH,
    h'.mode.trans h.mode, h'.hidden.trans h.hidden⟩

theorem SameLayout.insideBtn_iff {d' : DialogWidget} (h : SameLayout d d') :
    d'.InsideBtn b p ↔ d.InsideBtn b p := by
  simp only [InsideBtn, InBtn, btnX, startX, btnY, h.boxX, h.boxY, h.boxW, h.boxH, h.mode, h.hidden]

theorem sameLayout_handleEvent (d : DialogWidget) (e : TouchEventData) :
    SameLayout d (d.handleEvent e).1 := by
  rw [handleEvent]
  split
  · split
    · exact ⟨rfl, rfl, rfl, rfl, rfl, rfl⟩
    · split <;> exact ⟨rfl, rfl, rfl, rfl, rfl, rfl⟩
    · exact .refl d
    · exact .refl d
  · exact .refl d

/-! ## A run of touches -/

/-- The dialog after some touches. -/
def touched (d : DialogWidget) (es : List TouchEventData) : DialogWidget :=
  es.foldl (fun d e => (d.handleEvent e).1) d

theorem touched_snoc (d : DialogWidget) (es : List TouchEventData) (e : TouchEventData) :
    d.touched (es ++ [e]) = ((d.touched es).handleEvent e).1 := by
  rw [touched, touched, List.foldl_append]
  rfl

theorem sameLayout_touched (d : DialogWidget) (es : List TouchEventData) :
    SameLayout d (d.touched es) := by
  induction es generalizing d with
  | nil => exact .refl d
  | cons e es ih => exact (sameLayout_handleEvent d e).trans (ih _)

theorem sameLayout_touched_fire (d : DialogWidget) (es : List TouchEventData) :
    SameLayout d (d.fire.touched es) :=
  have hfire : SameLayout d d.fire := ⟨rfl, rfl, rfl, rfl, rfl, rfl⟩
  hfire.trans (sameLayout_touched d.fire es)

/-- The most recent press. -/
def lastPress (es : List TouchEventData) : Option TouchPoint :=
  (es.filter fun e => e.event = .press).getLast?.map TouchEventData.point

/-- A touch that releases in a button. -/
def Releases (d : DialogWidget) (b : DialogResult) (e : TouchEventData) : Prop :=
  e.event = .release ∧ d.InsideBtn b e.point

/-- A fired dialog is open until the first release in a button. -/
theorem isVisible_touched_fire (d : DialogWidget) (es : List TouchEventData) :
    (d.fire.touched es).isVisible = true ↔ ∀ r ∈ es, ∀ b, ¬ d.Releases b r := by
  induction es using List.reverseRecOn with
  | nil => exact iff_of_true rfl nofun
  | append_singleton es e ih =>
      have hlayout := sameLayout_touched_fire d es
      rw [touched_snoc, isVisible_handleEvent, List.forall_mem_append, List.forall_mem_singleton,
        ih]
      refine and_congr_right fun hopen => ?_
      rw [Option.eq_none_iff_forall_ne_some]
      refine forall_congr' fun b => not_congr ?_
      rw [handleEvent_eq_some_iff, hlayout.insideBtn_iff, Releases]
      exact and_iff_right (ih.mpr hopen)

/-- The dialog answers what was pressed: whatever it reports to the touches since `fire`, the
touch is a release in that button, and the most recent press was in it as well. -/
def AnswersPressed (d : DialogWidget) (es : List TouchEventData) : Prop :=
  ∀ before e after b, es = before ++ e :: after →
    ((d.fire.touched before).handleEvent e).2 = some b →
    d.Releases b e ∧ ∃ p, lastPress before = some p ∧ d.InsideBtn b p

/-- A dialog answers what was pressed exactly where the first release in a button comes when the
most recent press was in that button. -/
theorem answersPressed_iff (d : DialogWidget) (es : List TouchEventData) :
    AnswersPressed d es ↔ ∀ before e after b, es = before ++ e :: after →
      (∀ r ∈ before, ∀ b', ¬ d.Releases b' r) → d.Releases b e →
      ∃ p, lastPress before = some p ∧ d.InsideBtn b p := by
  have hanswer : ∀ before e b, ((d.fire.touched before).handleEvent e).2 = some b ↔
      (∀ r ∈ before, ∀ b', ¬ d.Releases b' r) ∧ d.Releases b e := by
    intro before e b
    have hlayout := sameLayout_touched_fire d before
    rw [handleEvent_eq_some_iff, hlayout.insideBtn_iff, isVisible_touched_fire, Releases]
  constructor
  · intro h before e after b hes hfirst hrelease
    exact (h before e after b hes ((hanswer before e b).mpr ⟨hfirst, hrelease⟩)).2
  · intro h before e after b hes hresult
    obtain ⟨hfirst, hrelease⟩ := (hanswer before e b).mp hresult
    exact ⟨hrelease, h before e after b hes hfirst hrelease⟩

/-- The release of a finger that was down before the dialog. -/
def lateRelease : TouchEventData where
  event := .release
  point := ⟨0, 700, 460, 0, false⟩
  dx := 0
  dy := 0
  durationMs := 300

/-- The dialog says yes to it. -/
theorem not_answersPressed_lateRelease :
    ¬ ∀ (d : DialogWidget) (es : List TouchEventData), AnswersPressed d es := by
  intro h
  have hanswer := h (make 1280 720 .yesNo) [lateRelease] [] lateRelease [] .yes rfl (by decide)
  obtain ⟨-, p, hp, -⟩ := hanswer
  cases hp

end DialogWidget

/-! ## In the manager -/

/-- A dialog that was just fired reports the next release in one of its buttons, whoever pressed
what before. -/
theorem Manager.handleEvent_answered {lib : NumberText} {app : Call → List Action}
    {e : TouchEventData} {m : Manager} {i : Nat} {id : String} {d : DialogWidget}
    {b : DialogResult} (hfirst : m.dialogs.findIdx? (fun en => en.widget.isVisible) = some i)
    (hdialog : m.dialogs[i]? = some ⟨id, d.fire⟩) (he : d.Releases b e) :
    m.handleEvent lib app e =
      call app { m with dialogs := m.dialogs.set i ⟨id, (d.fire.handleEvent e).1⟩ }
        (.dialog i b) := by
  have hanswer : (d.fire.handleEvent e).2 = some b :=
    DialogWidget.handleEvent_eq_some_iff.mpr ⟨rfl, he⟩
  rw [handleEvent, hfirst]
  show m.dialogEvent app e i = _
  rw [dialogEvent, hdialog]
  show callAll app _ ((d.fire.handleEvent e).2.toList.map (Call.dialog i)) = _
  rw [hanswer]
  rfl

end MFoES.Uisys
