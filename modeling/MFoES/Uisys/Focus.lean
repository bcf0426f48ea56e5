import MFoES.Uisys.HeldButtons

/-!
# The field that the keyboard is open on

A field keeps a flag of its own for having the keyboard, `focused` or `editing`, and opens the
keyboard on a press only while the flag is off.  The keyboard hides itself without telling the
field, so the flag can stay on while the keyboard is hidden: a press into the field does nothing
then, and a press elsewhere makes the field hide a keyboard that was opened for another one.

The loop of `handleEvent` comes to all fields, and the last one that reacts has its way.  So a
press opens the keyboard on a field exactly when the field takes it, and no field after it reacts
(`openOn_iff`).
-/

namespace MFoES.Uisys

open MFoES.Touch Transition

/-! ## One field -/

/-- What a press does to the keyboard. -/
inductive Reaction
  | nothing
  | opens
  | closes
  deriving DecidableEq

/-- The reaction of a field to a press, from whether the press is in its box and whether the
field has the keyboard. -/
def Reaction.of (inside has : Bool) : Reaction :=
  match inside, has with
  | true, false => .opens
  | false, true => .closes
  | true, true => .nothing
  | false, false => .nothing

/-- The reaction of a text field. -/
def TextEditWidget.reaction (t : TextEditWidget) (p : TouchPoint) : Reaction :=
  if t.visibleWidget then .of (t.hitTest p) t.focused else .nothing

/-- The reaction of a number field; its buttons come first. -/
def SpinBoxWidget.reaction (s : SpinBoxWidget) (p : TouchPoint) : Reaction :=
  if s.visibleWidget && !s.hitPlus p && !s.hitMinus p then .of (s.hitValueBox p) s.editing
  else .nothing

/-- A keyboard after the reaction of a field that shows this text. -/
def Reacted (r : Reaction) (f : Field) (text : Text) (kb kb' : KeyboardWidget) : Prop :=
  match r with
  | .nothing => kb' = kb
  | .opens => kb'.visible = true ∧ kb'.onChange = some f ∧ kb'.internalBuf = text
  | .closes => kb'.visible = false

theorem reacted_edit (t : TextEditWidget) (i : Nat) (kb : KeyboardWidget) {e : TouchEventData}
    (he : e.event = .press) :
    Reacted (t.reaction e.point) (.edit i) t.text kb (t.handleEvent i kb e).2.1 := by
  unfold TextEditWidget.handleEvent TextEditWidget.reaction
  rw [he]
  cases t.visibleWidget with
  | false => rfl
  | true =>
      cases hhit : t.hitTest e.point with
      | true =>
          cases hfocused : t.focused with
          | true => rfl
          | false => exact ⟨rfl, rfl, rfl⟩
      | false =>
          cases hfocused : t.focused with
          | true =>
              show (t.unfocus kb).2.1.visible = false
              rw [TextEditWidget.unfocus, if_pos hfocused]
              cases hkb : kb.visible with
              | true => rfl
              | false => exact hkb
          | false =>
              show (t.unfocus kb).2.1 = kb
              rw [TextEditWidget.unfocus, if_neg (by simp [hfocused])]

/-- No event changes the text of a text field. -/
theorem text_handleEvent (t : TextEditWidget) (i : Nat) (kb : KeyboardWidget)
    (e : TouchEventData) : (t.handleEvent i kb e).1.text = t.text := by
  dsimp only [TextEditWidget.handleEvent, TextEditWidget.focus, TextEditWidget.unfocus]
  repeat' split
  all_goals rfl

theorem visible_commitEdit (lib : NumberText) (s : SpinBoxWidget) (kb : KeyboardWidget) :
    (s.commitEdit lib kb).2.1.visible = false := by
  unfold SpinBoxWidget.commitEdit
  dsimp only
  split
  · rfl
  · next hkb => exact Bool.eq_false_of_not_eq_true hkb

theorem reacted_spin (lib : NumberText) (s : SpinBoxWidget) (i : Nat) (kb : KeyboardWidget)
    {e : TouchEventData} (he : e.event = .press) :
    Reacted (s.reaction e.point) (.spin i) ((s.handleEvent lib i kb e).1.formatValue lib) kb
      (s.handleEvent lib i kb e).2.1 := by
  unfold SpinBoxWidget.handleEvent SpinBoxWidget.reaction
  rw [he]
  cases s.visibleWidget with
  | false => rfl
  | true =>
      cases hplus : s.hitPlus e.point with
      | true =>
          cases s.editing with
          | true => rfl
          | false => rfl
      | false =>
          cases hminus : s.hitMinus e.point with
          | true =>
              cases s.editing with
              | true => rfl
              | false => rfl
          | false =>
              cases hbox : s.hitValueBox e.point with
              | true =>
                  cases s.editing with
                  | true => rfl
                  | false => exact ⟨rfl, rfl, rfl⟩
              | false =>
                  cases hediting : s.editing with
                  | true => exact visible_commitEdit lib s kb
                  | false => rfl

/-- The loops come to one field before another. -/
def Field.Before : Field → Field → Prop
  | .edit i, .edit j => i < j
  | .edit _, .spin _ => True
  | .spin _, .edit _ => False
  | .spin i, .spin j => i < j

theorem Field.Before.asymm {f g : Field} (h : f.Before g) : ¬ g.Before f := by
  cases f with
  | edit i =>
      cases g with
      | edit j => exact Nat.lt_asymm h
      | spin j => exact id
  | spin i =>
      cases g with
      | edit j => exact h.elim
      | spin j => exact Nat.lt_asymm h

theorem Field.Before.ne {f g : Field} (h : f.Before g) : f ≠ g := by
  intro heq
  subst heq
  exact h.asymm h

namespace Manager

/-! ## What leaves the keyboard and the texts -/

section Frame

variable {lib : NumberText} {app : Call → List Action} {e : TouchEventData}

variable (lib) in
/-- The texts that the fields show. -/
def texts (m : Manager) : List Text × List Text :=
  (m.edits.map fun en => en.widget.text, m.spins.map fun en => en.widget.formatValue lib)

variable (lib) in
/-- The keyboard is as it was, and all fields show the same. -/
structure Unmoved (m m' : Manager) : Prop where
  keyboard : m'.keyboard = m.keyboard
  texts : m'.texts lib = m.texts lib

theorem Unmoved.refl (m : Manager) : Unmoved lib m m := ⟨rfl, rfl⟩

theorem Unmoved.trans {m m' m'' : Manager} (h : Unmoved lib m m') (h' : Unmoved lib m' m'') :
    Unmoved lib m m'' :=
  ⟨h'.keyboard.trans h.keyboard, h'.texts.trans h.texts⟩

theorem unmoved_setVisible (m : Manager) (id : String) (v : Bool) :
    Unmoved lib m (m.setVisible id v) := by
  unfold setVisible
  split
  · exact ⟨rfl, rfl⟩
  split
  · exact ⟨rfl, rfl⟩
  split
  · exact ⟨rfl, rfl⟩
  split
  · exact ⟨rfl, rfl⟩
  split
  · next h =>
    refine ⟨rfl, ?_⟩
    rw [texts, map_onId TextEditWidget.text (fun t => { t with visibleWidget := v })
      (fun _ => rfl) h]
    rfl
  split
  · next h =>
    refine ⟨rfl, ?_⟩
    rw [texts, map_onId (SpinBoxWidget.formatValue lib) (fun s => { s with visibleWidget := v })
      (fun _ => rfl) h]
    rfl
  · exact Unmoved.refl m

theorem unmoved_act (m : Manager) (a : Action) : Unmoved lib m (m.act a) := by
  cases a with
  | setVisible id v => exact unmoved_setVisible m id v
  | setToggleState id s => exact ⟨rfl, rfl⟩
  | openDialog id dialog => exact ⟨rfl, rfl⟩
  | fireDialog id => exact ⟨rfl, rfl⟩
  | dismissDialog id => exact ⟨rfl, rfl⟩
  | eraseDialog id => exact ⟨rfl, rfl⟩

theorem unmoved_acts (acts : List Action) (m : Manager) : Unmoved lib m (acts.foldl act m) := by
  induction acts generalizing m with
  | nil => exact Unmoved.refl m
  | cons a acts ih => exact (unmoved_act m a).trans (ih _)

variable (lib app) in
theorem unmoved_callAll (cs : List Call) (m : Manager) : Unmoved lib m (m.callAll app cs) := by
  induction cs generalizing m with
  | nil => exact Unmoved.refl m
  | cons c cs ih =>
      have hcall : Unmoved lib m { m with calls := m.calls ++ [c] } := ⟨rfl, rfl⟩
      exact (hcall.trans (unmoved_acts (app c) _)).trans (ih _)

/-- Calls after a change that leaves the fields and the keyboard. -/
theorem Unmoved.callAll {m m' : Manager} (hm : Unmoved lib m m') (cs : List Call) :
    Unmoved lib m (m'.callAll app cs) := hm.trans (unmoved_callAll lib app cs m')

theorem unmoved_buttonEvent (m : Manager) (i : Nat) : Unmoved lib m (m.buttonEvent app e i) := by
  unfold buttonEvent
  split
  · exact Unmoved.refl m
  · split
    exact Unmoved.callAll ⟨by rfl, by rfl⟩ _

theorem unmoved_sliderEvent (m : Manager) (i : Nat) : Unmoved lib m (m.sliderEvent app e i) := by
  unfold sliderEvent
  split
  · exact Unmoved.refl m
  · split
    exact Unmoved.callAll ⟨by rfl, by rfl⟩ _

theorem unmoved_dialEvent (m : Manager) (i : Nat) : Unmoved lib m (m.dialEvent app e i) := by
  unfold dialEvent
  split
  · exact Unmoved.refl m
  · split
    exact Unmoved.callAll ⟨by rfl, by rfl⟩ _

theorem unmoved_comboEvent (m : Manager) (i : Nat) : Unmoved lib m (m.comboEvent app e i) := by
  unfold comboEvent
  split
  · exact Unmoved.refl m
  · split
    exact Unmoved.callAll ⟨by rfl, by rfl⟩ _

theorem unmoved_foldl {f : Manager → Nat → Manager} (hf : ∀ m i, Unmoved lib m (f m i))
    (is : List Nat) (m : Manager) : Unmoved lib m (is.foldl f m) := by
  induction is generalizing m with
  | nil => exact Unmoved.refl m
  | cons i is ih => exact (hf m i).trans (ih _)

end Frame

/-! ## The loop over the fields -/

variable (lib : NumberText) (app : Call → List Action) (e : TouchEventData)

/-- A round of the loops over the fields. -/
def fieldEvent (m : Manager) : Field → Manager
  | .edit i => m.editEvent app e i
  | .spin i => m.spinEvent lib app e i

/-- The reaction of a field to a press. -/
def reaction (p : TouchPoint) (m : Manager) : Field → Reaction
  | .edit i => m.edits[i]?.elim .nothing fun en => en.widget.reaction p
  | .spin i => m.spins[i]?.elim .nothing fun en => en.widget.reaction p

/-- The text that a field shows. -/
def shown (m : Manager) : Field → Option Text
  | .edit i => (m.texts lib).1[i]?
  | .spin i => (m.texts lib).2[i]?

/-- The keyboard gives its keys to a field. -/
def BoundTo (m : Manager) (f : Field) : Prop :=
  m.keyboard.visible = true ∧ m.keyboard.onChange = some f

/-- The keyboard is open on a field, and shows its text. -/
def OpenOn (m : Manager) (f : Field) : Prop :=
  m.BoundTo f ∧ m.shown lib f = some m.keyboard.internalBuf

theorem set_same {α : Type} {xs : List α} {i : Nat} {a : α} (h : xs[i]? = some a) :
    xs.set i a = xs := by
  obtain ⟨hi, rfl⟩ := List.getElem?_eq_some_iff.mp h
  exact List.set_getElem_self hi

/-- No text changes at a text field; the keyboard is what the field makes of it. -/
theorem editEvent_spec (m : Manager) (i : Nat) :
    (m.editEvent app e i).texts lib = m.texts lib ∧
      (m.editEvent app e i).keyboard = m.edits[i]?.elim m.keyboard fun en =>
        (en.widget.handleEvent i m.keyboard e).2.1 := by
  unfold editEvent
  split
  · next hen => exact ⟨rfl, by rw [hen]; rfl⟩
  · next en hen =>
    rw [hen, Option.elim_some]
    have htext := text_handleEvent en.widget i m.keyboard e
    split
    next t kb confirmed hevent =>
    rw [hevent] at htext
    have hcalls := unmoved_callAll lib app
      (if confirmed then [Call.editConfirm i t.text] else [])
      { m with edits := m.edits.set i { en with widget := t }, keyboard := kb }
    refine ⟨hcalls.texts.trans ?_, hcalls.keyboard.trans (by rw [hevent])⟩
    rw [texts, texts, List.map_set, set_same]
    rw [List.getElem?_map, hen]
    exact congrArg some htext.symm

/-- Only its own text changes at a number field. -/
theorem spinEvent_spec (m : Manager) (i : Nat) :
    (m.spinEvent lib app e i).texts lib =
        (m.spins[i]?.elim (m.texts lib) fun en => ((m.texts lib).1, (m.texts lib).2.set i
          ((en.widget.handleEvent lib i m.keyboard e).1.formatValue lib))) ∧
      (m.spinEvent lib app e i).keyboard = m.spins[i]?.elim m.keyboard fun en =>
        (en.widget.handleEvent lib i m.keyboard e).2.1 := by
  unfold spinEvent
  split
  · next hen => exact ⟨by rw [hen]; rfl, by rw [hen]; rfl⟩
  · next en hen =>
    rw [hen, Option.elim_some, Option.elim_some]
    split
    next s kb values hevent =>
    have hcalls := unmoved_callAll lib app (values.map (Call.spin i))
      { m with spins := m.spins.set i { en with widget := s }, keyboard := kb }
    refine ⟨hcalls.texts.trans ?_, hcalls.keyboard.trans (by rw [hevent])⟩
    rw [texts, List.map_set, hevent]
    rfl

/-- A field leaves what the other fields show. -/
theorem shown_fieldEvent {f g : Field} (hne : f ≠ g) (m : Manager) :
    (m.fieldEvent lib app e g).shown lib f = m.shown lib f := by
  cases g with
  | edit i =>
      unfold shown
      rw [fieldEvent, (editEvent_spec lib app e m i).1]
  | spin i =>
      have htexts := (spinEvent_spec lib app e m i).1
      unfold shown
      rw [fieldEvent, htexts]
      cases m.spins[i]? with
      | none => rfl
      | some en =>
          cases f with
          | edit j => rfl
          | spin j => exact List.getElem?_set_ne fun hij => hne (by rw [hij])

/-- A field that is there reacts to a press, and one that is not does nothing. -/
theorem reacted_fieldEvent (he : e.event = .press) (m : Manager) (g : Field) :
    (m.reaction e.point g = .nothing ∧ (m.fieldEvent lib app e g).keyboard = m.keyboard) ∨
      ∃ text, (m.fieldEvent lib app e g).shown lib g = some text ∧
        Reacted (m.reaction e.point g) g text m.keyboard (m.fieldEvent lib app e g).keyboard := by
  cases g with
  | edit i =>
      obtain ⟨htexts, hkeyboard⟩ := editEvent_spec lib app e m i
      dsimp only [shown, reaction, fieldEvent]
      rw [htexts, hkeyboard]
      cases hen : m.edits[i]? with
      | none => exact Or.inl ⟨rfl, rfl⟩
      | some en =>
          refine Or.inr ⟨en.widget.text, ?_, reacted_edit en.widget i m.keyboard he⟩
          show (m.edits.map _)[i]? = _
          rw [List.getElem?_map, hen]
          rfl
  | spin i =>
      obtain ⟨htexts, hkeyboard⟩ := spinEvent_spec lib app e m i
      dsimp only [shown, reaction, fieldEvent]
      rw [htexts, hkeyboard]
      cases hen : m.spins[i]? with
      | none => exact Or.inl ⟨rfl, rfl⟩
      | some en =>
          refine Or.inr ⟨_, ?_, reacted_spin lib en.widget i m.keyboard he⟩
          refine List.getElem?_set_self ?_
          show i < (m.spins.map _).length
          rw [List.length_map]
          exact (List.getElem?_eq_some_iff.mp hen).1

/-- What is open on a field stays so at another one that does not react. -/
theorem openOn_fieldEvent_ne (he : e.event = .press) {f g : Field} (hne : f ≠ g) (m : Manager) :
    (m.fieldEvent lib app e g).OpenOn lib f ↔
      m.OpenOn lib f ∧ m.reaction e.point g = .nothing := by
  unfold OpenOn BoundTo
  rw [shown_fieldEvent lib app e hne]
  rcases reacted_fieldEvent lib app e he m g with ⟨hnothing, hkeyboard⟩ | ⟨text, -, hreacted⟩
  · rw [hkeyboard, hnothing]
    simp
  · cases hr : m.reaction e.point g with
    | nothing =>
        rw [hr] at hreacted
        rw [show _ = m.keyboard from hreacted]
        simp
    | opens =>
        rw [hr] at hreacted
        obtain ⟨-, hbound, -⟩ := hreacted
        rw [hbound]
        simp [Ne.symm hne]
    | closes =>
        rw [hr] at hreacted
        rw [show _ = false from hreacted]
        simp

/-- A field that did not have the keyboard has it exactly when the press opens it. -/
theorem openOn_fieldEvent_self (he : e.event = .press) {f : Field} {m : Manager}
    (hm : ¬ m.BoundTo f) :
    (m.fieldEvent lib app e f).OpenOn lib f ↔ m.reaction e.point f = .opens := by
  unfold OpenOn BoundTo
  rcases reacted_fieldEvent lib app e he m f with ⟨hnothing, hkeyboard⟩ | ⟨text, htext, hreacted⟩
  · rw [hkeyboard, hnothing]
    exact iff_of_false (fun h => hm h.1) nofun
  · cases hr : m.reaction e.point f with
    | nothing =>
        rw [hr] at hreacted
        rw [show _ = m.keyboard from hreacted]
        exact iff_of_false (fun h => hm h.1) nofun
    | opens =>
        rw [hr] at hreacted
        obtain ⟨hvisible, hbound, hbuf⟩ := hreacted
        exact iff_of_true ⟨⟨hvisible, hbound⟩, by rw [htext, hbuf]⟩ rfl
    | closes =>
        rw [hr] at hreacted
        rw [show _ = false from hreacted]
        exact iff_of_false (fun h => by simp at h) nofun

/-- No other field binds the keyboard to this one. -/
theorem not_boundTo_fieldEvent (he : e.event = .press) {f g : Field} (hne : f ≠ g) {m : Manager}
    (hm : ¬ m.BoundTo f) : ¬ (m.fieldEvent lib app e g).BoundTo f := by
  unfold BoundTo
  rcases reacted_fieldEvent lib app e he m g with ⟨hnothing, hkeyboard⟩ | ⟨text, -, hreacted⟩
  · rw [hkeyboard]
    exact hm
  · cases hr : m.reaction e.point g with
    | nothing =>
        rw [hr] at hreacted
        rw [show _ = m.keyboard from hreacted]
        exact hm
    | opens =>
        rw [hr] at hreacted
        obtain ⟨-, hbound, -⟩ := hreacted
        rw [hbound]
        simp [Ne.symm hne]
    | closes =>
        rw [hr] at hreacted
        rw [show _ = false from hreacted]
        simp

/-- No field reacts when the loop comes to it. -/
def Calm : Manager → List Field → Prop
  | _, [] => True
  | m, g :: gs => m.reaction e.point g = .nothing ∧ Calm (m.fieldEvent lib app e g) gs

/-- The press opens the keyboard on the field when the loop comes to it, and no field after it
reacts. -/
def Takes (f : Field) : Manager → List Field → Prop
  | _, [] => False
  | m, g :: gs =>
      if g = f then m.reaction e.point f = .opens ∧ Calm lib app e (m.fieldEvent lib app e f) gs
      else Takes f (m.fieldEvent lib app e g) gs

instance decidableCalm : ∀ (gs : List Field) (m : Manager), Decidable (Calm lib app e m gs)
  | [], _ => .isTrue trivial
  | g :: gs, m =>
      have : Decidable (Calm lib app e (m.fieldEvent lib app e g) gs) := decidableCalm gs _
      inferInstanceAs (Decidable (_ ∧ Calm lib app e (m.fieldEvent lib app e g) gs))

instance decidableTakes (f : Field) :
    ∀ (gs : List Field) (m : Manager), Decidable (Takes lib app e f m gs)
  | [], _ => .isFalse id
  | g :: gs, m =>
      have : Decidable (Takes lib app e f (m.fieldEvent lib app e g) gs) := decidableTakes f gs _
      inferInstanceAs (Decidable (if g = f then _ ∧ _ else Takes lib app e f _ gs))

theorem openOn_foldl_of_not_mem (he : e.event = .press) {f : Field} {gs : List Field}
    (hf : f ∉ gs) (m : Manager) :
    (gs.foldl (fieldEvent lib app e) m).OpenOn lib f ↔ m.OpenOn lib f ∧ Calm lib app e m gs := by
  induction gs generalizing m with
  | nil => simp [Calm]
  | cons g gs ih =>
      rw [List.mem_cons, not_or] at hf
      rw [List.foldl_cons, ih hf.2, openOn_fieldEvent_ne lib app e he hf.1, Calm, and_assoc]

/-- The last field that reacts to a press has its way with the keyboard. -/
theorem openOn_foldl_iff (he : e.event = .press) {f : Field} {gs : List Field}
    (hnodup : gs.Nodup) {m : Manager} (hm : ¬ m.BoundTo f) :
    (gs.foldl (fieldEvent lib app e) m).OpenOn lib f ↔ Takes lib app e f m gs := by
  induction gs generalizing m with
  | nil => exact iff_of_false (fun h => hm h.1) id
  | cons g gs ih =>
      rw [List.nodup_cons] at hnodup
      rw [List.foldl_cons, Takes]
      split
      · next heq =>
        subst heq
        rw [openOn_foldl_of_not_mem lib app e he hnodup.1, openOn_fieldEvent_self lib app e he hm]
      · next hne =>
        exact ih hnodup.2 (not_boundTo_fieldEvent lib app e he (Ne.symm hne) hm)

/-! ## A press -/

/-- The fields, in the order of the loops. -/
def fields (m : Manager) : List Field :=
  (List.range m.edits.length).map .edit ++ (List.range m.spins.length).map .spin

/-- The loops before those over the fields. -/
def beforeFields (m : Manager) : Manager :=
  let m := (List.range m.buttons.length).foldl (buttonEvent app e) m
  let m := (List.range m.sliders.length).foldl (sliderEvent app e) m
  let m := (List.range m.dials.length).foldl (dialEvent app e) m
  (List.range m.combos.length).foldl (comboEvent app e) m

theorem unmoved_beforeFields (m : Manager) : Unmoved lib m (m.beforeFields app e) :=
  (((unmoved_foldl unmoved_buttonEvent _ _).trans (unmoved_foldl unmoved_sliderEvent _ _)).trans
    (unmoved_foldl unmoved_dialEvent _ _)).trans (unmoved_foldl unmoved_comboEvent _ _)

/-- There are as many fields as texts. -/
theorem fields_of_texts {m m' : Manager} (h : m'.texts lib = m.texts lib) :
    m'.edits.length = m.edits.length ∧ m'.spins.length = m.spins.length := by
  rw [texts, texts, Prod.mk.injEq] at h
  obtain ⟨hedits, hspins⟩ := h
  have hedits := congrArg List.length hedits
  have hspins := congrArg List.length hspins
  rw [List.length_map, List.length_map] at hedits hspins
  exact ⟨hedits, hspins⟩

theorem sorted_fields (m : Manager) : m.fields.Pairwise Field.Before := by
  refine List.pairwise_append.mpr ⟨?_, ?_, ?_⟩
  · exact List.pairwise_map.mpr (List.pairwise_lt_range.imp id)
  · exact List.pairwise_map.mpr (List.pairwise_lt_range.imp id)
  · intro f hf g hg
    obtain ⟨i, -, rfl⟩ := List.mem_map.mp hf
    obtain ⟨j, -, rfl⟩ := List.mem_map.mp hg
    trivial

/-- The loops over the fields are one. -/
theorem widgetsEvent_eq (m : Manager) :
    m.widgetsEvent lib app e = m.fields.foldl (fieldEvent lib app e) (m.beforeFields app e) := by
  have hbefore := fields_of_texts lib (unmoved_beforeFields lib app e m).texts
  have hedits : ∀ (is : List Nat) (m : Manager),
      (is.foldl (editEvent app e) m).texts lib = m.texts lib := by
    intro is
    induction is with
    | nil => exact fun _ => rfl
    | cons i is ih => exact fun m => (ih _).trans (editEvent_spec lib app e m i).1
  have hspins : ((List.range (m.beforeFields app e).edits.length).foldl (editEvent app e)
      (m.beforeFields app e)).spins.length = m.spins.length :=
    (fields_of_texts lib (hedits _ _)).2.trans hbefore.2
  rw [fields, List.foldl_append, List.foldl_map, List.foldl_map]
  show (List.range ((List.range (m.beforeFields app e).edits.length).foldl (editEvent app e)
    (m.beforeFields app e)).spins.length).foldl (spinEvent lib app e)
      ((List.range (m.beforeFields app e).edits.length).foldl (editEvent app e)
        (m.beforeFields app e)) = _
  rw [hspins, hbefore.1]
  rfl

/-- While neither a dialog nor the keyboard takes it, a press opens the keyboard on a field exactly
when the field takes it and no field after it reacts. -/
theorem openOn_iff {m : Manager} (hm : m.blocked = false) (he : e.event = .press) (f : Field) :
    (m.handleEvent lib app e).OpenOn lib f ↔
      Takes lib app e f (m.beforeFields app e) m.fields := by
  rw [handleEvent_open hm, widgetsEvent_eq]
  refine openOn_foldl_iff lib app e he ((sorted_fields m).imp Field.Before.ne) fun hbound => ?_
  rw [BoundTo, (unmoved_beforeFields lib app e m).keyboard] at hbound
  rw [blocked, Bool.or_eq_false_iff, hbound.1] at hm
  cases hm.2

/-- The next key that writes goes to the field that the keyboard is open on. -/
theorem OpenOn.types {m : Manager} {f : Field} (h : m.OpenOn lib f) {k : Key}
    (hk : k.action = .none) :
    (m.keyboard.processKey k).2 = some (f, (m.keyboard.processKey k).1.internalBuf) := by
  obtain ⟨⟨-, hbound⟩, -⟩ := h
  rw [KeyboardWidget.processKey, hk]
  show m.keyboard.onChange.map _ = _
  rw [hbound]
  rfl

/-! ## Callbacks that leave the widgets -/

/-- The fields are the same. -/
def SameFields (m m' : Manager) : Prop := m'.edits = m.edits ∧ m'.spins = m.spins

theorem SameFields.trans {m m' m'' : Manager} (h : SameFields m m') (h' : SameFields m' m'') :
    SameFields m m'' := ⟨h'.1.trans h.1, h'.2.trans h.2⟩

variable {app} in
theorem sameFields_callAll (happ : ∀ c, app c = []) (cs : List Call) (m : Manager) :
    SameFields m (m.callAll app cs) := by
  induction cs generalizing m with
  | nil => exact ⟨rfl, rfl⟩
  | cons c cs ih =>
      have hcall : m.call app c = { m with calls := m.calls ++ [c] } := by
        rw [call, happ]
        rfl
      rw [callAll, List.foldl_cons, hcall]
      exact ih { m with calls := m.calls ++ [c] }

theorem SameFields.reaction {m m' : Manager} (h : SameFields m m') (p : TouchPoint) (f : Field) :
    m'.reaction p f = m.reaction p f := by
  cases f with
  | edit i => rw [Manager.reaction, Manager.reaction, h.1]
  | spin i => rw [Manager.reaction, Manager.reaction, h.2]

theorem sameFields_foldl {f : Manager → Nat → Manager} (hf : ∀ m i, SameFields m (f m i))
    (is : List Nat) (m : Manager) : SameFields m (is.foldl f m) := by
  induction is generalizing m with
  | nil => exact ⟨rfl, rfl⟩
  | cons i is ih => exact (hf m i).trans (ih _)

variable {app} in
theorem sameFields_beforeFields (happ : ∀ c, app c = []) (m : Manager) :
    SameFields m (m.beforeFields app e) := by
  have hbuttons := sameFields_foldl (f := buttonEvent app e) fun m i => by
    unfold buttonEvent
    split
    · exact ⟨rfl, rfl⟩
    · exact sameFields_callAll happ _ _
  have hsliders := sameFields_foldl (f := sliderEvent app e) fun m i => by
    unfold sliderEvent
    split
    · exact ⟨rfl, rfl⟩
    · exact sameFields_callAll happ _ _
  have hdials := sameFields_foldl (f := dialEvent app e) fun m i => by
    unfold dialEvent
    split
    · exact ⟨rfl, rfl⟩
    · exact sameFields_callAll happ _ _
  have hcombos := sameFields_foldl (f := comboEvent app e) fun m i => by
    unfold comboEvent
    split
    · exact ⟨rfl, rfl⟩
    · exact sameFields_callAll happ _ _
  exact (((hbuttons _ _).trans (hsliders _ _)).trans (hdials _ _)).trans (hcombos _ _)

variable {app} in
/-- A field reacts to nothing but events of its own. -/
theorem reaction_fieldEvent (happ : ∀ c, app c = []) {f g : Field} (hne : f ≠ g) (m : Manager)
    (p : TouchPoint) : (m.fieldEvent lib app e g).reaction p f = m.reaction p f := by
  cases g with
  | edit i =>
      rw [fieldEvent, editEvent]
      split
      · rfl
      · next en _ =>
        split
        next t kb confirmed _ =>
        rw [(sameFields_callAll happ _ _).reaction]
        cases f with
        | edit j =>
            have hij : i ≠ j := fun hij => hne (by rw [hij])
            rw [reaction, reaction, List.getElem?_set_ne hij]
        | spin j => rfl
  | spin i =>
      rw [fieldEvent, spinEvent]
      split
      · rfl
      · next en _ =>
        split
        next s kb values _ =>
        rw [(sameFields_callAll happ _ _).reaction]
        cases f with
        | edit j => rfl
        | spin j =>
            have hij : i ≠ j := fun hij => hne (by rw [hij])
            rw [reaction, reaction, List.getElem?_set_ne hij]

variable {app} in
theorem calm_iff (happ : ∀ c, app c = []) {gs : List Field} (hnodup : gs.Nodup) (m : Manager) :
    Calm lib app e m gs ↔ ∀ g ∈ gs, m.reaction e.point g = .nothing := by
  induction gs generalizing m with
  | nil => simp [Calm]
  | cons g gs ih =>
      rw [List.nodup_cons] at hnodup
      rw [Calm, List.forall_mem_cons, ih hnodup.2]
      refine and_congr_right fun _ => forall₂_congr fun f hf => ?_
      have hne : f ≠ g := fun heq => hnodup.1 (heq ▸ hf)
      rw [reaction_fieldEvent lib e happ hne]

variable {app} in
theorem takes_iff (happ : ∀ c, app c = []) {f : Field} {gs : List Field}
    (hsorted : gs.Pairwise Field.Before) (m : Manager) :
    Takes lib app e f m gs ↔
      f ∈ gs ∧ m.reaction e.point f = .opens ∧
        ∀ g ∈ gs, f.Before g → m.reaction e.point g = .nothing := by
  induction gs generalizing m with
  | nil => simp [Takes]
  | cons g gs ih =>
      rw [List.pairwise_cons] at hsorted
      obtain ⟨hbefore, hsorted⟩ := hsorted
      rw [Takes, List.forall_mem_cons]
      split
      · next heq =>
        subst heq
        rw [calm_iff lib e happ (hsorted.imp Field.Before.ne)]
        constructor
        · rintro ⟨hopens, hcalm⟩
          refine ⟨List.mem_cons_self, hopens, fun h => absurd rfl h.ne, fun g' hg' h => ?_⟩
          rw [← reaction_fieldEvent lib e happ (Ne.symm h.ne) m]
          exact hcalm g' hg'
        · rintro ⟨-, hopens, -, hafter⟩
          refine ⟨hopens, fun g' hg' => ?_⟩
          have h := hbefore g' hg'
          rw [reaction_fieldEvent lib e happ (Ne.symm h.ne)]
          exact hafter g' hg' h
      · next hne =>
        have hmem : f ∈ g :: gs ↔ f ∈ gs := by simp [Ne.symm hne]
        rw [ih hsorted, hmem, reaction_fieldEvent lib e happ (Ne.symm hne)]
        refine and_congr_right fun hf => and_congr_right fun _ => ?_
        constructor
        · intro hafter
          refine ⟨fun h => absurd h (hbefore f hf).asymm, fun g' hg' h => ?_⟩
          rw [← reaction_fieldEvent lib e happ (Ne.symm (hbefore g' hg').ne) m]
          exact hafter g' hg' h
        · rintro ⟨-, hafter⟩ g' hg' h
          rw [reaction_fieldEvent lib e happ (Ne.symm (hbefore g' hg').ne)]
          exact hafter g' hg' h

/-- Only a field that is there reacts. -/
theorem mem_fields {m : Manager} {p : TouchPoint} {f : Field} (h : m.reaction p f ≠ .nothing) :
    f ∈ m.fields := by
  rw [fields, List.mem_append]
  cases f with
  | edit i =>
      refine Or.inl (List.mem_map.mpr ⟨i, ?_, rfl⟩)
      rw [List.mem_range]
      refine Nat.lt_of_not_le fun hle => h ?_
      rw [reaction, List.getElem?_eq_none hle]
      rfl
  | spin i =>
      refine Or.inr (List.mem_map.mpr ⟨i, ?_, rfl⟩)
      rw [List.mem_range]
      refine Nat.lt_of_not_le fun hle => h ?_
      rw [reaction, List.getElem?_eq_none hle]
      rfl

variable {app} in
/-- Where callbacks leave the widgets, all can be seen before the press: the field opens the
keyboard, and no field after it reacts. -/
theorem openOn_iff_of_quiet (happ : ∀ c, app c = []) {m : Manager} (hm : m.blocked = false)
    (he : e.event = .press) (f : Field) :
    (m.handleEvent lib app e).OpenOn lib f ↔
      m.reaction e.point f = .opens ∧ ∀ g, f.Before g → m.reaction e.point g = .nothing := by
  have hsame := sameFields_beforeFields e happ m
  rw [openOn_iff lib app e hm he, takes_iff lib e happ (sorted_fields m)]
  simp only [hsame.reaction]
  constructor
  · rintro ⟨-, hopens, hafter⟩
    refine ⟨hopens, fun g h => Classical.byContradiction fun hreacts => ?_⟩
    exact hreacts (hafter g (mem_fields hreacts) h)
  · rintro ⟨hopens, hafter⟩
    refine ⟨mem_fields (p := e.point) ?_, hopens, fun g _ h => hafter g h⟩
    rw [hopens]
    exact nofun

end Manager

/-! ## A form of the application -/

namespace Ui

/-- The spin box `speed`. -/
def speed : SpinBoxWidget :=
  { x := 50, y := 320, w := 250, h := 60, type := .int, value := 60, maxVal := 200, step := 5 }

/-- The fields `name`, `port` and `speed`. -/
def form : Ui :=
  { manager :=
      { edits :=
          [⟨"name", { x := 50, y := 100, w := 400, h := 50 }⟩,
            ⟨"port", { x := 50, y := 240, w := 200, h := 50, numericOnly := true }⟩]
        spins := [⟨"speed", speed⟩]
        keyboard := { x := 0, y := 400, w := 1280, h := 320 } } }

/-- A press of the finger into `name`. -/
def pressName : TouchEventData := ⟨.press, ⟨1, 100, 120, 5, true⟩, 0, 0, 0⟩

/-- The first press into `name`. -/
theorem openOn_form :
    (form.manager.handleEvent noNumbers (fun _ => []) pressName).OpenOn noNumbers (.edit 0) :=
  (Manager.openOn_iff noNumbers (fun _ => []) pressName (by decide) rfl (.edit 0)).mpr
    (by decide)

/-- A point is in the box of a visible field. -/
def inBox (m : Manager) (p : TouchPoint) : Field → Bool
  | .edit i => m.edits[i]?.any fun en => en.widget.visibleWidget && en.widget.hitTest p
  | .spin i => m.spins[i]?.any fun en => en.widget.visibleWidget && en.widget.hitValueBox p

/-- A point is in the box of one field, and in no other visible widget. -/
def inOnly (m : Manager) (p : TouchPoint) (f : Field) : Bool :=
  inBox m p f && (m.fields.all fun g => g = f || !inBox m p g) &&
    (m.spins.all fun en =>
      !(en.widget.visibleWidget && (en.widget.hitPlus p || en.widget.hitMinus p))) &&
    (m.buttons.all fun en => !(en.widget.visibleWidget && en.widget.hitTest p)) &&
    (m.sliders.all fun en => !(en.widget.visibleWidget && en.widget.trackHitTest p)) &&
    (m.dials.all fun en => !(en.widget.visibleWidget && en.widget.hitTest p)) &&
    m.combos.all fun en =>
      !(en.widget.visibleWidget && (en.widget.isOpen || en.widget.hitTestHeader p))

/-- A tap, a press and its release. -/
def tap (x y : UInt16) : List UiEvent :=
  [touchAt .press x y fun _ => [], touchAt .release x y fun _ => []]

/-- Taps on `name`, and on the key OK of the letters. -/
def nameDone : List UiEvent := tap 100 120 ++ tap 1150 550

/-- Taps on `port`, and on the key OK of the numbers. -/
def portDone : List UiEvent := tap 100 260 ++ tap 1000 660

/-- Whether a press into `name` finds all ready, and whether it shows the keyboard. -/
def beforeAndAfter (s : Ui) : Bool × Bool × Bool :=
  (s.manager.blocked, inOnly s.manager pressName.point (.edit 0),
    (s.manager.handleEvent noNumbers (fun _ => []) pressName).keyboard.visible)

theorem run_nameDone : (run (step noNumbers) form nameDone).map beforeAndAfter =
    some (false, true, false) := by
  decide

theorem run_portDone : (run (step noNumbers) form portDone).map beforeAndAfter =
    some (false, true, false) := by
  decide

/-- After a run, a press into `name` that nothing else takes opens the keyboard on it. -/
def NameOpens (es : List UiEvent) : Prop :=
  ∀ t, run (step noNumbers) form es = some t → t.manager.blocked = false →
    inOnly t.manager pressName.point (.edit 0) = true →
    (t.manager.handleEvent noNumbers (fun _ => []) pressName).OpenOn noNumbers (.edit 0)

theorem not_nameOpens {es : List UiEvent}
    (hes : (run (step noNumbers) form es).map beforeAndAfter = some (false, true, false)) :
    ¬ NameOpens es := by
  intro hopens
  obtain ⟨t, hrun, hseen⟩ := Option.map_eq_some_iff.mp hes
  simp only [beforeAndAfter, Prod.mk.injEq] at hseen
  obtain ⟨hblocked, honly, hkeyboard⟩ := hseen
  have hvisible := (hopens t hrun hblocked honly).1.1
  rw [hkeyboard] at hvisible
  cases hvisible

/-- In two states that can be reached a press into `name` leaves the keyboard hidden: after OK
on `name` itself, and after OK on a field that the loop comes to later. -/
theorem not_openOn : ¬ NameOpens nameDone ∧ ¬ NameOpens portDone :=
  ⟨not_nameOpens run_nameDone, not_nameOpens run_portDone⟩

end Ui

end MFoES.Uisys
