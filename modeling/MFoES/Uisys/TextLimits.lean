import MFoES.Lib.Transition
import MFoES.Uisys.Manager

/-!
# The length of the texts

A text field has a maximum length.  `setText` cuts a text to it, and the keyboard, which is given
the length when a field binds it, stops writing when its buffer is that long.  The buffer goes to
the field after every key.

The keyboard looks at the length before a key and not at what the key writes.  All keys write one
character but one: the key 00 of the number pad.  So a field gets one character too many exactly
when that key is pressed with one place left (`Overfills`), and no text is ever too long exactly if
that does not happen (`texts_fit_iff`).

The steps here are the functions of the fields and of the keyboard, in any order.  What the manager
makes of a touch event is a run of them (`handleEvent_desk`), whatever callbacks do in between.
-/

namespace MFoES.Uisys

open MFoES.Touch Transition

/-! ## The steps -/

/-- `setText`. -/
def TextEditWidget.setText (t : TextEditWidget) (text : Text) : TextEditWidget :=
  { t with text := text.take t.maxLen }

/-- The text fields with their keyboard. -/
structure Desk where
  edits : List TextEditWidget
  keyboard : KeyboardWidget

/-- What happens to the fields and the keyboard. -/
inductive DeskOp
  | setText (i : Nat) (text : Text)
  | setVisible (i : Nat) (v : Bool)
  | focus (i : Nat)
  | unfocus (i : Nat)
  /-- A field gets a touch event. -/
  | editEvent (i : Nat) (e : TouchEventData)
  /-- The keyboard gets a touch event. -/
  | keyEvent (e : TouchEventData)
  /-- A number field binds the keyboard. -/
  | spinFocus (i : Nat) (text : Text)
  /-- A number field lets it go. -/
  | spinCommit

namespace Desk

/-- Change a field, and the keyboard with it. -/
def onEdit (d : Desk) (i : Nat)
    (f : TextEditWidget → KeyboardWidget → TextEditWidget × KeyboardWidget) : Desk :=
  match d.edits[i]? with
  | none => d
  | some t => { edits := d.edits.set i (f t d.keyboard).1, keyboard := (f t d.keyboard).2 }

/-- The text of a key comes to the text field that is bound. -/
def deliver (d : Desk) : KeyboardWidget.Delivery → Desk
  | some (.edit i, text) => { d with edits := d.edits.modify i fun t => { t with text := text } }
  | some (.spin _, _) => d
  | none => d

/-- A step. -/
def op (d : Desk) : DeskOp → Option Desk
  | .setText i text => some (d.onEdit i fun t kb => (t.setText text, kb))
  | .setVisible i v => some (d.onEdit i fun t kb => ({ t with visibleWidget := v }, kb))
  | .focus i => some (d.onEdit i fun t kb => t.focus i kb)
  | .unfocus i => some (d.onEdit i fun t kb => ((t.unfocus kb).1, (t.unfocus kb).2.1))
  | .editEvent i e =>
      some (d.onEdit i fun t kb => ((t.handleEvent i kb e).1, (t.handleEvent i kb e).2.1))
  | .keyEvent e =>
      some (match d.keyboard.handleEvent e with
        | none => d
        | some (kb, delivery) => { d with keyboard := kb }.deliver delivery)
  | .spinFocus i text => some { d with keyboard := d.keyboard.showFor (.spin i) 16 text true }
  | .spinCommit =>
      let kb := { d.keyboard with onChange := none }
      some { d with keyboard := if kb.visible then kb.hide else kb }

/-- No text is too long. -/
def Fits (d : Desk) : Prop := ∀ t ∈ d.edits, t.text.length ≤ t.maxLen

end Desk

namespace KeyboardWidget

/-- The key that an event presses. -/
def pressed (kb : KeyboardWidget) (e : TouchEventData) : Option Key :=
  if kb.visible && e.event = .press then (kb.hitTestKey e.point).bind fun i => kb.keys[i]?
  else none

/-- The key that writes two characters. -/
def isDoubleZero (k : Key) : Bool := k.label = ['0', '0'] && k.action = .none

end KeyboardWidget

/-- The key 00 is pressed for a field with one place left. -/
def Desk.Overfills (d : Desk) : DeskOp → Prop
  | .keyEvent e =>
      (d.keyboard.pressed e).any KeyboardWidget.isDoubleZero = true ∧
        ∃ i t, d.keyboard.onChange = some (.edit i) ∧ d.edits[i]? = some t ∧
          d.keyboard.internalBuf.length + 1 = t.maxLen
  | _ => False

/-! ## Keys -/

/-- A key writes one character, or it is the key 00. -/
def Key.Plain (k : Key) : Prop :=
  k.action = .none → (k.label.length = 1 ∧ k.shifted.length ≤ 1) ∨
    (k.label = ['0', '0'] ∧ k.shifted = [])

namespace KeyboardWidget

variable {kb : KeyboardWidget} {k : Key}

theorem plain_of_action (h : k.action ≠ .none) : k.Plain := fun hk => absurd hk h

theorem plain_keyRow {labels shifted : Text} {x y kw kh pad : Int}
    (h : k ∈ keyRow labels shifted x y kw kh pad) : k.Plain := by
  obtain ⟨⟨⟨label, shift⟩, i⟩, -, rfl⟩ := List.mem_map.mp h
  exact fun _ => .inl ⟨rfl, Nat.le_refl 1⟩

/-- The keys of both layouts are plain. -/
theorem plain_rebuildLayout (h : k ∈ kb.rebuildLayout.keys) : k.Plain := by
  rw [rebuildLayout] at h
  dsimp only at h
  split_ifs at h
  · obtain ⟨⟨⟨label, action⟩, i⟩, hi, rfl⟩ := List.mem_map.mp h
    have hmem : (label, action) ∈ numpadKeys := List.fst_mem_of_mem_zipIdx hi
    have hall : ∀ q ∈ numpadKeys, q.2 = .none → q.1.length = 1 ∨ q.1 = ['0', '0'] := by decide
    intro haction
    exact (hall _ hmem haction).imp (fun hone => ⟨hone, Nat.zero_le 1⟩) fun hzero => ⟨hzero, rfl⟩
  · simp only [buildQWERTY, List.mem_append, List.mem_cons, List.not_mem_nil, or_false] at h
    rcases h with (((((((h | rfl) | h) | h) | rfl) | rfl) | h) | h) | rfl | rfl | rfl | rfl
    all_goals
      first
      | exact plain_keyRow h
      | exact plain_of_action (fun h => KeyAction.noConfusion h)
      | exact fun _ => .inl ⟨rfl, Nat.zero_le 1⟩

/-- What a plain key writes. -/
theorem length_written (hk : k.Plain) (haction : k.action = .none) :
    (kb.written k).length = if isDoubleZero k then 2 else 1 := by
  rcases hk haction with ⟨hlabel, hshifted⟩ | ⟨hlabel, hshifted⟩
  · have hnot : isDoubleZero k = false := by
      rw [isDoubleZero, Bool.and_eq_false_iff]
      refine .inl (decide_eq_false fun h => ?_)
      rw [h] at hlabel
      exact absurd hlabel (by decide)
    rw [hnot, written]
    cases hs : k.shifted with
    | nil => simp [hlabel]
    | cons c rest =>
        rw [hs, List.length_cons] at hshifted
        split
        · simp only [List.length_cons, Bool.false_eq_true, if_false]
          omega
        · simpa using hlabel
  · have hyes : isDoubleZero k = true := by
      rw [isDoubleZero, hlabel, haction]
      rfl
    rw [hyes, written, hshifted]
    simp [hlabel]

/-- The buffer after a key. -/
def typed (kb : KeyboardWidget) (k : Key) : Text :=
  match k.action with
  | .bksp => kb.internalBuf.dropLast
  | .space => (kb.append [' ']).internalBuf
  | .none => (kb.append (kb.written k)).internalBuf
  | _ => kb.internalBuf

/-- What a key does to the keyboard, and what the field gets. -/
structure Processed (kb : KeyboardWidget) (k : Key) : Prop where
  internalBuf : (kb.processKey k).1.internalBuf = kb.typed k
  maxLen : (kb.processKey k).1.maxLen = kb.maxLen
  keys : (kb.processKey k).1.keys = kb.keys ∨
    ∃ other : KeyboardWidget, (kb.processKey k).1.keys = other.rebuildLayout.keys
  onChange : (kb.processKey k).1.onChange = kb.onChange ∨ (kb.processKey k).1.onChange = none
  delivery : (kb.processKey k).2 = kb.onChange.map (fun f => (f, kb.typed k)) ∨
    (kb.processKey k).2 = none ∧ kb.typed k = kb.internalBuf

theorem processKey_spec (kb : KeyboardWidget) (k : Key) : Processed kb k := by
  cases haction : k.action with
  | bksp =>
      constructor <;> simp [processKey, typed, haction, fireChange]
  | enter =>
      constructor <;> simp [processKey, typed, haction, fireChange, hide]
  | close =>
      constructor <;> simp [processKey, typed, haction, hide]
  | shift =>
      constructor <;> simp [processKey, typed, haction]
  | caps =>
      constructor <;> simp [processKey, typed, haction]
  | num =>
      refine ⟨?_, ?_, .inr ⟨{ kb with numericMode := !kb.numericMode }, ?_⟩, ?_, ?_⟩
      all_goals simp [processKey, typed, haction, rebuildLayout]
  | space =>
      constructor <;> simp [processKey, typed, haction, fireChange, append]
  | none =>
      constructor <;> simp [processKey, typed, haction, fireChange, append, written]

/-- A buffer gets too long exactly by the key 00 with one place left. -/
theorem length_typed_le_iff (hk : k.Plain) (hbuf : kb.internalBuf.length ≤ kb.maxLen) :
    (kb.typed k).length ≤ kb.maxLen ↔
      ¬ (isDoubleZero k = true ∧ kb.internalBuf.length + 1 = kb.maxLen) := by
  have hother : k.action ≠ .none → isDoubleZero k = false := fun h => by
    rw [isDoubleZero, decide_eq_false h, Bool.and_false]
  cases haction : k.action with
  | none =>
      have hlen : (kb.written k).length = if isDoubleZero k then 2 else 1 :=
        length_written hk haction
      simp only [typed, haction, append]
      split_ifs with hroom
      · rw [List.length_append, hlen]
        cases hzero : isDoubleZero k with
        | false =>
            rw [if_neg Bool.false_ne_true]
            exact iff_of_true hroom fun h => Bool.false_ne_true h.1
        | true =>
            rw [if_pos rfl, and_iff_right rfl]
            omega
      · exact iff_of_true hbuf fun h => by omega
  | space =>
      rw [hother (by rw [haction]; decide)]
      simp only [typed, haction, append]
      split_ifs with hroom
      · rw [List.length_append]
        exact iff_of_true hroom (by simp)
      · exact iff_of_true hbuf (by simp)
  | bksp =>
      rw [hother (by rw [haction]; decide)]
      simp only [typed, haction, List.length_dropLast]
      exact iff_of_true (by omega) (by simp)
  | _ =>
      rw [hother (by rw [haction]; decide)]
      simp only [typed, haction]
      exact iff_of_true hbuf (by simp)

end KeyboardWidget

/-! ## One step -/

namespace Desk

/-- The keyboard has the length of the field that is bound, and its buffer is no longer. -/
structure Inv (d : Desk) : Prop where
  plain : ∀ k ∈ d.keyboard.keys, k.Plain
  bound : ∀ i t, d.keyboard.onChange = some (.edit i) → d.edits[i]? = some t →
    d.keyboard.maxLen = t.maxLen ∧ d.keyboard.internalBuf.length ≤ t.maxLen

variable {d : Desk}

theorem onEdit_of_none {i : Nat} (h : d.edits[i]? = none)
    (f : TextEditWidget → KeyboardWidget → TextEditWidget × KeyboardWidget) :
    d.onEdit i f = d := by
  rw [onEdit, h]

theorem onEdit_of_some {i : Nat} {t : TextEditWidget} (h : d.edits[i]? = some t)
    (f : TextEditWidget → KeyboardWidget → TextEditWidget × KeyboardWidget) :
    d.onEdit i f = ⟨d.edits.set i (f t d.keyboard).1, (f t d.keyboard).2⟩ := by
  rw [onEdit, h]

/-- A step on a field: its text fits and its length stays, and the keyboard is as before, hidden,
or bound to the field. -/
structure EditStep (i : Nat)
    (f : TextEditWidget → KeyboardWidget → TextEditWidget × KeyboardWidget) : Prop where
  text : ∀ t kb, t.text.length ≤ t.maxLen → (f t kb).1.text.length ≤ (f t kb).1.maxLen
  maxLen : ∀ t kb, (f t kb).1.maxLen = t.maxLen
  keyboard : ∀ t kb, (f t kb).2 = kb ∨ (f t kb).2 = kb.hide ∨
    (f t kb).2 = kb.showFor (.edit i) t.maxLen t.text t.numericOnly

theorem fits_onEdit {i : Nat}
    {f : TextEditWidget → KeyboardWidget → TextEditWidget × KeyboardWidget} (hf : EditStep i f)
    (hfits : d.Fits) : (d.onEdit i f).Fits := by
  cases ht : d.edits[i]? with
  | none =>
      rw [onEdit_of_none ht]
      exact hfits
  | some t =>
      rw [onEdit_of_some ht]
      intro u hu
      rcases List.mem_or_eq_of_mem_set hu with hold | rfl
      · exact hfits u hold
      · exact hf.text t d.keyboard (hfits t (List.mem_of_getElem? ht))

theorem Inv.onEdit (h : d.Inv) {i : Nat}
    {f : TextEditWidget → KeyboardWidget → TextEditWidget × KeyboardWidget} (hf : EditStep i f)
    (hfits : d.Fits) : (d.onEdit i f).Inv := by
  cases ht : d.edits[i]? with
  | none =>
      rw [onEdit_of_none ht]
      exact h
  | some t =>
      rw [onEdit_of_some ht]
      -- a field of the new list has the length that it had
      have hsame : ∀ {j : Nat} {u : TextEditWidget},
          (d.edits.set i (f t d.keyboard).1)[j]? = some u →
          ∃ u' : TextEditWidget, d.edits[j]? = some u' ∧ u'.maxLen = u.maxLen := by
        intro j u hu
        rcases eq_or_ne i j with rfl | hne
        · rw [List.getElem?_set_self (List.getElem?_eq_some_iff.mp ht).1] at hu
          cases hu
          exact ⟨t, ht, (hf.maxLen t d.keyboard).symm⟩
        · rw [List.getElem?_set_ne hne] at hu
          exact ⟨u, hu, rfl⟩
      rcases hf.keyboard t d.keyboard with hkb | hkb | hkb
      · rw [hkb]
        refine ⟨h.plain, fun j u hj hu => ?_⟩
        obtain ⟨u', hu', hlen⟩ := hsame hu
        rw [← hlen]
        exact h.bound j u' hj hu'
      · rw [hkb]
        exact ⟨h.plain, fun j u hj hu => by cases hj⟩
      · rw [hkb]
        refine ⟨fun k hk => KeyboardWidget.plain_rebuildLayout hk, fun j u hj hu => ?_⟩
        obtain ⟨u', hu', hlen⟩ := hsame hu
        cases hj
        rw [ht] at hu'
        cases hu'
        rw [← hlen]
        exact ⟨rfl, hfits t (List.mem_of_getElem? ht)⟩

theorem editStep_setText (i : Nat) (text : Text) :
    EditStep i fun t kb => (t.setText text, kb) where
  text _ _ _ := List.length_take_le _ _
  maxLen _ _ := rfl
  keyboard _ _ := .inl rfl

theorem editStep_setVisible (i : Nat) (v : Bool) :
    EditStep i fun t kb => ({ t with visibleWidget := v }, kb) where
  text _ _ h := h
  maxLen _ _ := rfl
  keyboard _ _ := .inl rfl

theorem editStep_focus (i : Nat) : EditStep i fun t kb => t.focus i kb where
  text _ _ h := h
  maxLen _ _ := rfl
  keyboard _ _ := .inr (.inr rfl)

theorem unfocus_cases (t : TextEditWidget) (kb : KeyboardWidget) :
    (t.unfocus kb).1.text = t.text ∧ (t.unfocus kb).1.maxLen = t.maxLen ∧
      ((t.unfocus kb).2.1 = kb ∨ (t.unfocus kb).2.1 = kb.hide) := by
  rw [TextEditWidget.unfocus]
  split_ifs
  · exact ⟨rfl, rfl, .inr rfl⟩
  · exact ⟨rfl, rfl, .inl rfl⟩
  · exact ⟨rfl, rfl, .inl rfl⟩

theorem editStep_unfocus (i : Nat) :
    EditStep i fun t kb => ((t.unfocus kb).1, (t.unfocus kb).2.1) where
  text t kb h := by
    obtain ⟨htext, hlen, -⟩ := unfocus_cases t kb
    rw [htext, hlen]
    exact h
  maxLen t kb := (unfocus_cases t kb).2.1
  keyboard t kb := (unfocus_cases t kb).2.2.imp_right .inl

theorem editStep_handleEvent (i : Nat) (e : TouchEventData) :
    EditStep i fun t kb => ((t.handleEvent i kb e).1, (t.handleEvent i kb e).2.1) := by
  have hcases : ∀ (t : TextEditWidget) (kb : KeyboardWidget),
      ((t.handleEvent i kb e).1, (t.handleEvent i kb e).2.1) = (t, kb) ∨
      ((t.handleEvent i kb e).1, (t.handleEvent i kb e).2.1) = t.focus i kb ∨
      ((t.handleEvent i kb e).1, (t.handleEvent i kb e).2.1) =
        ((t.unfocus kb).1, (t.unfocus kb).2.1) := by
    intro t kb
    rw [TextEditWidget.handleEvent]
    split_ifs
    · exact .inl rfl
    · exact .inr (.inl rfl)
    · exact .inr (.inr rfl)
    · exact .inl rfl
  constructor
  · intro t kb h
    rcases hcases t kb with hc | hc | hc
    · rw [hc]
      exact h
    · rw [hc]
      exact (editStep_focus i).text t kb h
    · rw [hc]
      exact (editStep_unfocus i).text t kb h
  · intro t kb
    rcases hcases t kb with hc | hc | hc
    · rw [hc]
    · rw [hc]
      exact (editStep_focus i).maxLen t kb
    · rw [hc]
      exact (editStep_unfocus i).maxLen t kb
  · intro t kb
    rcases hcases t kb with hc | hc | hc
    · rw [hc]
      exact .inl rfl
    · rw [hc]
      exact (editStep_focus i).keyboard t kb
    · rw [hc]
      exact (editStep_unfocus i).keyboard t kb

/-- An event that presses no key leaves the texts, and what matters of the keyboard. -/
theorem keyEvent_of_none {e : TouchEventData} (h : d.keyboard.pressed e = none) :
    ∃ kb : KeyboardWidget, d.op (.keyEvent e) = some { d with keyboard := kb } ∧
      kb.internalBuf = d.keyboard.internalBuf ∧ kb.maxLen = d.keyboard.maxLen ∧
      kb.keys = d.keyboard.keys ∧ kb.onChange = d.keyboard.onChange := by
  rw [KeyboardWidget.pressed] at h
  cases hvisible : d.keyboard.visible with
  | false =>
      refine ⟨d.keyboard, ?_, rfl, rfl, rfl, rfl⟩
      simp only [op, KeyboardWidget.handleEvent, hvisible, Bool.false_eq_true, if_false]
  | true =>
      cases hevent : e.event with
      | press =>
          simp only [hvisible, hevent, Bool.true_and, decide_true, if_true] at h
          refine ⟨{ d.keyboard with pressedKeyIdx := d.keyboard.hitTestKey e.point }, ?_,
            rfl, rfl, rfl, rfl⟩
          simp only [op, KeyboardWidget.handleEvent, hvisible, hevent, if_true, h, deliver]
      | release =>
          refine ⟨{ d.keyboard with pressedKeyIdx := none }, ?_, rfl, rfl, rfl, rfl⟩
          simp only [op, KeyboardWidget.handleEvent, hvisible, hevent, if_true, deliver]
      | move =>
          refine ⟨d.keyboard, ?_, rfl, rfl, rfl, rfl⟩
          simp only [op, KeyboardWidget.handleEvent, hvisible, hevent, if_true, deliver]
      | hold =>
          refine ⟨d.keyboard, ?_, rfl, rfl, rfl, rfl⟩
          simp only [op, KeyboardWidget.handleEvent, hvisible, hevent, if_true, deliver]

/-- An event that presses a key is what the key does. -/
theorem keyEvent_of_some {e : TouchEventData} {k : Key} (h : d.keyboard.pressed e = some k) :
    k ∈ d.keyboard.keys ∧ ∃ idx, d.op (.keyEvent e) =
      some ({ d with
        keyboard := ({ d.keyboard with pressedKeyIdx := idx }.processKey k).1 }.deliver
          ({ d.keyboard with pressedKeyIdx := idx }.processKey k).2) := by
  rw [KeyboardWidget.pressed] at h
  split_ifs at h with hpress
  rw [Bool.and_eq_true, decide_eq_true_eq] at hpress
  obtain ⟨i, -, hi⟩ := Option.bind_eq_some_iff.mp h
  refine ⟨List.mem_of_getElem? hi, d.keyboard.hitTestKey e.point, ?_⟩
  simp only [op, KeyboardWidget.handleEvent, hpress.1, hpress.2, if_true, h]

@[simp] theorem keyboard_deliver (d : Desk) (x : KeyboardWidget.Delivery) :
    (d.deliver x).keyboard = d.keyboard := by
  rcases x with _ | ⟨_ | _, _⟩ <;> rfl

/-- What a delivery leaves. -/
theorem deliver_fits_iff (hfits : d.Fits) {i : Nat} {text : Text} :
    (d.deliver (some (.edit i, text))).Fits ↔
      ∀ t, d.edits[i]? = some t → text.length ≤ t.maxLen := by
  constructor
  · intro h t ht
    refine h { t with text := text } (List.mem_of_getElem? (i := i) ?_)
    rw [deliver, List.getElem?_modify_eq, ht]
    rfl
  · intro h u hu
    obtain ⟨j, hj⟩ := List.mem_iff_getElem?.mp hu
    rw [deliver, List.getElem?_modify] at hj
    split_ifs at hj with hij
    · obtain ⟨t, ht, rfl⟩ := Option.map_eq_some_iff.mp hj
      exact h t (hij ▸ ht)
    · obtain ⟨t, ht, rfl⟩ := Option.map_eq_some_iff.mp hj
      exact hfits _ (List.mem_of_getElem? ht)

/-- What a key writes fits into the bound field exactly unless it is the key 00 with one place
left. -/
theorem Inv.typed_fits_iff (h : d.Inv) {k : Key} (hplain : k.Plain) {j : Nat}
    (hfield : d.keyboard.onChange = some (.edit j)) :
    (∀ u, d.edits[j]? = some u → (d.keyboard.typed k).length ≤ u.maxLen) ↔
      ¬ (KeyboardWidget.isDoubleZero k = true ∧ ∃ i u,
        some (Field.edit j) = some (.edit i) ∧ d.edits[i]? = some u ∧
          d.keyboard.internalBuf.length + 1 = u.maxLen) := by
  constructor
  · rintro hall ⟨hzero, i, u, hi, hu, hlen⟩
    cases hi
    obtain ⟨hmax, hbuf⟩ := h.bound j u hfield hu
    have hle := hall u hu
    rw [← hmax, KeyboardWidget.length_typed_le_iff hplain (by omega)] at hle
    exact hle ⟨hzero, by omega⟩
  · intro hnot u hu
    obtain ⟨hmax, hbuf⟩ := h.bound j u hfield hu
    rw [← hmax, KeyboardWidget.length_typed_le_iff hplain (by omega)]
    exact fun hbad => hnot ⟨hbad.1, j, u, rfl, hu, by omega⟩

/-- A key leaves the texts short exactly unless it overfills. -/
theorem keyEvent_fits_iff (h : d.Inv) (hfits : d.Fits) {e : TouchEventData} {t : Desk}
    (hop : d.op (.keyEvent e) = some t) : t.Fits ↔ ¬ d.Overfills (.keyEvent e) := by
  cases hk : d.keyboard.pressed e with
  | none =>
      obtain ⟨kb, hkb, -⟩ := keyEvent_of_none hk
      rw [hkb] at hop
      cases hop
      refine iff_of_true hfits ?_
      rw [Overfills, hk]
      exact fun hbad => Bool.false_ne_true hbad.1
  | some k =>
      obtain ⟨hmem, idx, hkb⟩ := keyEvent_of_some hk
      rw [hkb] at hop
      cases hop
      have hspec := KeyboardWidget.processKey_spec { d.keyboard with pressedKeyIdx := idx } k
      have htyped : ({ d.keyboard with pressedKeyIdx := idx } : KeyboardWidget).typed k =
          d.keyboard.typed k := rfl
      have hplain := h.plain k hmem
      rw [Overfills, hk, Option.any_some]
      cases hfield : d.keyboard.onChange with
      | none =>
          have hnone : ({ d.keyboard with pressedKeyIdx := idx }.processKey k).2 = none := by
            rcases hspec.delivery with hd | ⟨hd, -⟩
            · rw [hd, hfield]
              rfl
            · exact hd
          rw [hnone]
          exact iff_of_true hfits fun ⟨_, _, _, hi, _⟩ => by cases hi
      | some field =>
          cases field with
          | spin j =>
              refine iff_of_true ?_ fun ⟨_, _, _, hi, _⟩ => by cases hi
              rcases hspec.delivery with hd | ⟨hd, -⟩
              · rw [hd, hfield]
                exact hfits
              · rw [hd]
                exact hfits
          | edit j =>
              have hiff := h.typed_fits_iff hplain hfield
              rcases hspec.delivery with hd | ⟨hd, hsame⟩
              · rw [hd, hfield, htyped, ← hiff]
                exact deliver_fits_iff hfits
              · rw [hd, ← hiff]
                refine iff_of_true hfits fun u hu => ?_
                rw [← htyped, hsame]
                exact (h.bound j u hfield hu).2

/-- A step leaves the texts short exactly unless it overfills. -/
theorem op_fits_iff (h : d.Inv) (hfits : d.Fits) {o : DeskOp} :
    (∀ t, d.op o = some t → t.Fits) ↔ ¬ d.Overfills o := by
  have honly : ∀ {s : Desk}, s.Fits → ((∀ t, some s = some t → t.Fits) ↔ ¬ False) := fun hs =>
    iff_of_true (fun _ ht => Option.some.inj ht ▸ hs) not_false
  cases o with
  | setText i text => exact honly (fits_onEdit (editStep_setText i text) hfits)
  | setVisible i v => exact honly (fits_onEdit (editStep_setVisible i v) hfits)
  | focus i => exact honly (fits_onEdit (editStep_focus i) hfits)
  | unfocus i => exact honly (fits_onEdit (editStep_unfocus i) hfits)
  | editEvent i e => exact honly (fits_onEdit (editStep_handleEvent i e) hfits)
  | keyEvent e =>
      constructor
      · exact fun hall => (keyEvent_fits_iff h hfits rfl).mp (hall _ rfl)
      · exact fun hnot t ht => (keyEvent_fits_iff h hfits ht).mpr hnot
  | spinFocus i text => exact honly hfits
  | spinCommit => exact honly hfits

/-- A key keeps the invariant, where it leaves the texts short. -/
theorem Inv.keyEvent (h : d.Inv) {e : TouchEventData} {t : Desk}
    (hop : d.op (.keyEvent e) = some t) (ht : t.Fits) : t.Inv := by
  cases hk : d.keyboard.pressed e with
  | none =>
      obtain ⟨kb, hkb, hbuf, hmax, hkeys, hfield⟩ := keyEvent_of_none hk
      rw [hkb] at hop
      cases hop
      refine ⟨?_, ?_⟩
      · rw [hkeys]
        exact h.plain
      · rw [hfield, hbuf, hmax]
        exact h.bound
  | some k =>
      obtain ⟨-, idx, hkb⟩ := keyEvent_of_some hk
      rw [hkb] at hop
      cases hop
      have hspec := KeyboardWidget.processKey_spec { d.keyboard with pressedKeyIdx := idx } k
      have htyped : ({ d.keyboard with pressedKeyIdx := idx } : KeyboardWidget).typed k =
          d.keyboard.typed k := rfl
      have hplain : ∀ q ∈ ({ d.keyboard with pressedKeyIdx := idx }.processKey k).1.keys,
          q.Plain := by
        rcases hspec.keys with hkeys | ⟨other, hkeys⟩
        · rw [hkeys]
          exact h.plain
        · rw [hkeys]
          exact fun q hq => KeyboardWidget.plain_rebuildLayout hq
      refine ⟨by rw [keyboard_deliver]; exact hplain, fun j u hj hu => ?_⟩
      rw [keyboard_deliver] at hj ⊢
      rcases hspec.onChange with hfield | hfield
      · rw [hspec.maxLen, hspec.internalBuf, htyped]
        have hold : d.keyboard.onChange = some (.edit j) := hfield.symm.trans hj
        rcases hspec.delivery with hd | ⟨hd, hsame⟩
        · -- the field that is bound has the buffer for its text now
          rw [hd, show KeyboardWidget.onChange _ = some (Field.edit j) from hold] at hu ht
          rw [Option.map_some, deliver, List.getElem?_modify_eq] at hu
          obtain ⟨u', hu', rfl⟩ := Option.map_eq_some_iff.mp hu
          refine ⟨(h.bound j u' hold hu').1, ?_⟩
          refine ht { u' with text := d.keyboard.typed k } (List.mem_of_getElem? (i := j) ?_)
          rw [Option.map_some, deliver, List.getElem?_modify_eq]
          exact hu
        · rw [hd] at hu
          rw [← htyped, hsame]
          exact h.bound j u hold hu
      · rw [hfield] at hj
        cases hj

/-- A step keeps the invariant, where it leaves the texts short. -/
theorem Inv.op (h : d.Inv) (hfits : d.Fits) {o : DeskOp} {t : Desk} (hop : d.op o = some t)
    (ht : t.Fits) : t.Inv := by
  cases o with
  | setText i text => exact Option.some.inj hop ▸ h.onEdit (editStep_setText i text) hfits
  | setVisible i v => exact Option.some.inj hop ▸ h.onEdit (editStep_setVisible i v) hfits
  | focus i => exact Option.some.inj hop ▸ h.onEdit (editStep_focus i) hfits
  | unfocus i => exact Option.some.inj hop ▸ h.onEdit (editStep_unfocus i) hfits
  | editEvent i e => exact Option.some.inj hop ▸ h.onEdit (editStep_handleEvent i e) hfits
  | keyEvent e => exact h.keyEvent hop ht
  | spinFocus i text =>
      cases hop
      exact ⟨fun k hk => KeyboardWidget.plain_rebuildLayout hk, fun j u hj => by cases hj⟩
  | spinCommit =>
      simp only [Desk.op] at hop
      cases hop
      split_ifs
      · exact ⟨h.plain, fun j u hj => by cases hj⟩
      · exact ⟨h.plain, fun j u hj => by cases hj⟩

/-! ## Every run -/

/-- New fields, with their keyboard. -/
def start (edits : List TextEditWidget) (x y w h : Int) : Desk :=
  { edits := edits.map fun t => { t with text := [], focused := false }
    keyboard := { x := x, y := y, w := w, h := h : KeyboardWidget }.rebuildLayout }

theorem inv_start (edits : List TextEditWidget) (x y w h : Int) : (start edits x y w h).Inv where
  plain _ hk := KeyboardWidget.plain_rebuildLayout hk
  bound _ _ hfield _ := by cases hfield

/-- All along a run from new fields no text is too long, exactly if the key 00 is never pressed
for a field with one place left. -/
theorem texts_fit_iff (edits : List TextEditWidget) (x y w h : Int) (ops : List DeskOp) :
    Always op Fits (start edits x y w h) ops ↔
      Throughout op (fun d o => ¬ d.Overfills o) (start edits x y w h) ops := by
  have hstart : (start edits x y w h).Fits := by
    intro t ht
    obtain ⟨u, -, rfl⟩ := List.mem_map.mp ht
    exact Nat.zero_le _
  rw [always_iff (I := Inv) (fun hi hfits hstep ht => hi.op hfits hstep ht)
    (fun hi hfits => op_fits_iff hi hfits) (inv_start edits x y w h)]
  exact and_iff_right hstart

/-! ## The manager's steps -/

/-- The one desk can become the other one. -/
def Becomes (d d' : Desk) : Prop := ∃ ops, run op d ops = some d'

theorem Becomes.refl (d : Desk) : d.Becomes d := ⟨[], rfl⟩

theorem Becomes.trans {d d' d'' : Desk} (h : d.Becomes d') (h' : d'.Becomes d'') :
    d.Becomes d'' := by
  obtain ⟨ops, hrun⟩ := h
  obtain ⟨ops', hrun'⟩ := h'
  exact ⟨ops ++ ops', run_trans hrun hrun'⟩

theorem Becomes.of_op {d d' : Desk} {o : DeskOp} (h : d.op o = some d') : d.Becomes d' :=
  ⟨[o], by rw [run_cons h, run_nil]⟩

/-- A change of one field that leaves the keyboard. -/
theorem onEdit_modify (d : Desk) (i : Nat) (f : TextEditWidget → TextEditWidget) :
    d.onEdit i (fun t kb => (f t, kb)) = { d with edits := d.edits.modify i f } := by
  cases ht : d.edits[i]? with
  | none =>
      rw [onEdit_of_none ht, List.modify_eq_self (List.getElem?_eq_none_iff.mp ht)]
  | some t =>
      have hi := (List.getElem?_eq_some_iff.mp ht).1
      have hset : d.edits.set i (f t) = d.edits.modify i f := by
        refine List.ext_getElem? fun j => ?_
        rcases eq_or_ne i j with rfl | hne
        · rw [List.getElem?_set_self hi, List.getElem?_modify_eq, ht]
          rfl
        · rw [List.getElem?_set_ne hne, List.getElem?_modify_ne f _ hne]
      rw [onEdit_of_some ht, hset]

end Desk

namespace Manager

open Desk

/-- The text fields of a manager, with its keyboard. -/
def desk (m : Manager) : Desk := { edits := m.edits.map Entry.widget, keyboard := m.keyboard }

theorem map_modify_widget {ω : Type} (f : ω → ω) (entries : List (Entry ω)) (i : Nat) :
    (entries.modify i (Entry.map f)).map Entry.widget =
      (entries.map Entry.widget).modify i f := by
  refine List.ext_getElem? fun j => ?_
  rcases eq_or_ne i j with rfl | hne
  · rw [List.getElem?_map, List.getElem?_modify_eq, List.getElem?_modify_eq, List.getElem?_map]
    cases entries[i]? with
    | none => rfl
    | some en => rfl
  · rw [List.getElem?_map, List.getElem?_modify_ne _ _ hne, List.getElem?_modify_ne _ _ hne,
      List.getElem?_map]

theorem setVisible_desk (m : Manager) (id : String) (v : Bool) :
    m.desk.Becomes (m.setVisible id v).desk := by
  rw [setVisible]
  split
  · exact Becomes.refl _
  split
  · exact Becomes.refl _
  split
  · exact Becomes.refl _
  split
  · exact Becomes.refl _
  split
  · rename_i edits hedits
    obtain ⟨i, -, rfl⟩ := Option.map_eq_some_iff.mp hedits
    refine Becomes.of_op (o := .setVisible i v) ?_
    rw [op, onEdit_modify]
    exact congrArg (fun edits => some (Desk.mk edits m.keyboard)) (map_modify_widget _ _ i).symm
  split
  · exact Becomes.refl _
  · exact Becomes.refl _

theorem act_desk (m : Manager) (a : Action) : m.desk.Becomes (m.act a).desk := by
  cases a with
  | setVisible id v => exact setVisible_desk m id v
  | _ => exact Becomes.refl _

theorem acts_desk (acts : List Action) (m : Manager) :
    m.desk.Becomes (acts.foldl act m).desk := by
  induction acts generalizing m with
  | nil => exact Becomes.refl _
  | cons a acts ih => exact (act_desk m a).trans (ih _)

variable (lib : NumberText) (app : Call → List Action) (e : TouchEventData)

theorem callAll_desk (cs : List Call) (m : Manager) : m.desk.Becomes (m.callAll app cs).desk := by
  induction cs generalizing m with
  | nil => exact Becomes.refl _
  | cons c cs ih => exact (acts_desk (app c) { m with calls := m.calls ++ [c] }).trans (ih _)

/-- Calls after a change of other widgets. -/
theorem callAll_others {m m' : Manager} (h : m'.desk = m.desk) (cs : List Call) :
    m.desk.Becomes (m'.callAll app cs).desk := h ▸ callAll_desk app cs m'

theorem foldl_desk {f : Manager → Nat → Manager}
    (hf : ∀ (m : Manager) (i : Nat), m.desk.Becomes (f m i).desk) (is : List Nat) (m : Manager) :
    m.desk.Becomes (is.foldl f m).desk := by
  induction is generalizing m with
  | nil => exact Becomes.refl _
  | cons i is ih => exact (hf m i).trans (ih _)

theorem editEvent_desk (m : Manager) (i : Nat) : m.desk.Becomes (m.editEvent app e i).desk := by
  cases hen : m.edits[i]? with
  | none =>
      rw [editEvent, hen]
      exact Becomes.refl _
  | some en =>
      have hedit : m.desk.edits[i]? = some en.widget := by
        rw [desk, List.getElem?_map, hen]
        rfl
      have hop : m.desk.op (.editEvent i e) = some (desk { m with
          edits := m.edits.set i { en with widget := (en.widget.handleEvent i m.keyboard e).1 }
          keyboard := (en.widget.handleEvent i m.keyboard e).2.1 }) := by
        have hset (t : TextEditWidget) : m.desk.edits.set i t =
            (m.edits.set i { en with widget := t }).map Entry.widget :=
          (List.map_set (f := Entry.widget) (l := m.edits) (a := { en with widget := t })).symm
        rw [op, onEdit_of_some hedit, hset]
        rfl
      rw [editEvent, hen]
      exact (Becomes.of_op hop).trans (callAll_desk app _ _)

/-- A number field leaves the keyboard, binds it or lets it go. -/
theorem spin_keyboard (s : SpinBoxWidget) (i : Nat) (kb : KeyboardWidget) :
    (s.handleEvent lib i kb e).2.1 = kb ∨
      (∃ text, (s.handleEvent lib i kb e).2.1 = kb.showFor (.spin i) 16 text true) ∨
        (s.handleEvent lib i kb e).2.1 = (s.commitEdit lib kb).2.1 := by
  unfold SpinBoxWidget.handleEvent
  cases s.visibleWidget with
  | false => exact .inl rfl
  | true =>
      cases e.event with
      | press =>
          cases s.hitPlus e.point with
          | true =>
              cases s.editing with
              | true => exact .inl rfl
              | false => exact .inl rfl
          | false =>
              cases s.hitMinus e.point with
              | true =>
                  cases s.editing with
                  | true => exact .inl rfl
                  | false => exact .inl rfl
              | false =>
                  cases s.hitValueBox e.point with
                  | true =>
                      cases s.editing with
                      | true => exact .inl rfl
                      | false => exact .inr (.inl ⟨_, rfl⟩)
                  | false =>
                      cases s.editing with
                      | true => exact .inr (.inr rfl)
                      | false => exact .inl rfl
      | _ => exact .inl rfl

theorem spinEvent_desk (m : Manager) (i : Nat) :
    m.desk.Becomes (m.spinEvent lib app e i).desk := by
  cases hen : m.spins[i]? with
  | none =>
      rw [spinEvent, hen]
      exact Becomes.refl _
  | some en =>
      have hkeyboard : m.desk.Becomes
          { m.desk with keyboard := (en.widget.handleEvent lib i m.keyboard e).2.1 } := by
        rcases spin_keyboard lib e en.widget i m.keyboard with hkb | ⟨text, hkb⟩ | hkb
        · rw [hkb]
          exact Becomes.refl _
        · rw [hkb]
          exact Becomes.of_op (o := .spinFocus i text) rfl
        · rw [hkb]
          exact Becomes.of_op (o := .spinCommit) rfl
      rw [spinEvent, hen]
      exact hkeyboard.trans (callAll_desk app
        ((en.widget.handleEvent lib i m.keyboard e).2.2.map (.spin i))
        { m with
          spins := m.spins.set i { en with widget := (en.widget.handleEvent lib i m.keyboard e).1 }
          keyboard := (en.widget.handleEvent lib i m.keyboard e).2.1 })

/-- The loops over the other widgets leave the fields and the keyboard to callbacks. -/
theorem widgetsEvent_desk (m : Manager) : m.desk.Becomes (m.widgetsEvent lib app e).desk := by
  rw [widgetsEvent]
  refine (foldl_desk ?_ _ m).trans ((foldl_desk ?_ _ _).trans ((foldl_desk ?_ _ _).trans
    ((foldl_desk ?_ _ _).trans ((foldl_desk ?_ _ _).trans (foldl_desk ?_ _ _)))))
  · intro m i
    rw [buttonEvent]
    split
    · exact Becomes.refl _
    · split
      exact callAll_others app (by rfl) _
  · intro m i
    rw [sliderEvent]
    split
    · exact Becomes.refl _
    · split
      exact callAll_others app (by rfl) _
  · intro m i
    rw [dialEvent]
    split
    · exact Becomes.refl _
    · split
      exact callAll_others app (by rfl) _
  · intro m i
    rw [comboEvent]
    split
    · exact Becomes.refl _
    · split
      exact callAll_others app (by rfl) _
  · exact editEvent_desk app e
  · exact spinEvent_desk lib app e

/-- What the manager makes of a touch event is a run of steps of the text fields and the
keyboard. -/
theorem handleEvent_desk (m : Manager) : m.desk.Becomes (m.handleEvent lib app e).desk := by
  rw [handleEvent]
  split
  · rename_i i _
    rw [dialogEvent]
    split
    · exact Becomes.refl _
    · split
      exact callAll_others app (by rfl) _
  · split
    · rename_i kb delivery hkb
      have hop : m.desk.op (.keyEvent e) =
          some ({ m.desk with keyboard := kb }.deliver delivery) := by
        rw [op, show m.desk.keyboard = m.keyboard from rfl, hkb]
      refine (Becomes.of_op hop).trans ?_
      rcases delivery with _ | ⟨i | i, text⟩
      · exact Becomes.refl _
      · refine Becomes.trans ?_ (callAll_desk app _ _)
        rw [Desk.deliver, desk, desk, map_modify_widget]
        exact Becomes.refl _
      · exact Becomes.refl _
    · exact widgetsEvent_desk lib app e m

end Manager

namespace Desk

/-- A field for three characters, and a keyboard of 400 by 200. -/
def threeDigits : Desk :=
  start [{ x := 0, y := 300, w := 100, h := 40, numericOnly := true, maxLen := 3 }] 0 0 400 200

/-- The key at a point of the keyboard. -/
def keyAt (x y : UInt16) : DeskOp := .keyEvent ⟨.press, ⟨0, x, y, 0, true⟩, 0, 0, 0⟩

/-- The keys 7, 7 and 00 write four characters. -/
theorem not_texts_fit :
    ((run op threeDigits [.focus 0, keyAt 50 25, keyAt 50 25, keyAt 250 175]).map fun d =>
        d.edits.map TextEditWidget.text) = some [['7', '7', '0', '0']] ∧
      ¬ Always op Fits threeDigits [.focus 0, keyAt 50 25, keyAt 50 25, keyAt 250 175] := by
  have htyped : ((run op threeDigits [.focus 0, keyAt 50 25, keyAt 50 25, keyAt 250 175]).map
      fun d => d.edits.map fun t => (t.text, t.maxLen)) = some [(['7', '7', '0', '0'], 3)] := by
    decide
  obtain ⟨d, hrun, hd⟩ := Option.map_eq_some_iff.mp htyped
  refine ⟨by decide, fun h => ?_⟩
  have hfits := h _ d (List.prefix_refl _) hrun
  obtain ⟨t, ht, htext⟩ := List.mem_map.mp (show _ ∈ d.edits.map fun t => (t.text, t.maxLen) from
    hd ▸ List.mem_singleton_self _)
  obtain ⟨htext, hlen⟩ := Prod.mk.inj htext
  have hle := hfits t ht
  rw [htext, hlen] at hle
  exact absurd hle (by decide)

end Desk

end MFoES.Uisys
