import MFoES.Lib.Filling
import MFoES.Lib.Words
import MFoES.Uisys.Fields
import Mathlib.Algebra.Group.Nat.Defs
import Mathlib.Data.List.TakeWhile

/-!
# The description of a dialog

`draw` cuts the description into raw lines.  A raw line that starts with "---" is a rule, and the
words of every other one are put on lines, as many on each as fit.  The loop over the characters
does what `Filling.fill` does to the words (`wrap_eq_some_iff`).

A rule goes through the list of lines as the line "---".  So does the word "---" where it comes to
stand alone on a line, and it is drawn as a rule.  Nothing else is lost, but for the text behind a
NUL, where `writeText` stops (`losesNothing_iff`).
-/

namespace MFoES.Uisys

open Filling Words

/-! ## The drawing -/

/-- `Font`, as far as it is measured. -/
structure Font where
  scale : UInt8 := 1
  deriving DecidableEq

namespace Font

/-- `charW`. -/
def charW (f : Font) : Nat := 6 * f.scale.toNat

/-- `charH`. -/
def charH (f : Font) : Nat := 8 * f.scale.toNat

/-- `textWidth`; `none` if the width is no `int`. -/
def textWidth (f : Font) (chars : Nat) : Option Int :=
  if chars * f.charW < 2 ^ 31 then some (chars * f.charW : Nat) else none

end Font

/-- `DialogIcon`. -/
inductive DialogIcon
  | none
  | info
  | warning
  | error
  | question
  deriving DecidableEq

/-- What `draw` reads of a `DialogWidget` for the description.  A text has a `Char` for each
byte. -/
structure DialogText where
  boxX : Int
  boxY : Int
  boxW : Int
  icon : DialogIcon := .warning
  description : Text
  titleFont : Font := ⟨3⟩
  descFont : Font := ⟨2⟩
  deriving DecidableEq

/-- The sentinel of a rule. -/
def spacer : Text := ['-', '-', '-']

/-- A line as it is drawn: two lines of pixels, or a text, of which `writeText` sees the part
before the first NUL. -/
inductive DrawnLine
  | rule (x0 x1 y : Int)
  | text (x y : Int) (t : Text)
  deriving DecidableEq

/-- The strings of the loop that wraps a raw line, and the lines so far. -/
structure Wrapping where
  word : Text := []
  line : Text := []
  lines : List Text := []
  deriving DecidableEq

namespace DialogText

/-- `descX`. -/
def descX (d : DialogText) : Int :=
  let iconX := d.boxX + 28 + 20
  if d.icon ≠ .none then iconX + 20 + 16 else d.boxX + 16

/-- `descY`. -/
def descY (d : DialogText) : Int :=
  let titleH : Int := d.titleFont.charH + 20
  let contentY := d.boxY + titleH + 16
  contentY + 8

/-- `descW`. -/
def descW (d : DialogText) : Int := d.boxX + d.boxW - d.descX - 16

/-- One character of a description, after some raw lines and a part of the next one. -/
def rawChar (s : List Text × Text) (ch : Char) : List Text × Text :=
  if ch = '\n' then (s.1 ++ [s.2], []) else (s.1, s.2 ++ [ch])

/-- The raw lines of a description, which ends with a virtual newline. -/
def rawLines (description : Text) : List Text :=
  ((description ++ ['\n']).foldl rawChar ([], [])).1

/-- The end of a word. -/
def endWord (d : DialogText) (s : Wrapping) : Option Wrapping :=
  if s.word = [] then some s
  else
    let test := if s.line = [] then s.word else s.line ++ ' ' :: s.word
    (d.descFont.textWidth test.length).map fun width =>
      if width > d.descW ∧ s.line ≠ [] then
        { word := [], line := s.word, lines := s.lines ++ [s.line] }
      else { word := [], line := test, lines := s.lines }

/-- One character of a raw line. -/
def wrapChar (d : DialogText) (s : Wrapping) (ch : Char) : Option Wrapping :=
  if ch = ' ' then d.endWord s else some { s with word := s.word ++ [ch] }

/-- Put the words of a raw line on lines.  It ends with a virtual blank. -/
def wrap (d : DialogText) (lines : List Text) (raw : Text) : Option (List Text) :=
  ((raw ++ [' ']).foldlM d.wrapChar { lines := lines }).map fun s =>
    if s.line ≠ [] then s.lines ++ [s.line] else s.lines

/-- One raw line.  A rule gives its sentinel. -/
def wrapRaw (d : DialogText) (lines : List Text) (raw : Text) : Option (List Text) :=
  if spacer.isPrefixOf raw then some (lines ++ [spacer]) else d.wrap lines raw

/-- All lines. -/
def wrapLines (d : DialogText) : Option (List Text) :=
  (rawLines d.description).foldlM d.wrapRaw []

/-- `c_str`, as far as it is read. -/
def cStr (t : Text) : Text := t.takeWhile (· ≠ Char.ofNat 0)

/-- Draw the line at a place of the list. -/
def drawLine (d : DialogText) (line : Text × Nat) : DrawnLine :=
  let lineH : Int := d.descFont.charH + 4
  let ly := d.descY + line.2 * lineH
  let rw := d.boxX + d.boxW - 16 - d.descX
  if line.1 = spacer then .rule d.descX (d.descX + rw) (ly + lineH / 2)
  else .text d.descX ly (cStr line.1)

/-- The description, as `draw` shows it while the dialog is asking. -/
def drawDescription (d : DialogText) : Option (List DrawnLine) :=
  d.wrapLines.map fun lines => lines.zipIdx.map d.drawLine

end DialogText

/-! ## What is to be drawn -/

namespace DrawnLine

def isRule : DrawnLine → Bool
  | .rule _ _ _ => true
  | .text _ _ _ => false

/-- The words that can be read on a line. -/
def words : DrawnLine → List Text
  | .rule _ _ _ => []
  | .text _ _ t => wordsOn ' ' t

/-- A line fits the available width, or it is a single word. -/
def Fits (d : DialogText) : DrawnLine → Prop
  | .rule _ _ _ => True
  | .text _ _ t =>
      ((t.length * d.descFont.charW : Nat) : Int) ≤ d.descW ∨ wordsOn ' ' t = [t]

end DrawnLine

namespace DialogText

/-- What a raw line is drawn as: a rule, or its words. -/
def Yields (d : DialogText) (raw : Text) (drawn : List DrawnLine) : Prop :=
  if spacer <+: raw then ∃ line, drawn = [line] ∧ line.isRule = true
  else (∀ line ∈ drawn, line.isRule = false) ∧ drawn.flatMap DrawnLine.words = wordsOn ' ' raw ∧
    ∀ line ∈ drawn, line.Fits d

/-- What is drawn are the raw lines, one after the other. -/
def LosesNothing (d : DialogText) : Prop :=
  ∃ blocks : List (List DrawnLine), d.drawDescription = some blocks.flatten ∧
    List.Forall₂ d.Yields (d.description.splitOn '\n') blocks

/-- Words that fit on one line. -/
def FitsOn (d : DialogText) (line : List Text) : Prop :=
  (((joined ' ' line).length * d.descFont.charW : Nat) : Int) ≤ d.descW

instance (d : DialogText) : DecidablePred d.FitsOn := fun _ => Int.decLe _ _

/-- Words whose width is an `int`. -/
def Measurable (d : DialogText) (line : List Text) : Prop :=
  (joined ' ' line).length * d.descFont.charW < 2 ^ 31

/-- A line with the next word has a width. -/
def MeasurableNext (d : DialogText) (line rest : List Text) : Prop :=
  d.Measurable (line ++ rest.head?.toList)

/-- A raw line that is no rule has no NUL.  When its words are put on lines, as many on each as fit,
none of the lines is the one word "---", and no line with the next word is too wide for an `int`. -/
def Drawable (d : DialogText) (raw : Text) : Prop :=
  Char.ofNat 0 ∉ raw ∧ ∀ lines, lines.flatten = wordsOn ' ' raw → Each (Filled d.FitsOn) lines →
    Each (fun line rest => line ≠ [spacer] ∧ d.MeasurableNext line rest) lines

/-! ## The loops -/

theorem foldl_rawChar (t : Text) : ∀ (raws : List Text) (cur : Text),
    ((t ++ ['\n']).foldl rawChar (raws, cur)).1 =
      raws ++ (t.splitOn '\n').modifyHead (cur ++ ·) := by
  induction t with
  | nil =>
      intro raws cur
      rw [List.splitOn_nil, List.modifyHead_cons, List.append_nil]
      rfl
  | cons c t ih =>
      intro raws cur
      rw [List.cons_append, List.foldl_cons, rawChar, List.splitOn_cons_eq_if_modifyHead]
      by_cases hc : c = '\n'
      · rw [if_pos hc, ih, if_pos (beq_iff_eq.mpr hc), List.modifyHead_cons, List.append_nil,
          List.append_assoc, List.singleton_append]
        congr 2
        exact congrFun List.modifyHead_id _
      · rw [if_neg hc, ih, if_neg (fun h => hc (beq_iff_eq.mp h)), List.modifyHead_modifyHead]
        congr 2
        funext rest
        exact (List.append_cons cur c rest).symm

/-- The loop over the description splits it at the newlines. -/
theorem rawLines_eq (description : Text) : rawLines description = description.splitOn '\n' := by
  rw [rawLines, foldl_rawChar, List.nil_append]
  exact congrFun List.modifyHead_id _

variable {d : DialogText}

/-- A word at the end of a line. -/
def putWord (d : DialogText) (s : Wrapping) (w : Text) : Option Wrapping :=
  d.endWord { s with word := w }

theorem word_endWord {s t : Wrapping} (h : d.endWord s = some t) : t.word = [] := by
  rw [endWord] at h
  split at h
  · next hword =>
    cases h
    exact hword
  · obtain ⟨width, -, rfl⟩ := Option.map_eq_some_iff.mp h
    split <;> rfl

theorem endWord_eq {s : Wrapping} (h : ' ' ∉ s.word) :
    d.endWord s = (wordsOn ' ' s.word).foldlM d.putWord { s with word := [] } := by
  obtain ⟨word, line, lines⟩ := s
  rcases eq_or_ne word [] with rfl | hne
  · rfl
  · rw [IsWord.wordsOn ⟨hne, h⟩, List.foldlM_cons]
    exact (bind_pure _).symm

/-- The loop over a raw line puts its words. -/
theorem foldlM_wrapChar (raw : Text) : ∀ {s : Wrapping}, ' ' ∉ s.word →
    (raw ++ [' ']).foldlM d.wrapChar s =
      (wordsOn ' ' (s.word ++ raw)).foldlM d.putWord { s with word := [] } := by
  induction raw with
  | nil =>
      intro s hs
      rw [List.append_nil, ← endWord_eq hs]
      exact bind_pure _
  | cons c raw ih =>
      intro s hs
      rw [List.cons_append, List.foldlM_cons, wrapChar]
      by_cases hc : c = ' '
      · rw [if_pos hc, hc, wordsOn_append_cons, List.foldlM_append, ← endWord_eq hs]
        refine Option.bind_congr fun t ht => ?_
        have hword := word_endWord ht
        rw [ih (hword ▸ List.not_mem_nil), hword, List.nil_append]
        rw [← hword]
      · have hnot : ' ' ∉ s.word ++ [c] := by
          rw [List.mem_append, List.mem_singleton]
          exact fun h => h.elim hs fun h => hc h.symm
        rw [if_neg hc, List.append_cons s.word c raw]
        exact ih (s := { s with word := s.word ++ [c] }) hnot

/-! ## Words on lines -/

theorem fitsOn_left {line rest : List Text} (h : d.FitsOn (line ++ rest)) : d.FitsOn line := by
  have hle := length_joined_append_le ' ' line rest
  exact Int.le_trans (Int.ofNat_le.mpr (Nat.mul_le_mul_right _ hle)) h

theorem measurable_left {line rest : List Text} (h : d.Measurable (line ++ rest)) :
    d.Measurable line := by
  have hle := length_joined_append_le ' ' line rest
  exact Nat.lt_of_le_of_lt (Nat.mul_le_mul_right _ hle) h

theorem measurable_last {line : List Text} {w : Text} (h : d.Measurable (line ++ [w])) :
    d.Measurable [w] := by
  have hle := length_le_joined_concat ' ' line w
  rw [Measurable, joined_singleton]
  exact Nat.lt_of_le_of_lt (Nat.mul_le_mul_right _ hle) h

variable {line : List Text} {w : Text} {lines : List Text}

theorem textWidth_of_measurable (h : d.Measurable line) :
    d.descFont.textWidth (joined ' ' line).length =
      some (((joined ' ' line).length * d.descFont.charW : Nat) : Int) := if_pos h

theorem textWidth_of_not_measurable (h : ¬ d.Measurable line) :
    d.descFont.textWidth (joined ' ' line).length = none := if_neg h

/-- What is measured is the line with the word. -/
theorem putWord_eq (hline : ∀ v ∈ line, v ≠ []) (hw : w ≠ []) :
    d.putWord ⟨[], joined ' ' line, lines⟩ w =
      (d.descFont.textWidth (joined ' ' (line ++ [w])).length).map fun width =>
        if width > d.descW ∧ line ≠ [] then ⟨[], joined ' ' [w], lines ++ [joined ' ' line]⟩
        else ⟨[], joined ' ' (line ++ [w]), lines⟩ := by
  rw [putWord, endWord, if_neg hw]
  dsimp only
  simp only [ne_eq, joined_eq_nil_iff hline]
  rcases eq_or_ne line [] with rfl | hne
  · rw [if_pos rfl, List.nil_append, joined_singleton]
  · rw [if_neg hne, ← joined_concat hne, joined_singleton]

theorem putWord_of_not_measurable (hline : ∀ v ∈ line, v ≠ []) (hw : w ≠ [])
    (h : ¬ d.Measurable (line ++ [w])) : d.putWord ⟨[], joined ' ' line, lines⟩ w = none := by
  rw [putWord_eq hline hw, textWidth_of_not_measurable h]
  rfl

theorem putWord_of_fits (hline : ∀ v ∈ line, v ≠ []) (hw : w ≠ [])
    (h : d.Measurable (line ++ [w])) (hfits : line = [] ∨ d.FitsOn (line ++ [w])) :
    d.putWord ⟨[], joined ' ' line, lines⟩ w = some ⟨[], joined ' ' (line ++ [w]), lines⟩ := by
  rw [putWord_eq hline hw, textWidth_of_measurable h, Option.map_some, if_neg]
  rintro ⟨hwide, hne⟩
  exact Int.not_le.mpr hwide (hfits.resolve_left hne)

theorem putWord_of_not_fits (hline : ∀ v ∈ line, v ≠ []) (hw : w ≠ [])
    (h : d.Measurable (line ++ [w])) (hne : line ≠ []) (hfits : ¬ d.FitsOn (line ++ [w])) :
    d.putWord ⟨[], joined ' ' line, lines⟩ w =
      some ⟨[], joined ' ' [w], lines ++ [joined ' ' line]⟩ := by
  rw [putWord_eq hline hw, textWidth_of_measurable h, Option.map_some,
    if_pos ⟨Int.not_le.mp hfits, hne⟩]

/-- The line that is open goes to the others. -/
def closeLine (s : Wrapping) : List Text := if s.line ≠ [] then s.lines ++ [s.line] else s.lines

/-- A word is measured before it is put. -/
theorem measurable_of_each {ws : List Text}
    (h : Each d.MeasurableNext (fill d.FitsOn line (w :: ws))) : d.Measurable (line ++ [w]) := by
  by_cases hfits : line = [] ∨ d.FitsOn (line ++ [w])
  · rw [fill_of_fits hfits] at h
    obtain ⟨more, rest, hm⟩ := h.first ws (List.append_ne_nil_of_right_ne_nil _ (by simp))
    exact measurable_left (measurable_left hm)
  · rw [not_or] at hfits
    rw [fill_of_not_fits hfits.1 hfits.2] at h
    have hm := h.1
    rw [MeasurableNext, flatten_fill] at hm
    exact hm

/-- The words are put on lines as `fill` puts them, where all that is measured has a width. -/
theorem foldlM_putWord (ws : List Text) : ∀ {line lines : List Text}, (∀ v ∈ line, v ≠ []) →
    (∀ w ∈ ws, w ≠ []) → line = [] ∨ d.Measurable line → ∀ out,
      ((ws.foldlM d.putWord ⟨[], joined ' ' line, lines⟩).map closeLine = some out ↔
        Each d.MeasurableNext (fill d.FitsOn line ws) ∧
          out = lines ++ (fill d.FitsOn line ws).map (joined ' ')) := by
  induction ws with
  | nil =>
      intro line lines hline _ hm out
      rw [List.foldlM_nil]
      change some (closeLine _) = some out ↔ _
      rw [Option.some.injEq, closeLine]
      simp only [ne_eq, joined_eq_nil_iff hline]
      rcases eq_or_ne line [] with rfl | hne
      · rw [if_neg (not_not.mpr rfl), fill, List.map_nil, List.append_nil]
        exact ⟨fun h => ⟨trivial, h.symm⟩, fun h => h.2.symm⟩
      · rw [if_pos hne, fill_nil hne, List.map_singleton]
        refine ⟨fun h => ⟨⟨?_, trivial⟩, h.symm⟩, fun h => h.2.symm⟩
        change d.Measurable (line ++ [])
        rw [List.append_nil]
        exact hm.resolve_left hne
  | cons w ws ih =>
      intro line lines hline hws hm out
      have hw := hws w List.mem_cons_self
      have hws' : ∀ v ∈ ws, v ≠ [] := fun v hv => hws v (List.mem_cons_of_mem w hv)
      rw [List.foldlM_cons]
      by_cases hnext : d.Measurable (line ++ [w])
      · by_cases hfits : line = [] ∨ d.FitsOn (line ++ [w])
        · rw [putWord_of_fits hline hw hnext hfits, fill_of_fits hfits]
          refine ih (fun v hv => ?_) hws' (.inr hnext) out
          rcases List.mem_append.mp hv with hv | hv
          · exact hline v hv
          · exact List.mem_singleton.mp hv ▸ hw
        · rw [not_or] at hfits
          rw [putWord_of_not_fits hline hw hnext hfits.1 hfits.2,
            fill_of_not_fits hfits.1 hfits.2]
          refine (ih (fun v hv => List.mem_singleton.mp hv ▸ hw) hws'
            (.inr (measurable_last hnext)) out).trans ?_
          have hfirst : d.MeasurableNext line (fill d.FitsOn [w] ws).flatten := by
            rw [MeasurableNext, flatten_fill]
            exact hnext
          rw [Each, and_iff_right hfirst, List.map_cons, List.append_assoc,
            List.singleton_append]
      · rw [putWord_of_not_measurable hline hw hnext]
        exact iff_of_false (fun h => by cases h) fun h => hnext (measurable_of_each h.1)

/-- The loop over a raw line puts its words on lines. -/
theorem wrap_eq_some_iff {raw : Text} {lines out : List Text} :
    d.wrap lines raw = some out ↔ Each d.MeasurableNext (fill d.FitsOn [] (wordsOn ' ' raw)) ∧
      out = lines ++ (fill d.FitsOn [] (wordsOn ' ' raw)).map (joined ' ') := by
  rw [wrap, foldlM_wrapChar raw List.not_mem_nil]
  exact foldlM_putWord _ (fun v hv => absurd hv List.not_mem_nil)
    (fun w hw => (isWord_of_mem hw).1) (.inl rfl) out

/-- The lines of a raw line. -/
def linesOf (d : DialogText) (raw : Text) : List Text :=
  if spacer <+: raw then [spacer] else (fill d.FitsOn [] (wordsOn ' ' raw)).map (joined ' ')

/-- All that is measured for a raw line has a width. -/
def Measured (d : DialogText) (raw : Text) : Prop :=
  ¬ spacer <+: raw → Each d.MeasurableNext (fill d.FitsOn [] (wordsOn ' ' raw))

theorem wrapRaw_eq_some_iff {raw : Text} {lines out : List Text} :
    d.wrapRaw lines raw = some out ↔ d.Measured raw ∧ out = lines ++ d.linesOf raw := by
  simp only [wrapRaw, linesOf, Measured, List.isPrefixOf_iff_prefix]
  by_cases hrule : spacer <+: raw
  · rw [if_pos hrule, if_pos hrule, Option.some.injEq, eq_comm]
    exact (and_iff_right (absurd hrule)).symm
  · rw [if_neg hrule, if_neg hrule, wrap_eq_some_iff]
    exact and_congr_left fun _ => (imp_iff_right hrule).symm

theorem foldlM_wrapRaw (raws : List Text) : ∀ {lines out : List Text},
    raws.foldlM d.wrapRaw lines = some out ↔
      (∀ raw ∈ raws, d.Measured raw) ∧ out = lines ++ raws.flatMap d.linesOf := by
  induction raws with
  | nil =>
      intro lines out
      rw [List.foldlM_nil, List.flatMap_nil, List.append_nil, Option.pure_def, Option.some.injEq,
        eq_comm]
      exact (and_iff_right fun raw hraw => absurd hraw List.not_mem_nil).symm
  | cons raw raws ih =>
      intro lines out
      rw [List.foldlM_cons, List.forall_mem_cons, List.flatMap_cons, ← List.append_assoc,
        Option.bind_eq_bind, Option.bind_eq_some_iff]
      constructor
      · rintro ⟨mid, hmid, hout⟩
        obtain ⟨hraw, rfl⟩ := wrapRaw_eq_some_iff.mp hmid
        obtain ⟨hraws, rfl⟩ := ih.mp hout
        exact ⟨⟨hraw, hraws⟩, rfl⟩
      · rintro ⟨⟨hraw, hraws⟩, rfl⟩
        exact ⟨_, wrapRaw_eq_some_iff.mpr ⟨hraw, rfl⟩, ih.mpr ⟨hraws, rfl⟩⟩

theorem wrapLines_eq_some_iff {out : List Text} :
    d.wrapLines = some out ↔ (∀ raw ∈ d.description.splitOn '\n', d.Measured raw) ∧
      out = (d.description.splitOn '\n').flatMap d.linesOf := by
  rw [wrapLines, rawLines_eq, foldlM_wrapRaw, List.nil_append]

/-! ## What is drawn -/

theorem isRule_drawLine (line : Text × Nat) :
    (d.drawLine line).isRule = decide (line.1 = spacer) := by
  rw [drawLine]
  split
  · next h => exact (decide_eq_true h).symm
  · next h => exact (decide_eq_false h).symm

theorem drawLine_of_ne {t : Text} (h : t ≠ spacer) (n : Nat) :
    d.drawLine (t, n) = .text d.descX (d.descY + n * (d.descFont.charH + 4)) (cStr t) := if_neg h

theorem cStr_eq {t : Text} (h : Char.ofNat 0 ∉ t) : cStr t = t :=
  List.takeWhile_eq_self_iff.mpr fun _ hc => decide_eq_true fun h0 => h (h0 ▸ hc)

theorem nul_not_mem_cStr (t : Text) : Char.ofNat 0 ∉ cStr t := by
  intro h
  have hne := List.mem_takeWhile_imp (p := fun c => decide (c ≠ Char.ofNat 0)) h
  exact of_decide_eq_true hne rfl

theorem nul_mem_iff {t : Text} :
    Char.ofNat 0 ∈ t ↔ ∃ w ∈ wordsOn ' ' t, Char.ofNat 0 ∈ w :=
  mem_iff_exists_mem_wordsOn (by decide)

/-- No word with a NUL can be read. -/
theorem nul_not_mem_of_mem_words {line : Text × Nat} {w : Text} (h : w ∈ (d.drawLine line).words) :
    Char.ofNat 0 ∉ w := by
  rw [drawLine] at h
  split at h
  · exact absurd h List.not_mem_nil
  · exact fun hnul => nul_not_mem_cStr _
      (nul_mem_iff.mpr ⟨w, h, hnul⟩)

/-- A line of words that is not taken for a rule and is drawn whole. -/
structure Whole (line : List Text) : Prop where
  isWord : ∀ w ∈ line, IsWord ' ' w
  ne_spacer : line ≠ [spacer]
  nul_not_mem : ∀ w ∈ line, Char.ofNat 0 ∉ w

theorem isWord_spacer : IsWord ' ' spacer := ⟨by decide, by decide⟩

/-- Words are taken for a rule where they are the one word "---". -/
theorem joined_eq_spacer_iff (h : ∀ w ∈ line, IsWord ' ' w) :
    joined ' ' line = spacer ↔ line = [spacer] := by
  constructor
  · intro hjoined
    rw [← wordsOn_joined h, hjoined, isWord_spacer.wordsOn]
  · rintro rfl
    exact joined_singleton spacer

theorem Whole.joined_ne (h : Whole line) : joined ' ' line ≠ spacer := fun hjoined =>
  h.ne_spacer ((joined_eq_spacer_iff h.isWord).mp hjoined)

/-- A whole line is drawn as its words. -/
theorem Whole.drawLine (h : Whole line) (n : Nat) :
    d.drawLine (joined ' ' line, n) =
      .text d.descX (d.descY + n * (d.descFont.charH + 4)) (joined ' ' line) := by
  have hnul : Char.ofNat 0 ∉ joined ' ' line := by
    intro hmem
    obtain ⟨w, hw, hmem⟩ := nul_mem_iff.mp hmem
    rw [wordsOn_joined h.isWord] at hw
    exact h.nul_not_mem w hw hmem
  rw [drawLine_of_ne h.joined_ne, cStr_eq hnul]

theorem flatMap_words_drawLine {lines : List (List Text)} (h : ∀ line ∈ lines, Whole line) :
    ∀ n, (((lines.map (joined ' ')).zipIdx n).map d.drawLine).flatMap DrawnLine.words =
      lines.flatten := by
  induction lines with
  | nil => exact fun _ => rfl
  | cons line lines ih =>
      intro n
      have hline := h line List.mem_cons_self
      rw [List.map_cons, List.zipIdx_cons, List.map_cons, List.flatMap_cons, hline.drawLine,
        ih (fun line hmem => h line (List.mem_cons_of_mem _ hmem)), List.flatten_cons]
      exact congrArg (· ++ lines.flatten) (wordsOn_joined hline.isWord)

/-- The lines of a raw line that can be drawn. -/
theorem Drawable.whole {raw : Text} (h : d.Drawable raw) :
    ∀ line ∈ fill d.FitsOn [] (wordsOn ' ' raw), Whole line := by
  have hflatten : (fill d.FitsOn [] (wordsOn ' ' raw)).flatten = [] ++ wordsOn ' ' raw :=
    flatten_fill _ _
  have hne := (each_and.mp ((each_fill_iff (fun _ _ _ => fitsOn_left)).mpr h.2)).1
  intro line hline
  have hmem : ∀ w ∈ line, w ∈ wordsOn ' ' raw := fun w hw => by
    rw [List.nil_append] at hflatten
    rw [← hflatten]
    exact List.mem_flatten_of_mem hline hw
  exact ⟨fun w hw => isWord_of_mem (hmem w hw), each_iff_forall_mem.mp hne line hline,
    fun w hw hnul => h.1
      (nul_mem_iff.mpr ⟨w, hmem w hw, hnul⟩)⟩

/-- A line fits, or it is a single word. -/
theorem fits_drawLine {raw : Text} (hline : line ∈ fill d.FitsOn [] (wordsOn ' ' raw))
    (h : Whole line) (n : Nat) : (d.drawLine (joined ' ' line, n)).Fits d := by
  have hfilled : Each (Filled d.FitsOn) (fill d.FitsOn [] (wordsOn ' ' raw)) :=
    filled_fill _ (.inl rfl)
  have hfitting := each_iff_forall_mem.mp (hfilled.imp fun _ _ h => h.fitting) line hline
  rw [h.drawLine]
  rcases hfitting with hone | hfits
  · obtain ⟨w, rfl⟩ := List.length_eq_one_iff.mp hone
    rw [joined_singleton]
    exact .inr (h.isWord w List.mem_cons_self).wordsOn
  · exact .inl hfits

/-- A raw line that can be drawn is drawn as it should. -/
theorem yields_linesOf {raw : Text} (h : ¬ spacer <+: raw → d.Drawable raw) (n : Nat) :
    d.Yields raw (((d.linesOf raw).zipIdx n).map d.drawLine) := by
  rw [Yields, linesOf]
  by_cases hrule : spacer <+: raw
  · rw [if_pos hrule, if_pos hrule]
    exact ⟨d.drawLine (spacer, n), rfl, isRule_drawLine _⟩
  · rw [if_neg hrule, if_neg hrule]
    have hwhole := (h hrule).whole
    have hdrawn : ∀ drawn ∈ (((fill d.FitsOn [] (wordsOn ' ' raw)).map (joined ' ')).zipIdx
        n).map d.drawLine, ∃ line ∈ fill d.FitsOn [] (wordsOn ' ' raw), ∃ m,
          drawn = d.drawLine (joined ' ' line, m) := by
      intro drawn hmem
      obtain ⟨⟨t, m⟩, hzip, rfl⟩ := List.mem_map.mp hmem
      obtain ⟨line, hline, rfl⟩ := List.mem_map.mp (List.fst_mem_of_mem_zipIdx hzip)
      exact ⟨line, hline, m, rfl⟩
    refine ⟨fun drawn hmem => ?_, ?_, fun drawn hmem => ?_⟩
    · obtain ⟨line, hline, m, rfl⟩ := hdrawn drawn hmem
      rw [isRule_drawLine]
      exact decide_eq_false (hwhole line hline).joined_ne
    · rw [flatMap_words_drawLine hwhole, flatten_fill, List.nil_append]
    · obtain ⟨line, hline, m, rfl⟩ := hdrawn drawn hmem
      exact fits_drawLine hline (hwhole line hline) m

/-- The raw lines are drawn one after the other. -/
theorem exists_blocks {raws : List Text} (h : ∀ raw ∈ raws, ¬ spacer <+: raw → d.Drawable raw) :
    ∀ n, ∃ blocks : List (List DrawnLine),
      ((raws.flatMap d.linesOf).zipIdx n).map d.drawLine = blocks.flatten ∧
        List.Forall₂ d.Yields raws blocks := by
  induction raws with
  | nil => exact fun _ => ⟨[], rfl, .nil⟩
  | cons raw raws ih =>
      intro n
      obtain ⟨hraw, hraws⟩ := List.forall_mem_cons.mp h
      obtain ⟨blocks, hblocks, hyields⟩ := ih hraws (n + (d.linesOf raw).length)
      refine ⟨((d.linesOf raw).zipIdx n).map d.drawLine :: blocks, ?_,
        .cons (yields_linesOf hraw n) hyields⟩
      rw [List.flatMap_cons, List.zipIdx_append, List.map_append, hblocks, List.flatten_cons]

/-! ## Where something else is drawn -/

theorem countP_isRule_drawLine (lines : List Text) :
    ∀ n, ((lines.zipIdx n).map d.drawLine).countP DrawnLine.isRule = lines.count spacer := by
  induction lines with
  | nil => exact fun _ => rfl
  | cons t lines ih =>
      intro n
      rw [List.zipIdx_cons, List.map_cons, List.countP_cons, ih, isRule_drawLine, List.count_cons]
      simp only [decide_eq_true_eq, beq_iff_eq]

/-- A raw line should give one rule if it starts with "---", and none otherwise. -/
theorem Yields.countP_isRule {raw : Text} {drawn : List DrawnLine} (h : d.Yields raw drawn) :
    drawn.countP DrawnLine.isRule = if spacer <+: raw then 1 else 0 := by
  rw [Yields] at h
  split at h
  · next hrule =>
    obtain ⟨line, rfl, hline⟩ := h
    rw [if_pos hrule, List.countP_singleton, if_pos hline]
  · next hrule =>
    rw [if_neg hrule]
    exact List.countP_eq_zero.mpr fun line hline hr => Bool.false_ne_true
      ((h.1 line hline).symm.trans hr)

/-- It gives as many, or more. -/
theorem le_count_linesOf (raw : Text) :
    (if spacer <+: raw then 1 else 0) ≤ (d.linesOf raw).count spacer := by
  split
  · next hrule =>
    rw [linesOf, if_pos hrule]
    exact Nat.le_refl 1
  · exact Nat.zero_le _

theorem count_linesOf_le {raws : List Text} {blocks : List (List DrawnLine)}
    (h : List.Forall₂ d.Yields raws blocks) :
    blocks.flatten.countP DrawnLine.isRule ≤ (raws.flatMap d.linesOf).count spacer := by
  induction h with
  | nil => exact Nat.le_refl _
  | cons hyields _ ih =>
      rw [List.flatten_cons, List.countP_append, List.flatMap_cons, List.count_append,
        hyields.countP_isRule]
      exact Nat.add_le_add (le_count_linesOf _) ih

/-- Where the rules are counted right, each raw line gives as many as it should. -/
theorem count_linesOf_eq {raws : List Text} {blocks : List (List DrawnLine)}
    (h : List.Forall₂ d.Yields raws blocks)
    (hcount : blocks.flatten.countP DrawnLine.isRule = (raws.flatMap d.linesOf).count spacer) :
    ∀ raw ∈ raws, (d.linesOf raw).count spacer = if spacer <+: raw then 1 else 0 := by
  induction h with
  | nil => exact fun raw hraw => absurd hraw List.not_mem_nil
  | cons hyields hrest ih =>
      rename_i raw block raws blocks
      rw [List.flatten_cons, List.countP_append, List.flatMap_cons, List.count_append,
        hyields.countP_isRule] at hcount
      have hle := count_linesOf_le hrest
      have hle' := le_count_linesOf (d := d) raw
      exact List.forall_mem_cons.mpr ⟨by omega, ih (by omega)⟩

/-- What is drawn has the words of a raw line that yields a part of it. -/
theorem words_subset {raws : List Text} {blocks : List (List DrawnLine)}
    (h : List.Forall₂ d.Yields raws blocks) {raw : Text} (hraw : raw ∈ raws)
    (hrule : ¬ spacer <+: raw) :
    ∀ w ∈ wordsOn ' ' raw, w ∈ blocks.flatten.flatMap DrawnLine.words := by
  induction h with
  | nil => exact absurd hraw List.not_mem_nil
  | cons hyields _ ih =>
      intro w hw
      rw [List.flatten_cons, List.flatMap_append, List.mem_append]
      rcases List.mem_cons.mp hraw with rfl | hraw
      · rw [Yields, if_neg hrule] at hyields
        exact .inl (hyields.2.1 ▸ hw)
      · exact .inr (ih hraw w hw)

/-- The description is drawn without loss exactly if all its raw lines but the rules can be
drawn. -/
theorem losesNothing_iff (d : DialogText) :
    d.LosesNothing ↔
      ∀ raw ∈ d.description.splitOn '\n', ¬ spacer <+: raw → d.Drawable raw := by
  constructor
  · rintro ⟨blocks, hdraw, hyields⟩ raw hraw hrule
    obtain ⟨lines, hlines, hblocks⟩ := Option.map_eq_some_iff.mp hdraw
    obtain ⟨hmeasured, rfl⟩ := wrapLines_eq_some_iff.mp hlines
    have hcount : (d.linesOf raw).count spacer = 0 := by
      have hall := count_linesOf_eq hyields (by rw [← hblocks, countP_isRule_drawLine])
      rw [hall raw hraw, if_neg hrule]
    rw [linesOf, if_neg hrule, List.count_eq_zero] at hcount
    refine ⟨fun hnul => ?_, (each_fill_iff (fun _ _ _ => fitsOn_left)).mp (each_and.mpr
      ⟨each_iff_forall_mem.mpr fun line hline hspacer => hcount ?_, hmeasured raw hraw hrule⟩)⟩
    · obtain ⟨w, hw, hmem⟩ := nul_mem_iff.mp hnul
      have hread := words_subset hyields hraw hrule w hw
      rw [← hblocks, List.mem_flatMap] at hread
      obtain ⟨drawn, hdrawn, hread⟩ := hread
      obtain ⟨p, -, rfl⟩ := List.mem_map.mp hdrawn
      exact nul_not_mem_of_mem_words hread hmem
    · rw [← (joined_singleton spacer : joined ' ' [spacer] = spacer), ← hspacer]
      exact List.mem_map_of_mem hline
  · intro h
    obtain ⟨blocks, hblocks, hyields⟩ := exists_blocks h 0
    refine ⟨blocks, ?_, hyields⟩
    rw [drawDescription, wrapLines_eq_some_iff.mpr ⟨fun raw hraw hrule => ?_, rfl⟩,
      Option.map_some, hblocks]
    exact (each_and.mp ((each_fill_iff (fun _ _ _ => fitsOn_left)).mpr
      (h raw hraw hrule).2)).2

/-- A dialog at its default place, whose description has a blank before "---". -/
def indented : DialogText :=
  { boxX := 200, boxY := 150, boxW := 500, description := [' ', '-', '-', '-'] }

/-- The word is drawn as a rule. -/
theorem not_losesNothing :
    indented.drawDescription = some [.rule 284 684 228] ∧ ¬ indented.LosesNothing := by
  have hdrawn : indented.drawDescription = some [.rule 284 684 228] := by decide
  refine ⟨hdrawn, ?_⟩
  rintro ⟨blocks, hdraw, hyields⟩
  rw [show indented.description.splitOn '\n' = [[' ', '-', '-', '-']] by decide] at hyields
  obtain ⟨block, rest, hblock, hrest, rfl⟩ := List.forall₂_cons_left_iff.mp hyields
  obtain rfl := List.forall₂_nil_left_iff.mp hrest
  rw [Yields, if_neg (by decide)] at hblock
  rw [hdrawn, List.flatten_singleton, Option.some.injEq] at hdraw
  have htext := hblock.1 (.rule 284 684 228) (hdraw ▸ List.mem_cons_self)
  cases htext

end DialogText

end MFoES.Uisys
