import MFoES.Libgfx.Primitives

/-!
# What the text layout reads of a font

`drawChar` leaves a character alone that the font does not have.  The two layouts,
`writeText` and `writeTextRotated`, want its advance before they call `drawChar`, and look it up
without that check: the table is read at `c - first`, wherever that is.

The reads are listed in the order in which they are made.  The list leaves no read out: tables
that agree where it says give the same text (`textPlan_congr`).
-/

namespace MFoES.Libgfx

/-- The index of a character of a font with the range `first..last`. -/
def InTable (first last : UInt16) (i : Int) : Prop :=
  ∃ c : UInt16, first ≤ c ∧ c ≤ last ∧ i = (c.toNat : Int) - first.toNat

theorem inTable_iff {first last : UInt16} {i : Int} :
    InTable first last i ↔ 0 ≤ i ∧ first.toNat + i ≤ last.toNat := by
  constructor
  · rintro ⟨c, hfirst, hlast, rfl⟩
    rw [UInt16.le_iff_toNat_le] at hfirst hlast
    omega
  · rintro ⟨hzero, hlast⟩
    have hlt := last.toNat_lt
    obtain ⟨n, rfl⟩ := Int.eq_ofNat_of_zero_le hzero
    have hto : (UInt16.ofNat (first.toNat + n)).toNat = first.toNat + n :=
      UInt16.toNat_ofNat_of_lt' (Nat.lt_of_le_of_lt (by omega) hlt)
    refine ⟨UInt16.ofNat (first.toNat + n), ?_, ?_, ?_⟩
    · rw [UInt16.le_iff_toNat_le, hto]
      omega
    · rw [UInt16.le_iff_toNat_le, hto]
      omega
    · rw [hto]
      omega

/-- The font has the character. -/
def HasChar (first last : UInt16) (c : UInt8) : Prop := first ≤ c.toUInt16 ∧ c.toUInt16 ≤ last

instance (first last : UInt16) (c : UInt8) : Decidable (HasChar first last c) :=
  inferInstanceAs (Decidable (_ ∧ _))

theorem hasChar_iff {first last : UInt16} {c : UInt8} :
    HasChar first last c ↔ first.toNat ≤ c.toNat ∧ c.toNat ≤ last.toNat := by
  rw [HasChar, UInt16.le_iff_toNat_le, UInt16.le_iff_toNat_le, UInt8.toNat_toUInt16]

/-- The layout's index is in the table exactly for the font's own characters. -/
theorem inTable_sub_iff {first last : UInt16} {c : UInt8} :
    InTable first last ((c.toNat : Int) - first.toNat) ↔ HasChar first last c := by
  rw [inTable_iff, hasChar_iff]
  omega

/-- `drawChar` narrows the index to a byte, which is enough behind its check. -/
theorem toNat_sub_first {first last : UInt16} {c : UInt8} (h : HasChar first last c) :
    ((c - first.toUInt8).toNat : Int) = (c.toNat : Int) - first.toNat := by
  have hfirst := (hasChar_iff.mp h).1
  have hc := c.toNat_lt
  have hbyte : first.toUInt8.toNat = first.toNat := by
    rw [UInt16.toNat_toUInt8, Nat.mod_eq_of_lt (by omega)]
  have hle : first.toUInt8 ≤ c := by
    rw [UInt8.le_iff_toNat_le, hbyte]
    exact hfirst
  rw [UInt8.toNat_sub_of_le _ _ hle, hbyte]
  omega

namespace LinuxGFX

variable {F : Type} (face : F → GFXfont) (pixels : F → FontPixels)

/-! ## The reads -/

/-- The read for `adv`. -/
def advanceReads (g : LinuxGFX F) (c : UInt8) : List Int :=
  match g.font with
  | some f => [(c.toNat : Int) - (face f).first.toNat]
  | none => []

/-- The read of `drawChar`. -/
def drawCharReads (g : LinuxGFX F) (c : UInt8) : List Int :=
  match g.font with
  | some f =>
      if c.toUInt16 < (face f).first ∨ (pixels f).last < c.toUInt16 then []
      else [((c - (face f).first.toUInt8).toNat : Int)]
  | none => []

/-- The reads of a layout whose lines start at `left`. -/
def textReads (left : Int16) : LinuxGFX F → List UInt8 → List Int
  | _, [] => []
  | g, c :: text =>
      let here :=
        if c = 10 ∨ c = 13 then []
        else advanceReads face g c ++ drawCharReads face pixels (wrapped face g left c) c
      here ++ textReads left (g.advanceChar face left c) text

/-- The reads of `writeText`. -/
def writeTextReads (g : LinuxGFX F) (text : List UInt8) : List Int :=
  textReads face pixels 0 g (cString text)

/-- The reads of `writeTextRotated`. -/
def writeTextRotatedReads (g : LinuxGFX F) (text : List UInt8) : List Int :=
  textReads face pixels g.cursorX g (cString text)

@[simp] theorem advanceChar_font (left : Int16) (g : LinuxGFX F) (c : UInt8) :
    (g.advanceChar face left c).font = g.font := by
  simp only [advanceChar, newLine]
  split_ifs <;> rfl

@[simp] theorem wrapped_font (left : Int16) (g : LinuxGFX F) (c : UInt8) :
    (wrapped face g left c).font = g.font := by
  simp only [wrapped, newLine]
  split_ifs <;> rfl

section InFont

variable {face pixels} {f : F} {left : Int16} {g : LinuxGFX F}

/-- The table that `f` points to. -/
abbrev Readable (face : F → GFXfont) (pixels : F → FontPixels) (f : F) (i : Int) : Prop :=
  InTable (face f).first (pixels f).last i

/-- The font that `f` points to has the character. -/
abbrev Has (face : F → GFXfont) (pixels : F → FontPixels) (f : F) (c : UInt8) : Prop :=
  HasChar (face f).first (pixels f).last c

theorem mem_advanceReads (h : g.font = some f) {c : UInt8} {i : Int} :
    i ∈ advanceReads face g c ↔ i = (c.toNat : Int) - (face f).first.toNat := by
  rw [advanceReads, h]
  exact List.mem_singleton

/-- The check of `drawChar` keeps it inside the table. -/
theorem readable_of_drawChar (h : g.font = some f) {c : UInt8} {i : Int}
    (hi : i ∈ drawCharReads face pixels g c) : Readable face pixels f i := by
  simp only [drawCharReads, h] at hi
  split_ifs at hi with hrange
  · cases hi
  · have hhas : Has face pixels f c := by
      rw [not_or, UInt16.not_lt, UInt16.not_lt] at hrange
      exact hrange
    rw [List.mem_singleton.mp hi, toNat_sub_first hhas]
    exact inTable_sub_iff.mpr hhas

/-- A layout stays in the table exactly where the font has every character that it draws. -/
theorem readable_textReads_iff (h : g.font = some f) (text : List UInt8) :
    (∀ i ∈ textReads face pixels left g text, Readable face pixels f i) ↔
      ∀ c ∈ text, c ≠ 10 → c ≠ 13 → Has face pixels f c := by
  induction text generalizing g with
  | nil => simp [textReads]
  | cons c text ih =>
      have hnext : (g.advanceChar face left c).font = some f := by rw [advanceChar_font, h]
      have hwrapped : (wrapped face g left c).font = some f := by rw [wrapped_font, h]
      rw [textReads, List.forall_mem_append, ih hnext, List.forall_mem_cons]
      refine and_congr_left fun _ => ?_
      by_cases hbreak : c = 10 ∨ c = 13
      · rw [if_pos hbreak]
        constructor
        · intro _ hlf hcr
          exact absurd hbreak (by simp [hlf, hcr])
        · intro _ i hi
          cases hi
      · rw [if_neg hbreak, List.forall_mem_append]
        rw [not_or] at hbreak
        constructor
        · rintro ⟨hadvance, -⟩ _ _
          exact inTable_sub_iff.mp (hadvance _ ((mem_advanceReads h).mpr rfl))
        · intro hhas
          refine ⟨fun i hi => ?_, fun i hi => readable_of_drawChar hwrapped hi⟩
          rw [(mem_advanceReads h).mp hi]
          exact inTable_sub_iff.mpr (hhas hbreak.1 hbreak.2)

end InFont

/-! ## The list leaves no read out -/

/-- The fonts at `f` differ only in entries of their tables that are not in `reads`. -/
structure AgreeAt (face face' : F → GFXfont) (pixels pixels' : F → FontPixels) (f : F)
    (reads : Set Int) : Prop where
  first : (face' f).first = (face f).first
  last : (pixels' f).last = (pixels f).last
  yAdvance : (face' f).yAdvance = (face f).yAdvance
  bitmap : (pixels' f).bitmap = (pixels f).bitmap
  advance : ∀ i ∈ reads, (face' f).glyph i = (face f).glyph i
  box : ∀ n : Nat, (n : Int) ∈ reads → (pixels' f).glyph n = (pixels f).glyph n

section Congr

variable {face face' : F → GFXfont} {pixels pixels' : F → FontPixels} {f : F} {g : LinuxGFX F}
  {reads reads' : Set Int}

theorem AgreeAt.mono (h : AgreeAt face face' pixels pixels' f reads)
    (hsub : ∀ i ∈ reads', i ∈ reads) : AgreeAt face face' pixels pixels' f reads' :=
  { h with
    advance := fun i hi => h.advance i (hsub i hi)
    box := fun n hn => h.box n (hsub n hn) }

theorem newLine_congr (hf : g.font = some f) (h : AgreeAt face face' pixels pixels' f reads)
    (left : Int16) : g.newLine face' left = g.newLine face left := by
  simp only [newLine, lineStep, hf, h.yAdvance]

theorem charStep_congr (hf : g.font = some f) {c : UInt8}
    (h : AgreeAt face face' pixels pixels' f {i | i ∈ advanceReads face g c}) :
    g.charStep face' c = g.charStep face c := by
  simp only [charStep, hf, h.first, h.advance _ ((mem_advanceReads hf).mpr rfl)]

theorem wrapped_congr (hf : g.font = some f) {c : UInt8}
    (h : AgreeAt face face' pixels pixels' f {i | i ∈ advanceReads face g c}) (left : Int16) :
    wrapped face' g left c = wrapped face g left c := by
  rw [wrapped, wrapped, charStep_congr hf h, newLine_congr hf h]

theorem drawChar_congr (hf : g.font = some f) {c : UInt8}
    (h : AgreeAt face face' pixels pixels' f {i | i ∈ drawCharReads face pixels g c})
    (x y : Int16) (color bg : UInt32) (sx sy : UInt8) :
    drawChar face' pixels' g x y c color bg sx sy =
      drawChar face pixels g x y c color bg sx sy := by
  simp only [drawChar, hf, drawFontChar, h.first, h.last, h.bitmap]
  by_cases hrange : c.toUInt16 < (face f).first ∨ (pixels f).last < c.toUInt16
  · rw [if_pos hrange, if_pos hrange]
  · have hbox := h.box (c - (face f).first.toUInt8).toNat (by simp [drawCharReads, hf, hrange])
    rw [if_neg hrange, if_neg hrange, hbox]

theorem advanceChar_congr (hf : g.font = some f) {left : Int16} {c : UInt8} {text : List UInt8}
    (h : AgreeAt face face' pixels pixels' f {i | i ∈ textReads face pixels left g (c :: text)}) :
    g.advanceChar face' left c = g.advanceChar face left c := by
  by_cases hlf : c = 10
  · rw [advanceChar, advanceChar, if_pos hlf, if_pos hlf, newLine_congr hf h]
  · by_cases hcr : c = 13
    · rw [advanceChar, advanceChar, if_neg hlf, if_neg hlf, if_pos hcr, if_pos hcr]
    · have hread : AgreeAt face face' pixels pixels' f {i | i ∈ advanceReads face g c} :=
        h.mono (by simp +contextual [textReads, hlf, hcr])
      simp only [advanceChar, charStep_congr hf hread, newLine_congr hf h]

/-- Tables that agree on the reads of a text give it the same steps. -/
theorem textPlan_congr (hf : g.font = some f) {left : Int16} {text : List UInt8}
    (h : AgreeAt face face' pixels pixels' f {i | i ∈ textReads face pixels left g text})
    (place : Int16 × Int16 → Int16 × Int16) :
    textPlan face' pixels' left place g text = textPlan face pixels left place g text := by
  induction text generalizing g with
  | nil => rfl
  | cons c text ih =>
      have hnext : (g.advanceChar face left c).font = some f := by rw [advanceChar_font, hf]
      have hwrapped : (wrapped face g left c).font = some f := by rw [wrapped_font, hf]
      have htail : AgreeAt face face' pixels pixels' f
          {i | i ∈ textReads face pixels left (g.advanceChar face left c) text} :=
        h.mono (by simp +contextual [textReads])
      rw [textPlan, textPlan, advanceChar_congr hf h, ih hnext htail]
      by_cases hbreak : c = 10 ∨ c = 13
      · simp only [if_pos hbreak]
      · simp only [textReads, if_neg hbreak] at h
        have hadvance : AgreeAt face face' pixels pixels' f {i | i ∈ advanceReads face g c} :=
          h.mono (by simp +contextual)
        have hdraw : AgreeAt face face' pixels pixels' f
            {i | i ∈ drawCharReads face pixels (wrapped face g left c) c} :=
          h.mono (by simp +contextual)
        simp only [if_neg hbreak, wrapped_congr hf hadvance, drawChar_congr hwrapped hdraw]

/-- Nothing outside the table of a font shows in a text that the font has. -/
theorem textPlan_of_has (hf : g.font = some f) {left : Int16} {text : List UInt8}
    (hhas : ∀ c ∈ text, c ≠ 10 → c ≠ 13 → Has face pixels f c)
    (h : AgreeAt face face' pixels pixels' f {i | Readable face pixels f i})
    (place : Int16 × Int16 → Int16 × Int16) :
    textPlan face' pixels' left place g text = textPlan face pixels left place g text :=
  textPlan_congr hf (h.mono ((readable_textReads_iff hf text).mpr hhas)) place

end Congr

end LinuxGFX

/-! ## Both layouts -/

/-- Every read that the layouts make of a text is at the index of a character of the font. -/
def LayoutInFont {F : Type} (face : F → GFXfont) (pixels : F → FontPixels) (g : LinuxGFX F)
    (text : List UInt8) : Prop :=
  ∀ f, g.font = some f →
    (∀ i ∈ g.writeTextReads face pixels text, InTable (face f).first (pixels f).last i) ∧
    ∀ i ∈ g.writeTextRotatedReads face pixels text, InTable (face f).first (pixels f).last i

/-- Text layout reads inside the font exactly where the font has every character before the
terminator, the line breaks apart. -/
theorem layoutInFont_iff {F : Type} (face : F → GFXfont) (pixels : F → FontPixels)
    (g : LinuxGFX F) (text : List UInt8) :
    LayoutInFont face pixels g text ↔
      ∀ f, g.font = some f → ∀ c ∈ cString text, c ≠ 10 → c ≠ 13 →
        (face f).first ≤ c.toUInt16 ∧ c.toUInt16 ≤ (pixels f).last := by
  refine forall_congr' fun f => forall_congr' fun hf => ?_
  have hplain : (∀ i ∈ g.writeTextReads face pixels text, _) ↔ _ :=
    LinuxGFX.readable_textReads_iff hf (cString text)
  have hrotated : (∀ i ∈ g.writeTextRotatedReads face pixels text, _) ↔ _ :=
    LinuxGFX.readable_textReads_iff hf (cString text)
  exact (and_congr hplain hrotated).trans and_self_iff

/-- A font from the space to the tilde. -/
def tildeFont : GFXfont where
  glyph _ := ⟨6⟩
  first := 0x20
  yAdvance := 8

/-- The rest of `tildeFont`. -/
def tildePixels : FontPixels where
  bitmap _ := 0
  glyph _ := ⟨0, 5, 7, 0, 0⟩
  last := 0x7E

/-- A tab is read in front of the table. -/
theorem not_layoutInFont_tab :
    ¬ ∀ (face : Unit → GFXfont) (pixels : Unit → FontPixels) (g : LinuxGFX Unit)
      (text : List UInt8), LayoutInFont face pixels g text := by
  intro h
  have htab := (h (fun _ => tildeFont) (fun _ => tildePixels)
    ((LinuxGFX.canvas (F := Unit)).setFont (some ())) [9] () rfl).1
  have hread := htab (-23) (by simp [LinuxGFX.writeTextReads, cString, LinuxGFX.textReads,
    LinuxGFX.advanceReads, LinuxGFX.setFont, tildeFont])
  rw [inTable_iff] at hread
  exact absurd hread.1 (by decide)

end MFoES.Libgfx
