import MFoES.Lib.Reactive
import MFoES.Libgfx.Recorder

/-!
# Record mask and inline limit

Every command belongs to a family, and `allow` gates a recorder on the family and on the size of
what it inlines.  Two recorders that are used alike, one of them with everything allowed, keep
the same draw state, and the other one has the commands that its mask and its limit keep
(`Offers`).

So a mask only filters (`body_projects`).  The limit holds for pixels and masks and not for text
(`inlineBounded_iff`).
-/

namespace MFoES.Libgfx

variable {F : Type}

/-! ## Families and sizes -/

/-- The record flag that a command goes by. -/
def DROp.family : DROp → UInt32
  | endOp => 0
  | drawPixel => drRecPixel
  | fastVLine | fastHLine | line | rect | fillRect | fillScreen | circle | fillCircle | arc
  | roundRect | fillRoundRect | triangle | fillTriangle => drRecGeometry
  | setDrawStyle | setRotation | invertDisplay => drRecStyle
  | setCursor | setTextColor | setTextSize | setTextWrap | setTextRotation | setFont | writeText
  | drawChar | setText => drRecText
  | bitmap1Bit => drRecBitmap1Bit
  | xBitmap => drRecBitmapXbm
  | grayBitmap | grayBitmapMask => drRecBitmapGray
  | rgbBitmap | rgbBitmapMask => drRecBitmapRgb
  | rgb565Bitmap => drRecBitmap565
  | bitmapTriangle => drRecBitmapTri
  | swapBuffers => drRecFrame

theorem DROp.all_family {op : DROp} (h : op ≠ .endOp) : drRecAll &&& op.family ≠ 0 := by
  cases op with
  | endOp => exact absurd rfl h
  | _ => decide

namespace GfxCall

/-- The bytes of pixels and masks in a command. -/
def inlineBitmap : GfxCall F → Nat
  | drawBitmap _ _ bits _ _ _ _ => bits.length
  | drawXBitmap _ _ bits _ _ _ => bits.length
  | drawGrayscaleBitmap _ _ px _ _ => px.length
  | drawGrayscaleBitmapMask _ _ px mask _ _ => px.length + mask.length
  | drawRGBBitmap _ _ px _ _ => px.length * 4
  | drawRGBBitmapMask _ _ px mask _ _ => px.length * 4 + mask.length
  | drawRGB565Bitmap _ _ px _ _ => px.length * 2
  | drawBitmapTriangle _ _ _ _ _ _ px _ _ => px.length * 4
  | _ => 0

/-- The bytes of text in a command. -/
def inlineText : GfxCall F → Nat
  | writeText text => text.length
  | setText _ _ text _ _ _ _ _ _ => text.length
  | _ => 0

/-- What the mask `M` and the limit `L` keep.  A limit of 0 is none. -/
def Kept (M : UInt32) (L : Nat) (c : GfxCall F) : Prop :=
  M &&& c.op.family ≠ 0 ∧ (L = 0 ∨ c.inlineBitmap ≤ L)

instance (M : UInt32) (L : Nat) (c : GfxCall F) : Decidable (c.Kept M L) :=
  inferInstanceAs (Decidable (_ ∧ _))

/-- Every command has a family, of which `DR_REC_ALL` records everything. -/
theorem kept_all (c : GfxCall F) : c.Kept drRecAll 0 :=
  ⟨DROp.all_family c.op_ne_endOp, Or.inl rfl⟩

end GfxCall

/-- Commands, each with its bytes. -/
abbrev Cmds (F : Type) := List (GfxCall F × List UInt8)

/-- The bytes of them. -/
def Cmds.bytes (cs : Cmds F) : List UInt8 := (cs.map Prod.snd).flatten

/-- The bytes are those of the commands. -/
def Cmds.Encoded (fonts : Option (DRFontTable F)) (cs : Cmds F) : Prop :=
  ∀ c ∈ cs, Commands fonts c.2 [c.1]

/-- Those that are kept. -/
def Cmds.kept (M : UInt32) (L : Nat) (cs : Cmds F) : Cmds F := cs.filter fun c => c.1.Kept M L

@[simp] theorem Cmds.bytes_append (cs ds : Cmds F) :
    Cmds.bytes (cs ++ ds) = cs.bytes ++ ds.bytes := by
  rw [Cmds.bytes, List.map_append, List.flatten_append]
  rfl

@[simp] theorem Cmds.kept_append (M : UInt32) (L : Nat) (cs ds : Cmds F) :
    Cmds.kept M L (cs ++ ds) = cs.kept M L ++ ds.kept M L := List.filter_append _ _

theorem Cmds.Encoded.append {fonts : Option (DRFontTable F)} {cs ds : Cmds F}
    (h : cs.Encoded fonts) (h' : ds.Encoded fonts) : Cmds.Encoded fonts (cs ++ ds) := by
  intro c hc
  rcases List.mem_append.mp hc with hc | hc
  · exact h c hc
  · exact h' c hc

namespace DrawReplay

/-! ## Two recorders -/

/-- Two live recorders with the same draw state, of which `a` records everything. -/
structure Twins (a r : DrawReplay F) : Prop where
  mask : a.recordMask = drRecAll
  limit : a.maxInlineBytes = 0
  gfx : a.gfx = r.gfx
  fontIds : a.fontIds = r.fontIds
  liveAll : a.suppress = false
  live : r.suppress = false

/-- From `a` to `a'` the commands `cs` were recorded, and from `r` to `r'` those of them that are
kept. -/
structure Offers (fonts : Option (DRFontTable F)) (a a' r r' : DrawReplay F) (cs : Cmds F) :
    Prop where
  encoded : cs.Encoded fonts
  all : a'.stream = a.stream ++ cs.bytes
  stream : r'.stream = r.stream ++ (cs.kept r.recordMask r.maxInlineBytes).bytes
  twins : Twins a' r'
  mask : r'.recordMask = r.recordMask
  limit : r'.maxInlineBytes = r.maxInlineBytes

/-- Commands were recorded of which the longest text has `text` bytes. -/
def OffersText (fonts : Option (DRFontTable F)) (a a' r r' : DrawReplay F) (text : Nat) : Prop :=
  ∃ cs, Offers fonts a a' r r' cs ∧ ∀ L, (∀ c ∈ cs, c.1.inlineText ≤ L) ↔ text ≤ L

section Offering

variable {fonts : Option (DRFontTable F)} {a a' a'' r r' r'' : DrawReplay F} {cs ds : Cmds F}
  {n m : Nat}

theorem Offers.refl (h : Twins a r) : Offers fonts a a r r [] :=
  ⟨fun _ hc => absurd hc List.not_mem_nil, (List.append_nil _).symm, (List.append_nil _).symm, h,
    rfl, rfl⟩

theorem Offers.trans (h : Offers fonts a a' r r' cs) (h' : Offers fonts a' a'' r' r'' ds) :
    Offers fonts a a'' r r'' (cs ++ ds) where
  encoded := h.encoded.append h'.encoded
  all := by rw [h'.all, h.all, Cmds.bytes_append, List.append_assoc]
  stream := by
    rw [h'.stream, h.stream, h.mask, h.limit, Cmds.kept_append, Cmds.bytes_append,
      List.append_assoc]
  twins := h'.twins
  mask := h'.mask.trans h.mask
  limit := h'.limit.trans h.limit

theorem Offers.base (h : Offers fonts a a' r r' cs) (f : LinuxGFX F → LinuxGFX F) :
    Offers fonts a (a'.base f) r (r'.base f) cs :=
  ⟨h.encoded, h.all, h.stream,
    ⟨h.twins.mask, h.twins.limit, congrArg f h.twins.gfx, h.twins.fontIds, h.twins.liveAll,
      h.twins.live⟩, h.mask, h.limit⟩

theorem Offers.suppressed (h : Offers fonts a a' r r' cs) (f : LinuxGFX F → LinuxGFX F) :
    Offers fonts a (a'.suppressed f) r (r'.suppressed f) cs :=
  ⟨h.encoded, h.all, h.stream,
    ⟨h.twins.mask, h.twins.limit, congrArg f h.twins.gfx, h.twins.fontIds, rfl, rfl⟩, h.mask,
    h.limit⟩

theorem OffersText.refl (h : Twins a r) : OffersText fonts a a r r 0 :=
  ⟨[], .refl h, fun L => iff_of_true (fun _ hc => absurd hc List.not_mem_nil) (Nat.zero_le L)⟩

theorem OffersText.trans (h : OffersText fonts a a' r r' n)
    (h' : OffersText fonts a' a'' r' r'' m) : OffersText fonts a a'' r r'' (max n m) := by
  obtain ⟨cs, hcs, hn⟩ := h
  obtain ⟨ds, hds, hm⟩ := h'
  refine ⟨cs ++ ds, hcs.trans hds, fun L => ?_⟩
  rw [List.forall_mem_append, hn L, hm L, Nat.max_le]

theorem OffersText.base (h : OffersText fonts a a' r r' n) (f : LinuxGFX F → LinuxGFX F) :
    OffersText fonts a (a'.base f) r (r'.base f) n := by
  obtain ⟨cs, hcs, hn⟩ := h
  exact ⟨cs, hcs.base f, hn⟩

theorem OffersText.suppressed (h : OffersText fonts a a' r r' n) (f : LinuxGFX F → LinuxGFX F) :
    OffersText fonts a (a'.suppressed f) r (r'.suppressed f) n := by
  obtain ⟨cs, hcs, hn⟩ := h
  exact ⟨cs, hcs.suppressed f, hn⟩

theorem OffersText.twins (h : OffersText fonts a a' r r' n) : Twins a' r' := by
  obtain ⟨cs, hcs, -⟩ := h
  exact hcs.twins

/-- A recorder of a command records it where it is kept. -/
theorem stream_record (r : DrawReplay F) (c : GfxCall F) (fontId : Option F → UInt8) :
    (r.record c.op.family c.op (c.payload fontId) c.inlineBitmap).stream =
      r.stream ++
        Cmds.bytes (Cmds.kept r.recordMask r.maxInlineBytes [(c, c.encode fontId)]) := by
  rw [record, allow, Cmds.kept, List.filter_singleton]
  by_cases hmask : r.recordMask &&& c.op.family = 0
  · have hnot : ¬ c.Kept r.recordMask r.maxInlineBytes := fun hkept => hkept.1 hmask
    rw [if_pos hmask, decide_eq_false hnot]
    exact (List.append_nil _).symm
  · rw [if_neg hmask]
    by_cases hlong : r.maxInlineBytes ≠ 0 ∧ r.maxInlineBytes < c.inlineBitmap
    · have hnot : ¬ c.Kept r.recordMask r.maxInlineBytes := fun hkept =>
        hkept.2.elim hlong.1 fun hle => Nat.not_lt.mpr hle hlong.2
      rw [if_pos hlong, decide_eq_false hnot]
      exact (List.append_nil _).symm
    · have hkept : c.Kept r.recordMask r.maxInlineBytes := by
        refine ⟨hmask, ?_⟩
        rw [not_and_or, not_not, Nat.not_lt] at hlong
        exact hlong
      rw [if_neg hlong, decide_eq_true hkept]
      show (r.stream ++ putU8 c.op.toByte) ++ (c.payload fontId).flatten =
        r.stream ++ (c.encode fontId ++ [])
      rw [List.append_assoc, List.append_nil]
      rfl

/-- Whatever is recorded, the settings stay. -/
theorem record_settings (r : DrawReplay F) (feature : UInt32) (op : DROp)
    (payload : List (List UInt8)) (n : Nat) :
    (r.record feature op payload n).recordMask = r.recordMask ∧
      (r.record feature op payload n).maxInlineBytes = r.maxInlineBytes ∧
      (r.record feature op payload n).fontIds = r.fontIds ∧
      (r.record feature op payload n).suppress = r.suppress := by
  rw [record, allow]
  by_cases hmask : r.recordMask &&& feature = 0
  · rw [if_pos hmask]
    exact ⟨rfl, rfl, rfl, rfl⟩
  · rw [if_neg hmask]
    by_cases hlong : r.maxInlineBytes ≠ 0 ∧ r.maxInlineBytes < n
    · rw [if_pos hlong]
      exact ⟨rfl, rfl, rfl, rfl⟩
    · rw [if_neg hlong]
      exact ⟨rfl, rfl, rfl, rfl⟩

theorem Twins.record (h : Twins a r) (feature : UInt32) (op : DROp) (payload : List (List UInt8))
    (n : Nat) : Twins (a.record feature op payload n) (r.record feature op payload n) := by
  obtain ⟨hmask, hlimit, hfonts, hlive⟩ := a.record_settings feature op payload n
  obtain ⟨-, -, hfonts', hlive'⟩ := r.record_settings feature op payload n
  refine ⟨hmask.trans h.mask, hlimit.trans h.limit, ?_, ?_, hlive.trans h.liveAll,
    hlive'.trans h.live⟩
  · rw [record_gfx, record_gfx, h.gfx]
  · rw [hfonts, hfonts', h.fontIds]

/-- Two recorders of a command. -/
theorem offers_record (h : Twins a r) (c : GfxCall F) (fontId : Option F → UInt8)
    (hc : c.Fits fontId (DRFontTable.lookup fonts)) {feature : UInt32}
    {payload : List (List UInt8)} (hfeature : feature = c.op.family)
    (hp : payload = c.payload fontId) (hn : n = c.inlineBitmap) :
    OffersText fonts a (a.record feature c.op payload n) r (r.record feature c.op payload n)
      c.inlineText := by
  subst hfeature hp hn
  have hall : Cmds.kept a.recordMask a.maxInlineBytes [(c, c.encode fontId)] =
      [(c, c.encode fontId)] := by
    rw [h.mask, h.limit, Cmds.kept, List.filter_singleton, decide_eq_true c.kept_all]
    rfl
  have hsettings := r.record_settings c.op.family c.op (c.payload fontId) c.inlineBitmap
  refine ⟨[(c, c.encode fontId)], ⟨?_, ?_, stream_record r c fontId, h.record _ _ _ _, hsettings.1,
    hsettings.2.1⟩, fun L => ?_⟩
  · intro c' hc'
    rw [List.mem_singleton.mp hc']
    exact .single hc
  · have hstream := stream_record a c fontId
    rw [hall] at hstream
    exact hstream
  · rw [List.forall_mem_singleton]

theorem offers_recordPrimitive (h : Twins a r) (c : GfxCall F)
    (hc : c.Fits (fun _ => 0) (DRFontTable.lookup fonts)) {feature : UInt32}
    {payload : List (List UInt8)} (hfeature : feature = c.op.family)
    (hp : payload = c.payload fun _ => 0) (hn : 0 = c.inlineBitmap) (ht : 0 = c.inlineText) :
    OffersText fonts a (a.recordPrimitive feature c.op payload) r
      (r.recordPrimitive feature c.op payload) 0 := by
  have hrecord := offers_record h c _ hc hfeature hp hn
  rw [← ht] at hrecord
  rw [recordPrimitive, recordPrimitive, if_neg (by rw [h.liveAll]; decide),
    if_neg (by rw [h.live]; decide)]
  exact hrecord

/-- Two recorders of a bitmap. -/
theorem offers_recordBitmap (h : Twins a r) {α : Type} {bitmap : Option α} {w l : Int16}
    {payload : α → List (List UInt8)} (c : α → GfxCall F) {op : DROp} {feature : UInt32}
    (hfeature : feature = op.family)
    (hc : ∀ p ∈ bitmap, GfxCall.FitsExtent w l →
      (c p).op = op ∧ (c p).Fits (fun _ => 0) (DRFontTable.lookup fonts) ∧
        payload p = ((c p).payload fun _ => 0) ∧ n = (c p).inlineBitmap ∧ (c p).inlineText = 0) :
    OffersText fonts a (a.recordBitmap bitmap w l feature op payload n) r
      (r.recordBitmap bitmap w l feature op payload n) 0 := by
  cases bitmap with
  | none => exact .refl h
  | some p =>
      rw [recordBitmap, recordBitmap]
      split_ifs with hempty
      · exact .refl h
      · rw [not_or, Int16.not_le, Int16.not_le] at hempty
        obtain ⟨rfl, hfits, hp, hn, ht⟩ := hc p rfl ⟨hempty.1, hempty.2⟩
        rw [← ht]
        exact offers_record h (c p) _ hfits hfeature hp hn

theorem offers_bitmap (h : Twins a r) {α : Type} {bitmap : Option (List α)} {w l : Int16}
    {k : Nat} (hback : Backs bitmap w l k) {payload : List α → List (List UInt8)}
    (c : List α → GfxCall F) {op : DROp} {feature : UInt32} (hfeature : feature = op.family)
    (hc : ∀ p : List α, GfxCall.FitsExtent w l → k ≤ p.length →
      (c p).op = op ∧ (c p).Fits (fun _ => 0) (DRFontTable.lookup fonts) ∧
        payload p = ((c p).payload fun _ => 0) ∧ n = (c p).inlineBitmap ∧ (c p).inlineText = 0) :
    OffersText fonts a (a.recordBitmap bitmap w l feature op payload n) r
      (r.recordBitmap bitmap w l feature op payload n) 0 :=
  offers_recordBitmap h c hfeature fun p hp hwl => hc p hwl (hback p hp hwl.w_pos hwl.h_pos)

theorem offers_masked (h : Twins a r) {α β : Type} {bitmap : Option (List α)}
    {plane : Option (List β)} {w l : Int16} {k j : Nat}
    (hback : Backs bitmap w l k ∧ Backs plane w l j)
    {payload : List α × List β → List (List UInt8)} (c : List α × List β → GfxCall F) {op : DROp}
    {feature : UInt32} (hfeature : feature = op.family)
    (hc : ∀ p : List α × List β, GfxCall.FitsExtent w l → k ≤ p.1.length → j ≤ p.2.length →
      (c p).op = op ∧ (c p).Fits (fun _ => 0) (DRFontTable.lookup fonts) ∧
        payload p = ((c p).payload fun _ => 0) ∧ n = (c p).inlineBitmap ∧ (c p).inlineText = 0) :
    OffersText fonts a (a.recordBitmap (both bitmap plane) w l feature op payload n) r
      (r.recordBitmap (both bitmap plane) w l feature op payload n) 0 := by
  refine offers_recordBitmap h c hfeature ?_
  rintro ⟨px, bits⟩ hp hwl
  obtain ⟨px', rfl, hplane⟩ := Option.bind_eq_some_iff.mp hp
  obtain ⟨bits', rfl, heq⟩ := Option.map_eq_some_iff.mp hplane
  obtain ⟨rfl, rfl⟩ := Prod.mk.inj heq
  exact hc (px', bits') hwl (hback.1 px' rfl hwl.w_pos hwl.h_pos)
    (hback.2 bits' rfl hwl.w_pos hwl.h_pos)

theorem offers_drawBitmapBg (h : Twins a r) (x y : Int16) {bitmap : Option (List UInt8)}
    {w l : Int16} (color bg : UInt32) (hback : Backs bitmap w l (monoPlaneBytes w l)) :
    OffersText fonts a (a.drawBitmapBg x y bitmap w l color bg) r
      (r.drawBitmapBg x y bitmap w l color bg) 0 :=
  offers_bitmap h hback
    (fun bits => .drawBitmap x y (bits.take (monoPlaneBytes w l)) w l color bg) rfl
    fun _ hwl hlen => ⟨rfl, ⟨hwl, List.length_take_of_le hlen⟩, rfl,
      (List.length_take_of_le hlen).symm, rfl⟩

theorem offers_writeText (h : Twins a r) (face : F → GFXfont) (text : Option (List UInt8)) :
    OffersText fonts a (a.writeText face text) r (r.writeText face text)
      (text.elim 0 fun text => (carried text).length) := by
  cases text with
  | none => exact .refl h
  | some text =>
      rw [writeText, writeText]
      split_ifs with hempty
      · have hnone : (carried text).length = 0 := by
          rw [carried, hempty]
          rfl
        show OffersText fonts a a r r (carried text).length
        rw [hnone]
        exact .refl h
      · exact (offers_record h (.writeText (carried text)) (fun _ => 0) (fitsText_carried text) rfl
          (putText_carried text) rfl).suppressed _

theorem fontId_congr [DecidableEq F] (h : Twins a r) (font : Option F) :
    a.fontId font = r.fontId font := by
  cases font with
  | none => rfl
  | some font => rw [fontId, fontId, h.fontIds]

theorem offers_setText [DecidableEq F] (h : Twins a r) (face : F → GFXfont) (x y : Int16)
    (text : Option (List UInt8)) (color bgColor : UInt32) (sizeX sizeY : UInt8) (font : Option F)
    (rotation : UInt8) :
    OffersText fonts a (a.setText face x y text color bgColor sizeX sizeY font rotation) r
      (r.setText face x y text color bgColor sizeX sizeY font rotation)
      (text.elim 0 fun text => (carried text).length) := by
  cases text with
  | none => exact .refl h
  | some text =>
      rw [setText, setText, fontId_congr h]
      exact (offers_record h (.setText x y (carried text) color bgColor sizeX sizeY
        (DRFontTable.lookup fonts (r.fontId font)) rotation) (fun _ => r.fontId font)
        ⟨fitsText_carried text, rfl⟩ rfl (by rw [putText_carried]; rfl) rfl).suppressed _

theorem offers_setFontId (h : Twins a r) (id : UInt8) :
    OffersText fonts a (a.setFontId id) r (r.setFontId id) 0 := by
  have hrecord : OffersText fonts a (a.record drRecText .setFont [putU8 id]) r
      (r.record drRecText .setFont [putU8 id]) 0 :=
    offers_record h (.setFont (DRFontTable.lookup fonts id)) (fun _ => id) rfl rfl rfl rfl
  rw [setFontId, setFontId]
  simp only [hrecord.twins.fontIds]
  split
  · exact hrecord.base _
  · split_ifs
    · exact hrecord.base _
    · exact hrecord

theorem offers_setFont [DecidableEq F] (h : Twins a r) (font : Option F) :
    OffersText fonts a (a.setFont font) r (r.setFont font) 0 := by
  rw [setFont, setFont, fontId_congr h]
  exact (offers_record h (.setFont (DRFontTable.lookup fonts (r.fontId font)))
    (fun _ => r.fontId font) rfl rfl rfl rfl).base _

theorem offers_setTextColorBg (h : Twins a r) (color bg : UInt32) :
    OffersText fonts a (a.setTextColorBg color bg) r (r.setTextColorBg color bg) 0 :=
  (offers_record h (.setTextColor color bg) (fun _ => 0) trivial rfl rfl rfl).base _

theorem offers_setTextSizeXY (h : Twins a r) (sx sy : UInt8) :
    OffersText fonts a (a.setTextSizeXY sx sy) r (r.setTextSizeXY sx sy) 0 :=
  (offers_record h (.setTextSize sx sy) (fun _ => 0) trivial rfl rfl rfl).base _

theorem offers_setDrawStyle (h : Twins a r) (style : GFXDrawStyle) :
    OffersText fonts a (a.setDrawStyle style) r (r.setDrawStyle style) 0 :=
  (offers_record h (.setDrawStyle style) (fun _ => 0) trivial rfl rfl rfl).base _

/-- A style that is made from the current one. -/
theorem offers_styled (h : Twins a r) (f : GFXDrawStyle → GFXDrawStyle) :
    OffersText fonts a (a.setDrawStyle (f a.gfx.drawStyle)) r
      (r.setDrawStyle (f r.gfx.drawStyle)) 0 := by
  rw [h.gfx]
  exact offers_setDrawStyle h _

theorem offers_writeTextF (h : Twins a r) (face : F → GFXfont) (formatted : Option (List UInt8)) :
    OffersText fonts a (a.writeTextF face formatted) r (r.writeTextF face formatted)
      (formatted.elim 0 fun out => (carried (out.take 511 ++ [0])).length) := by
  cases formatted with
  | none => exact .refl h
  | some out =>
      rw [writeTextF, writeTextF]
      split_ifs with hempty
      · rw [hempty]
        exact .refl h
      · exact offers_writeText h face _

end Offering

end DrawReplay

open DrawReplay

/-- The bytes of the text that a call writes into its command. -/
def DRCall.textBytes : DRCall F → Nat
  | writeText text | print text => text.elim 0 fun text => (carried text).length
  | writeTextF formatted => formatted.elim 0 fun out => (carried (out.take 511 ++ [0])).length
  | setText _ _ text _ _ _ _ _ _ => text.elim 0 fun text => (carried text).length
  | printlnText text => max (text.elim 0 fun text => (carried text).length) 1
  | println => 1
  | _ => 0

section Runs

variable [DecidableEq F] {fonts : Option (DRFontTable F)} {a r : DrawReplay F}

/-- Two recorders of a draw call. -/
theorem offers_run (face : F → GFXfont) (h : Twins a r) (c : DRCall F) (hc : c.Backed) :
    OffersText fonts a (c.run face a) r (c.run face r) c.textBytes := by
  have fontId : Option F → UInt8 := fun _ => 0
  cases c with
  | drawPixel x y color =>
      exact offers_recordPrimitive h (.drawPixel x y color) trivial rfl rfl rfl rfl
  | drawFastVLine x y l color =>
      exact offers_recordPrimitive h (.drawFastVLine x y l color) trivial rfl rfl rfl rfl
  | drawFastHLine x y l color =>
      exact offers_recordPrimitive h (.drawFastHLine x y l color) trivial rfl rfl rfl rfl
  | fillScreen color =>
      exact offers_recordPrimitive h (.fillScreen color) trivial rfl rfl rfl rfl
  | drawLine x0 y0 x1 y1 color =>
      exact offers_record h (.drawLine x0 y0 x1 y1 color) fontId trivial rfl rfl rfl
  | drawRect x y w l color =>
      exact offers_record h (.drawRect x y w l color) fontId trivial rfl rfl rfl
  | fillRect x y w l color =>
      exact offers_record h (.fillRect x y w l color) fontId trivial rfl rfl rfl
  | drawCircle x y rad color =>
      exact offers_record h (.drawCircle x y rad color) fontId trivial rfl rfl rfl
  | fillCircle x y rad color =>
      exact offers_record h (.fillCircle x y rad color) fontId trivial rfl rfl rfl
  | drawArc x y rad a0 a1 color =>
      exact offers_record h (.drawArc x y rad a0 a1 color) fontId trivial rfl rfl rfl
  | drawRoundRect x y w l rad color =>
      exact offers_record h (.drawRoundRect x y w l rad color) fontId trivial rfl rfl rfl
  | fillRoundRect x y w l rad color =>
      exact offers_record h (.fillRoundRect x y w l rad color) fontId trivial rfl rfl rfl
  | drawTriangle x0 y0 x1 y1 x2 y2 color =>
      exact offers_record h (.drawTriangle x0 y0 x1 y1 x2 y2 color) fontId trivial rfl rfl rfl
  | fillTriangle x0 y0 x1 y1 x2 y2 color =>
      exact offers_record h (.fillTriangle x0 y0 x1 y1 x2 y2 color) fontId trivial rfl rfl rfl
  | drawBitmap x y bitmap w l color => exact offers_drawBitmapBg h x y color _ hc
  | drawBitmapBg x y bitmap w l color bg => exact offers_drawBitmapBg h x y color bg hc
  | drawXBitmap x y bitmap w l color =>
      exact offers_bitmap h hc
        (fun bits => .drawXBitmap x y (bits.take (monoPlaneBytes w l)) w l color) rfl
        fun _ hwl hlen => ⟨rfl, ⟨hwl, List.length_take_of_le hlen⟩, rfl,
          (List.length_take_of_le hlen).symm, rfl⟩
  | drawGrayscaleBitmap x y bitmap w l =>
      refine offers_bitmap h hc
        (fun px => .drawGrayscaleBitmap x y (px.take (pixelCount w l)) w l) rfl
        fun px hwl hlen => ⟨rfl, ⟨hwl, List.length_take_of_le hlen⟩, ?_, ?_, rfl⟩
      · simp only [extent_eq hwl]
        rfl
      · rw [extent_eq hwl]
        exact (List.length_take_of_le hlen).symm
  | drawGrayscaleBitmapMask x y bitmap mask w l =>
      refine offers_masked h hc
        (fun p => .drawGrayscaleBitmapMask x y (p.1.take (pixelCount w l))
          (p.2.take (monoPlaneBytes w l)) w l) rfl
        fun p hwl hlen hmask =>
          ⟨rfl, ⟨hwl, List.length_take_of_le hlen, List.length_take_of_le hmask⟩, ?_, ?_, rfl⟩
      · simp only [extent_eq hwl]
        rfl
      · rw [extent_eq hwl, GfxCall.inlineBitmap, List.length_take_of_le hlen,
          List.length_take_of_le hmask]
  | drawRGBBitmap x y bitmap w l =>
      refine offers_bitmap h hc (fun px => .drawRGBBitmap x y (px.take (pixelCount w l)) w l) rfl
        fun px hwl hlen => ⟨rfl, ⟨hwl, List.length_take_of_le hlen⟩, ?_, ?_, rfl⟩
      · simp only [extent_eq hwl]
        rfl
      · rw [extent_eq hwl, GfxCall.inlineBitmap, List.length_take_of_le hlen]
  | drawRGBBitmapMask x y bitmap mask w l =>
      refine offers_masked h hc
        (fun p => .drawRGBBitmapMask x y (p.1.take (pixelCount w l))
          (p.2.take (monoPlaneBytes w l)) w l) rfl
        fun p hwl hlen hmask =>
          ⟨rfl, ⟨hwl, List.length_take_of_le hlen, List.length_take_of_le hmask⟩, ?_, ?_, rfl⟩
      · simp only [extent_eq hwl]
        rfl
      · rw [extent_eq hwl, GfxCall.inlineBitmap, List.length_take_of_le hlen,
          List.length_take_of_le hmask]
  | drawRGB565Bitmap x y bitmap w l =>
      refine offers_bitmap h hc
        (fun px => .drawRGB565Bitmap x y (px.take (pixelCount w l)) w l) rfl
        fun px hwl hlen => ⟨rfl, ⟨hwl, List.length_take_of_le hlen⟩, ?_, ?_, rfl⟩
      · simp only [extent_eq hwl]
        rfl
      · rw [extent_eq hwl, GfxCall.inlineBitmap, List.length_take_of_le hlen]
  | drawBitmapTriangle x0 y0 x1 y1 x2 y2 bitmap w l =>
      refine offers_bitmap h hc
        (fun px => .drawBitmapTriangle x0 y0 x1 y1 x2 y2 (px.take (pixelCount w l)) w l) rfl
        fun px hwl hlen => ⟨rfl, ⟨hwl, List.length_take_of_le hlen⟩, ?_, ?_, rfl⟩
      · simp only [extent_eq hwl]
        rfl
      · rw [extent_eq hwl, GfxCall.inlineBitmap, List.length_take_of_le hlen]
  | setCursor x y =>
      exact (offers_record h (.setCursor x y) fontId trivial rfl rfl rfl).base _
  | setTextColor color => exact offers_setTextColorBg h color gfxTransparent
  | setTextColorBg color bg => exact offers_setTextColorBg h color bg
  | setTextColorTransparentBg color => exact offers_setTextColorBg h color gfxTransparent
  | setTextSize size => exact offers_setTextSizeXY h size size
  | setTextSizeXY sx sy => exact offers_setTextSizeXY h sx sy
  | setTextWrap wrap =>
      exact (offers_record h (.setTextWrap wrap) fontId trivial rfl rfl rfl).base _
  | setTextRotation rotation =>
      exact (offers_record h (.setTextRotation rotation) fontId trivial rfl rfl rfl).base _
  | setFont font => exact offers_setFont h font
  | setFontId id => exact offers_setFontId h id
  | drawChar x y ch color bg size =>
      exact offers_record h (.drawChar x y ch color bg size size) fontId trivial rfl rfl rfl
  | drawCharXY x y ch color bg sx sy =>
      exact offers_record h (.drawChar x y ch color bg sx sy) fontId trivial rfl rfl rfl
  | writeText text => exact offers_writeText h face text
  | writeTextF formatted => exact offers_writeTextF h face formatted
  | setText x y text color bg sx sy font rotation =>
      exact offers_setText h face x y text color bg sx sy font rotation
  | print text => exact offers_writeText h face text
  | printlnText text =>
      have htext := @offers_writeText F fonts _ _ h face text
      exact htext.trans (offers_writeText htext.twins face (some [10]))
  | println => exact offers_writeText h face (some [10])
  | setDrawStyle style => exact offers_setDrawStyle h style
  | setStrokeWidth width => exact offers_styled h fun style => { style with strokeWidth := width }
  | setLineCap cap => exact offers_styled h fun style => { style with lineCap := cap }
  | setLineJoin join => exact offers_styled h fun style => { style with lineJoin := join }
  | setAntiAlias enable => exact offers_styled h fun style => { style with antiAlias := enable }
  | setRotation rotation =>
      exact (offers_record h (.setRotation rotation) fontId trivial rfl rfl rfl).base _
  | invertDisplay inverted =>
      exact (offers_record h (.invertDisplay inverted) fontId trivial rfl rfl rfl).base _
  | swapBuffers autoclear =>
      exact offers_record h (.swapBuffers autoclear) fontId trivial rfl rfl rfl

end Runs

/-! ## Sequences of calls -/

/-- The calls that leave the mask and the limit. -/
inductive Use (F : Type) where
  | draw (c : DRCall F) (backed : c.Backed)
  | registerFont (font : Option F) (id : UInt8)
  | drFlush
  | drReset

/-- The calls that change the mask. -/
inductive MaskCall where
  | drSetRecordMask (mask : UInt32)
  | drIgnore (features : UInt32)
  | drAllow (features : UInt32)

/-- The calls that leave the limit. -/
inductive RecordingCall (F : Type) where
  | use (u : Use F)
  | mask (m : MaskCall)

/-- Make a call that changes the mask. -/
def MaskCall.run (r : DrawReplay F) : MaskCall → DrawReplay F
  | drSetRecordMask mask => { r with recordMask := mask }
  | drIgnore features => { r with recordMask := r.recordMask &&& ~~~features }
  | drAllow features => { r with recordMask := r.recordMask ||| features }

/-- The bytes of the text that a call writes into its command. -/
def RecordingCall.textBytes : RecordingCall F → Nat
  | use (.draw c _) => c.textBytes
  | _ => 0

section Runs

variable [DecidableEq F] (face : F → GFXfont)

/-- Make a call that leaves the mask and the limit. -/
def Use.run (r : DrawReplay F) : Use F → DrawReplay F
  | draw c _ => c.run face r
  | registerFont none _ => r
  | registerFont (some font) id => r.registerFont font id
  | drFlush => r.drFlush
  | drReset => r.drReset

/-- Make all of them. -/
def Use.runAll (r : DrawReplay F) (uses : List (Use F)) : DrawReplay F :=
  uses.foldl (Use.run face) r

/-- Make a call that leaves the limit. -/
def RecordingCall.run (r : DrawReplay F) : RecordingCall F → DrawReplay F
  | use u => u.run face r
  | mask m => m.run r

end Runs

/-! ## A mask only filters -/

/-- The body that a recorder exports. -/
def DrawReplay.exportedBody (r : DrawReplay F) : List UInt8 := r.drExport.drop drHeaderSize

@[simp] theorem DrawReplay.exportedBody_eq (r : DrawReplay F) :
    r.exportedBody = r.stream ++ [DROp.endOp.toByte] := by
  rw [exportedBody, drExport, ← r.exportHeader.length_bytes, List.drop_left]

/-- The recorder `r` has what the mask `M` and the limit `L` keep of the commands of `a`. -/
structure Projects (fonts : Option (DRFontTable F)) (M : UInt32) (L : Nat) (a r : DrawReplay F) :
    Prop where
  body : ∃ cs : Cmds F, cs.Encoded fonts ∧ a.stream = cs.bytes ∧ r.stream = (cs.kept M L).bytes
  twins : Twins a r
  mask : r.recordMask = M
  limit : r.maxInlineBytes = L

section Projection

variable [DecidableEq F] {fonts : Option (DRFontTable F)} {M : UInt32} {L : Nat}
  {a r : DrawReplay F}

theorem Projects.run (h : Projects fonts M L a r) (face : F → GFXfont) (u : Use F) :
    Projects fonts M L (u.run face a) (u.run face r) := by
  have hnone : ∃ cs : Cmds F, cs.Encoded fonts ∧ ([] : List UInt8) = cs.bytes ∧
      ([] : List UInt8) = (cs.kept M L).bytes :=
    ⟨[], fun _ hc => absurd hc List.not_mem_nil, rfl, rfl⟩
  cases u with
  | draw c backed =>
      obtain ⟨cs, hcs, ha, hr⟩ := h.body
      obtain ⟨ds, hds, -⟩ := @offers_run F _ fonts _ _ face h.twins c backed
      refine ⟨⟨cs ++ ds, hcs.append hds.encoded, ?_, ?_⟩, hds.twins, hds.mask.trans h.mask,
        hds.limit.trans h.limit⟩
      · rw [Use.run, hds.all, ha, Cmds.bytes_append]
      · rw [Use.run, hds.stream, hr, h.mask, h.limit, Cmds.kept_append, Cmds.bytes_append]
  | registerFont font id =>
      cases font with
      | none => exact h
      | some font =>
          exact ⟨h.body, ⟨h.twins.mask, h.twins.limit, h.twins.gfx,
            by rw [Use.run, DrawReplay.registerFont, h.twins.fontIds]; rfl, h.twins.liveAll,
            h.twins.live⟩, h.mask, h.limit⟩
  | drFlush =>
      exact ⟨hnone, ⟨h.twins.mask, h.twins.limit, h.twins.gfx, h.twins.fontIds, h.twins.liveAll,
        h.twins.live⟩, h.mask, h.limit⟩
  | drReset =>
      exact ⟨hnone, ⟨h.twins.mask, h.twins.limit,
        by rw [Use.run, drReset, h.twins.gfx]; rfl, rfl, h.twins.liveAll, h.twins.live⟩, h.mask,
        h.limit⟩

theorem Projects.runAll (h : Projects fonts M L a r) (face : F → GFXfont) (uses : List (Use F)) :
    Projects fonts M L (Use.runAll face a uses) (Use.runAll face r uses) := by
  induction uses generalizing a r with
  | nil => exact h
  | cons u uses ih => exact ih (h.run face u)

/-- Whatever is drawn, a mask and a limit take the commands of the other families and the bitmaps
that are too long out of the exported body.  The others keep their bytes and their order, and the
draw state is that of the recorder that records everything. -/
theorem body_projects (fonts : Option (DRFontTable F)) (face : F → GFXfont) (w h : Int16)
    (M : UInt32) (L : Nat) (uses : List (Use F)) :
    let all : DrawReplay F := Use.runAll face
      { DrawReplay.new w h with recordMask := drRecAll, maxInlineBytes := 0 } uses
    let r : DrawReplay F := Use.runAll face
      { DrawReplay.new w h with recordMask := M, maxInlineBytes := L } uses
    (∃ cs : Cmds F, cs.Encoded fonts ∧ all.exportedBody = cs.bytes ++ [DROp.endOp.toByte] ∧
      r.exportedBody = (cs.kept M L).bytes ++ [DROp.endOp.toByte]) ∧
    r.gfx = all.gfx ∧ r.fontIds = all.fontIds := by
  have hnew : Projects fonts M L
      ({ DrawReplay.new w h with recordMask := drRecAll, maxInlineBytes := 0 } : DrawReplay F)
      { DrawReplay.new w h with recordMask := M, maxInlineBytes := L } :=
    ⟨⟨[], fun _ hc => absurd hc List.not_mem_nil, rfl, rfl⟩, ⟨rfl, rfl, rfl, rfl, rfl, rfl⟩, rfl,
      rfl⟩
  have hrun := hnew.runAll face uses
  obtain ⟨cs, hcs, ha, hr⟩ := hrun.body
  refine ⟨⟨cs, hcs, ?_, ?_⟩, hrun.twins.gfx.symm, hrun.twins.fontIds.symm⟩
  · rw [exportedBody_eq, ha]
  · rw [exportedBody_eq, hr]

end Projection

/-! ## The limit on what is inlined -/

/-- A stream is commands in at most one way. -/
theorem Commands.unique {fonts : Option (DRFontTable F)} {b : List UInt8}
    {cs cs' : List (GfxCall F)} (h : Commands fonts b cs) (h' : Commands fonts b cs') :
    cs = cs' := by
  have hnew := @DRReader.holds_new (b ++ [DROp.endOp.toByte]) _ (Nat.le_refl _)
  rw [List.take_length] at hnew
  have hrun := renderLoop_commands h hnew (Nat.lt_succ_of_le (Nat.le_max_left _ cs'.length))
  have hrun' := renderLoop_commands h' hnew (Nat.lt_succ_of_le (Nat.le_max_right cs.length _))
  exact congrArg Prod.snd (hrun.symm.trans hrun')

theorem Cmds.commands {fonts : Option (DRFontTable F)} {cs : Cmds F} (h : cs.Encoded fonts) :
    Commands fonts cs.bytes (cs.map Prod.fst) := by
  induction cs with
  | nil => exact .nil
  | cons c cs ih =>
      exact (h c List.mem_cons_self).append (ih fun c hc => h c (List.mem_cons_of_mem _ hc))

theorem Cmds.Encoded.kept {fonts : Option (DRFontTable F)} {cs : Cmds F} (h : cs.Encoded fonts)
    (M : UInt32) (L : Nat) : Cmds.Encoded fonts (cs.kept M L) :=
  fun c hc => h c (List.mem_of_mem_filter hc)

/-- The bytes that a command inlines: pixels, masks or text. -/
def GfxCall.inlinePayload (c : GfxCall F) : Nat := c.inlineBitmap + c.inlineText

/-- Only a command of the text family inlines text, and it inlines nothing else. -/
theorem GfxCall.of_inlineText {c : GfxCall F} (h : c.inlineText ≠ 0) :
    c.op.family = drRecText ∧ c.inlineBitmap = 0 := by
  cases c with
  | writeText => exact ⟨rfl, rfl⟩
  | setText => exact ⟨rfl, rfl⟩
  | _ => exact absurd rfl h

/-- What is kept is as long as the limit allows if its text is. -/
theorem GfxCall.Kept.inlinePayload_le_iff {M : UInt32} {L : Nat} {c : GfxCall F} (h : c.Kept M L)
    (hL : 0 < L) : c.inlinePayload ≤ L ↔ c.inlineText ≤ L := by
  have hbitmap : c.inlineBitmap ≤ L := h.2.resolve_left (Nat.ne_of_gt hL)
  rw [inlinePayload]
  by_cases htext : c.inlineText = 0
  · rw [htext, Nat.add_zero]
    exact iff_of_true hbitmap (Nat.zero_le L)
  · rw [(of_inlineText htext).2, Nat.zero_add]

/-- No command in the stream inlines more than `L` bytes. -/
def DrawReplay.InlineBounded (fonts : Option (DRFontTable F)) (L : Nat) (r : DrawReplay F) : Prop :=
  ∃ cs, Commands fonts r.stream cs ∧ ∀ c ∈ cs, c.inlinePayload ≤ L

/-- The text of a call is no longer than the limit, or the mask leaves it out. -/
def RecordingCall.TextFits (L : Nat) (r : DrawReplay F) (c : RecordingCall F) : Prop :=
  r.recordMask &&& drRecText ≠ 0 → c.textBytes ≤ L

instance (L : Nat) (r : DrawReplay F) (c : RecordingCall F) : Decidable (c.TextFits L r) :=
  inferInstanceAs (Decidable (_ → _))

section Limit

variable {fonts : Option (DRFontTable F)} {L : Nat} {r : DrawReplay F}

/-- Of commands that are kept, those with too long a text are too long. -/
theorem kept_bounded_iff {M : UInt32} {cs : Cmds F} (hL : 0 < L) :
    (∀ c ∈ (cs.kept M L).map Prod.fst, c.inlinePayload ≤ L) ↔
      (M &&& drRecText ≠ 0 → ∀ c ∈ cs, c.1.inlineText ≤ L) := by
  have hmem : ∀ c, c ∈ cs.kept M L ↔ c ∈ cs ∧ c.1.Kept M L := fun c => by
    rw [Cmds.kept, List.mem_filter, decide_eq_true_iff]
  constructor
  · intro h htext c hc
    by_contra hlong
    have hsome : c.1.inlineText ≠ 0 := fun hzero => hlong (by rw [hzero]; exact Nat.zero_le L)
    obtain ⟨hfamily, hbitmap⟩ := GfxCall.of_inlineText hsome
    have hkept : c.1.Kept M L :=
      ⟨by rw [hfamily]; exact htext, Or.inr (by rw [hbitmap]; exact Nat.zero_le L)⟩
    exact hlong ((hkept.inlinePayload_le_iff hL).mp
      (h c.1 (List.mem_map_of_mem ((hmem c).mpr ⟨hc, hkept⟩))))
  · intro h c hc
    obtain ⟨d, hd, rfl⟩ := List.mem_map.mp hc
    obtain ⟨hd, hkept⟩ := (hmem d).mp hd
    rw [hkept.inlinePayload_le_iff hL]
    by_cases hsome : d.1.inlineText = 0
    · rw [hsome]
      exact Nat.zero_le L
    · refine h ?_ d hd
      rw [← (GfxCall.of_inlineText hsome).1]
      exact hkept.1

/-- A recorder that records everything, as a twin. -/
theorem twins_all (h : r.suppress = false) :
    Twins { r with recordMask := drRecAll, maxInlineBytes := 0 } r :=
  ⟨rfl, rfl, rfl, rfl, h, h⟩

/-- A live recorder with the limit `L`, and no command in its stream that is longer. -/
structure Limited (fonts : Option (DRFontTable F)) (L : Nat) (r : DrawReplay F) : Prop where
  limit : r.maxInlineBytes = L
  live : r.suppress = false
  bounded : r.InlineBounded fonts L

theorem inlineBounded_nil (h : r.stream = []) : r.InlineBounded fonts L :=
  ⟨[], by rw [h]; exact .nil, fun _ hc => absurd hc List.not_mem_nil⟩

variable [DecidableEq F] (face : F → GFXfont)

/-- A draw call keeps the bound just where its text fits. -/
theorem Limited.draw_iff (h : Limited fonts L r) (hL : 0 < L) (c : DRCall F) (hc : c.Backed) :
    (c.run face r).InlineBounded fonts L ↔ (r.recordMask &&& drRecText ≠ 0 → c.textBytes ≤ L) := by
  obtain ⟨ds, hds, htext⟩ := @offers_run F _ fonts _ _ face (twins_all h.live) c hc
  obtain ⟨cs, hcs, hbound⟩ := h.bounded
  have hstream : Commands fonts (c.run face r).stream
      (cs ++ (ds.kept r.recordMask L).map Prod.fst) := by
    rw [hds.stream, h.limit]
    exact hcs.append (Cmds.commands (hds.encoded.kept _ _))
  rw [← htext L, ← kept_bounded_iff hL]
  constructor
  · rintro ⟨cs', hcs', hbound'⟩ c hc
    rw [hcs'.unique hstream] at hbound'
    exact hbound' c (List.mem_append_right _ hc)
  · intro hbound'
    refine ⟨_, hstream, fun c hc => ?_⟩
    rcases List.mem_append.mp hc with hc | hc
    · exact hbound c hc
    · exact hbound' c hc

/-- A call keeps the bound just where its text fits. -/
theorem Limited.run_iff (h : Limited fonts L r) (hL : 0 < L) (c : RecordingCall F) :
    (c.run face r).InlineBounded fonts L ↔ c.TextFits L r := by
  cases c with
  | use u =>
      cases u with
      | draw c backed => exact h.draw_iff face hL c backed
      | registerFont font id =>
          refine iff_of_true ?_ fun _ => Nat.zero_le L
          cases font with
          | none => exact h.bounded
          | some font => exact h.bounded
      | drFlush => exact iff_of_true (inlineBounded_nil rfl) fun _ => Nat.zero_le L
      | drReset => exact iff_of_true (inlineBounded_nil rfl) fun _ => Nat.zero_le L
  | mask m =>
      refine iff_of_true ?_ fun _ => Nat.zero_le L
      cases m with
      | drSetRecordMask mask => exact h.bounded
      | drIgnore features => exact h.bounded
      | drAllow features => exact h.bounded

theorem Use.run_settings (hlive : r.suppress = false) (u : Use F) :
    (u.run face r).maxInlineBytes = r.maxInlineBytes ∧ (u.run face r).suppress = false := by
  cases u with
  | draw c backed =>
      obtain ⟨cs, hcs, -⟩ := @offers_run F _ none _ _ face (twins_all hlive) c backed
      exact ⟨hcs.limit, hcs.twins.live⟩
  | registerFont font id =>
      cases font with
      | none => exact ⟨rfl, hlive⟩
      | some font => exact ⟨rfl, hlive⟩
  | drFlush => exact ⟨rfl, hlive⟩
  | drReset => exact ⟨rfl, hlive⟩

theorem RecordingCall.run_settings (hlive : r.suppress = false) (c : RecordingCall F) :
    (c.run face r).maxInlineBytes = r.maxInlineBytes ∧ (c.run face r).suppress = false := by
  cases c with
  | use u => exact u.run_settings face hlive
  | mask m =>
      cases m with
      | drSetRecordMask mask => exact ⟨rfl, hlive⟩
      | drIgnore features => exact ⟨rfl, hlive⟩
      | drAllow features => exact ⟨rfl, hlive⟩

/-- A recorder puts nothing out before an export. -/
def RecordingCall.react (r : DrawReplay F) (c : RecordingCall F) : DrawReplay F × List Empty :=
  (c.run face r, [])

theorem Limited.along_iff (h : Limited fonts L r) (hL : 0 < L) (calls : List (RecordingCall F)) :
    Reactive.Along (RecordingCall.react face)
        (fun r c => (c.run face r).InlineBounded fonts L) r calls ↔
      Reactive.Along (RecordingCall.react face) (fun r c => c.TextFits L r) r calls := by
  induction calls generalizing r with
  | nil => exact Iff.rfl
  | cons c calls ih =>
      have hstep := h.run_iff face hL c
      have hsettings := c.run_settings face h.live
      rw [Reactive.Along, Reactive.Along, hstep]
      refine and_congr_right fun hfits => ih ?_
      exact ⟨hsettings.1.trans h.limit, hsettings.2, hstep.mpr hfits⟩

/-- Under a limit that was set on an empty recorder, no command ever inlines more bytes than it
just where no call that records text has a text that is longer. -/
theorem inlineBounded_iff (fonts : Option (DRFontTable F)) (impl : BaseText F) (w h : Int16)
    (before : List (Action F))
    (hempty : (Action.runAll face impl (DrawReplay.new w h) before).stream = []) (L : Nat)
    (hL : 0 < L) (calls : List (RecordingCall F)) :
    let r := { Action.runAll face impl (DrawReplay.new w h) before with maxInlineBytes := L }
    Reactive.Along (RecordingCall.react face)
        (fun r c => (c.run face r).InlineBounded fonts L) r calls ↔
      Reactive.Along (RecordingCall.react face) (fun r c => c.TextFits L r) r calls := by
  intro r
  have hnew : WellFormed fonts (DrawReplay.new w h : DrawReplay F) := wellFormed_new w h
  have hlimited : Limited fonts L r :=
    ⟨rfl, (hnew.runAll face impl before).live, inlineBounded_nil hempty⟩
  exact hlimited.along_iff face hL calls

end Limit

/-- A text of one byte, under a limit of one. -/
theorem inlineBounded_iff_one :
    let face : Empty → GFXfont := Empty.elim
    let calls : List (RecordingCall Empty) := [.use (.draw (.writeText (some [97, 0])) trivial)]
    Reactive.Along (RecordingCall.react face)
      (fun r c => (c.run face r).InlineBounded none 1)
      { Action.runAll face (.blank face) (DrawReplay.new 8 8) [] with maxInlineBytes := 1 }
      calls :=
  (inlineBounded_iff Empty.elim none (.blank Empty.elim) 8 8 [] rfl 1 (by decide) _).mpr
    ⟨fun _ => by decide, trivial⟩

/-- A text of two bytes is recorded under a limit of one. -/
theorem not_inlineBounded_text :
    let face : Empty → GFXfont := Empty.elim
    let c : RecordingCall Empty := .use (.draw (.writeText (some [97, 98, 0])) trivial)
    ¬ (c.run face { DrawReplay.new 8 8 with maxInlineBytes := 1 }).InlineBounded none 1 := by
  intro face c hbound
  have hlimited : Limited none 1 ({ DrawReplay.new 8 8 with maxInlineBytes := 1 } :
      DrawReplay Empty) := ⟨rfl, rfl, inlineBounded_nil rfl⟩
  have hfits := (hlimited.run_iff face (by decide) c).mp hbound
  exact absurd (hfits (by decide)) (by decide)

end MFoES.Libgfx
