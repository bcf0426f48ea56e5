import MFoES.Usbproto.RxBuf

/-!
# The frames of a byte stream

What the frames of a stream of bytes are, with no parser and no chunk in
sight.  `frameScanner cap` looks at the front of the stream.  Without a whole
header it waits.  A header with the wrong magic, or with a length over `cap`,
is no frame start.  A header with its whole payload is a frame.

The parsers of the format are compared with this: `FrameParser` at its cap
`MAX_FRAME_SIZE`, and the receive loop of the daemon, which has no cap, at one
that no 32-bit length is over.
-/

namespace MFoES.Usbproto

open Pattern Incremental LittleEndian

/-! ## The scanner -/

/-- A header no frame starts with: wrong magic, or a length over the cap. -/
def FrameHeader.Bad (cap : Nat) (hdr : FrameHeader) : Prop :=
  hdr.magic ≠ frameMagic ∨ cap < hdr.length.toNat

instance (cap : Nat) (hdr : FrameHeader) : Decidable (hdr.Bad cap) :=
  inferInstanceAs (Decidable (_ ∨ _))

/-- The frame a header announces, given the bytes it stands at. -/
def FrameHeader.frame (hdr : FrameHeader) (R : List UInt8) : Frame :=
  ⟨hdr.channel, hdr.flags, (R.drop headerSize).take hdr.length.toNat⟩

/-- Header and payload bytes of the frame a header announces. -/
def FrameHeader.total (hdr : FrameHeader) : Nat := headerSize + hdr.length.toNat

/-- What the front of a stream is. -/
def frameVerdict (cap : Nat) (R : List UInt8) : Verdict Frame :=
  match decodeHeader R with
  | none => .wait
  | some hdr =>
      if hdr.Bad cap then .skip
      else if R.length < hdr.total then .wait
      else .emit hdr.total (hdr.frame R)

theorem frameVerdict_eq_skip {cap : Nat} {R : List UInt8} :
    frameVerdict cap R = .skip ↔ ∃ hdr, decodeHeader R = some hdr ∧ hdr.Bad cap := by
  unfold frameVerdict
  cases hd : decodeHeader R with
  | none => simp
  | some hdr =>
      by_cases hb : hdr.Bad cap
      · simp [hb]
      · by_cases hl : R.length < hdr.total <;> simp [hb, hl]

theorem frameVerdict_eq_emit {cap : Nat} {R : List UInt8} {n : Nat} {f : Frame} :
    frameVerdict cap R = .emit n f ↔ ∃ hdr, decodeHeader R = some hdr ∧ ¬ hdr.Bad cap ∧
      hdr.total ≤ R.length ∧ hdr.total = n ∧ hdr.frame R = f := by
  unfold frameVerdict
  cases hd : decodeHeader R with
  | none => simp
  | some hdr =>
      by_cases hb : hdr.Bad cap
      · simp [hb]
      · by_cases hl : R.length < hdr.total
        · simp [hb, hl]
        · simp [hb, if_neg hl, Nat.le_of_not_lt hl]

theorem frameVerdict_eq_wait {cap : Nat} {R : List UInt8} :
    frameVerdict cap R = .wait ↔ R.length < headerSize ∨
      ∃ hdr, decodeHeader R = some hdr ∧ ¬ hdr.Bad cap ∧ R.length < hdr.total := by
  rcases Nat.lt_or_ge R.length headerSize with hlen | hlen
  · rw [frameVerdict, decodeHeader_of_short hlen]
    simp [hlen]
  · obtain ⟨hdr, hd⟩ := decodeHeader_isSome hlen
    rw [frameVerdict, hd]
    by_cases hb : hdr.Bad cap
    · simp [hb, Nat.not_lt.mpr hlen]
    · by_cases hl : R.length < hdr.total <;> simp [hb, hl, Nat.not_lt.mpr hlen]

/-- A payload that has wholly arrived does not depend on what follows. -/
theorem FrameHeader.frame_append (hdr : FrameHeader) {R : List UInt8} (X : List UInt8)
    (h : hdr.total ≤ R.length) : hdr.frame (R ++ X) = hdr.frame R := by
  rw [FrameHeader.total] at h
  rw [FrameHeader.frame, FrameHeader.frame, List.drop_append_of_le_length (by omega),
    List.take_append_of_le_length (by rw [List.length_drop]; omega)]

/-- The scanner of the frames with payloads up to `cap`. -/
def frameScanner (cap : Nat) : Scanner UInt8 Frame where
  verdict := frameVerdict cap
  skip_ne_nil := by
    rintro R h rfl
    obtain ⟨hdr, hd, -⟩ := frameVerdict_eq_skip.mp h
    cases hd
  emit_pos := by
    intro R n f h
    obtain ⟨hdr, -, -, -, rfl, -⟩ := frameVerdict_eq_emit.mp h
    exact Nat.add_pos_left (by decide) _
  emit_le := by
    intro R n f h
    obtain ⟨hdr, -, -, hle, rfl, -⟩ := frameVerdict_eq_emit.mp h
    exact hle
  skip_append := by
    intro R X h
    obtain ⟨hdr, hd, hb⟩ := frameVerdict_eq_skip.mp h
    exact frameVerdict_eq_skip.mpr
      ⟨hdr, (decodeHeader_append X (length_of_decodeHeader hd)).trans hd, hb⟩
  emit_append := by
    intro R n f X h
    obtain ⟨hdr, hd, hb, hle, hn, hf⟩ := frameVerdict_eq_emit.mp h
    refine frameVerdict_eq_emit.mpr
      ⟨hdr, (decodeHeader_append X (length_of_decodeHeader hd)).trans hd, hb, ?_, hn,
        (hdr.frame_append X hle).trans hf⟩
    rw [List.length_append]
    omega

@[simp] theorem frameScanner_verdict (cap : Nat) (R : List UInt8) :
    (frameScanner cap).verdict R = frameVerdict cap R := rfl

/-- A stream shorter than a header has no frame. -/
theorem frames_of_short {cap : Nat} {R : List UInt8} (h : R.length < headerSize) :
    (frameScanner cap).records R = [] := by
  refine (frameScanner cap).records_of_short (m := headerSize) (fun hv => ?_) R h
  obtain ⟨hdr, -, -, -, rfl, -⟩ := frameVerdict_eq_emit.mp hv
  exact Nat.le_add_right _ _

theorem kMagicBytes_ne_nil : kMagicBytes ≠ [] := by decide

/-- No frame starts where the magic does not. -/
theorem syncsOn_kMagicBytes (cap : Nat) : (frameScanner cap).SyncsOn kMagicBytes := by
  intro R hR hm
  by_cases hlen : R.length < headerSize
  · rw [frames_of_short hlen, frames_of_short]
    rw [List.length_drop]
    omega
  · obtain ⟨hdr, hd⟩ := decodeHeader_isSome (Nat.le_of_not_lt hlen)
    refine (frameScanner cap).records_of_skip (frameVerdict_eq_skip.mpr ⟨hdr, hd, Or.inl ?_⟩)
    rw [Ne, decodeHeader_magic hd]
    exact hm

/-! ## Frames in a stream -/

/-- The header of an encoded frame. -/
theorem decodeHeader_encode (f : Frame) (X : List UInt8) :
    decodeHeader (f.encode ++ X) =
      some ⟨frameMagic, f.channel, f.flags, 0, UInt32.ofNat f.payload.length⟩ := by
  rw [f.encode_eq, List.append_assoc]
  exact decodeHeader_encodeHeader _ _ _ _

/-- An encoded frame is recognised, whatever follows. -/
theorem encodes_encode {cap : Nat} {f : Frame} (hcap : f.payload.length ≤ cap)
    (hf : f.payload.length < 2 ^ 32) : (frameScanner cap).Encodes f.encode f := by
  intro X
  have hlen : (UInt32.ofNat f.payload.length).toNat = f.payload.length :=
    UInt32.toNat_ofNat_of_lt' hf
  rw [frameScanner_verdict, frameVerdict_eq_emit]
  refine ⟨⟨frameMagic, f.channel, f.flags, 0, UInt32.ofNat f.payload.length⟩, ?_, ?_, ?_, ?_, ?_⟩
  · exact decodeHeader_encode f X
  · rintro (h | h)
    · exact h rfl
    · change cap < (UInt32.ofNat f.payload.length).toNat at h
      omega
  · rw [FrameHeader.total, hlen, List.length_append, f.length_encode]
    omega
  · rw [FrameHeader.total, hlen, f.length_encode]
  · rw [FrameHeader.frame, f.encode_eq, List.append_assoc,
      List.drop_left' (length_encodeHeader _ _ _), hlen, List.take_left]

/-- An encoded frame is read off the front of a stream. -/
theorem frames_encode {cap : Nat} {f : Frame} (hcap : f.payload.length ≤ cap)
    (hf : f.payload.length < 2 ^ 32) (X : List UInt8) :
    (frameScanner cap).records (f.encode ++ X) = f :: (frameScanner cap).records X := by
  rw [(frameScanner cap).records_of_emit (encodes_encode hcap hf X), List.drop_left]

/-- What is held, with what is still to come, is a sequence of encoded frames. -/
def OnFrames (cap : Nat) (R X : List UInt8) : Prop :=
  ∃ fs : List Frame, (∀ f ∈ fs, f.payload.length ≤ cap) ∧ R ++ X = fs.flatMap Frame.encode

theorem OnFrames.append {cap : Nat} {R Y X : List UInt8} (h : OnFrames cap R (Y ++ X)) :
    OnFrames cap (R ++ Y) X := by
  obtain ⟨fs, hfs, heq⟩ := h
  exact ⟨fs, hfs, by rw [List.append_assoc, heq]⟩

theorem OnFrames.onRecords {cap : Nat} (hcap : cap < 2 ^ 32) {R X : List UInt8}
    (h : OnFrames cap R X) : (frameScanner cap).OnRecords R X := by
  obtain ⟨fs, hfs, heq⟩ := h
  refine ⟨fs.map Frame.encode, fun e he => ?_, heq.trans List.flatMap_def⟩
  obtain ⟨f, hf, rfl⟩ := List.mem_map.mp he
  exact ⟨f, encodes_encode (hfs f hf) (Nat.lt_of_le_of_lt (hfs f hf) hcap)⟩

theorem OnFrames.emit {cap : Nat} (hcap : cap < 2 ^ 32) {R X : List UInt8} {n : Nat} {f : Frame}
    (h : OnFrames cap R X) (hemit : frameVerdict cap R = .emit n f) :
    OnFrames cap (R.drop n) X := by
  obtain ⟨fs, hfs, heq⟩ := h
  have hemit' := (frameScanner cap).emit_append X hemit
  have hle := (frameScanner cap).emit_le hemit
  cases fs with
  | nil =>
      rw [heq] at hemit'
      have hpos := (frameScanner cap).emit_pos hemit'
      exact absurd ((frameScanner cap).emit_le hemit') (Nat.not_le.mpr hpos)
  | cons g fs =>
      have hg := hfs g List.mem_cons_self
      rw [heq, List.flatMap_cons, encodes_encode hg (Nat.lt_of_le_of_lt hg hcap)] at hemit'
      cases hemit'
      refine ⟨fs, fun k hk => hfs k (List.mem_cons_of_mem _ hk), ?_⟩
      rw [← List.drop_append_of_le_length hle, heq, List.flatMap_cons, List.drop_left]

/-- The frames of a stream of encoded frames. -/
theorem frames_flatMap_encode {cap : Nat} (hcap : cap < 2 ^ 32) {fs : List Frame}
    (h : ∀ f ∈ fs, f.payload.length ≤ cap) :
    (frameScanner cap).records (fs.flatMap Frame.encode) = fs := by
  induction fs with
  | nil => exact (frameScanner cap).records_nil
  | cons f fs ih =>
      have hf := h f List.mem_cons_self
      rw [List.flatMap_cons, frames_encode hf (Nat.lt_of_le_of_lt hf hcap),
        ih fun g hg => h g (List.mem_cons_of_mem _ hg)]

/-- Bytes free of the magic are no frame, alone or before a frame. -/
theorem frames_garbage (cap : Nat) {g : List UInt8} (hg : ¬ kMagicBytes <:+: g) :
    (frameScanner cap).records g = [] ∧
      ∀ rest, (frameScanner cap).records (g ++ (kMagicBytes ++ rest)) =
        (frameScanner cap).records (kMagicBytes ++ rest) := by
  constructor
  · induction g with
    | nil => exact (frameScanner cap).records_nil
    | cons b g ih =>
        rw [syncsOn_kMagicBytes cap (b :: g) (List.cons_ne_nil b g) fun h => hg h.isInfix]
        exact ih fun h => hg (h.trans (List.suffix_cons b g).isInfix)
  · induction g with
    | nil => exact fun rest => rfl
    | cons b g ih =>
        intro rest
        have hnot : ¬ kMagicBytes <+: b :: (g ++ (kMagicBytes ++ rest)) :=
          unbordered_kMagicBytes.not_occurs_before hg rest (i := 0) (Nat.succ_pos _)
        rw [List.cons_append, syncsOn_kMagicBytes cap _ (List.cons_ne_nil _ _) hnot]
        exact ih (fun h => hg (h.trans (List.suffix_cons b g).isInfix)) rest

theorem Frame.encode_eq_kMagicBytes_append (f : Frame) :
    ∃ rest, f.encode = kMagicBytes ++ rest := by
  rw [f.encode_eq]
  exact ⟨_, rfl⟩

/-- A frame that is there is there as encoded, if nothing is in its reserved
bytes. -/
theorem take_total {cap : Nat} {R : List UInt8} {hdr : FrameHeader}
    (hd : decodeHeader R = some hdr) (hgood : ¬ hdr.Bad cap) (htot : hdr.total ≤ R.length)
    (hr : hdr.reserved = 0) : R.take hdr.total = (hdr.frame R).encode := by
  have hm : hdr.magic = frameMagic := Decidable.byContradiction fun hne => hgood (Or.inl hne)
  have hlen : ((R.drop headerSize).take hdr.length.toNat).length = hdr.length.toNat := by
    rw [FrameHeader.total] at htot
    rw [List.length_take, List.length_drop]
    omega
  rw [FrameHeader.total, List.take_add, take_of_decodeHeader hd hm hr, Frame.encode_eq,
    FrameHeader.frame]
  simp only [hlen, UInt32.ofNat_toNat]

/-! ## Where a frame can begin -/

/-- A header that is still to be completed by its payload begins a frame. -/
theorem exists_emit_of_wait {cap : Nat} {R : List UInt8} {hdr : FrameHeader}
    (hd : decodeHeader R = some hdr) (hb : ¬ hdr.Bad cap) :
    ∃ k n f, frameVerdict cap (R ++ List.replicate k 0) = .emit n f := by
  refine ⟨hdr.total - R.length, hdr.total, _, frameVerdict_eq_emit.mpr ⟨hdr, ?_, hb, ?_, rfl, rfl⟩⟩
  · exact (decodeHeader_append _ (length_of_decodeHeader hd)).trans hd
  · rw [List.length_append, List.length_replicate]
    omega

/-- Where the scanner waits and no frame can begin, there is no whole header. -/
theorem givesUp_frameScanner (cap : Nat) : (frameScanner cap).GivesUp := by
  intro R hwait hno
  rcases frameVerdict_eq_wait.mp hwait with hlt | ⟨hdr, hd, hb, -⟩
  · refine frames_of_short ?_
    rw [List.length_drop]
    omega
  · obtain ⟨k, n, f, hv⟩ := exists_emit_of_wait hd hb
    exact absurd ⟨_, n, f, hv⟩ hno

/-- The header of an empty frame. -/
def emptyHeader : List UInt8 := kMagicBytes ++ List.replicate 8 0

@[simp] theorem length_emptyHeader : emptyHeader.length = 12 := rfl

theorem drop_emptyHeader {k : Nat} (h : 4 ≤ k) :
    emptyHeader.drop k = List.replicate (12 - k) 0 := by
  rw [emptyHeader, List.drop_append, List.drop_eq_nil_of_le (show kMagicBytes.length ≤ k from h),
    List.nil_append, List.drop_replicate]
  congr 1
  change 8 - (k - 4) = 12 - k
  omega

/-- A list with what it lacks of the header of an empty frame. -/
def completeHeader (R : List UInt8) : List UInt8 := R ++ emptyHeader.drop R.length

theorem length_completeHeader (R : List UInt8) : headerSize ≤ (completeHeader R).length := by
  rw [completeHeader, List.length_append, List.length_drop, length_emptyHeader, headerSize]
  omega

theorem getD_completeHeader_of_le {R : List UInt8} {i : Nat} (h : R.length ≤ i) :
    (completeHeader R).getD i 0 = emptyHeader.getD i 0 := by
  rw [completeHeader, List.getD_append_right _ _ _ _ h, List.getD_eq_getElem?_getD,
    List.getElem?_drop, Nat.add_sub_cancel' h, List.getD_eq_getElem?_getD]

/-- The magic, as far as it is there, survives the completion. -/
theorem isPrefix_completeHeader {R X : List UInt8} (h : kMagicBytes <+: R ++ X) :
    kMagicBytes <+: completeHeader R := by
  rcases List.prefix_or_prefix_of_prefix h (List.prefix_append R X) with hm | hR
  · exact hm.trans (List.prefix_append _ _)
  · obtain ⟨Y, hY⟩ := hR
    have hdrop : emptyHeader.drop R.length = Y ++ List.replicate 8 0 := by
      rw [emptyHeader, ← hY, List.append_assoc, List.drop_left]
    rw [completeHeader, hdrop, ← List.append_assoc, hY]
    exact List.prefix_append _ _

/-- A length field, as far as it is there, is not above the length it becomes. -/
theorem get32_completeHeader_le (R X : List UInt8) :
    (get32 (completeHeader R) 8).toNat ≤ (get32 (R ++ X) 8).toNat := by
  have hbyte : ∀ i, emptyHeader.getD i 0 = 0 →
      ((completeHeader R).getD i 0).toNat ≤ ((R ++ X).getD i 0).toNat := by
    intro i hi
    rcases Nat.lt_or_ge i R.length with hlt | hge
    · rw [completeHeader, List.getD_append _ _ _ _ hlt, List.getD_append _ _ _ _ hlt]
    · rw [getD_completeHeader_of_le hge, hi]
      exact Nat.zero_le _
  have h8 := hbyte 8 rfl
  have h9 := hbyte (8 + 1) rfl
  have h10 := hbyte (8 + 2) rfl
  have h11 := hbyte (8 + 3) rfl
  rw [get32, get32, ofLE32_toNat, ofLE32_toNat]
  omega

/-- A frame can begin exactly where the header, completed as that of an empty
frame, is a good one. -/
theorem canBegin_iff {cap : Nat} {R : List UInt8} :
    (frameScanner cap).CanBegin R ↔ frameVerdict cap (completeHeader R) ≠ .skip := by
  constructor
  · rintro ⟨X, n, f, hv⟩ hskip
    obtain ⟨hdr, hd, hb, hle, -, -⟩ := frameVerdict_eq_emit.mp hv
    obtain ⟨hdr', hd', hb'⟩ := frameVerdict_eq_skip.mp hskip
    have hgood : hdr.magic = frameMagic := Decidable.byContradiction fun hm => hb (Or.inl hm)
    rcases hb' with hm | hcap
    · rw [Ne, decodeHeader_magic hd'] at hm
      exact hm (isPrefix_completeHeader ((decodeHeader_magic hd).mp hgood))
    · refine hb (Or.inr (Nat.lt_of_lt_of_le hcap ?_))
      rw [length_eq_of_decodeHeader hd, length_eq_of_decodeHeader hd']
      exact get32_completeHeader_le R X
  · intro h
    obtain ⟨hdr, hd⟩ := decodeHeader_isSome (length_completeHeader R)
    have hb : ¬ hdr.Bad cap := fun hb => h (frameVerdict_eq_skip.mpr ⟨hdr, hd, hb⟩)
    obtain ⟨k, n, f, hv⟩ := exists_emit_of_wait hd hb
    exact Scanner.CanBegin.of_append ⟨_, n, f, hv⟩

instance (cap : Nat) (R : List UInt8) : Decidable ((frameScanner cap).CanBegin R) :=
  decidable_of_iff _ canBegin_iff.symm

/-- Where a frame can begin it can be brought about by bytes in which no frame
begins: the rest of a header, or zeros. -/
theorem exists_quiet {cap : Nat} {R : List UInt8} (hR : R ≠ [])
    (h : (frameScanner cap).CanBegin R) :
    ∃ X n f, frameVerdict cap (R ++ X) = .emit n f ∧
      (X.length < headerSize ∨ ∃ k, X = List.replicate k 0) := by
  obtain ⟨hdr, hd⟩ := decodeHeader_isSome (length_completeHeader R)
  have hb : ¬ hdr.Bad cap :=
    fun hb => canBegin_iff.mp h (frameVerdict_eq_skip.mpr ⟨hdr, hd, hb⟩)
  rcases Nat.lt_or_ge R.length 4 with hlt | hge
  · have hpos := List.length_pos_iff.mpr hR
    have hlen : hdr.length = 0 := by
      rw [length_eq_of_decodeHeader hd, get32, getD_completeHeader_of_le (by omega),
        getD_completeHeader_of_le (by omega), getD_completeHeader_of_le (by omega),
        getD_completeHeader_of_le (by omega)]
      rfl
    refine ⟨emptyHeader.drop R.length, hdr.total, _,
      frameVerdict_eq_emit.mpr ⟨hdr, hd, hb, ?_, rfl, rfl⟩, Or.inl ?_⟩
    · rw [FrameHeader.total, hlen]
      exact length_completeHeader R
    · rw [List.length_drop, length_emptyHeader, headerSize]
      omega
  · obtain ⟨k, n, f, hv⟩ := exists_emit_of_wait hd hb
    rw [completeHeader, List.append_assoc, drop_emptyHeader hge,
      List.replicate_append_replicate] at hv
    exact ⟨_, n, f, hv, Or.inr ⟨_, rfl⟩⟩

end MFoES.Usbproto
