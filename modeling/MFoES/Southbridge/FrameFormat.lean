import MFoES.Northbridge.ErrorDetection
import MFoES.Southbridge.Audio

/-!
# The frames on CS0

`protocol.h` has one layout for what crosses CS0: 8 bytes of header, 256 of samples, the CRC-16 of
these, and two bytes of padding.  `send_audio` and `build_audio_frame` build it alike, and
`parse_audio_response` reads it.  A frame without samples is another matter: `reset` leaves the
CRC out, and the builders in Python put it right behind the header, over the header alone.  A
reader that looks for it behind the samples finds zeros there (`follows_iff`).
-/

namespace MFoES.Southbridge

open LittleEndian Northbridge

/-! ## What the south bridge transfers -/

/-- `SB_FRAME_HEADER_BYTES + SB_AUDIO_PAYLOAD_BYTES`, where the CRC is. -/
def sbCrcOffset : Nat := 264

/-- `SB_FRAME_BYTES`. -/
def sbFrameBytes : Nat := 268

/-- `SB_FTYPE_RESET`. -/
def sbFtypeReset : UInt8 := 0xFE

/-- `tx_buf_`, cleared and with bytes copied to its front. -/
def filled (bytes : List UInt8) : List UInt8 :=
  bytes.take sbFrameBytes ++ List.replicate (sbFrameBytes - bytes.length) 0

/-- The bytes of a frame. -/
def AudioFrame.bytes (frame : AudioFrame) : List UInt8 := frame.covered ++ le16 frame.crc16

/-- What `tx_loop` transfers for a frame. -/
def AudioFrame.txBuf (frame : AudioFrame) : List UInt8 := filled frame.bytes

/-- The frame that `reset` builds.  Only its header is copied. -/
def resetFrame : AudioFrame :=
  ⟨sbFrameMagicHi, sbFrameMagicLo, sbFtypeReset, 0, 0, List.replicate 256 0, 0⟩

/-- What `reset` transfers. -/
def resetTxBuf : List UInt8 := filled (resetFrame.bytes.take 8)

/-! ## The mirror in Python -/

namespace SbProtocol

/-- `FTYPE_AUDIO`. -/
def ftypeAudio : UInt8 := 0x01

/-- `FTYPE_SILENCE`. -/
def ftypeSilence : UInt8 := 0x02

/-- `FTYPE_RESET`. -/
def ftypeReset : UInt8 := 0xFE

/-- `FTYPE_NOP`. -/
def ftypeNop : UInt8 := 0xFF

/-- `AUDIO_MAGIC_HI`. -/
def audioMagicHi : UInt8 := 0x5B

/-- `AUDIO_MAGIC_LO`. -/
def audioMagicLo : UInt8 := 0xA4

/-- One round of the inner loop of `crc16`. -/
def crcRound (crc : Nat) : Nat :=
  if crc &&& 0x8000 ≠ 0 then ((crc <<< 1) ^^^ 0x1021) &&& 0xFFFF else (crc <<< 1) &&& 0xFFFF

/-- `crc16`. -/
def crc16 (data : List UInt8) : Nat :=
  data.foldl (fun crc b => Nat.repeat crcRound 8 (crc ^^^ (b.toNat <<< 8))) 0xFFFF

/-- `header`.  `seq & 0xFFFFFFFF` is packed. -/
def header (ftype : UInt8) (seq : Int) : List UInt8 :=
  [audioMagicHi, audioMagicLo, ftype, 0x00] ++ le32 (UInt32.ofInt seq)

/-- A region with its CRC behind it, padded. -/
def sealed (region : List UInt8) : List UInt8 :=
  let frame := region ++ le16 (UInt16.ofNat (crc16 region))
  frame ++ List.replicate (sbFrameBytes - frame.length) 0

/-- `build_audio_frame`, and the text of its `ValueError`. -/
def buildAudioFrame (pcm : List UInt8) (seq : Int) : Except String (List UInt8) :=
  if pcm.length ≠ 256 then
    .error ("PCM must be exactly 256 bytes, got " ++ toString pcm.length)
  else .ok (sealed (header ftypeAudio seq ++ pcm))

/-- `build_nop_frame`. -/
def buildNopFrame (seq : Int) : List UInt8 := sealed (header ftypeNop seq)

/-- `build_silence_frame`. -/
def buildSilenceFrame (seq : Int) : List UInt8 := sealed (header ftypeSilence seq)

/-- `build_reset_frame`. -/
def buildResetFrame : List UInt8 := sealed (header ftypeReset 0)

/-- `AudioResponse`. -/
structure AudioResponse where
  raw : List UInt8
  magicOk : Bool
  frameType : UInt8
  status : UInt8
  seq : UInt32
  crcOk : Bool

/-- `parse_audio_response`. -/
def parseAudioResponse (rx : List UInt8) : AudioResponse :=
  let rx := if rx.length < sbFrameBytes then
    rx ++ List.replicate (sbFrameBytes - rx.length) 0 else rx
  { raw := rx
    magicOk := rx.getD 0 0 = audioMagicHi && rx.getD 1 0 = audioMagicLo
    frameType := rx.getD 2 0
    status := rx.getD 3 0
    seq := get32 rx 4
    crcOk := (get16 rx sbCrcOffset).toNat = crc16 (rx.take sbCrcOffset) }

end SbProtocol

/-! ## The layout of `protocol.h` -/

/-- A whole frame with the CRC-16 of what stands before it at its place. -/
structure Layout (frame : List UInt8) : Prop where
  length : frame.length = sbFrameBytes
  crc : get16 frame sbCrcOffset = sbCrc16 (frame.take sbCrcOffset)

/-- A frame that one of the builders makes. -/
inductive Built
  /-- `send_audio`, on the samples of a frame. -/
  | audio (pcm : Vector UInt16 128) (seq : UInt32)
  /-- `reset`. -/
  | reset
  | nop (seq : Int)
  | silence (seq : Int)
  | pythonReset

namespace Built

open SbProtocol

/-- The bytes on the wire. -/
def wire : Built → List UInt8
  | audio pcm seq => (audioFrame seq pcm.toList).txBuf
  | reset => resetTxBuf
  | nop seq => buildNopFrame seq
  | silence seq => buildSilenceFrame seq
  | pythonReset => buildResetFrame

/-- The frame follows the layout, and `parse_audio_response` accepts it.  An audio frame is the
one that `build_audio_frame` returns, and comes back with its type and number. -/
def Follows (b : Built) : Prop :=
  Layout b.wire ∧ (parseAudioResponse b.wire).magicOk = true ∧
    (parseAudioResponse b.wire).crcOk = true ∧
      match b with
      | audio pcm seq =>
          buildAudioFrame (pcm.toList.flatMap le16) seq.toNat = .ok b.wire ∧
            (parseAudioResponse b.wire).frameType = (audioFrame seq pcm.toList).frameType ∧
              (parseAudioResponse b.wire).seq = seq
      | _ => True

/-- The two bytes of the CRC of a header are equal. -/
def Palindrome (ftype : UInt8) (seq : Int) : Prop :=
  let crc : UInt16 := sbCrc16 (header ftype seq)
  crc &&& (0xFF : UInt16) = crc >>> (8 : UInt16)

/-- When a frame follows the layout. -/
def Fits : Built → Prop
  | audio _ _ => True
  | reset => False
  | nop seq => Palindrome ftypeNop seq
  | silence seq => Palindrome ftypeSilence seq
  | pythonReset => False

end Built

/-! ## The CRC of short regions -/

theorem iterate_crcBit_eq_zero (n : Nat) (v : UInt16) : crcBit^[n] v = 0 ↔ v = 0 := by
  have hzero : crcBit^[n] 0 = 0 := Function.iterate_fixed (by decide) n
  constructor
  · intro h
    exact crcBit_injective.iterate n (h.trans hzero.symm)
  · rintro rfl
    exact hzero

/-- Zeros leave a register that is not 0 as it is, in that respect. -/
theorem foldl_zeros (n : Nat) (crc : UInt16) :
    (List.replicate n (0 : UInt8)).foldl crcByte crc = 0 ↔ crc = 0 := by
  induction n generalizing crc with
  | zero => exact Iff.rfl
  | succ n ih =>
      have hzero : crc ^^^ ((0 : UInt8).toUInt16 <<< 8) = crc := by simp
      rw [List.replicate_succ, List.foldl_cons, ih, crcByte_eq, hzero, iterate_crcBit_eq_zero]

theorem crcBit_of_lt {v : UInt16} (h : v.toNat < 2 ^ 15) : crcBit v = v <<< 1 := by
  have htop : v.toBitVec[15] = false := Nat.testBit_lt_two_pow h
  rw [crcBit_eq, htop]
  exact UInt16.xor_zero

/-- The register only shifts until a bit gets to its top. -/
theorem toNat_iterate_crcBit (b : UInt8) {k : Nat} (hk : k ≤ 8) :
    (crcBit^[k] b.toUInt16).toNat = b.toNat * 2 ^ k := by
  induction k with
  | zero => exact (Nat.mul_one _).symm
  | succ k ih =>
      have ih := ih (Nat.le_of_succ_le hk)
      have hlt : b.toNat * 2 ^ k < 2 ^ 15 :=
        calc b.toNat * 2 ^ k ≤ b.toNat * 2 ^ 7 :=
              Nat.mul_le_mul_left _ (Nat.pow_le_pow_right Nat.two_pos (Nat.le_of_succ_le_succ hk))
          _ < 2 ^ 8 * 2 ^ 7 := Nat.mul_lt_mul_of_pos_right b.toNat_lt (by decide)
      rw [Function.iterate_succ_apply', crcBit_of_lt (ih ▸ hlt), UInt16.toNat_shiftLeft, ih,
        Nat.shiftLeft_eq, Nat.pow_succ 2 k, ← Nat.mul_assoc]
      exact Nat.mod_eq_of_lt (Nat.mul_lt_mul_of_pos_right hlt Nat.two_pos)

theorem iterate_crcBit_byte (b : UInt8) : crcBit^[8] b.toUInt16 = b.toUInt16 <<< 8 := by
  rw [← UInt16.toNat_inj, toNat_iterate_crcBit b (Nat.le_refl 8), UInt16.toNat_shiftLeft,
    Nat.shiftLeft_eq]
  exact (Nat.mod_eq_of_lt (Nat.mul_lt_mul_of_pos_right b.toNat_lt (by decide))).symm

/-- Two bytes clear the register that is made of them, most significant first. -/
theorem crcByte_two (crc : UInt16) (a b : UInt8) :
    crcByte (crcByte crc a) b = 0 ↔ crc = (a.toUInt16 <<< 8) ^^^ b.toUInt16 := by
  rw [crcByte_eq, crcByte_eq, ← iterate_crcBit_byte b, ← iterate_crcBit_xor,
    iterate_crcBit_eq_zero, iterate_crcBit_eq_zero, UInt16.xor_assoc, UInt16.xor_eq_zero_iff]

/-- A CRC that is least significant byte first clears the register if its bytes are equal. -/
theorem foldl_le16 (crc : UInt16) :
    (le16 crc).foldl crcByte crc = 0 ↔ crc &&& (0xFF : UInt16) = crc >>> (8 : UInt16) := by
  show crcByte (crcByte crc _) _ = 0 ↔ _
  rw [crcByte_two, UInt16.xor_comm, ← or_eq_xor]
  show crc = ofLE16 _ _ ↔ _
  have hlt := crc.toNat_lt
  have hand : (crc &&& (0xFF : UInt16)).toNat = crc.toNat % 2 ^ 8 := by
    rw [UInt16.toNat_and]
    exact Nat.and_two_pow_sub_one_eq_mod _ 8
  rw [← UInt16.toNat_inj, ← UInt16.toNat_inj, ofLE16_toNat, mask_toNat16, mask_toNat16, hand,
    shift8_toNat16]
  omega

/-! ## The mirror of the CRC -/

theorem crcRound_toNat (crc : UInt16) : SbProtocol.crcRound crc.toNat = (crcBit crc).toNat := by
  have hcond : crc.toNat &&& 0x8000 ≠ 0 ↔ crc &&& 0x8000 ≠ 0 := by
    rw [Ne, Ne, ← UInt16.toNat_inj, UInt16.toNat_and]
    rfl
  have hmask : ∀ n : Nat, n &&& 0xFFFF = n % 2 ^ 16 := fun n =>
    Nat.and_two_pow_sub_one_eq_mod n 16
  simp only [SbProtocol.crcRound, crcBit, hcond, hmask]
  split
  · rw [UInt16.toNat_xor, UInt16.toNat_shiftLeft, Nat.xor_mod_two_pow]
    rfl
  · rw [UInt16.toNat_shiftLeft]
    simp

theorem repeat_crcRound (n : Nat) (crc : UInt16) :
    Nat.repeat SbProtocol.crcRound n crc.toNat = (Nat.repeat crcBit n crc).toNat := by
  induction n with
  | zero => rfl
  | succ n ih =>
      show SbProtocol.crcRound (Nat.repeat SbProtocol.crcRound n crc.toNat) = _
      rw [ih, crcRound_toNat]
      rfl

theorem foldl_crcRound (data : List UInt8) (crc : UInt16) :
    data.foldl (fun crc b => Nat.repeat SbProtocol.crcRound 8 (crc ^^^ (b.toNat <<< 8))) crc.toNat =
      (data.foldl crcByte crc).toNat := by
  induction data generalizing crc with
  | nil => rfl
  | cons b data ih =>
      have hlt := b.toNat_lt
      have hb : (b.toUInt16 <<< 8).toNat = b.toNat <<< 8 := by
        rw [UInt16.toNat_shiftLeft, UInt8.toNat_toUInt16, Nat.shiftLeft_eq, Nat.shiftLeft_eq]
        refine Nat.mod_eq_of_lt ?_
        show b.toNat * 2 ^ 8 < 2 ^ 16
        omega
      rw [List.foldl_cons, List.foldl_cons, ← hb, ← UInt16.toNat_xor, repeat_crcRound, ih]
      rfl

/-- Both sides compute one CRC. -/
theorem crc16_eq (data : List UInt8) : SbProtocol.crc16 data = (sbCrc16 data).toNat :=
  foldl_crcRound data 0xFFFF

/-! ## Regions with a CRC behind them -/

section Regions

variable {region : List UInt8}

theorem length_filled {bytes : List UInt8} (h : bytes.length ≤ sbFrameBytes) :
    filled bytes = bytes ++ List.replicate (sbFrameBytes - bytes.length) 0 := by
  rw [filled, List.take_of_length_le h]

/-- What is packed in Python is what is filled in C. -/
theorem sealed_eq (h : region.length + 2 ≤ sbFrameBytes) :
    SbProtocol.sealed region = filled (region ++ le16 (sbCrc16 region)) := by
  rw [length_filled (by simpa using h), SbProtocol.sealed, crc16_eq, UInt16.ofNat_toNat]

theorem get16_zeros (h : region.length = sbCrcOffset) :
    get16 (region ++ List.replicate 4 0) sbCrcOffset = 0 := by
  rw [← h, ← Nat.add_zero region.length, ← get16_drop, List.drop_left]
  rfl

/-- The CRC of a reader, where the one of the region is at its place. -/
theorem layout_whole (h : region.length = sbCrcOffset) :
    Layout (filled (region ++ le16 (sbCrc16 region))) := by
  have hlen : (region ++ le16 (sbCrc16 region)).length = 266 := by simp [h, sbCrcOffset]
  rw [length_filled (by rw [hlen]; decide), List.append_assoc]
  constructor
  · simp [h, sbCrcOffset, sbFrameBytes]
  · have htake : ∀ rest : List UInt8, (region ++ rest).take sbCrcOffset = region := by
      intro rest
      rw [← h, List.take_left]
    have hget : ∀ rest : List UInt8,
        get16 (region ++ (le16 (sbCrc16 region) ++ rest)) sbCrcOffset = sbCrc16 region := by
      intro rest
      rw [← h, ← Nat.add_zero region.length, ← get16_drop, List.drop_left, get16_le16]
    rw [htake, hget]

/-- The CRC of a reader, where a header has nothing behind it. -/
theorem layout_bare (h : region.length = 8) :
    Layout (filled region) → sbCrc16 region = 0 := by
  intro hlayout
  have hfilled : filled region = (region ++ List.replicate 256 0) ++ List.replicate 4 0 := by
    rw [length_filled (by rw [h]; decide), h, List.append_assoc, List.replicate_append_replicate]
    rfl
  have hregion : (region ++ List.replicate 256 (0 : UInt8)).length = sbCrcOffset := by
    rw [List.length_append, List.length_replicate, h]
    rfl
  have hsame := hlayout.crc
  rw [hfilled, get16_zeros hregion, ← hregion, List.take_left] at hsame
  have hzero : List.foldl crcByte 0xFFFF (region ++ List.replicate 256 0) = 0 := hsame.symm
  rw [List.foldl_append, foldl_zeros] at hzero
  exact hzero

/-- The CRC of a reader, where the region is a header and its CRC is behind it. -/
theorem layout_short (h : region.length = 8) :
    Layout (filled (region ++ le16 (sbCrc16 region))) ↔
      sbCrc16 region &&& (0xFF : UInt16) = sbCrc16 region >>> (8 : UInt16) := by
  have hlen : (region ++ le16 (sbCrc16 region)).length = 10 := by simp [h]
  have hfilled : filled (region ++ le16 (sbCrc16 region)) =
      (region ++ le16 (sbCrc16 region) ++ List.replicate 254 0) ++ List.replicate 4 0 := by
    rw [length_filled (by rw [hlen]; decide), hlen, List.append_assoc _ (List.replicate 254 0),
      List.replicate_append_replicate]
    rfl
  have hregion : (region ++ le16 (sbCrc16 region) ++ List.replicate 254 (0 : UInt8)).length =
      sbCrcOffset := by
    simp only [List.length_append, List.length_replicate, length_le16, h]
    rfl
  have hcrc : sbCrc16 (region ++ le16 (sbCrc16 region) ++ List.replicate 254 0) = 0 ↔
      sbCrc16 region &&& (0xFF : UInt16) = sbCrc16 region >>> (8 : UInt16) := by
    show List.foldl crcByte 0xFFFF _ = 0 ↔ _
    rw [List.foldl_append, foldl_zeros, List.foldl_append]
    exact foldl_le16 (sbCrc16 region)
  rw [hfilled, ← hcrc]
  constructor
  · intro hlayout
    have hsame := hlayout.crc
    rw [get16_zeros hregion, ← hregion, List.take_left] at hsame
    exact hsame.symm
  · intro hzero
    constructor
    · rw [List.length_append, hregion]
      rfl
    · rw [get16_zeros hregion, ← hregion, List.take_left, hzero]

end Regions

/-! ## Which frames follow the layout -/

open SbProtocol

/-- A reader accepts what has the magic and follows the layout. -/
theorem parse_of_length {frame : List UInt8} (h : frame.length = sbFrameBytes) :
    (parseAudioResponse frame).crcOk = true ↔ Layout frame := by
  have hraw : ¬ frame.length < sbFrameBytes := by omega
  simp only [parseAudioResponse, if_neg hraw, crc16_eq, decide_eq_true_eq, UInt16.toNat_inj]
  exact ⟨fun hcrc => ⟨h, hcrc⟩, fun hlayout => hlayout.crc⟩

/-- What a reader takes from the front of a frame. -/
theorem parse_header {frame rest : List UInt8} {ftype : UInt8} {seq : UInt32}
    (hlen : frame.length = sbFrameBytes)
    (hframe : frame = [audioMagicHi, audioMagicLo, ftype, 0x00] ++ le32 seq ++ rest) :
    (parseAudioResponse frame).magicOk = true ∧ (parseAudioResponse frame).frameType = ftype ∧
      (parseAudioResponse frame).seq = seq := by
  have hraw : ¬ frame.length < sbFrameBytes := by omega
  have hseq : get32 frame 4 = seq := by
    rw [hframe, List.append_assoc]
    exact get32_append_le32 [audioMagicHi, audioMagicLo, ftype, 0x00] seq rest
  refine ⟨?_, ?_, ?_⟩
  · simp only [parseAudioResponse, if_neg hraw]
    simp [hframe]
  · simp only [parseAudioResponse, if_neg hraw]
    simp [hframe]
  · simp only [parseAudioResponse, if_neg hraw, hseq]

theorem filled_append {region rest : List UInt8} (h : (region ++ rest).length ≤ sbFrameBytes) :
    ∃ rest', filled (region ++ rest) = region ++ rest' :=
  ⟨_, by rw [length_filled h, List.append_assoc]⟩

theorem length_header (ftype : UInt8) (seq : Int) : (header ftype seq).length = 8 := rfl

/-- A frame of Python that has no samples. -/
theorem follows_sealed (ftype : UInt8) (seq : Int) :
    (Layout (sealed (header ftype seq)) ∧
      (parseAudioResponse (sealed (header ftype seq))).magicOk = true ∧
        (parseAudioResponse (sealed (header ftype seq))).crcOk = true) ↔
      Built.Palindrome ftype seq := by
  have hle : (header ftype seq ++ le16 (sbCrc16 (header ftype seq))).length ≤ sbFrameBytes := by
    rw [List.length_append, length_header, length_le16]
    decide
  have hlayout := layout_short (length_header ftype seq)
  rw [← sealed_eq (by rw [length_header]; decide)] at hlayout
  have hiff : Layout (sealed (header ftype seq)) ↔ Built.Palindrome ftype seq := hlayout
  rw [← hiff]
  constructor
  · rintro ⟨hfollows, -, -⟩
    exact hfollows
  · intro hfollows
    obtain ⟨rest, hrest⟩ := filled_append hle
    rw [← sealed_eq (by rw [length_header]; decide)] at hrest
    exact ⟨hfollows, (parse_header hfollows.length hrest).1,
      (parse_of_length hfollows.length).mpr hfollows⟩

theorem length_payload (pcm : Vector UInt16 128) : (pcm.toList.flatMap le16).length = 256 := by
  rw [List.length_flatMap, List.map_congr_left (fun v _ => length_le16 v), List.map_const',
    List.sum_replicate, Vector.length_toList]
  rfl

theorem covered_audioFrame (seq : UInt32) (samples : List UInt16) :
    (audioFrame seq samples).covered =
      header ftypeAudio seq.toNat ++ samples.flatMap le16 := by
  have hseq : UInt32.ofInt (seq.toNat : Int) = seq := by
    have hlt := seq.toNat_lt
    rw [← UInt32.toNat_inj, UInt32.ofInt, UInt32.toNat_ofNat']
    omega
  rw [header, hseq]
  rfl

theorem crc16_audioFrame (seq : UInt32) (samples : List UInt16) :
    (audioFrame seq samples).crc16 = sbCrc16 (audioFrame seq samples).covered := by
  simp only [audioFrame, AudioFrame.covered]

theorem length_covered_audio (pcm : Vector UInt16 128) (seq : UInt32) :
    (audioFrame seq pcm.toList).covered.length = sbCrcOffset := by
  rw [covered_audioFrame, List.length_append, length_header, length_payload]
  rfl

theorem length_sealed_audio (pcm : Vector UInt16 128) (seq : UInt32) :
    (audioFrame seq pcm.toList).covered.length + 2 ≤ sbFrameBytes := by
  rw [length_covered_audio]
  decide

/-- The frame that `send_audio` builds is the one of `build_audio_frame`. -/
theorem buildAudioFrame_eq (pcm : Vector UInt16 128) (seq : UInt32) :
    buildAudioFrame (pcm.toList.flatMap le16) seq.toNat =
      .ok (audioFrame seq pcm.toList).txBuf := by
  rw [buildAudioFrame, if_neg (not_not.mpr (length_payload pcm)), ← covered_audioFrame,
    sealed_eq (length_sealed_audio pcm seq), AudioFrame.txBuf, AudioFrame.bytes,
    crc16_audioFrame]

theorem not_layout_reset : ¬ Layout resetTxBuf := by
  intro hlayout
  have hcrc : sbCrc16 (resetFrame.bytes.take 8) ≠ 0 := by decide +kernel
  exact hcrc (layout_bare rfl hlayout)

/-- An audio frame always follows the layout, a frame of `reset` never, and one of Python without
samples where the two bytes of the CRC of its header are equal. -/
theorem follows_iff (b : Built) : b.Follows ↔ b.Fits := by
  cases b with
  | audio pcm seq =>
      refine iff_of_true ?_ trivial
      have hlayout : Layout (audioFrame seq pcm.toList).txBuf := by
        rw [AudioFrame.txBuf, AudioFrame.bytes, crc16_audioFrame]
        exact layout_whole (length_covered_audio pcm seq)
      have hle : (audioFrame seq pcm.toList).bytes.length ≤ sbFrameBytes := by
        rw [AudioFrame.bytes, List.length_append]
        exact length_sealed_audio pcm seq
      obtain ⟨rest, hrest⟩ := filled_append hle
      rw [AudioFrame.covered, List.append_assoc _ _ rest] at hrest
      obtain ⟨hmagic, htype, hseq⟩ := parse_header hlayout.length hrest
      exact ⟨hlayout, hmagic, (parse_of_length hlayout.length).mpr hlayout,
        buildAudioFrame_eq pcm seq, htype, hseq⟩
  | reset =>
      refine iff_of_false (fun hfollows => ?_) id
      exact not_layout_reset hfollows.1
  | nop seq =>
      rw [Built.Fits, ← follows_sealed]
      simp [Built.Follows, Built.wire, buildNopFrame]
  | silence seq =>
      rw [Built.Fits, ← follows_sealed]
      simp [Built.Follows, Built.wire, buildSilenceFrame]
  | pythonReset =>
      refine iff_of_false (fun hfollows => ?_) id
      have hbytes : ¬ Built.Palindrome ftypeReset 0 := by
        rw [Built.Palindrome]
        decide +kernel
      exact hbytes ((follows_sealed ftypeReset 0).mp ⟨hfollows.1, hfollows.2.1, hfollows.2.2.1⟩)

/-- A NOP frame with number 0, and the frame of `reset`. -/
theorem not_follows_nop : ¬ (Built.nop 0).Follows ∧ ¬ Built.reset.Follows := by
  constructor
  · intro hfollows
    have hbytes : ¬ Built.Palindrome ftypeNop 0 := by
      rw [Built.Palindrome]
      decide +kernel
    exact hbytes ((follows_sealed ftypeNop 0).mp ⟨hfollows.1, hfollows.2.1, hfollows.2.2.1⟩)
  · intro hfollows
    exact not_layout_reset hfollows.1

end MFoES.Southbridge
