import MFoES.Lib.LittleEndian
import MFoES.Lib.Pattern

/-!
# The MUBD wire format

The frame header and its codec, from `usbproto.h` and the first part of
`usbproto.cpp`.  A frame is a header of twelve bytes and a payload.  The header
carries the magic `MUBD`, a channel, flags, two reserved bytes and the payload
length, all little-endian.

A byte range `(pointer, length)` is a list.  A pointer into the middle of a
range is what `List.drop` leaves.
-/

namespace MFoES.Usbproto

open LittleEndian Pattern

/-! ## Wire constants -/

/-- `FRAME_MAGIC`, "MUBD". -/
def frameMagic : UInt32 := 0x4D554244

/-- `FLAG_DATA`. -/
def flagData : UInt8 := 0x00

/-- `FLAG_OPEN`. -/
def flagOpen : UInt8 := 0x01

/-- `FLAG_CLOSE`. -/
def flagClose : UInt8 := 0x02

/-- `HEADER_SIZE`. -/
def headerSize : Nat := 12

/-- `USB_BUF_SIZE`, the most a header and its payload take. -/
def usbBufSize : Nat := 512 * 1024

/-- `MAX_FRAME_SIZE`, the cap on a payload. -/
def maxFrameSize : Nat := 4 * 1024 * 1024

/-- `MAX_CHANNELS`. -/
def maxChannels : Nat := 32

/-- `kMagicBytes`, the magic as it appears on the wire. -/
def kMagicBytes : List UInt8 :=
  [(frameMagic &&& 0xFF).toUInt8, ((frameMagic >>> 8) &&& 0xFF).toUInt8,
    ((frameMagic >>> 16) &&& 0xFF).toUInt8, ((frameMagic >>> 24) &&& 0xFF).toUInt8]

/-- The four magic bytes differ, so the magic does not overlap itself. -/
theorem unbordered_kMagicBytes : Unbordered kMagicBytes := by
  intro k h0 h4
  have h4' : k < 4 := h4
  have hk : k = 1 ∨ k = 2 ∨ k = 3 := by omega
  rcases hk with rfl | rfl | rfl <;> decide

/-! ## Frames -/

/-- A frame as the parser hands it over. -/
structure Frame where
  channel : UInt8
  flags : UInt8
  payload : List UInt8
deriving DecidableEq, Repr

/-- `FrameHeader`. -/
structure FrameHeader where
  magic : UInt32
  channel : UInt8
  flags : UInt8
  reserved : UInt16
  /-- Payload bytes following the header. -/
  length : UInt32
deriving DecidableEq, Repr

/-! ## Finding a pattern -/

/-- The `for` of `findPattern`, at offset `i` with `rest` left of the haystack. -/
def findPatternFrom (haylen : Nat) (needle : List UInt8) : List UInt8 → Nat → Nat
  | [], _ => haylen
  | b :: rest, i =>
      if i + needle.length ≤ haylen then
        if needle <+: b :: rest then i else findPatternFrom haylen needle rest (i + 1)
      else haylen

/-- The offset of `needle` in `hay` at or after `start`, or the length of `hay`. -/
def findPattern (hay : List UInt8) (start : Nat) (needle : List UInt8) : Nat :=
  if needle.length = 0 ∨ hay.length < needle.length then hay.length
  else findPatternFrom hay.length needle (hay.drop start) start

/-- Bytes worth keeping when no pattern was found: a split magic may straddle the tail. -/
def keepTail (needlelen : Nat) : Nat := if 0 < needlelen then needlelen - 1 else 0

/-- `i` is the first occurrence of `needle` at or after `start`. -/
def FirstAt (hay : List UInt8) (start : Nat) (needle : List UInt8) (i : Nat) : Prop :=
  start ≤ i ∧ Occurs needle hay i ∧ ∀ j, start ≤ j → j < i → ¬ Occurs needle hay j

theorem findPatternFrom_spec (hay needle : List UInt8) (hn : needle ≠ [])
    (rest : List UInt8) (i : Nat) (hrest : rest = hay.drop i) :
    FirstAt hay i needle (findPatternFrom hay.length needle rest i) ∨
      (findPatternFrom hay.length needle rest i = hay.length ∧
        ∀ j, i ≤ j → ¬ Occurs needle hay j) := by
  induction rest generalizing i with
  | nil =>
      refine Or.inr ⟨rfl, fun j hij hj => ?_⟩
      have hfit := hj.add_length_le hn
      have hlen : hay.length ≤ i := List.drop_eq_nil_iff.mp hrest.symm
      have hpos := List.length_pos_iff.mpr hn
      omega
  | cons b rest ih =>
      rw [findPatternFrom]
      by_cases hfit : i + needle.length ≤ hay.length
      · by_cases hp : needle <+: b :: rest
        · rw [if_pos hfit, if_pos hp]
          exact Or.inl ⟨Nat.le_refl i, by rw [Occurs, ← hrest]; exact hp, fun j _ _ => by omega⟩
        · have hnot : ¬ Occurs needle hay i := by rw [Occurs, ← hrest]; exact hp
          have htail : rest = hay.drop (i + 1) := by
            rw [← List.drop_drop, ← hrest, List.drop_one, List.tail_cons]
          have step : ∀ j, i ≤ j → j ≠ i → i + 1 ≤ j := fun j _ _ => by omega
          rw [if_pos hfit, if_neg hp]
          rcases ih (i + 1) htail with ⟨hle, hocc, hbefore⟩ | ⟨heq, hnone⟩
          · refine Or.inl ⟨by omega, hocc, fun j hij hj => ?_⟩
            by_cases hji : j = i
            · rw [hji]; exact hnot
            · exact hbefore j (step j hij hji) hj
          · refine Or.inr ⟨heq, fun j hij => ?_⟩
            by_cases hji : j = i
            · rw [hji]; exact hnot
            · exact hnone j (step j hij hji)
      · rw [if_neg hfit]
        refine Or.inr ⟨rfl, fun j hij hj => ?_⟩
        have := hj.add_length_le hn
        omega

/-- `findPattern` returns the first occurrence, or the length when there is none. -/
theorem findPattern_spec (hay : List UInt8) (start : Nat) {needle : List UInt8}
    (hn : needle ≠ []) :
    FirstAt hay start needle (findPattern hay start needle) ∨
      (findPattern hay start needle = hay.length ∧ ∀ j, start ≤ j → ¬ Occurs needle hay j) := by
  have hpos := List.length_pos_iff.mpr hn
  by_cases hlen : hay.length < needle.length
  · rw [findPattern, if_pos (Or.inr hlen)]
    refine Or.inr ⟨rfl, fun j _ hj => ?_⟩
    have := hj.add_length_le hn
    omega
  · rw [findPattern, if_neg (by omega)]
    exact findPatternFrom_spec hay needle hn _ start rfl

/-! ## The header codec -/

/-- The header bytes of a frame. -/
def encodeHeader (channel flags : UInt8) (length : UInt32) : List UInt8 :=
  le32 frameMagic ++ [channel] ++ [flags] ++ le16 0 ++ le32 length

/-- Decode a header, if there are enough bytes.  The magic is not checked. -/
def decodeHeader (inp : List UInt8) : Option FrameHeader :=
  if inp.length < headerSize then none
  else some
    { magic := get32 inp 0
      channel := inp.getD 4 0
      flags := inp.getD 5 0
      reserved := get16 inp 6
      length := get32 inp 8 }

/-- Append a frame to `out`.  A null payload leaves the zeros of `resize`. -/
def encodeFrame (out : List UInt8) (channel flags : UInt8) (payload : Option (List UInt8))
    (payloadLen : Nat) : List UInt8 :=
  out ++ encodeHeader channel flags (UInt32.ofNat payloadLen) ++
    match payload with
    | some p => p.take payloadLen
    | none => List.replicate payloadLen 0

/-- The bytes of a frame on the wire. -/
def Frame.encode (f : Frame) : List UInt8 :=
  encodeFrame [] f.channel f.flags (some f.payload) f.payload.length

theorem Frame.encode_eq (f : Frame) :
    f.encode = encodeHeader f.channel f.flags (UInt32.ofNat f.payload.length) ++ f.payload := by
  rw [Frame.encode, encodeFrame, List.take_length, List.nil_append]

@[simp] theorem length_encodeHeader (channel flags : UInt8) (length : UInt32) :
    (encodeHeader channel flags length).length = headerSize := rfl

theorem Frame.length_encode (f : Frame) : f.encode.length = headerSize + f.payload.length := by
  rw [f.encode_eq, List.length_append, length_encodeHeader]

/-- Decoding an encoded header, whatever follows. -/
theorem decodeHeader_encodeHeader (channel flags : UInt8) (length : UInt32) (X : List UInt8) :
    decodeHeader (encodeHeader channel flags length ++ X) =
      some ⟨frameMagic, channel, flags, 0, length⟩ := by
  have hlen : ¬ (encodeHeader channel flags length ++ X).length < headerSize := by
    rw [List.length_append, length_encodeHeader]
    omega
  have hmagic : get32 (encodeHeader channel flags length ++ X) 0 = frameMagic :=
    get32_le32 frameMagic _
  have hlength : get32 (encodeHeader channel flags length ++ X) 8 = length :=
    (get32_drop _ 8 0).symm.trans (get32_le32 length X)
  have hreserved : get16 (encodeHeader channel flags length ++ X) 6 = 0 :=
    (get16_drop _ 6 0).symm.trans (get16_le16 0 (le32 length ++ X))
  rw [decodeHeader, if_neg hlen, hmagic, hlength, hreserved]
  rfl

/-- A header does not depend on what follows its twelve bytes. -/
theorem decodeHeader_append {R : List UInt8} (X : List UInt8) (h : headerSize ≤ R.length) :
    decodeHeader (R ++ X) = decodeHeader R := by
  have h12 : 12 ≤ R.length := h
  rw [decodeHeader, decodeHeader, if_neg (by rw [List.length_append]; omega),
    if_neg (by omega), get32_append X (by omega), get32_append X (by omega),
    get16_append X (by omega), List.getD_append _ _ _ _ (by omega),
    List.getD_append _ _ _ _ (by omega)]

theorem decodeHeader_of_short {R : List UInt8} (h : R.length < headerSize) :
    decodeHeader R = none :=
  if_pos h

theorem decodeHeader_isSome {R : List UInt8} (h : headerSize ≤ R.length) :
    ∃ hdr, decodeHeader R = some hdr := by
  rw [decodeHeader, if_neg (by omega)]
  exact ⟨_, rfl⟩

theorem length_of_decodeHeader {R : List UInt8} {hdr : FrameHeader}
    (h : decodeHeader R = some hdr) : headerSize ≤ R.length := by
  by_contra hlt
  rw [decodeHeader, if_pos (by omega)] at h
  cases h

/-- The length field of a header. -/
theorem length_eq_of_decodeHeader {R : List UInt8} {hdr : FrameHeader}
    (h : decodeHeader R = some hdr) : hdr.length = get32 R 8 := by
  have hlen := length_of_decodeHeader h
  rw [decodeHeader, if_neg (by omega)] at h
  rw [← Option.some.inj h]

/-- A header with the magic and nothing in the reserved bytes is an encoded one. -/
theorem take_of_decodeHeader {R : List UInt8} {hdr : FrameHeader}
    (h : decodeHeader R = some hdr) (hm : hdr.magic = frameMagic) (hr : hdr.reserved = 0) :
    R.take headerSize = encodeHeader hdr.channel hdr.flags hdr.length := by
  have hlen := length_of_decodeHeader h
  match R, hlen with
  | a :: b :: c :: d :: ch :: fl :: r :: s :: w :: x :: y :: z :: rest, _ =>
    have hfields : (⟨ofLE32 a b c d, ch, fl, ofLE16 r s, ofLE32 w x y z⟩ : FrameHeader) = hdr :=
      Option.some.inj h
    subst hfields
    change ofLE32 a b c d = frameMagic at hm
    change ofLE16 r s = 0 at hr
    change [a, b, c, d, ch, fl, r, s, w, x, y, z] =
      le32 frameMagic ++ [ch] ++ [fl] ++ le16 0 ++ le32 (ofLE32 w x y z)
    rw [← hm, ← hr, le32_ofLE32, le16_ofLE16, le32_ofLE32]
    rfl

/-- The magic field is the magic exactly when the bytes start with it. -/
theorem decodeHeader_magic {R : List UInt8} {hdr : FrameHeader} (h : decodeHeader R = some hdr) :
    hdr.magic = frameMagic ↔ kMagicBytes <+: R := by
  have hlen : 12 ≤ R.length := length_of_decodeHeader h
  rw [decodeHeader, if_neg (by rw [headerSize]; omega)] at h
  rw [← Option.some.inj h]
  exact get32_eq_iff frameMagic (by omega)

end MFoES.Usbproto
