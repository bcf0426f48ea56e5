import MFoES.Lib.LittleEndian
import MFoES.Lib.Reads

/-!
# The DrawReplay wire format

Opcodes, errors, the bounds-checked reader and the header functions of
`DrawReplay.cpp`.  A blob is a header of twenty bytes, a command stream, and the
opcode `End`.

`DRReader` runs in a state monad.  Each accessor checks that enough bytes are
left and otherwise clears `ok` and returns zero.  `Holds r L` says that the
reader is still good and has `L` left, and the lemmas `reads_u8` to
`reads_bytes` say that each accessor gets back what the matching writer put.

`size_t` has 64 bits, so no length here wraps.
-/

namespace MFoES.Libgfx

open LittleEndian Reading

/-! ## Opcodes and errors -/

/-- `DROp`, the command opcodes. -/
inductive DROp where
  | endOp
  | drawPixel | fastVLine | fastHLine | line | rect | fillRect | fillScreen
  | circle | fillCircle | arc | roundRect | fillRoundRect | triangle | fillTriangle
  | setDrawStyle | setRotation | invertDisplay
  | setCursor | setTextColor | setTextSize | setTextWrap | setTextRotation | setFont
  | writeText | drawChar | setText
  | bitmap1Bit | xBitmap | grayBitmap | grayBitmapMask | rgbBitmap | rgbBitmapMask
  | rgb565Bitmap | bitmapTriangle
  | swapBuffers
deriving DecidableEq, Repr

/-- The opcode byte. -/
def DROp.toByte : DROp → UInt8
  | endOp => 0x00
  | drawPixel => 0x01
  | fastVLine => 0x02
  | fastHLine => 0x03
  | line => 0x04
  | rect => 0x05
  | fillRect => 0x06
  | fillScreen => 0x07
  | circle => 0x08
  | fillCircle => 0x09
  | arc => 0x0A
  | roundRect => 0x0B
  | fillRoundRect => 0x0C
  | triangle => 0x0D
  | fillTriangle => 0x0E
  | setDrawStyle => 0x20
  | setRotation => 0x21
  | invertDisplay => 0x22
  | setCursor => 0x30
  | setTextColor => 0x31
  | setTextSize => 0x32
  | setTextWrap => 0x33
  | setTextRotation => 0x34
  | setFont => 0x35
  | writeText => 0x36
  | drawChar => 0x37
  | setText => 0x38
  | bitmap1Bit => 0x40
  | xBitmap => 0x41
  | grayBitmap => 0x42
  | grayBitmapMask => 0x43
  | rgbBitmap => 0x44
  | rgbBitmapMask => 0x45
  | rgb565Bitmap => 0x46
  | bitmapTriangle => 0x47
  | swapBuffers => 0x50

/-- The case labels of the decoder's `switch`.  No opcode is its `default`. -/
def DROp.ofByte (b : UInt8) : Option DROp :=
  [endOp, drawPixel, fastVLine, fastHLine, line, rect, fillRect, fillScreen, circle, fillCircle,
    arc, roundRect, fillRoundRect, triangle, fillTriangle, setDrawStyle, setRotation,
    invertDisplay, setCursor, setTextColor, setTextSize, setTextWrap, setTextRotation, setFont,
    writeText, drawChar, setText, bitmap1Bit, xBitmap, grayBitmap, grayBitmapMask, rgbBitmap,
    rgbBitmapMask, rgb565Bitmap, bitmapTriangle, swapBuffers].find? fun op => op.toByte == b

/-- Distinct opcodes have distinct bytes. -/
theorem DROp.ofByte_toByte (op : DROp) : DROp.ofByte op.toByte = some op := by
  cases op <;> rfl

/-- `DRError`. -/
inductive DRError where
  | ok | badMagic | badVersion | truncated | unknownOpcode | badPayload
deriving DecidableEq, Repr

/-! ## The reader -/

/-- `DRReader`.  It reads `p[0 .. n)` and is at offset `i`. -/
structure DRReader where
  p : List UInt8
  n : Nat
  i : Nat
  ok : Bool

namespace DRReader

/-- `DRReader(data, len)`. -/
def new (data : List UInt8) (len : Nat) : DRReader := ⟨data, len, 0, true⟩

/-- `remaining()`. -/
def remaining (r : DRReader) : Nat := if r.ok then r.n - r.i else 0

/-- `need(k)`. -/
def need (k : Nat) : StateM DRReader Bool := fun r =>
  if !r.ok || decide (r.n - r.i < k) then (false, { r with ok := false }) else (true, r)

/-- Return `f p i` and step over `k` bytes, if they are there, and else `dflt`. -/
def fetch {α : Type} (k : Nat) (dflt : α) (f : List UInt8 → Nat → α) : StateM DRReader α := do
  if ← need k then modifyGet fun r => (f r.p r.i, { r with i := r.i + k })
  else pure dflt

/-- `u8()`. -/
def u8 : StateM DRReader UInt8 := fetch 1 0 fun p i => p.getD i 0

/-- `u16()`. -/
def u16 : StateM DRReader UInt16 := fetch 2 0 get16

/-- `i16()`. -/
def i16 : StateM DRReader Int16 := do
  let v ← u16
  pure v.toInt16

/-- `u32()`. -/
def u32 : StateM DRReader UInt32 := fetch 4 0 get32

/-- `bytes(k)`, with `none` for the null pointer. -/
def bytes (k : Nat) : StateM DRReader (Option (List UInt8)) :=
  fetch k none fun p i => some ((p.drop i).take k)

/-- The reader is good and has `L` left. -/
structure Holds (r : DRReader) (L : List UInt8) : Prop where
  ok : r.ok = true
  i_le : r.i ≤ r.n
  n_le : r.n ≤ r.p.length
  left : (r.p.take r.n).drop r.i = L

theorem holds_new {data : List UInt8} {len : Nat} (h : len ≤ data.length) :
    (new data len).Holds (data.take len) :=
  ⟨rfl, Nat.zero_le _, h, rfl⟩

theorem Holds.length {r : DRReader} {L : List UInt8} (h : r.Holds L) : L.length = r.n - r.i := by
  rw [← h.left, List.length_drop, List.length_take, Nat.min_eq_left h.n_le]

theorem Holds.remaining {r : DRReader} {L : List UInt8} (h : r.Holds L) :
    r.remaining = L.length := by
  rw [DRReader.remaining, h.ok, h.length]
  rfl

/-- What is left stands at the offset. -/
theorem Holds.drop {r : DRReader} {L : List UInt8} (h : r.Holds L) :
    ∃ X, r.p.drop r.i = L ++ X := by
  refine ⟨r.p.drop r.n, ?_⟩
  conv => lhs; rw [← List.take_append_drop r.n r.p]
  rw [List.drop_append_of_le_length, h.left]
  rw [List.length_take, Nat.min_eq_left h.n_le]
  exact h.i_le

/-- An accessor reads the bytes it finds and steps over them. -/
theorem reads_fetch {α : Type} {k : Nat} {dflt : α} {f : List UInt8 → Nat → α}
    {b : List UInt8} {v : α} (hk : b.length = k)
    (hf : ∀ p i X, p.drop i = b ++ X → f p i = v) : Reads Holds (fetch k dflt f) b v := by
  intro r L h
  have hlen := h.length
  rw [List.length_append] at hlen
  have hneed : need k r = (true, r) := by
    rw [need, if_neg]
    rw [h.ok]
    simp only [Bool.not_true, Bool.false_or, decide_eq_true_eq]
    omega
  have hrun : fetch k dflt f r = (f r.p r.i, { r with i := r.i + k }) := by
    simp only [fetch, bind, StateT.bind, hneed]
    rfl
  obtain ⟨X, hX⟩ := h.drop
  rw [hrun]
  refine ⟨hf _ _ (L ++ X) (by rw [hX, List.append_assoc]), h.ok, ?_, h.n_le, ?_⟩
  · have := h.i_le
    change r.i + k ≤ r.n
    omega
  · change (r.p.take r.n).drop (r.i + k) = L
    rw [← List.drop_drop, h.left, ← hk, List.drop_left]

end DRReader

/-! ## The writers and what the reader makes of them -/

open DRReader

/-- `putU8`. -/
def putU8 (v : UInt8) : List UInt8 := [v]

/-- `putU16`, by `pushU16`. -/
def putU16 (v : UInt16) : List UInt8 := le16 v

/-- `putI16`. -/
def putI16 (v : Int16) : List UInt8 := putU16 v.toUInt16

/-- `putU32`, by `pushU32`. -/
def putU32 (v : UInt32) : List UInt8 := le32 v

/-- A `float`, by its binary32 representation, which is all the stream has of it. -/
structure F32 where
  bits : UInt32
deriving DecidableEq, Repr

/-- `putF32`. -/
def putF32 (v : F32) : List UInt8 := putU32 v.bits

/-- `f32()`. -/
def DRReader.f32 : StateM DRReader F32 := do
  let bits ← u32
  pure ⟨bits⟩

theorem getD_of_drop {p : List UInt8} {i : Nat} {v : UInt8} {X : List UInt8}
    (h : p.drop i = v :: X) : p.getD i 0 = v := by
  have hget : (p.drop i).getD 0 0 = v := by rw [h]; rfl
  rw [List.getD_eq_getElem?_getD, List.getElem?_drop] at hget
  rw [List.getD_eq_getElem?_getD]
  exact hget

theorem reads_u8 (v : UInt8) : Reads Holds u8 (putU8 v) v :=
  reads_fetch rfl fun _ _ _ h => getD_of_drop h

theorem reads_u16 (v : UInt16) : Reads Holds u16 (putU16 v) v :=
  reads_fetch rfl fun p i X h => by
    rw [← Nat.add_zero i, ← get16_drop, h, putU16, get16_le16]

theorem reads_u32 (v : UInt32) : Reads Holds u32 (putU32 v) v :=
  reads_fetch rfl fun p i X h => by
    rw [← Nat.add_zero i, ← get32_drop, h, putU32, get32_le32]

theorem reads_i16 (v : Int16) : Reads Holds i16 (putI16 v) v := by
  have h := (reads_u16 v.toUInt16).map UInt16.toInt16
  rw [Int16.toInt16_toUInt16] at h
  exact h

theorem reads_f32 (v : F32) : Reads Holds f32 (putF32 v) v :=
  (reads_u32 v.bits).map F32.mk

theorem reads_bytes {k : Nat} (b : List UInt8) (hk : b.length = k) :
    Reads Holds (bytes k) b (some b) :=
  reads_fetch hk fun p i X h => by rw [h, ← hk, List.take_left]

/-! ## The header -/

/-- `DR_VERSION`. -/
def drVersion : UInt16 := 1

/-- `DR_HEADER_SIZE`. -/
def drHeaderSize : Nat := 20

/-- `SIZE_MAX`, which is also `StreamAssembler::BAD_RECORD`. -/
def sizeMax : Nat := 2 ^ 64 - 1

/-- `DRSyncMagic()`, the bytes of "DRP1". -/
def drSyncMagic : List UInt8 := [0x44, 0x52, 0x50, 0x31]

/-- What `DRPeek` fills in. -/
structure DRHeader where
  width : Int16
  height : Int16
  cmdCount : UInt32
  bodyBytes : UInt32
deriving DecidableEq, Repr

/-- The header fields behind the magic, as `DRPeek` reads them: the version and
the four outputs. -/
def readHeader : StateM DRReader (UInt16 × DRHeader) := do
  let version ← u16
  let _ ← u16
  let width ← i16
  let height ← i16
  let cmdCount ← u32
  let bodyBytes ← u32
  pure (version, ⟨width, height, cmdCount, bodyBytes⟩)

/-- `DRPeek`, with `none` for a null pointer. -/
def drPeek : Option (List UInt8) → Except DRError DRHeader
  | none => .error .truncated
  | some data =>
      if data.length < drHeaderSize then .error .truncated
      else if data.take 4 ≠ drSyncMagic then .error .badMagic
      else
        let ((version, hdr), rd) := readHeader (DRReader.new (data.drop 4) (drHeaderSize - 4))
        if drVersion < version then .error .badVersion
        else if !rd.ok then .error .truncated
        else if data.length - drHeaderSize < hdr.bodyBytes.toNat then .error .truncated
        else .ok hdr

/-- `DRRecordSize`: the length of the blob at the front, 0 when the header has
not fully arrived, `SIZE_MAX` when no blob starts here. -/
def drRecordSize : Option (List UInt8) → Nat
  | none => sizeMax
  | some data =>
      -- reject on the magic as early as the bytes allow
      let have' := if data.length < 4 then data.length else 4
      if data.take have' ≠ drSyncMagic.take have' then sizeMax
      else if data.length < drHeaderSize then 0
      else match drPeek (some data) with
        | .error .badVersion => sizeMax
        | _ => drHeaderSize + (get32 data 16).toNat

end MFoES.Libgfx
