import Mathlib.Data.Vector.Basic
import MFoES.Lib.LittleEndian

/-!
# Northbridge frames

Every exchange over the slave port is 64 bytes each way: magic, type, length,
flags, 58 payload bytes and a CRC over what stands before it.  The host and the
firmware each have their own code for this, in `northbridge.cpp` and `dspi.cpp`,
with their own constants.  What the two texts share comes first, with the constants
as parameters.  Then come `LinkImpl::build_frame` and `LinkImpl::parse` of the host,
and `build_frame` and the validation in `dspi_dma_isr` of the firmware.

`putFrame` writes a frame, and `crc_putFrame` says that the CRC it stores is the
one a reader computes.
-/

namespace MFoES.Northbridge

open LittleEndian

/-! ## CRC -/

/-- One round of the inner loop. -/
def crcBit (crc : UInt16) : UInt16 :=
  if crc &&& 0x8000 ≠ 0 then (crc <<< 1) ^^^ 0x1021 else crc <<< 1

/-- One round of the outer loop. -/
def crcByte (crc : UInt16) (b : UInt8) : UInt16 :=
  Nat.repeat crcBit 8 (crc ^^^ (b.toUInt16 <<< 8))

/-- `crc16_ccitt`, of both sides. -/
def crc16Ccitt (data : List UInt8) : UInt16 := data.foldl crcByte 0xFFFF

/-! ## Buffers -/

/-- The bytes of one exchange, `kFrameSize` and `DSPI_FRAME_SIZE` of them. -/
abbrev RawFrame := Vector UInt8 64

/-- `memcpy(&dst[off], src, len)`. -/
def memcpy {n : Nat} (dst : Vector UInt8 n) (off : Nat) (src : List UInt8) (len : Nat) :
    Vector UInt8 n :=
  Vector.ofFn fun i => if off ≤ i ∧ i < off + len then src.getD (i - off) 0 else dst[i]

@[simp] theorem getElem_memcpy {n : Nat} (dst : Vector UInt8 n) (off : Nat) (src : List UInt8)
    (len i : Nat) (hi : i < n) :
    (memcpy dst off src len)[i] =
      if off ≤ i ∧ i < off + len then src.getD (i - off) 0 else dst[i] := by
  simp [memcpy]

/-- The bytes before the CRC. -/
def covered (frame : RawFrame) : List UInt8 := frame.toList.take 62

/-- The CRC stored in a frame. -/
def storedCrc (frame : RawFrame) : UInt16 := frame[62].toUInt16 ||| (frame[63].toUInt16 <<< 8)

/-- The fields of a frame, written to a cleared buffer. -/
def putFields (magic type len flags : UInt8) (payload : List UInt8) : RawFrame :=
  let out : RawFrame := Vector.replicate 64 0
  let out := (((out.set 0 magic).set 1 type).set 2 len).set 3 flags
  memcpy out 4 payload len.toNat

/-- The CRC behind the fields. -/
def putCrc (out : RawFrame) : RawFrame :=
  let crc := crc16Ccitt (covered out)
  (out.set 62 (crc &&& 0xFF).toUInt8).set 63 (crc >>> 8).toUInt8

/-- `build_frame`, up to what a side writes into the fields. -/
def putFrame (magic type len flags : UInt8) (payload : List UInt8) : RawFrame :=
  putCrc (putFields magic type len flags payload)

/-- The payload that a reader copies out of a frame. -/
def payloadOf (frame : RawFrame) : Vector UInt8 58 :=
  memcpy (Vector.replicate 58 0) 0 (frame.toList.drop 4) 58

/-! ## The host -/

namespace Link

/-- `kMagic`. -/
def kMagic : UInt8 := 0xA5

/-- `kTypeIdle`. -/
def kTypeIdle : UInt8 := 0x00

/-- `kFlagMore`. -/
def kFlagMore : UInt8 := 0x01

/-- `kPayloadMax`. -/
def kPayloadMax : Nat := 58

/-- `Frame`. -/
structure Frame where
  type : UInt8
  len : UInt8
  flags : UInt8
  payload : Vector UInt8 58
deriving DecidableEq

/-- `LinkImpl::build_frame`. -/
def buildFrame (type : UInt8) (payload : List UInt8) (len : UInt8) (more : Bool) : RawFrame :=
  putFrame kMagic type len (if more then kFlagMore else 0) payload

/-- What `LinkImpl::parse` makes of a frame. -/
inductive Parsed where
  /-- Counted as a blank frame, and `false` returned. -/
  | blank
  /-- Counted as a CRC error, and `false` returned. -/
  | crcError
  /-- An idle frame. -/
  | idle (peerMore : Bool)
  /-- A frame for `request()` or for `on_frame_`. -/
  | frame (peerMore : Bool) (f : Frame)
deriving DecidableEq

/-- `LinkImpl::parse`. -/
def parse (frame : RawFrame) : Parsed :=
  if frame[0] ≠ kMagic ∨ kPayloadMax < frame[2].toNat then
    if frame.toList.all (· == 0) then .blank else .crcError
  else if storedCrc frame ≠ crc16Ccitt (covered frame) then .crcError
  else
    let peerMore := decide (frame[3] &&& kFlagMore ≠ 0)
    if frame[1] = kTypeIdle then .idle peerMore
    else .frame peerMore ⟨frame[1], frame[2], frame[3], payloadOf frame⟩

end Link

/-! ## The firmware -/

namespace Dspi

/-- `DSPI_MAGIC`. -/
def dspiMagic : UInt8 := 0xA5

/-- `DSPI_TYPE_IDLE`. -/
def dspiTypeIdle : UInt8 := 0x00

/-- `DSPI_FLAG_MORE`. -/
def dspiFlagMore : UInt8 := 0x01

/-- `DSPI_PAYLOAD_MAX`. -/
def dspiPayloadMax : Nat := 58

/-- `DspiMsg`. -/
structure DspiMsg where
  type : UInt8
  len : UInt8
  flags : UInt8
  payload : Vector UInt8 58
deriving DecidableEq

/-- `build_frame`. -/
def buildFrame (type : UInt8) (payload : List UInt8) (len : UInt8) (more : Bool)
    (flags : UInt8) : RawFrame :=
  putFrame dspiMagic type len (flags ||| if more then dspiFlagMore else 0) payload

/-- The message that `dspi_send` makes of its arguments. -/
def msgOf (type : UInt8) (payload : List UInt8) (len : Nat) (flags : UInt8) : DspiMsg where
  type := type
  len := UInt8.ofNat len
  flags := flags
  payload := memcpy (Vector.replicate 58 0) 0 payload len

/-- What `dspi_dma_isr` makes of the frame that just landed. -/
inductive Landed where
  /-- Sent to `g_rx_queue`. -/
  | message (msg : DspiMsg)
  /-- Counted as idle. -/
  | idle
  /-- Counted as a CRC error. -/
  | crcError
  /-- Clocked, but no data arrived. -/
  | zero
deriving DecidableEq

/-- The validation in `dspi_dma_isr`. -/
def validate (frame : RawFrame) : Landed :=
  if frame[0] = dspiMagic ∧ frame[2].toNat ≤ dspiPayloadMax then
    if storedCrc frame = crc16Ccitt (covered frame) then
      if frame[1] ≠ dspiTypeIdle then
        .message ⟨frame[1], frame[2], frame[3], payloadOf frame⟩
      else .idle
    else .crcError
  else if frame[0] ≠ 0 then .crcError
  else .zero

end Dspi

/-! ## What a reader finds -/

theorem getElem_putCrc (out : RawFrame) {i : Nat} (hi : i < 62) : (putCrc out)[i] = out[i] := by
  rw [putCrc, Vector.getElem_set_ne _ _ (by omega), Vector.getElem_set_ne _ _ (by omega)]

theorem covered_putCrc (out : RawFrame) : covered (putCrc out) = covered out := by
  refine List.ext_getElem (by simp [covered]) fun i h₁ h₂ => ?_
  have hi : i < 62 := by
    simp only [covered, List.length_take] at h₁
    omega
  simpa [covered] using getElem_putCrc out hi

theorem storedCrc_putCrc (out : RawFrame) : storedCrc (putCrc out) = crc16Ccitt (covered out) := by
  have hlow : (putCrc out)[62] = (crc16Ccitt (covered out) &&& 0xFF).toUInt8 := by
    simp [putCrc]
  have hhigh : (putCrc out)[63] = (crc16Ccitt (covered out) >>> 8).toUInt8 := by
    simp [putCrc]
  -- the cast of the high byte masks by itself
  have hmask : (crc16Ccitt (covered out) >>> 8).toUInt8 =
      ((crc16Ccitt (covered out) >>> 8) &&& 0xFF).toUInt8 := by
    apply UInt8.toNat_inj.mp
    rw [mask_toNat16, UInt16.toNat_toUInt8]
  rw [storedCrc, hlow, hhigh, hmask]
  exact ofLE16_le16 _

/-- The CRC in a frame is the one a reader computes. -/
theorem crc_putFrame (magic type len flags : UInt8) (payload : List UInt8) :
    storedCrc (putFrame magic type len flags payload) =
      crc16Ccitt (covered (putFrame magic type len flags payload)) := by
  rw [putFrame, covered_putCrc, storedCrc_putCrc]

theorem getElem_putFrame (magic type len flags : UInt8) (payload : List UInt8) :
    (putFrame magic type len flags payload)[0] = magic ∧
      (putFrame magic type len flags payload)[1] = type ∧
      (putFrame magic type len flags payload)[2] = len ∧
      (putFrame magic type len flags payload)[3] = flags := by
  have hfields : ∀ i (hi : i < 4), (putFrame magic type len flags payload)[i] =
      (putFields magic type len flags payload)[i] :=
    fun i hi => getElem_putCrc _ (by omega)
  rw [hfields 0, hfields 1, hfields 2, hfields 3]
  · simp [putFields]
  all_goals decide

/-- The payload comes back, with zeros behind it. -/
theorem payloadOf_putFrame (magic type flags : UInt8) {payload : List UInt8}
    (h : payload.length ≤ 58) :
    (payloadOf (putFrame magic type (UInt8.ofNat payload.length) flags payload)).toList =
      payload ++ List.replicate (58 - payload.length) 0 := by
  have hlen : (UInt8.ofNat payload.length).toNat = payload.length :=
    UInt8.toNat_ofNat_of_lt' (Nat.lt_of_le_of_lt h (by decide))
  refine List.ext_getElem (by simp; omega) fun i h₁ h₂ => ?_
  have hi : i < 58 := by simpa using h₁
  have hread : (payloadOf (putFrame magic type (UInt8.ofNat payload.length) flags payload))[i] =
      (putFields magic type (UInt8.ofNat payload.length) flags payload)[4 + i] := by
    rw [← getElem_putCrc _ (by omega)]
    simp [payloadOf, putFrame, hi, Vector.getElem?_eq_getElem (show 4 + i < 64 by omega)]
  rw [Vector.getElem_toList, hread]
  by_cases hin : i < payload.length
  · simp [putFields, hlen, hin]
  · rw [List.getElem_append_right (Nat.le_of_not_lt hin)]
    simp only [putFields, getElem_memcpy, hlen, Nat.add_lt_add_iff_left, hin, and_false, if_false,
      List.getElem_replicate]
    rw [Vector.getElem_set_ne _ _ (by omega), Vector.getElem_set_ne _ _ (by omega),
      Vector.getElem_set_ne _ _ (by omega), Vector.getElem_set_ne _ _ (by omega),
      Vector.getElem_replicate]

end MFoES.Northbridge
