import MFoES.Usbproto.FrameParser

/-!
# Sending on a channel

`Session::sendData` cuts its data into frames of at most `USB_BUF_SIZE` bytes and gives them to
the transport, one after the other, until one is not sent.

Which frames these are does not depend on the transport (`framesFrom`).  They carry the data
(`flatMap_framesFrom`), a parser reads them back however the stream is cut, and what is given to
the transport is a prefix of them (`sendFrom_offers`).
-/

namespace MFoES.Usbproto

open Incremental

/-- `USB_MAX_PAYLOAD`. -/
def usbMaxPayload : Nat := usbBufSize - headerSize

/-- `Transport::send`, on a transport in state `τ`: the next state, and what it returns. -/
structure Transport (τ : Type) where
  send (s : τ) (data : List UInt8) : τ × Bool

/-- What a call of `sendData` did: every `send` with its result, and what the call returned. -/
structure Sending (τ : Type) where
  transport : τ
  sends : List (List UInt8 × Bool)
  ok : Bool

namespace Session

/-- `chunk`, with `sent` bytes of the data behind. -/
def chunk (len sent : Nat) : Nat :=
  if usbMaxPayload < len - sent then usbMaxPayload else len - sent

theorem chunk_pos {len sent : Nat} (h : sent < len) : 0 < chunk len sent := by
  rw [chunk]
  split
  · decide
  · omega

theorem chunk_le (len sent : Nat) :
    chunk len sent ≤ usbMaxPayload ∧ chunk len sent ≤ len - sent := by
  rw [chunk]
  split
  · next hlt => exact ⟨Nat.le_refl _, Nat.le_of_lt hlt⟩
  · next hle => exact ⟨Nat.not_lt.mp hle, Nat.le_refl _⟩

section Loop

variable {τ : Type} (t : Transport τ) (channel : UInt8) (data : List UInt8)

/-- The `while` of `sendData`. -/
def sendFrom (s : τ) (sent : Nat) : Sending τ :=
  if _ : sent < data.length then
    let n := chunk data.length sent
    let frame := encodeFrame [] channel flagData (some (data.drop sent)) n
    match t.send s frame with
    | (s, false) => ⟨s, [(frame, false)], false⟩
    | (s, true) =>
        let rest := sendFrom s (sent + n)
        ⟨rest.transport, (frame, true) :: rest.sends, rest.ok⟩
  else ⟨s, [], true⟩
termination_by data.length - sent
decreasing_by
  have hpos := chunk_pos ‹_›
  omega

/-- `sendData`, with `none` for null pointers. -/
def sendData (t : Option (Transport τ)) (s : τ) (channel : UInt8) (data : Option (List UInt8)) :
    Sending τ :=
  match t, data with
  | some t, some data =>
      if maxChannels ≤ channel.toNat then ⟨s, [], false⟩
      else if data.length = 0 then ⟨s, [], false⟩
      else sendFrom t channel data s 0
  | _, _ => ⟨s, [], false⟩

/-! ## The frames -/

/-- The frame that the loop makes with `sent` bytes behind. -/
def frameAt (sent : Nat) : Frame :=
  ⟨channel, flagData, (data.drop sent).take (chunk data.length sent)⟩

/-- The frames of the loop, if all are sent. -/
def framesFrom (sent : Nat) : List Frame :=
  if _ : sent < data.length then
    frameAt channel data sent :: framesFrom (sent + chunk data.length sent)
  else []
termination_by data.length - sent
decreasing_by
  have hpos := chunk_pos ‹_›
  omega

theorem length_frameAt (sent : Nat) :
    (frameAt channel data sent).payload.length = chunk data.length sent := by
  have hle := (chunk_le data.length sent).2
  rw [frameAt, List.length_take, List.length_drop]
  omega

/-- What the encoder makes of a chunk is a frame. -/
theorem encode_frameAt (sent : Nat) :
    encodeFrame [] channel flagData (some (data.drop sent)) (chunk data.length sent) =
      (frameAt channel data sent).encode := by
  rw [Frame.encode, length_frameAt, encodeFrame, encodeFrame, frameAt]
  dsimp only
  rw [List.take_take, Nat.min_self]

/-- A data frame of a channel that has a payload and fits a buffer. -/
structure IsChunk (f : Frame) : Prop where
  channel : f.channel = channel
  flags : f.flags = flagData
  nonempty : f.payload ≠ []
  fits : f.encode.length ≤ usbBufSize

theorem isChunk_frameAt {sent : Nat} (h : sent < data.length) :
    IsChunk channel (frameAt channel data sent) where
  channel := rfl
  flags := rfl
  nonempty := by
    have hpos := chunk_pos h
    rw [← length_frameAt channel data sent] at hpos
    exact List.ne_nil_of_length_pos hpos
  fits := by
    have hle := (chunk_le data.length sent).1
    have hsize : headerSize + usbMaxPayload = usbBufSize := by decide
    rw [Frame.length_encode, length_frameAt]
    omega

theorem isChunk_framesFrom (sent : Nat) :
    ∀ f ∈ framesFrom channel data sent, IsChunk channel f := by
  fun_induction framesFrom channel data sent with
  | case1 sent h ih =>
      rw [List.forall_mem_cons]
      exact ⟨isChunk_frameAt channel data h, ih⟩
  | case2 sent h => exact fun f hf => absurd hf List.not_mem_nil

/-- The payloads make up the data. -/
theorem flatMap_framesFrom (sent : Nat) :
    (framesFrom channel data sent).flatMap Frame.payload = data.drop sent := by
  fun_induction framesFrom channel data sent with
  | case1 sent h ih =>
      rw [List.flatMap_cons, ih, frameAt, ← List.drop_drop, List.take_append_drop]
  | case2 sent h => exact (List.drop_eq_nil_iff.mpr (Nat.not_lt.mp h)).symm

/-! ## The transport -/

/-- What was given to the transport: all frames, or those up to one that was not sent. -/
inductive Offers (fs : List Frame) : Sending τ → Prop
  | all (s : τ) : Offers fs ⟨s, fs.map fun f => (f.encode, true), true⟩
  | failed (s : τ) (fs₁ fs₂ : List Frame) (f : Frame) (split : fs = fs₁ ++ f :: fs₂) :
      Offers fs ⟨s, (fs₁.map fun f => (f.encode, true)) ++ [(f.encode, false)], false⟩

variable {t channel data} in
theorem Offers.cons {fs : List Frame} {r : Sending τ} (h : Offers fs r) (f : Frame) :
    Offers (f :: fs) ⟨r.transport, (f.encode, true) :: r.sends, r.ok⟩ := by
  cases h with
  | all s => exact .all s
  | failed s fs₁ fs₂ g split =>
      exact .failed s (f :: fs₁) fs₂ g (by rw [split, List.cons_append])

theorem sendFrom_offers (s : τ) (sent : Nat) :
    Offers (framesFrom channel data sent) (sendFrom t channel data s sent) := by
  fun_induction sendFrom t channel data s sent with
  | case1 s sent h n frame s' hsend =>
      rw [framesFrom, dif_pos h]
      have hframe : frame = (frameAt channel data sent).encode := encode_frameAt channel data sent
      rw [hframe]
      exact .failed s' [] _ _ rfl
  | case2 s sent h n frame s' hsend rest ih =>
      rw [framesFrom, dif_pos h]
      have hframe : frame = (frameAt channel data sent).encode := encode_frameAt channel data sent
      rw [hframe]
      exact ih.cons _
  | case3 s sent h =>
      rw [framesFrom, dif_neg h]
      exact .all s

/-- A transport that sends everything is given everything. -/
theorem sendFrom_ok (haccept : ∀ s x, (t.send s x).2 = true) (s : τ) (sent : Nat) :
    (sendFrom t channel data s sent).ok = true := by
  fun_induction sendFrom t channel data s sent with
  | case1 s sent h n frame s' hsend =>
      have hsent := haccept s frame
      rw [hsend] at hsent
      cases hsent
  | case2 s sent h n frame s' hsend rest ih => exact ih
  | case3 s sent h => rfl

end Loop

theorem sendData_eq {τ : Type} {channel : UInt8} {data : List UInt8}
    (hchannel : channel.toNat < maxChannels) (hdata : data ≠ []) (t : Transport τ) (s : τ) :
    sendData (some t) s channel (some data) = sendFrom t channel data s 0 := by
  have hlen : ¬ data.length = 0 := fun h => hdata (List.eq_nil_of_length_eq_zero h)
  rw [sendData, if_neg (Nat.not_le.mpr hchannel), if_neg hlen]

/-- Data on a channel goes out as frames that a parser reads back, whole, however the stream of
them is cut.  A transport that fails has sent the frames before the one it fails at. -/
theorem sendData_lossless (channel : UInt8) (data : List UInt8)
    (hchannel : channel.toNat < maxChannels) (hdata : data ≠ []) :
    ∃ fs : List Frame, (∀ f ∈ fs, IsChunk channel f) ∧ fs.flatMap Frame.payload = data ∧
      (∀ cs : List (List UInt8), cs.flatten = fs.flatMap Frame.encode →
        (runChunks FrameParser.feed .fresh cs).2 = fs) ∧
      ∀ (τ : Type) (t : Transport τ) (s : τ),
        Offers fs (sendData (some t) s channel (some data)) ∧
        ((∀ s x, (t.send s x).2 = true) →
          (sendData (some t) s channel (some data)).ok = true) := by
  have hchunks := isChunk_framesFrom channel data 0
  refine ⟨framesFrom channel data 0, hchunks, flatMap_framesFrom channel data 0, ?_, ?_⟩
  · intro cs hcs
    rw [FrameParser.runChunks_feed RxBuf.unread_fresh, hcs]
    refine frames_flatMap_encode (by decide) fun f hf => ?_
    have hfits := (hchunks f hf).fits
    have hcap : usbBufSize ≤ maxFrameSize := by decide
    rw [Frame.length_encode] at hfits
    omega
  · intro τ t s
    rw [sendData_eq hchannel hdata]
    exact ⟨sendFrom_offers t channel data s 0,
      fun haccept => sendFrom_ok t channel data haccept s 0⟩

/-- Two bytes on channel 3. -/
theorem sendData_lossless_two :
    ∃ fs : List Frame, (∀ f ∈ fs, IsChunk 3 f) ∧ fs.flatMap Frame.payload = [7, 9] ∧
      (∀ cs : List (List UInt8), cs.flatten = fs.flatMap Frame.encode →
        (runChunks FrameParser.feed .fresh cs).2 = fs) ∧
      ∀ (τ : Type) (t : Transport τ) (s : τ),
        Offers fs (sendData (some t) s 3 (some [7, 9])) ∧
        ((∀ s x, (t.send s x).2 = true) → (sendData (some t) s 3 (some [7, 9])).ok = true) :=
  sendData_lossless 3 [7, 9] (by decide) (by decide)

end Session

end MFoES.Usbproto
