import MFoES.Lib.Transition
import MFoES.Northbridge.Frame
import MFoES.Southbridge.RingBuffer

/-!
# Audio over the south bridge

`send_audio` cuts samples into frames, numbers them, and queues them in the ring.  The transmit
thread pops a frame, transfers it, and looks at the status that the Pico sends back: a frame that
the Pico was too busy for goes into the ring again.  Both threads draw numbers from `seq_`, the
transmit thread for a silence frame when the ring is empty.

The two threads interleave between any two accesses to what they share.  An operation of the ring
is one access here; `Threads` has its own steps.
-/

namespace MFoES.Southbridge

open LittleEndian

variable {k : Nat}

/-! ## Frames -/

/-- `SB_AUDIO_SAMPLES_PER_FRAME * SB_CHANNELS`. -/
def frameSamples : Nat := 128

/-- `SB_FRAME_MAGIC_HI`. -/
def sbFrameMagicHi : UInt8 := 0x5B

/-- `SB_FRAME_MAGIC_LO`. -/
def sbFrameMagicLo : UInt8 := 0xA4

/-- `SB_FTYPE_AUDIO`. -/
def sbFtypeAudio : UInt8 := 0x01

/-- `SB_FTYPE_SILENCE`. -/
def sbFtypeSilence : UInt8 := 0x02

/-- `SB_STATUS_OVERFLOW`. -/
def sbStatusOverflow : UInt8 := 0x01

/-- `SB_STATUS_UNDERRUN`. -/
def sbStatusUnderrun : UInt8 := 0x02

/-- `SB_STATUS_CRC_ERR`. -/
def sbStatusCrcErr : UInt8 := 0x04

/-- `SB_STATUS_BUSY`. -/
def sbStatusBusy : UInt8 := 0x08

/-- `sb_crc16`, the same loops as in `crc16_ccitt`. -/
def sbCrc16 (buf : List UInt8) : UInt16 := Northbridge.crc16Ccitt buf

/-- `sb_audio_frame_t`. -/
structure AudioFrame where
  magicHi : UInt8
  magicLo : UInt8
  frameType : UInt8
  status : UInt8
  seq : UInt32
  payload : List UInt8
  crc16 : UInt16
  deriving DecidableEq

/-- The bytes in front of the CRC. -/
def AudioFrame.covered (frame : AudioFrame) : List UInt8 :=
  [frame.magicHi, frame.magicLo, frame.frameType, frame.status] ++ le32 frame.seq ++ frame.payload

/-- The frame that `send_audio` builds from the samples of one frame. -/
def audioFrame (seq : UInt32) (samples : List UInt16) : AudioFrame :=
  let frame : AudioFrame :=
    ⟨sbFrameMagicHi, sbFrameMagicLo, sbFtypeAudio, 0, seq, samples.flatMap le16, 0⟩
  { frame with crc16 := sbCrc16 frame.covered }

/-- The frame that an underrun leaves in `tx_buf_`. -/
def silenceFrame (seq : UInt32) : AudioFrame :=
  ⟨sbFrameMagicHi, sbFrameMagicLo, sbFtypeSilence, 0, seq, List.replicate 256 0, 0⟩

@[simp] theorem seq_audioFrame (seq : UInt32) (samples : List UInt16) :
    (audioFrame seq samples).seq = seq := rfl

/-! ## The two threads -/

/-- What the threads read of `Config`. -/
structure Config where
  /-- A `float`, where it is compared with a `double`. -/
  overflowDropThreshold : Float := 90
  sendSilenceOnUnderrun : Bool := true

/-- Where `send_audio` is, with the samples from `pcm + enqueued` on. -/
inductive Sender
  /-- It returned. -/
  | idle (enqueued : Nat)
  /-- At the head of the loop. -/
  | loop (pcm : List UInt16) (enqueued : Nat)
  | fill (frame : AudioFrame) (pcm : List UInt16) (enqueued : Nat)
  | overwrite (frame : AudioFrame) (pcm : List UInt16) (enqueued : Nat)
  | push (frame : AudioFrame) (pcm : List UInt16) (enqueued : Nat)

/-- Where `tx_loop` is. -/
inductive Tx
  /-- After the wait. -/
  | pop
  | silence
  | transfer (frame : AudioFrame)
  /-- The Pico was busy. -/
  | requeue (frame : AudioFrame)

/-- `AtomicStats`, as far as the two threads count. -/
structure Stats where
  framesSent : Nat := 0
  framesDropped : Nat := 0
  picoOverflows : Nat := 0
  picoUnderruns : Nat := 0
  crcErrors : Nat := 0

/-- A running south bridge. -/
structure Bridge (k : Nat) where
  ring : RingBuffer k AudioFrame
  seq : UInt32
  txBuf : AudioFrame
  stats : Stats
  sender : Sender
  tx : Tx
  /-- How many numbers `seq_` gave. -/
  issued : Nat
  /-- The frames of the transfers whose status lacks `SB_STATUS_BUSY`. -/
  accepted : List AudioFrame
  /-- For each count in `frames_dropped`, the number of the frame that was lost, if one was. -/
  counted : List (Option Nat)

/-- A call of `send_audio`, a step of a thread, or the status of a transfer. -/
inductive AudioEvent
  | sendAudio (pcm : List UInt16)
  | sender
  | tx
  | reply (status : UInt8)

namespace Bridge

/-- After `start`. -/
def init (buf : Fin (2 ^ k) → AudioFrame) (txBuf : AudioFrame) : Bridge k :=
  ⟨.init buf, 0, txBuf, {}, .idle 0, .pop, 0, [], []⟩

/-- `seq_.fetch_add(1)`, without its result. -/
def fetchSeq (s : Bridge k) : Bridge k := { s with seq := s.seq + 1, issued := s.issued + 1 }

/-- The frame that `push_overwrite` loses. -/
def overwritten (ring : RingBuffer k AudioFrame) (frame : AudioFrame) : Option AudioFrame :=
  if ring.size + 1 = 2 ^ k then (ring.contents ++ [frame]).head? else none

/-- `stats_.frames_dropped.fetch_add(1)`. -/
def countDropped (s : Bridge k) (lost : Option AudioFrame) : Bridge k :=
  { s with
    stats := { s.stats with framesDropped := s.stats.framesDropped + 1 }
    counted := s.counted ++ [lost.map fun frame => frame.seq.toNat] }

/-- The next step of `send_audio`. -/
def sendStep (cfg : Config) (s : Bridge k) : Option (Bridge k) :=
  match s.sender with
  | .idle _ => none
  | .loop pcm enqueued =>
      if frameSamples ≤ pcm.length then
        let frame := audioFrame s.seq (pcm.take frameSamples)
        some { s.fetchSeq with sender := .fill frame (pcm.drop frameSamples) enqueued }
      else some { s with sender := .idle enqueued }
  | .fill frame pcm enqueued =>
      if s.ring.fillPct ≥ cfg.overflowDropThreshold then
        some { s with sender := .overwrite frame pcm enqueued }
      else some { s with sender := .push frame pcm enqueued }
  | .overwrite frame pcm enqueued =>
      some { s.countDropped (overwritten s.ring frame) with
        ring := s.ring.pushOverwrite frame
        sender := .loop pcm (enqueued + frameSamples) }
  | .push frame pcm enqueued =>
      match s.ring.push frame with
      | some ring => some { s with ring := ring, sender := .loop pcm (enqueued + frameSamples) }
      | none => some { s.countDropped (some frame) with sender := .idle enqueued }

/-- The next step of `tx_loop`, up to a transfer. -/
def txStep (cfg : Config) (s : Bridge k) : Option (Bridge k) :=
  match s.tx with
  | .pop =>
      match s.ring.pop with
      | none => some { s with tx := if cfg.sendSilenceOnUnderrun then .silence else .pop }
      | some (frame, ring) => some { s with ring := ring, txBuf := frame, tx := .transfer frame }
  -- the silence frame is packed, but the loop goes on without a transfer
  | .silence => some { s.fetchSeq with txBuf := silenceFrame s.seq, tx := .pop }
  | .transfer _ => none
  | .requeue frame => some { s with ring := s.ring.pushOverwrite frame, tx := .pop }

/-- What the status of a transfer counts. -/
def countStatus (stats : Stats) (status : UInt8) : Stats :=
  { stats with
    framesSent := stats.framesSent + 1
    picoOverflows := stats.picoOverflows + if status &&& sbStatusOverflow ≠ 0 then 1 else 0
    picoUnderruns := stats.picoUnderruns + if status &&& sbStatusUnderrun ≠ 0 then 1 else 0
    crcErrors := stats.crcErrors + if status &&& sbStatusCrcErr ≠ 0 then 1 else 0 }

/-- A transfer of `tx_loop`, with the status that comes back. -/
def transferStep (s : Bridge k) (status : UInt8) : Option (Bridge k) :=
  match s.tx with
  | .transfer frame =>
      let s := { s with stats := countStatus s.stats status }
      if status &&& sbStatusBusy ≠ 0 then some { s with tx := .requeue frame }
      else some { s with tx := .pop, accepted := s.accepted ++ [frame] }
  | _ => none

/-- One event. -/
def step (cfg : Config) (s : Bridge k) : AudioEvent → Option (Bridge k)
  | .sendAudio pcm =>
      match s.sender with
      | .idle _ => some { s with sender := .loop pcm 0 }
      | _ => none
  | .sender => s.sendStep cfg
  | .tx => s.txStep cfg
  | .reply status => s.transferStep status

end Bridge

end MFoES.Southbridge
