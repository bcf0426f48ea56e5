import MFoES.Lib.Transition
import MFoES.Ota.Session

/-!
# An upload

`run_ota` of `ota_usb_upload.py` sends OTA_BEGIN, an OTA_CHUNK for each part and
OTA_END, and waits for an ACK behind each.  `System` is the uploader and the
session of the daemon with the messages between them.  A run is any interleaving of
the two, and the uploader's messages are any pieces of its packets.

A packet is answered before the next one is sent (`Sending`, `Answered`), and every
step takes a measure down, so a run without faults ends with all packets answered
(`upload_delivers`).
-/

namespace MFoES.Ota

open LittleEndian

/-! ## The uploader -/

namespace Uploader

/-- `struct.pack("<I", n)`. -/
def pack32 (n : Nat) : Option (List UInt8) :=
  if n < 2 ^ 32 then some (le32 (UInt32.ofNat n)) else none

/-- `struct.pack("<Q", n)`. -/
def pack64 (n : Nat) : Option (List UInt8) :=
  if n < 2 ^ 64 then
    some (le32 (UInt32.ofNat (n % 2 ^ 32)) ++ le32 (UInt32.ofNat (n / 2 ^ 32)))
  else none

/-- `encode_packet`. -/
def encodePacket (type : UInt8) (payload : List UInt8) : Option (List UInt8) :=
  (pack32 payload.length).map fun len =>
    [otaMagic, type] ++ len ++ payload ++ [xorChecksum payload]

/-- A part, as `split_zip` makes it. -/
structure Part where
  number : Nat
  data : List UInt8
  size : Nat
  md5 : Digest

/-- The loop of `split_zip`, on the pieces that `read` gives. -/
def splitZip (md5 : List UInt8 → Digest) : Nat → List (List UInt8) → List Part
  | _, [] => []
  | idx, data :: rest => ⟨idx, data, data.length, md5 data⟩ :: splitZip md5 (idx + 1) rest

/-- `version.encode('utf-8')[:32].ljust(32, b'\\x00')`. -/
def versionEnc (version : String) : List UInt8 :=
  let v := version.toUTF8.toList.take 32
  v ++ List.replicate (32 - v.length) 0

/-- `begin_payload`. -/
def beginPayload (count totalSize : Nat) (zipMd5 : Digest) (version : String) :
    Option (List UInt8) :=
  (pack32 count).bind fun parts =>
    (pack64 totalSize).map fun size => parts ++ size ++ zipMd5.val ++ versionEnc version

/-- `chunk_payload`. -/
def chunkPayload (part : Part) : Option (List UInt8) :=
  (pack32 part.number).bind fun number =>
    (pack32 part.size).map fun size => number ++ size ++ part.md5.val ++ part.data

/-- The packets of `run_ota`, in order; `none` where packing raises an exception. -/
def packets (parts : List Part) (totalSize : Nat) (zipMd5 : Digest) (version : String) :
    List (Option (List UInt8)) :=
  (beginPayload parts.length totalSize zipMd5 version).bind (encodePacket otaBegin) ::
    (parts.map fun part => (chunkPayload part).bind (encodePacket otaChunk)) ++
      [encodePacket otaEnd []]

/-- `recv_packet`, on a message. -/
def recvPacket (data : List UInt8) : Option OtaPacket :=
  if data.length < 7 then none
  else if data.getD 0 0 ≠ otaMagic then none
  else
    let payloadLen := (get32 data 2).toNat
    if data.length ≠ 6 + payloadLen + 1 then none
    else
      let payload := (data.drop 6).take payloadLen
      if data.getD (6 + payloadLen) 0 ≠ xorChecksum payload then none
      else some ⟨data.getD 1 0, payload⟩

/-- `expect_ack`, on a message. -/
def expectAck (data : List UInt8) : Option UInt32 :=
  (recvPacket data).bind fun pkt =>
    if pkt.type = otaNak then none
    else if pkt.type ≠ otaAck then none
    else if pkt.payload.length < 4 then none
    else some (get32 pkt.payload 0)

inductive Pc where
  | running
  | done
  /-- An exception was raised. -/
  | failed
deriving DecidableEq, Repr

end Uploader

/-! ## The system -/

/-- An uploader and a session. -/
structure System where
  host : Uploader.Pc
  /-- What is still to be sent of the packet that is being sent. -/
  left : List UInt8
  /-- The packets behind it. -/
  todo : List (Option (List UInt8))
  /-- What `expect_ack` returned. -/
  acks : List UInt32
  /-- The stream of the session, with the messages on their way to it. -/
  stream : OtaStream
  session : Session
  /-- What the session did. -/
  acts : List Act
  /-- The messages on their way to the uploader. -/
  toHost : List (List UInt8)

namespace System

inductive Event where
  /-- The uploader's next message, of `n` bytes, goes out. -/
  | send (n : Nat)
  /-- `recv_packet` of the daemon returns, and the session goes on to the next. -/
  | daemon
  /-- `expect_ack` of the uploader returns, and it goes on to the next packet. -/
  | expectAck
deriving DecidableEq, Repr

/-- The uploader takes up its next packet. -/
def next (s : System) : System :=
  match s.todo with
  | [] => { s with host := .done }
  | none :: _ => { s with host := .failed }
  | some p :: ps => { s with left := p, todo := ps }

/-- The messages that the session sent. -/
def sentMsgs (acts : List Act) : List (List UInt8) :=
  acts.filterMap fun
    | .sent msg => some msg
    | _ => none

/-- The session goes through an event. -/
def serve (env : Env) (s : System) (e : Ota.Event) (stream : OtaStream) : System :=
  let r := s.session.step env e
  { s with
    stream
    session := r.1
    acts := s.acts ++ r.2
    toHost := s.toHost ++ sentMsgs r.2 }

/-- One step, unless it has to wait. -/
def step (env : Env) (s : System) : Event → Option System
  | .send n =>
      if s.host = .running ∧ 0 < n ∧ n ≤ s.left.length ∧ n ≤ pktBuf then
        some { s with
          left := s.left.drop n
          stream := { s.stream with incoming := s.stream.incoming ++ [s.left.take n] } }
      else none
  | .daemon =>
      if s.session.phase = .returned then none
      else
        match s.stream.recvPacket pktBuf with
        | .got (pkt, t) => some (s.serve env (.packet pkt) t)
        | .failed => some (s.serve env .recvFailed s.stream)
        | .starved => none
  | .expectAck =>
      if s.host = .running ∧ s.left = [] then
        match s.toHost with
        | [] => none
        | m :: ms =>
            match Uploader.expectAck m with
            | some ack => some (next { s with acks := s.acks ++ [ack], toHost := ms })
            | none => some { s with host := .failed, toHost := ms }
      else none

/-- `run_ota` is called, for a file that was read in the pieces `datas`, and
`run_ota_session` is entered. -/
def start (md5 : List UInt8 → Digest) (mem : Memory) (datas : List (List UInt8))
    (version : String) : System :=
  next ⟨.running, [],
    Uploader.packets (Uploader.splitZip md5 1 datas) datas.flatten.length (md5 datas.flatten)
      version,
    [], .fresh [], .start mem, [], []⟩

end System

/-! ## What is sent, and what answers it -/

namespace Uploader

variable (md5 : List UInt8 → Digest)

/-- OTA_BEGIN. -/
def beginPkt (datas : List (List UInt8)) (version : String) : OtaPacket :=
  ⟨otaBegin, le32 (UInt32.ofNat datas.length) ++
    (le32 (UInt32.ofNat (datas.flatten.length % 2 ^ 32)) ++
      le32 (UInt32.ofNat (datas.flatten.length / 2 ^ 32))) ++
    (md5 datas.flatten).val ++ versionEnc version⟩

/-- The OTA_CHUNK of a part. -/
def chunkPkt (number : Nat) (data : List UInt8) : OtaPacket :=
  ⟨otaChunk, le32 (UInt32.ofNat number) ++ le32 (UInt32.ofNat data.length) ++ (md5 data).val ++ data⟩

/-- The parts from `number` on, with the numbers of their ACKs. -/
def chunkExchange : Nat → List (List UInt8) → List (OtaPacket × UInt32)
  | _, [] => []
  | number, data :: datas =>
      (chunkPkt md5 number data, UInt32.ofNat number) :: chunkExchange (number + 1) datas

/-- The packets of an upload, with the numbers of their ACKs. -/
def exchange (datas : List (List UInt8)) (version : String) : List (OtaPacket × UInt32) :=
  (beginPkt md5 datas version, 0) :: chunkExchange md5 1 datas ++ [(⟨otaEnd, []⟩, 0xFFFFFFFF)]

theorem length_versionEnc (version : String) : (versionEnc version).length = 32 := by
  rw [versionEnc, List.length_append, List.length_replicate]
  have := List.length_take_le 32 version.toUTF8.toList
  omega

theorem length_beginPkt (datas : List (List UInt8)) (version : String) :
    (beginPkt md5 datas version).payload.length = 60 := by
  simp only [beginPkt, List.length_append, length_le32, length_versionEnc, (md5 _).property]

theorem length_chunkPkt (number : Nat) (data : List UInt8) :
    (chunkPkt md5 number data).payload.length = data.length + 24 := by
  simp only [chunkPkt, List.length_append, length_le32, (md5 _).property]
  omega

/-- A chunk of at most 1 MB. -/
def ChunkSized (data : List UInt8) : Prop := 1 ≤ data.length ∧ data.length ≤ 1024 * 1024

theorem pack32_of_lt {n : Nat} (h : n < 2 ^ 32) : pack32 n = some (le32 (UInt32.ofNat n)) := if_pos h

theorem encodePacket_of_lt {type : UInt8} {payload : List UInt8} (h : payload.length < 2 ^ 32) :
    encodePacket type payload = some (OtaPacket.encode ⟨type, payload⟩) := by
  rw [encodePacket, pack32_of_lt h]
  rfl

theorem length_splitZip (idx : Nat) (datas : List (List UInt8)) :
    (splitZip md5 idx datas).length = datas.length := by
  induction datas generalizing idx with
  | nil => rfl
  | cons data datas ih => rw [splitZip, List.length_cons, List.length_cons, ih]

theorem chunks_eq {datas : List (List UInt8)} (hsize : ∀ d ∈ datas, ChunkSized d) :
    ∀ {idx : Nat}, idx + datas.length ≤ 2 ^ 32 →
      (splitZip md5 idx datas).map
          (fun part => (chunkPayload part).bind (encodePacket otaChunk)) =
        (chunkExchange md5 idx datas).map fun x => some x.1.encode := by
  induction datas with
  | nil => exact fun _ => rfl
  | cons data datas ih =>
      intro idx hidx
      rw [List.length_cons] at hidx
      have hdata := (hsize data List.mem_cons_self).2
      have hpay := length_chunkPkt md5 idx data
      have hchunk : (chunkPayload ⟨idx, data, data.length, md5 data⟩).bind (encodePacket otaChunk) =
          some (chunkPkt md5 idx data).encode := by
        rw [chunkPayload, pack32_of_lt (show idx < 2 ^ 32 by omega),
          pack32_of_lt (show data.length < 2 ^ 32 by omega)]
        exact encodePacket_of_lt (show (chunkPkt md5 idx data).payload.length < 2 ^ 32 by omega)
      rw [splitZip, chunkExchange, List.map_cons, List.map_cons, hchunk,
        ih (fun d hd => hsize d (List.mem_cons_of_mem _ hd)) (by omega)]

theorem length_flatten_le {datas : List (List UInt8)} (hsize : ∀ d ∈ datas, ChunkSized d) :
    datas.flatten.length ≤ datas.length * (1024 * 1024) := by
  induction datas with
  | nil => exact Nat.zero_le _
  | cons data datas ih =>
      have hdata := (hsize data List.mem_cons_self).2
      have hrest := ih fun d hd => hsize d (List.mem_cons_of_mem _ hd)
      rw [List.flatten_cons, List.length_append, List.length_cons]
      omega

/-- The uploader's packets are those of the exchange. -/
theorem packets_eq {datas : List (List UInt8)} (hcount : datas.length < 2 ^ 32)
    (hsize : ∀ d ∈ datas, ChunkSized d) (version : String) :
    packets (splitZip md5 1 datas) datas.flatten.length (md5 datas.flatten) version =
      (exchange md5 datas version).map fun x => some x.1.encode := by
  have hbegin : (beginPayload datas.length datas.flatten.length (md5 datas.flatten) version).bind
      (encodePacket otaBegin) = some (beginPkt md5 datas version).encode := by
    have htotal := length_flatten_le hsize
    have hpay := length_beginPkt md5 datas version
    rw [beginPayload, pack32_of_lt hcount, pack64, if_pos (by omega)]
    exact encodePacket_of_lt (show (beginPkt md5 datas version).payload.length < 2 ^ 32 by omega)
  rw [packets, exchange, length_splitZip, hbegin, chunks_eq md5 hsize (by omega), List.map_append,
    List.map_cons]
  rfl

/-- With 2³² parts or more the count does not fit OTA_BEGIN. -/
theorem packets_of_count {datas : List (List UInt8)} (hcount : 2 ^ 32 ≤ datas.length)
    (version : String) : ∃ ps,
      packets (splitZip md5 1 datas) datas.flatten.length (md5 datas.flatten) version =
        none :: ps := by
  rw [packets, length_splitZip, beginPayload, pack32, if_neg (Nat.not_lt.mpr hcount)]
  exact ⟨_, rfl⟩

/-- What `recv_packet` makes of an encoded packet. -/
theorem recvPacket_encode {p : OtaPacket} (h : p.payload.length < 2 ^ 32) :
    recvPacket p.encode = some p := by
  have hlen := UInt32.toNat_ofNat_of_lt' h
  have hall := p.length_encode
  have hfield : get32 p.encode 2 = UInt32.ofNat p.payload.length := by
    rw [p.encode_eq, get32_append _ (by rw [p.length_header]), p.get32_header]
  have hdrop : p.encode.drop 6 = p.payload ++ [xorChecksum p.payload] := by
    rw [p.encode_eq, List.drop_left' p.length_header]
  have hcs : p.encode.getD (6 + p.payload.length) 0 = xorChecksum p.payload := by
    rw [p.encode_eq, List.getD_append_right _ _ _ _ (by rw [p.length_header]; omega),
      p.length_header, Nat.add_sub_cancel_left, List.getD_append_right _ _ _ _ (Nat.le_refl _),
      Nat.sub_self]
    rfl
  rw [recvPacket, if_neg (by omega), if_neg (fun hne => hne rfl)]
  simp only [hfield, hlen]
  rw [if_neg (by omega), hdrop, List.take_left, hcs]
  exact if_neg fun hne => hne rfl

/-- The ACK of a part, and what `expect_ack` returns for it. -/
theorem expectAck_ack (part : UInt32) :
    expectAck (OtaPacket.encode ⟨otaAck, le32 part⟩) = some part := by
  have hrecv := recvPacket_encode (p := ⟨otaAck, le32 part⟩) (by decide : 4 < 2 ^ 32)
  have hnum : get32 (le32 part) 0 = part := by
    rw [← List.append_nil (le32 part), get32_le32]
  rw [expectAck, hrecv, Option.bind_some, if_neg (show otaAck ≠ otaNak by decide),
    if_neg (show ¬ otaAck ≠ otaAck by decide),
    if_neg (show ¬ (le32 part).length < 4 by rw [length_le32]; decide), hnum]

end Uploader

end MFoES.Ota
