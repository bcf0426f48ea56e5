import MFoES.Ota.Packet
import Mathlib.Data.List.Infix

/-!
# An OTA session

`step` is `run_ota_session` from one call of `recv_packet` to the next.  What the
session does is put out as a list of `Act`s.

`recv_packet` copies a payload to the start of `rx_buf`, and a chunk is read from
there: its header, and as many bytes behind it as it says.  Nothing compares these
with the length of the payload, so `Memory` is the memory from the start of
`rx_buf` on, with what earlier packets left and what lies behind the buffer.  A
chunk is read within its packet exactly when it has a header and no more data than
the packet brought (`run_inside`).
-/

namespace MFoES.Ota

open LittleEndian

/-! ## Memory -/

/-- The bytes from the start of `rx_buf` on. -/
abbrev Memory := Nat → UInt8

namespace Memory

/-- `memcpy` to the start of `rx_buf`. -/
def write (mem : Memory) (bs : List UInt8) : Memory :=
  fun i => if i < bs.length then bs.getD i 0 else mem i

/-- The bytes at an offset. -/
def read (mem : Memory) (off len : Nat) : List UInt8 := (List.range len).map fun i => mem (off + i)

/-- The word at an offset. -/
def get32 (mem : Memory) (off : Nat) : UInt32 :=
  ofLE32 (mem off) (mem (off + 1)) (mem (off + 2)) (mem (off + 3))

@[simp] theorem length_read (mem : Memory) (off len : Nat) : (mem.read off len).length = len := by
  rw [read, List.length_map, List.length_range]

theorem write_of_lt (mem : Memory) {bs : List UInt8} {i : Nat} (h : i < bs.length) :
    mem.write bs i = bs.getD i 0 := if_pos h

/-- A word within what was written. -/
theorem get32_write (mem : Memory) {bs : List UInt8} {off : Nat} (h : off + 4 ≤ bs.length) :
    (mem.write bs).get32 off = LittleEndian.get32 bs off := by
  rw [get32, LittleEndian.get32, write_of_lt _ (by omega), write_of_lt _ (by omega),
    write_of_lt _ (by omega), write_of_lt _ (by omega)]

/-- Bytes within what was written. -/
theorem read_write (mem : Memory) {bs : List UInt8} {off len : Nat} (h : off + len ≤ bs.length) :
    (mem.write bs).read off len = (bs.drop off).take len := by
  refine List.ext_getElem ?_ fun i hi hi' => ?_
  · rw [length_read, List.length_take, List.length_drop]
    omega
  · rw [length_read] at hi
    have hlt : off + i < bs.length := by omega
    rw [List.getElem_take, List.getElem_drop]
    simp only [read, List.getElem_map, List.getElem_range]
    rw [write_of_lt _ hlt, List.getD_eq_getElem _ _ hlt]

end Memory

/-! ## The session -/

/-- An MD5 sum. -/
abbrev Digest := {l : List UInt8 // l.length = 16}

/-- MD5, and how the calls to the system go. -/
structure Env where
  md5 : List UInt8 → Digest
  /-- `mkdir_p` of the staging directory. -/
  mkdirP : Bool
  /-- The ACK of OTA_BEGIN is sent. -/
  sendAck : Bool
  fopen : Bool
  /-- The staged file can be read back. -/
  md5OfFile : Bool
  applyUpdate : Bool

/-- What `recv_packet` and the test of the loop give. -/
inductive Event where
  | packet (pkt : OtaPacket)
  | recvFailed
  /-- `running && usbd.is_connected()` is false; before the loop, `wait_readable` sees
  it. -/
  | stopped
deriving DecidableEq, Repr

/-- What the session does. -/
inductive Act where
  /-- A message for the host. -/
  | sent (msg : List UInt8)
  /-- Bytes of the current chunk are read, counted from the start of its payload. -/
  | read (off len : Nat)
  /-- `fwrite` to the staged file. -/
  | wrote (bs : List UInt8)
  /-- `cleanup_staging`. -/
  | cleaned
  /-- The progress bar. -/
  | progress (pct : UInt32)
  /-- `apply_update`, with what the staged file holds. -/
  | applied (zip : List UInt8)
  | rebooted
deriving DecidableEq, Repr

/-- The fields of OTA_BEGIN.  The version is only printed. -/
structure Begin where
  totalParts : UInt32
  totalSize : Nat
  md5Full : List UInt8
deriving DecidableEq, Repr

/-- Where the session stands. -/
inductive Phase where
  | waitBegin
  /-- In the receive loop.  The staged file holds the `writes`. -/
  | receiving (b : Begin) (receivedParts : UInt32) (writes : List (List UInt8))
  | returned
deriving DecidableEq, Repr

structure Session where
  phase : Phase
  /-- `rx_buf` and what is behind it. -/
  mem : Memory

namespace Session

/-- A session that has just been entered. -/
def start (mem : Memory) : Session := ⟨.waitBegin, mem⟩

/-- The 64-bit word at an offset. -/
def get64 (l : List UInt8) (i : Nat) : Nat := (get32 l i).toNat + 2 ^ 32 * (get32 l (i + 4)).toNat

/-- `send_ack`. -/
def sendAck (part : UInt32) : Act := .sent (OtaPacket.encode ⟨otaAck, le32 part⟩)

/-- `send_nak`. -/
def sendNak (part : UInt32) (reason : String) : Act :=
  .sent (OtaPacket.encode ⟨otaNak,
    le32 part ++ (reason.toList.map fun c => UInt8.ofNat c.toNat) ++ [0]⟩)

/-- The buffer has room for an ACK. -/
theorem encodePacket_ack (part : UInt32) :
    (encodePacket pktBuf otaAck (le32 part)).map Act.sent = some (sendAck part) := by
  rw [encodePacket_of_fits _ (by rw [length_le32]; decide)]
  rfl

/-- It has room for a NAK, with a reason that `send_nak` does not cut. -/
theorem encodePacket_nak (part : UInt32) {reason : String} (h : reason.toList.length ≤ 63) :
    (encodePacket pktBuf otaNak
      (le32 part ++ (reason.toList.map fun c => UInt8.ofNat c.toNat) ++ [0])).map Act.sent =
      some (sendNak part reason) := by
  rw [encodePacket_of_fits _ ?_]
  · rfl
  · simp only [List.length_append, length_le32, List.length_map, List.length_singleton, pktBuf]
    omega

/-- The fields of a payload of at least 29 bytes. -/
def parseBegin (payload : List UInt8) : Begin :=
  ⟨get32 payload 0, get64 payload 4, (payload.drop 12).take 16⟩

/-- Up to the receive loop, with the packet that has to be OTA_BEGIN. -/
def beginStep (env : Env) (pkt : OtaPacket) : Phase × List Act :=
  if pkt.type ≠ otaBegin then (.returned, [])
  else if pkt.payload.length < 29 then (.returned, [sendNak 0 "begin payload too short"])
  else
    let b := parseBegin pkt.payload
    if b.totalParts = 0 ∨ b.totalSize = 0 then (.returned, [sendNak 0 "invalid begin params"])
    else if ¬ env.mkdirP then (.returned, [.cleaned, sendNak 0 "staging mkdir failed"])
    else if ¬ env.sendAck then (.returned, [.cleaned, sendAck 0, .cleaned])
    else if ¬ env.fopen then
      (.returned, [.cleaned, sendAck 0, sendNak 0 "cannot open staging zip"])
    else (.receiving b 0 [], [.cleaned, sendAck 0])

/-- The staged file can be read and has the sum that was announced. -/
def Verified (env : Env) (b : Begin) (writes : List (List UInt8)) : Prop :=
  env.md5OfFile = true ∧ (env.md5 writes.flatten).val = b.md5Full

instance (env : Env) (b : Begin) (writes : List (List UInt8)) : Decidable (Verified env b writes) :=
  inferInstanceAs (Decidable (_ ∧ _))

/-- What comes behind the receive loop. -/
def finish (env : Env) (b : Begin) (receivedParts : UInt32) (writes : List (List UInt8)) :
    List Act :=
  if receivedParts ≠ b.totalParts then [.cleaned]
  else if ¬ Verified env b writes then [sendNak 0 "full zip md5 mismatch", .cleaned]
  else
    [sendAck 0xFFFFFFFF, .applied writes.flatten] ++
      if env.applyUpdate then [.cleaned, .rebooted] else [.cleaned]

/-- An OTA_CHUNK, of which the payload is at the start of `mem`. -/
def chunkStep (env : Env) (mem : Memory) (b : Begin) (receivedParts : UInt32)
    (writes : List (List UInt8)) : Phase × List Act :=
  let partNum := mem.get32 0
  let partSize := mem.get32 4
  let md5Chunk := mem.read 8 16
  let data := mem.read 24 partSize.toNat
  let reads := [.read 0 4, .read 4 4, .read 8 16, .read 24 partSize.toNat]
  if (env.md5 data).val ≠ md5Chunk then
    (.returned, reads ++ [sendNak partNum "md5 mismatch", .cleaned])
  else
    (.receiving b (receivedParts + 1) (writes ++ [data]),
      reads ++ [.read 24 partSize.toNat, .wrote data,
        .progress ((receivedParts + 1) * 100 / b.totalParts), sendAck partNum])

/-- A packet in the receive loop. -/
def loopStep (env : Env) (mem : Memory) (b : Begin) (receivedParts : UInt32)
    (writes : List (List UInt8)) (type : UInt8) : Phase × List Act :=
  if type = otaAbort then (.returned, [.cleaned])
  else if type = otaEnd then (.returned, finish env b receivedParts writes)
  else if type ≠ otaChunk then (.receiving b receivedParts writes, [])
  else chunkStep env mem b receivedParts writes

/-- One event. -/
def step (env : Env) (s : Session) : Event → Session × List Act
  | .packet pkt =>
      let mem := s.mem.write pkt.payload
      match s.phase with
      | .waitBegin => let r := beginStep env pkt; (⟨r.1, mem⟩, r.2)
      | .receiving b n w => let r := loopStep env mem b n w pkt.type; (⟨r.1, mem⟩, r.2)
      | .returned => (s, [])
  | .recvFailed | .stopped =>
      match s.phase with
      | .waitBegin => (⟨.returned, s.mem⟩, [])
      | .receiving b n w => (⟨.returned, s.mem⟩, finish env b n w)
      | .returned => (s, [])

/-- A run, with all that the session does in it. -/
def run (env : Env) : Session → List Event → Session × List Act
  | s, [] => (s, [])
  | s, e :: es =>
      let r := s.step env e
      let t := run env r.1 es
      (t.1, r.2 ++ t.2)

theorem run_append (env : Env) (s : Session) (es fs : List Event) :
    s.run env (es ++ fs) =
      (((s.run env es).1.run env fs).1, (s.run env es).2 ++ ((s.run env es).1.run env fs).2) := by
  induction es generalizing s with
  | nil => rfl
  | cons e es ih => simp only [List.cons_append, run, ih, List.append_assoc]

/-! ## Where a chunk is read -/

/-- The payload has a chunk header, and the data that the header announces. -/
def ChunkFits (payload : List UInt8) : Prop :=
  24 ≤ payload.length ∧ 24 + (get32 payload 4).toNat ≤ payload.length

instance (payload : List UInt8) : Decidable (ChunkFits payload) :=
  inferInstanceAs (Decidable (_ ∧ _))

/-- The reads of a chunk, whatever is in memory. -/
theorem mem_chunkStep {env : Env} {mem : Memory} {b : Begin} {n : UInt32}
    {w : List (List UInt8)} {off len : Nat} :
    .read off len ∈ (chunkStep env mem b n w).2 ↔
      .read off len ∈ [Act.read 0 4, .read 4 4, .read 8 16, .read 24 (mem.get32 4).toNat] := by
  simp only [chunkStep]
  by_cases hmd5 : (env.md5 (mem.read 24 (mem.get32 4).toNat)).val ≠ mem.read 8 16
  · rw [if_pos hmd5]
    simp [sendNak]
  · rw [if_neg hmd5]
    simp [sendAck]

/-- A chunk that was handled, and what was done for it. -/
structure Visit where
  payload : List UInt8
  acts : List Act

/-- What is read of the payload lies within it. -/
def Visit.Inside (v : Visit) : Prop :=
  ∀ a ∈ v.acts, match a with
    | .read off len => off + len ≤ v.payload.length
    | _ => True

instance (v : Visit) : Decidable v.Inside := by
  refine @List.decidableBAll _ _ (fun a => ?_) v.acts
  cases a <;> infer_instance

/-- The chunk that an event brings, in the receive loop. -/
def visit (env : Env) (s : Session) (e : Event) : List Visit :=
  match s.phase, e with
  | .receiving _ _ _, .packet pkt =>
      if pkt.type = otaChunk then [⟨pkt.payload, (s.step env e).2⟩] else []
  | _, _ => []

/-- The chunks that are handled in a run. -/
def visits (env : Env) : Session → List Event → List Visit
  | _, [] => []
  | s, e :: es => visit env s e ++ visits env (s.step env e).1 es

/-- A chunk is read within its payload exactly when it fits. -/
theorem chunk_inside {env : Env} {s : Session} {b : Begin} {n : UInt32} {w : List (List UInt8)}
    (hs : s.phase = .receiving b n w) {pkt : OtaPacket} (hpkt : pkt.type = otaChunk) :
    Visit.Inside ⟨pkt.payload, (s.step env (.packet pkt)).2⟩ ↔ ChunkFits pkt.payload := by
  have hacts : (s.step env (.packet pkt)).2 =
      (chunkStep env (s.mem.write pkt.payload) b n w).2 := by
    rw [step, hs, hpkt]
    rfl
  rw [hacts]
  constructor
  · intro h
    have hread := fun off len hmem => h (.read off len) (mem_chunkStep.mpr hmem)
    have h24 : 24 ≤ pkt.payload.length := hread 8 16 (by simp)
    refine ⟨h24, ?_⟩
    rw [← s.mem.get32_write (show 4 + 4 ≤ pkt.payload.length by omega)]
    exact hread _ _ (by simp)
  · rintro ⟨h24, hsize⟩ a ha
    cases a with
    | read off len =>
        have hmem := mem_chunkStep.mp ha
        rw [s.mem.get32_write (by omega)] at hmem
        simp only [List.mem_cons, Act.read.injEq, List.not_mem_nil, or_false] at hmem
        change off + len ≤ pkt.payload.length
        omega
    | _ => trivial

theorem visit_inside {env : Env} {es : List Event} : ∀ {s : Session},
    ∀ v ∈ visits env s es, v.Inside ↔ ChunkFits v.payload := by
  induction es with
  | nil => exact fun v hv => absurd hv List.not_mem_nil
  | cons e es ih =>
      intro s v hv
      rcases List.mem_append.mp hv with hv | hv
      · rw [visit.eq_def] at hv
        split at hv
        next pkt hphase _ =>
          by_cases hpkt : pkt.type = otaChunk
          · rw [if_pos hpkt] at hv
            rw [List.mem_singleton.mp hv]
            exact chunk_inside hphase hpkt
          · rw [if_neg hpkt] at hv
            cases hv
        next => cases hv
      · exact ih v hv

/-- The events of a session on a stream, up to `n` calls of `recv_packet`.  `up` is
what the test of the loop gives before each call but the first. -/
def receive (up : Nat → Bool) : Nat → Nat → OtaStream → List Event
  | 0, _, _ => []
  | n + 1, k, s =>
      if 0 < k ∧ ¬ up k then [.stopped]
      else
        match s.recvPacket pktBuf with
        | .got (pkt, t) => .packet pkt :: receive up n (k + 1) t
        | _ => [.recvFailed]

/-- Whatever bytes come: the session reads no chunk beyond its payload exactly when
every OTA_CHUNK that it receives in its loop has a header, and no more data than
its payload. -/
theorem run_inside (env : Env) (mem : Memory) (up : Nat → Bool) (n : Nat)
    (msgs : List (List UInt8)) :
    (∀ v ∈ visits env (start mem) (receive up n 0 (.fresh msgs)), v.Inside) ↔
      ∀ v ∈ visits env (start mem) (receive up n 0 (.fresh msgs)), ChunkFits v.payload :=
  forall₂_congr visit_inside

/-- OTA_BEGIN, then an OTA_CHUNK without payload. -/
theorem run_inside_empty :
    ¬ ∀ v ∈ visits ⟨fun _ => ⟨List.replicate 16 0, rfl⟩, true, true, true, true, true⟩
        (start fun _ => 0) (receive (fun _ => true) 2 0 (.fresh
          [OtaPacket.encode ⟨otaBegin, le32 1 ++ le32 1 ++ le32 0 ++ List.replicate 17 0⟩,
            OtaPacket.encode ⟨otaChunk, []⟩])), v.Inside := by
  decide

end Session

end MFoES.Ota
