import MFoES.Lib.LittleEndian
import Mathlib.Data.List.Basic
import Mathlib.Tactic.Common

/-!
# OTA packets

A packet is a magic byte, a type, the length of the payload, the payload and the
exclusive or of its bytes.  `usbd` delivers messages, and `OtaStream` takes them for
a stream of bytes: it hands out exact counts and carries what is left over.

`recv_packet` gives what was encoded, however the bytes were cut into messages
(`recvPacket_encode`), and waits where a packet has not wholly come
(`recvPacket_of_prefix`).
-/

namespace MFoES.Ota

open LittleEndian

def otaMagic : UInt8 := 0x0A

def otaBegin : UInt8 := 0x01

def otaChunk : UInt8 := 0x02

def otaEnd : UInt8 := 0x03

def otaAck : UInt8 := 0x04

def otaNak : UInt8 := 0x05

def otaAbort : UInt8 := 0x06

/-- `PKT_BUF`: a chunk of 1 MB and what goes with it. -/
def pktBuf : Nat := 1024 * 1024 + 128

/-- `OtaPacket`. -/
structure OtaPacket where
  type : UInt8
  payload : List UInt8
deriving DecidableEq, Repr

/-- `xor_checksum`. -/
def xorChecksum (data : List UInt8) : UInt8 := data.foldl (fun cs b => cs ^^^ b) 0

/-- The bytes of a packet. -/
def OtaPacket.encode (p : OtaPacket) : List UInt8 :=
  [otaMagic, p.type] ++ le32 (UInt32.ofNat p.payload.length) ++ p.payload ++
    [xorChecksum p.payload]

/-- `encode_packet`, unless the buffer is too small. -/
def encodePacket (bufSize : Nat) (type : UInt8) (payload : List UInt8) : Option (List UInt8) :=
  if bufSize < 1 + 1 + 4 + payload.length + 1 then none else some (OtaPacket.encode ⟨type, payload⟩)

theorem encodePacket_of_fits {bufSize : Nat} (type : UInt8) {payload : List UInt8}
    (h : payload.length + 7 ≤ bufSize) :
    encodePacket bufSize type payload = some (OtaPacket.encode ⟨type, payload⟩) :=
  if_neg (by omega)

theorem OtaPacket.length_encode (p : OtaPacket) : p.encode.length = p.payload.length + 7 := by
  simp only [encode, List.length_append, List.length_cons, List.length_nil, length_le32]
  omega

/-- The bytes in front of the payload. -/
def OtaPacket.header (p : OtaPacket) : List UInt8 :=
  otaMagic :: p.type :: le32 (UInt32.ofNat p.payload.length)

@[simp] theorem OtaPacket.length_header (p : OtaPacket) : p.header.length = 6 := rfl

theorem OtaPacket.encode_eq (p : OtaPacket) :
    p.encode = p.header ++ (p.payload ++ [xorChecksum p.payload]) := by
  rw [encode, List.append_assoc _ p.payload]
  rfl

/-- The length field of a header. -/
theorem OtaPacket.get32_header (p : OtaPacket) :
    get32 p.header 2 = UInt32.ofNat p.payload.length := by
  have h := get32_drop p.header 2 0
  rw [Nat.add_zero] at h
  rw [← h, ← get32_le32 (UInt32.ofNat p.payload.length) [], List.append_nil]
  rfl

/-! ## Messages as a stream -/

/-- What a read gives. -/
inductive Outcome (α : Type) where
  | got (a : α)
  /-- There is no message: the read waits for one, or finds the connection lost. -/
  | starved
  | failed
deriving DecidableEq, Repr

namespace Outcome

variable {α β : Type}

/-- Go on with what was read. -/
def bind (o : Outcome α) (f : α → Outcome β) : Outcome β :=
  match o with
  | got a => f a
  | starved => starved
  | failed => failed

@[simp] theorem got_bind (a : α) (f : α → Outcome β) : (got a).bind f = f a := rfl

@[simp] theorem starved_bind (f : α → Outcome β) : (starved : Outcome α).bind f = starved := rfl

end Outcome

/-- `OtaStream`, with the messages that `usbd` has for it. -/
structure OtaStream where
  /-- Pending bytes not yet consumed. -/
  buf : List UInt8
  /-- Read offset into `buf`. -/
  head : Nat
  head_le : head ≤ buf.length
  incoming : List (List UInt8)

namespace OtaStream

theorem head_fresh_le : 0 ≤ ([] : List UInt8).length := Nat.le_refl 0

/-- The stream of a new session. -/
def fresh (incoming : List (List UInt8)) : OtaStream := ⟨[], 0, head_fresh_le, incoming⟩

/-- `avail()`. -/
def avail (s : OtaStream) : Nat := s.buf.length - s.head

/-- The bytes that are not consumed. -/
def unread (s : OtaStream) : List UInt8 := s.buf.drop s.head

@[simp] theorem length_unread (s : OtaStream) : s.unread.length = s.avail := List.length_drop

/-- Drop the consumed prefix and append a message. -/
def pull (s : OtaStream) (msg : List UInt8) (incoming : List (List UInt8)) : OtaStream :=
  ⟨s.unread ++ msg, 0, Nat.zero_le _, incoming⟩

/-- The loop of `read_exact`, until `n` bytes are there.  `usbd.recv` refuses a message
that is empty or does not fit `msg`. -/
def fill (n : Nat) : List (List UInt8) → OtaStream → Outcome OtaStream
  | [], s => if n ≤ s.avail then .got s else .starved
  | m :: ms, s =>
      if n ≤ s.avail then .got s
      else if m.length = 0 ∨ pktBuf < m.length then .failed
      else fill n ms (s.pull m ms)

/-- `head += n`, up to the end of `buf`. -/
def advance (s : OtaStream) (n : Nat) : OtaStream :=
  ⟨s.buf, min (s.head + n) s.buf.length, Nat.min_le_right _ _, s.incoming⟩

/-- `read_exact`. -/
def readExact (s : OtaStream) (n : Nat) : Outcome (List UInt8 × OtaStream) :=
  (fill n s.incoming s).bind fun t => .got (t.unread.take n, t.advance n)

/-- `recv_packet`, into a payload buffer of `bufSize` bytes. -/
def recvPacket (s : OtaStream) (bufSize : Nat) : Outcome (OtaPacket × OtaStream) :=
  (s.readExact 6).bind fun (header, s) =>
    if header.getD 0 0 ≠ otaMagic then .failed
    else
      let payloadLen := get32 header 2
      if bufSize < payloadLen.toNat then .failed
      else
        (if payloadLen = 0 then .got ([], s) else s.readExact payloadLen.toNat).bind
          fun (payload, s) =>
            (s.readExact 1).bind fun (cs, s) =>
              if cs.getD 0 0 ≠ xorChecksum payload then .failed
              else .got (⟨header.getD 1 0, payload⟩, s)

/-! ## What is read -/

/-- The bytes that are there or on their way. -/
def pending (s : OtaStream) : List UInt8 := s.unread ++ s.incoming.flatten

/-- `usbd.recv` accepts every message on its way. -/
def Sound (s : OtaStream) : Prop := ∀ m ∈ s.incoming, 0 < m.length ∧ m.length ≤ pktBuf

@[simp] theorem unread_fresh (ms : List (List UInt8)) : (fresh ms).unread = [] := rfl

@[simp] theorem unread_pull (s : OtaStream) (m : List UInt8) (ms : List (List UInt8)) :
    (s.pull m ms).unread = s.unread ++ m := rfl

theorem unread_advance {s : OtaStream} {n : Nat} (h : n ≤ s.avail) :
    (s.advance n).unread = s.unread.drop n := by
  have hle := s.head_le
  have hmin : min (s.head + n) s.buf.length = s.head + n :=
    Nat.min_eq_left (by rw [avail] at h; omega)
  rw [unread, unread, List.drop_drop]
  exact congrArg (s.buf.drop ·) hmin

/-- The loop ends with the bytes there, or without a message left. -/
theorem fill_spec {n : Nat} {ms : List (List UInt8)} {s : OtaStream} (hms : s.incoming = ms)
    (hs : s.Sound) :
    (n ≤ s.pending.length ∧
      ∃ t, fill n ms s = .got t ∧ t.Sound ∧ t.pending = s.pending ∧ n ≤ t.avail) ∨
    (s.pending.length < n ∧ fill n ms s = .starved) := by
  induction ms generalizing s with
  | nil =>
      have hp : s.pending = s.unread := by
        rw [pending, hms, List.flatten_nil, List.append_nil]
      rw [fill, hp, length_unread]
      rcases Nat.lt_or_ge s.avail n with hlt | hge
      · exact Or.inr ⟨hlt, if_neg (Nat.not_le.mpr hlt)⟩
      · exact Or.inl ⟨hge, s, if_pos hge, hs, hp, hge⟩
  | cons m ms ih =>
      have hm := hs m (hms ▸ List.mem_cons_self)
      have hp : s.pending = s.unread ++ (m ++ ms.flatten) := by
        rw [pending, hms, List.flatten_cons]
      rw [fill]
      rcases Nat.lt_or_ge s.avail n with hlt | hge
      · rw [if_neg (Nat.not_le.mpr hlt), if_neg (by omega)]
        have hpull : (s.pull m ms).pending = s.pending := by
          rw [hp, ← List.append_assoc]
          rfl
        rw [← hpull]
        exact ih rfl fun x hx => hs x (hms ▸ List.mem_cons_of_mem _ hx)
      · rw [if_pos hge]
        refine Or.inl ⟨?_, s, rfl, hs, rfl, hge⟩
        rw [pending, List.length_append, length_unread]
        exact Nat.le_add_right_of_le hge

/-- `read_exact` gives the next bytes of the stream, or waits. -/
theorem readExact_spec {s : OtaStream} (hs : s.Sound) (n : Nat) :
    (n ≤ s.pending.length ∧
      ∃ t, s.readExact n = .got (s.pending.take n, t) ∧ t.Sound ∧ t.pending = s.pending.drop n) ∨
    (s.pending.length < n ∧ s.readExact n = .starved) := by
  rcases fill_spec (n := n) (rfl : s.incoming = s.incoming) hs with
    ⟨hle, t, hfill, ht, hpending, havail⟩ | ⟨hlt, hfill⟩
  · refine Or.inl ⟨hle, t.advance n, ?_, ht, ?_⟩
    · rw [readExact, hfill, Outcome.got_bind, ← hpending, pending,
        List.take_append_of_le_length (by rw [length_unread]; exact havail)]
    · rw [← hpending, pending, pending, unread_advance havail,
        List.drop_append_of_le_length (by rw [length_unread]; exact havail)]
      rfl
  · exact Or.inr ⟨hlt, by rw [readExact, hfill, Outcome.starved_bind]⟩

theorem readExact_of_append {s : OtaStream} (hs : s.Sound) {a b : List UInt8}
    (h : s.pending = a ++ b) :
    ∃ t, s.readExact a.length = .got (a, t) ∧ t.Sound ∧ t.pending = b := by
  rcases readExact_spec hs a.length with ⟨-, t, hread, ht, hpending⟩ | ⟨hlt, -⟩
  · rw [h, List.take_left] at hread
    rw [h, List.drop_left] at hpending
    exact ⟨t, hread, ht, hpending⟩
  · rw [h, List.length_append] at hlt
    omega

/-- The payload, which is not read when it is empty. -/
theorem readPayload_of_append {s : OtaStream} (hs : s.Sound) {payload b : List UInt8}
    (h32 : payload.length < 2 ^ 32) (h : s.pending = payload ++ b) :
    ∃ t, (if UInt32.ofNat payload.length = 0 then Outcome.got ([], s)
        else s.readExact (UInt32.ofNat payload.length).toNat) = .got (payload, t) ∧
      t.Sound ∧ t.pending = b := by
  have hlen := UInt32.toNat_ofNat_of_lt' h32
  by_cases h0 : UInt32.ofNat payload.length = 0
  · rw [h0] at hlen
    have hnil := List.eq_nil_of_length_eq_zero hlen.symm
    rw [if_pos h0, hnil]
    exact ⟨s, rfl, hs, by rw [h, hnil, List.nil_append]⟩
  · rw [if_neg h0, hlen]
    exact readExact_of_append hs h

/-- A packet that has wholly come is received, whatever follows. -/
theorem recvPacket_encode {s : OtaStream} (hs : s.Sound) {p : OtaPacket} {bufSize : Nat}
    {b : List UInt8} (h32 : p.payload.length < 2 ^ 32) (hfit : p.payload.length ≤ bufSize)
    (h : s.pending = p.encode ++ b) :
    ∃ t, s.recvPacket bufSize = .got (p, t) ∧ t.Sound ∧ t.pending = b := by
  rw [p.encode_eq, List.append_assoc, List.append_assoc] at h
  obtain ⟨t₁, hheader, ht₁, hp₁⟩ := readExact_of_append hs h
  obtain ⟨t₂, hpayload, ht₂, hp₂⟩ := readPayload_of_append ht₁ h32 hp₁
  obtain ⟨t₃, hcs, ht₃, hp₃⟩ := readExact_of_append ht₂ hp₂
  refine ⟨t₃, ?_, ht₃, hp₃⟩
  have hlen := UInt32.toNat_ofNat_of_lt' h32
  rw [p.length_header] at hheader
  rw [List.length_singleton] at hcs
  rw [hlen] at hpayload
  rw [recvPacket, hheader, Outcome.got_bind]
  simp only [p.get32_header, hlen]
  rw [if_neg (fun hne => hne rfl), if_neg (Nat.not_lt.mpr hfit), hpayload, Outcome.got_bind]
  simp only [hcs, Outcome.got_bind]
  exact if_neg fun hne => hne rfl

/-- Of a packet that has not wholly come nothing is received. -/
theorem recvPacket_of_prefix {s : OtaStream} (hs : s.Sound) {p : OtaPacket} {bufSize : Nat}
    {X : List UInt8} (h32 : p.payload.length < 2 ^ 32) (hfit : p.payload.length ≤ bufSize)
    (hX : X ≠ []) (h : s.pending ++ X = p.encode) : s.recvPacket bufSize = .starved := by
  have hpos := List.length_pos_iff.mpr hX
  have hall := congrArg List.length h
  rw [List.length_append, p.length_encode] at hall
  have hlen := UInt32.toNat_ofNat_of_lt' h32
  rcases readExact_spec hs 6 with ⟨h6, t₁, hheader, ht₁, hp₁⟩ | ⟨-, hheader⟩
  · have htake : s.pending.take 6 = p.header := by
      have htake := congrArg (List.take 6) h
      rw [List.take_append_of_le_length h6, p.encode_eq, List.take_left' p.length_header] at htake
      exact htake
    have hleft : t₁.pending.length < p.payload.length + 1 := by
      rw [hp₁, List.length_drop]
      omega
    rw [recvPacket, hheader, Outcome.got_bind, htake]
    simp only [p.get32_header, hlen]
    rw [if_neg (fun hne => hne rfl), if_neg (Nat.not_lt.mpr hfit)]
    by_cases h0 : UInt32.ofNat p.payload.length = 0
    · rw [h0] at hlen
      have hzero : p.payload.length = 0 := hlen.symm
      rw [if_pos h0, Outcome.got_bind]
      rcases readExact_spec ht₁ 1 with ⟨h1, -⟩ | ⟨-, hstarved⟩
      · omega
      · rw [hstarved, Outcome.starved_bind]
    · rw [if_neg h0]
      rcases readExact_spec ht₁ p.payload.length with ⟨hle, t₂, hpayload, ht₂, hp₂⟩ | ⟨-, hstarved⟩
      · rw [hpayload, Outcome.got_bind]
        rcases readExact_spec ht₂ 1 with ⟨h1, -⟩ | ⟨-, hstarved⟩
        · rw [hp₂, List.length_drop] at h1
          omega
        · rw [hstarved, Outcome.starved_bind]
      · rw [hstarved, Outcome.starved_bind]
  · rw [recvPacket, hheader, Outcome.starved_bind]

end OtaStream

end MFoES.Ota
