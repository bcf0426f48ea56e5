import MFoES.Ota.Upload

/-!
# Runs of an upload

The session answers every packet of the uploader with the one ACK that belongs to
it, and applies the concatenation of the parts (`responds_exchange`).  Between the
two programs this holds in every interleaving: a packet is on its way and the
session waits for the rest of it (`Sending`), or its ACK is (`Answered`), or all is
done (`Finished`).
-/

namespace MFoES.Ota

open LittleEndian Uploader

/-! ## The answers of the session -/

/-- No call to the system fails. -/
def faultless (md5 : List UInt8 → Digest) : Env := ⟨md5, true, true, true, true, true⟩

/-- An ACK. -/
def ackMsg (part : UInt32) : List UInt8 := OtaPacket.encode ⟨otaAck, le32 part⟩

/-- The session takes every packet, and sends its ACK and nothing else. -/
def Responds (env : Env) : Session → List (OtaPacket × UInt32) → Prop
  | _, [] => True
  | s, (pkt, ack) :: xs =>
      s.phase ≠ .returned ∧ System.sentMsgs (s.step env (.packet pkt)).2 = [ackMsg ack] ∧
        Responds env (s.step env (.packet pkt)).1 xs

/-- The events of an exchange. -/
def eventsOf (xs : List (OtaPacket × UInt32)) : List Event := xs.map fun x => .packet x.1

theorem eventsOf_cons (x : OtaPacket × UInt32) (xs : List (OtaPacket × UInt32)) :
    eventsOf (x :: xs) = .packet x.1 :: eventsOf xs := rfl

/-- What the session sends is the ACKs. -/
theorem Responds.sentMsgs_run {env : Env} {xs : List (OtaPacket × UInt32)} {s : Session}
    (h : Responds env s xs) :
    System.sentMsgs (s.run env (eventsOf xs)).2 = (xs.map Prod.snd).map ackMsg := by
  induction xs generalizing s with
  | nil => rfl
  | cons x xs ih =>
      obtain ⟨-, hsent, hrest⟩ := h
      rw [eventsOf_cons, Session.run, System.sentMsgs, List.filterMap_append]
      exact congrArg₂ _ hsent (ih hrest)

section
variable (md5 : List UInt8 → Digest)

/-- The session reads OTA_BEGIN as the uploader wrote it. -/
theorem parseBegin_beginPkt (datas : List (List UInt8)) (version : String)
    (hsize : datas.flatten.length < 2 ^ 64) :
    Session.parseBegin (beginPkt md5 datas version).payload =
      ⟨UInt32.ofNat datas.length, datas.flatten.length, (md5 datas.flatten).val⟩ := by
  obtain ⟨n, hn⟩ : ∃ n, n = UInt32.ofNat datas.length := ⟨_, rfl⟩
  obtain ⟨lo, hlo⟩ : ∃ lo, lo = UInt32.ofNat (datas.flatten.length % 2 ^ 32) := ⟨_, rfl⟩
  obtain ⟨hi, hhi⟩ : ∃ hi, hi = UInt32.ofNat (datas.flatten.length / 2 ^ 32) := ⟨_, rfl⟩
  have hpayload : (beginPkt md5 datas version).payload =
      le32 n ++ (le32 lo ++ (le32 hi ++ ((md5 datas.flatten).val ++ versionEnc version))) := by
    rw [hn, hlo, hhi]
    simp only [beginPkt, List.append_assoc]
  have hget : Session.get64 (beginPkt md5 datas version).payload 4 = datas.flatten.length := by
    have hlow := get32_append_le32 (le32 n) lo
      (le32 hi ++ ((md5 datas.flatten).val ++ versionEnc version))
    have hhigh := get32_append_le32 (le32 n ++ le32 lo) hi
      ((md5 datas.flatten).val ++ versionEnc version)
    rw [List.append_assoc] at hhigh
    rw [hpayload]
    refine (congrArg₂ (fun a b : UInt32 => a.toNat + 2 ^ 32 * b.toNat) hlow hhigh).trans ?_
    rw [hlo, hhi, UInt32.toNat_ofNat_of_lt' (show _ % 2 ^ 32 < 2 ^ 32 by omega),
      UInt32.toNat_ofNat_of_lt' (show _ / 2 ^ 32 < 2 ^ 32 by omega)]
    omega
  have hmd5 : ((beginPkt md5 datas version).payload.drop 12).take 16 = (md5 datas.flatten).val := by
    rw [hpayload, ← List.append_assoc (le32 lo), ← List.append_assoc (le32 n)]
    rw [List.drop_left' (by simp), List.take_left' (md5 _).property]
  rw [Session.parseBegin, hget, hmd5, hpayload, get32_le32, hn]

/-- OTA_BEGIN is answered, and the loop is entered with what it announces. -/
theorem begin_step {datas : List (List UInt8)} (hne : datas ≠ [])
    (hcount : datas.length < 2 ^ 32) (hsize : ∀ d ∈ datas, ChunkSized d) (version : String)
    (mem : Memory) :
    ∃ b mem', (Session.start mem).step (faultless md5) (.packet (beginPkt md5 datas version)) =
        (⟨.receiving b 0 [], mem'⟩, [.cleaned, Session.sendAck 0]) ∧
      b.totalParts = UInt32.ofNat datas.length ∧ b.md5Full = (md5 datas.flatten).val := by
  have hlen := length_beginPkt md5 datas version
  have htotal := length_flatten_le hsize
  have hparse := parseBegin_beginPkt md5 datas version (by omega)
  have hparts : UInt32.ofNat datas.length ≠ 0 := by
    intro h0
    have h := UInt32.toNat_ofNat_of_lt' hcount
    rw [h0] at h
    exact hne (List.eq_nil_of_length_eq_zero h.symm)
  have hpos : datas.flatten.length ≠ 0 := by
    obtain ⟨d, ds, rfl⟩ := List.exists_cons_of_ne_nil hne
    have := (hsize d List.mem_cons_self).1
    rw [List.flatten_cons, List.length_append]
    omega
  have hbegin : Session.beginStep (faultless md5) (beginPkt md5 datas version) =
      (.receiving ⟨UInt32.ofNat datas.length, datas.flatten.length, (md5 datas.flatten).val⟩ 0 [],
        [.cleaned, Session.sendAck 0]) := by
    rw [Session.beginStep, hparse,
      if_neg (show ¬ (beginPkt md5 datas version).type ≠ otaBegin from not_not.mpr rfl),
      if_neg (by omega)]
    simp only [if_neg (not_or.mpr ⟨hparts, hpos⟩)]
    rfl
  refine ⟨⟨UInt32.ofNat datas.length, datas.flatten.length, (md5 datas.flatten).val⟩,
    mem.write (beginPkt md5 datas version).payload, ?_, rfl, rfl⟩
  simp only [Session.step, Session.start, hbegin]

/-- The fields of OTA_CHUNK. -/
theorem fields_chunkPkt (number : Nat) (data : List UInt8) :
    get32 (chunkPkt md5 number data).payload 0 = UInt32.ofNat number ∧
      get32 (chunkPkt md5 number data).payload 4 = UInt32.ofNat data.length ∧
      ((chunkPkt md5 number data).payload.drop 8).take 16 = (md5 data).val ∧
      (chunkPkt md5 number data).payload.drop 24 = data := by
  obtain ⟨n, hn⟩ : ∃ n, n = UInt32.ofNat number := ⟨_, rfl⟩
  obtain ⟨size, hsize⟩ : ∃ size, size = UInt32.ofNat data.length := ⟨_, rfl⟩
  have hpayload : (chunkPkt md5 number data).payload =
      le32 n ++ (le32 size ++ ((md5 data).val ++ data)) := by
    rw [hn, hsize]
    simp only [chunkPkt, List.append_assoc]
  rw [hpayload, ← hn, ← hsize]
  refine ⟨get32_le32 n _, get32_append_le32 (le32 n) size _, ?_, ?_⟩
  · rw [← List.append_assoc, List.drop_left' (by simp), List.take_left' (md5 _).property]
  · rw [← List.append_assoc, ← List.append_assoc, List.drop_left' (by simp [(md5 data).property])]

/-- A part is answered with its number, and written. -/
theorem chunk_step {s : Session} {b : Begin} {n : UInt32} {w : List (List UInt8)}
    (hs : s.phase = .receiving b n w) (number : Nat) {data : List UInt8} (hdata : ChunkSized data) :
    ∃ mem' acts, s.step (faultless md5) (.packet (chunkPkt md5 number data)) =
        (⟨.receiving b (n + 1) (w ++ [data]), mem'⟩, acts) ∧
      System.sentMsgs acts = [ackMsg (UInt32.ofNat number)] := by
  have hlen := length_chunkPkt md5 number data
  obtain ⟨hnum, hsize, hmd5, hbody⟩ := fields_chunkPkt md5 number data
  have hsize32 := UInt32.toNat_ofNat_of_lt' (show data.length < 2 ^ 32 by have := hdata.2; omega)
  generalize hpayload : (chunkPkt md5 number data).payload = payload at hlen hnum hsize hmd5 hbody
  rw [← s.mem.get32_write (by omega)] at hnum hsize
  rw [← s.mem.read_write (by omega)] at hmd5
  have hread : (s.mem.write payload).read 24 data.length = data := by
    rw [Memory.read_write _ (by omega), hbody, List.take_length]
  have hchunk : Session.chunkStep (faultless md5) (s.mem.write payload) b n w =
      (.receiving b (n + 1) (w ++ [data]),
        [.read 0 4, .read 4 4, .read 8 16, .read 24 data.length, .read 24 data.length, .wrote data,
          .progress ((n + 1) * 100 / b.totalParts), Session.sendAck (UInt32.ofNat number)]) := by
    simp only [Session.chunkStep, hnum, hsize, hsize32, hread, hmd5]
    exact if_neg fun hne => hne rfl
  have hstep : s.step (faultless md5) (.packet (chunkPkt md5 number data)) =
      (⟨.receiving b (n + 1) (w ++ [data]), s.mem.write payload⟩,
        [.read 0 4, .read 4 4, .read 8 16, .read 24 data.length, .read 24 data.length, .wrote data,
          .progress ((n + 1) * 100 / b.totalParts), Session.sendAck (UInt32.ofNat number)]) := by
    have htype : (chunkPkt md5 number data).type = otaChunk := rfl
    simp only [Session.step, hs, hpayload, htype, Session.loopStep]
    rw [if_neg (show otaChunk ≠ otaAbort by decide), if_neg (show otaChunk ≠ otaEnd by decide),
      if_neg (show ¬ otaChunk ≠ otaChunk from not_not.mpr rfl), hchunk]
  exact ⟨_, _, hstep, rfl⟩

/-- OTA_END behind all parts is answered, and the update is applied. -/
theorem end_step {s : Session} {b : Begin} {n : UInt32} {w : List (List UInt8)}
    (hs : s.phase = .receiving b n w) (hn : n = b.totalParts)
    (hmd5 : (md5 w.flatten).val = b.md5Full) :
    (s.step (faultless md5) (.packet ⟨otaEnd, []⟩)).2 =
      [Session.sendAck 0xFFFFFFFF, .applied w.flatten, .cleaned, .rebooted] := by
  have hverified : Session.Verified (faultless md5) b w := ⟨rfl, hmd5⟩
  simp only [Session.step, hs, Session.loopStep]
  rw [if_neg (show otaEnd ≠ otaAbort by decide), if_pos trivial, Session.finish,
    if_neg (not_not.mpr hn), if_neg (not_not.mpr hverified)]
  rfl

/-- The rest of an exchange, with `w` received. -/
theorem responds_chunks {datas : List (List UInt8)} (hsize : ∀ d ∈ datas, ChunkSized d) :
    ∀ {s : Session} {b : Begin} {n : UInt32} {w : List (List UInt8)} (number : Nat),
      s.phase = .receiving b n w → n + UInt32.ofNat datas.length = b.totalParts →
      (md5 (w ++ datas).flatten).val = b.md5Full →
      Responds (faultless md5) s
          (chunkExchange md5 number datas ++ [(⟨otaEnd, []⟩, 0xFFFFFFFF)]) ∧
        .applied (w ++ datas).flatten ∈ (s.run (faultless md5)
          (eventsOf (chunkExchange md5 number datas ++ [(⟨otaEnd, []⟩, 0xFFFFFFFF)]))).2 := by
  induction datas with
  | nil =>
      intro s b n w number hs hn hmd5
      rw [List.append_nil] at hmd5 ⊢
      have hend := end_step md5 hs ((UInt32.add_zero n).symm.trans hn) hmd5
      refine ⟨⟨fun h => ?_, ?_, trivial⟩, ?_⟩
      · rw [hs] at h
        cases h
      · rw [hend]
        rfl
      · have hrun : (s.run (faultless md5) (eventsOf [(⟨otaEnd, []⟩, 0xFFFFFFFF)])).2 =
            (s.step (faultless md5) (.packet ⟨otaEnd, []⟩)).2 ++ [] := rfl
        rw [chunkExchange, List.nil_append, hrun, hend]
        simp
  | cons data datas ih =>
      intro s b n w number hs hn hmd5
      obtain ⟨mem', acts, hstep, hsent⟩ := chunk_step md5 hs number
        (hsize data List.mem_cons_self)
      have hsplit : w ++ data :: datas = w ++ [data] ++ datas := by
        rw [List.append_assoc, List.singleton_append]
      have hcount : n + 1 + UInt32.ofNat datas.length = b.totalParts := by
        rw [← hn, List.length_cons, UInt32.ofNat_add, UInt32.add_assoc,
          UInt32.add_comm (UInt32.ofNat datas.length)]
        rfl
      rw [hsplit] at hmd5 ⊢
      obtain ⟨hrest, happlied⟩ := ih (fun d hd => hsize d (List.mem_cons_of_mem _ hd))
        (s := ⟨.receiving b (n + 1) (w ++ [data]), mem'⟩) (number + 1) rfl hcount hmd5
      rw [chunkExchange, List.cons_append]
      refine ⟨⟨fun h => ?_, ?_, ?_⟩, ?_⟩
      · rw [hs] at h
        cases h
      · rw [hstep]
        exact hsent
      · rw [hstep]
        exact hrest
      · have hrun : ∀ xs, (s.run (faultless md5)
            (eventsOf ((chunkPkt md5 number data, UInt32.ofNat number) :: xs))).2 =
              acts ++ (Session.run (faultless md5)
                ⟨.receiving b (n + 1) (w ++ [data]), mem'⟩ (eventsOf xs)).2 := by
          intro xs
          rw [eventsOf_cons, Session.run, hstep]
        rw [hrun]
        exact List.mem_append_right _ happlied

/-- The session answers a whole exchange, and applies the parts. -/
theorem responds_exchange {datas : List (List UInt8)} (hne : datas ≠ [])
    (hcount : datas.length < 2 ^ 32) (hsize : ∀ d ∈ datas, ChunkSized d) (version : String)
    (mem : Memory) :
    Responds (faultless md5) (.start mem) (exchange md5 datas version) ∧
      .applied datas.flatten ∈ ((Session.start mem).run (faultless md5)
        (eventsOf (exchange md5 datas version))).2 := by
  obtain ⟨b, mem', hstep, hparts, hfull⟩ := begin_step md5 hne hcount hsize version mem
  obtain ⟨hrest, happlied⟩ := responds_chunks md5 hsize
    (s := ⟨.receiving b 0 [], mem'⟩) 1 rfl (by rw [UInt32.zero_add, hparts])
    (by rw [List.nil_append, hfull])
  rw [exchange, List.cons_append]
  refine ⟨⟨by simp [Session.start], ?_, ?_⟩, ?_⟩
  · rw [hstep]
    rfl
  · rw [hstep]
    exact hrest
  · rw [eventsOf_cons, Session.run, hstep]
    exact List.mem_append_right _ happlied

end

/-! ## Between the two programs -/

namespace System

variable {env : Env}

/-- The packets behind the current one, for the uploader. -/
def encoded (xs : List (OtaPacket × UInt32)) : List (Option (List UInt8)) :=
  xs.map fun x => some x.1.encode

/-- Of the packet `x` some bytes have gone out, and the session waits for it. -/
structure Sending (env : Env) (acks : List UInt32) (acts : List Act) (s : System)
    (x : OtaPacket × UInt32) (xs : List (OtaPacket × UInt32)) : Prop where
  host : s.host = .running
  todo : s.todo = encoded xs
  toHost : s.toHost = []
  sound : s.stream.Sound
  bytes : s.stream.pending ++ s.left = x.1.encode
  fits : ∀ y ∈ x :: xs, y.1.payload.length ≤ pktBuf
  responds : Responds env s.session (x :: xs)
  acked : s.acks ++ x.2 :: xs.map Prod.snd = acks
  acted : s.acts ++ (s.session.run env (eventsOf (x :: xs))).2 = acts

/-- The packet has been taken, and its ACK is on its way. -/
structure Answered (env : Env) (acks : List UInt32) (acts : List Act) (s : System)
    (ack : UInt32) (xs : List (OtaPacket × UInt32)) : Prop where
  host : s.host = .running
  todo : s.todo = encoded xs
  toHost : s.toHost = [ackMsg ack]
  sound : s.stream.Sound
  pending : s.stream.pending = []
  left : s.left = []
  fits : ∀ y ∈ xs, y.1.payload.length ≤ pktBuf
  responds : Responds env s.session xs
  acked : s.acks ++ ack :: xs.map Prod.snd = acks
  acted : s.acts ++ (s.session.run env (eventsOf xs)).2 = acts

/-- All packets are answered. -/
structure Finished (acks : List UInt32) (acts : List Act) (s : System) : Prop where
  host : s.host = .done
  sound : s.stream.Sound
  pending : s.stream.pending = []
  acked : s.acks = acks
  acted : s.acts = acts

/-- Where an upload without faults stands.  Its ACKs are `acks`, and the session's
acts are `acts`. -/
inductive Stage (env : Env) (acks : List UInt32) (acts : List Act) (s : System) : Prop
  | sending (x : OtaPacket × UInt32) (xs : List (OtaPacket × UInt32))
      (h : Sending env acks acts s x xs)
  | answered (ack : UInt32) (xs : List (OtaPacket × UInt32)) (h : Answered env acks acts s ack xs)
  | finished (h : Finished acks acts s)

/-- The bytes to be sent, and two steps more for each packet. -/
def remaining (s : System) : Nat :=
  s.left.length + (s.todo.map fun p => (p.getD []).length + 2).sum +
    if s.host = .done then 0 else if s.toHost = [] then 2 else 1

theorem lt_of_le_pktBuf {n : Nat} (h : n ≤ pktBuf) : n < 2 ^ 32 :=
  Nat.lt_of_le_of_lt h (by decide)

/-- With nothing on its way, the session waits. -/
theorem daemon_idle {s : System} (hs : s.stream.Sound) (hpending : s.stream.pending = []) :
    s.step env .daemon = none := by
  have hstarved : s.stream.recvPacket pktBuf = .starved :=
    OtaStream.recvPacket_of_prefix hs (p := ⟨otaEnd, []⟩) (X := OtaPacket.encode ⟨otaEnd, []⟩)
      (by decide) (by decide) (by decide) (by rw [hpending, List.nil_append])
  rw [step, hstarved]
  exact ite_self _

variable {acks : List UInt32} {acts : List Act} {s t : System}

/-- The uploader takes up the packet behind an ACK, or is done. -/
theorem Answered.next_stage {ack : UInt32} {xs : List (OtaPacket × UInt32)}
    (h : Answered env acks acts s ack xs) :
    let t := next { s with acks := s.acks ++ [ack], toHost := [] }
    Stage env acks acts t ∧ t.remaining < s.remaining := by
  have hacked : s.acks ++ [ack] ++ xs.map Prod.snd = acks := by
    rw [List.append_assoc]
    exact h.acked
  have hmeasure : s.remaining = ((encoded xs).map fun p => (p.getD []).length + 2).sum + 1 := by
    rw [remaining, h.left, h.todo, h.host, h.toHost]
    simp
  cases xs with
  | nil =>
      have htodo : s.todo = [] := h.todo
      simp only [next, htodo]
      refine ⟨.finished ⟨rfl, h.sound, h.pending, ?_, ?_⟩, ?_⟩
      · rw [← hacked]
        simp
      · rw [← h.acted]
        simp [eventsOf, Session.run]
      · rw [hmeasure, remaining, h.left]
        simp [encoded]
  | cons x xs =>
      have htodo : s.todo = some x.1.encode :: encoded xs := h.todo
      simp only [next, htodo]
      refine ⟨.sending x xs ⟨h.host, rfl, rfl, h.sound, ?_, h.fits, h.responds, hacked, h.acted⟩, ?_⟩
      · rw [h.pending, List.nil_append]
      · rw [hmeasure, remaining, h.host]
        simp [encoded]
        omega

/-- An ACK is received. -/
theorem Answered.expectAck {ack : UInt32} {xs : List (OtaPacket × UInt32)}
    (h : Answered env acks acts s ack xs) :
    s.step env .expectAck = some (next { s with acks := s.acks ++ [ack], toHost := [] }) := by
  rw [step, if_pos ⟨h.host, h.left⟩, h.toHost]
  simp only [ackMsg, Uploader.expectAck_ack]

/-- A packet that has wholly come is taken. -/
theorem Sending.daemon {x : OtaPacket × UInt32} {xs : List (OtaPacket × UInt32)}
    (h : Sending env acks acts s x xs) (hleft : s.left = []) :
    ∃ u, s.step env .daemon = some u ∧ Answered env acks acts u x.2 xs ∧
      u.remaining < s.remaining := by
  have hfit := h.fits x List.mem_cons_self
  obtain ⟨stream, hrecv, hsound, hpending⟩ := OtaStream.recvPacket_encode (b := []) h.sound
    (lt_of_le_pktBuf hfit) hfit
    (by rw [List.append_nil, ← h.bytes, hleft, List.append_nil])
  obtain ⟨hphase, hsent, hrest⟩ := h.responds
  refine ⟨s.serve env (.packet x.1) stream, ?_, ⟨h.host, h.todo, ?_, hsound, hpending, hleft,
    fun y hy => h.fits y (List.mem_cons_of_mem _ hy), hrest, h.acked, ?_⟩, ?_⟩
  · rw [step, if_neg hphase, hrecv]
  · rw [serve, h.toHost]
    exact hsent
  · rw [← h.acted, eventsOf_cons, Session.run]
    exact List.append_assoc _ _ _
  · have htoHost : (s.serve env (.packet x.1) stream).toHost = [ackMsg x.2] := by
      rw [serve, h.toHost]
      exact hsent
    rw [remaining, remaining, htoHost, h.toHost]
    simp [serve, h.host]

/-- While a packet is on its way, only its rest can go out, or it is taken. -/
theorem Sending.step_stage {x : OtaPacket × UInt32} {xs : List (OtaPacket × UInt32)} {e : Event}
    (h : Sending env acks acts s x xs) (hstep : s.step env e = some t) :
    Stage env acks acts t ∧ t.remaining < s.remaining := by
  cases e with
  | send n =>
      rw [step] at hstep
      split at hstep
      next hn =>
        cases hstep
        obtain ⟨-, hpos, hle, hbuf⟩ := hn
        refine ⟨.sending x xs ⟨h.host, h.todo, h.toHost, ?_, ?_, h.fits, h.responds, h.acked,
          h.acted⟩, ?_⟩
        · intro m hm
          rcases List.mem_append.mp hm with hm | hm
          · exact h.sound m hm
          · rw [List.mem_singleton.mp hm, List.length_take, Nat.min_eq_left hle]
            exact ⟨hpos, hbuf⟩
        · rw [← h.bytes, OtaStream.pending, OtaStream.pending, List.flatten_append,
            List.flatten_singleton]
          simp only [OtaStream.unread, List.append_assoc, List.take_append_drop]
        · simp only [remaining, List.length_drop]
          omega
      next => cases hstep
  | daemon =>
      by_cases hleft : s.left = []
      · obtain ⟨u, hu, hanswered, hlt⟩ := h.daemon hleft
        rw [hu] at hstep
        cases hstep
        exact ⟨.answered x.2 xs hanswered, hlt⟩
      · have hfit := h.fits x List.mem_cons_self
        have hstarved := OtaStream.recvPacket_of_prefix h.sound (lt_of_le_pktBuf hfit) hfit
          hleft h.bytes
        rw [step, if_neg h.responds.1, hstarved] at hstep
        cases hstep
  | expectAck =>
      rw [step, h.toHost] at hstep
      split at hstep <;> cases hstep

/-- While an ACK is on its way, only it can be received. -/
theorem Answered.step_stage {ack : UInt32} {xs : List (OtaPacket × UInt32)} {e : Event}
    (h : Answered env acks acts s ack xs) (hstep : s.step env e = some t) :
    Stage env acks acts t ∧ t.remaining < s.remaining := by
  cases e with
  | send n =>
      have hnone : ¬ (s.host = .running ∧ 0 < n ∧ n ≤ s.left.length ∧ n ≤ pktBuf) := by
        rintro ⟨-, hpos, hle, -⟩
        rw [h.left] at hle
        exact Nat.not_lt.mpr hle hpos
      rw [step, if_neg hnone] at hstep
      cases hstep
  | daemon =>
      rw [daemon_idle h.sound h.pending] at hstep
      cases hstep
  | expectAck =>
      rw [h.expectAck] at hstep
      cases hstep
      exact h.next_stage

/-- An uploader that does not run sends and receives nothing. -/
theorem step_of_stopped {e : Event} (hhost : s.host ≠ .running) (hsound : s.stream.Sound)
    (hpending : s.stream.pending = []) : s.step env e = none := by
  cases e with
  | send n => exact if_neg fun hn => hhost hn.1
  | daemon => exact daemon_idle hsound hpending
  | expectAck => exact if_neg fun hn => hhost hn.1

/-- Every step goes on, to a stage again. -/
theorem stage_step {e : Event} (h : Stage env acks acts s) (hstep : s.step env e = some t) :
    Stage env acks acts t ∧ t.remaining < s.remaining := by
  cases h with
  | sending x xs h => exact h.step_stage hstep
  | answered ack xs h => exact h.step_stage hstep
  | finished h =>
      rw [step_of_stopped (by rw [h.host]; decide) h.sound h.pending] at hstep
      cases hstep

/-- Where no step can be taken, the upload is finished. -/
theorem Stage.finished_of_stuck (h : Stage env acks acts s) (hstuck : ∀ e, s.step env e = none) :
    Finished acks acts s := by
  cases h with
  | sending x xs h =>
      by_cases hleft : s.left = []
      · obtain ⟨u, hu, -⟩ := h.daemon hleft
        rw [hstuck] at hu
        cases hu
      · have hsend := hstuck (.send 1)
        rw [step, if_pos ⟨h.host, Nat.one_pos, List.length_pos_iff.mpr hleft, by decide⟩] at hsend
        cases hsend
  | answered ack xs h =>
      have hack := h.expectAck
      rw [hstuck] at hack
      cases hack
  | finished h => exact h

/-! ## The whole upload -/

/-- In every interleaving an upload ends, and then each packet was answered with its
ACK, nothing else was sent, and the staged file was the parts. -/
def Delivers (md5 : List UInt8 → Digest) (mem : Memory) (datas : List (List UInt8))
    (version : String) : Prop :=
  ∃ bound, ∀ es s,
    Transition.run (step (faultless md5)) (start md5 mem datas version) es = some s →
      es.length ≤ bound ∧
        ((∀ e, s.step (faultless md5) e = none) →
          s.host = .done ∧
          s.acks = 0 :: (List.range' 1 datas.length).map UInt32.ofNat ++ [0xFFFFFFFF] ∧
          sentMsgs s.acts = s.acks.map ackMsg ∧
          .applied datas.flatten ∈ s.acts)

variable (md5 : List UInt8 → Digest) {datas : List (List UInt8)}

theorem acks_chunkExchange (number : Nat) :
    (chunkExchange md5 number datas).map Prod.snd =
      (List.range' number datas.length).map UInt32.ofNat := by
  induction datas generalizing number with
  | nil => rfl
  | cons data datas ih =>
      rw [chunkExchange, List.map_cons, ih, List.length_cons, List.range'_succ, List.map_cons]

theorem acks_exchange (version : String) :
    (exchange md5 datas version).map Prod.snd =
      0 :: (List.range' 1 datas.length).map UInt32.ofNat ++ [0xFFFFFFFF] := by
  rw [exchange, List.map_append, List.map_cons, acks_chunkExchange md5]
  rfl

theorem fits_chunkExchange (hsize : ∀ d ∈ datas, ChunkSized d) (number : Nat) :
    ∀ x ∈ chunkExchange md5 number datas, x.1.payload.length ≤ pktBuf := by
  induction datas generalizing number with
  | nil => exact fun x hx => absurd hx List.not_mem_nil
  | cons data datas ih =>
      intro x hx
      rcases List.mem_cons.mp hx with rfl | hx
      · have hdata := (hsize data List.mem_cons_self).2
        rw [length_chunkPkt, pktBuf]
        omega
      · exact ih (fun d hd => hsize d (List.mem_cons_of_mem _ hd)) (number + 1) x hx

theorem fits_exchange (hsize : ∀ d ∈ datas, ChunkSized d) (version : String) :
    ∀ x ∈ exchange md5 datas version, x.1.payload.length ≤ pktBuf := by
  intro x hx
  rw [exchange, List.cons_append] at hx
  rcases List.mem_cons.mp hx with rfl | hx
  · rw [length_beginPkt]
    decide
  · rcases List.mem_append.mp hx with hx | hx
    · exact fits_chunkExchange md5 hsize 1 x hx
    · rw [List.mem_singleton.mp hx]
      exact Nat.zero_le _

/-- The stage in which an upload starts. -/
theorem stage_start (hne : datas ≠ []) (hcount : datas.length < 2 ^ 32)
    (hsize : ∀ d ∈ datas, ChunkSized d) (version : String) (mem : Memory) :
    Stage (faultless md5) ((exchange md5 datas version).map Prod.snd)
      ((Session.start mem).run (faultless md5) (eventsOf (exchange md5 datas version))).2
      (start md5 mem datas version) := by
  have hresponds := (responds_exchange md5 hne hcount hsize version mem).1
  have hfits := fits_exchange md5 hsize version
  rw [start, packets_eq md5 hcount hsize version]
  rw [exchange, List.cons_append] at hresponds hfits ⊢
  exact .sending _ _ ⟨rfl, rfl, rfl, fun m hm => absurd hm List.not_mem_nil, rfl, hfits, hresponds,
    rfl, rfl⟩

variable {md5}

/-- Without faults, every upload of at least one part, and of no more than OTA_BEGIN
can count, is delivered. -/
theorem upload_delivers (hne : datas ≠ []) (hcount : datas.length < 2 ^ 32)
    (hsize : ∀ d ∈ datas, ChunkSized d) (version : String) (mem : Memory) :
    Delivers md5 mem datas version := by
  obtain ⟨hresponds, happlied⟩ := responds_exchange md5 hne hcount hsize version mem
  have hstart := stage_start md5 hne hcount hsize version mem
  refine ⟨(start md5 mem datas version).remaining, fun es s hrun => ?_⟩
  obtain ⟨hstage, hbound⟩ := Transition.run_measure (fun h hstep => stage_step h hstep) hstart hrun
  refine ⟨by omega, fun hstuck => ?_⟩
  have hfinished := hstage.finished_of_stuck hstuck
  refine ⟨hfinished.host, ?_, ?_, ?_⟩
  · rw [hfinished.acked, acks_exchange]
  · rw [hfinished.acted, hfinished.acked, hresponds.sentMsgs_run]
  · rw [hfinished.acted]
    exact happlied

theorem upload_delivers_two :
    Delivers (fun _ => ⟨List.replicate 16 0, rfl⟩) (fun _ => 0) [[1, 2], [3]] "1.0" :=
  upload_delivers (by decide) (by decide) (fun d hd => by
    rcases List.mem_pair.mp hd with rfl | rfl
    · exact ⟨by decide, by decide⟩
    · exact ⟨by decide, by decide⟩) "1.0" _

/-- An upload of more parts fails before anything is sent. -/
theorem not_delivers_of_count (hcount : 2 ^ 32 ≤ datas.length) (version : String) (mem : Memory) :
    ¬ Delivers md5 mem datas version := by
  rintro ⟨bound, h⟩
  obtain ⟨ps, hps⟩ := packets_of_count md5 hcount version
  have hfailed : (start md5 mem datas version).host = .failed := by
    rw [start, hps]
    rfl
  have hstuck : ∀ e, (start md5 mem datas version).step (faultless md5) e = none := by
    refine fun e => step_of_stopped (by rw [hfailed]; decide) ?_ ?_
    · rw [start, hps]
      exact fun m hm => absurd hm List.not_mem_nil
    · rw [start, hps]
      rfl
  have hdone := ((h [] _ rfl).2 hstuck).1
  rw [hfailed] at hdone
  cases hdone

/-- 2³² parts of one byte. -/
theorem upload_delivers_count :
    ¬ ∀ datas : List (List UInt8), datas ≠ [] → (∀ d ∈ datas, ChunkSized d) →
      Delivers (fun _ => ⟨List.replicate 16 0, rfl⟩) (fun _ => 0) datas "1.0" := by
  intro h
  refine not_delivers_of_count ?_ "1.0" (fun _ => 0) (h (List.replicate (2 ^ 32) [0]) ?_ ?_)
  · rw [List.length_replicate]
  · intro hnil
    have hlen := congrArg List.length hnil
    rw [List.length_replicate] at hlen
    cases hlen
  · intro d hd
    rw [List.eq_of_mem_replicate hd]
    exact ⟨by decide, by decide⟩

end System

end MFoES.Ota
