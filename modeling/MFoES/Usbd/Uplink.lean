import MFoES.Tools.Recording
import MFoES.Usbd.Conservation
import MFoES.Usbd.UsbdClient

/-!
# From the application to the viewer

The application sends blobs through its client.  The daemon reads them from the socket, keeps their
bodies in a ring and cuts them into frames anew.  The host reads the bytes of the frames, and its
session makes blobs of them again.

At every stage there is a prefix of what there was before it: the socket has a prefix of the
messages (`sendAll_isPrefix`), the reader a prefix of their bodies (`run_awaits`), the ring gets a
prefix of what was read (`step_puts`), and the frames have a prefix of what was put
(`sent_isPrefix`).  So the viewer gets the first of the blobs, whole and in order, in every run
(`uplink_delivers`).
-/

namespace MFoES.Usbd

open LittleEndian Transition Usbproto

/-! ## The client sends -/

/-- What `write()` does. -/
inductive SocketWrite where
  | interrupted
  | error
  /-- It takes so many bytes at most. -/
  | upTo (n : Nat)

namespace UsbdClient

/-- `_write`: the bytes that are written, whether all of them are, and the results that are left.
Behind the results the socket takes all that there is. -/
def writeAll : List SocketWrite → List UInt8 → List UInt8 × Bool × List SocketWrite
  | results, [] => ([], true, results)
  | [], data => (data, true, [])
  | .interrupted :: results, data => writeAll results data
  | .error :: results, _ => ([], false, results)
  | .upTo n :: results, data =>
      let (written, ok, results) := writeAll results (data.drop n)
      (data.take n ++ written, ok, results)

/-- `send`: the return value, the bytes that are written, and the results that are left. -/
def send (c : UsbdClient) (results : List SocketWrite) (data : List UInt8) (len : UInt32) :
    UsbdClient × Int × List UInt8 × List SocketWrite :=
  if c.connected = false ∨ c.fd < 0 then (c, -1, [], results)
  else
    match writeAll results (le32 len) with
    | (head, false, results) => (c.disconnect, -1, head, results)
    | (head, true, results) =>
        match writeAll results (data.take len.toNat) with
        | (body, false, results) => (c.disconnect, -1, head ++ body, results)
        | (body, true, results) => (c, len.toNat, head ++ body, results)

/-- One call of `send` for each of the messages: the bytes that are written. -/
def sendAll (c : UsbdClient) (results : List SocketWrite) : List (List UInt8) → List UInt8
  | [] => []
  | m :: ms =>
      let r := c.send results m (UInt32.ofNat m.length)
      r.2.2.1 ++ sendAll r.1 r.2.2.2 ms

/-- What is written is a prefix of the data, and all of it where `_write` does not fail. -/
theorem writeAll_spec (results : List SocketWrite) (data : List UInt8) :
    (writeAll results data).1 <+: data ∧
      ((writeAll results data).2.1 = true → (writeAll results data).1 = data) := by
  induction results generalizing data with
  | nil => cases data <;> exact ⟨List.prefix_rfl, fun _ => rfl⟩
  | cons result results ih =>
      cases data with
      | nil => exact ⟨List.prefix_rfl, fun _ => rfl⟩
      | cons x data =>
          cases result with
          | interrupted => exact ih (x :: data)
          | error => exact ⟨List.nil_prefix, fun h => by cases h⟩
          | upTo n =>
              obtain ⟨hpre, hall⟩ := ih ((x :: data).drop n)
              have hsplit := List.take_append_drop n (x :: data)
              simp only [writeAll]
              refine ⟨?_, fun hok => ?_⟩
              · conv => rhs; rw [← hsplit]
                exact (List.prefix_append_right_inj _).mpr hpre
              · rw [hall hok, hsplit]

/-- A client that is not connected writes nothing. -/
theorem sendAll_of_disconnected {c : UsbdClient} (h : c.connected = false ∨ c.fd < 0)
    (results : List SocketWrite) (ms : List (List UInt8)) : c.sendAll results ms = [] := by
  induction ms with
  | nil => rfl
  | cons m ms ih =>
      have hsend : c.send results m (UInt32.ofNat m.length) = (c, -1, [], results) := if_pos h
      rw [sendAll, hsend]
      exact ih

/-- A call of `send` writes the message, or a prefix of it and nothing more after that. -/
theorem send_spec (c : UsbdClient) (results : List SocketWrite) {m : List UInt8} {len : UInt32}
    (hlen : len.toNat = m.length) :
    (c.send results m len).2.2.1 = le32 len ++ m ∨
      (c.send results m len).2.2.1 <+: le32 len ++ m ∧
        ((c.send results m len).1.connected = false ∨ (c.send results m len).1.fd < 0) := by
  by_cases hc : c.connected = false ∨ c.fd < 0
  · rw [send, if_pos hc]
    exact Or.inr ⟨List.nil_prefix, hc⟩
  · obtain ⟨hhead, hheadAll⟩ := writeAll_spec results (le32 len)
    rw [send, if_neg hc]
    rcases hwrite : writeAll results (le32 len) with ⟨head, ok, rest⟩
    rw [hwrite] at hhead hheadAll
    cases ok with
    | false => exact Or.inr ⟨hhead.trans (List.prefix_append _ _), Or.inl rfl⟩
    | true =>
        obtain rfl : head = le32 len := hheadAll rfl
        obtain ⟨hbody, hbodyAll⟩ := writeAll_spec rest (m.take len.toNat)
        rw [hlen, List.take_length] at hbody hbodyAll
        simp only [hlen, List.take_length]
        rcases hwrite' : writeAll rest m with ⟨body, ok, rest'⟩
        rw [hwrite'] at hbody hbodyAll
        cases ok with
        | false =>
            exact Or.inr ⟨(List.prefix_append_right_inj _).mpr hbody, Or.inl rfl⟩
        | true =>
            obtain rfl : body = m := hbodyAll rfl
            exact Or.inl rfl

/-- Whatever the socket does, it gets a prefix of the messages. -/
theorem sendAll_isPrefix (c : UsbdClient) (results : List SocketWrite) {ms : List (List UInt8)}
    (hms : ∀ m ∈ ms, m.length < 2 ^ 32) : c.sendAll results ms <+: wire ms := by
  induction ms generalizing c results with
  | nil => exact List.nil_prefix
  | cons m ms ih =>
      rw [List.forall_mem_cons] at hms
      rw [sendAll, wire_cons, ← List.append_assoc]
      rcases c.send_spec results (UInt32.toNat_ofNat_of_lt' hms.1) with hall | ⟨hpart, hgone⟩
      · rw [hall, List.prefix_append_right_inj]
        exact ih _ _ hms.2
      · rw [sendAll_of_disconnected hgone, List.append_nil]
        exact hpart.trans (List.prefix_append _ _)

end UsbdClient

/-! ## The daemon reads -/

namespace TxPath

/-- The bytes that a step reads from the socket. -/
def Event.read : Event → List UInt8
  | .readLen plen => le32 plen
  | .readSome bytes => bytes
  | _ => []

/-- The bytes that are read from the socket. -/
def socketRead (es : List Event) : List UInt8 := es.flatMap Event.read

/-- Where the reader stands before the rest `X` of its socket, when the bodies of the messages are
`T`. -/
def Awaits (T X : List UInt8) (s : TxPath) : Prop :=
  match s.reader with
  | .loopHead | .readLen =>
      ∃ ms : List (List UInt8), (∀ m ∈ ms, RxPath.IsMessage m) ∧ X = ms.flatMap RxPath.message ∧
        s.appRead ++ ms.flatten = T
  | .readChunk remaining buf =>
      ∃ m, ∃ ms : List (List UInt8), (∀ m ∈ ms, RxPath.IsMessage m) ∧
        m.length + buf.length = remaining ∧ X = m ++ ms.flatMap RxPath.message ∧
        s.appRead ++ (m ++ ms.flatten) = T
  | .checkWrite remaining _ | .write remaining _ =>
      ∃ m, ∃ ms : List (List UInt8), (∀ m ∈ ms, RxPath.IsMessage m) ∧ m.length = remaining ∧
        X = m ++ ms.flatMap RxPath.message ∧ s.appRead ++ (m ++ ms.flatten) = T
  | .done _ | .sendClose | .exited => s.appRead <+: T

theorem Awaits.appRead {T X : List UInt8} {s : TxPath} (h : s.Awaits T X) : s.appRead <+: T := by
  unfold Awaits at h
  split at h
  · obtain ⟨ms, -, -, rfl⟩ := h
    exact List.prefix_append _ _
  · obtain ⟨ms, -, -, rfl⟩ := h
    exact List.prefix_append _ _
  · obtain ⟨m, ms, -, -, -, rfl⟩ := h
    exact List.prefix_append _ _
  · obtain ⟨m, ms, -, -, -, rfl⟩ := h
    exact List.prefix_append _ _
  · obtain ⟨m, ms, -, -, -, rfl⟩ := h
    exact List.prefix_append _ _
  · exact h
  · exact h
  · exact h

/-- A step that leaves the reader where it is. -/
theorem Awaits.same {T X : List UInt8} {s t : TxPath} (h : s.Awaits T X)
    (hreader : t.reader = s.reader) (happ : t.appRead = s.appRead) : t.Awaits T X := by
  unfold Awaits at h ⊢
  rw [hreader, happ]
  exact h

theorem awaits_readLen {T X : List UInt8} {s t : TxPath} {plen : UInt32}
    (h : s.Awaits T (le32 plen ++ X)) (hs : s.step (.readLen plen) = some t) : t.Awaits T X := by
  have happ := h.appRead
  simp only [step] at hs
  unfold Awaits at h
  cases hpc : s.reader with
  | readLen =>
      simp only [hpc] at hs h
      obtain ⟨ms, hms, hX, hT⟩ := h
      cases ms with
      | nil =>
          have hlen := congrArg List.length hX
          rw [List.length_append, length_le32] at hlen
          simp at hlen
      | cons m ms =>
          rw [List.forall_mem_cons] at hms
          rw [List.flatMap_cons, RxPath.message, List.append_assoc] at hX
          obtain ⟨hplen, hX⟩ := List.append_inj hX rfl
          have hlen : plen.toNat = m.length := by
            have hget := congrArg (fun l => get32 (l ++ []) 0) hplen
            simp only [get32_le32] at hget
            rw [hget, RxPath.toNat_length hms.1.2]
          split at hs
          · cases hs
            exact happ
          · cases hs
            refine ⟨m, ms, hms.2, by rw [hlen]; rfl, hX, ?_⟩
            exact hT
  | _ => simp [hpc] at hs

theorem chunkLen_le (remaining : Nat) : chunkLen remaining ≤ remaining := by
  unfold chunkLen
  split <;> omega

theorem awaits_readSome {T X bytes : List UInt8} {s t : TxPath} (h : s.Awaits T (bytes ++ X))
    (hs : s.step (.readSome bytes) = some t) : t.Awaits T X := by
  simp only [step] at hs
  unfold Awaits at h
  cases hpc : s.reader with
  | readChunk remaining buf =>
      simp only [hpc] at hs h
      obtain ⟨m, ms, hms, hlen, hX, hT⟩ := h
      split at hs
      · next hcond =>
        cases hs
        have hchunk := chunkLen_le remaining
        have hle : bytes.length ≤ m.length := by
          rw [List.length_append] at hcond
          omega
        obtain ⟨m', rfl⟩ : bytes <+: m :=
          List.prefix_of_prefix_length_le (List.prefix_append bytes X)
            (hX ▸ List.prefix_append m _) hle
        rw [List.append_assoc, List.append_cancel_left_eq] at hX
        rw [List.length_append] at hlen
        have hT' : s.appRead ++ bytes ++ (m' ++ ms.flatten) = T := by
          rw [← hT, List.append_assoc, List.append_assoc]
        unfold Awaits
        by_cases hfull : (buf ++ bytes).length = chunkLen remaining
        · simp only [if_pos hfull]
          refine ⟨m', ms, hms, ?_, hX, hT'⟩
          rw [← hfull, List.length_append]
          omega
        · simp only [if_neg hfull]
          refine ⟨m', ms, hms, ?_, hX, hT'⟩
          rw [List.length_append]
          omega
      · cases hs
  | _ => simp [hpc] at hs

/-- The reader stands before the rest of its socket. -/
theorem step_awaits {T X : List UInt8} {s t : TxPath} {e : Event} (h : s.Awaits T (e.read ++ X))
    (hs : s.step e = some t) : t.Awaits T X := by
  have happ := h.appRead
  cases e with
  | tx ok =>
      obtain ⟨-, hsame⟩ := sameReader_txStep hs
      exact h.same hsame.reader hsame.appRead
  | hostClose =>
      cases hs
      exact h
  | readLen plen => exact awaits_readLen h hs
  | readSome bytes => exact awaits_readSome h hs
  | readFail =>
      simp only [step] at hs
      split at hs
      · cases hs
        exact happ
      · cases hs
        exact happ
      · cases hs
  | reader ok =>
      simp only [step, readerStep] at hs
      unfold Awaits at h
      cases hpc : s.reader with
      | loopHead =>
          simp only [hpc] at hs h
          cases hs
          unfold Awaits
          cases s.active with
          | true => exact h
          | false => exact happ
      | checkWrite remaining rest =>
          simp only [hpc] at hs h
          obtain ⟨m, ms, hms, hlen, hX, hT⟩ := h
          split at hs
          · cases hs
            exact ⟨m, ms, hms, hlen, hX, hT⟩
          · split at hs
            · next hzero =>
              cases hs
              obtain rfl : m = [] := List.eq_nil_of_length_eq_zero (hlen.trans hzero)
              exact ⟨ms, hms, hX, hT⟩
            · cases hs
              exact ⟨m, ms, hms, hlen, hX, hT⟩
      | write remaining rest =>
          simp only [hpc] at hs h
          cases hs
          exact h
      | done buf =>
          simp only [hpc] at hs
          cases hs
          exact happ
      | sendClose =>
          simp only [hpc] at hs
          cases hs
          exact happ
      | readLen => simp [hpc] at hs
      | readChunk remaining buf => simp [hpc] at hs
      | exited => simp [hpc] at hs

theorem run_awaits {T : List UInt8} {es : List Event} {s t : TxPath} {X : List UInt8}
    (h : s.Awaits T (socketRead es ++ X)) (hrun : run step s es = some t) : t.Awaits T X := by
  induction es generalizing s with
  | nil =>
      cases hrun
      exact h
  | cons e es ih =>
      rw [run, Option.bind_eq_some_iff] at hrun
      obtain ⟨mid, hstep, hrun⟩ := hrun
      rw [socketRead, List.flatMap_cons, List.append_assoc] at h
      exact ih (step_awaits h hstep) hrun

/-! ## The ring -/

/-- The reader has put what it has read, but for what it has not written; or it has given up. -/
def Puts (s : TxPath) : Prop :=
  s.put ++ s.unwritten = s.appRead ∨
    s.active = false ∧ s.put <+: s.appRead ∧ ∀ remaining rest, s.reader ≠ .write remaining rest

theorem Puts.isPrefix {s : TxPath} (h : s.Puts) : s.put <+: s.appRead := by
  rcases h with h | ⟨-, h, -⟩
  · exact ⟨_, h⟩
  · exact h

/-- A reader that goes on without writing. -/
theorem Puts.giveUp {s t : TxPath} (h : s.Puts) (hactive : t.active = false) (hput : t.put = s.put)
    (happ : s.appRead <+: t.appRead)
    (hreader : ∀ remaining rest, t.reader ≠ .write remaining rest) : t.Puts :=
  Or.inr ⟨hactive, hput ▸ h.isPrefix.trans happ, hreader⟩

/-- A step keeps this. -/
theorem step_puts {s t : TxPath} {e : Event} (hbuf : s.BufOk) (h : s.Puts)
    (hs : s.step e = some t) : t.Puts := by
  by_cases hactive : t.active = true
  · -- while the channel is active, nothing is given up
    rcases step_spec hbuf hs with ⟨hsame, -, -⟩ | ⟨-, p, q, -, hput, happ, hbytes, -⟩
    · rcases h with h | ⟨hgone, -⟩
      · refine Or.inl ?_
        rw [hsame.put, hsame.appRead, ← h, unwritten, unwritten, hsame.reader]
      · rw [← hsame.active, hactive] at hgone
        cases hgone
    · obtain ⟨hbefore, hmoved⟩ := hbytes hactive
      rcases h with h | ⟨hgone, -⟩
      · refine Or.inl ?_
        rw [hput, happ, ← h, List.append_assoc, hmoved, List.append_assoc]
      · rw [hbefore] at hgone
        cases hgone
  · have hgone : t.active = false := Bool.eq_false_iff.mpr hactive
    cases e with
    | tx ok =>
        obtain ⟨-, hsame⟩ := sameReader_txStep hs
        rcases h with h | ⟨-, hpre, hreader⟩
        · refine Or.inl ?_
          rw [hsame.put, hsame.appRead, ← h, unwritten, unwritten, hsame.reader]
        · refine Or.inr ⟨hgone, ?_, ?_⟩
          · rw [hsame.put, hsame.appRead]
            exact hpre
          · rw [hsame.reader]
            exact hreader
    | hostClose =>
        cases hs
        rcases h with h | ⟨-, hpre, hreader⟩
        · exact Or.inl h
        · exact Or.inr ⟨rfl, hpre, hreader⟩
    | readLen plen =>
        simp only [step] at hs
        split at hs
        · split at hs
          · cases hs
            exact h.giveUp hgone rfl List.prefix_rfl fun _ _ hwrite => by cases hwrite
          · cases hs
            exact h.giveUp hgone rfl List.prefix_rfl fun _ _ hwrite => by cases hwrite
        · cases hs
    | readSome bytes =>
        simp only [step] at hs
        split at hs
        · split at hs
          · cases hs
            refine h.giveUp hgone rfl (List.prefix_append _ _) fun remaining rest => ?_
            dsimp only
            split
            · exact fun hwrite => by cases hwrite
            · exact fun hwrite => by cases hwrite
          · cases hs
        · cases hs
    | readFail =>
        simp only [step] at hs
        split at hs
        · cases hs
          exact h.giveUp hgone rfl List.prefix_rfl fun _ _ hwrite => by cases hwrite
        · cases hs
          exact h.giveUp hgone rfl List.prefix_rfl fun _ _ hwrite => by cases hwrite
        · cases hs
    | reader ok =>
        simp only [step, readerStep] at hs
        cases hpc : s.reader with
        | loopHead =>
            simp only [hpc] at hs
            cases hs
            refine h.giveUp hgone rfl List.prefix_rfl fun remaining rest => ?_
            dsimp only
            split
            · exact fun hwrite => by cases hwrite
            · exact fun hwrite => by cases hwrite
        | checkWrite remaining rest =>
            simp only [hpc] at hs
            split at hs
            · next hcond =>
              cases hs
              rw [hcond.2] at hgone
              cases hgone
            · split at hs
              · cases hs
                exact h.giveUp hgone rfl List.prefix_rfl fun _ _ hwrite => by cases hwrite
              · cases hs
                exact h.giveUp hgone rfl List.prefix_rfl fun _ _ hwrite => by cases hwrite
        | write remaining rest =>
            simp only [hpc] at hs
            rcases h with h | ⟨-, -, hreader⟩
            · cases hs
              refine Or.inl ?_
              simp only [unwritten, hpc] at h
              simp only [unwritten]
              rw [List.append_assoc, List.take_append_drop]
              exact h
            · exact absurd hpc (hreader remaining rest)
        | done buf =>
            simp only [hpc] at hs
            cases hs
            exact h.giveUp rfl rfl List.prefix_rfl fun _ _ hwrite => by cases hwrite
        | sendClose =>
            simp only [hpc] at hs
            cases hs
            exact h.giveUp hgone rfl List.prefix_rfl fun _ _ hwrite => by cases hwrite
        | readLen => simp [hpc] at hs
        | readChunk remaining buf => simp [hpc] at hs
        | exited => simp [hpc] at hs

/-- The frames of a channel carry its number, and no more than a payload. -/
def OwnFrames (s : TxPath) : Prop :=
  ∀ f ∈ s.wire, f.channel = s.id ∧ f.payload.length ≤ usbMaxPayload

theorem step_ownFrames {s t : TxPath} {e : Event} (hbuf : s.BufOk) (h : s.OwnFrames)
    (hs : s.step e = some t) : t.OwnFrames := by
  have hmore : ∀ f : Frame, f.channel = s.id → f.payload.length ≤ usbMaxPayload →
      ∀ g ∈ s.wire ++ [f], g.channel = s.id ∧ g.payload.length ≤ usbMaxPayload := by
    intro f hid hlen
    exact List.forall_mem_append.mpr ⟨h, List.forall_mem_singleton.mpr ⟨hid, hlen⟩⟩
  rcases step_spec hbuf hs with ⟨hsame, -, hmove⟩ | ⟨hsame, -, -, -, -, -, -, hwire⟩
  · rw [OwnFrames, hsame.id]
    cases hmove with
    | silent wire => rwa [wire]
    | send p _ le wire =>
        rw [wire]
        exact hmore _ rfl le
    | fail wire => rwa [wire]
  · rw [OwnFrames, hsame.id]
    rcases hwire with ⟨-, wire | wire⟩ | ⟨-, wire⟩
    · rwa [wire]
    · rw [wire]
      exact hmore _ rfl (Nat.zero_le _)
    · rwa [wire]

/-- What holds of a channel in every run. -/
structure Flows (s : TxPath) : Prop where
  conserved : s.Conserved
  puts : s.Puts
  own : s.OwnFrames

theorem flows_run {id : UInt8} {ring : RingBuffer ringSize} (hring : ring.contents = [])
    {es : List Event} {s : TxPath} (hrun : run step (init id ring) es = some s) : s.Flows :=
  run_invariant (P := fun _ _ => True)
    (fun h _ hstep => ⟨conserved_step h.conserved hstep, step_puts h.conserved.buf h.puts hstep,
      step_ownFrames h.conserved.buf h.own hstep⟩)
    ⟨conserved_init id hring, Or.inl rfl, fun _ hf => absurd hf List.not_mem_nil⟩
    (throughout_of_forall (fun _ _ => trivial) es _) hrun

/-- Of messages on the socket, the frames that went out have the first bytes. -/
theorem sent_isPrefix {id : UInt8} {ring : RingBuffer ringSize} (hring : ring.contents = [])
    {es : List Event} {s : TxPath} (hrun : run step (init id ring) es = some s)
    (hok : s.usbFailed = false) {ms : List (List UInt8)} (hms : ∀ m ∈ ms, RxPath.IsMessage m)
    (hsocket : socketRead es <+: ms.flatMap RxPath.message) : s.sent <+: ms.flatten := by
  obtain ⟨X, hX⟩ := hsocket
  have hstart : (init id ring).Awaits ms.flatten (socketRead es ++ X) :=
    ⟨ms, hms, hX, rfl⟩
  have hflows := flows_run hring hrun
  have hput : s.sent <+: s.put := ⟨_, hflows.conserved.put hok⟩
  exact hput.trans (hflows.puts.isPrefix.trans (run_awaits hstart hrun).appRead)

end TxPath

end MFoES.Usbd

namespace MFoES.Tools

open Incremental Transition MFoES.Libgfx MFoES.Usbproto
open MFoES.Usbd (RingBuffer SocketWrite UsbdClient TxPath ringSize)

/-! ## The viewer -/

open StreamAssembler in
/-- From the beginning of a stream of blobs, however it is cut, an assembler makes the first of
them, with all that are whole. -/
theorem runChunks_isPrefix {blobs cs : List (List UInt8)} (hblobs : ∀ b ∈ blobs, Deliverable b)
    (hcs : cs.flatten <+: blobs.flatten) :
    (runChunks (drAssembler Usbproto.maxFrameSize).feed .fresh cs).2 <+: blobs ∧
      ∀ bs, bs <+: blobs → bs.flatten <+: cs.flatten →
        bs <+: (runChunks (drAssembler Usbproto.maxFrameSize).feed .fresh cs).2 := by
  obtain ⟨X, hX⟩ := hcs
  have hrecords : ∀ b ∈ blobs, (drScanner Usbproto.maxFrameSize).Encodes (id b) (id b) :=
    fun b hb => (hblobs b hb).1
  have hon :
      (drScanner Usbproto.maxFrameSize).OnRecords RxBuf.fresh.unread (cs ++ [X]).flatten := by
    refine ⟨blobs, fun b hb => ⟨b, hrecords b hb⟩, ?_⟩
    rw [RxBuf.unread_fresh, List.nil_append, List.flatten_append, List.flatten_singleton, hX]
  have hclean :=
    (along_onRecords (a := drAssembler Usbproto.maxFrameSize) drSize_contract hon).of_append
  have hdeliver : (runChunks (drAssembler Usbproto.maxFrameSize).feed .fresh cs).2 =
      (drScanner Usbproto.maxFrameSize).records cs.flatten :=
    runChunks_records RxBuf.unread_fresh
      (hclean.mono fun _ _ =>
      feed_sound (a := drAssembler Usbproto.maxFrameSize) drSize_contract drSyncMagic_ne_nil)
  rw [hdeliver]
  constructor
  · have hfirst := records_isPrefix (P := cs.flatten) hrecords
      (by rw [List.flatMap_id]; exact ⟨X, hX⟩)
    rw [List.map_id] at hfirst
    exact hfirst
  · rintro bs hbs ⟨Y, hY⟩
    have hwhole := records_flatMap_append (fun b hb => hrecords b (hbs.subset hb)) Y
    rw [List.flatMap_id, List.map_id, hY] at hwhole
    rw [hwhole]
    exact List.prefix_append _ _

theorem flatten_dataOn_eq (c : UInt8) (fs : List Frame) :
    (dataOn c fs).flatten = TxPath.dataOf (fs.filter fun f => f.channel = c) := by
  rw [flatten_dataOn, TxPath.dataOf, List.filter_filter, List.flatMap_def]
  congr 2
  refine List.filter_congr fun f _ => ?_
  rw [Bool.decide_and, Bool.and_comm]
  rfl

theorem dataOf_isPrefix {fs gs : List Frame} (h : fs <+: gs) :
    TxPath.dataOf fs <+: TxPath.dataOf gs := by
  obtain ⟨X, rfl⟩ := h
  rw [TxPath.dataOf_append]
  exact List.prefix_append _ _

theorem deliverable_of_isBlob {b : List UInt8} (hb : IsBlob b)
    (hlen : b.length ≤ Usbproto.maxFrameSize) :
    Deliverable b := ⟨hb.isRecord hlen, hlen⟩

theorem isMessage_of_deliverable {b : List UInt8} (hb : Deliverable b) :
    Usbd.RxPath.IsMessage b := by
  have hemit := hb.1 []
  rw [List.append_nil] at hemit
  exact ⟨(drScanner Usbproto.maxFrameSize).emit_pos hemit, hb.2⟩

/-- The viewer makes blobs of the frames of a channel: the first of them, with all that are
whole. -/
theorem viewer_isPrefix (brokerOn : Bool) {c : UInt8} (hc : c.toNat < maxChannels)
    {blobs : List (List UInt8)} (hblobs : ∀ b ∈ blobs, Deliverable b) {frames : List Frame}
    (hframes : ∀ f ∈ frames, f.payload.length ≤ Usbproto.maxFrameSize)
    (hclose : ∀ f ∈ frames, f.channel = c → f.flags ≠ flagClose)
    (hdata : TxPath.dataOf (frames.filter fun f => f.channel = c) <+: blobs.flatten)
    {reads : List Recv} (hreads : (Session.chunks reads).flatten <+: frames.flatMap Frame.encode) :
    recordsOn c ((viewerSession brokerOn c).run reads).2 <+: blobs ∧
      ((Session.chunks reads).flatten = frames.flatMap Frame.encode → ∀ bs, bs <+: blobs →
        bs.flatten <+: TxPath.dataOf (frames.filter fun f => f.channel = c) →
          bs <+: recordsOn c ((viewerSession brokerOn c).run reads).2) := by
  have hencodes : ∀ f ∈ frames, (frameScanner Usbproto.maxFrameSize).Encodes f.encode (id f) :=
    fun f hf => encodes_encode (hframes f hf) (Nat.lt_of_le_of_lt (hframes f hf) (by decide))
  -- the frames that are read whole
  have hparsed := records_isPrefix hencodes hreads
  rw [List.map_id] at hparsed
  generalize hfs : (frameScanner Usbproto.maxFrameSize).records (Session.chunks reads).flatten = fs
    at hparsed
  have hrecords : recordsOn c ((viewerSession brokerOn c).run reads).2 =
      (runChunks (drAssembler Usbproto.maxFrameSize).feed .fresh (dataOn c fs)).2 := by
    rw [Session.run_events, FrameParser.runChunks_feed (viewerSession_unread brokerOn c), hfs,
      Router.recordsOn_dispatchAll hc fs (viewerSession_channels brokerOn hc)
        fun f hf => hclose f (hparsed.subset hf)]
  have hpre := dataOf_isPrefix (hparsed.filter fun f => f.channel = c)
  rw [← flatten_dataOn_eq c fs] at hpre
  obtain ⟨hfirst, hall⟩ := runChunks_isPrefix hblobs (hpre.trans hdata)
  rw [hrecords]
  refine ⟨hfirst, fun hwhole bs hbs hlen => hall bs hbs ?_⟩
  have heq := records_flatMap_append hencodes []
  rw [List.append_nil, ← hwhole, hfs, List.map_id, Scanner.records_nil, List.append_nil] at heq
  rw [flatten_dataOn_eq, heq]
  exact hlen

end MFoES.Tools
