import MFoES.Lib.Transition
import MFoES.Usbd.RingBuffer
import MFoES.Usbd.UsbRx

/-!
# From the application to USB

Two threads work on the `tx_ring` of a channel.  `app_reader_thread` reads
messages from the socket of the application, in chunks, and puts their bodies
into the ring.  `channel_tx_thread` takes the bytes out, into one of two
buffers, and sends the buffers as DATA frames.

`step` is one step of either thread, or the CLOSE of the host.  A run is any
interleaving.  The daemon is running throughout: `g_running` is cleared at
shutdown only.

`step_spec` is what a step can do, seen from outside.  The transmitter moves
bytes from the front of what is put and not sent to the wire, or does nothing
that can be seen, or a USB write fails (`TxMove`).  The reader puts bytes behind
(`ReaderMove`).
-/

namespace MFoES.Usbd

open Transition Usbproto

/-- `USB_BUF_SIZE`. -/
def usbBufSize : Nat := 512 * 1024

/-- `USB_MAX_PAYLOAD`. -/
def usbMaxPayload : Nat := usbBufSize - sizeofFrameHeader

/-- Where `app_reader_thread` stands. -/
inductive ReaderPc where
  /-- `while (g_running && ch.active)`. -/
  | loopHead
  /-- `read_all` of the length. -/
  | readLen
  /-- `read_all` of a chunk, of which `buf` has arrived. -/
  | readChunk (remaining : Nat) (buf : List UInt8)
  /-- `while (written < chunk && ch.active && g_running)`, with `rest` not written and
  `remaining` to come after the chunk. -/
  | checkWrite (remaining : Nat) (rest : List UInt8)
  /-- The write to the ring. -/
  | write (remaining : Nat) (rest : List UInt8)
  /-- `done:`, where the chunk may have arrived in part. -/
  | done (buf : List UInt8)
  /-- The CLOSE frame goes out. -/
  | sendClose
  | exited
deriving DecidableEq, Repr

/-- Where `channel_tx_thread` stands. -/
inductive TxPc where
  /-- The wait before the loop. -/
  | prefillWait
  | prefillRead (avail : Nat)
  /-- `while (g_running && ch.active)`. -/
  | loopHead
  /-- The look at the ring. -/
  | checkAvail
  /-- The ring was empty: send the current buffer, then wait. -/
  | sendCur
  | waitData
  | readCur (avail : Nat)
  /-- The ring was not empty: fill the next buffer, send the current one, swap. -/
  | readNxt (avail : Nat)
  | sendSwap
  /-- The flush behind the loop. -/
  | flush
  | exited
deriving DecidableEq, Repr

/-- A channel, as far as the way from the application to USB goes. -/
structure TxPath where
  id : UInt8
  txRing : RingBuffer ringSize
  active : Bool
  reader : ReaderPc
  tx : TxPc
  /-- The first `txlen[i]` bytes of `txbuf[i]`. -/
  txbuf : Fin 2 → List UInt8
  cur : Fin 2
  /-- The frames of the channel that went out. -/
  wire : List Frame
  /-- A USB write has failed. -/
  usbFailed : Bool
  /-- The bytes of message bodies that were read from the socket. -/
  appRead : List UInt8
  /-- The bytes that were put into the ring. -/
  put : List UInt8

namespace TxPath

/-- The channel after `Channel::init`, with the buffers of `channel_tx_thread`. -/
def init (id : UInt8) (txRing : RingBuffer ringSize) : TxPath :=
  ⟨id, txRing, true, .loopHead, .prefillWait, fun _ => [], 0, [], false, [], []⟩

@[simp] theorem txRing_init (id : UInt8) (ring : RingBuffer ringSize) :
    (init id ring).txRing = ring := rfl

inductive Event where
  /-- `usb_rx_thread` dispatches a CLOSE frame for the channel. -/
  | hostClose
  /-- `read_all` returns the four bytes of a length. -/
  | readLen (plen : UInt32)
  /-- `read()` returns bytes of a chunk. -/
  | readSome (bytes : List UInt8)
  /-- `read_all` fails. -/
  | readFail
  /-- `app_reader_thread` takes a step that reads nothing.  `ok` is whether a USB
  write in it succeeds. -/
  | reader (ok : Bool)
  /-- `channel_tx_thread` takes a step. -/
  | tx (ok : Bool)
deriving DecidableEq, Repr

/-- `usb_send_frame`. -/
def usbSendFrame (s : TxPath) (flags : UInt8) (payload : List UInt8) (ok : Bool) : TxPath :=
  { s with
    wire := if ok then s.wire ++ [⟨s.id, flags, payload⟩] else s.wire
    usbFailed := if ok then s.usbFailed else true }

/-- `read_exact` of what is there, up to a whole payload, into `txbuf[i]`. -/
def fill (s : TxPath) (i : Fin 2) (avail : Nat) : TxPath :=
  let len := if avail < usbMaxPayload then avail else usbMaxPayload
  -- on a timeout, `txlen[i] = 0`
  let r := (s.txRing.readExact len).getD ([], s.txRing)
  { s with txRing := r.2, txbuf := Function.update s.txbuf i r.1 }

/-- A step of `channel_tx_thread`, unless it has to wait. -/
def txStep (s : TxPath) (ok : Bool) : Option TxPath :=
  let nxt := 1 - s.cur
  match s.tx with
  | .prefillWait =>
      if s.active ∧ s.txRing.used = 0 then none
      else some { s with tx := .prefillRead s.txRing.used }
  | .prefillRead avail =>
      some { (if 0 < avail then s.fill s.cur avail else s) with tx := .loopHead }
  | .loopHead => some { s with tx := if s.active then .checkAvail else .flush }
  | .checkAvail =>
      some { s with
        txbuf := Function.update s.txbuf nxt []
        tx := if s.txRing.used = 0 then .sendCur else .readNxt s.txRing.used }
  | .sendCur =>
      if 0 < (s.txbuf s.cur).length then
        let t := s.usbSendFrame flagData (s.txbuf s.cur) ok
        if ok then some { t with txbuf := Function.update s.txbuf s.cur [], tx := .waitData }
        else some { t with tx := .flush }
      else some { s with tx := .waitData }
  | .waitData =>
      if s.active ∧ s.txRing.used = 0 then none
      else if s.txRing.used = 0 then some { s with tx := .loopHead }
      else some { s with tx := .readCur s.txRing.used }
  | .readCur avail => some { s.fill s.cur avail with tx := .loopHead }
  | .readNxt avail => some { s.fill nxt avail with tx := .sendSwap }
  | .sendSwap =>
      if 0 < (s.txbuf s.cur).length then
        let t := s.usbSendFrame flagData (s.txbuf s.cur) ok
        if ok then some { t with cur := nxt, tx := .loopHead } else some { t with tx := .flush }
      else some { s with cur := nxt, tx := .loopHead }
  | .flush =>
      if 0 < (s.txbuf s.cur).length then
        some { s.usbSendFrame flagData (s.txbuf s.cur) ok with tx := .exited }
      else some { s with tx := .exited }
  | .exited => none

/-- `chunk`. -/
def chunkLen (remaining : Nat) : Nat := if remaining < usbBufSize then remaining else usbBufSize

/-- A step of `app_reader_thread` that reads nothing from the socket. -/
def readerStep (s : TxPath) (ok : Bool) : Option TxPath :=
  match s.reader with
  | .loopHead => some { s with reader := if s.active then .readLen else .done [] }
  | .checkWrite remaining rest =>
      if 0 < rest.length ∧ s.active then some { s with reader := .write remaining rest }
      -- the inner loop ends, with the chunk written or the channel closed
      else if remaining = 0 then some { s with reader := .loopHead }
      else some { s with reader := .readChunk remaining [] }
  | .write remaining rest =>
      let r := s.txRing.write rest
      some { s with
        txRing := r.1
        put := s.put ++ rest.take r.2
        reader := .checkWrite remaining (rest.drop r.2) }
  | .done _ => some { s with active := false, reader := .sendClose }
  | .sendClose => some { s.usbSendFrame flagClose [] ok with reader := .exited }
  | _ => none

/-- One step. -/
def step (s : TxPath) : Event → Option TxPath
  | .hostClose => some { s with active := false }
  | .readLen plen =>
      match s.reader with
      | .readLen =>
          if plen.toNat = 0 ∨ maxFrameSize < plen.toNat then some { s with reader := .done [] }
          else some { s with reader := .readChunk plen.toNat [] }
      | _ => none
  | .readSome bytes =>
      match s.reader with
      | .readChunk remaining buf =>
          if 0 < bytes.length ∧ (buf ++ bytes).length ≤ chunkLen remaining then
            some { s with
              appRead := s.appRead ++ bytes
              reader :=
                if (buf ++ bytes).length = chunkLen remaining then
                  .checkWrite (remaining - chunkLen remaining) (buf ++ bytes)
                else .readChunk remaining (buf ++ bytes) }
          else none
      | _ => none
  | .readFail =>
      match s.reader with
      | .readLen => some { s with reader := .done [] }
      | .readChunk _ buf => some { s with reader := .done buf }
      | _ => none
  | .reader ok => s.readerStep ok
  | .tx ok => s.txStep ok

/-! ## What is where -/

/-- The payloads of the DATA frames among `fs`. -/
def dataOf (fs : List Frame) : List UInt8 :=
  (fs.filter fun f => f.flags = flagData).flatMap Frame.payload

/-- The payloads of the DATA frames that went out. -/
def sent (s : TxPath) : List UInt8 := dataOf s.wire

/-- The bytes in the buffers of `channel_tx_thread` that are not sent, in the order
they will be.  Between a send and the next look at the ring, the buffer that is
not current still has its old bytes. -/
def unsent (s : TxPath) : List UInt8 :=
  match s.tx with
  | .sendSwap => s.txbuf s.cur ++ s.txbuf (1 - s.cur)
  | .exited => []
  | _ => s.txbuf s.cur

/-- The bytes of the reader's current chunk that are not in the ring. -/
def unwritten (s : TxPath) : List UInt8 :=
  match s.reader with
  | .readChunk _ buf => buf
  | .checkWrite _ rest => rest
  | .write _ rest => rest
  | .done buf => buf
  | _ => []

@[simp] theorem dataOf_append (fs gs : List Frame) : dataOf (fs ++ gs) = dataOf fs ++ dataOf gs := by
  rw [dataOf, List.filter_append, List.flatMap_append]
  rfl

@[simp] theorem dataOf_data (id : UInt8) (p : List UInt8) : dataOf [⟨id, flagData, p⟩] = p := by
  simp [dataOf]

@[simp] theorem dataOf_close (id : UInt8) : dataOf [⟨id, flagClose, []⟩] = [] := rfl

/-! ## The transmitter -/

/-- Where the current buffer has been sent, or is still to be filled. -/
def CurSent : TxPc → Prop
  | .prefillWait | .prefillRead _ | .waitData | .readCur _ => True
  | _ => False

/-- The buffers of `channel_tx_thread` hold payloads, and none is overwritten. -/
structure BufOk (s : TxPath) : Prop where
  sent : CurSent s.tx → s.txbuf s.cur = []
  bound : ∀ i, (s.txbuf i).length ≤ usbMaxPayload

theorem nxt_ne (i : Fin 2) : 1 - i ≠ i := by
  revert i
  decide

/-- Filling a buffer moves bytes from the front of the ring. -/
theorem fill_contents (s : TxPath) (i : Fin 2) (avail : Nat) :
    (s.fill i avail).txbuf i ++ (s.fill i avail).txRing.contents = s.txRing.contents := by
  simp only [fill, Function.update_self]
  rcases Nat.lt_or_ge s.txRing.used (if avail < usbMaxPayload then avail else usbMaxPayload) with
    hlt | hge
  · rw [RingBuffer.readExact_of_lt hlt]
    rfl
  · obtain ⟨ring, hread, hring⟩ := RingBuffer.readExact_of_le hge
    rw [hread, Option.getD_some, hring]
    exact List.take_append_drop _ _

theorem length_fill (s : TxPath) (i : Fin 2) (avail : Nat) :
    ((s.fill i avail).txbuf i).length ≤ usbMaxPayload := by
  simp only [fill, Function.update_self]
  rcases Nat.lt_or_ge s.txRing.used (if avail < usbMaxPayload then avail else usbMaxPayload) with
    hlt | hge
  · rw [RingBuffer.readExact_of_lt hlt]
    exact Nat.zero_le _
  · obtain ⟨ring, hread, -⟩ := RingBuffer.readExact_of_le hge
    rw [hread, Option.getD_some, List.length_take]
    split <;> omega

theorem fill_of_ne (s : TxPath) {i j : Fin 2} (avail : Nat) (h : j ≠ i) :
    (s.fill i avail).txbuf j = s.txbuf j := by
  exact Function.update_of_ne h _ _

/-- The transmitter leaves the reader's part of the channel alone. -/
structure SameReader (s t : TxPath) : Prop where
  id : t.id = s.id
  active : t.active = s.active
  reader : t.reader = s.reader
  appRead : t.appRead = s.appRead
  put : t.put = s.put

/-- A step of the transmitter, which has not returned. -/
theorem sameReader_txStep {s t : TxPath} {ok : Bool} (hs : s.txStep ok = some t) :
    s.tx ≠ .exited ∧ SameReader s t := by
  simp only [txStep] at hs
  cases hpc : s.tx with
  | prefillWait =>
      simp only [hpc] at hs
      split at hs
      · cases hs
      · cases hs
        exact ⟨nofun, rfl, rfl, rfl, rfl, rfl⟩
  | prefillRead avail =>
      simp only [hpc] at hs
      cases hs
      refine ⟨nofun, ?_⟩
      split
      · exact ⟨rfl, rfl, rfl, rfl, rfl⟩
      · exact ⟨rfl, rfl, rfl, rfl, rfl⟩
  | sendCur =>
      simp only [hpc] at hs
      split at hs
      · cases ok with
        | true =>
            cases hs
            exact ⟨nofun, rfl, rfl, rfl, rfl, rfl⟩
        | false =>
            cases hs
            exact ⟨nofun, rfl, rfl, rfl, rfl, rfl⟩
      · cases hs
        exact ⟨nofun, rfl, rfl, rfl, rfl, rfl⟩
  | waitData =>
      simp only [hpc] at hs
      split at hs
      · cases hs
      · split at hs
        · cases hs
          exact ⟨nofun, rfl, rfl, rfl, rfl, rfl⟩
        · cases hs
          exact ⟨nofun, rfl, rfl, rfl, rfl, rfl⟩
  | sendSwap =>
      simp only [hpc] at hs
      split at hs
      · cases ok with
        | true =>
            cases hs
            exact ⟨nofun, rfl, rfl, rfl, rfl, rfl⟩
        | false =>
            cases hs
            exact ⟨nofun, rfl, rfl, rfl, rfl, rfl⟩
      · cases hs
        exact ⟨nofun, rfl, rfl, rfl, rfl, rfl⟩
  | flush =>
      simp only [hpc] at hs
      split at hs
      · cases hs
        exact ⟨nofun, rfl, rfl, rfl, rfl, rfl⟩
      · cases hs
        exact ⟨nofun, rfl, rfl, rfl, rfl, rfl⟩
  | exited =>
      simp only [hpc] at hs
      cases hs
  | _ =>
      simp only [hpc] at hs
      cases hs
      exact ⟨nofun, rfl, rfl, rfl, rfl, rfl⟩

/-- What a step of the transmitter does to the bytes that are put and not sent. -/
inductive TxMove (s t : TxPath) : Prop where
  /-- Nothing, seen from outside. -/
  | silent (wire : t.wire = s.wire) (failed : t.usbFailed = s.usbFailed)
      (bytes : t.unsent ++ t.txRing.contents = s.unsent ++ s.txRing.contents)
  /-- A payload goes from the front of them to the wire. -/
  | send (p : List UInt8) (pos : 0 < p.length) (le : p.length ≤ usbMaxPayload)
      (wire : t.wire = s.wire ++ [⟨s.id, flagData, p⟩]) (failed : t.usbFailed = s.usbFailed)
      (bytes : p ++ (t.unsent ++ t.txRing.contents) = s.unsent ++ s.txRing.contents)
  /-- A USB write fails. -/
  | fail (wire : t.wire = s.wire) (failed : t.usbFailed = true)

theorem bound_update {s : TxPath} (h : s.BufOk) (i : Fin 2) {p : List UInt8}
    (hp : p.length ≤ usbMaxPayload) (j : Fin 2) :
    (Function.update s.txbuf i p j).length ≤ usbMaxPayload := by
  by_cases hj : j = i
  · rw [hj, Function.update_self]
    exact hp
  · rw [Function.update_of_ne hj]
    exact h.bound j

theorem bound_fill {s : TxPath} (h : s.BufOk) (i : Fin 2) (avail : Nat) (j : Fin 2) :
    ((s.fill i avail).txbuf j).length ≤ usbMaxPayload := by
  by_cases hj : j = i
  · rw [hj]
    exact length_fill s i avail
  · rw [fill_of_ne s avail hj]
    exact h.bound j

/-- The current buffer goes out, in front of what else is unsent. -/
theorem TxMove.sendCur {s t : TxPath} {rest : List UInt8} (h : s.BufOk)
    (hpos : 0 < (s.txbuf s.cur).length) (hunsent : s.unsent = s.txbuf s.cur ++ rest)
    (hwire : t.wire = s.wire ++ [⟨s.id, flagData, s.txbuf s.cur⟩])
    (hfailed : t.usbFailed = s.usbFailed) (hring : t.txRing = s.txRing) (hrest : t.unsent = rest) :
    TxMove s t := by
  refine .send (s.txbuf s.cur) hpos (h.bound s.cur) hwire hfailed ?_
  rw [hunsent, hrest, hring, List.append_assoc]

/-- It is empty, and nothing goes out. -/
theorem TxMove.skipCur {s t : TxPath} {rest : List UInt8} (hcur : s.txbuf s.cur = [])
    (hunsent : s.unsent = s.txbuf s.cur ++ rest) (hwire : t.wire = s.wire)
    (hfailed : t.usbFailed = s.usbFailed) (hring : t.txRing = s.txRing) (hrest : t.unsent = rest) :
    TxMove s t := by
  refine .silent hwire hfailed ?_
  rw [hunsent, hcur, hrest, hring, List.nil_append]

/-- The current buffer is sent, then the transmitter waits. -/
theorem spec_sendCur {s t : TxPath} {ok : Bool} (h : s.BufOk) (hpc : s.tx = .sendCur)
    (hs : s.txStep ok = some t) : t.BufOk ∧ TxMove s t := by
  have hunsent : s.unsent = s.txbuf s.cur ++ [] := by simp [unsent, hpc]
  simp only [txStep, hpc] at hs
  split at hs
  · next hpos =>
    cases ok with
    | true =>
        cases hs
        exact ⟨⟨fun _ => Function.update_self _ _ _, bound_update h _ (Nat.zero_le _)⟩,
          .sendCur h hpos hunsent rfl rfl rfl (Function.update_self _ _ _)⟩
    | false =>
        cases hs
        exact ⟨⟨False.elim, h.bound⟩, .fail rfl rfl⟩
  · next hzero =>
    cases hs
    have hcur : s.txbuf s.cur = [] := List.eq_nil_of_length_eq_zero (by omega)
    exact ⟨⟨fun _ => hcur, h.bound⟩, .skipCur hcur hunsent rfl rfl rfl hcur⟩

/-- The current buffer is sent, and the next one is current. -/
theorem spec_sendSwap {s t : TxPath} {ok : Bool} (h : s.BufOk) (hpc : s.tx = .sendSwap)
    (hs : s.txStep ok = some t) : t.BufOk ∧ TxMove s t := by
  have hunsent : s.unsent = s.txbuf s.cur ++ s.txbuf (1 - s.cur) := by simp [unsent, hpc]
  simp only [txStep, hpc] at hs
  split at hs
  · next hpos =>
    cases ok with
    | true =>
        cases hs
        exact ⟨⟨False.elim, h.bound⟩, .sendCur h hpos hunsent rfl rfl rfl rfl⟩
    | false =>
        cases hs
        exact ⟨⟨False.elim, h.bound⟩, .fail rfl rfl⟩
  · next hzero =>
    cases hs
    have hcur : s.txbuf s.cur = [] := List.eq_nil_of_length_eq_zero (by omega)
    exact ⟨⟨False.elim, h.bound⟩, .skipCur hcur hunsent rfl rfl rfl rfl⟩

/-- The current buffer is sent behind the loop. -/
theorem spec_flush {s t : TxPath} {ok : Bool} (h : s.BufOk) (hpc : s.tx = .flush)
    (hs : s.txStep ok = some t) : t.BufOk ∧ TxMove s t := by
  have hunsent : s.unsent = s.txbuf s.cur ++ [] := by simp [unsent, hpc]
  simp only [txStep, hpc] at hs
  split at hs
  · next hpos =>
    cases hs
    cases ok with
    | true => exact ⟨⟨False.elim, h.bound⟩, .sendCur h hpos hunsent rfl rfl rfl rfl⟩
    | false => exact ⟨⟨False.elim, h.bound⟩, .fail rfl rfl⟩
  · next hzero =>
    cases hs
    have hcur : s.txbuf s.cur = [] := List.eq_nil_of_length_eq_zero (by omega)
    exact ⟨⟨False.elim, h.bound⟩, .skipCur hcur hunsent rfl rfl rfl rfl⟩

/-- A step of the transmitter. -/
theorem txStep_spec {s t : TxPath} {ok : Bool} (h : s.BufOk) (hs : s.txStep ok = some t) :
    SameReader s t ∧ t.BufOk ∧ TxMove s t := by
  refine ⟨(sameReader_txStep hs).2, ?_⟩
  have hstep := hs
  simp only [txStep] at hs
  cases hpc : s.tx with
  | prefillWait =>
      simp only [hpc] at hs
      split at hs
      · cases hs
      · cases hs
        have hcur : s.txbuf s.cur = [] := h.sent (by rw [hpc]; trivial)
        exact ⟨⟨fun _ => hcur, h.bound⟩, .silent rfl rfl (by simp [unsent, hpc])⟩
  | prefillRead avail =>
      simp only [hpc] at hs
      cases hs
      have hcur : s.txbuf s.cur = [] := h.sent (by rw [hpc]; trivial)
      split
      · refine ⟨⟨False.elim, bound_fill h _ _⟩, .silent rfl rfl ?_⟩
        simp only [unsent, hpc, hcur]
        exact fill_contents s s.cur avail
      · exact ⟨⟨False.elim, h.bound⟩, .silent rfl rfl (by simp [unsent, hpc])⟩
  | loopHead =>
      simp only [hpc] at hs
      cases hs
      refine ⟨⟨fun hsent => ?_, h.bound⟩, .silent rfl rfl ?_⟩
      · simp only at hsent
        split at hsent
        · exact hsent.elim
        · exact hsent.elim
      · cases hact : s.active <;> simp [unsent, hpc]
  | checkAvail =>
      simp only [hpc] at hs
      cases hs
      have hne : s.cur ≠ 1 - s.cur := (nxt_ne s.cur).symm
      have hcur : Function.update s.txbuf (1 - s.cur) [] s.cur = s.txbuf s.cur :=
        Function.update_of_ne hne _ _
      refine ⟨⟨fun hsent => ?_, bound_update h _ (Nat.zero_le _)⟩, .silent rfl rfl ?_⟩
      · simp only at hsent
        split at hsent
        · exact hsent.elim
        · exact hsent.elim
      · by_cases hused : s.txRing.used = 0 <;> simp [unsent, hpc, hused, hcur]
  | sendCur => exact spec_sendCur h hpc hstep
  | waitData =>
      simp only [hpc] at hs
      have hcur : s.txbuf s.cur = [] := h.sent (by rw [hpc]; trivial)
      split at hs
      · cases hs
      · split at hs
        · cases hs
          exact ⟨⟨False.elim, h.bound⟩, .silent rfl rfl (by simp [unsent, hpc])⟩
        · cases hs
          exact ⟨⟨fun _ => hcur, h.bound⟩, .silent rfl rfl (by simp [unsent, hpc])⟩
  | readCur avail =>
      simp only [hpc] at hs
      cases hs
      have hcur : s.txbuf s.cur = [] := h.sent (by rw [hpc]; trivial)
      refine ⟨⟨False.elim, bound_fill h _ _⟩, .silent rfl rfl ?_⟩
      simp only [unsent, hpc, hcur]
      exact fill_contents s s.cur avail
  | readNxt avail =>
      simp only [hpc] at hs
      cases hs
      have hne : s.cur ≠ 1 - s.cur := (nxt_ne s.cur).symm
      refine ⟨⟨False.elim, bound_fill h _ _⟩, .silent rfl rfl ?_⟩
      have hcur := fill_of_ne s avail hne
      have hbytes := fill_contents s (1 - s.cur) avail
      change (s.fill (1 - s.cur) avail).txbuf s.cur ++ (s.fill (1 - s.cur) avail).txbuf (1 - s.cur) ++
        (s.fill (1 - s.cur) avail).txRing.contents = _
      rw [hcur, List.append_assoc, hbytes]
      simp [unsent, hpc]
  | sendSwap => exact spec_sendSwap h hpc hstep
  | flush => exact spec_flush h hpc hstep
  | exited =>
      simp only [hpc] at hs
      cases hs

/-! ## The reader -/

/-- What a step of the reader, or a CLOSE of the host, does.  It puts `p` into the
ring and reads `q` from the socket, and what it does not put is unwritten, as long
as the channel stays active. -/
inductive ReaderMove (s t : TxPath) : Prop where
  | mk (p q : List UInt8) (ring : t.txRing.contents = s.txRing.contents ++ p)
      (put : t.put = s.put ++ p) (appRead : t.appRead = s.appRead ++ q)
      (bytes : t.active = true → s.active = true ∧ p ++ t.unwritten = s.unwritten ++ q)
      (wire : t.usbFailed = s.usbFailed ∧
          (t.wire = s.wire ∨ t.wire = s.wire ++ [⟨s.id, flagClose, []⟩]) ∨
        t.usbFailed = true ∧ t.wire = s.wire)

/-- The reader leaves the transmitter's part of the channel alone. -/
structure SameTx (s t : TxPath) : Prop where
  id : t.id = s.id
  tx : t.tx = s.tx
  txbuf : t.txbuf = s.txbuf
  cur : t.cur = s.cur

/-- A step that neither reads nor writes anything. -/
theorem ReaderMove.silent {s t : TxPath} (ring : t.txRing = s.txRing) (put : t.put = s.put)
    (appRead : t.appRead = s.appRead) (failed : t.usbFailed = s.usbFailed)
    (wire : t.wire = s.wire)
    (bytes : t.active = true → s.active = true ∧ t.unwritten = s.unwritten) : ReaderMove s t :=
  .mk [] [] (by rw [ring, List.append_nil]) (by rw [put, List.append_nil])
    (by rw [appRead, List.append_nil])
    (fun h => ⟨(bytes h).1, by rw [List.nil_append, (bytes h).2, List.append_nil]⟩)
    (Or.inl ⟨failed, Or.inl wire⟩)

/-- A step of the reader that reads nothing. -/
theorem readerStep_spec {s t : TxPath} {ok : Bool} (hs : s.readerStep ok = some t) :
    SameTx s t ∧ ReaderMove s t := by
  simp only [readerStep] at hs
  cases hpc : s.reader with
  | loopHead =>
      simp only [hpc] at hs
      cases hs
      refine ⟨⟨rfl, rfl, rfl, rfl⟩, .silent rfl rfl rfl rfl rfl fun hact => ⟨hact, ?_⟩⟩
      have hact' : s.active = true := hact
      simp [unwritten, hpc, hact']
  | checkWrite remaining rest =>
      simp only [hpc] at hs
      split at hs
      · cases hs
        exact ⟨⟨rfl, rfl, rfl, rfl⟩, .silent rfl rfl rfl rfl rfl fun hact =>
          ⟨hact, by simp [unwritten, hpc]⟩⟩
      · next hcond =>
        have hrest : s.active = true → rest = [] := fun hact =>
          List.eq_nil_of_length_eq_zero (by simp only [hact, and_true] at hcond; omega)
        split at hs
        · cases hs
          refine ⟨⟨rfl, rfl, rfl, rfl⟩, .silent rfl rfl rfl rfl rfl fun hact => ⟨hact, ?_⟩⟩
          simp [unwritten, hpc, hrest hact]
        · cases hs
          refine ⟨⟨rfl, rfl, rfl, rfl⟩, .silent rfl rfl rfl rfl rfl fun hact => ⟨hact, ?_⟩⟩
          simp [unwritten, hpc, hrest hact]
  | write remaining rest =>
      simp only [hpc] at hs
      cases hs
      obtain ⟨hring, hlen⟩ := s.txRing.contents_write rest
      refine ⟨⟨rfl, rfl, rfl, rfl⟩, .mk (rest.take (s.txRing.accepted rest)) [] hring ?_ ?_ ?_ ?_⟩
      · rw [← hlen]
      · rw [List.append_nil]
      · refine fun hact => ⟨hact, ?_⟩
        simp [unwritten, hpc, hlen]
      · exact Or.inl ⟨rfl, Or.inl rfl⟩
  | done buf =>
      simp only [hpc] at hs
      cases hs
      exact ⟨⟨rfl, rfl, rfl, rfl⟩, .silent rfl rfl rfl rfl rfl fun hact => by cases hact⟩
  | sendClose =>
      simp only [hpc] at hs
      cases hs
      refine ⟨⟨rfl, rfl, rfl, rfl⟩, .mk [] [] (List.append_nil _).symm (List.append_nil _).symm
        (List.append_nil _).symm (fun hact => ⟨hact, by simp [unwritten, hpc]⟩) ?_⟩
      cases ok with
      | true => exact Or.inl ⟨rfl, Or.inr rfl⟩
      | false => exact Or.inr ⟨rfl, rfl⟩
  | readLen =>
      simp only [hpc] at hs
      cases hs
  | readChunk remaining buf =>
      simp only [hpc] at hs
      cases hs
  | exited =>
      simp only [hpc] at hs
      cases hs

/-- Every step is one of the transmitter, or one of the reader or the host. -/
theorem step_spec {s t : TxPath} {e : Event} (h : s.BufOk) (hs : s.step e = some t) :
    (SameReader s t ∧ t.BufOk ∧ TxMove s t) ∨ (SameTx s t ∧ ReaderMove s t) := by
  cases e with
  | tx ok => exact Or.inl (txStep_spec h hs)
  | reader ok => exact Or.inr (readerStep_spec hs)
  | hostClose =>
      cases hs
      exact Or.inr ⟨⟨rfl, rfl, rfl, rfl⟩, .silent rfl rfl rfl rfl rfl fun hact => by cases hact⟩
  | readLen plen =>
      simp only [step] at hs
      cases hpc : s.reader with
      | readLen =>
          simp only [hpc] at hs
          split at hs
          · cases hs
            exact Or.inr ⟨⟨rfl, rfl, rfl, rfl⟩, .silent rfl rfl rfl rfl rfl fun hact =>
              ⟨hact, by simp [unwritten, hpc]⟩⟩
          · cases hs
            exact Or.inr ⟨⟨rfl, rfl, rfl, rfl⟩, .silent rfl rfl rfl rfl rfl fun hact =>
              ⟨hact, by simp [unwritten, hpc]⟩⟩
      | _ => simp [hpc] at hs
  | readSome bytes =>
      simp only [step] at hs
      cases hpc : s.reader with
      | readChunk remaining buf =>
          simp only [hpc] at hs
          split at hs
          · cases hs
            refine Or.inr ⟨⟨rfl, rfl, rfl, rfl⟩, .mk [] bytes (List.append_nil _).symm
              (List.append_nil _).symm rfl (fun hact => ⟨hact, ?_⟩) (Or.inl ⟨rfl, Or.inl rfl⟩)⟩
            by_cases hfull : (buf ++ bytes).length = chunkLen remaining
            · simp only [unwritten, hpc, if_pos hfull, List.nil_append]
            · simp only [unwritten, hpc, if_neg hfull, List.nil_append]
          · cases hs
      | _ => simp [hpc] at hs
  | readFail =>
      simp only [step] at hs
      cases hpc : s.reader with
      | readLen =>
          simp only [hpc] at hs
          cases hs
          exact Or.inr ⟨⟨rfl, rfl, rfl, rfl⟩, .silent rfl rfl rfl rfl rfl fun hact =>
            ⟨hact, by simp [unwritten, hpc]⟩⟩
      | readChunk remaining buf =>
          simp only [hpc] at hs
          cases hs
          exact Or.inr ⟨⟨rfl, rfl, rfl, rfl⟩, .silent rfl rfl rfl rfl rfl fun hact =>
            ⟨hact, by simp [unwritten, hpc]⟩⟩
      | _ => simp [hpc] at hs

/-! ## Some runs -/

/-- The steps of the reader for a message of one chunk. -/
def messageEvents (m : List UInt8) : List Event :=
  [.reader true, .readLen (UInt32.ofNat m.length), .readSome m, .reader true, .reader true,
    .reader true]

/-- The steps of a reader whose socket fails, up to the CLOSE. -/
def failEvents : List Event := [.reader true, .readFail, .reader true]

/-- A message of one chunk is put into the ring, if it fits. -/
theorem run_message {s : TxPath} {m : List UInt8} (hpc : s.reader = .loopHead)
    (hactive : s.active = true) (hpos : 0 < m.length) (hchunk : m.length ≤ usbBufSize)
    (hfits : m.length ≤ s.txRing.freeSpace) :
    ∃ t, run step s (messageEvents m) = some t ∧ t.id = s.id ∧ t.reader = .loopHead ∧
      t.active = true ∧ t.tx = s.tx ∧ t.txbuf = s.txbuf ∧ t.cur = s.cur ∧ t.wire = s.wire ∧
      t.usbFailed = s.usbFailed ∧ t.put = s.put ++ m ∧
      t.txRing.contents = s.txRing.contents ++ m := by
  have hlen : (UInt32.ofNat m.length).toNat = m.length :=
    UInt32.toNat_ofNat_of_lt' (Nat.lt_of_le_of_lt hchunk (by decide : usbBufSize < 2 ^ 32))
  have hmax : m.length ≤ maxFrameSize :=
    Nat.le_trans hchunk (by decide : usbBufSize ≤ maxFrameSize)
  have hgood : ¬ (m.length = 0 ∨ maxFrameSize < m.length) := by omega
  have hchunkLen : chunkLen m.length = m.length := by
    rw [chunkLen]
    split <;> omega
  have hwritten : (s.txRing.write m).2 = m.length := by
    rw [(s.txRing.contents_write m).2, RingBuffer.accepted_eq, Nat.min_eq_left hfits]
  have hstep₁ : s.step (.reader true) = some { s with reader := .readLen } := by
    simp [step, readerStep, hpc, hactive]
  have hstep₂ : step { s with reader := .readLen } (.readLen (UInt32.ofNat m.length)) =
      some { s with reader := .readChunk m.length [] } := by
    simp only [step, hlen, if_neg hgood]
  have hstep₃ : step { s with reader := .readChunk m.length [] } (.readSome m) =
      some { s with appRead := s.appRead ++ m, reader := .checkWrite 0 m } := by
    simp only [step, List.nil_append, hchunkLen, hpos, Nat.le_refl, and_self, if_true, Nat.sub_self]
  have hstep₄ : step { s with appRead := s.appRead ++ m, reader := .checkWrite 0 m }
      (.reader true) = some { s with appRead := s.appRead ++ m, reader := .write 0 m } := by
    simp only [step, readerStep, hpos, hactive, and_self, if_true]
  have hstep₅ : step { s with appRead := s.appRead ++ m, reader := .write 0 m } (.reader true) =
      some { s with
        appRead := s.appRead ++ m
        txRing := (s.txRing.write m).1
        put := s.put ++ m
        reader := .checkWrite 0 [] } := by
    simp only [step, readerStep, hwritten, List.take_length, List.drop_length]
  refine ⟨{ s with
      appRead := s.appRead ++ m
      txRing := (s.txRing.write m).1
      put := s.put ++ m
      reader := .loopHead }, ?_, rfl, rfl, hactive, rfl, rfl, rfl, rfl, rfl, rfl,
    RingBuffer.write_of_fits hfits⟩
  rw [messageEvents, run_cons hstep₁, run_cons hstep₂, run_cons hstep₃, run_cons hstep₄,
    run_cons hstep₅]
  rfl

/-- The socket fails between two messages. -/
theorem run_fail {s : TxPath} (hpc : s.reader = .loopHead) (hactive : s.active = true) :
    run step s failEvents = some { s with active := false, reader := .sendClose } := by
  have hstep : s.step (.reader true) = some { s with reader := .readLen } := by
    simp [step, readerStep, hpc, hactive]
  rw [failEvents, run_cons hstep]
  rfl

theorem fill_of_short {s : TxPath} (i : Fin 2) (h : s.txRing.used < usbMaxPayload) :
    (s.fill i s.txRing.used).txbuf i = s.txRing.contents := by
  obtain ⟨ring, hread, -⟩ := RingBuffer.readExact_of_le (Nat.le_refl s.txRing.used)
  simp only [fill, if_pos h, hread, Option.getD_some, Function.update_self]
  rw [← RingBuffer.length_contents, List.take_length]

/-- The transmitter has not looked at the ring when the channel is closed.  It then
sends one payload and leaves. -/
theorem run_flush {s : TxPath} (htx : s.tx = .prefillWait) (hactive : s.active = false)
    (hpos : 0 < s.txRing.used) (hshort : s.txRing.used < usbMaxPayload) :
    ∃ t, run step s [.tx true, .tx true, .tx true, .tx true] = some t ∧
      t.usbFailed = s.usbFailed ∧
      t.wire = s.wire ++ [⟨s.id, flagData, s.txRing.contents⟩] := by
  have hstep₁ : s.step (.tx true) = some { s with tx := .prefillRead s.txRing.used } := by
    simp [step, txStep, htx, hactive]
  have hstep₂ : step { s with tx := .prefillRead s.txRing.used } (.tx true) =
      some { s.fill s.cur s.txRing.used with tx := .loopHead } := by
    simp only [step, txStep, if_pos hpos]
    rfl
  have hstep₃ : step { s.fill s.cur s.txRing.used with tx := .loopHead } (.tx true) =
      some { s.fill s.cur s.txRing.used with tx := .flush } := by
    simp [step, txStep, fill, hactive]
  have hbuf := fill_of_short s.cur hshort
  have hlen : 0 < ((s.fill s.cur s.txRing.used).txbuf s.cur).length := by
    rw [hbuf, RingBuffer.length_contents]
    exact hpos
  have hstep₄ : step { s.fill s.cur s.txRing.used with tx := .flush } (.tx true) =
      some { (s.fill s.cur s.txRing.used).usbSendFrame flagData s.txRing.contents true with
        tx := .exited } := by
    rw [← hbuf]
    exact if_pos hlen
  rw [run_cons hstep₁, run_cons hstep₂, run_cons hstep₃, run_cons hstep₄]
  exact ⟨_, rfl, rfl, rfl⟩

end TxPath

end MFoES.Usbd
