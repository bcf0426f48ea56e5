import MFoES.Lib.Transition
import MFoES.Usbd.Dispatch
import MFoES.Usbd.RingBuffer

/-!
# From USB to the application

Two threads work on the `rx_ring` of a channel.  `usb_rx_thread` writes every
payload as two pieces, four bytes of length and the payload.  `channel_rx_thread`
reads the pieces and forwards them to the socket of the application.

`step` is one step of either thread, or of what else can happen to the channel.
A run is any interleaving.  The daemon is running throughout: `g_running` is
cleared at shutdown only.

A ring write can be short, and a wait for a payload can time out.  Neither
thread can tell afterwards where a message starts.  While neither happens, the
bytes in the ring are a sequence of messages, and the application receives
messages as they were sent, some of them perhaps missing (`run_sublist`).
-/

namespace MFoES.Usbd

open LittleEndian Transition Usbproto

/-- Where `channel_rx_thread` stands.  In the reads, `waiting` is whether
`read_exact` has found too few bytes and waits for a signal. -/
inductive RxPc where
  /-- `while (g_running && ch.active)`. -/
  | loopHead
  /-- The wait for four bytes. -/
  | waitLen
  /-- `read_exact` of the length. -/
  | readLen (waiting : Bool)
  /-- `while (skip > 0 && ch.active)`. -/
  | drain (skip : Nat)
  /-- `read_exact` of a piece of `trash`. -/
  | readTrash (skip : Nat) (waiting : Bool)
  /-- `read_exact` of the payload. -/
  | readPayload (plen : Nat) (waiting : Bool)
  /-- Length and payload go to the socket. -/
  | forward (payload : List UInt8)
  | exited
deriving DecidableEq, Repr

/-- A channel, as far as the way from USB to the application goes. -/
structure RxPath where
  rxRing : RingBuffer ringSize
  active : Bool
  /-- What `usb_rx_thread` has yet to do for the frame it dispatches. -/
  pending : List Action
  /-- What the last ring write returned.  The dispatch does not look at it. -/
  written : Nat
  pc : RxPc
  /-- The payloads of the DATA frames received for the channel. -/
  received : List (List UInt8)
  /-- The messages the application received. -/
  app : List (List UInt8)

namespace RxPath

/-- The channel after `Channel::init`. -/
def init (rxRing : RingBuffer ringSize) : RxPath :=
  ⟨rxRing, true, [], 0, .loopHead, [], []⟩

@[simp] theorem rxRing_init (ring : RingBuffer ringSize) : (init ring).rxRing = ring := rfl

inductive Event where
  /-- `usb_rx_thread` recognises a frame for the channel. -/
  | receive (f : Frame)
  /-- `usb_rx_thread` does the next thing for the frame. -/
  | usbRx
  /-- `app_reader_thread` ends the channel. -/
  | deactivate
  /-- `channel_rx_thread` takes a step. -/
  | rx
  /-- The wait of `channel_rx_thread` times out. -/
  | timeout
deriving DecidableEq, Repr

/-- An action of the dispatch, on the channel. -/
def act (s : RxPath) : Action → RxPath
  | .writeRx _ data =>
      let r := s.rxRing.write data
      { s with rxRing := r.1, written := r.2 }
  | .clearActive _ => { s with active := false }
  | .readActive _ => s
  | .sendFrame _ => s

/-- A step of `channel_rx_thread`, unless it has to wait. -/
def rxStep (s : RxPath) : Option RxPath :=
  match s.pc with
  | .loopHead => some { s with pc := if s.active then .waitLen else .exited }
  | .waitLen =>
      if s.active ∧ s.rxRing.used < 4 then none else some { s with pc := .readLen false }
  | .readLen waiting =>
      match s.rxRing.readExact 4 with
      | none => if waiting then none else some { s with pc := .readLen true }
      | some (out, ring) =>
          let plen := (get32 out 0).toNat
          if plen = 0 ∨ maxFrameSize < plen then some { s with rxRing := ring, pc := .drain plen }
          else some { s with rxRing := ring, pc := .readPayload plen false }
  | .drain skip =>
      some { s with pc := if 0 < skip ∧ s.active then .readTrash skip false else .loopHead }
  | .readTrash skip waiting =>
      let n := if skip < 256 then skip else 256
      match s.rxRing.readExact n with
      | none => if waiting then none else some { s with pc := .readTrash skip true }
      | some (_, ring) => some { s with rxRing := ring, pc := .drain (skip - n) }
  | .readPayload plen waiting =>
      match s.rxRing.readExact plen with
      | none => if waiting then none else some { s with pc := .readPayload plen true }
      | some (out, ring) => some { s with rxRing := ring, pc := .forward out }
  | .forward payload => some { s with app := s.app ++ [payload], pc := .loopHead }
  | .exited => none

/-- One step. -/
def step (s : RxPath) : Event → Option RxPath
  | .receive f =>
      -- the reassembly buffer holds no longer payload
      if s.pending = [] ∧ f.payload.length ≤ maxFrameSize then
        some { s with
          pending := react s.active f
          received := if f.flags = flagData then s.received ++ [f.payload] else s.received }
      else none
  | .usbRx =>
      match s.pending with
      | [] => none
      | a :: pending => some { s.act a with pending := pending }
  | .deactivate => some { s with active := false }
  | .rx => s.rxStep
  | .timeout =>
      match s.pc with
      | .readLen true => some { s with pc := .loopHead }
      -- the drain breaks off, and the loop goes on
      | .readTrash _ true => some { s with pc := .loopHead }
      | .readPayload _ true => some { s with pc := .loopHead }
      | _ => none

/-- `channel_rx_thread` leaves the rest of the channel alone. -/
structure SameRest (s t : RxPath) : Prop where
  active : t.active = s.active
  pending : t.pending = s.pending
  written : t.written = s.written

/-- A thread that takes a step has not returned. -/
theorem sameRest_rxStep {s t : RxPath} (hs : s.rxStep = some t) : s.pc ≠ .exited ∧ SameRest s t := by
  simp only [rxStep] at hs
  cases hpc : s.pc with
  | loopHead =>
      simp only [hpc] at hs
      cases hs
      exact ⟨nofun, rfl, rfl, rfl⟩
  | waitLen =>
      simp only [hpc] at hs
      split at hs
      · cases hs
      · cases hs
        exact ⟨nofun, rfl, rfl, rfl⟩
  | readLen waiting =>
      simp only [hpc] at hs
      split at hs
      · split at hs
        · cases hs
        · cases hs
          exact ⟨nofun, rfl, rfl, rfl⟩
      · split at hs
        · cases hs
          exact ⟨nofun, rfl, rfl, rfl⟩
        · cases hs
          exact ⟨nofun, rfl, rfl, rfl⟩
  | drain skip =>
      simp only [hpc] at hs
      cases hs
      exact ⟨nofun, rfl, rfl, rfl⟩
  | readTrash skip waiting =>
      simp only [hpc] at hs
      split at hs
      · split at hs
        · cases hs
        · cases hs
          exact ⟨nofun, rfl, rfl, rfl⟩
      · cases hs
        exact ⟨nofun, rfl, rfl, rfl⟩
  | readPayload plen waiting =>
      simp only [hpc] at hs
      split at hs
      · split at hs
        · cases hs
        · cases hs
          exact ⟨nofun, rfl, rfl, rfl⟩
      · cases hs
        exact ⟨nofun, rfl, rfl, rfl⟩
  | forward payload =>
      simp only [hpc] at hs
      cases hs
      exact ⟨nofun, rfl, rfl, rfl⟩
  | exited =>
      simp only [hpc] at hs
      cases hs

/-- So does a timeout. -/
theorem sameRest_timeout {s t : RxPath} (hs : s.step .timeout = some t) :
    s.pc ≠ .exited ∧ SameRest s t := by
  simp only [step] at hs
  split at hs
  next hpc =>
    cases hs
    exact ⟨by rw [hpc]; exact nofun, rfl, rfl, rfl⟩
  next hpc =>
    cases hs
    exact ⟨by rw [hpc]; exact nofun, rfl, rfl, rfl⟩
  next hpc =>
    cases hs
    exact ⟨by rw [hpc]; exact nofun, rfl, rfl, rfl⟩
  next => cases hs

/-- The guard of `receive` holds of every frame that the scan recognises. -/
theorem receive_enabled {s : RxPath} (hpend : s.pending = []) {R data : List UInt8}
    (hdata : data.length ≤ readChunk) {f : Frame} (hf : f ∈ (usbRxThread R data).2) :
    ∃ t, s.step (.receive f) = some t ∧ t.pending = react s.active f :=
  ⟨_, if_pos ⟨hpend, payload_usbRxThread_le hdata f hf⟩, rfl⟩

/-! ## Framing -/

/-- A message in the ring. -/
def message (m : List UInt8) : List UInt8 := le32 (UInt32.ofNat m.length) ++ m

/-- A payload that is written to the ring. -/
def IsMessage (m : List UInt8) : Prop := 0 < m.length ∧ m.length ≤ maxFrameSize

instance (m : List UInt8) : Decidable (IsMessage m) := inferInstanceAs (Decidable (_ ∧ _))

/-- Ring writes of a message are whole, or both of them find the ring full, and
no wait for a payload times out. -/
def Whole (s : RxPath) : Event → Prop
  | .usbRx =>
      match s.pending with
      | [.writeRx _ len, .writeRx _ _] => len.length ≤ s.rxRing.freeSpace ∨ s.rxRing.freeSpace = 0
      | [.writeRx _ payload] =>
          if s.written = 0 then s.rxRing.freeSpace = 0
          else payload.length ≤ s.rxRing.freeSpace
      | _ => True
  | .timeout => ∀ plen, s.pc ≠ .readPayload plen true
  | _ => True

/-- What the pending actions bring: messages they have not begun, and the bytes
they owe to one whose length is in the ring. -/
inductive Writing : List Action → Nat → List (List UInt8) → List UInt8 → Prop where
  | idle {pending : List Action} {k : Nat} (h : ∀ cid data, .writeRx cid data ∉ pending) :
      Writing pending k [] []
  | both {cid k : Nat} {m : List UInt8} (h : IsMessage m) :
      Writing [.writeRx cid (le32 (UInt32.ofNat m.length)), .writeRx cid m] k [m] []
  | stored {cid k : Nat} {m : List UInt8} (h : k ≠ 0) : Writing [.writeRx cid m] k [] m
  | dropped {cid : Nat} {m : List UInt8} : Writing [.writeRx cid m] 0 [] []

/-- What `channel_rx_thread` has taken out of the ring: a message it has not
forwarded, and a length whose payload it has not read.  It never drains. -/
inductive Reading : RxPc → List (List UInt8) → List UInt8 → Prop where
  | loopHead : Reading .loopHead [] []
  | waitLen : Reading .waitLen [] []
  | readLen {waiting : Bool} : Reading (.readLen waiting) [] []
  | readPayload {plen : Nat} {waiting : Bool} (h : plen ≤ maxFrameSize) :
      Reading (.readPayload plen waiting) [] (le32 (UInt32.ofNat plen))
  | forward {m : List UInt8} : Reading (.forward m) [m] []
  | exited : Reading .exited [] []

/-- The bytes in the ring, with what was taken out and what is owed, are a
sequence of messages, and all messages are among those received, in order. -/
def Framed (s : RxPath) : Prop :=
  ∃ taken pre queue coming owed,
    Reading s.pc taken pre ∧ Writing s.pending s.written coming owed ∧
    (∀ m ∈ queue, IsMessage m) ∧
    pre ++ (s.rxRing.contents ++ owed) = queue.flatMap message ∧
    (s.app ++ (taken ++ (queue ++ coming))).Sublist s.received

theorem framed_init {ring : RingBuffer ringSize} (h : ring.contents = []) : Framed (init ring) := by
  refine ⟨[], [], [], [], [], .loopHead, .idle (by simp [init]), by simp, ?_, ?_⟩
  · simp [init, h]
  · simp [init]

theorem react_cases (active : Bool) (f : Frame) :
    (f.flags = flagData ∧ 0 < f.payload.length ∧
      react active f = [.writeRx f.channel.toNat (le32 (UInt32.ofNat f.payload.length)),
        .writeRx f.channel.toNat f.payload]) ∨
    ∀ cid data, .writeRx cid data ∉ react active f := by
  unfold react
  split_ifs with hdata hopen hclose
  · exact Or.inl ⟨hdata.1, hdata.2.2, rfl⟩
  · simp
  · simp
  · simp

theorem framed_receive {s t : RxPath} {f : Frame} (h : Framed s)
    (hs : s.step (.receive f) = some t) : Framed t := by
  obtain ⟨taken, pre, queue, coming, owed, hr, hw, hq, hbytes, hsub⟩ := h
  simp only [step] at hs
  split at hs
  · next hcond =>
    obtain ⟨hpend, hle⟩ := hcond
    cases hs
    rw [hpend] at hw
    cases hw with
    | idle _ =>
        rcases react_cases s.active f with ⟨hflag, hpos, hreact⟩ | hreact
        · refine ⟨taken, pre, queue, [f.payload], [], hr, ?_, hq, hbytes, ?_⟩
          · change Writing (react s.active f) s.written [f.payload] []
            rw [hreact]
            exact .both ⟨hpos, hle⟩
          · simp only [if_pos hflag]
            simp only [List.append_nil] at hsub
            rw [← List.append_assoc taken, ← List.append_assoc s.app]
            exact hsub.append (List.Sublist.refl _)
        · refine ⟨taken, pre, queue, [], [], hr, .idle hreact, hq, hbytes, ?_⟩
          change (s.app ++ (taken ++ (queue ++ []))).Sublist
            (if f.flags = flagData then s.received ++ [f.payload] else s.received)
          split
          · exact hsub.trans (List.sublist_append_left _ _)
          · exact hsub
  · cases hs

theorem framed_usbRx {s t : RxPath} (h : Framed s) (hwhole : s.Whole .usbRx)
    (hs : s.step .usbRx = some t) : Framed t := by
  obtain ⟨taken, pre, queue, coming, owed, hr, hw, hq, hbytes, hsub⟩ := h
  simp only [step] at hs
  simp only [Whole] at hwhole
  generalize hpend : s.pending = pending at hs hw hwhole
  generalize hk : s.written = k at hw hwhole
  cases hw with
  | idle hnone =>
      cases pending with
      | nil => cases hs
      | cons a rest =>
          cases hs
          have hrest : ∀ cid data, .writeRx cid data ∉ rest :=
            fun cid data hmem => hnone cid data (List.mem_cons_of_mem _ hmem)
          cases a with
          | writeRx cid data => exact absurd List.mem_cons_self (hnone cid data)
          | clearActive cid => exact ⟨taken, pre, queue, [], [], hr, .idle hrest, hq, hbytes, hsub⟩
          | readActive cid => exact ⟨taken, pre, queue, [], [], hr, .idle hrest, hq, hbytes, hsub⟩
          | sendFrame f => exact ⟨taken, pre, queue, [], [], hr, .idle hrest, hq, hbytes, hsub⟩
  | @both cid _ m hm =>
      cases hs
      rcases hwhole with hfits | hfull
      · -- the length is in the ring, and the payload is owed
        have hne : (s.rxRing.write (le32 (UInt32.ofNat m.length))).2 ≠ 0 := by
          rw [(s.rxRing.contents_write _).2, RingBuffer.accepted_eq, Nat.min_eq_left hfits]
          exact Nat.succ_ne_zero 3
        refine ⟨taken, pre, queue ++ [m], [], m, hr, .stored hne, ?_, ?_, ?_⟩
        · exact List.forall_mem_append.mpr ⟨hq, List.forall_mem_singleton.mpr hm⟩
        · rw [List.append_nil] at hbytes
          change pre ++ ((s.rxRing.write (le32 (UInt32.ofNat m.length))).1.contents ++ m) = _
          rw [RingBuffer.write_of_fits hfits, List.flatMap_append, ← hbytes, List.flatMap_cons,
            List.flatMap_nil, message]
          simp
        · rw [List.append_nil]
          exact hsub
      · have hzero : (s.rxRing.write (le32 (UInt32.ofNat m.length))).2 = 0 := by
          rw [(s.rxRing.contents_write _).2, RingBuffer.accepted_eq, hfull, Nat.min_zero]
        refine ⟨taken, pre, queue, [], [], hr, ?_, hq, ?_, ?_⟩
        · change Writing [.writeRx cid m] (s.rxRing.write (le32 (UInt32.ofNat m.length))).2 [] []
          rw [hzero]
          exact .dropped
        · change pre ++ ((s.rxRing.write (le32 (UInt32.ofNat m.length))).1.contents ++ []) = _
          rw [RingBuffer.write_of_full _ hfull]
          exact hbytes
        · have hqueue : (s.app ++ (taken ++ (queue ++ []))).Sublist
              (s.app ++ (taken ++ (queue ++ [m]))) := by simp
          exact hqueue.trans hsub
  | stored hne =>
      cases hs
      simp only [hne, if_false] at hwhole
      refine ⟨taken, pre, queue, [], [], hr, .idle (by simp), hq, ?_, hsub⟩
      change pre ++ ((s.rxRing.write owed).1.contents ++ []) = _
      rw [RingBuffer.write_of_fits hwhole, List.append_nil]
      exact hbytes
  | @dropped cid m =>
      cases hs
      simp only [if_true] at hwhole
      refine ⟨taken, pre, queue, [], [], hr, .idle (by simp), hq, ?_, hsub⟩
      change pre ++ ((s.rxRing.write m).1.contents ++ []) = _
      rw [RingBuffer.write_of_full _ hwhole]
      exact hbytes

/-- A ring that starts with a length starts with a message. -/
theorem exists_message {c owed : List UInt8} {queue : List (List UInt8)} (hlen : 4 ≤ c.length)
    (h : c ++ owed = queue.flatMap message) :
    ∃ m rest, queue = m :: rest ∧ c.take 4 = le32 (UInt32.ofNat m.length) ∧
      c.drop 4 ++ owed = m ++ rest.flatMap message := by
  cases queue with
  | nil =>
      have hnil : c = [] := (List.append_eq_nil_iff.mp h).1
      rw [hnil] at hlen
      cases hlen
  | cons m rest =>
      rw [List.flatMap_cons, message, List.append_assoc] at h
      refine ⟨m, rest, rfl, ?_, ?_⟩
      · have htake := congrArg (List.take 4) h
        rw [List.take_append_of_le_length hlen, List.take_left' (length_le32 _)] at htake
        exact htake
      · have hdrop := congrArg (List.drop 4) h
        rw [List.drop_append_of_le_length hlen, List.drop_left' (length_le32 _)] at hdrop
        exact hdrop

theorem toNat_length {m : List UInt8} (h : m.length ≤ maxFrameSize) :
    (UInt32.ofNat m.length).toNat = m.length :=
  UInt32.toNat_ofNat_of_lt' (Nat.lt_of_le_of_lt h (by decide : maxFrameSize < 2 ^ 32))

theorem le32_length_inj {a b : Nat} (ha : a ≤ maxFrameSize) (hb : b ≤ maxFrameSize)
    (h : le32 (UInt32.ofNat a) = le32 (UInt32.ofNat b)) : a = b := by
  have hget := congrArg (fun l => (get32 (l ++ []) 0).toNat) h
  have hmax : maxFrameSize < 2 ^ 32 := by decide
  simp only [get32_le32] at hget
  rw [UInt32.toNat_ofNat_of_lt' (Nat.lt_of_le_of_lt ha hmax),
    UInt32.toNat_ofNat_of_lt' (Nat.lt_of_le_of_lt hb hmax)] at hget
  exact hget

theorem framed_rx {s t : RxPath} (h : Framed s) (hs : s.rxStep = some t) : Framed t := by
  obtain ⟨taken, pre, queue, coming, owed, hr, hw, hq, hbytes, hsub⟩ := h
  simp only [rxStep] at hs
  generalize hpc : s.pc = pc at hs hr
  cases hr with
  | loopHead =>
      cases hs
      refine ⟨[], [], queue, coming, owed, ?_, hw, hq, hbytes, hsub⟩
      change Reading (if s.active then .waitLen else .exited) [] []
      split
      · exact .waitLen
      · exact .exited
  | waitLen =>
      simp only at hs
      split at hs
      · cases hs
      · cases hs
        exact ⟨[], [], queue, coming, owed, .readLen, hw, hq, hbytes, hsub⟩
  | @readLen waiting =>
      rcases Nat.lt_or_ge s.rxRing.used 4 with hlt | hge
      · simp only [RingBuffer.readExact_of_lt hlt] at hs
        split at hs
        · cases hs
        · cases hs
          exact ⟨[], [], queue, coming, owed, .readLen, hw, hq, hbytes, hsub⟩
      · obtain ⟨ring, hread, hring⟩ := RingBuffer.readExact_of_le hge
        rw [← s.rxRing.length_contents] at hge
        obtain ⟨m, rest, rfl, hlen, hrest⟩ := exists_message hge hbytes
        have hm : IsMessage m := hq m List.mem_cons_self
        have hplen : (get32 (s.rxRing.contents.take 4) 0).toNat = m.length := by
          rw [hlen, ← List.append_nil (le32 _), get32_le32, toNat_length hm.2]
        have hgood : ¬ (m.length = 0 ∨ maxFrameSize < m.length) := by
          have hpos := hm.1
          have hle := hm.2
          omega
        simp only [hread, hplen, if_neg hgood] at hs
        cases hs
        refine ⟨[], _, m :: rest, coming, owed, .readPayload hm.2, hw, hq, ?_, hsub⟩
        rw [hring, hrest, List.flatMap_cons, message, List.append_assoc]
  | @readPayload plen waiting hle =>
      rcases Nat.lt_or_ge s.rxRing.used plen with hlt | hge
      · simp only [RingBuffer.readExact_of_lt hlt] at hs
        split at hs
        · cases hs
        · cases hs
          exact ⟨[], _, queue, coming, owed, .readPayload hle, hw, hq, hbytes, hsub⟩
      · obtain ⟨ring, hread, hring⟩ := RingBuffer.readExact_of_le hge
        simp only [hread] at hs
        cases hs
        rw [← s.rxRing.length_contents] at hge
        rw [← List.append_assoc] at hbytes
        obtain ⟨m, rest, rfl, hlen, hrest⟩ := exists_message
          (by rw [List.length_append]; exact Nat.le_add_right _ _) hbytes
        rw [List.take_left' (length_le32 _)] at hlen
        rw [List.drop_left' (length_le32 _)] at hrest
        have hplen : plen = m.length :=
          le32_length_inj hle (hq m List.mem_cons_self).2 hlen
        subst hplen
        have htake := congrArg (List.take m.length) hrest
        have hdrop := congrArg (List.drop m.length) hrest
        rw [List.take_append_of_le_length hge, List.take_left] at htake
        rw [List.drop_append_of_le_length hge, List.drop_left] at hdrop
        rw [htake]
        refine ⟨[m], [], rest, coming, owed, .forward, hw, ?_, ?_, hsub⟩
        · exact fun d hd => hq d (List.mem_cons_of_mem _ hd)
        · rw [hring]
          exact hdrop
  | @forward m =>
      cases hs
      refine ⟨[], [], queue, coming, owed, .loopHead, hw, hq, hbytes, ?_⟩
      rw [List.append_assoc]
      exact hsub
  | exited => cases hs

theorem framed_timeout {s t : RxPath} (h : Framed s) (hwhole : s.Whole .timeout)
    (hs : s.step .timeout = some t) : Framed t := by
  obtain ⟨taken, pre, queue, coming, owed, hr, hw, hq, hbytes, hsub⟩ := h
  simp only [step] at hs
  simp only [Whole] at hwhole
  generalize hpc : s.pc = pc at hs hr hwhole
  cases hr with
  | @readLen waiting =>
      cases waiting with
      | false => cases hs
      | true =>
          cases hs
          exact ⟨[], [], queue, coming, owed, .loopHead, hw, hq, hbytes, hsub⟩
  | @readPayload plen waiting hle =>
      cases waiting with
      | false => cases hs
      | true => exact absurd rfl (hwhole plen)
  | loopHead => cases hs
  | waitLen => cases hs
  | forward => cases hs
  | exited => cases hs

theorem framed_step {s t : RxPath} {e : Event} (h : Framed s) (hwhole : s.Whole e)
    (hs : s.step e = some t) : Framed t := by
  cases e with
  | receive f => exact framed_receive h hs
  | usbRx => exact framed_usbRx h hwhole hs
  | deactivate =>
      cases hs
      exact h
  | rx => exact framed_rx h hs
  | timeout => exact framed_timeout h hwhole hs

/-! ## A message alone -/

/-- The steps of `usb_rx_thread` for a DATA frame. -/
def receiveEvents (m : List UInt8) : List Event := [.receive ⟨0, flagData, m⟩, .usbRx, .usbRx]

/-- The steps of `channel_rx_thread` for a message that is there. -/
def forwardEvents : List Event := [.rx, .rx, .rx, .rx, .rx]

/-- Both ring writes of a payload, however much they accept. -/
theorem run_receive {s : RxPath} {m : List UInt8} (hm : IsMessage m) (hactive : s.active = true)
    (hpend : s.pending = []) :
    ∃ t, run step s (receiveEvents m) = some t ∧ t.active = true ∧ t.pending = [] ∧ t.pc = s.pc ∧
      t.app = s.app ∧ t.received = s.received ++ [m] ∧
      t.rxRing = ((s.rxRing.write (le32 (UInt32.ofNat m.length))).1.write m).1 := by
  have hreact : react true ⟨0, flagData, m⟩ =
      [.writeRx 0 (le32 (UInt32.ofNat m.length)), .writeRx 0 m] :=
    if_pos ⟨rfl, rfl, hm.1⟩
  simp [receiveEvents, run, step, act, hpend, hactive, hm.2, hreact]

/-- The length of a message goes in whole where it fits. -/
theorem contents_writeLength (r : RingBuffer ringSize) (n : Nat)
    (h : r.contents.length + 4 ≤ ringSize) :
    (r.write (le32 (UInt32.ofNat n))).1.contents = r.contents ++ le32 (UInt32.ofNat n) := by
  refine RingBuffer.write_of_fits ?_
  rw [RingBuffer.freeSpace_eq, length_le32]
  omega

/-- A message that fits is stored whole. -/
theorem run_receive_fits {s : RxPath} {m : List UInt8} (hm : IsMessage m)
    (hactive : s.active = true) (hpend : s.pending = [])
    (hfits : s.rxRing.contents.length + (message m).length ≤ ringSize) :
    ∃ t, run step s (receiveEvents m) = some t ∧ t.active = true ∧ t.pending = [] ∧ t.pc = s.pc ∧
      t.app = s.app ∧ t.received = s.received ++ [m] ∧
      t.rxRing.contents = s.rxRing.contents ++ message m := by
  obtain ⟨t, hrun, hact, hpd, hpc, happ, hrec, hring⟩ := run_receive hm hactive hpend
  refine ⟨t, hrun, hact, hpd, hpc, happ, hrec, ?_⟩
  rw [message, List.length_append, length_le32] at hfits
  have hlen := contents_writeLength s.rxRing m.length (by omega)
  rw [hring, RingBuffer.write_of_fits, hlen, message, List.append_assoc]
  rw [RingBuffer.freeSpace_eq, hlen, List.length_append, length_le32]
  omega

/-- A message whose length still fits is cut. -/
theorem run_receive_cut {s : RxPath} {m : List UInt8} (hm : IsMessage m)
    (hactive : s.active = true) (hpend : s.pending = []) {n : Nat}
    (hfits : s.rxRing.contents.length + 4 + n = ringSize) (hcut : n ≤ m.length) :
    ∃ t, run step s (receiveEvents m) = some t ∧ t.active = true ∧ t.pending = [] ∧ t.pc = s.pc ∧
      t.app = s.app ∧ t.received = s.received ++ [m] ∧
      t.rxRing.contents = s.rxRing.contents ++ (le32 (UInt32.ofNat m.length) ++ m.take n) := by
  obtain ⟨t, hrun, hact, hpd, hpc, happ, hrec, hring⟩ := run_receive hm hactive hpend
  refine ⟨t, hrun, hact, hpd, hpc, happ, hrec, ?_⟩
  have hlen := contents_writeLength s.rxRing m.length (by omega)
  have haccept : (s.rxRing.write (le32 (UInt32.ofNat m.length))).1.accepted m = n := by
    rw [RingBuffer.accepted_eq, RingBuffer.freeSpace_eq, hlen, List.length_append, length_le32]
    omega
  rw [hring, (RingBuffer.contents_write _ m).1, hlen, haccept, List.append_assoc]

/-- A message at the front of the ring is forwarded. -/
theorem run_forward {s : RxPath} {m rest : List UInt8} (hm : IsMessage m)
    (hactive : s.active = true) (hpc : s.pc = .loopHead)
    (hring : s.rxRing.contents = message m ++ rest) :
    ∃ t, run step s forwardEvents = some t ∧ t.active = true ∧ t.pending = s.pending ∧
      t.pc = .loopHead ∧ t.app = s.app ++ [m] ∧ t.received = s.received ∧
      t.rxRing.contents = rest := by
  have hlen := congrArg List.length hring
  rw [RingBuffer.length_contents, message, List.length_append, List.length_append,
    length_le32] at hlen
  have hfour : 4 ≤ s.rxRing.used := by omega
  obtain ⟨ring₁, hread₁, hring₁⟩ := RingBuffer.readExact_of_le hfour
  rw [hring, message, List.append_assoc, List.take_left' (length_le32 _)] at hread₁
  rw [hring, message, List.append_assoc, List.drop_left' (length_le32 _)] at hring₁
  have hpay : m.length ≤ ring₁.used := by
    rw [← ring₁.length_contents, hring₁, List.length_append]
    exact Nat.le_add_right _ _
  obtain ⟨ring₂, hread₂, hring₂⟩ := RingBuffer.readExact_of_le hpay
  rw [hring₁, List.take_left] at hread₂
  rw [hring₁, List.drop_left] at hring₂
  have hplen : (get32 (le32 (UInt32.ofNat m.length)) 0).toNat = m.length := by
    rw [← List.append_nil (le32 _), get32_le32, toNat_length hm.2]
  have hne : m ≠ [] := List.ne_nil_of_length_pos hm.1
  refine ⟨{ s with rxRing := ring₂, pc := .loopHead, app := s.app ++ [m] }, ?_, hactive, rfl, rfl,
    rfl, rfl, hring₂⟩
  have hwait : ¬ s.rxRing.used < 4 := Nat.not_lt.mpr hfour
  rw [forwardEvents, run_cons (t := { s with pc := .waitLen }) (by simp [step, rxStep, hpc, hactive]),
    run_cons (t := { s with pc := .readLen false }) (by simp [step, rxStep, hwait]),
    run_cons (t := { s with rxRing := ring₁, pc := .readPayload m.length false })
      (by simp [step, rxStep, hread₁, hplen, hne, hm.2]),
    run_cons (t := { s with rxRing := ring₂, pc := .forward m }) (by simp [step, rxStep, hread₂]),
    run_cons (t := { s with rxRing := ring₂, pc := .loopHead, app := s.app ++ [m] })
      (by simp [step, rxStep]), run_nil]

/-- The ring writes of a message that fits are whole. -/
theorem whole_receive {s : RxPath} {m : List UInt8} (hm : IsMessage m)
    (hactive : s.active = true) (hpend : s.pending = [])
    (hfits : s.rxRing.contents.length + (message m).length ≤ ringSize) :
    Throughout step Whole s (receiveEvents m) := by
  rw [message, List.length_append, length_le32] at hfits
  have hlen : (le32 (UInt32.ofNat m.length)).length ≤ s.rxRing.freeSpace := by
    rw [RingBuffer.freeSpace_eq, length_le32]
    omega
  have hcontents := RingBuffer.write_of_fits hlen
  have hwritten : (s.rxRing.write (le32 (UInt32.ofNat m.length))).2 ≠ 0 := by
    rw [(s.rxRing.contents_write _).2, RingBuffer.accepted_eq, Nat.min_eq_left hlen]
    exact Nat.succ_ne_zero 3
  have hreact : react s.active ⟨0, flagData, m⟩ =
      [.writeRx 0 (le32 (UInt32.ofNat m.length)), .writeRx 0 m] :=
    if_pos ⟨rfl, hactive, hm.1⟩
  refine ⟨trivial, fun t ht => ?_⟩
  simp only [step, hpend, hm.2, and_self, if_true, hreact] at ht
  cases ht
  refine ⟨Or.inl hlen, fun u hu => ?_⟩
  cases hu
  refine ⟨?_, fun _ _ => trivial⟩
  change if (s.rxRing.write (le32 (UInt32.ofNat m.length))).2 = 0 then _ else
    m.length ≤ (s.rxRing.write (le32 (UInt32.ofNat m.length))).1.freeSpace
  rw [if_neg hwritten, RingBuffer.freeSpace_eq, hcontents, List.length_append, length_le32]
  omega

theorem whole_forward (s : RxPath) : Throughout step Whole s forwardEvents :=
  ⟨trivial, fun _ _ => ⟨trivial, fun _ _ => ⟨trivial, fun _ _ => ⟨trivial, fun _ _ =>
    ⟨trivial, fun _ _ => trivial⟩⟩⟩⟩⟩

/-! ## Integrity -/

/-- As long as ring writes are whole and no wait for a payload times out, the
application receives messages that were received, each whole and in order. -/
theorem run_sublist (ring : RingBuffer ringSize) (hring : ring.contents = []) (es : List Event)
    (s : RxPath) (hrun : run step (init ring) es = some s)
    (hwhole : Throughout step Whole (init ring) es) : s.app.Sublist s.received := by
  obtain ⟨taken, pre, queue, coming, owed, -, -, -, -, hsub⟩ :=
    run_invariant framed_step (framed_init hring) hwhole hrun
  exact (List.sublist_append_left _ _).trans hsub

/-- One message, written and forwarded. -/
theorem run_sublist_one :
    ∃ s, run step (init freshRing) (receiveEvents [7] ++ forwardEvents) = some s ∧
      s.app = [[7]] ∧ s.app.Sublist s.received := by
  have hm : IsMessage [7] := by decide
  have hfits : (init freshRing).rxRing.contents.length + (message [7]).length ≤ ringSize := by
    rw [rxRing_init, contents_freshRing]
    decide
  obtain ⟨s, run₁, act₁, -, pc₁, app₁, -, ring₁⟩ :=
    run_receive_fits (s := init freshRing) hm rfl rfl hfits
  rw [rxRing_init, contents_freshRing, List.nil_append, ← List.append_nil (message [7])] at ring₁
  obtain ⟨t, run₂, -, -, -, app₂, -, -⟩ := run_forward hm act₁ pc₁ ring₁
  refine ⟨t, run_trans run₁ run₂, ?_, ?_⟩
  · rw [app₂, app₁]
    rfl
  · exact run_sublist freshRing contents_freshRing _ t (run_trans run₁ run₂)
      (throughout_append (whole_receive hm rfl rfl hfits) fun u _ => whole_forward u)

/-! ## A ring that is nearly full -/

/-- A payload of four megabytes. -/
def bigPayload : List UInt8 := List.replicate maxFrameSize 1

/-- A payload of twelve bytes. -/
def smallPayload : List UInt8 := List.replicate 12 2

theorem length_bigPayload : bigPayload.length = maxFrameSize := List.length_replicate

/-- The small payload completes the big one that was cut. -/
def mergedPayload : List UInt8 :=
  bigPayload.take (maxFrameSize - 16) ++ message smallPayload

theorem length_mergedPayload : mergedPayload.length = maxFrameSize := by
  rw [mergedPayload, List.length_append, List.length_take, length_bigPayload]
  rfl

theorem message_mergedPayload : message mergedPayload =
    le32 (UInt32.ofNat bigPayload.length) ++ bigPayload.take (maxFrameSize - 16) ++
      message smallPayload := by
  rw [message, length_mergedPayload, length_bigPayload, mergedPayload, List.append_assoc]

theorem merged_not_received :
    ¬ [bigPayload, bigPayload, bigPayload, mergedPayload].Sublist
      [bigPayload, bigPayload, bigPayload, bigPayload, smallPayload] := by
  have htwo : (2 : UInt8) ∈ mergedPayload :=
    List.mem_append_right _ (by decide)
  have hone : (1 : UInt8) ∈ mergedPayload := by
    refine List.mem_append_left _ ?_
    rw [bigPayload, List.take_replicate]
    exact List.mem_replicate.mpr ⟨by decide, rfl⟩
  have hbig : mergedPayload ≠ bigPayload := by
    intro h
    rw [h] at htwo
    exact absurd (List.eq_of_mem_replicate htwo) (by decide)
  have hsmall : mergedPayload ≠ smallPayload := by
    intro h
    rw [h] at hone
    exact absurd (List.eq_of_mem_replicate hone) (by decide)
  intro h
  have hmem := h.subset (show mergedPayload ∈ _ by simp)
  simp [hbig, hsmall] at hmem

/-- Four payloads of four megabytes do not fit in the ring, and the last one is
cut.  Once one of them is forwarded, a small one goes in behind it, and the
application receives the two as one. -/
theorem run_sublist_full :
    ∃ es s, run step (init freshRing) es = some s ∧ ¬ s.app.Sublist s.received := by
  have hbig : IsMessage bigPayload := by
    rw [IsMessage, length_bigPayload]
    decide
  have hmerged : IsMessage mergedPayload := by
    rw [IsMessage, length_mergedPayload]
    decide
  have hsmall : IsMessage smallPayload := by decide
  have hB : (message bigPayload).length = maxFrameSize + 4 := by
    rw [message, List.length_append, length_le32, length_bigPayload, Nat.add_comm]
  have hS : (message smallPayload).length = 16 := rfl
  have hT : (bigPayload.take (maxFrameSize - 16)).length = maxFrameSize - 16 := by
    rw [List.length_take, length_bigPayload]
    omega
  have hroom : 4 * maxFrameSize = ringSize := by decide
  have hmin : 16 ≤ maxFrameSize := by decide
  obtain ⟨s₁, run₁, act₁, pend₁, pc₁, app₁, rec₁, ring₁⟩ :=
    run_receive_fits (s := init freshRing) hbig rfl rfl (by
      rw [rxRing_init, contents_freshRing, hB, List.length_nil]
      omega)
  have hc₁ : s₁.rxRing.contents = message bigPayload := by
    rw [ring₁, rxRing_init, contents_freshRing, List.nil_append]
  obtain ⟨s₂, run₂, act₂, pend₂, pc₂, app₂, rec₂, ring₂⟩ :=
    run_receive_fits hbig act₁ pend₁ (by rw [hc₁, hB]; omega)
  obtain ⟨s₃, run₃, act₃, pend₃, pc₃, app₃, rec₃, ring₃⟩ :=
    run_receive_fits hbig act₂ pend₂ (by rw [ring₂, hc₁, List.length_append, hB]; omega)
  obtain ⟨s₄, run₄, act₄, pend₄, pc₄, app₄, rec₄, ring₄⟩ :=
    run_receive_cut (n := maxFrameSize - 16) hbig act₃ pend₃
      (by rw [ring₃, ring₂, hc₁, List.length_append, List.length_append, hB]; omega)
      (by rw [length_bigPayload]; omega)
  rw [ring₃, ring₂, hc₁, List.append_assoc, List.append_assoc] at ring₄
  -- one message is forwarded
  obtain ⟨s₅, run₅, act₅, pend₅, pc₅, app₅, rec₅, ring₅⟩ :=
    run_forward hbig act₄ (by rw [pc₄, pc₃, pc₂, pc₁]; rfl) ring₄
  have hlen₅ : s₅.rxRing.contents.length + (message smallPayload).length ≤ ringSize := by
    rw [ring₅, hS, List.length_append, List.length_append, List.length_append, hB, length_le32,
      hT]
    omega
  obtain ⟨s₆, run₆, act₆, pend₆, pc₆, app₆, rec₆, ring₆⟩ :=
    run_receive_fits hsmall act₅ (by rw [pend₅, pend₄]) hlen₅
  have hc₆ : s₆.rxRing.contents =
      message bigPayload ++ (message bigPayload ++ (message mergedPayload ++ [])) := by
    rw [ring₆, ring₅, message_mergedPayload]
    simp only [List.append_assoc, List.append_nil]
  obtain ⟨s₇, run₇, act₇, pend₇, pc₇, app₇, rec₇, ring₇⟩ :=
    run_forward hbig act₆ (by rw [pc₆, pc₅]) hc₆
  obtain ⟨s₈, run₈, act₈, pend₈, pc₈, app₈, rec₈, ring₈⟩ := run_forward hbig act₇ pc₇ ring₇
  obtain ⟨s₉, run₉, act₉, pend₉, pc₉, app₉, rec₉, ring₉⟩ := run_forward hmerged act₈ pc₈ ring₈
  refine ⟨_, s₉, run_trans run₁ (run_trans run₂ (run_trans run₃ (run_trans run₄ (run_trans run₅
    (run_trans run₆ (run_trans run₇ (run_trans run₈ run₉))))))), ?_⟩
  rw [app₉, app₈, app₇, app₆, app₅, app₄, app₃, app₂, app₁, rec₉, rec₈, rec₇, rec₆, rec₅, rec₄,
    rec₃, rec₂, rec₁]
  exact merged_not_received

end RxPath

end MFoES.Usbd
