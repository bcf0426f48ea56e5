import MFoES.Northbridge.Request

/-!
# Replies and the calls they answer

A reply carries a type and no number, and `parse` hands it to whatever call waits for
that type.  So a reply must be `InTime`: it comes while the call that sent the frame it
answers still waits.  Where all replies of a run are in time, `request` returns answers
to its own frames, and `on_frame_` sees no reply (`replies_matched`).  A reply that comes
later goes to the next call of the type, or to `on_frame_` (`stale_not_matched`).

The invariant has a part for the caller (`Waiting`), one for the frames and messages on
their way (`Flow`) and one for what has come out (`Clean`).  Most events touch one part
only, and leave the others `Aside`.
-/

namespace MFoES.Northbridge

/-! ## Content of frames -/

theorem putFrame_take (magic type len flags : UInt8) (payload : List UInt8) :
    putFrame magic type len flags payload =
      putFrame magic type len flags (payload.take len.toNat) := by
  have hcopy : ∀ dst : RawFrame,
      memcpy dst 4 payload len.toNat = memcpy dst 4 (payload.take len.toNat) len.toNat := by
    intro dst
    ext i hi
    rw [getElem_memcpy, getElem_memcpy]
    split_ifs with hin
    · have hlt : i - 4 < len.toNat := by omega
      simp [List.getD_eq_getElem?_getD, hlt]
    · rfl
  simp only [putFrame, putFields, hcopy]

/-- The bytes in use of what a reader copies out. -/
theorem take_payloadOf (magic type flags : UInt8) {len : UInt8} {payload : List UInt8}
    (hlen : len.toNat ≤ 58) (hpay : len.toNat ≤ payload.length) :
    (payloadOf (putFrame magic type len flags payload)).toList.take len.toNat =
      payload.take len.toNat := by
  have hcount : (payload.take len.toNat).length = len.toNat := by simp [hpay]
  have hread := payloadOf_putFrame magic type flags (hcount.trans_le hlen)
  rw [hcount, UInt8.ofNat_toNat] at hread
  rw [putFrame_take, hread, List.take_left' hcount]

/-- The firmware takes a frame as the host sent it. -/
theorem message_wire {f : Link.Frame} {more : Bool} {msg : Dspi.DspiMsg}
    (h : Dspi.validate (Link.wire f more) = .message msg) :
    msg.type = f.type ∧ msg.data = f.data ∧ msg.len.toNat ≤ 58 := by
  obtain ⟨-, htype, hlen, -⟩ := getElem_putFrame Link.kMagic f.type f.len
    (if more then Link.kFlagMore else 0) f.payload.toList
  rw [Dspi.validate] at h
  split_ifs at h with hhead hcrc hidle
  obtain rfl := Dspi.Landed.message.inj h
  have hle : f.len.toNat ≤ 58 := by
    have hbound := hhead.2
    rw [Link.wire, Link.buildFrame, hlen] at hbound
    exact hbound
  refine ⟨htype, ?_, hhead.2⟩
  simp only [Dspi.DspiMsg.data, Link.Frame.data, Link.wire, Link.buildFrame]
  rw [hlen]
  exact take_payloadOf _ _ _ hle (by simpa using hle)

/-- `MORE` is another bit than `REPLY`. -/
theorem reply_or (flags : UInt8) (more : Bool) :
    (flags ||| if more then Dspi.dspiFlagMore else 0) &&& Link.kFlagReply =
      flags &&& Dspi.dspiFlagReply := by
  have hmore : (if more then Dspi.dspiFlagMore else 0) &&& Link.kFlagReply = 0 := by
    cases more with
    | false => decide
    | true => decide
  apply UInt8.toBitVec_inj.mp
  have hbits := UInt8.toBitVec_inj.mpr hmore
  rw [UInt8.toBitVec_and] at hbits
  rw [UInt8.toBitVec_and, UInt8.toBitVec_or, BitVec.and_or_distrib_right, hbits]
  simp [Link.kFlagReply, Dspi.dspiFlagReply]

/-- The host takes a frame as the firmware sent it. -/
theorem frame_buildFrame {msg : Dspi.DspiMsg} {more peerMore : Bool} {f : Link.Frame}
    (h : Link.parse (Dspi.buildFrame msg.type msg.payload.toList msg.len more msg.flags) =
      .frame peerMore f) :
    f.type = msg.type ∧ f.data = msg.data ∧
      f.flags &&& Link.kFlagReply = msg.flags &&& Dspi.dspiFlagReply := by
  obtain ⟨-, htype, hlen, hflags⟩ := getElem_putFrame Dspi.dspiMagic msg.type msg.len
    (msg.flags ||| if more then Dspi.dspiFlagMore else 0) msg.payload.toList
  rw [Link.parse] at h
  split_ifs at h with hhead hblank hcrc hidle
  obtain ⟨-, rfl⟩ := Link.Parsed.frame.inj h
  have hle : msg.len.toNat ≤ 58 := by
    rw [not_or, Nat.not_lt, Dspi.buildFrame, hlen] at hhead
    exact hhead.2
  refine ⟨htype, ?_, ?_⟩
  · simp only [Dspi.DspiMsg.data, Link.Frame.data, Dspi.buildFrame]
    rw [hlen]
    exact take_payloadOf _ _ _ hle (by simpa using hle)
  · simp only [Dspi.buildFrame]
    rw [hflags]
    exact reply_or msg.flags more

theorem data_msgOf (type : UInt8) {payload : List UInt8} (flags : UInt8)
    (h : payload.length ≤ Dspi.dspiPayloadMax) :
    (Dspi.msgOf type payload payload.length flags).data = payload := by
  have hlen : (UInt8.ofNat payload.length).toNat = payload.length :=
    UInt8.toNat_ofNat_of_lt' (Nat.lt_of_le_of_lt h (by decide))
  rw [Dspi.dspiPayloadMax] at h
  refine List.ext_getElem (by simp [Dspi.DspiMsg.data, Dspi.msgOf, hlen, h]) fun i h₁ h₂ => ?_
  simp [Dspi.DspiMsg.data, Dspi.msgOf, h₂]

/-- A ping comes back as it was. -/
theorem onPing_data {W : Type} (req : Dspi.DspiMsg) (w : W) (h : req.len.toNat ≤ 58) :
    (Dspi.onPing req w).data = req.data := by
  have hfits : Dspi.DspiReply.empty.data.length + req.len.toNat ≤ Dspi.dspiPayloadMax := by
    simpa [Dspi.DspiReply.empty, Dspi.dspiPayloadMax] using h
  rw [Dspi.onPing, Dspi.DspiReply.write, dif_pos hfits]
  rfl

/-! ## Invariant -/

namespace Request

open Link Dspi Transition

variable {W : Type} {b : Bindings W} {s t : System}

/-- A reply that a handler gave to a frame with this content. -/
def Answers (b : Bindings W) (request reply : Frame) : Prop :=
  reply.type = request.type ∧ ∃ fn msg w, b.binding request.type = some fn ∧
    msg.type = request.type ∧ msg.data = request.data ∧ msg.len.toNat ≤ 58 ∧
    reply.data = (fn msg w).data

/-- What the caller of `request` was promised. -/
def Returned.Matched (b : Bindings W) (r : Returned) : Prop :=
  r.origin = some ⟨r.request, some r.call⟩ ∧ Answers b r.request r.reply

/-- A message with the content of the host's frame. -/
def Arrived.Faithful (a : Arrived) : Prop :=
  a.msg.type = a.sent.frame.type ∧ a.msg.data = a.sent.frame.data ∧ a.msg.len.toNat ≤ 58

/-- A message with the `REPLY` flag answers a frame, and one without answers none. -/
def Answer.Faithful (b : Bindings W) (o : Answer) : Prop :=
  match o.origin with
  | none => o.msg.flags &&& dspiFlagReply = 0
  | some x => o.msg.type = x.frame.type ∧ ∃ fn msg w, b.binding x.frame.type = some fn ∧
      msg.type = x.frame.type ∧ msg.data = x.frame.data ∧ msg.len.toNat ≤ 58 ∧
      o.msg.data = (fn msg w).data

/-- Between the two critical sections of an attempt. -/
def Pc.Inside : Pc → Prop
  | .armed _ => True
  | .refused => True
  | .waiting _ => True
  | .idle => False
  | .loop _ => False

/-- The frame of the host that a round has to do with. -/
def Round.sent : Round → List Sent
  | .clocking (some (x, _)) => [x]
  | .clocking none => []
  | .landed _ (some x) => [x]
  | .landed _ none => []
  | .between => []

/-- A call is not over before it began, and sends one frame only. -/
def System.Known (s : System) (x : Sent) : Prop :=
  ∀ c, x.call = some c → c ≤ s.call ∧ (c = s.call → x.frame = s.args.frame)

/-- The critical sections of `request`. -/
structure Waiting (b : Bindings W) (s : System) : Prop where
  inside : s.awaiting = true ↔ s.pc.Inside
  type : s.awaiting = true → s.pendingType = s.args.type
  pending : s.awaiting = true → s.haveReply = true →
    Returned.Matched b ⟨s.call, s.args.frame, s.pendingReply, s.pendingOrigin⟩

/-- What is on its way. -/
structure Flow (b : Bindings W) (s : System) : Prop where
  queue : ∀ x ∈ s.tx.txQueue, s.Known x
  round : ∀ x ∈ s.round.sent, s.Known x
  inbox : ∀ a ∈ s.inbox, a.Faithful ∧ s.Known a.sent
  handling : ∀ a ∈ s.handling, a.Faithful ∧ s.Known a.sent
  outbox : ∀ o ∈ s.outbox, o.Faithful b ∧ ∀ x ∈ o.origin, s.Known x
  landed : ∀ raw origin, s.round = .landed raw origin → ∃ msg more,
    raw = buildFrame msg.type msg.payload.toList msg.len more msg.flags ∧
      Answer.Faithful b ⟨msg, origin⟩

/-- What has come out. -/
structure Clean (b : Bindings W) (s : System) : Prop where
  returned : ∀ r ∈ s.returned, r.Matched b
  onFrame : ∀ f ∈ s.onFrame, f.flags &&& kFlagReply = 0

/-- A reply comes while the call that it answers waits for it. -/
def InTime (s : System) : Event W → Prop
  | .parse => ∀ raw origin peerMore f, s.round = .landed raw origin →
      Link.parse raw = .frame peerMore f → f.flags &&& kFlagReply ≠ 0 →
      s.awaiting = true ∧ ∃ x, origin = some x ∧ x.call = some s.call
  | _ => True

/-! ## Steps of the caller -/

theorem Waiting.attempt (h : Waiting b s) {attempt : Nat} (hpc : s.pc = .loop attempt) :
    Waiting b (s.attempt attempt) := by
  have hout : s.awaiting = false := by
    rw [Bool.eq_false_iff, Ne, h.inside, hpc]
    exact id
  rw [System.attempt]
  split_ifs with hloop
  · exact ⟨by simp [Pc.Inside], fun _ => rfl, by simp⟩
  · exact ⟨by simp [hout, Pc.Inside], h.type, h.pending⟩

theorem Waiting.queue (h : Waiting b s) (txQueueDepth : Nat) {attempt : Nat}
    (hpc : s.pc = .armed attempt) : Waiting b (s.queue txQueueDepth attempt) := by
  have hin : s.awaiting = true := h.inside.mpr (by rw [hpc]; trivial)
  refine ⟨?_, h.type, h.pending⟩
  simp only [System.queue, hin, true_iff]
  split_ifs <;> trivial

theorem waiting_wake (attempt : Nat) : Waiting b (s.wake attempt) := by
  rw [System.wake]
  split
  next hreply => exact ⟨by simp [Pc.Inside], by simp, by simp⟩
  next hreply => exact ⟨by simp [Pc.Inside], by simp, by simp⟩

theorem Clean.wake (h : Clean b s) (hwait : Waiting b s) {attempt : Nat}
    (hpc : s.pc = .waiting attempt) : Clean b (s.wake attempt) := by
  have hin : s.awaiting = true := hwait.inside.mpr (by rw [hpc]; trivial)
  rw [System.wake]
  split
  next hreply =>
    refine ⟨?_, h.onFrame⟩
    intro r hr
    rcases List.mem_append.mp hr with hold | hnew
    · exact h.returned r hold
    · rw [List.mem_singleton] at hnew
      subst hnew
      exact hwait.pending hin hreply
  next hreply => exact ⟨h.returned, h.onFrame⟩

/-! ## Steps of frames -/

/-- The next call knows what the last one did. -/
theorem System.Known.call {x : Sent} (h : s.Known x) (args : Args) :
    System.Known { s with args, call := s.call + 1, pc := .loop 0 } x := by
  intro c hc
  have hle := (h c hc).1
  refine ⟨Nat.le_succ_of_le hle, ?_⟩
  intro heq
  rw [heq] at hle
  exact absurd hle (Nat.not_succ_le_self s.call)

theorem Flow.call (h : Flow b s) (args : Args) :
    Flow b { s with args, call := s.call + 1, pc := .loop 0 } where
  queue x hx := (h.queue x hx).call args
  round x hx := (h.round x hx).call args
  inbox a ha := ⟨(h.inbox a ha).1, (h.inbox a ha).2.call args⟩
  handling a ha := ⟨(h.handling a ha).1, (h.handling a ha).2.call args⟩
  outbox o ho := ⟨(h.outbox o ho).1, fun x hx => ((h.outbox o ho).2 x hx).call args⟩
  landed := h.landed

/-- `send` puts one frame on the queue at most. -/
theorem mem_send {txQueueDepth : Nat} {tx : Tx Sent} {note : Frame → Sent} {type : UInt8}
    {data : Option (List UInt8)} {len : Nat} {x : Sent}
    (h : x ∈ (tx.send txQueueDepth note type data len).2.txQueue) :
    x ∈ tx.txQueue ∨ x = note (frameOf type data len) := by
  rw [Tx.send_queue, List.mem_append] at h
  rcases h with hold | hnew
  · exact Or.inl hold
  · split_ifs at hnew
    · exact Or.inr (List.mem_singleton.mp hnew)
    · exact absurd hnew List.not_mem_nil

theorem Flow.enqueue (h : Flow b s) (txQueueDepth attempt : Nat) :
    Flow b (s.queue txQueueDepth attempt) := by
  refine { h with queue := ?_ }
  intro x hx
  rcases mem_send hx with hold | rfl
  · exact h.queue x hold
  · intro c hc
    cases hc
    exact ⟨Nat.le_refl _, fun _ => rfl⟩

theorem Flow.send (h : Flow b s) (txQueueDepth : Nat) (type : UInt8)
    (data : Option (List UInt8)) (len : Nat) :
    Flow b { s with tx := (s.tx.send txQueueDepth (⟨·, none⟩) type data len).2 } := by
  refine { h with queue := ?_ }
  intro x hx
  rcases mem_send hx with hold | rfl
  · exact h.queue x hold
  · intro c hc
    cases hc

theorem Flow.between (h : Flow b s) : Flow b { s with round := .between } :=
  { h with round := by simp [Round.sent], landed := by simp }

theorem Flow.pop (h : Flow b s) {txQueueDepth : Nat}
    (hstep : s.step txQueueDepth b .pop = some t) : Flow b t := by
  rw [System.step] at hstep
  cases hround : s.round with
  | clocking outgoing =>
      rw [hround] at hstep
      cases hstep
  | landed raw origin =>
      rw [hround] at hstep
      cases hstep
  | between =>
      rw [hround] at hstep
      cases hqueue : s.tx.txQueue with
      | nil =>
          simp only [Tx.popTx, hqueue] at hstep
          cases hstep
          exact { h with round := by simp [Round.sent], landed := by simp }
      | cons y queue =>
          simp only [Tx.popTx, hqueue] at hstep
          cases hstep
          have hall := h.queue
          rw [hqueue] at hall
          refine { h with queue := ?_, round := ?_, landed := by simp }
          · intro x hx
            exact hall x (List.mem_cons_of_mem y hx)
          · intro x hx
            simp only [Round.sent, List.mem_singleton] at hx
            exact hall x (hx ▸ List.mem_cons_self)

/-- What the interrupt handler takes has the content of the frame. -/
theorem Flow.land (h : Flow b s) {outgoing : Option (Sent × Bool)}
    (hround : s.round = .clocking outgoing) : Flow b (s.land outgoing) := by
  cases outgoing with
  | none => exact h
  | some popped =>
      obtain ⟨y, more⟩ := popped
      rw [System.land]
      cases hval : validate (wire y.frame more) with
      | idle => exact h
      | crcError => exact h
      | zero => exact h
      | message msg =>
          refine { h with inbox := ?_ }
          intro a ha
          rcases List.mem_append.mp ha with hold | hnew
          · exact h.inbox a hold
          · rw [List.mem_singleton] at hnew
            subst hnew
            exact ⟨message_wire hval, h.round y (by simp [hround, Round.sent])⟩

theorem Flow.clockUp (h : Flow b s) {up : Upward} (hstep : s.clockUp up = some t) : Flow b t := by
  cases up with
  | idle =>
      cases hstep
      exact h.between
  | frame more =>
      rw [System.clockUp] at hstep
      cases hout : s.outbox with
      | nil =>
          rw [hout] at hstep
          cases hstep
      | cons o outbox =>
          rw [hout] at hstep
          cases hstep
          have hall := h.outbox
          rw [hout] at hall
          have hfirst := hall o List.mem_cons_self
          refine { h with round := ?_, outbox := ?_, landed := ?_ }
          · intro x hx
            cases horigin : o.origin with
            | none => simp [Round.sent, horigin] at hx
            | some y =>
                simp only [Round.sent, horigin, List.mem_singleton] at hx
                rw [hx]
                exact hfirst.2 y horigin
          · intro o' ho'
            exact hall o' (List.mem_cons_of_mem o ho')
          · intro raw origin hround
            obtain ⟨hraw, horigin⟩ := Round.landed.inj hround
            exact ⟨o.msg, more, hraw.symm, horigin ▸ hfirst.1⟩
  | lost =>
      rw [System.clockUp] at hstep
      cases hout : s.outbox with
      | nil =>
          rw [hout] at hstep
          cases hstep
      | cons o outbox =>
          rw [hout] at hstep
          cases hstep
          have hall := h.outbox
          rw [hout] at hall
          exact { h.between with outbox := fun o' ho' => hall o' (List.mem_cons_of_mem o ho') }

theorem Flow.receive (h : Flow b s) {a : Arrived} {inbox : List Arrived}
    (hin : s.inbox = a :: inbox) : Flow b (s.receive a inbox) := by
  have hall := h.inbox
  rw [hin] at hall
  have hrest : ∀ a' ∈ inbox, a'.Faithful ∧ s.Known a'.sent := by
    intro a' ha'
    exact hall a' (List.mem_cons_of_mem a ha')
  rw [System.receive]
  split_ifs with hreply
  · exact { h with inbox := hrest }
  · refine { h with inbox := hrest, handling := ?_ }
    intro a' ha'
    obtain rfl := Option.some.inj ha'
    exact hall a List.mem_cons_self

theorem Flow.dspiSend (h : Flow b s) {type : UInt8} {payload : List UInt8} {flags : UInt8}
    {origin : Option Sent} (room : Bool)
    (hnew : payload.length ≤ dspiPayloadMax →
      Answer.Faithful b ⟨msgOf type payload payload.length flags, origin⟩)
    (hknown : ∀ x ∈ origin, s.Known x) : Flow b (s.dspiSend type payload flags origin room) := by
  rw [System.dspiSend]
  split_ifs with hfull
  · exact h
  · rw [not_or, Nat.not_lt] at hfull
    refine { h with outbox := ?_ }
    intro o ho
    rcases List.mem_append.mp ho with hold | hlast
    · exact h.outbox o hold
    · rw [List.mem_singleton] at hlast
      subst hlast
      exact ⟨hnew hfull.1, hknown⟩

/-- The answer is what the handler wrote. -/
theorem Flow.handle (h : Flow b s) {a : Arrived} (ha : s.handling = some a) (w : W)
    (room : Bool) : Flow b (s.handle b a w room) := by
  obtain ⟨⟨htype, hdata, hlen⟩, hknown⟩ := h.handling a ha
  rw [System.handle]
  cases hfn : b.binding a.msg.type with
  | none => exact { h with handling := by simp }
  | some fn =>
      have hidle : Flow b { s with handling := none, handled := s.handled + 1 } :=
        { h with handling := by simp }
      dsimp only
      split_ifs with hwrote
      · refine hidle.dspiSend room ?_ ?_
        · intro hfits
          exact ⟨htype, fn, a.msg, w, htype ▸ hfn, htype, hdata, hlen, data_msgOf _ _ hfits⟩
        · intro x hx
          obtain rfl := Option.some.inj hx
          exact hknown
      · exact hidle

/-! ## Steps of replies -/

theorem Flow.parse (h : Flow b s) (raw : RawFrame) (origin : Option Sent) :
    Flow b (s.parse raw origin) := by
  rw [System.parse]
  cases hparse : Link.parse raw with
  | blank => exact h.between
  | crcError => exact h.between
  | idle peerMore => exact h.between
  | frame peerMore f =>
      simp only [System.deliver]
      split_ifs with hreply
      · exact { h.between with }
      · exact { h.between with }

/-- A reply in time is what the call was promised. -/
theorem matched_of_inTime (hflow : Flow b s) {raw : RawFrame} {origin : Option Sent}
    {peerMore : Bool} {f : Frame} (hround : s.round = .landed raw origin)
    (hparse : Link.parse raw = .frame peerMore f)
    (hcall : ∃ x, origin = some x ∧ x.call = some s.call) :
    f.type = s.args.type ∧ Returned.Matched b ⟨s.call, s.args.frame, f, origin⟩ := by
  obtain ⟨msg, more, rfl, hfaith⟩ := hflow.landed raw origin hround
  obtain ⟨htype, hdata, -⟩ := frame_buildFrame hparse
  obtain ⟨x, rfl, hxcall⟩ := hcall
  have hframe : x.frame = s.args.frame :=
    (hflow.round x (by simp [hround, Round.sent]) s.call hxcall).2 rfl
  obtain ⟨hmsg, fn, req, w, hfn, hreq, hreqdata, hlen, hans⟩ := hfaith
  rw [hframe] at hmsg hfn hreq hreqdata
  refine ⟨htype.trans hmsg, ?_, htype.trans hmsg, fn, req, w, hfn, hreq, hreqdata, hlen, ?_⟩
  · rw [← hframe, ← hxcall]
  · exact hdata.trans hans

theorem Waiting.parse (h : Waiting b s) (hflow : Flow b s) (htime : InTime (W := W) s .parse)
    {raw : RawFrame} {origin : Option Sent} (hround : s.round = .landed raw origin) :
    Waiting b (s.parse raw origin) := by
  rw [System.parse]
  cases hparse : Link.parse raw with
  | blank => exact { h with }
  | crcError => exact { h with }
  | idle peerMore => exact { h with }
  | frame peerMore f =>
      simp only [System.deliver]
      split_ifs with hreply
      · obtain ⟨-, hcall⟩ := htime raw origin peerMore f hround hparse hreply.1
        exact { h with pending := fun _ _ => (matched_of_inTime hflow hround hparse hcall).2 }
      · exact { h with }

theorem Clean.parse (h : Clean b s) (hwait : Waiting b s) (hflow : Flow b s)
    (htime : InTime (W := W) s .parse) {raw : RawFrame} {origin : Option Sent}
    (hround : s.round = .landed raw origin) : Clean b (s.parse raw origin) := by
  rw [System.parse]
  cases hparse : Link.parse raw with
  | blank => exact { h with }
  | crcError => exact { h with }
  | idle peerMore => exact { h with }
  | frame peerMore f =>
      simp only [System.deliver]
      split_ifs with hreply
      · exact { h with }
      · refine { h with onFrame := ?_ }
        intro f' hf'
        rcases List.mem_append.mp hf' with hold | hnew
        · exact h.onFrame f' hold
        · rw [List.mem_singleton] at hnew
          subst hnew
          by_contra hflag
          obtain ⟨hwaits, hcall⟩ := htime raw origin peerMore f' hround hparse hflag
          have htype := (matched_of_inTime hflow hround hparse hcall).1
          exact hreply ⟨hflag, hwaits, (hwait.type hwaits).trans htype.symm⟩

/-! ## Steps beside the caller -/

/-- The fields that `request` and `on_frame_` see. -/
structure Aside (s t : System) : Prop where
  args : t.args = s.args
  call : t.call = s.call
  pc : t.pc = s.pc
  pendingType : t.pendingType = s.pendingType
  awaiting : t.awaiting = s.awaiting
  haveReply : t.haveReply = s.haveReply
  pendingReply : t.pendingReply = s.pendingReply
  pendingOrigin : t.pendingOrigin = s.pendingOrigin
  onFrame : t.onFrame = s.onFrame
  returned : t.returned = s.returned

theorem Aside.refl (s : System) : Aside s s := ⟨rfl, rfl, rfl, rfl, rfl, rfl, rfl, rfl, rfl, rfl⟩

theorem Waiting.aside (h : Waiting b s) (hst : Aside s t) : Waiting b t where
  inside := by
    rw [hst.awaiting, hst.pc]
    exact h.inside
  type := by
    rw [hst.awaiting, hst.pendingType, hst.args]
    exact h.type
  pending := by
    rw [hst.awaiting, hst.haveReply, hst.call, hst.args, hst.pendingReply, hst.pendingOrigin]
    exact h.pending

theorem Clean.aside (h : Clean b s) (hst : Aside s t) : Clean b t where
  returned := by
    rw [hst.returned]
    exact h.returned
  onFrame := by
    rw [hst.onFrame]
    exact h.onFrame

theorem aside_pop {txQueueDepth : Nat} (hstep : s.step txQueueDepth b .pop = some t) :
    Aside s t := by
  rw [System.step] at hstep
  split at hstep
  next hround =>
    split at hstep
    next outgoing tx hpop =>
      cases hstep
      exact { Aside.refl s with }
    next hpop =>
      cases hstep
      exact { Aside.refl s with }
  next => cases hstep

theorem aside_land (s : System) (outgoing : Option (Sent × Bool)) : Aside s (s.land outgoing) := by
  cases outgoing with
  | none => exact Aside.refl s
  | some popped =>
      obtain ⟨y, more⟩ := popped
      rw [System.land]
      cases validate (wire y.frame more) with
      | idle => exact Aside.refl s
      | crcError => exact Aside.refl s
      | zero => exact Aside.refl s
      | message msg => exact { Aside.refl s with }

theorem Aside.clockUp {u : System} (h : Aside s t) {up : Upward} (hstep : t.clockUp up = some u) :
    Aside s u := by
  cases up with
  | idle =>
      cases hstep
      exact { h with }
  | frame more =>
      rw [System.clockUp] at hstep
      split at hstep
      next => cases hstep
      next o outbox hout =>
        cases hstep
        exact { h with }
  | lost =>
      rw [System.clockUp] at hstep
      split at hstep
      next => cases hstep
      next o outbox hout =>
        cases hstep
        exact { h with }

theorem aside_receive (s : System) (a : Arrived) (inbox : List Arrived) :
    Aside s (s.receive a inbox) := by
  rw [System.receive]
  split
  next => exact { Aside.refl s with }
  next => exact { Aside.refl s with }

theorem Aside.dspiSend (h : Aside s t) (type : UInt8) (payload : List UInt8) (flags : UInt8)
    (origin : Option Sent) (room : Bool) : Aside s (t.dspiSend type payload flags origin room) := by
  rw [System.dspiSend]
  split
  next => exact h
  next => exact { h with }

theorem aside_handle (b : Bindings W) (s : System) (a : Arrived) (w : W) (room : Bool) :
    Aside s (s.handle b a w room) := by
  have hidle : Aside s { s with handling := none, handled := s.handled + 1 } :=
    { Aside.refl s with }
  rw [System.handle]
  split
  next => exact { Aside.refl s with }
  next fn hfn =>
    dsimp only
    split
    next => exact hidle.dspiSend _ _ _ _ _
    next => exact hidle

/-! ## Runs -/

/-- All that a run keeps. -/
structure Inv (b : Bindings W) (s : System) : Prop where
  waiting : Waiting b s
  flow : Flow b s
  clean : Clean b s

theorem inv_init : Inv b {} where
  waiting := ⟨by simp [Pc.Inside], by simp, by simp⟩
  flow := ⟨by simp, by simp [Round.sent], by simp, by simp, by simp, by simp⟩
  clean := ⟨by simp, by simp⟩

theorem Inv.step {txQueueDepth : Nat} {e : Event W} (h : Inv b s) (htime : InTime s e)
    (hstep : s.step txQueueDepth b e = some t) : Inv b t := by
  cases e with
  | call args =>
      rw [System.step] at hstep
      split at hstep
      next hpc =>
        cases hstep
        have hout : s.awaiting = false := by
          rw [Bool.eq_false_iff, Ne, h.waiting.inside, hpc]
          exact id
        exact ⟨⟨by simp [hout, Pc.Inside], by simp [hout], by simp [hout]⟩, h.flow.call args,
          { h.clean with }⟩
      next => cases hstep
  | attempt =>
      rw [System.step] at hstep
      split at hstep
      next attempt hpc =>
        cases hstep
        refine ⟨h.waiting.attempt hpc, ?_, ?_⟩
        · rw [System.attempt]
          split_ifs with hloop
          · exact { h.flow with }
          · exact { h.flow with }
        · rw [System.attempt]
          split_ifs with hloop
          · exact { h.clean with }
          · exact { h.clean with }
      next => cases hstep
  | queue =>
      rw [System.step] at hstep
      split at hstep
      next attempt hpc =>
        cases hstep
        exact ⟨h.waiting.queue txQueueDepth hpc, h.flow.enqueue txQueueDepth attempt,
          { h.clean with }⟩
      next => cases hstep
  | refuse =>
      rw [System.step] at hstep
      split at hstep
      next hpc =>
        cases hstep
        exact ⟨⟨by simp [Pc.Inside], by simp, by simp⟩, { h.flow with }, { h.clean with }⟩
      next => cases hstep
  | wake =>
      rw [System.step] at hstep
      split at hstep
      next attempt hpc =>
        cases hstep
        refine ⟨waiting_wake attempt, ?_, h.clean.wake h.waiting hpc⟩
        rw [System.wake]
        split
        next => exact { h.flow with }
        next => exact { h.flow with }
      next => cases hstep
  | send type data len =>
      cases hstep
      exact ⟨{ h.waiting with }, h.flow.send txQueueDepth type data len, { h.clean with }⟩
  | running value =>
      cases hstep
      exact ⟨{ h.waiting with }, { h.flow with }, { h.clean with }⟩
  | pop =>
      have haside := aside_pop hstep
      exact ⟨h.waiting.aside haside, h.flow.pop hstep, h.clean.aside haside⟩
  | transfer ok down up =>
      rw [System.step] at hstep
      split at hstep
      next outgoing hround =>
        cases ok with
        | false =>
            cases hstep
            exact ⟨{ h.waiting with }, h.flow.between, { h.clean with }⟩
        | true =>
            cases down with
            | false =>
                have haside := (Aside.refl s).clockUp hstep
                exact ⟨h.waiting.aside haside, h.flow.clockUp hstep, h.clean.aside haside⟩
            | true =>
                have haside := (aside_land s outgoing).clockUp hstep
                exact ⟨h.waiting.aside haside, (h.flow.land hround).clockUp hstep,
                  h.clean.aside haside⟩
      next => cases hstep
  | parse =>
      rw [System.step] at hstep
      split at hstep
      next raw origin hround =>
        cases hstep
        exact ⟨h.waiting.parse h.flow htime hround, h.flow.parse raw origin,
          h.clean.parse h.waiting h.flow htime hround⟩
      next => cases hstep
  | receive =>
      rw [System.step] at hstep
      split at hstep
      next a inbox hidle hin =>
        cases hstep
        have haside := aside_receive s a inbox
        exact ⟨h.waiting.aside haside, h.flow.receive hin, h.clean.aside haside⟩
      next => cases hstep
  | handle w room =>
      rw [System.step] at hstep
      split at hstep
      next a ha =>
        cases hstep
        have haside := aside_handle b s a w room
        exact ⟨h.waiting.aside haside, h.flow.handle ha w room, h.clean.aside haside⟩
      next => cases hstep
  | notify type payload room =>
      cases hstep
      have haside := (Aside.refl s).dspiSend type payload 0 none room
      refine ⟨h.waiting.aside haside, h.flow.dspiSend room ?_ ?_, h.clean.aside haside⟩
      · intro _
        exact UInt8.zero_and
      · intro x hx
        cases hx

/-- Where every reply is in time, a call returns the answer to a frame that it sent itself
(for a ping, with the payload it sent), and `on_frame_` gets no reply. -/
theorem replies_matched {txQueueDepth : Nat} (hping : b.find kTypePing = some onPing)
    {es : List (Event W)} (htime : Throughout (System.step txQueueDepth b) InTime {} es)
    (hrun : run (System.step txQueueDepth b) {} es = some s) :
    (∀ r ∈ s.returned, r.Matched b ∧ (r.request.type = kTypePing → r.reply.data = r.request.data)) ∧
      ∀ f ∈ s.onFrame, f.flags &&& kFlagReply = 0 := by
  have hinv : Inv b s := run_invariant (fun h ht hs => h.step ht hs) inv_init htime hrun
  refine ⟨?_, hinv.clean.onFrame⟩
  intro r hr
  have hmatched := hinv.clean.returned r hr
  refine ⟨hmatched, ?_⟩
  intro htype
  obtain ⟨-, -, fn, msg, w, hfn, -, hdata, hlen, hreply⟩ := hmatched
  rw [htype, Bindings.binding, hping] at hfn
  obtain rfl := Option.some.inj hfn
  rw [hreply, onPing_data msg w hlen, hdata]

/-- The handlers, as far as pings go. -/
def pingBindings : Bindings Unit where
  find type := if type = kTypePing then some onPing else none
  unknown := none

/-- A ping with a payload of one byte. -/
def pingOf (byte : UInt8) : List (Event Unit) :=
  [.call ⟨kTypePing, some [byte], 1, 1⟩, .attempt, .queue, .pop, .transfer true true .idle]

/-- The firmware answers a ping, and its answer is in the next exchange. -/
def answered : List (Event Unit) :=
  pingOf 1 ++ [.receive, .handle () true, .pop, .transfer true true (.frame false)]

/-- The first ping times out.  Its answer comes when the second one waits. -/
def stale : List (Event Unit) :=
  pingOf 1 ++ [.wake, .attempt, .receive, .handle () true] ++
    [.call ⟨kTypePing, some [2], 1, 1⟩, .attempt, .queue, .pop, .transfer true true (.frame false),
      .parse, .wake]

set_option maxRecDepth 20000 in
theorem run_answered : (run (System.step 64 pingBindings) {} answered).map (fun s =>
    (s.awaiting, s.round.sent.map Sent.call, s.call)) = some (true, [some 1], 1) := by
  decide +kernel

set_option maxRecDepth 20000 in
theorem run_stale : (run (System.step 64 pingBindings) {} stale).map (fun s =>
    s.returned.map fun r => (r.call, r.origin.bind Sent.call)) = some [(2, some 1)] := by
  decide +kernel

theorem answered_inTime :
    Throughout (System.step 64 pingBindings) InTime {} (answered ++ [.parse, .wake]) := by
  apply throughout_append
  · refine throughout_of_mem ?_ _
    intro e he s
    cases e with
    | parse => simp [answered, pingOf] at he
    | _ => trivial
  · intro s hs
    refine ⟨?_, fun t _ => ⟨trivial, fun u _ => trivial⟩⟩
    have hview := run_answered
    rw [hs, Option.map_some] at hview
    obtain ⟨hwaits, hview⟩ := Prod.mk.inj (Option.some.inj hview)
    obtain ⟨hsent, hcall⟩ := Prod.mk.inj hview
    intro raw origin peerMore f hround _ _
    refine ⟨hwaits, ?_⟩
    cases origin with
    | none => simp [hround, Round.sent] at hsent
    | some x =>
        simp only [hround, Round.sent, List.map_cons, List.map_nil, List.cons.injEq,
          and_true] at hsent
        exact ⟨x, rfl, by rw [hsent, hcall]⟩

set_option maxRecDepth 20000 in
theorem run_woken : (run (System.step 64 pingBindings) {} (answered ++ [.parse, .wake])).map
    (fun s => s.returned.length) = some 1 := by
  decide +kernel

/-- A ping and its answer. -/
theorem replies_matched_ping : ∃ s,
    run (System.step 64 pingBindings) {} (answered ++ [.parse, .wake]) = some s ∧
      s.returned.length = 1 ∧
      (∀ r ∈ s.returned, r.Matched pingBindings ∧
        (r.request.type = kTypePing → r.reply.data = r.request.data)) ∧
      ∀ f ∈ s.onFrame, f.flags &&& kFlagReply = 0 := by
  obtain ⟨s, hs, hlen⟩ := Option.map_eq_some_iff.mp run_woken
  exact ⟨s, hs, hlen, replies_matched rfl answered_inTime hs⟩

/-- A call returns the answer to the ping of the call before. -/
theorem stale_not_matched :
    ¬ ∀ (es : List (Event Unit)) (s : System),
      run (System.step 64 pingBindings) {} es = some s → ∀ r ∈ s.returned, r.Matched pingBindings := by
  intro h
  have hview := run_stale
  cases hs : run (System.step 64 pingBindings) {} stale with
  | none =>
      rw [hs] at hview
      cases hview
  | some s =>
      rw [hs, Option.map_some] at hview
      have hview := Option.some.inj hview
      cases hret : s.returned with
      | nil =>
          rw [hret] at hview
          cases hview
      | cons r rs =>
          rw [hret, List.map_cons] at hview
          obtain ⟨hcall, horigin⟩ := Prod.mk.inj (List.cons.inj hview).1
          obtain ⟨hmatched, -⟩ := h stale s hs r (by simp [hret])
          rw [hmatched, Option.bind_some] at horigin
          simp only at horigin
          rw [hcall] at horigin
          cases horigin

end Request

end MFoES.Northbridge
