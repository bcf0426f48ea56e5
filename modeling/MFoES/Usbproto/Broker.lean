import MFoES.Lib.Sweep
import MFoES.Usbproto.FrameParser

/-!
# Broker

The broker shares one USB link between the programs of a machine.  It relays the
frames of the device to its clients, and hands the frames of the clients to
`onClientFrame`.  `poll` and `broadcast` are its two operations; both walk the
list of clients and erase those that are lost.

A socket is named by the number of sockets that were accepted before it, so no
two connections share a name.  `select()`, `accept()`, `send()` and `recv()` give
what the environment chooses.  What the broker does is put out as a list of `Act`s,
and a run is a list of `Event`s.
-/

namespace MFoES.Usbproto

open Incremental Sweep

/-- What `send()` gives: the number of bytes taken, at most those offered, or an
error. -/
inductive SendResult where
  | took (n : Nat)
  | wouldBlock
  | error
deriving DecidableEq, Repr

/-- What `recv()` gives: bytes, none of them when the peer has closed, or an error. -/
inductive RecvResult where
  | bytes (bs : List UInt8)
  | wouldBlock
  | error
deriving DecidableEq, Repr

/-- What the broker does. -/
inductive Act where
  | accepted (sock : Nat)
  | sent (sock : Nat) (bs : List UInt8)
  | received (sock : Nat) (bs : List UInt8)
  /-- The parser of `sock` emits `f`, and `onClientFrame` gets `frame`. -/
  | injected (sock : Nat) (f : Frame) (frame : List UInt8)
  /-- `broadcast` is called with `frame`. -/
  | relayed (frame : List UInt8)
  /-- The client has fallen too far behind. -/
  | dropped (sock : Nat)
  | closed (sock : Nat)
deriving DecidableEq, Repr

/-- `Broker::Impl::Client`. -/
structure Client where
  sock : Nat
  /-- Client bytes → frames. -/
  parser : FrameParser
  /-- Pending, non-blocking. -/
  out : List UInt8
  /-- How much of `out` is sent. -/
  outPos : Nat
  outPos_le : outPos ≤ out.length

namespace Client

theorem outPos_fresh_le : 0 ≤ ([] : List UInt8).length := Nat.le_refl 0

/-- A client that has just been accepted. -/
def connected (sock : Nat) : Client := ⟨sock, .fresh, [], 0, outPos_fresh_le⟩

/-- The bytes that are queued and not sent. -/
def pending (c : Client) : List UInt8 := c.out.drop c.outPos

/-- `c.outPos += n`. -/
def advance (c : Client) (n : Nat) (h : n ≤ c.out.length - c.outPos) : Client :=
  { c with
    outPos := c.outPos + n
    outPos_le := by have := c.outPos_le; omega }

/-- `c.out.insert(c.out.end(), frame, frame + len)`. -/
def enqueue (c : Client) (frame : List UInt8) : Client :=
  { c with
    out := c.out ++ frame
    outPos_le := by rw [List.length_append]; exact Nat.le_add_right_of_le c.outPos_le }

/-- What `flush` does behind its loop: reclaim the sent prefix. -/
def reclaim (c : Client) : Client :=
  if c.outPos = c.out.length then { c with out := [], outPos := 0, outPos_le := outPos_fresh_le }
  else if 1024 * 1024 < c.outPos then
    { c with out := c.out.drop c.outPos, outPos := 0, outPos_le := Nat.zero_le _ }
  else c

/-- How much one `send()` takes of what is offered to it. -/
def taken (c : Client) (n : Nat) : Nat :=
  let remain := c.out.length - c.outPos
  min n (if 65536 < remain then 65536 else remain)

theorem taken_le (c : Client) (n : Nat) : c.taken n ≤ c.out.length - c.outPos := by
  simp only [taken]
  split <;> omega

/-- `Broker::Impl::flush`, with what it sends; no client when it is to be dropped.
Behind the results of the list the socket is full. -/
def flush (c : Client) : List SendResult → Option Client × List Act
  | [] => (some c.reclaim, [])
  | r :: rs =>
      if c.outPos < c.out.length then
        match r with
        | .took n =>
            if 0 < c.taken n then
              let t := (c.advance (c.taken n) (c.taken_le n)).flush rs
              (t.1, .sent c.sock (c.pending.take (c.taken n)) :: t.2)
            else (none, [])
        | .wouldBlock => (some c.reclaim, [])
        | .error => (none, [])
      else (some c.reclaim, [])

/-- The `for (;;)` of `recv()`, with what it received and handed on, and whether the
client is alive behind it.  Behind the results of the list nothing is there. -/
def recvAll (c : Client) : List RecvResult → Client × Bool × List Act
  | [] => (c, true, [])
  | .bytes bs :: rs =>
      if bs = [] then (c, false, [])
      else
        let r := c.parser.feed bs
        let t := recvAll { c with parser := r.1 } rs
        (t.1, t.2.1, .received c.sock bs :: (r.2.map fun f =>
          .injected c.sock f (encodeFrame [] f.channel f.flags (some f.payload) f.payload.length)) ++
            t.2.2)
  | .wouldBlock :: _ => (c, true, [])
  | .error :: _ => (c, false, [])

end Client

/-- What `select()` and the calls after it give. -/
structure Ready where
  /-- Connections that wait on the listening socket. -/
  connections : Nat
  readable : Nat → Bool
  writable : Nat → Bool
  send : Nat → List SendResult
  recv : Nat → List RecvResult

/-- `Broker::Impl`. -/
structure Broker where
  running : Bool
  clients : List Client
  queueLimit : Nat
  relayed : Nat
  injected : Nat
  dropped : Nat
  /-- How many sockets were accepted. -/
  nextSock : Nat

inductive Event where
  /-- `start`, and whether it succeeds. -/
  | start (ok : Bool)
  | stop
  /-- `poll`; `none` when `select()` returns no descriptor. -/
  | poll (ready : Option Ready)
  | broadcast (frame : List UInt8) (send : Nat → List SendResult)

namespace Broker

/-- A broker that has not been started. -/
def fresh (queueLimit : Nat) : Broker := ⟨false, [], queueLimit, 0, 0, 0, 0⟩

/-- `shutdownAll`. -/
def shutdownAll (b : Broker) : Broker × List Act :=
  ({ b with clients := [], running := false }, b.clients.map fun c => .closed c.sock)

/-- The accept loop, for a number of connections that wait. -/
def accept (b : Broker) : Nat → Broker × List Act
  | 0 => (b, [])
  | k + 1 =>
      let t := accept { b with
        clients := b.clients ++ [Client.connected b.nextSock]
        nextSock := b.nextSock + 1 } k
      (t.1, .accepted b.nextSock :: t.2)

/-- The traffic of one client in `poll`, with its bits in the two sets. -/
def pollClient (ready : Ready) (wfds rfds : Bool) (c : Client) : Option Client × List Act :=
  let w := if wfds then c.flush (ready.send c.sock) else (some c, [])
  match w.1 with
  | none => (none, w.2 ++ [.closed c.sock])
  | some d =>
      if rfds then
        let r := d.recvAll (ready.recv d.sock)
        if r.2.1 then (some r.1, w.2 ++ r.2.2)
        else (none, w.2 ++ (r.2.2 ++ [.closed c.sock]))
      else (some d, w.2)

/-- Count the frames that were handed on. -/
def countInjected (acts : List Act) : Nat :=
  acts.countP fun
    | .injected _ _ _ => true
    | _ => false

/-- `Broker::poll`. -/
def poll (b : Broker) (ready : Option Ready) : Broker × List Act :=
  if b.running then
    match ready with
    | none => (b, [])
    | some ready =>
        -- the sets are those of the clients before the accept loop
        let rfds := fun s => ready.readable s && b.clients.any fun c => c.sock = s
        let wfds := fun s => ready.writable s &&
          b.clients.any fun c => c.sock = s && c.outPos < c.out.length
        let a := b.accept ready.connections
        let r := sweep (fun c => pollClient ready (wfds c.sock) (rfds c.sock) c)
          a.1.clients.length 0 a.1.clients
        ({ a.1 with
            clients := r.1
            injected := a.1.injected + countInjected r.2 }, a.2 ++ r.2)
  else (b, [])

/-- One client in `broadcast`. -/
def broadcastClient (queueLimit : Nat) (frame : List UInt8) (send : List SendResult) (c : Client) :
    Option Client × List Act :=
  if queueLimit < c.out.length - c.outPos + frame.length then
    (none, [.dropped c.sock, .closed c.sock])
  else
    let w := (c.enqueue frame).flush send
    match w.1 with
    | none => (none, w.2 ++ [.closed c.sock])
    | some d => (some d, w.2)

/-- Count the clients that had fallen too far behind. -/
def countDropped (acts : List Act) : Nat :=
  acts.countP fun
    | .dropped _ => true
    | _ => false

/-- `Broker::broadcast`. -/
def broadcast (b : Broker) (frame : List UInt8) (send : Nat → List SendResult) :
    Broker × List Act :=
  if b.running ∧ frame ≠ [] then
    let r := sweep (fun c => broadcastClient b.queueLimit frame (send c.sock) c)
      b.clients.length 0 b.clients
    ({ b with
        clients := r.1
        relayed := b.relayed + 1
        dropped := b.dropped + countDropped r.2 }, .relayed frame :: r.2)
  else (b, [])

/-- One event. -/
def step (b : Broker) : Event → Broker × List Act
  | .start ok =>
      let s := b.shutdownAll
      (if ok then { s.1 with running := true } else s.1, s.2)
  | .stop => b.shutdownAll
  | .poll ready => b.poll ready
  | .broadcast frame send => b.broadcast frame send

/-- A run, with all that the broker does in it. -/
def run : Broker → List Event → Broker × List Act
  | b, [] => (b, [])
  | b, e :: es =>
      let r := b.step e
      let t := run r.1 es
      (t.1, r.2 ++ t.2)

end Broker

/-! ## What is done on one socket -/

namespace Act

/-- The socket of an act. -/
def sock : Act → Option Nat
  | .accepted sock | .sent sock _ | .received sock _ | .injected sock _ _ | .dropped sock
  | .closed sock => some sock
  | .relayed _ => none

/-- The bytes an act sends to `id`. -/
def sentTo (id : Nat) : Act → List UInt8
  | .sent sock bs => if sock = id then bs else []
  | _ => []

/-- The bytes an act receives from `id`. -/
def receivedFrom (id : Nat) : Act → List UInt8
  | .received sock bs => if sock = id then bs else []
  | _ => []

/-- The frame of `id` that an act hands on. -/
def frameOf (id : Nat) : Act → List Frame
  | .injected sock f _ => if sock = id then [f] else []
  | _ => []

/-- The bytes an act relays. -/
def relay : Act → List UInt8
  | .relayed frame => frame
  | _ => []

/-- `onClientFrame` gets the bytes of the frame that the parser emitted. -/
def Faithful : Act → Prop
  | .injected _ f frame => frame = f.encode
  | _ => True

/-- What is sent is what is sent on the socket of the act, and so on. -/
theorem off_sock {a : Act} {id : Nat} (h : a.sock ≠ some id) :
    a.sentTo id = [] ∧ a.receivedFrom id = [] ∧ a.frameOf id = [] := by
  cases a with
  | sent sock bs =>
      exact ⟨if_neg fun heq => h (congrArg some heq), rfl, rfl⟩
  | received sock bs =>
      exact ⟨rfl, if_neg fun heq => h (congrArg some heq), rfl⟩
  | injected sock f frame =>
      exact ⟨rfl, rfl, if_neg fun heq => h (congrArg some heq)⟩
  | _ => exact ⟨rfl, rfl, rfl⟩

end Act

/-- The bytes sent to `id`. -/
def sentTo (id : Nat) (acts : List Act) : List UInt8 := acts.flatMap (Act.sentTo id)

/-- The bytes received from `id`. -/
def receivedFrom (id : Nat) (acts : List Act) : List UInt8 := acts.flatMap (Act.receivedFrom id)

/-- The frames of `id` that were handed on. -/
def framesOf (id : Nat) (acts : List Act) : List Frame := acts.flatMap (Act.frameOf id)

@[simp] theorem sentTo_append (id : Nat) (acts acts' : List Act) :
    sentTo id (acts ++ acts') = sentTo id acts ++ sentTo id acts' := List.flatMap_append

@[simp] theorem receivedFrom_append (id : Nat) (acts acts' : List Act) :
    receivedFrom id (acts ++ acts') = receivedFrom id acts ++ receivedFrom id acts' :=
  List.flatMap_append

@[simp] theorem framesOf_append (id : Nat) (acts acts' : List Act) :
    framesOf id (acts ++ acts') = framesOf id acts ++ framesOf id acts' := List.flatMap_append

/-! ## One client -/

namespace Client

@[simp] theorem sock_reclaim (c : Client) : c.reclaim.sock = c.sock := by
  rw [reclaim]
  split
  · rfl
  · split <;> rfl

@[simp] theorem parser_reclaim (c : Client) : c.reclaim.parser = c.parser := by
  rw [reclaim]
  split
  · rfl
  · split <;> rfl

/-- Reclaiming the sent prefix leaves what is pending. -/
@[simp] theorem pending_reclaim (c : Client) : c.reclaim.pending = c.pending := by
  rw [reclaim]
  split
  next heq => exact (List.drop_eq_nil_iff.mpr (Nat.le_of_eq heq.symm)).symm
  next => split <;> rfl

@[simp] theorem pending_advance (c : Client) (n : Nat) (h : n ≤ c.out.length - c.outPos) :
    (c.advance n h).pending = c.pending.drop n := by
  rw [pending, pending, List.drop_drop]
  rfl

@[simp] theorem pending_enqueue (c : Client) (frame : List UInt8) :
    (c.enqueue frame).pending = c.pending ++ frame :=
  List.drop_append_of_le_length c.outPos_le

theorem length_pending (c : Client) : c.pending.length = c.out.length - c.outPos :=
  List.length_drop

/-- What `flush` sends comes from the front of what is pending, and nothing else
changes. -/
theorem flush_spec (c : Client) (rs : List SendResult) :
    (∀ a ∈ (c.flush rs).2, ∃ bs, a = .sent c.sock bs) ∧
      ∀ d, (c.flush rs).1 = some d → d.sock = c.sock ∧ d.parser = c.parser ∧
        sentTo c.sock (c.flush rs).2 ++ d.pending = c.pending := by
  have hstill : ∀ (c d : Client), some c.reclaim = some d → d.sock = c.sock ∧
      d.parser = c.parser ∧ sentTo c.sock [] ++ d.pending = c.pending := by
    intro c d hd
    cases hd
    exact ⟨c.sock_reclaim, c.parser_reclaim, c.pending_reclaim⟩
  induction rs generalizing c with
  | nil => exact ⟨fun a ha => absurd ha List.not_mem_nil, hstill c⟩
  | cons r rs ih =>
      rw [flush.eq_def]
      simp only
      by_cases hpos : c.outPos < c.out.length
      · rw [if_pos hpos]
        cases r with
        | took n =>
            simp only
            by_cases htaken : 0 < c.taken n
            · rw [if_pos htaken]
              obtain ⟨hacts, hrest⟩ := ih (c.advance (c.taken n) (c.taken_le n))
              refine ⟨fun a ha => ?_, fun d hd => ?_⟩
              · rcases List.mem_cons.mp ha with rfl | ha
                · exact ⟨_, rfl⟩
                · exact hacts a ha
              · obtain ⟨hsock, hparser, hsent⟩ := hrest d hd
                refine ⟨hsock, hparser, ?_⟩
                have hone : Act.sentTo c.sock (.sent c.sock (c.pending.take (c.taken n))) =
                    c.pending.take (c.taken n) := if_pos rfl
                rw [sentTo, List.flatMap_cons, hone, List.append_assoc]
                rw [pending_advance] at hsent
                exact (congrArg (_ ++ ·) hsent).trans (List.take_append_drop _ _)
            · rw [if_neg htaken]
              exact ⟨fun a ha => absurd ha List.not_mem_nil, fun d hd => by cases hd⟩
        | wouldBlock => exact ⟨fun a ha => absurd ha List.not_mem_nil, hstill c⟩
        | error => exact ⟨fun a ha => absurd ha List.not_mem_nil, fun d hd => by cases hd⟩
      · rw [if_neg hpos]
        exact ⟨fun a ha => absurd ha List.not_mem_nil, hstill c⟩

/-- The acts of one chunk: it is received, and its frames are handed on. -/
theorem feed_acts (sock : Nat) (bs : List UInt8) (fs : List Frame) :
    let acts := .received sock bs :: fs.map fun f => Act.injected sock f
      (encodeFrame [] f.channel f.flags (some f.payload) f.payload.length)
    (∀ a ∈ acts, a.sock = some sock ∧ a.Faithful ∧ a.sentTo sock = [] ∧ a ≠ .accepted sock) ∧
      receivedFrom sock acts = bs ∧ framesOf sock acts = fs := by
  refine ⟨?_, ?_, ?_⟩
  · intro a ha
    rcases List.mem_cons.mp ha with rfl | ha
    · exact ⟨rfl, trivial, rfl, nofun⟩
    · obtain ⟨f, -, rfl⟩ := List.mem_map.mp ha
      exact ⟨rfl, rfl, rfl, nofun⟩
  · have hnone : (fs.map fun f => Act.injected sock f
        (encodeFrame [] f.channel f.flags (some f.payload) f.payload.length)).flatMap
          (Act.receivedFrom sock) = [] := by
      refine List.flatMap_eq_nil_iff.mpr fun a ha => ?_
      obtain ⟨f, -, rfl⟩ := List.mem_map.mp ha
      rfl
    rw [receivedFrom, List.flatMap_cons, hnone, List.append_nil]
    exact if_pos rfl
  · rw [framesOf, List.flatMap_cons]
    induction fs with
    | nil => rfl
    | cons f fs ih =>
        rw [List.map_cons, List.flatMap_cons]
        exact congrArg₂ (· ++ ·) (if_pos rfl : _ = [f]) ih

/-- What `recv()` brings goes through the parser, and nothing else changes. -/
theorem recvAll_spec (c : Client) (rs : List RecvResult) :
    (∀ a ∈ (c.recvAll rs).2.2, a.sock = some c.sock ∧ a.Faithful ∧ a.sentTo c.sock = [] ∧
        a ≠ .accepted c.sock) ∧
      (c.recvAll rs).1.sock = c.sock ∧ (c.recvAll rs).1.pending = c.pending ∧
      ((frameScanner maxFrameSize).records c.parser.unread = [] →
        (frameScanner maxFrameSize).Advances
            (c.parser.unread ++ receivedFrom c.sock (c.recvAll rs).2.2)
            (c.recvAll rs).1.parser.unread (framesOf c.sock (c.recvAll rs).2.2) ∧
          (frameScanner maxFrameSize).records (c.recvAll rs).1.parser.unread = []) := by
  have hstill : ∀ (c : Client),
      (∀ a ∈ ([] : List Act), a.sock = some c.sock ∧ a.Faithful ∧ a.sentTo c.sock = [] ∧
        a ≠ .accepted c.sock) ∧ c.sock = c.sock ∧ c.pending = c.pending ∧
      ((frameScanner maxFrameSize).records c.parser.unread = [] →
        (frameScanner maxFrameSize).Advances (c.parser.unread ++ receivedFrom c.sock [])
            c.parser.unread (framesOf c.sock []) ∧
          (frameScanner maxFrameSize).records c.parser.unread = []) := by
    intro c
    refine ⟨fun a ha => absurd ha List.not_mem_nil, rfl, rfl, fun h => ⟨?_, h⟩⟩
    rw [receivedFrom, List.flatMap_nil, List.append_nil]
    exact .refl _
  induction rs generalizing c with
  | nil => exact hstill c
  | cons r rs ih =>
      cases r with
      | bytes bs =>
          rw [recvAll]
          by_cases hbs : bs = []
          · rw [if_pos hbs]
            exact hstill c
          · rw [if_neg hbs]
            obtain ⟨hacts, hsock, hpending, hparser⟩ := ih { c with parser := (c.parser.feed bs).1 }
            obtain ⟨hfeed, hrecv, hframes⟩ := feed_acts c.sock bs (c.parser.feed bs).2
            refine ⟨fun a ha => ?_, hsock, hpending, fun h => ?_⟩
            · rcases List.mem_append.mp ha with ha | ha
              · exact hfeed a ha
              · exact hacts a ha
            · obtain ⟨hadv, hquiet⟩ := c.parser.feed_sound bs h
              obtain ⟨hrest, hend⟩ := hparser hquiet
              refine ⟨?_, hend⟩
              rw [receivedFrom_append, framesOf_append, hrecv, hframes, ← List.append_assoc]
              exact (hadv.append _).trans hrest
      | wouldBlock => exact hstill c
      | error => exact hstill c

end Client

end MFoES.Usbproto
