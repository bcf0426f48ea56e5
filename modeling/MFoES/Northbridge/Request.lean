import MFoES.Northbridge.Exchange

/-!
# Requests over the link

`request` sends a frame and waits for a reply of the same type.  The caller, the link
thread with its `exchange` and `parse`, and the firmware's dispatcher task run side by
side, and `System.step` has one event for each stretch of code that a lock or a queue
makes atomic.

The wire loses frames in either direction but keeps their order: `transfer` says which
of the two frames of an exchange arrive.  What the firmware has for the host (its
queue, the staged frame and the one in the DMA) is one list, `outbox`.

A frame on its way carries what a run knows of it, but the code does not: which call
sent it, and which frame an answer is to.
-/

namespace MFoES.Northbridge

/-! ## Frames -/

/-- `kFlagReply`. -/
def Link.kFlagReply : UInt8 := 0x02

/-- `kTypePing`. -/
def Link.kTypePing : UInt8 := 0x01

/-- The payload bytes in use. -/
def Link.Frame.data (f : Link.Frame) : List UInt8 := f.payload.toList.take f.len.toNat

namespace Dspi

/-- `DSPI_FLAG_REPLY`. -/
def dspiFlagReply : UInt8 := 0x02

/-- The payload bytes in use. -/
def DspiMsg.data (msg : DspiMsg) : List UInt8 := msg.payload.toList.take msg.len.toNat

/-! ## Dispatcher -/

/-- `DspiReply`: what a handler has written to its buffer. -/
structure DspiReply where
  data : List UInt8
  fits : data.length ≤ dspiPayloadMax

/-- `DspiReply::write`. -/
def DspiReply.write (reply : DspiReply) (src : List UInt8) (n : Nat) : Bool × DspiReply :=
  if h : reply.data.length + n ≤ dspiPayloadMax then
    (true, ⟨reply.data ++ src.take n, by
      rw [List.length_append, List.length_take]
      omega⟩)
  else (false, reply)

/-- The reply buffer a handler gets. -/
def DspiReply.empty : DspiReply := ⟨[], Nat.zero_le _⟩

/-- `DspiCommandFn`.  What else a handler reads is a `W`. -/
abbrev DspiCommandFn (W : Type) := DspiMsg → W → DspiReply

/-- `on_ping`. -/
def onPing {W : Type} : DspiCommandFn W := fun req _ =>
  (DspiReply.empty.write req.payload.toList req.len.toNat).2

/-- `g_table`, as `find` reads it, and `g_unknown`. -/
structure Bindings (W : Type) where
  find : UInt8 → Option (DspiCommandFn W)
  unknown : Option (DspiCommandFn W)

/-- The handler `dispatcher_task` calls. -/
def Bindings.binding {W : Type} (b : Bindings W) (type : UInt8) : Option (DspiCommandFn W) :=
  match b.find type with
  | some fn => some fn
  | none => b.unknown

end Dspi

/-! ## State -/

namespace Request

open Link Dspi

/-- The arguments of `request`. -/
structure Args where
  type : UInt8
  data : Option (List UInt8)
  len : Nat
  attempts : Nat

/-- The frame that a call sends. -/
def Args.frame (a : Args) : Frame := frameOf a.type a.data a.len

/-- A frame of the host, and the call of `request` that sent it. -/
structure Sent where
  frame : Frame
  call : Option Nat
deriving DecidableEq

/-- A message in the firmware, and what the host sent. -/
structure Arrived where
  msg : DspiMsg
  sent : Sent

/-- A message of the firmware, and what it answers. -/
structure Answer where
  msg : DspiMsg
  origin : Option Sent

/-- What a call returned. -/
structure Returned where
  call : Nat
  request : Frame
  reply : Frame
  origin : Option Sent

/-- Where the caller is in `request`. -/
inductive Pc where
  | idle
  /-- At the head of the loop. -/
  | loop (attempt : Nat)
  /-- Behind the first critical section. -/
  | armed (attempt : Nat)
  /-- `send` returned `false`. -/
  | refused
  /-- In `wait_for`. -/
  | waiting (attempt : Nat)

/-- Where the link thread is in `exchange`. -/
inductive Round where
  | between
  | clocking (outgoing : Option (Sent × Bool))
  /-- The transfer is done, and `parse` comes. -/
  | landed (raw : RawFrame) (origin : Option Sent)

/-- What the wire does with the firmware's frame. -/
inductive Upward where
  /-- The firmware clocks its idle frame. -/
  | idle
  /-- The first frame of the outbox arrives. -/
  | frame (more : Bool)
  /-- It is clocked, but does not arrive. -/
  | lost

/-- Both ends. -/
structure System where
  running : Bool := true
  /-- The call under way, or the last one. -/
  args : Args := ⟨0, none, 0, 0⟩
  call : Nat := 0
  pc : Pc := .idle
  pendingType : UInt8 := kTypeIdle
  awaiting : Bool := false
  haveReply : Bool := false
  pendingReply : Frame := ⟨kTypeIdle, 0, 0, Vector.replicate 58 0⟩
  pendingOrigin : Option Sent := none
  tx : Tx Sent := {}
  round : Round := .between
  inbox : List Arrived := []
  handling : Option Arrived := none
  outbox : List Answer := []
  framesRx : Nat := 0
  requestRetries : Nat := 0
  requestTimeouts : Nat := 0
  handled : Nat := 0
  unhandled : Nat := 0
  /-- The frames that `on_frame_` got. -/
  onFrame : List Frame := []
  returned : List Returned := []

/-! ## Steps -/

variable {W : Type}

/-- What the threads and tasks do. -/
inductive Event (W : Type) where
  /-- `request` is called. -/
  | call (args : Args)
  /-- The loop condition and the first critical section. -/
  | attempt
  /-- The call of `send`. -/
  | queue
  /-- The way out behind a `send` that failed. -/
  | refuse
  /-- `wait_for` ends, and the caller goes on. -/
  | wake
  /-- Some other thread sends. -/
  | send (type : UInt8) (data : Option (List UInt8)) (len : Nat)
  /-- `start` or `stop`. -/
  | running (value : Bool)
  /-- The first half of `exchange`. -/
  | pop
  /-- The transfer: it throws or not, the firmware takes the host's frame or not. -/
  | transfer (ok down : Bool) (up : Upward)
  | parse
  /-- `dspi_receive`. -/
  | receive
  /-- The handler runs, and the queue has room for its reply or not. -/
  | handle (w : W) (room : Bool)
  /-- Some other task of the firmware sends. -/
  | notify (type : UInt8) (payload : List UInt8) (room : Bool)

namespace System

/-- The loop condition of `request` and the first critical section. -/
def attempt (s : System) (attempt : Nat) : System :=
  if attempt < max 1 s.args.attempts ∧ s.running = true then
    { s with
      pendingType := s.args.type
      haveReply := false
      awaiting := true
      pc := .armed attempt }
  else { s with requestTimeouts := s.requestTimeouts + 1, pc := .idle }

/-- The call of `send` in `request`. -/
def queue (txQueueDepth : Nat) (s : System) (attempt : Nat) : System :=
  let sent := s.tx.send txQueueDepth (⟨·, some s.call⟩) s.args.type s.args.data s.args.len
  { s with tx := sent.2, pc := if sent.1 then .waiting attempt else .refused }

/-- What `request` does behind `wait_for`. -/
def wake (s : System) (attempt : Nat) : System :=
  if s.haveReply then
    { s with
      awaiting := false
      requestRetries := if 0 < attempt then s.requestRetries + 1 else s.requestRetries
      pc := .idle
      returned := s.returned ++ [⟨s.call, s.args.frame, s.pendingReply, s.pendingOrigin⟩] }
  else { s with awaiting := false, pc := .loop (attempt + 1) }

/-- The firmware's interrupt handler gets what the host clocked. -/
def land (s : System) (outgoing : Option (Sent × Bool)) : System :=
  match outgoing with
  | none => s
  | some (x, more) =>
    match validate (wire x.frame more) with
    | .message msg => { s with inbox := s.inbox ++ [⟨msg, x⟩] }
    | _ => s

/-- The host gets what the firmware clocked. -/
def clockUp (s : System) : Upward → Option System
  | .idle => some { s with round := .between }
  | .frame more =>
    match s.outbox with
    | [] => none
    | o :: outbox => some { s with
        outbox
        round := .landed
          (buildFrame o.msg.type o.msg.payload.toList o.msg.len more o.msg.flags) o.origin }
  | .lost =>
    match s.outbox with
    | [] => none
    | _ :: outbox => some { s with outbox, round := .between }

/-- `LinkImpl::parse`, behind its checks. -/
def deliver (s : System) (f : Frame) (origin : Option Sent) : System :=
  if f.flags &&& kFlagReply ≠ 0 ∧ s.awaiting = true ∧ s.pendingType = f.type then
    { s with pendingReply := f, pendingOrigin := origin, haveReply := true }
  else { s with onFrame := s.onFrame ++ [f] }

/-- `LinkImpl::parse`. -/
def parse (s : System) (raw : RawFrame) (origin : Option Sent) : System :=
  match Link.parse raw with
  | .frame _ f => { s.deliver f origin with round := .between, framesRx := s.framesRx + 1 }
  | _ => { s with round := .between }

/-- `dispatcher_task` takes a message. -/
def receive (s : System) (a : Arrived) (inbox : List Arrived) : System :=
  if a.msg.flags &&& dspiFlagReply ≠ 0 then { s with inbox }
  else { s with inbox, handling := some a }

/-- `dspi_send`. -/
def dspiSend (s : System) (type : UInt8) (payload : List UInt8) (flags : UInt8)
    (origin : Option Sent) (room : Bool) : System :=
  if dspiPayloadMax < payload.length ∨ room = false then s
  else { s with outbox := s.outbox ++ [⟨msgOf type payload payload.length flags, origin⟩] }

/-- `dispatcher_task` calls the handler and sends its reply. -/
def handle (b : Bindings W) (s : System) (a : Arrived) (w : W) (room : Bool) : System :=
  match b.binding a.msg.type with
  | none => { s with handling := none, unhandled := s.unhandled + 1 }
  | some fn =>
    let reply := fn a.msg w
    let s := { s with handling := none, handled := s.handled + 1 }
    if 0 < reply.data.length then
      s.dspiSend a.msg.type reply.data dspiFlagReply (some a.sent) room
    else s

/-- One step of a thread or a task. -/
def step (txQueueDepth : Nat) (b : Bindings W) (s : System) : Event W → Option System
  | .call args =>
    match s.pc with
    | .idle => some { s with args, call := s.call + 1, pc := .loop 0 }
    | _ => none
  | .attempt =>
    match s.pc with
    | .loop attempt => some (s.attempt attempt)
    | _ => none
  | .queue =>
    match s.pc with
    | .armed attempt => some (s.queue txQueueDepth attempt)
    | _ => none
  | .refuse =>
    match s.pc with
    | .refused => some { s with awaiting := false, pc := .idle }
    | _ => none
  | .wake =>
    match s.pc with
    | .waiting attempt => some (s.wake attempt)
    | _ => none
  | .send type data len =>
    some { s with tx := (s.tx.send txQueueDepth (⟨·, none⟩) type data len).2 }
  | .running value => some { s with running := value }
  | .pop =>
    match s.round with
    | .between =>
      match s.tx.popTx with
      | some (outgoing, tx) => some { s with tx, round := .clocking (some outgoing) }
      | none => some { s with round := .clocking none }
    | _ => none
  | .transfer ok down up =>
    match s.round with
    | .clocking outgoing =>
      if ok then (if down then s.land outgoing else s).clockUp up
      else some { s with round := .between }
    | _ => none
  | .parse =>
    match s.round with
    | .landed raw origin => some (s.parse raw origin)
    | _ => none
  | .receive =>
    match s.handling, s.inbox with
    | none, a :: inbox => some (s.receive a inbox)
    | _, _ => none
  | .handle w room =>
    match s.handling with
    | some a => some (s.handle b a w room)
    | none => none
  | .notify type payload room => some (s.dspiSend type payload 0 none room)

end System

end Request

end MFoES.Northbridge
