import MFoES.Northbridge.Frame
import MFoES.Lib.Transition

/-!
# The firmware's side of the slave port

`dspi_send` puts messages on a queue.  `dspi_task` takes one off, writes its frame to
`g_tx_stage` and points `g_next_tx` at it.  The DMA reads the buffer it is armed with
into the transmit FIFO, the master clocks it out, and at the end of the frame
`dspi_dma_isr` arms the next buffer.  A transfer that stands still is cut by
`resync_if_stalled`, which the task calls first.

The scheduler runs one core, so a step of the task is a stretch of its code that reads
or writes shared data once, and the handler runs as a whole between two of them.  The
read of `g_next_tx` and the one of the queue behind it are one step: only the task moves
`g_next_tx` away from the idle frame.

`inDma`, `staged`, `cut`, `frames` and `accepted` keep what a run did, and no step
depends on them.
-/

namespace MFoES.Northbridge.Dspi

/-! ## State -/

/-- `DSPI_FRAME_SIZE`. -/
def dspiFrameSize : Nat := 64

/-- The depth of the transmit FIFO. -/
def fifoDepth : Nat := 8

/-- The buffers that the outgoing channel reads. -/
inductive Buf where
  /-- `g_idle_frame`. -/
  | idle
  /-- `g_tx_stage`. -/
  | stage
deriving DecidableEq

/-- Where `dspi_task` is. -/
inductive Pc where
  /-- In `ulTaskNotifyTake`, or about to sample the transfer count. -/
  | sample
  /-- The count has not moved, and the interrupt will be masked. -/
  | mask
  /-- The channels will be aborted and armed again. -/
  | rearm
  /-- Before the `if` around the staging. -/
  | check
  /-- Before `xQueueReceive`. -/
  | receive
  /-- Before `more` is read. -/
  | more (msg : DspiMsg)
  /-- Before `build_frame`. -/
  | build (msg : DspiMsg) (more : Bool)
  /-- Before `g_next_tx` is set. -/
  | publish (msg : DspiMsg)
  /-- Before the call of `dspi_tx_pending`. -/
  | pending
  /-- Before `set_irq_line`. -/
  | line (asserted : Bool)
deriving DecidableEq

/-- `g_idle_frame`, as `dspi_init` builds it. -/
def idleFrame : RawFrame := buildFrame dspiTypeIdle [] 0 false 0

/-- The slave port. -/
structure Slave where
  /-- `g_tx_queue`. -/
  queue : List DspiMsg := []
  /-- `g_next_tx`. -/
  nextTx : Buf := .idle
  /-- `g_tx_stage`. -/
  stage : RawFrame := Vector.replicate 64 0
  /-- The buffer that the outgoing channel was armed with. -/
  armed : Buf := .idle
  /-- The transfer count of the incoming channel. -/
  remaining : Nat := dspiFrameSize
  /-- What the outgoing channel has read since it was armed. -/
  read : List UInt8 := []
  /-- The bit of the incoming channel in the interrupt status. -/
  irqRaised : Bool := false
  irqEnabled : Bool := true
  /-- `g_prev_remaining`. -/
  prevRemaining : Nat := dspiFrameSize
  /-- The IRQ line is asserted. -/
  irqLine : Bool := false
  isrCount : Nat := 0
  txCount : Nat := 0
  resyncs : Nat := 0
  pc : Pc := .sample
  /-- Calls of `dspi_send` between the queue and the line. -/
  asserting : Nat := 0
  /-- What went on the queue. -/
  accepted : List DspiMsg := []
  /-- The message in the staging buffer that the channel will be armed with. -/
  staged : Option DspiMsg := none
  /-- The message whose frame the channel was armed with, while it is clocked. -/
  inDma : Option DspiMsg := none
  /-- The frames of the staging buffer that were clocked to their end. -/
  frames : List (List UInt8) := []
  /-- The messages whose frames a resync cut. -/
  cut : List DspiMsg := []

/-- What happens at the slave port. -/
inductive Event where
  /-- A step of `dspi_task`. -/
  | task
  /-- `dspi_dma_isr`. -/
  | isr
  /-- The outgoing channel reads a byte. -/
  | fetch
  /-- The master clocks a byte. -/
  | clock
  /-- `dspi_send`, up to the queue. -/
  | send (type : UInt8) (payload : List UInt8) (len : Nat) (flags : UInt8)
  /-- `dspi_send`, the line. -/
  | assertLine
deriving DecidableEq

namespace Slave

/-! ## Steps -/

/-- The frame is not clocked out yet. -/
def InFlight (s : Slave) : Prop := s.armed = .stage ∧ 0 < s.remaining

instance (s : Slave) : Decidable s.InFlight := inferInstanceAs (Decidable (_ ∧ _))

/-- `dspi_tx_pending`. -/
def txPending (s : Slave) : Bool := decide (s.nextTx ≠ .idle) || !s.queue.isEmpty

/-- `arm_dma`, on a channel that is not running. -/
def armDma (s : Slave) (tx : Buf) : Slave :=
  { s with armed := tx, remaining := dspiFrameSize, read := [] }

/-- The decision of `resync_if_stalled`. -/
def sample (s : Slave) : Slave :=
  if s.remaining = dspiFrameSize ∨ s.remaining = 0 then
    { s with prevRemaining := s.remaining, pc := .check }
  else if s.remaining ≠ s.prevRemaining then
    { s with prevRemaining := s.remaining, pc := .check }
  else { s with pc := .mask }

/-- The rest of `resync_if_stalled`, with the interrupt masked. -/
def rearm (s : Slave) : Slave :=
  { s.armDma .idle with
    irqRaised := false
    irqEnabled := true
    nextTx := .idle
    prevRemaining := dspiFrameSize
    resyncs := s.resyncs + 1
    pc := .check
    cut := s.cut ++ s.inDma.toList
    inDma := none
    staged := none }

/-- A step of `dspi_task`. -/
def task (s : Slave) : Slave :=
  match s.pc with
  | .sample => s.sample
  | .mask => { s with irqEnabled := false, pc := .rearm }
  | .rearm => s.rearm
  | .check =>
    { s with pc := if s.nextTx = .idle ∧ 0 < s.queue.length then .receive else .pending }
  | .receive =>
    match s.queue with
    | msg :: queue => { s with queue, pc := .more msg }
    | [] => { s with pc := .pending }
  | .more msg => { s with pc := .build msg (0 < s.queue.length) }
  | .build msg more => { s with
      stage := buildFrame msg.type msg.payload.toList msg.len more msg.flags
      pc := .publish msg }
  | .publish msg => { s with nextTx := .stage, staged := some msg, pc := .pending }
  | .pending => { s with pc := .line s.txPending }
  | .line asserted => { s with irqLine := asserted, pc := .sample }

/-- `dspi_dma_isr`, up to the frame that landed. -/
def isr (s : Slave) : Slave :=
  { s.armDma s.nextTx with
    irqRaised := false
    isrCount := s.isrCount + 1
    nextTx := .idle
    txCount := if s.nextTx ≠ .idle then s.txCount + 1 else s.txCount
    inDma := s.staged
    staged := none }

/-- The buffer that the outgoing channel reads. -/
def source (s : Slave) : RawFrame :=
  match s.armed with
  | .idle => idleFrame
  | .stage => s.stage

/-- A byte goes from the buffer to the FIFO. -/
def fetch (s : Slave) : Slave := { s with read := s.read ++ [s.source.toList.getD s.read.length 0] }

/-- A byte goes from the FIFO to the master, and one comes back. -/
def clock (s : Slave) : Slave :=
  if s.remaining = 1 then
    { s with
      remaining := 0
      irqRaised := true
      frames := if s.armed = .stage then s.frames ++ [s.read] else s.frames
      inDma := none }
  else { s with remaining := s.remaining - 1 }

/-- `dspi_send`, up to the queue. -/
def send (txDepth : Nat) (s : Slave) (type : UInt8) (payload : List UInt8) (len : Nat)
    (flags : UInt8) : Slave :=
  if dspiPayloadMax < len then s
  else if txDepth ≤ s.queue.length then s
  else
    let msg := msgOf type payload len flags
    { s with
      queue := s.queue ++ [msg]
      accepted := s.accepted ++ [msg]
      asserting := s.asserting + 1 }

/-- One step. -/
def step (txDepth : Nat) (s : Slave) : Event → Option Slave
  | .task => some s.task
  | .isr => if s.irqRaised = true ∧ s.irqEnabled = true then some s.isr else none
  | .fetch =>
    if s.read.length < dspiFrameSize ∧ s.read.length < dspiFrameSize - s.remaining + fifoDepth then
      some s.fetch
    else none
  | .clock =>
    if 0 < s.remaining ∧ dspiFrameSize - s.remaining < s.read.length then some s.clock else none
  | .send type payload len flags => some (s.send txDepth type payload len flags)
  | .assertLine =>
    if 0 < s.asserting then some { s with irqLine := true, asserting := s.asserting - 1 } else none

end Slave

end MFoES.Northbridge.Dspi
