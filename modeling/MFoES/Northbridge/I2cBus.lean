import Mathlib.Data.Fintype.Basic
import MFoES.Northbridge.Frame
import MFoES.Lib.Transition

/-!
# The I2C bus of the firmware

One worker task owns the bus and takes commands off a queue.  A caller of `run_sync`
takes a transaction slot, queues a command with the slot's number and waits on the
slot's semaphore.  A caller that gives up marks the slot as abandoned, and the worker
frees it.  `post_async` queues a command without a slot.

An event is a step of one caller or of the worker, and a step goes as far as the next
access to something shared: a queue, a semaphore, a critical section, or the fields of a
slot.  `finish` takes two: its critical section, and the give or release behind it.  A
blocking call has two ends, and the event says which one comes.

`call`, `executed` and `returned` are what a run knows of it: which call a command is of,
what came of each execution, and what `run_sync` returned from a slot.
-/

namespace MFoES.Northbridge.I2cBus

/-! ## Commands -/

/-- `I2C_MAX_PAYLOAD`. -/
def i2cMaxPayload : Nat := 32

/-- `I2C_TXN_SLOTS`. -/
def i2cTxnSlots : Nat := 4

/-- A transaction buffer. -/
abbrev Buffer := Vector UInt8 32

/-- An index into `g_txn`. -/
abbrev Slot := Fin 4

/-- `I2C_ERR_TIMEOUT`. -/
def i2cErrTimeout : Int := -14

/-- `I2C_ERR_NACK`. -/
def i2cErrNack : Int := -15

/-- `PICO_ERROR_TIMEOUT`. -/
def picoErrorTimeout : Int := -1

/-- `I2cOp`. -/
inductive I2cOp where
  | write
  | read
  | writeRead
deriving DecidableEq

/-- The part of `I2cCmd` that a caller fills in. -/
structure Request where
  addr : UInt8
  op : I2cOp
  tx : List UInt8
  rxLen : Nat
deriving DecidableEq

/-- `I2cCmd`, with the call it is of. -/
structure I2cCmd where
  request : Request
  slot : Option Slot
  call : Option Nat
deriving DecidableEq

/-- What the SDK's transfer functions do. -/
structure Transfer where
  writeRc : Int
  readRc : Int
  bytes : List UInt8
deriving DecidableEq

/-- `map_sdk_rc`. -/
def mapSdkRc (rc : Int) : Int :=
  if 0 ≤ rc then rc else if rc = picoErrorTimeout then i2cErrTimeout else i2cErrNack

/-- `i2c_read_timeout_us`, as far as the buffer goes. -/
def fill (rx : Buffer) (bytes : List UInt8) (len : Nat) : Buffer :=
  memcpy rx 0 bytes (min len bytes.length)

/-- `execute`. -/
def execute (req : Request) (bus : Transfer) (rx : Buffer) : Int × Buffer :=
  match req.op with
  | .write => (mapSdkRc bus.writeRc, rx)
  | .read => (mapSdkRc bus.readRc, fill rx bus.bytes req.rxLen)
  | .writeRead =>
    if bus.writeRc < 0 then (mapSdkRc bus.writeRc, rx)
    else (mapSdkRc bus.readRc, fill rx bus.bytes req.rxLen)

/-! ## State -/

/-- `I2cTxn`. -/
structure I2cTxn where
  done : Bool := false
  result : Int := 0
  rx : Buffer := Vector.replicate 32 0
  completed : Bool := false
  abandoned : Bool := false

/-- Where a caller is in `run_sync`. -/
inductive Pc where
  | idle
  /-- Before `xQueueReceive` of a slot. -/
  | acquire
  /-- Before the fields are reset. -/
  | reset (slot : Slot)
  /-- Before the stale give is dropped. -/
  | drain (slot : Slot)
  /-- Before `xQueueSend`. -/
  | send (slot : Slot)
  /-- The queue was full. -/
  | refused (slot : Slot)
  /-- In `xSemaphoreTake`. -/
  | waiting (slot : Slot)
  /-- The wait is over, and the critical section comes. -/
  | race (slot : Slot)
  /-- The worker won.  Before the second `xSemaphoreTake`. -/
  | late (slot : Slot)
  /-- Before the result is read. -/
  | read (slot : Slot)
  /-- Before `release_slot`. -/
  | release (slot : Slot) (result : Int) (rx : List UInt8)
deriving DecidableEq

/-- The slot a caller holds. -/
def Pc.slot : Pc → Option Slot
  | .idle => none
  | .acquire => none
  | .reset slot => some slot
  | .drain slot => some slot
  | .send slot => some slot
  | .refused slot => some slot
  | .waiting slot => some slot
  | .race slot => some slot
  | .late slot => some slot
  | .read slot => some slot
  | .release slot _ _ => some slot

/-- A task that calls `run_sync`. -/
structure Caller where
  pc : Pc := .idle
  request : Request := ⟨0, .write, [], 0⟩
  /-- `rx_len`. -/
  rxLen : Nat := 0
  call : Nat := 0

/-- Where the worker is. -/
inductive Worker where
  | idle
  | execute (cmd : I2cCmd)
  /-- Before `t.result` is written. -/
  | store (cmd : I2cCmd) (slot : Slot) (result : Int)
  /-- Before the critical section of `finish`. -/
  | critical (cmd : I2cCmd) (slot : Slot)
  /-- Before `xSemaphoreGive`. -/
  | give (slot : Slot) (call : Option Nat)
  /-- Before `release_slot`. -/
  | release (slot : Slot)
deriving DecidableEq

/-- What came of a command. -/
structure Execution where
  call : Option Nat
  result : Int
  rx : Buffer
deriving DecidableEq

/-- What `run_sync` returned from a slot. -/
structure Returned where
  call : Nat
  rxLen : Nat
  result : Int
  rx : List UInt8
deriving DecidableEq

/-- The bus. -/
structure Bus where
  cmdQueue : List I2cCmd := []
  freeSlots : List Slot := List.finRange 4
  txn : Slot → I2cTxn := fun _ => {}
  dropped : Nat := 0
  callers : Nat → Caller := fun _ => {}
  worker : Worker := .idle
  /-- The calls of `run_sync` so far. -/
  calls : Nat := 0
  executed : List Execution := []
  returned : List Returned := []

/-! ## Steps -/

/-- What happens on the bus. -/
inductive Event where
  /-- A task calls `run_sync`. -/
  | call (caller : Nat) (request : Request) (rxLen : Nat)
  /-- A step of a caller.  A blocking call succeeds or times out. -/
  | caller (caller : Nat) (ok : Bool)
  /-- `post_async`. -/
  | post (request : Request)
  /-- A step of the worker. -/
  | worker (bus : Transfer)

namespace Bus

/-- Write to a slot. -/
def setTxn (s : Bus) (slot : Slot) (t : I2cTxn) : Bus :=
  { s with txn := Function.update s.txn slot t }

/-- A caller goes on. -/
def goto (s : Bus) (caller : Nat) (pc : Pc) : Bus :=
  { s with callers := Function.update s.callers caller { s.callers caller with pc } }

/-- `release_slot`. -/
def releaseSlot (s : Bus) (slot : Slot) : Bus :=
  if s.freeSlots.length < i2cTxnSlots then { s with freeSlots := s.freeSlots ++ [slot] } else s

/-- The command a caller queues. -/
def cmdOf (s : Bus) (caller : Nat) (slot : Slot) : I2cCmd :=
  ⟨(s.callers caller).request, some slot, some (s.callers caller).call⟩

/-- What a caller copies out of its slot. -/
def copyOut (s : Bus) (caller : Nat) (slot : Slot) : List UInt8 :=
  if 0 ≤ (s.txn slot).result then (s.txn slot).rx.toList.take (s.callers caller).rxLen else []

/-- A step of `run_sync`. -/
def callerStep (queueDepth : Nat) (s : Bus) (caller : Nat) (ok : Bool) : Option Bus :=
  match (s.callers caller).pc with
  | .idle => none
  | .acquire =>
    match ok, s.freeSlots with
    | true, slot :: freeSlots => some (goto { s with freeSlots } caller (.reset slot))
    | false, [] => some (s.goto caller .idle)
    | _, _ => none
  | .reset slot =>
    some ((s.setTxn slot { s.txn slot with
      completed := false, abandoned := false, result := i2cErrTimeout }).goto caller (.drain slot))
  | .drain slot => some ((s.setTxn slot { s.txn slot with done := false }).goto caller (.send slot))
  | .send slot =>
    if s.cmdQueue.length < queueDepth then
      if ok then
        some (goto { s with cmdQueue := s.cmdQueue ++ [s.cmdOf caller slot] } caller (.waiting slot))
      else none
    else if ok then none
    else some (s.goto caller (.refused slot))
  | .refused slot =>
    some (goto { s.releaseSlot slot with dropped := s.dropped + 1 } caller .idle)
  | .waiting slot =>
    if (s.txn slot).done then
      if ok then
        some ((s.setTxn slot { s.txn slot with done := false }).goto caller (.read slot))
      else none
    else if ok then none
    else some (s.goto caller (.race slot))
  | .race slot =>
    if (s.txn slot).completed then some (s.goto caller (.late slot))
    else some ((s.setTxn slot { s.txn slot with abandoned := true }).goto caller .idle)
  | .late slot => some ((s.setTxn slot { s.txn slot with done := false }).goto caller (.read slot))
  | .read slot =>
    some (s.goto caller (.release slot (s.txn slot).result (s.copyOut caller slot)))
  | .release slot result rx =>
    some (goto { s.releaseSlot slot with
      returned := s.returned ++
        [⟨(s.callers caller).call, (s.callers caller).rxLen, result, rx⟩] } caller .idle)

/-- A step of `i2c_worker`. -/
def workerStep (s : Bus) (bus : Transfer) : Option Bus :=
  match s.worker with
  | .idle =>
    match s.cmdQueue with
    | [] => none
    | cmd :: cmdQueue => some { s with cmdQueue, worker := .execute cmd }
  | .execute cmd =>
    match cmd.slot with
    | none => some { s with worker := .idle }
    | some slot =>
      let came := execute cmd.request bus (s.txn slot).rx
      some { s.setTxn slot { s.txn slot with rx := came.2 } with
        worker := .store cmd slot came.1
        executed := s.executed ++ [⟨cmd.call, came.1, came.2⟩] }
  | .store cmd slot result =>
    some { s.setTxn slot { s.txn slot with result } with worker := .critical cmd slot }
  | .critical cmd slot =>
    some { s.setTxn slot { s.txn slot with completed := true } with
      worker := if (s.txn slot).abandoned then .release slot else .give slot cmd.call }
  | .give slot _ => some { s.setTxn slot { s.txn slot with done := true } with worker := .idle }
  | .release slot => some { s.releaseSlot slot with worker := .idle }

/-- One step. -/
def step (queueDepth : Nat) (s : Bus) : Event → Option Bus
  | .call caller request rxLen =>
    match (s.callers caller).pc with
    | .idle => some { s with
        callers := Function.update s.callers caller (Caller.mk .acquire request rxLen s.calls)
        calls := s.calls + 1 }
    | _ => none
  | .caller caller ok => s.callerStep queueDepth caller ok
  | .post request =>
    if s.cmdQueue.length < queueDepth then
      some { s with cmdQueue := s.cmdQueue ++ [⟨request, none, none⟩] }
    else some { s with dropped := s.dropped + 1 }
  | .worker bus => s.workerStep bus

end Bus

end MFoES.Northbridge.I2cBus
