import MFoES.Lib.LittleEndian
import MFoES.Touch.GT911

/-!
# Input from the viewer

The viewer sends records over the channel of the draw stream: touches, which go to the queue of
the touch panel, and requests for a full frame.  Each kind has its own magic and its own size, and
a datagram holds several records.
-/

namespace MFoES.App

open LittleEndian MFoES.Touch

/-- `RECORD_SIZE`. -/
def recordSize : Nat := 22

/-- `CTRL_SIZE`. -/
def ctrlSize : Nat := 8

/-- `magic`, `DRI1`. -/
def inputMagic : List UInt8 := [0x44, 0x52, 0x49, 0x31]

/-- `ctrlMagic`, `DRC1`. -/
def ctrlMagic : List UInt8 := [0x44, 0x52, 0x43, 0x31]

/-- `CTRL_REQUEST_FULL_FRAME`. -/
def requestFullFrame : UInt8 := 0

/-- `TouchRecord`. -/
structure TouchRecord where
  event : UInt8
  id : UInt8
  x : UInt16
  y : UInt16
  size : UInt16
  active : UInt8
  durationMs : UInt32
  dx : Int16
  dy : Int16
  deriving DecidableEq

/-- `isTouch`. -/
def isTouch (d : List UInt8) : Bool := d.take 4 = inputMagic

/-- `isCtrl`. -/
def isCtrl (d : List UInt8) : Bool := d.take 4 = ctrlMagic

/-- `decode`. -/
def decodeTouch (d : List UInt8) : Option TouchRecord :=
  if d.length < recordSize then none
  else if !isTouch d then none
  else if d.getD 4 0 > 3 then none
  else some
    { event := d.getD 4 0, id := d.getD 5 0, x := get16 d 6, y := get16 d 8, size := get16 d 10,
      active := d.getD 12 0, durationMs := get32 d 14, dx := (get16 d 18).toInt16,
      dy := (get16 d 20).toInt16 }

/-- `decodeCtrl`. -/
def decodeCtrl (d : List UInt8) : Option UInt8 :=
  if d.length < ctrlSize then none
  else if !isCtrl d then none
  else if d.getD 4 0 > requestFullFrame then none
  else some (d.getD 4 0)

/-- `encodeCtrl`. -/
def encodeCtrl (cmd : UInt8) : List UInt8 := ctrlMagic ++ [cmd, 0, 0, 0]

/-- `SCREEN_W`. -/
def screenW : UInt16 := 1280

/-- `SCREEN_H`. -/
def screenH : UInt16 := 720

/-- The touch of a record, on the screen. -/
def touchOf (tr : TouchRecord) : Option TouchEventData :=
  let event : Option TouchEvent :=
    match tr.event with
    | 0 => some .press
    | 1 => some .release
    | 2 => some .move
    | 3 => some .hold
    | _ => none
  event.map fun event =>
    { event := event
      point :=
        { id := tr.id
          x := if tr.x < screenW then tr.x else screenW - 1
          y := if tr.y < screenH then tr.y else screenH - 1
          size := tr.size
          active := tr.active != 0 }
      dx := tr.dx
      dy := tr.dy
      durationMs := tr.durationMs }

/-- What a datagram does: touches for the queue, and whether it sets `drForceResend`. -/
structure Input where
  touches : List TouchEventData := []
  force : Bool := false
  deriving DecidableEq

/-- The loop of `drHandleInput`; every round takes a record. -/
def handleRecords : Nat → List UInt8 → Input
  | 0, _ => {}
  | fuel + 1, d =>
      if d.isEmpty then {}
      else if isCtrl d then
        match decodeCtrl d with
        | none => {}
        | some cmd =>
            let rest := handleRecords fuel (d.drop ctrlSize)
            { rest with force := cmd == requestFullFrame || rest.force }
      else if !isTouch d then {}
      else
        match decodeTouch d with
        | none => {}
        | some tr =>
            let rest := handleRecords fuel (d.drop recordSize)
            { rest with touches := (touchOf tr).toList ++ rest.touches }

/-- `drHandleInput`. -/
def drHandleInput (data : List UInt8) : Input := handleRecords data.length data

/-- There are no more rounds than bytes. -/
theorem handleRecords_of_le {fuel : Nat} {d : List UInt8} (h : d.length ≤ fuel) :
    handleRecords fuel d = handleRecords d.length d := by
  induction fuel using Nat.strong_induction_on generalizing d with
  | _ fuel ih =>
      cases fuel with
      | zero => rw [Nat.le_zero.mp h]
      | succ fuel =>
          cases hd : d with
          | nil => rfl
          | cons b bs =>
              rw [← hd]
              have hlen : d.length = bs.length + 1 := by rw [hd]; rfl
              have hdrop : ∀ n, 0 < n → handleRecords fuel (d.drop n) =
                  handleRecords bs.length (d.drop n) := by
                intro n hn
                have hle : (d.drop n).length ≤ bs.length := by
                  rw [List.length_drop]
                  omega
                rw [ih fuel (Nat.lt_succ_self _) (by omega)]
                rcases Nat.lt_or_ge bs.length (fuel + 1) with hlt | hge
                · rw [ih bs.length hlt hle]
                · omega
              rw [hlen, handleRecords, handleRecords, hdrop ctrlSize (by decide),
                hdrop recordSize (by decide)]

/-- A request for a full frame is heard wherever it stands. -/
theorem drHandleInput_request (rest : List UInt8) :
    drHandleInput (encodeCtrl requestFullFrame ++ rest) =
      { drHandleInput rest with force := true } := by
  have hrest : handleRecords (7 + rest.length) rest = drHandleInput rest :=
    handleRecords_of_le (Nat.le_add_left _ _)
  rw [drHandleInput, List.length_append, show (encodeCtrl requestFullFrame).length = 7 + 1 from rfl,
    Nat.add_right_comm, handleRecords, ← hrest]
  rfl

end MFoES.App
