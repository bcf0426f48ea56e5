import Mathlib.Data.List.TakeWhile
import MFoES.App.RemoteInput

/-!
# Records from the viewer, there and back

A datagram of encoded records queues their touches in order, up to the first request that this
build does not know, where the rest is dropped (`drHandleInput_encode`).

The datagram comes from outside.  `inputLoop` is the loop once more, on the whole datagram and an
offset, where a read behind the datagram has no value; it ends with the same touches, whatever
the bytes are (`inputLoop_eq`).
-/

namespace MFoES.App

open LittleEndian MFoES.Touch

/-! ## Reads at an offset -/

/-- The `n` bytes at an offset, if the datagram has them. -/
def bytesAt (data : List UInt8) (off n : Nat) : Option (List UInt8) :=
  if off + n ≤ data.length then some ((data.drop off).take n) else none

/-- `in[i]`. -/
def byteAt (data : List UInt8) (off : Nat) : Option UInt8 := data[off]?

/-- `getU16`. -/
def u16At (data : List UInt8) (off : Nat) : Option UInt16 :=
  (bytesAt data off 2).map fun b => get16 b 0

/-- `getU32`. -/
def u32At (data : List UInt8) (off : Nat) : Option UInt32 :=
  (bytesAt data off 4).map fun b => get32 b 0

variable {data : List UInt8} {off i : Nat}

theorem bytesAt_eq {n : Nat} (h : off + n ≤ data.length) :
    bytesAt data off n = some ((data.drop off).take n) :=
  if_pos h

theorem byteAt_eq (h : off + i < data.length) :
    byteAt data (off + i) = some ((data.drop off).getD i 0) := by
  rw [byteAt, List.getElem?_eq_getElem h, List.getD_eq_getElem?_getD, List.getElem?_drop,
    List.getElem?_eq_getElem h, Option.getD_some]

theorem get16_take (l : List UInt8) : get16 (l.take 2) 0 = get16 l 0 := by
  rcases l with _ | ⟨a, _ | ⟨b, l⟩⟩ <;> rfl

theorem get32_take (l : List UInt8) : get32 (l.take 4) 0 = get32 l 0 := by
  rcases l with _ | ⟨a, _ | ⟨b, _ | ⟨c, _ | ⟨d, l⟩⟩⟩⟩ <;> rfl

theorem u16At_eq (h : off + i + 2 ≤ data.length) :
    u16At data (off + i) = some (get16 (data.drop off) i) := by
  rw [u16At, bytesAt_eq h, Option.map_some, get16_take, ← List.drop_drop, get16_drop, Nat.add_zero]

theorem u32At_eq (h : off + i + 4 ≤ data.length) :
    u32At data (off + i) = some (get32 (data.drop off) i) := by
  rw [u32At, bytesAt_eq h, Option.map_some, get32_take, ← List.drop_drop, get32_drop, Nat.add_zero]

/-! ## The loop on an offset -/

/-- `isCtrl` and `isTouch`. -/
def magicAt (magic data : List UInt8) (off : Nat) : Option Bool :=
  if data.length - off < 4 then some false
  else (bytesAt data off 4).map fun m => decide (m = magic)

/-- `decodeCtrl`. -/
def ctrlAt (data : List UInt8) (off : Nat) : Option (Option UInt8) :=
  if data.length - off < ctrlSize then some none
  else do
    let magic ← bytesAt data off 4
    if magic ≠ ctrlMagic then return none
    let cmd ← byteAt data (off + 4)
    if cmd > requestFullFrame then return none
    return some cmd

/-- `decode`. -/
def touchAt (data : List UInt8) (off : Nat) : Option (Option TouchRecord) :=
  if data.length - off < recordSize then some none
  else do
    let magic ← bytesAt data off 4
    if magic ≠ inputMagic then return none
    let event ← byteAt data (off + 4)
    if event > 3 then return none
    let id ← byteAt data (off + 5)
    let x ← u16At data (off + 6)
    let y ← u16At data (off + 8)
    let size ← u16At data (off + 10)
    let active ← byteAt data (off + 12)
    let durationMs ← u32At data (off + 14)
    let dx ← u16At data (off + 18)
    let dy ← u16At data (off + 20)
    return some
      { event := event, id := id, x := x, y := y, size := size, active := active,
        durationMs := durationMs, dx := dx.toInt16, dy := dy.toInt16 }

/-- `drHandleInput`, with at most `fuel` rounds from an offset.  It has no value when a read is
not inside the datagram, or when the rounds do not do. -/
def inputLoop (data : List UInt8) : Nat → Nat → Option Input
  | 0, off => if off < data.length then none else some {}
  | fuel + 1, off =>
      if off < data.length then do
        if ← magicAt ctrlMagic data off then
          match ← ctrlAt data off with
          | none => return {}
          | some cmd =>
              let rest ← inputLoop data fuel (off + ctrlSize)
              return { rest with force := cmd == requestFullFrame || rest.force }
        else if !(← magicAt inputMagic data off) then return {}
        else
          match ← touchAt data off with
          | none => return {}
          | some tr =>
              let rest ← inputLoop data fuel (off + recordSize)
              return { rest with touches := (touchOf tr).toList ++ rest.touches }
      else some {}

theorem magicAt_eq {magic : List UInt8} (hmagic : magic.length = 4) :
    magicAt magic data off = some (decide ((data.drop off).take 4 = magic)) := by
  rw [magicAt]
  by_cases hshort : data.length - off < 4
  · rw [if_pos hshort]
    have hne : (data.drop off).take 4 ≠ magic := by
      intro h
      have hlen := congrArg List.length h
      rw [List.length_take, List.length_drop, hmagic] at hlen
      omega
    rw [decide_eq_false hne]
  · rw [if_neg hshort, bytesAt_eq (by omega), Option.map_some]

theorem ctrlAt_eq : ctrlAt data off = some (decodeCtrl (data.drop off)) := by
  rw [ctrlAt, decodeCtrl, List.length_drop]
  by_cases hshort : data.length - off < ctrlSize
  · rw [if_pos hshort, if_pos hshort]
  · have hroom : off + 8 ≤ data.length := by
      rw [ctrlSize] at hshort
      omega
    rw [if_neg hshort, if_neg hshort, bytesAt_eq (by omega), byteAt_eq (by omega)]
    generalize (data.drop off).getD 4 0 = cmd
    by_cases hmagic : (data.drop off).take 4 = ctrlMagic
    · by_cases hcmd : cmd > requestFullFrame
      · simp [isCtrl, hmagic, hcmd]
      · simp [isCtrl, hmagic, hcmd]
    · simp [isCtrl, hmagic]

theorem touchAt_eq : touchAt data off = some (decodeTouch (data.drop off)) := by
  rw [touchAt, decodeTouch, List.length_drop]
  by_cases hshort : data.length - off < recordSize
  · rw [if_pos hshort, if_pos hshort]
  · have hroom : off + 22 ≤ data.length := by
      rw [recordSize] at hshort
      omega
    rw [if_neg hshort, if_neg hshort, bytesAt_eq (by omega), byteAt_eq (by omega),
      byteAt_eq (by omega), byteAt_eq (by omega), u16At_eq (by omega), u16At_eq (by omega),
      u16At_eq (by omega), u16At_eq (by omega), u16At_eq (by omega), u32At_eq (by omega)]
    generalize (data.drop off).getD 4 0 = event
    by_cases hmagic : (data.drop off).take 4 = inputMagic
    · by_cases hevent : event > 3
      · simp [isTouch, hmagic, hevent]
      · simp [isTouch, hmagic, hevent]
    · simp [isTouch, hmagic]

/-- The loop ends, and its reads are inside the datagram. -/
theorem inputLoop_eq (fuel : Nat) (h : data.length - off ≤ fuel) :
    inputLoop data fuel off = some (handleRecords fuel (data.drop off)) := by
  induction fuel generalizing off with
  | zero =>
      rw [inputLoop, if_neg (by omega), handleRecords]
  | succ fuel ih =>
      rw [inputLoop, handleRecords]
      by_cases hoff : off < data.length
      · have hsome : (data.drop off).isEmpty = false := by
          rw [List.isEmpty_eq_false_iff_exists_mem]
          exact ⟨data[off], by rw [List.drop_eq_getElem_cons hoff]; exact List.mem_cons_self⟩
        have hctrl : magicAt ctrlMagic data off = some (isCtrl (data.drop off)) := magicAt_eq rfl
        have htouch : magicAt inputMagic data off = some (isTouch (data.drop off)) :=
          magicAt_eq rfl
        have hskip : ∀ n, 0 < n → inputLoop data fuel (off + n) =
            some (handleRecords fuel ((data.drop off).drop n)) := by
          intro n hn
          rw [ih (by omega), List.drop_drop]
        rw [if_pos hoff, hctrl, htouch, ctrlAt_eq, touchAt_eq, hskip ctrlSize (by decide),
          hskip recordSize (by decide), hsome]
        cases isCtrl (data.drop off) with
        | true => cases decodeCtrl (data.drop off) <;> rfl
        | false =>
            cases isTouch (data.drop off) with
            | false => rfl
            | true => cases decodeTouch (data.drop off) <;> rfl
      · have hnone : data.drop off = [] := List.drop_eq_nil_of_le (by omega)
        rw [if_neg hoff, hnone]
        rfl

/-! ## Encoded records -/

/-- `encode`. -/
def encodeTouch (r : TouchRecord) : List UInt8 :=
  inputMagic ++ r.event :: r.id :: (le16 r.x ++ (le16 r.y ++ (le16 r.size ++ r.active :: 0 ::
    (le32 r.durationMs ++ (le16 r.dx.toUInt16 ++ le16 r.dy.toUInt16)))))

@[simp] theorem length_encodeTouch (r : TouchRecord) : (encodeTouch r).length = recordSize := rfl

/-- `decode` takes back what `encode` wrote. -/
theorem decodeTouch_encodeTouch {r : TouchRecord} (h : r.event ≤ 3) (rest : List UInt8) :
    decodeTouch (encodeTouch r ++ rest) = some r := by
  have hlen : ¬ (encodeTouch r ++ rest).length < recordSize := by
    rw [List.length_append, length_encodeTouch]
    omega
  have hmagic : isTouch (encodeTouch r ++ rest) = true := rfl
  have hevent : ¬ (encodeTouch r ++ rest).getD 4 0 > 3 := UInt8.not_lt.mpr h
  have hx : get16 (encodeTouch r ++ rest) 6 = r.x := ofLE16_le16 r.x
  have hy : get16 (encodeTouch r ++ rest) 8 = r.y := ofLE16_le16 r.y
  have hsize : get16 (encodeTouch r ++ rest) 10 = r.size := ofLE16_le16 r.size
  have hduration : get32 (encodeTouch r ++ rest) 14 = r.durationMs := ofLE32_le32 r.durationMs
  have hdx : get16 (encodeTouch r ++ rest) 18 = r.dx.toUInt16 := ofLE16_le16 r.dx.toUInt16
  have hdy : get16 (encodeTouch r ++ rest) 20 = r.dy.toUInt16 := ofLE16_le16 r.dy.toUInt16
  rw [decodeTouch, if_neg hlen, hmagic, if_neg (by decide), if_neg hevent, hx, hy, hsize,
    hduration, hdx, hdy]
  rfl

theorem drHandleInput_touch {r : TouchRecord} (h : r.event ≤ 3) (rest : List UInt8) :
    drHandleInput (encodeTouch r ++ rest) =
      { drHandleInput rest with
        touches := (touchOf r).toList ++ (drHandleInput rest).touches } := by
  have hrest : handleRecords (21 + rest.length) rest = drHandleInput rest :=
    handleRecords_of_le (Nat.le_add_left _ _)
  have hdecode := decodeTouch_encodeTouch h rest
  have hctrl : isCtrl (encodeTouch r ++ rest) = false := rfl
  have htouch : isTouch (encodeTouch r ++ rest) = true := rfl
  rw [drHandleInput, List.length_append, length_encodeTouch,
    show recordSize = 21 + 1 from rfl, Nat.add_right_comm, handleRecords, hctrl, htouch, hdecode,
    ← hrest]
  rfl

/-- An unknown request ends the datagram. -/
theorem drHandleInput_unknown {cmd : UInt8} (h : cmd > requestFullFrame) (rest : List UInt8) :
    drHandleInput (encodeCtrl cmd ++ rest) = {} := by
  have hdecode : decodeCtrl (encodeCtrl cmd ++ rest) = none := by
    have hlen : ¬ (encodeCtrl cmd ++ rest).length < ctrlSize := by
      rw [List.length_append, show (encodeCtrl cmd).length = ctrlSize from rfl]
      omega
    have hcmd : (encodeCtrl cmd ++ rest).getD 4 0 > requestFullFrame := h
    rw [decodeCtrl, if_neg hlen, if_pos hcmd, ite_self]
  have hctrl : isCtrl (encodeCtrl cmd ++ rest) = true := rfl
  rw [drHandleInput, List.length_append, show (encodeCtrl cmd).length = 7 + 1 from rfl,
    Nat.add_right_comm, handleRecords, hctrl, hdecode]
  rfl

/-- A record that a viewer puts in a datagram. -/
inductive InputRecord where
  | touch (r : TouchRecord)
  | ctrl (cmd : UInt8)
deriving DecidableEq

namespace InputRecord

/-- `encode` and `encodeCtrl`. -/
def encode : InputRecord → List UInt8
  | touch r => encodeTouch r
  | ctrl cmd => encodeCtrl cmd

/-- The request is one of this build's. -/
def isKnown : InputRecord → Bool
  | touch _ => true
  | ctrl cmd => decide (cmd ≤ requestFullFrame)

/-- The touches of a list of records. -/
def touches (rs : List InputRecord) : List TouchRecord :=
  rs.filterMap fun
    | touch r => some r
    | ctrl _ => none

/-- The event codes are at most `EV__MAX`. -/
def CodesValid (rs : List InputRecord) : Prop := ∀ r ∈ touches rs, r.event ≤ 3

instance (rs : List InputRecord) : Decidable (CodesValid rs) :=
  inferInstanceAs (Decidable (∀ r ∈ touches rs, r.event ≤ 3))

end InputRecord

/-- The code of an event on the wire. -/
def wireCode : TouchEvent → UInt8
  | .press => 0
  | .release => 1
  | .move => 2
  | .hold => 3

/-- The touch that a record stands for: all of its fields, at the nearest point of the screen. -/
structure Queued (r : TouchRecord) (e : TouchEventData) : Prop where
  event : wireCode e.event = r.event
  id : e.point.id = r.id
  x : e.point.x.toNat = min r.x.toNat (screenW.toNat - 1)
  y : e.point.y.toNat = min r.y.toNat (screenH.toNat - 1)
  size : e.point.size = r.size
  active : e.point.active = true ↔ r.active ≠ 0
  dx : e.dx = r.dx
  dy : e.dy = r.dy
  durationMs : e.durationMs = r.durationMs

/-- A touch is on the screen. -/
def OnScreen (e : TouchEventData) : Prop := e.point.x < screenW ∧ e.point.y < screenH

instance (e : TouchEventData) : Decidable (OnScreen e) := inferInstanceAs (Decidable (_ ∧ _))

/-- The clamp of a coordinate. -/
theorem toNat_clamp {v bound : UInt16} (h : 0 < bound) :
    (if v < bound then v else bound - 1).toNat = min v.toNat (bound.toNat - 1) := by
  have hpos : 0 < bound.toNat := UInt16.lt_iff_toNat_lt.mp h
  have hlast : (bound - 1).toNat = bound.toNat - 1 :=
    UInt16.toNat_sub_of_le _ _ (UInt16.le_iff_toNat_le.mpr hpos)
  split_ifs with hv
  · rw [UInt16.lt_iff_toNat_lt] at hv
    omega
  · rw [UInt16.lt_iff_toNat_lt] at hv
    rw [hlast]
    omega

theorem queued_touchOf {r : TouchRecord} (h : r.event ≤ 3) :
    ∃ e, touchOf r = some e ∧ Queued r e := by
  have hx := toNat_clamp (v := r.x) (show 0 < screenW by decide)
  have hy := toNat_clamp (v := r.y) (show 0 < screenH by decide)
  have hcode : r.event = 0 ∨ r.event = 1 ∨ r.event = 2 ∨ r.event = 3 := by
    rw [UInt8.le_iff_toNat_le] at h
    simp only [← UInt8.toNat_inj]
    change r.event.toNat ≤ 3 at h
    change r.event.toNat = 0 ∨ r.event.toNat = 1 ∨ r.event.toNat = 2 ∨ r.event.toNat = 3
    omega
  have hevent : ∃ event e, touchOf r = some e ∧ e.event = event ∧ wireCode event = r.event := by
    rcases hcode with hcode | hcode | hcode | hcode
    · exact ⟨.press, _, by rw [touchOf, hcode]; rfl, rfl, hcode.symm⟩
    · exact ⟨.release, _, by rw [touchOf, hcode]; rfl, rfl, hcode.symm⟩
    · exact ⟨.move, _, by rw [touchOf, hcode]; rfl, rfl, hcode.symm⟩
    · exact ⟨.hold, _, by rw [touchOf, hcode]; rfl, rfl, hcode.symm⟩
  obtain ⟨event, e, he, rfl, hwire⟩ := hevent
  obtain ⟨event, -, rfl⟩ := Option.map_eq_some_iff.mp he
  exact ⟨_, he, hwire, rfl, hx, hy, rfl, bne_iff_ne, rfl, rfl, rfl⟩

/-- What the device queues is on the screen. -/
theorem onScreen_touchOf {r : TouchRecord} {e : TouchEventData} (h : touchOf r = some e) :
    OnScreen e := by
  obtain ⟨event, -, rfl⟩ := Option.map_eq_some_iff.mp h
  constructor
  · show (if r.x < screenW then r.x else screenW - 1) < screenW
    split_ifs with hx
    · exact hx
    · decide
  · show (if r.y < screenH then r.y else screenH - 1) < screenH
    split_ifs with hy
    · exact hy
    · decide

theorem onScreen_handleRecords (fuel : Nat) (d : List UInt8) :
    ∀ e ∈ (handleRecords fuel d).touches, OnScreen e := by
  induction fuel generalizing d with
  | zero =>
      intro e he
      cases he
  | succ fuel ih =>
      intro e he
      rw [handleRecords] at he
      split_ifs at he
      · cases he
      · cases hctrl : decodeCtrl d with
        | none =>
            rw [hctrl] at he
            cases he
        | some cmd =>
            rw [hctrl] at he
            exact ih _ e he
      · cases he
      · cases htouch : decodeTouch d with
        | none =>
            rw [htouch] at he
            cases he
        | some tr =>
            rw [htouch] at he
            rcases List.mem_append.mp he with hhere | hrest
            · exact onScreen_touchOf (Option.mem_toList.mp hhere)
            · exact ih _ e hrest

open InputRecord

/-- A datagram of records queues their touches in order, and asks for a full frame where they do,
up to the first request that this build does not know. -/
theorem drHandleInput_encode {rs : List InputRecord} (h : CodesValid rs) :
    List.Forall₂ Queued (touches (rs.takeWhile isKnown))
        (drHandleInput (rs.flatMap encode)).touches ∧
      ((drHandleInput (rs.flatMap encode)).force = true ↔
        ctrl requestFullFrame ∈ rs.takeWhile isKnown) := by
  induction rs with
  | nil => exact ⟨.nil, by decide⟩
  | cons r rs ih =>
      cases r with
      | touch r =>
          obtain ⟨hevent, hrs⟩ := List.forall_mem_cons.mp h
          obtain ⟨hqueued, hforce⟩ := ih hrs
          obtain ⟨e, he, hq⟩ := queued_touchOf hevent
          have hstep : drHandleInput ((touch r :: rs).flatMap encode) = _ :=
            drHandleInput_touch hevent (rs.flatMap encode)
          rw [hstep, he]
          refine ⟨.cons hq hqueued, hforce.trans ?_⟩
          exact (List.mem_cons.trans (or_iff_right (by simp))).symm
      | ctrl cmd =>
          by_cases hcmd : cmd > requestFullFrame
          · have hstep : drHandleInput ((ctrl cmd :: rs).flatMap encode) = {} :=
              drHandleInput_unknown hcmd (rs.flatMap encode)
            have hstop : (ctrl cmd :: rs).takeWhile isKnown = [] :=
              List.takeWhile_cons_of_neg (by simpa [isKnown] using hcmd)
            rw [hstep, hstop]
            exact ⟨.nil, by simp⟩
          · obtain rfl : cmd = requestFullFrame := UInt8.le_zero_iff.mp (UInt8.not_lt.mp hcmd)
            obtain ⟨hqueued, hforce⟩ := ih h
            have hstep : drHandleInput ((ctrl requestFullFrame :: rs).flatMap encode) = _ :=
              drHandleInput_request (rs.flatMap encode)
            rw [hstep]
            exact ⟨hqueued, iff_of_true rfl List.mem_cons_self⟩

/-- The loop stops where no record can be decoded. -/
theorem handleRecords_of_none {d : List UInt8} (hctrl : isCtrl d = true → decodeCtrl d = none)
    (htouch : decodeTouch d = none) (fuel : Nat) : handleRecords fuel d = {} := by
  cases fuel with
  | zero => rfl
  | succ fuel =>
      rw [handleRecords, htouch]
      split_ifs with hnil hc
      · rfl
      · rw [hctrl hc]
      · rfl
      · rfl

/-- A record that is cut off is dropped. -/
theorem drHandleInput_of_cut (r : InputRecord) {j : Nat} (hj : j < r.encode.length) :
    drHandleInput (r.encode.take j) = {} := by
  have hlen : (r.encode.take j).length < r.encode.length :=
    Nat.lt_of_le_of_lt (List.length_take_le _ _) hj
  have hshort : (r.encode.take j).length < recordSize := by
    refine Nat.lt_of_lt_of_le hlen ?_
    cases r with
    | touch r => exact Nat.le_refl _
    | ctrl cmd => exact (by decide : ctrlSize ≤ recordSize)
  refine handleRecords_of_none (fun hctrl => ?_) (if_pos hshort) _
  cases r with
  | ctrl cmd => exact if_pos hlen
  | touch r =>
      -- the third byte of the magic is another one
      have hbyte := congrArg (fun l => l[2]?) (of_decide_eq_true hctrl)
      have hthird : (InputRecord.touch r).encode[2]? = some 0x49 := rfl
      simp only [List.getElem?_take, hthird, show (2 : Nat) < 4 by decide, if_true] at hbyte
      split_ifs at hbyte
      · cases hbyte
      · cases hbyte

/-- Nothing is dropped of a datagram whose requests are all known. -/
theorem drHandleInput_encode_known {rs : List InputRecord} (h : CodesValid rs)
    (hknown : ∀ r ∈ rs, r.isKnown = true) :
    List.Forall₂ Queued (touches rs) (drHandleInput (rs.flatMap encode)).touches := by
  have hall := (drHandleInput_encode h).1
  rwa [List.takeWhile_eq_self_iff.mpr hknown] at hall

/-- Input from the viewer: encoded records come through, and no datagram is read past its end or
puts a touch off the screen. -/
theorem remoteInput_decoded :
    (∀ rs : List InputRecord, CodesValid rs →
      List.Forall₂ Queued (touches (rs.takeWhile isKnown))
          (drHandleInput (rs.flatMap encode)).touches ∧
        ((drHandleInput (rs.flatMap encode)).force = true ↔
          ctrl requestFullFrame ∈ rs.takeWhile isKnown)) ∧
      ∀ data : List UInt8, inputLoop data data.length 0 = some (drHandleInput data) ∧
        ∀ e ∈ (drHandleInput data).touches, OnScreen e := by
  refine ⟨fun rs h => drHandleInput_encode h, fun data => ⟨?_, onScreen_handleRecords _ data⟩⟩
  exact inputLoop_eq data.length (by omega)

/-- A press right of the screen, a request for a full frame, and the release. -/
def viewerClick : List InputRecord :=
  [touch ⟨0, 1, 2000, 10, 0, 1, 0, 0, 0⟩, ctrl requestFullFrame,
    touch ⟨1, 1, 5, 10, 0, 0, 40, -3, 0⟩]

theorem remoteInput_decoded_click :
    List.Forall₂ Queued (touches (viewerClick.takeWhile isKnown))
        (drHandleInput (viewerClick.flatMap encode)).touches ∧
      (drHandleInput (viewerClick.flatMap encode)).force = true := by
  obtain ⟨hqueued, hforce⟩ := remoteInput_decoded.1 viewerClick (by decide)
  exact ⟨hqueued, hforce.mpr (by decide)⟩

/-- A request of a later build, with a press behind it. -/
def laterRequest : List InputRecord := [ctrl 1, touch ⟨0, 0, 5, 5, 0, 1, 0, 0, 0⟩]

/-- The press is dropped. -/
theorem not_decoded_laterRequest :
    ¬ ∀ rs : List InputRecord, CodesValid rs →
      List.Forall₂ Queued (touches rs) (drHandleInput (rs.flatMap encode)).touches ∧
        ((drHandleInput (rs.flatMap encode)).force = true ↔ ctrl requestFullFrame ∈ rs) := by
  intro h
  have hqueued := (h laterRequest (by decide)).1.length_eq
  have hnone : (drHandleInput (laterRequest.flatMap encode)).touches = [] := by decide
  rw [hnone] at hqueued
  exact absurd hqueued (by decide)

end MFoES.App
