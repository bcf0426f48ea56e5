import MFoES.Usbd.UsbRx

/-!
# The dispatch of received frames

For every frame that its scan recognises, `usb_rx_thread` looks up the channel
of the frame, and then writes to the ring of the channel, closes it, or answers.
The channel number is a byte of the header, and `channels` has `MAX_CHANNELS`
elements.

`dispatch` says what is done with one frame, as a list of actions on the shared
state.  Other threads set and clear `active` at any time, so the value that the
dispatch of a frame reads is a parameter.
-/

namespace MFoES.Usbd

open LittleEndian Incremental Usbproto

/-- What `usb_rx_thread` does to the state that threads share. -/
inductive Action where
  /-- Read `channels[cid].active`. -/
  | readActive (cid : Nat)
  /-- `channels[cid].rx_ring.write(data)`. -/
  | writeRx (cid : Nat) (data : List UInt8)
  /-- `channels[cid].active = false`. -/
  | clearActive (cid : Nat)
  /-- `usb_send_frame`. -/
  | sendFrame (f : Frame)
deriving DecidableEq, Repr

/-- The element of `channels` that an action uses. -/
def Action.index : Action → Option Nat
  | .readActive cid => some cid
  | .writeRx cid _ => some cid
  | .clearActive cid => some cid
  | .sendFrame _ => none

/-- The branches of the dispatch, given what was read from `channels[cid].active`. -/
def react (active : Bool) (f : Frame) : List Action :=
  let cid := f.channel.toNat
  if f.flags = flagData ∧ active ∧ 0 < f.payload.length then
    [.writeRx cid (le32 (UInt32.ofNat f.payload.length)), .writeRx cid f.payload]
  else if f.flags = flagOpen then [.sendFrame ⟨f.channel, flagAck, []⟩]
  else if f.flags = flagClose ∧ active then [.clearActive cid]
  else []

/-- The dispatch of a frame. -/
def dispatch (active : Bool) (f : Frame) : List Action :=
  .readActive f.channel.toNat :: react active f

/-- The dispatch of frame after frame.  `active n` is what the dispatch of the
`n`-th frame reads. -/
def dispatchFrom (active : Nat → Bool) : Nat → List Frame → List Action
  | _, [] => []
  | n, f :: fs => dispatch (active n) f ++ dispatchFrom active (n + 1) fs

/-- Everything `usb_rx_thread` does in a run over the reads `cs`. -/
def usbRxActions (active : Nat → Bool) (cs : List (List UInt8)) : List Action :=
  dispatchFrom active 0 (runChunks usbRxThread [] cs).2

/-! ## The channel table -/

/-- The dispatch of a frame uses no channel but that of the frame, and uses that
one. -/
theorem forall_index_dispatch {P : Nat → Prop} (active : Bool) (f : Frame) :
    (∀ a ∈ dispatch active f, ∀ i ∈ a.index, P i) ↔ P f.channel.toNat := by
  constructor
  · intro h
    exact h (.readActive f.channel.toNat) List.mem_cons_self _ rfl
  · intro h a ha i hi
    rcases List.mem_cons.mp ha with rfl | ha
    · cases hi
      exact h
    · rw [react] at ha
      split_ifs at ha with hdata hopen hclose
      · rcases List.mem_pair.mp ha with rfl | rfl
        · cases hi
          exact h
        · cases hi
          exact h
      · rw [List.mem_singleton.mp ha] at hi
        cases hi
      · rw [List.mem_singleton.mp ha] at hi
        cases hi
        exact h
      · exact absurd ha List.not_mem_nil

theorem forall_index_dispatchFrom {P : Nat → Prop} (active : Nat → Bool) :
    ∀ (n : Nat) (fs : List Frame), (∀ a ∈ dispatchFrom active n fs, ∀ i ∈ a.index, P i) ↔
      ∀ f ∈ fs, P f.channel.toNat
  | _, [] => by simp [dispatchFrom]
  | n, f :: fs => by
      rw [dispatchFrom, List.forall_mem_append, List.forall_mem_cons, forall_index_dispatch,
        forall_index_dispatchFrom active (n + 1) fs]

/-- A whole frame starts where the scan stands. -/
def Scan.AtFrame (s : Scan) : Prop :=
  sizeofFrameHeader ≤ s.rest.length ∧ (hdrAt s.rest).magic = frameMagic ∧
    totalNeeded (hdrAt s.rest) ≤ s.rest.length

/-- In the scan after a read, every whole frame is for a channel of the table. -/
def InTable (R data : List UInt8) : Prop :=
  data ≠ [] → ∀ t ∈ Scan.states (accumulate R data), t.AtFrame →
    (hdrAt t.rest).channel.toNat < maxChannels

/-- A scan recognises the frames it stands at. -/
theorem Scan.mem_run {R : List UInt8} {f : Frame} :
    f ∈ (Scan.run R).2 ↔ ∃ t ∈ Scan.states R, t.AtFrame ∧ f = (hdrAt t.rest).frame t.rest := by
  rw [Scan.run, mem_loop]
  constructor
  · rintro ⟨t, ht, u, out, hp, hf⟩
    refine ⟨t, ht, ?_⟩
    cases t.passMove with
    | short _ hq | wait _ _ _ hq =>
        rw [hp] at hq
        cases hq
    | skip _ _ v hq _ =>
        rw [hp] at hq
        cases hq
        exact absurd hf List.not_mem_nil
    | emit h12 hm htot v hq _ =>
        rw [hp] at hq
        cases hq
        exact ⟨⟨h12, hm, htot⟩, List.mem_singleton.mp hf⟩
  · rintro ⟨t, ht, ⟨h12, hm, htot⟩, rfl⟩
    cases t.passMove with
    | short hlt _ => omega
    | skip _ hne _ _ _ => exact absurd hm hne
    | wait _ _ hlt _ => omega
    | emit _ _ _ v hq _ => exact ⟨t, ht, v, _, hq, List.mem_singleton.mpr rfl⟩

theorem inTable_iff {R data : List UInt8} :
    InTable R data ↔ ∀ f ∈ (usbRxThread R data).2, f.channel.toNat < maxChannels := by
  rw [InTable, usbRxThread]
  split
  · next h => simp [h]
  · next h =>
    simp only [h, ne_eq, not_false_eq_true, forall_const, Scan.mem_run]
    constructor
    · rintro hall f ⟨t, ht, hat, rfl⟩
      exact hall t ht hat
    · intro hall t ht hat
      exact hall _ ⟨t, ht, hat, rfl⟩

/-- The dispatch stays inside the channel table exactly when every whole frame
that the scan comes to is for a channel of the table. -/
theorem usbRxActions_inTable (active : Nat → Bool) (cs : List (List UInt8)) :
    (∀ a ∈ usbRxActions active cs, ∀ i ∈ a.index, i < maxChannels) ↔
      Along usbRxThread InTable [] cs := by
  rw [usbRxActions, forall_index_dispatchFrom (P := fun i => i < maxChannels),
    forall_mem_runChunks]
  constructor
  · exact fun h => h.mono fun _ _ => inTable_iff.mpr
  · exact fun h => h.mono fun _ _ => inTable_iff.mp

/-- A frame for channel 32. -/
theorem usbRxActions_inTable_32 :
    ¬ ∀ a ∈ usbRxActions (fun _ => false) [Frame.encode ⟨32, flagData, []⟩],
      ∀ i ∈ a.index, i < maxChannels := by
  decide

end MFoES.Usbd
