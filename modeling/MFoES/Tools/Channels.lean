import Mathlib.Data.Int.Notation
import Mathlib.Logic.Function.Basic
import MFoES.Usbproto.Wire
import MFoES.Lib.Transition

/-!
# The channels of `usb_channel.py`

`UsbChannelManager` keeps a dictionary of channel objects, guarded by `_ch_lock`.  Application
threads open and close channels.  The receive thread looks the channel of a frame up, and acts on
what it found.

An event is a critical section of `_ch_lock`, with what its thread does as far as the next one.
An OPEN frame takes two critical sections, and so does a CLOSE frame or a `close`: the dictionary
can have changed in between, and what is put in or taken out is named by its channel id alone.
-/

namespace MFoES.Tools

namespace Channels

open Usbproto Transition

/-- `FLAG_DATA`. -/
def flagData : UInt8 := 0x00

/-- `FLAG_OPEN`. -/
def flagOpen : UInt8 := 0x01

/-- `FLAG_CLOSE`. -/
def flagClose : UInt8 := 0x02

/-! ## Channel objects -/

/-- What a channel object is handed. -/
inductive Delivery where
  /-- A payload, to `_on_data_cb`. -/
  | callback (payload : List UInt8)
  /-- A payload, to `_rx_queue`. -/
  | queued (payload : List UInt8)
  /-- `None`, to `_rx_queue`. -/
  | closed
deriving DecidableEq

def Delivery.payload : Delivery → Option (List UInt8)
  | .callback payload => some payload
  | .queued payload => some payload
  | .closed => none

/-- `UsbChannel`. -/
structure UsbChannel where
  channelId : Int
  /-- `_open`. -/
  isOpen : Bool := true
  /-- `_on_data_cb` is set. -/
  onDataCb : Bool := false
  /-- What it was handed so far. -/
  deliveries : List Delivery := []
  /-- How many frames were dispatched before it was created. -/
  born : Nat := 0
  /-- The thread that created it in `open_channel`, unless the receive thread did. -/
  opener : Option Nat := none

namespace UsbChannel

/-- `UsbChannel._dispatch`. -/
def dispatch (ch : UsbChannel) (payload : List UInt8) : UsbChannel :=
  { ch with
    deliveries := ch.deliveries ++ [if ch.onDataCb then .callback payload else .queued payload] }

/-- `_mark_closed`. -/
def markClosed (ch : UsbChannel) : UsbChannel :=
  { ch with isOpen := false, deliveries := ch.deliveries ++ [.closed] }

/-- The payloads it was handed. -/
def payloads (ch : UsbChannel) : List (List UInt8) := ch.deliveries.filterMap Delivery.payload

end UsbChannel

/-! ## State -/

/-- A channel object, by the order of creation. -/
abbrev Object := Nat

/-- Where an application thread is. -/
inductive Thread where
  | idle
  /-- In `open_channel`, which has registered a new object.  Before OPEN is sent. -/
  | opened (ch : Object)
  /-- In `close`, which has sent CLOSE.  Before `_remove_channel`. -/
  | removing (ch : Object)
deriving DecidableEq

/-- Where the receive thread is. -/
inductive Receive where
  | idle
  /-- In `_dispatch`, which has looked the channel up. -/
  | found (frame : Frame) (ch : Option Object)
  /-- At a CLOSE frame, with the object marked closed.  Before the channel is removed. -/
  | removing (channelId : Int)
deriving DecidableEq

/-- `UsbChannelManager`, as far as the channels go. -/
structure Manager where
  /-- `_channels`. -/
  channels : Int → Option Object := fun _ => none
  objects : Object → UsbChannel := fun _ => { channelId := 0 }
  /-- How many objects there are. -/
  created : Nat := 0
  threads : Nat → Thread := fun _ => .idle
  receive : Receive := .idle
  /-- What `open_channel` returned so far. -/
  returned : List Object := []
  /-- The frames so far whose dispatch has begun. -/
  dispatched : List Frame := []

/-! ## Steps -/

/-- What happens to the channels. -/
inductive Event where
  /-- A thread calls `open_channel`. -/
  | openChannel (thread : Nat) (channelId : Int)
  /-- A thread calls `close` on an object.  Sending CLOSE may raise an exception. -/
  | close (thread : Nat) (ch : Object) (raises : Bool)
  /-- A thread goes on.  Sending OPEN may raise an exception. -/
  | thread (thread : Nat) (raises : Bool)
  /-- `set_data_callback`. -/
  | setDataCallback (ch : Object) (set : Bool)
  /-- The receive thread begins to dispatch a frame. -/
  | dispatch (frame : Frame)
  /-- The receive thread goes on. -/
  | receive
deriving DecidableEq

/-- The key of the channel of a frame. -/
def channelKey (frame : Frame) : Int := frame.channel.toNat

/-- `encode_frame` packs the channel id as a byte. -/
def Packs (channelId : Int) : Prop := 0 ≤ channelId ∧ channelId < 256

instance : DecidablePred Packs := fun _ => inferInstanceAs (Decidable (_ ∧ _))

/-- The frame brings data. -/
def IsData (frame : Frame) : Prop := frame.flags = flagData ∧ frame.payload ≠ []

instance : DecidablePred IsData := fun _ => inferInstanceAs (Decidable (_ ∧ _))

namespace Manager

/-- A thread goes to. -/
def goto (s : Manager) (thread : Nat) (pc : Thread) : Manager :=
  { s with threads := Function.update s.threads thread pc }

/-- A new object is registered. -/
def register (s : Manager) (channelId : Int) (opener : Option Nat) : Manager :=
  { s with
    channels := Function.update s.channels channelId (some s.created)
    objects := Function.update s.objects s.created
      { channelId, born := s.dispatched.length, opener }
    created := s.created + 1 }

/-- `_channels.pop(channel_id, None)`. -/
def remove (s : Manager) (channelId : Int) : Manager :=
  { s with channels := Function.update s.channels channelId none }

/-- An object changes. -/
def modify (s : Manager) (ch : Object) (f : UsbChannel → UsbChannel) : Manager :=
  { s with objects := Function.update s.objects ch (f (s.objects ch)) }

/-- `open_channel`, as far as its critical section goes. -/
def openStep (s : Manager) (thread : Nat) (channelId : Int) : Option Manager :=
  if s.threads thread = .idle then
    match s.channels channelId with
    | some ch => some { s with returned := s.returned ++ [ch] }
    | none => some ((s.register channelId (some thread)).goto thread (.opened s.created))
  else none

/-- `UsbChannel.close`, before `_remove_channel`. -/
def closeStep (s : Manager) (thread : Nat) (ch : Object) (raises : Bool) : Option Manager :=
  if s.threads thread = .idle ∧ ch ∈ s.returned then
    if (s.objects ch).isOpen then
      let s := s.modify ch fun c => { c with isOpen := false }
      if ¬ raises ∧ Packs (s.objects ch).channelId then some (s.goto thread (.removing ch))
      else some s
    else some s
  else none

/-- The rest of `open_channel`, and `_remove_channel`. -/
def threadStep (s : Manager) (thread : Nat) (raises : Bool) : Option Manager :=
  match s.threads thread with
  | .idle => none
  | .opened ch =>
    if ¬ raises ∧ Packs (s.objects ch).channelId then
      some (goto { s with returned := s.returned ++ [ch] } thread .idle)
    else some (s.goto thread .idle)
  | .removing ch => some ((s.remove (s.objects ch).channelId).goto thread .idle)

/-- `_dispatch`, as far as the look-up. -/
def dispatchStep (s : Manager) (frame : Frame) : Option Manager :=
  match s.receive with
  | .idle =>
    some { s with
      dispatched := s.dispatched ++ [frame]
      receive := .found frame (s.channels (channelKey frame)) }
  | .found _ _ => none
  | .removing _ => none

/-- `_dispatch`, from the look-up on. -/
def receiveStep (s : Manager) : Option Manager :=
  match s.receive with
  | .idle => none
  | .found frame ch =>
    if frame.flags = flagOpen then
      match ch with
      | none => some { s.register (channelKey frame) none with receive := .idle }
      | some _ => some { s with receive := .idle }
    else if frame.flags = flagClose then
      match ch with
      | none => some { s with receive := .idle }
      | some ch =>
        some { s.modify ch UsbChannel.markClosed with receive := .removing (channelKey frame) }
    else
      match ch with
      | none => some { s with receive := .idle }
      | some ch =>
        if IsData frame then
          some { s.modify ch (·.dispatch frame.payload) with receive := .idle }
        else some { s with receive := .idle }
  | .removing channelId => some { s.remove channelId with receive := .idle }

/-- The step of an event. -/
def step (s : Manager) : Event → Option Manager
  | .openChannel thread channelId => s.openStep thread channelId
  | .close thread ch raises => s.closeStep thread ch raises
  | .thread thread raises => s.threadStep thread raises
  | .setDataCallback ch set =>
    if ch ∈ s.returned then some (s.modify ch fun c => { c with onDataCb := set }) else none
  | .dispatch frame => s.dispatchStep frame
  | .receive => s.receiveStep

/-! ## Registered objects -/

/-- The payloads for the channel of an object in the frames dispatched since it was created. -/
def due (s : Manager) (ch : Object) : List (List UInt8) :=
  ((s.dispatched.drop (s.objects ch).born).filter fun frame =>
    channelKey frame = (s.objects ch).channelId ∧ IsData frame).map Frame.payload

/-- Every object that was returned and is open is the one registered for its channel, and between
two frames it has what is due, once and in order. -/
def Registered (s : Manager) : Prop :=
  ∀ ch ∈ s.returned, (s.objects ch).isOpen = true →
    s.channels (s.objects ch).channelId = some ch ∧
      (s.receive = .idle → (s.objects ch).payloads = s.due ch)

/-- An application has the object, or is about to. -/
def Handed (s : Manager) (ch : Object) : Prop :=
  ch ∈ s.returned ∨ ∃ thread ∈ (s.objects ch).opener, s.threads thread = .opened ch

/-- The object that is registered for a channel is none that an application has open. -/
def Free (s : Manager) (channelId : Int) : Prop :=
  ∀ ch ∈ s.channels channelId, (s.objects ch).isOpen = true → ¬ s.Handed ch

/-- What a step puts in or takes out replaces no object that an application has open. -/
def Sparing (s : Manager) : Event → Prop
  | .thread thread _ =>
    match s.threads thread with
    | .removing ch => s.Free (s.objects ch).channelId
    | _ => True
  | .receive =>
    match s.receive with
    | .found frame none => frame.flags = flagOpen → s.Free (channelKey frame)
    | .removing channelId => s.Free channelId
    | _ => True
  | _ => True

instance (s : Manager) : DecidablePred s.Handed := fun ch =>
  inferInstanceAs (Decidable (ch ∈ s.returned ∨ ∃ thread ∈ (s.objects ch).opener, _))

instance (s : Manager) : DecidablePred s.Free := fun channelId =>
  inferInstanceAs (Decidable (∀ ch ∈ s.channels channelId, _ → ¬ _))

instance (s : Manager) : DecidablePred s.Sparing
  | .thread thread _ =>
    match h : s.threads thread with
    | .removing ch => decidable_of_iff (s.Free (s.objects ch).channelId) (by rw [Sparing, h])
    | .idle => .isTrue (by rw [Sparing, h]; trivial)
    | .opened _ => .isTrue (by rw [Sparing, h]; trivial)
  | .receive =>
    match h : s.receive with
    | .found frame none =>
      decidable_of_iff (frame.flags = flagOpen → s.Free (channelKey frame)) (by rw [Sparing, h])
    | .removing channelId => decidable_of_iff (s.Free channelId) (by rw [Sparing, h])
    | .found _ (some _) => .isTrue (by rw [Sparing, h]; trivial)
    | .idle => .isTrue (by rw [Sparing, h]; trivial)
  | .openChannel _ _ => .isTrue trivial
  | .close _ _ _ => .isTrue trivial
  | .setDataCallback _ _ => .isTrue trivial
  | .dispatch _ => .isTrue trivial

/-! ## What a step does -/

/-- A step, by what it does. -/
inductive Move (s : Manager) : Event → Manager → Prop
  | reuse (thread : Nat) (channelId : Int) (ch : Object) (hch : s.channels channelId = some ch) :
      Move s (.openChannel thread channelId) { s with returned := s.returned ++ [ch] }
  | create (thread : Nat) (channelId : Int) (hpc : s.threads thread = .idle)
      (hch : s.channels channelId = none) :
      Move s (.openChannel thread channelId)
        ((s.register channelId (some thread)).goto thread (.opened s.created))
  | close (thread : Nat) (ch : Object) (raises : Bool) (hpc : s.threads thread = .idle)
      (hret : ch ∈ s.returned) (hpacks : Packs (s.objects ch).channelId) :
      Move s (.close thread ch raises)
        ((s.modify ch fun c => { c with isOpen := false }).goto thread (.removing ch))
  | closeRaise (thread : Nat) (ch : Object) (raises : Bool) :
      Move s (.close thread ch raises) (s.modify ch fun c => { c with isOpen := false })
  | closeAgain (thread : Nat) (ch : Object) (raises : Bool) : Move s (.close thread ch raises) s
  | opened (thread : Nat) (ch : Object) (raises : Bool) (hpc : s.threads thread = .opened ch) :
      Move s (.thread thread raises)
        (goto { s with returned := s.returned ++ [ch] } thread .idle)
  | openRaise (thread : Nat) (ch : Object) (raises : Bool) (hpc : s.threads thread = .opened ch) :
      Move s (.thread thread raises) (s.goto thread .idle)
  | remove (thread : Nat) (ch : Object) (raises : Bool) (hpc : s.threads thread = .removing ch) :
      Move s (.thread thread raises) ((s.remove (s.objects ch).channelId).goto thread .idle)
  | setDataCallback (ch : Object) (set : Bool) :
      Move s (.setDataCallback ch set) (s.modify ch fun c => { c with onDataCb := set })
  | dispatch (frame : Frame) (hpc : s.receive = .idle) :
      Move s (.dispatch frame) { s with
        dispatched := s.dispatched ++ [frame]
        receive := .found frame (s.channels (channelKey frame)) }
  | registerFrame (frame : Frame) (hpc : s.receive = .found frame none)
      (hflags : frame.flags = flagOpen) :
      Move s .receive { s.register (channelKey frame) none with receive := .idle }
  | ignore (frame : Frame) (ch : Option Object) (hpc : s.receive = .found frame ch)
      (hdata : ch = none ∨ ¬ IsData frame) : Move s .receive { s with receive := .idle }
  | markClosed (frame : Frame) (ch : Object) (hpc : s.receive = .found frame (some ch))
      (hflags : frame.flags = flagClose) :
      Move s .receive
        { s.modify ch UsbChannel.markClosed with receive := .removing (channelKey frame) }
  | deliver (frame : Frame) (ch : Object) (hpc : s.receive = .found frame (some ch))
      (hdata : IsData frame) :
      Move s .receive { s.modify ch (·.dispatch frame.payload) with receive := .idle }
  | removeFrame (channelId : Int) (hpc : s.receive = .removing channelId) :
      Move s .receive { s.remove channelId with receive := .idle }

variable {s t : Manager}

theorem move_of_receive (h : s.receiveStep = some t) : s.Move .receive t := by
  rw [receiveStep] at h
  split at h
  · cases h
  · next frame ch hpc =>
    split at h
    · next hflags =>
      have hdata : ¬ IsData frame := fun hdata => by
        rw [IsData, hflags] at hdata
        exact absurd hdata.1 (by decide)
      split at h
      · cases h
        exact .registerFrame frame hpc hflags
      · cases h
        exact .ignore frame _ hpc (.inr hdata)
    · split at h
      · next hflags =>
        split at h
        · cases h
          exact .ignore frame _ hpc (.inl rfl)
        · cases h
          exact .markClosed frame _ hpc hflags
      · split at h
        · cases h
          exact .ignore frame _ hpc (.inl rfl)
        · split at h
          · next hdata =>
            cases h
            exact .deliver frame _ hpc hdata
          · next hdata =>
            cases h
            exact .ignore frame _ hpc (.inr hdata)
  · next channelId hpc =>
    cases h
    exact .removeFrame channelId hpc

theorem move_of_step {e : Event} (h : s.step e = some t) : s.Move e t := by
  cases e with
  | openChannel thread channelId =>
      rw [step, openStep, Option.ite_none_right_eq_some] at h
      obtain ⟨hpc, h⟩ := h
      split at h
      · next ch hch =>
        cases h
        exact .reuse thread channelId ch hch
      · next hch =>
        cases h
        exact .create thread channelId hpc hch
  | close thread ch raises =>
      rw [step, closeStep, Option.ite_none_right_eq_some] at h
      obtain ⟨⟨hpc, hret⟩, h⟩ := h
      split at h
      · dsimp only at h
        split at h
        · next hpacks =>
          cases h
          refine .close thread ch raises hpc hret ?_
          simpa [modify] using hpacks.2
        · cases h
          exact .closeRaise thread ch raises
      · cases h
        exact .closeAgain thread ch raises
  | thread thread raises =>
      rw [step, threadStep] at h
      split at h
      · cases h
      · next ch hpc =>
        split at h
        · cases h
          exact .opened thread ch raises hpc
        · cases h
          exact .openRaise thread ch raises hpc
      · next ch hpc =>
        cases h
        exact .remove thread ch raises hpc
  | setDataCallback ch set =>
      rw [step, Option.ite_none_right_eq_some] at h
      obtain ⟨-, h⟩ := h
      cases h
      exact .setDataCallback ch set
  | dispatch frame =>
      rw [step, dispatchStep] at h
      split at h
      · next hpc =>
        cases h
        exact .dispatch frame hpc
      · cases h
      · cases h
  | receive => exact move_of_receive h

/-! ## What every step keeps -/

/-- What the dictionary, the threads and the objects know of each other. -/
structure Known (s : Manager) : Prop where
  registered : ∀ channelId ch, s.channels channelId = some ch →
    ch < s.created ∧ (s.objects ch).channelId = channelId
  returned : ∀ ch ∈ s.returned, ch < s.created
  opened : ∀ thread ch, s.threads thread = .opened ch →
    ch < s.created ∧ (s.objects ch).opener = some thread
  removing : ∀ thread ch, s.threads thread = .removing ch →
    ch < s.created ∧ Packs (s.objects ch).channelId
  found : ∀ frame ch, s.receive = .found frame (some ch) → ch < s.created
  key : ∀ channelId, s.receive = .removing channelId → Packs channelId
  born : ∀ ch, (s.objects ch).born ≤ s.dispatched.length

theorem packs_channelKey (frame : Frame) : Packs (channelKey frame) := by
  have hlt := frame.channel.toNat_lt
  rw [Packs, channelKey]
  omega

theorem objects_register {channelId : Int} {opener : Option Nat} {ch : Object}
    (hch : ch < s.created) : (s.register channelId opener).objects ch = s.objects ch :=
  Function.update_of_ne (Nat.ne_of_lt hch) _ _

theorem Known.register (h : s.Known) (channelId : Int) (opener : Option Nat) :
    (s.register channelId opener).Known := by
  constructor
  · intro channelId' ch hch
    change Function.update s.channels channelId (some s.created) channelId' = some ch at hch
    rw [Function.update_apply] at hch
    split at hch
    · next heq =>
      cases hch
      refine ⟨Nat.lt_succ_self _, ?_⟩
      show (Function.update s.objects s.created _ s.created).channelId = channelId'
      rw [Function.update_self, heq]
    · obtain ⟨hlt, hid⟩ := h.registered channelId' ch hch
      rw [objects_register hlt]
      exact ⟨Nat.lt_succ_of_lt hlt, hid⟩
  · exact fun ch hch => Nat.lt_succ_of_lt (h.returned ch hch)
  · intro thread ch hpc
    obtain ⟨hlt, hopener⟩ := h.opened thread ch hpc
    rw [objects_register hlt]
    exact ⟨Nat.lt_succ_of_lt hlt, hopener⟩
  · intro thread ch hpc
    obtain ⟨hlt, hpacks⟩ := h.removing thread ch hpc
    rw [objects_register hlt]
    exact ⟨Nat.lt_succ_of_lt hlt, hpacks⟩
  · exact fun frame ch hpc => Nat.lt_succ_of_lt (h.found frame ch hpc)
  · exact h.key
  · intro ch
    show (Function.update s.objects s.created _ ch).born ≤ s.dispatched.length
    rw [Function.update_apply]
    split
    · exact Nat.le_refl _
    · exact h.born ch

theorem channels_of_remove {channelId channelId' : Int} {ch : Object}
    (hch : (s.remove channelId).channels channelId' = some ch) :
    s.channels channelId' = some ch := by
  change Function.update s.channels channelId none channelId' = some ch at hch
  rw [Function.update_apply] at hch
  split at hch
  · cases hch
  · exact hch

theorem Known.remove (h : s.Known) (channelId : Int) : (s.remove channelId).Known := by
  refine ⟨?_, h.returned, h.opened, h.removing, h.found, h.key, h.born⟩
  exact fun channelId' ch hch => h.registered channelId' ch (channels_of_remove hch)

/-- The fields of an object that stay as they are. -/
structure SameObject (c c' : UsbChannel) : Prop where
  channelId : c'.channelId = c.channelId
  born : c'.born = c.born
  opener : c'.opener = c.opener

theorem SameObject.modify {ch : Object} {f : UsbChannel → UsbChannel}
    (hf : SameObject (s.objects ch) (f (s.objects ch))) (ch' : Object) :
    SameObject (s.objects ch') ((s.modify ch f).objects ch') := by
  show SameObject _ (Function.update s.objects ch (f (s.objects ch)) ch')
  rw [Function.update_apply]
  split
  · next heq =>
    rw [heq]
    exact hf
  · exact ⟨rfl, rfl, rfl⟩

theorem Known.modify (h : s.Known) {ch : Object} {f : UsbChannel → UsbChannel}
    (hf : SameObject (s.objects ch) (f (s.objects ch))) : (s.modify ch f).Known := by
  have hsame := SameObject.modify hf
  refine ⟨?_, h.returned, ?_, ?_, h.found, h.key, ?_⟩
  · intro channelId ch' hch
    rw [(hsame ch').channelId]
    exact h.registered channelId ch' hch
  · intro thread ch' hpc
    rw [(hsame ch').opener]
    exact h.opened thread ch' hpc
  · intro thread ch' hpc
    rw [(hsame ch').channelId]
    exact h.removing thread ch' hpc
  · intro ch'
    rw [(hsame ch').born]
    exact h.born ch'

theorem Known.goto (h : s.Known) {thread : Nat} {pc : Thread}
    (hopened : ∀ ch, pc = .opened ch → ch < s.created ∧ (s.objects ch).opener = some thread)
    (hremoving : ∀ ch, pc = .removing ch → ch < s.created ∧ Packs (s.objects ch).channelId) :
    (s.goto thread pc).Known := by
  refine ⟨h.registered, h.returned, ?_, ?_, h.found, h.key, h.born⟩
  · intro thread' ch hpc
    change Function.update s.threads thread pc thread' = .opened ch at hpc
    rw [Function.update_apply] at hpc
    split at hpc
    · next heq =>
      rw [heq]
      exact hopened ch hpc
    · exact h.opened thread' ch hpc
  · intro thread' ch hpc
    change Function.update s.threads thread pc thread' = .removing ch at hpc
    rw [Function.update_apply] at hpc
    split at hpc
    · exact hremoving ch hpc
    · exact h.removing thread' ch hpc

theorem Known.idle (h : s.Known) (thread : Nat) : (s.goto thread .idle).Known :=
  h.goto (fun _ hpc => nomatch hpc) (fun _ hpc => nomatch hpc)

theorem Known.setReceive (h : s.Known) {pc : Receive}
    (hfound : ∀ frame ch, pc = .found frame (some ch) → ch < s.created)
    (hkey : ∀ channelId, pc = .removing channelId → Packs channelId) :
    ({ s with receive := pc } : Manager).Known :=
  ⟨h.registered, h.returned, h.opened, h.removing, hfound, hkey, h.born⟩

theorem Known.receiveIdle (h : s.Known) : ({ s with receive := .idle } : Manager).Known :=
  h.setReceive (fun _ _ hpc => nomatch hpc) (fun _ hpc => nomatch hpc)

theorem Known.hand (h : s.Known) {ch : Object} (hch : ch < s.created) :
    ({ s with returned := s.returned ++ [ch] } : Manager).Known := by
  refine ⟨h.registered, ?_, h.opened, h.removing, h.found, h.key, h.born⟩
  intro ch' hmem
  rcases List.mem_append.mp hmem with hmem | hmem
  · exact h.returned ch' hmem
  · rw [List.mem_singleton.mp hmem]
    exact hch

theorem Known.move (h : s.Known) {e : Event} (hm : s.Move e t) : t.Known := by
  cases hm with
  | reuse thread channelId ch hch => exact h.hand (h.registered channelId ch hch).1
  | create thread channelId hpc hch =>
      refine (h.register channelId (some thread)).goto ?_ (fun _ hpc => nomatch hpc)
      intro ch hpc
      cases hpc
      refine ⟨Nat.lt_succ_self _, ?_⟩
      show (Function.update s.objects s.created _ s.created).opener = _
      rw [Function.update_self]
  | close thread ch raises hpc hret hpacks =>
      refine (h.modify ⟨rfl, rfl, rfl⟩).goto (fun _ hpc => nomatch hpc) ?_
      intro ch' hpc
      cases hpc
      refine ⟨h.returned ch hret, ?_⟩
      rw [(SameObject.modify ⟨rfl, rfl, rfl⟩ ch).channelId]
      exact hpacks
  | closeRaise thread ch raises => exact h.modify ⟨rfl, rfl, rfl⟩
  | closeAgain thread ch raises => exact h
  | opened thread ch raises hpc => exact (h.hand (h.opened thread ch hpc).1).idle thread
  | openRaise thread ch raises hpc => exact h.idle thread
  | remove thread ch raises hpc => exact (h.remove _).idle thread
  | setDataCallback ch set => exact h.modify ⟨rfl, rfl, rfl⟩
  | dispatch frame hpc =>
      refine ⟨h.registered, h.returned, h.opened, h.removing, ?_, fun _ hpc => (nomatch hpc), ?_⟩
      · intro frame' ch hfound
        injection hfound with _ hch
        exact (h.registered _ ch hch).1
      · intro ch
        show _ ≤ (s.dispatched ++ [frame]).length
        rw [List.length_append]
        exact Nat.le_add_right_of_le (h.born ch)
  | registerFrame frame hpc hflags => exact (h.register _ none).receiveIdle
  | ignore frame ch hpc hdata => exact h.receiveIdle
  | markClosed frame ch hpc hflags =>
      refine Known.setReceive (h.modify ⟨rfl, rfl, rfl⟩) (fun _ _ hpc => nomatch hpc) ?_
      intro channelId hkey
      cases hkey
      exact packs_channelKey frame
  | deliver frame ch hpc hdata => exact Known.receiveIdle (h.modify ⟨rfl, rfl, rfl⟩)
  | removeFrame channelId hpc => exact (h.remove channelId).receiveIdle

/-! ## Payloads -/

/-- The payload that the receive thread is about to hand to an object. -/
def inFlight (s : Manager) (ch : Object) : List (List UInt8) :=
  match s.receive with
  | .found frame (some ch') => if ch' = ch ∧ IsData frame then [frame.payload] else []
  | _ => []

/-- A registered object has what is due, or is about to be handed the rest. -/
def Delivered (s : Manager) : Prop :=
  ∀ channelId ch, s.channels channelId = some ch →
    (s.objects ch).payloads ++ s.inFlight ch = s.due ch

theorem payloads_dispatch (c : UsbChannel) (payload : List UInt8) :
    (c.dispatch payload).payloads = c.payloads ++ [payload] := by
  rw [UsbChannel.payloads, UsbChannel.dispatch, List.filterMap_append]
  cases c.onDataCb with
  | false => rfl
  | true => rfl

theorem payloads_markClosed (c : UsbChannel) : c.markClosed.payloads = c.payloads := by
  rw [UsbChannel.payloads, UsbChannel.markClosed, List.filterMap_append]
  exact List.append_nil _

theorem inFlight_created (h : s.Known) : s.inFlight s.created = [] := by
  rw [inFlight]
  split
  · next frame ch hpc =>
    refine if_neg fun hch => ?_
    exact Nat.lt_irrefl _ (hch.1 ▸ h.found frame ch hpc)
  · rfl

theorem due_register {channelId : Int} {opener : Option Nat} {ch : Object}
    (hch : ch < s.created) : (s.register channelId opener).due ch = s.due ch := by
  rw [due, due, objects_register hch]
  rfl

theorem due_modify {ch : Object} {f : UsbChannel → UsbChannel}
    (hf : SameObject (s.objects ch) (f (s.objects ch))) (ch' : Object) :
    (s.modify ch f).due ch' = s.due ch' := by
  have hsame := SameObject.modify hf ch'
  rw [due, due, hsame.channelId, hsame.born]
  rfl

theorem Delivered.register (h : s.Delivered) (hk : s.Known) (channelId : Int)
    (opener : Option Nat) : (s.register channelId opener).Delivered := by
  intro channelId' ch hch
  change Function.update s.channels channelId (some s.created) channelId' = some ch at hch
  rw [Function.update_apply] at hch
  split at hch
  · cases hch
    have hnew : (s.register channelId opener).objects s.created =
        { channelId, born := s.dispatched.length, opener } :=
      Function.update_self ..
    have hflight : (s.register channelId opener).inFlight s.created = [] := inFlight_created hk
    rw [due, hnew, hflight]
    show _ = ((s.dispatched.drop s.dispatched.length).filter _).map _
    rw [List.drop_length]
    rfl
  · have hlt := (hk.registered channelId' ch hch).1
    rw [objects_register hlt, due_register hlt]
    exact h channelId' ch hch

theorem Delivered.remove (h : s.Delivered) (channelId : Int) : (s.remove channelId).Delivered := by
  exact fun channelId' ch hch => h channelId' ch (channels_of_remove hch)

theorem Delivered.modify (h : s.Delivered) {ch : Object} {f : UsbChannel → UsbChannel}
    (hf : SameObject (s.objects ch) (f (s.objects ch)))
    (hpayloads : (f (s.objects ch)).payloads = (s.objects ch).payloads) :
    (s.modify ch f).Delivered := by
  intro channelId ch' hch
  rw [due_modify hf, ← h channelId ch' hch]
  have heq : ((s.modify ch f).objects ch').payloads = (s.objects ch').payloads := by
    show (Function.update s.objects ch (f (s.objects ch)) ch').payloads = _
    rw [Function.update_apply]
    split
    · next hsame =>
      rw [hsame]
      exact hpayloads
    · rfl
  rw [heq]
  rfl

/-- The receive thread goes on without a payload. -/
theorem Delivered.setReceive (h : s.Delivered) {pc : Receive}
    (hflight : ∀ ch, ({ s with receive := pc } : Manager).inFlight ch = s.inFlight ch) :
    ({ s with receive := pc } : Manager).Delivered := by
  intro channelId ch hch
  rw [hflight]
  exact h channelId ch hch

theorem inFlight_none {frame : Frame} {ch : Option Object} (hpc : s.receive = .found frame ch)
    (hdata : ch = none ∨ ¬ IsData frame) (ch' : Object) : s.inFlight ch' = [] := by
  rw [inFlight, hpc]
  rcases hdata with rfl | hdata
  · rfl
  · cases ch with
    | none => rfl
    | some ch => exact if_neg fun h => hdata h.2

theorem Delivered.deliver (h : s.Delivered) {frame : Frame} {ch : Object}
    (hpc : s.receive = .found frame (some ch)) (hdata : IsData frame) :
    ({ s.modify ch (·.dispatch frame.payload) with receive := .idle } : Manager).Delivered := by
  intro channelId ch' hch
  have hdue : ({ s.modify ch (·.dispatch frame.payload) with receive := .idle } : Manager).due ch' =
      s.due ch' :=
    due_modify (s := s) (f := (·.dispatch frame.payload)) ⟨rfl, rfl, rfl⟩ ch'
  have hflight : s.inFlight ch' =
      if ch = ch' ∧ IsData frame then [frame.payload] else [] := by
    rw [inFlight, hpc]
  rw [hdue, ← h channelId ch' hch, hflight]
  show (Function.update s.objects ch _ ch').payloads ++ [] = _
  rw [Function.update_apply]
  by_cases heq : ch' = ch
  · rw [if_pos heq, if_pos ⟨heq.symm, hdata⟩, heq, payloads_dispatch, List.append_nil]
  · rw [if_neg heq, if_neg fun hsame => heq hsame.1.symm]

theorem Delivered.dispatch (h : s.Delivered) (hk : s.Known) (hpc : s.receive = .idle)
    (frame : Frame) :
    ({ s with
      dispatched := s.dispatched ++ [frame]
      receive := .found frame (s.channels (channelKey frame)) } : Manager).Delivered := by
  intro channelId ch hch
  have hbefore := h channelId ch hch
  have hidle : s.inFlight ch = [] := by rw [inFlight, hpc]
  rw [hidle, List.append_nil] at hbefore
  have hdue : ({ s with
      dispatched := s.dispatched ++ [frame]
      receive := .found frame (s.channels (channelKey frame)) } : Manager).due ch =
      s.due ch ++
        if channelKey frame = (s.objects ch).channelId ∧ IsData frame then [frame.payload]
        else [] := by
    rw [due, due]
    show (((s.dispatched ++ [frame]).drop (s.objects ch).born).filter _).map _ = _
    rw [List.drop_append_of_le_length (hk.born ch), List.filter_append, List.map_append]
    congr 1
    by_cases hmine : channelKey frame = (s.objects ch).channelId ∧ IsData frame
    · rw [if_pos hmine, List.filter_singleton, decide_eq_true hmine]
      rfl
    · rw [if_neg hmine, List.filter_singleton, decide_eq_false hmine]
      rfl
  rw [hdue, ← hbefore]
  show (s.objects ch).payloads ++ _ = (s.objects ch).payloads ++ _
  congr 1
  -- the object is found exactly where the frame is for its channel
  have hid := (hk.registered channelId ch hch).2
  have hiff : s.channels (channelKey frame) = some ch ↔
      channelKey frame = (s.objects ch).channelId := by
    constructor
    · intro hfound
      exact ((hk.registered _ ch hfound).2).symm
    · intro hkey
      rw [hkey, hid]
      exact hch
  refine Eq.trans ?_ (if_congr (and_congr_left' hiff) rfl rfl)
  show (match Receive.found frame (s.channels (channelKey frame)) with
    | .found frame (some ch') => if ch' = ch ∧ IsData frame then [frame.payload] else []
    | _ => []) = _
  cases s.channels (channelKey frame) with
  | none => simp
  | some ch' => simp

theorem Delivered.move (h : s.Delivered) (hk : s.Known) {e : Event} (hm : s.Move e t) :
    t.Delivered := by
  cases hm with
  | reuse thread channelId ch hch => exact h
  | create thread channelId hpc hch => exact h.register hk channelId (some thread)
  | close thread ch raises hpc hret hpacks =>
      exact h.modify (f := fun c => { c with isOpen := false }) ⟨rfl, rfl, rfl⟩ rfl
  | closeRaise thread ch raises => exact h.modify ⟨rfl, rfl, rfl⟩ rfl
  | closeAgain thread ch raises => exact h
  | opened thread ch raises hpc => exact h
  | openRaise thread ch raises hpc => exact h
  | remove thread ch raises hpc => exact h.remove _
  | setDataCallback ch set => exact h.modify ⟨rfl, rfl, rfl⟩ rfl
  | dispatch frame hpc => exact h.dispatch hk hpc frame
  | registerFrame frame hpc hflags =>
      refine (h.register hk (channelKey frame) none).setReceive fun ch => ?_
      exact (inFlight_none hpc (.inl rfl) ch).symm
  | ignore frame ch hpc hdata =>
      exact h.setReceive fun ch' => (inFlight_none hpc hdata ch').symm
  | markClosed frame ch hpc hflags =>
      have hdata : ¬ IsData frame := fun hdata => by
        rw [IsData, hflags] at hdata
        exact absurd hdata.1 (by decide)
      refine (h.modify ⟨rfl, rfl, rfl⟩ (payloads_markClosed _)).setReceive fun ch' => ?_
      exact (inFlight_none hpc (.inr hdata) ch').symm
  | deliver frame ch hpc hdata => exact h.deliver hpc hdata
  | removeFrame channelId hpc =>
      refine (h.remove channelId).setReceive fun ch => ?_
      show [] = s.inFlight ch
      rw [inFlight, hpc]

/-! ## Objects that stay registered -/

/-- What an application has open is registered. -/
def Intact (s : Manager) : Prop :=
  ∀ ch, s.Handed ch → (s.objects ch).isOpen = true →
    s.channels (s.objects ch).channelId = some ch

/-- A step that hands over no object leaves fewer of them. -/
theorem Intact.of_handed (h : s.Intact) (hchannels : t.channels = s.channels)
    (hid : ∀ ch, (t.objects ch).channelId = (s.objects ch).channelId)
    (hopen : ∀ ch, (t.objects ch).isOpen = true → (s.objects ch).isOpen = true)
    (hhanded : ∀ ch, t.Handed ch → s.Handed ch) : t.Intact := by
  intro ch hch hopen'
  rw [hchannels, hid]
  exact h ch (hhanded ch hch) (hopen ch hopen')

theorem handed_of_goto {thread : Nat} {pc : Thread} {ch : Object} (hpc : pc ≠ .opened ch)
    (h : (s.goto thread pc).Handed ch) : s.Handed ch := by
  refine h.imp_right ?_
  rintro ⟨thread', hopener, hopened⟩
  refine ⟨thread', hopener, ?_⟩
  change Function.update s.threads thread pc thread' = _ at hopened
  rw [Function.update_apply] at hopened
  split at hopened
  · exact (hpc hopened).elim
  · exact hopened

theorem Intact.goto (h : s.Intact) {thread : Nat} {pc : Thread}
    (hpc : ∀ ch, pc ≠ .opened ch) : (s.goto thread pc).Intact :=
  h.of_handed rfl (fun _ => rfl) (fun _ => id) fun ch => handed_of_goto (hpc ch)

theorem handed_of_modify {ch ch' : Object} {f : UsbChannel → UsbChannel}
    (hf : SameObject (s.objects ch) (f (s.objects ch))) (h : (s.modify ch f).Handed ch') :
    s.Handed ch' := by
  rw [Handed, (SameObject.modify hf ch').opener] at h
  exact h

theorem Intact.modify (h : s.Intact) {ch : Object} {f : UsbChannel → UsbChannel}
    (hf : SameObject (s.objects ch) (f (s.objects ch)))
    (hopen : (f (s.objects ch)).isOpen = true → (s.objects ch).isOpen = true) :
    (s.modify ch f).Intact := by
  refine h.of_handed rfl (fun ch' => (SameObject.modify hf ch').channelId) ?_
    fun ch' => handed_of_modify hf
  intro ch'
  show (Function.update s.objects ch (f (s.objects ch)) ch').isOpen = true → _
  rw [Function.update_apply]
  split
  · next heq =>
    rw [heq]
    exact hopen
  · exact id

theorem Intact.remove (h : s.Intact) {channelId : Int} (hfree : s.Free channelId) :
    (s.remove channelId).Intact := by
  intro ch hch hopen
  have hreg := h ch hch hopen
  show Function.update s.channels channelId none (s.objects ch).channelId = some ch
  rw [Function.update_apply]
  split
  · next heq =>
    rw [heq] at hreg
    exact (hfree ch hreg hopen hch).elim
  · exact hreg

theorem handed_of_register (hk : s.Known) {channelId : Int} {opener : Option Nat} {ch : Object}
    (h : (s.register channelId opener).Handed ch) : ch < s.created ∧ s.Handed ch := by
  have hlt : ch < s.created := by
    rcases h with hmem | ⟨thread, -, hpc⟩
    · exact hk.returned ch hmem
    · exact (hk.opened thread ch hpc).1
  rw [Handed, objects_register hlt] at h
  exact ⟨hlt, h⟩

theorem Intact.register (h : s.Intact) (hk : s.Known) {channelId : Int}
    (hfree : s.Free channelId) (opener : Option Nat) : (s.register channelId opener).Intact := by
  intro ch hch hopen
  obtain ⟨hlt, hch⟩ := handed_of_register hk hch
  rw [objects_register hlt] at hopen ⊢
  have hreg := h ch hch hopen
  show Function.update s.channels channelId (some s.created) (s.objects ch).channelId = some ch
  rw [Function.update_apply]
  split
  · next heq =>
    rw [heq] at hreg
    exact (hfree ch hreg hopen hch).elim
  · exact hreg

theorem Intact.move (h : s.Intact) (hk : s.Known) {e : Event} (hs : s.Sparing e)
    (hm : s.Move e t) : t.Intact := by
  cases hm with
  | reuse thread channelId ch hch =>
      intro ch' hhanded hopen
      rcases hhanded with hmem | hopened
      · rcases List.mem_append.mp hmem with hmem | hmem
        · exact h ch' (.inl hmem) hopen
        · rw [List.mem_singleton.mp hmem]
          show s.channels (s.objects ch).channelId = some ch
          rw [(hk.registered channelId ch hch).2]
          exact hch
      · exact h ch' (.inr hopened) hopen
  | create thread channelId hpc hch =>
      have hfree : s.Free channelId := by
        intro ch hmem
        rw [hch] at hmem
        cases hmem
      intro ch hhanded hopen
      by_cases heq : ch = s.created
      · subst heq
        show Function.update s.channels channelId (some s.created)
          (Function.update s.objects s.created _ s.created).channelId = some s.created
        rw [Function.update_self, Function.update_self]
      · have hne : Thread.opened s.created ≠ .opened ch := by
          intro hpc'
          injection hpc' with hpc'
          exact heq hpc'.symm
        exact h.register hk hfree (some thread) ch (handed_of_goto hne hhanded) hopen
  | close thread ch raises hpc hret hpacks =>
      refine Intact.goto ?_ fun _ => Thread.noConfusion
      exact h.modify (f := fun c => { c with isOpen := false }) ⟨rfl, rfl, rfl⟩ fun h => nomatch h
  | closeRaise thread ch raises => exact h.modify ⟨rfl, rfl, rfl⟩ fun h => nomatch h
  | closeAgain thread ch raises => exact h
  | opened thread ch raises hpc =>
      refine h.of_handed rfl (fun _ => rfl) (fun _ => id) fun ch' hhanded => ?_
      rcases handed_of_goto Thread.noConfusion hhanded with hmem | hopened
      · rcases List.mem_append.mp hmem with hmem | hmem
        · exact .inl hmem
        · rw [List.mem_singleton.mp hmem]
          exact .inr ⟨thread, (hk.opened thread ch hpc).2, hpc⟩
      · exact .inr hopened
  | openRaise thread ch raises hpc => exact h.goto fun _ => Thread.noConfusion
  | remove thread ch raises hpc =>
      rw [Sparing, hpc] at hs
      exact (h.remove hs).goto fun _ => Thread.noConfusion
  | setDataCallback ch set => exact h.modify ⟨rfl, rfl, rfl⟩ id
  | dispatch frame hpc => exact h
  | registerFrame frame hpc hflags =>
      rw [Sparing, hpc] at hs
      exact h.register hk (hs hflags) none
  | ignore frame ch hpc hdata => exact h
  | markClosed frame ch hpc hflags =>
      exact h.modify (f := UsbChannel.markClosed) ⟨rfl, rfl, rfl⟩ fun h => nomatch h
  | deliver frame ch hpc hdata =>
      exact h.modify (f := (·.dispatch frame.payload)) ⟨rfl, rfl, rfl⟩ id
  | removeFrame channelId hpc =>
      rw [Sparing, hpc] at hs
      exact h.remove hs

/-! ## Runs -/

theorem Known.init : ({} : Manager).Known where
  registered := fun _ _ hch => nomatch hch
  returned := fun _ hmem => nomatch hmem
  opened := fun _ _ hpc => nomatch hpc
  removing := fun _ _ hpc => nomatch hpc
  found := fun _ _ hpc => nomatch hpc
  key := fun _ hpc => nomatch hpc
  born := fun _ => Nat.le_refl _

/-- What the steps of a run keep that replace no object in use. -/
theorem intact_of_sparing {es : List Event} (h : Throughout Manager.step Sparing {} es)
    (hrun : run Manager.step {} es = some s) : s.Known ∧ s.Delivered ∧ s.Intact := by
  have hstep : ∀ {u : Manager} {e : Event} {v : Manager}, u.Known ∧ u.Delivered ∧ u.Intact →
      u.Sparing e → u.step e = some v → v.Known ∧ v.Delivered ∧ v.Intact := by
    rintro u e v ⟨hknown, hdelivered, hintact⟩ hs hv
    have hm := move_of_step hv
    exact ⟨hknown.move hm, hdelivered.move hknown hm, hintact.move hknown hs hm⟩
  refine run_invariant hstep ⟨Known.init, fun _ _ hch => (nomatch hch), ?_⟩ h hrun
  rintro ch (hmem | ⟨thread, hopener, -⟩)
  · cases hmem
  · cases hopener

/-- In every run in which nothing that is put in the dictionary or taken out replaces an object that
an application has open, those objects stay registered and have what is due. -/
theorem registered_of_sparing {es : List Event} (h : Throughout Manager.step Sparing {} es)
    (hrun : run Manager.step {} es = some s) : s.Registered := by
  obtain ⟨-, hdelivered, hintact⟩ := intact_of_sparing h hrun
  intro ch hmem hopen
  have hreg := hintact ch (.inl hmem) hopen
  refine ⟨hreg, fun hidle => ?_⟩
  have hall := hdelivered _ ch hreg
  rw [inFlight, hidle, List.append_nil] at hall
  exact hall

/-- A channel that the device closes and an application opens again. -/
def reopenedRun : List Event :=
  [.openChannel 0 7, .thread 0 false, .dispatch ⟨7, flagData, [1]⟩, .receive,
    .dispatch ⟨7, flagClose, []⟩, .receive, .receive, .openChannel 1 7, .thread 1 false,
    .dispatch ⟨7, flagData, [2]⟩, .receive]

theorem registered_reopened :
    ∃ s, run Manager.step {} reopenedRun = some s ∧ s.Registered :=
  ⟨_, rfl, @registered_of_sparing _ reopenedRun (by decide) rfl⟩

/-- The device opens a channel while an application does. -/
def crossedRun : List Event :=
  [.dispatch ⟨7, flagOpen, []⟩, .openChannel 0 7, .receive, .thread 0 false,
    .dispatch ⟨7, flagData, [1]⟩, .receive]

theorem not_registered_crossed :
    ∃ s, run Manager.step {} crossedRun = some s ∧ ¬ s.Registered :=
  ⟨_, rfl, fun h => absurd (h 0 List.mem_cons_self rfl).1 (by decide)⟩

/-! ## The condition is exact -/

/-- An object that an application has open and that is not registered comes to be returned. -/
theorem exists_not_registered_of_handed {ch : Object} (hhanded : s.Handed ch)
    (hopen : (s.objects ch).isOpen = true) (hpacks : Packs (s.objects ch).channelId)
    (hreg : s.channels (s.objects ch).channelId ≠ some ch) :
    ∃ fs t, run Manager.step s fs = some t ∧ ¬ t.Registered := by
  rcases hhanded with hmem | ⟨thread, -, hpc⟩
  · exact ⟨[], s, rfl, fun h => hreg (h ch hmem hopen).1⟩
  · have hstep : s.step (.thread thread false) =
        some (goto { s with returned := s.returned ++ [ch] } thread .idle) := by
      rw [Manager.step, threadStep, hpc]
      exact if_pos ⟨Bool.false_ne_true, hpacks⟩
    refine ⟨[.thread thread false], _, run_cons hstep _, fun h => hreg ?_⟩
    exact (h ch (List.mem_append_right _ List.mem_cons_self) hopen).1

/-- A step that takes an object in use out of the dictionary. -/
theorem exists_not_registered_of_remove (hk : s.Known) {channelId : Int}
    (hpacks : Packs channelId) (hfree : ¬ s.Free channelId)
    (hchannels : t.channels = (s.remove channelId).channels) (hobjects : t.objects = s.objects)
    (hhanded : ∀ ch, s.Handed ch → t.Handed ch) :
    ∃ fs u, run Manager.step t fs = some u ∧ ¬ u.Registered := by
  simp only [Free, not_forall, not_not] at hfree
  obtain ⟨ch, hch, hopen, hch'⟩ := hfree
  have hid := (hk.registered channelId ch hch).2
  refine exists_not_registered_of_handed (hhanded ch hch') ?_ ?_ ?_
  · rw [hobjects]
    exact hopen
  · rw [hobjects, hid]
    exact hpacks
  · rw [hchannels, hobjects, hid]
    show Function.update s.channels channelId none channelId ≠ some ch
    rw [Function.update_self]
    exact fun h => nomatch h

theorem exists_not_registered_of_register (hk : s.Known) {frame : Frame}
    (hfree : ¬ s.Free (channelKey frame)) :
    ∃ fs u, run Manager.step { s.register (channelKey frame) none with receive := .idle } fs =
      some u ∧ ¬ u.Registered := by
  simp only [Free, not_forall, not_not] at hfree
  obtain ⟨ch, hch, hopen, hhanded⟩ := hfree
  obtain ⟨hlt, hid⟩ := hk.registered _ ch hch
  have hobj : (s.register (channelKey frame) none).objects ch = s.objects ch :=
    objects_register hlt
  refine @exists_not_registered_of_handed _ ch ?_ ?_ ?_ ?_
  · rcases hhanded with hmem | ⟨thread, hopener, hpc⟩
    · exact .inl hmem
    · refine .inr ⟨thread, ?_, hpc⟩
      show thread ∈ ((s.register (channelKey frame) none).objects ch).opener
      rw [hobj]
      exact hopener
  · show ((s.register (channelKey frame) none).objects ch).isOpen = true
    rw [hobj]
    exact hopen
  · show Packs ((s.register (channelKey frame) none).objects ch).channelId
    rw [hobj, hid]
    exact packs_channelKey frame
  · show Function.update s.channels (channelKey frame) (some s.created)
      ((s.register (channelKey frame) none).objects ch).channelId ≠ some ch
    rw [hobj, hid, Function.update_self]
    intro heq
    injection heq with heq
    exact Nat.lt_irrefl _ (heq ▸ hlt)

/-- The first time that an object in use is replaced, the run can be continued to where it has been
returned and is not registered. -/
theorem exists_not_registered {es : List Event} {e : Event}
    (h : Throughout Manager.step Sparing {} es) (hrun : run Manager.step {} es = some s)
    (he : ¬ s.Sparing e) : ∃ fs t, run Manager.step s (e :: fs) = some t ∧ ¬ t.Registered := by
  obtain ⟨hknown, -, -⟩ := intact_of_sparing h hrun
  cases e with
  | thread thread raises =>
      rw [Sparing] at he
      split at he
      · next ch hpc =>
        have hstep : s.step (.thread thread raises) =
            some ((s.remove (s.objects ch).channelId).goto thread .idle) := by
          rw [Manager.step, threadStep, hpc]
        refine exists_run_cons hstep ?_
        refine exists_not_registered_of_remove hknown (hknown.removing thread ch hpc).2 he rfl rfl
          fun ch' hhanded => ?_
        refine hhanded.imp_right ?_
        rintro ⟨thread', hopener, hopened⟩
        refine ⟨thread', hopener, ?_⟩
        show Function.update s.threads thread .idle thread' = _
        rw [Function.update_apply]
        split
        · next heq =>
          rw [heq, hpc] at hopened
          cases hopened
        · exact hopened
      · exact (he trivial).elim
  | receive =>
      rw [Sparing] at he
      split at he
      · next frame hpc =>
        rw [Classical.not_imp] at he
        have hstep : s.step .receive =
            some { s.register (channelKey frame) none with receive := .idle } := by
          rw [Manager.step, receiveStep, hpc]
          exact if_pos he.1
        exact exists_run_cons hstep (exists_not_registered_of_register hknown he.2)
      · next channelId hpc =>
        have hstep : s.step .receive = some { s.remove channelId with receive := .idle } := by
          rw [Manager.step, receiveStep, hpc]
        refine exists_run_cons hstep ?_
        exact exists_not_registered_of_remove hknown (hknown.key channelId hpc) he rfl rfl
          fun _ hhanded => hhanded
      · exact (he trivial).elim
  | openChannel thread channelId => exact (he trivial).elim
  | close thread ch raises => exact (he trivial).elim
  | setDataCallback ch set => exact (he trivial).elim
  | dispatch frame => exact (he trivial).elim

end Manager
end Channels
end MFoES.Tools
