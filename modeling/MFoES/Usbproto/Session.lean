import MFoES.Libgfx.DrawReplay
import MFoES.Usbproto.DrawStream
import MFoES.Usbproto.FrameParser
import Mathlib.Logic.Function.Basic

/-!
# Session

`Session::pump` reads once from its transport, feeds the frame parser, and
routes each frame by its channel.  `Router` is what the frame callback works on.
Its result is the list of handler calls it makes.

The parser and the router do not touch each other's state, so a run of pumps
routes the frames of the received bytes (`run_events`).  On a channel that is
not closed the data payloads go through the channel's assembler
(`recordsOn_dispatchAll`).  With the draw sizer these are blobs again, whatever
the cuts at either level (`run_delivers`).
-/

namespace MFoES.Usbproto

open Incremental Libgfx

/-- `ChannelState`.  `onRecord` says whether a handler is set. -/
structure ChannelState where
  onRecord : Bool
  assembler : Option (StreamAssembler × RxBuf)

/-- A call of a handler. -/
inductive SessionEvent where
  | frame (f : Frame)
  | opened (channel : UInt8)
  | closed (channel : UInt8)
  | record (channel : UInt8) (data : List UInt8)

/-- The members of `Session` that the frame callback of `pump` uses.
`onFrame`, `onOpened` and `onClosed` say whether a handler is set. -/
structure Router where
  channels : Fin maxChannels → ChannelState
  onFrame : Bool
  onOpened : Bool
  onClosed : Bool
  frames : Nat

namespace Router

/-- Set the state of a channel. -/
def setChannel (r : Router) (c : Fin maxChannels) (cs : ChannelState) : Router :=
  { r with channels := Function.update r.channels c cs }

/-- The `FLAG_DATA` case of the callback. -/
def data (r : Router) (c : Fin maxChannels) (f : Frame) : Router × List SessionEvent :=
  let cs := r.channels c
  if !cs.onRecord ∨ f.payload = [] then (r, [])
  else match cs.assembler with
    | some (a, b) =>
        let (b, records) := a.feed b f.payload
        (r.setChannel c { cs with assembler := some (a, b) }, records.map (.record f.channel))
    | none => (r, [.record f.channel f.payload])

/-- The `FLAG_CLOSE` case of the callback: a half-built record is dropped. -/
def close (r : Router) (c : Fin maxChannels) (f : Frame) : Router × List SessionEvent :=
  let cs := r.channels c
  (r.setChannel c { cs with assembler := cs.assembler.map fun p => (p.1, p.2.reset) },
    if r.onClosed then [.closed f.channel] else [])

/-- The `switch` of the callback.  Other flags are ignored. -/
def route (r : Router) (c : Fin maxChannels) (f : Frame) : Router × List SessionEvent :=
  if f.flags = flagOpen then (r, if r.onOpened then [.opened f.channel] else [])
  else if f.flags = flagClose then r.close c f
  else if f.flags = flagData then r.data c f
  else (r, [])

/-- The frame callback of `pump`. -/
def dispatch (r : Router) (f : Frame) : Router × List SessionEvent :=
  let r := { r with frames := r.frames + 1 }
  let seen := if r.onFrame then [SessionEvent.frame f] else []
  if h : f.channel.toNat < maxChannels then
    let (r, events) := r.route ⟨f.channel.toNat, h⟩ f
    (r, seen ++ events)
  else (r, seen)

/-- The callback on frame after frame. -/
def dispatchAll (r : Router) : List Frame → Router × List SessionEvent
  | [] => (r, [])
  | f :: fs =>
      let s := r.dispatch f
      let t := dispatchAll s.1 fs
      (t.1, s.2 ++ t.2)

theorem dispatchAll_append : ∀ (r : Router) (fs gs : List Frame),
    r.dispatchAll (fs ++ gs) =
      (((r.dispatchAll fs).1.dispatchAll gs).1,
        (r.dispatchAll fs).2 ++ ((r.dispatchAll fs).1.dispatchAll gs).2)
  | _, [], _ => rfl
  | r, f :: fs, gs => by
      simp only [List.cons_append, dispatchAll, dispatchAll_append _ fs gs, List.append_assoc]

end Router

/-- `Session`. -/
structure Session where
  parser : FrameParser
  router : Router
  bytes : Nat

/-- What `recv` returns: an error, or some bytes, and none of them for a
timeout.  A transport that is not open counts as an error. -/
inductive Recv where
  | error
  | bytes (data : List UInt8)

namespace Session

/-- `Session(transport)`: no handler is set. -/
def new : Session where
  parser := .fresh
  router := ⟨fun _ => ⟨false, none⟩, false, false, false, 0⟩
  bytes := 0

/-- `setChannelReassembler`. -/
def setChannelReassembler (s : Session) (channel : UInt8) (sizer : Option (List UInt8 → Nat))
    (syncMagic : Option (List UInt8)) (syncLen : Nat) (onRecord : Bool)
    (maxRecord : Nat := maxFrameSize) : Session :=
  if h : channel.toNat < maxChannels then
    { s with
      router := s.router.setChannel ⟨channel.toNat, h⟩
        ⟨onRecord, some (.new sizer syncMagic syncLen maxRecord, .fresh)⟩ }
  else s

/-- `pump`, with its return value and the handlers it calls. -/
def pump (s : Session) : Recv → Session × Int × List SessionEvent
  | .error => (s, -1, [])
  | .bytes [] => (s, 0, [])
  | .bytes data =>
      let (parser, frames) := FrameParser.feed s.parser data
      let (router, events) := s.router.dispatchAll frames
      (⟨parser, router, s.bytes + data.length⟩, data.length, events)

/-- Pump after pump, with the handlers called. -/
def run (s : Session) : List Recv → Session × List SessionEvent
  | [] => (s, [])
  | r :: rs =>
      let t := s.pump r
      let u := run t.1 rs
      (u.1, t.2.2 ++ u.2)

/-- The chunks that are read. -/
def chunks : List Recv → List (List UInt8)
  | [] => []
  | .error :: rs => chunks rs
  | .bytes [] :: rs => chunks rs
  | .bytes data :: rs => data :: chunks rs

/-- A run of pumps routes the frames of what is read. -/
theorem run_events : ∀ (rs : List Recv) (s : Session),
    (s.run rs).2 =
      (s.router.dispatchAll (runChunks FrameParser.feed s.parser (chunks rs)).2).2
  | [], _ => rfl
  | .error :: rs, s => run_events rs s
  | .bytes [] :: rs, s => run_events rs s
  | .bytes (x :: xs) :: rs, s => by
      simp only [run, pump, chunks, runChunks, Router.dispatchAll_append]
      rw [run_events rs]

end Session

/-! ## One channel -/

/-- The records delivered on a channel. -/
def recordsOn (c : UInt8) (events : List SessionEvent) : List (List UInt8) :=
  events.filterMap fun
    | .record channel data => if channel = c then some data else none
    | _ => none

/-- The payloads that reach the handler or the assembler of a channel. -/
def dataOn (c : UInt8) (fs : List Frame) : List (List UInt8) :=
  (fs.filter fun f => f.channel = c ∧ f.flags = flagData ∧ f.payload ≠ []).map Frame.payload

theorem recordsOn_append (c : UInt8) (es es' : List SessionEvent) :
    recordsOn c (es ++ es') = recordsOn c es ++ recordsOn c es' :=
  List.filterMap_append

theorem recordsOn_map_record (c : UInt8) (rs : List (List UInt8)) :
    recordsOn c (rs.map (.record c)) = rs := by
  induction rs with
  | nil => rfl
  | cons r rs ih =>
      rw [List.map_cons]
      simp only [recordsOn, List.filterMap_cons, if_true] at ih ⊢
      rw [ih]

namespace Router

/-- The case of the `switch` for one channel changes no other, and delivers on
no other. -/
theorem route_other (r : Router) {f : Frame} {c : UInt8} {i j : Fin maxChannels} (hij : j ≠ i)
    (hne : f.channel ≠ c) :
    recordsOn c (r.route i f).2 = [] ∧ (r.route i f).1.channels j = r.channels j := by
  have hset : ∀ cs, (r.setChannel i cs).channels j = r.channels j :=
    fun cs => Function.update_of_ne hij _ _
  rw [route]
  split_ifs
  · exact ⟨rfl, rfl⟩
  · exact ⟨rfl, rfl⟩
  · rw [close]
    refine ⟨?_, hset _⟩
    split_ifs <;> rfl
  · rw [data]
    split_ifs
    · exact ⟨rfl, rfl⟩
    · split
      · refine ⟨?_, hset _⟩
        simp [recordsOn, List.filterMap_map, hne]
      · simp [recordsOn, hne]
  · exact ⟨rfl, rfl⟩

theorem recordsOn_seen (c : UInt8) (b : Bool) (f : Frame) :
    recordsOn c (if b then [SessionEvent.frame f] else []) = [] := by
  cases b <;> rfl

/-- A frame of another channel neither delivers on a channel nor changes it. -/
theorem dispatch_other (r : Router) {f : Frame} {c : UInt8} (hc : c.toNat < maxChannels)
    (hne : f.channel ≠ c) :
    recordsOn c (r.dispatch f).2 = [] ∧
      (r.dispatch f).1.channels ⟨c.toNat, hc⟩ = r.channels ⟨c.toNat, hc⟩ := by
  by_cases h : f.channel.toNat < maxChannels
  · have hidx : (⟨c.toNat, hc⟩ : Fin maxChannels) ≠ ⟨f.channel.toNat, h⟩ := fun heq =>
      hne (UInt8.toNat_inj.mp (Fin.mk.inj heq)).symm
    obtain ⟨hrec, hstate⟩ := route_other { r with frames := r.frames + 1 } hidx hne
    simp only [dispatch, dif_pos h]
    refine ⟨?_, hstate⟩
    rw [recordsOn_append, recordsOn_seen, hrec]
    rfl
  · simp only [dispatch, dif_neg h]
    exact ⟨recordsOn_seen c _ f, trivial⟩

/-- Data of a channel with an assembler is fed to it, unless there is none. -/
theorem route_channel (r : Router) {f : Frame} {i : Fin maxChannels} {a : StreamAssembler}
    {b : RxBuf} (hr : r.channels i = ⟨true, some (a, b)⟩) (hclose : f.flags ≠ flagClose) :
    recordsOn f.channel (r.route i f).2 = (runChunks a.feed b (dataOn f.channel [f])).2 ∧
      (r.route i f).1.channels i =
        ⟨true, some (a, (runChunks a.feed b (dataOn f.channel [f])).1)⟩ := by
  have hopen : flagOpen ≠ flagData := by decide
  by_cases hdata : f.flags = flagData
  · have hroute : r.route i f = r.data i f := by
      rw [route, hdata, if_neg (Ne.symm hopen), if_neg (by decide), if_pos rfl]
    rw [hroute, data, hr]
    by_cases hnil : f.payload = []
    · have hnone : dataOn f.channel [f] = [] := by simp [dataOn, hnil]
      rw [if_pos (.inr hnil), hnone]
      exact ⟨rfl, hr⟩
    · have hone : dataOn f.channel [f] = [f.payload] := by simp [dataOn, hdata, hnil]
      rw [if_neg (by simp [hnil]), hone]
      refine ⟨?_, Function.update_self _ _ _⟩
      rw [recordsOn_map_record]
      exact (List.append_nil _).symm
  · have hnone : dataOn f.channel [f] = [] := by simp [dataOn, hdata]
    have hroute : (r.route i f).1 = r ∧ recordsOn f.channel (r.route i f).2 = [] := by
      rw [route, if_neg hclose, if_neg hdata]
      split_ifs <;> exact ⟨rfl, rfl⟩
    rw [hnone, hroute.1]
    exact ⟨hroute.2, hr⟩

/-- A frame of a channel with an assembler, other than a close, feeds its data. -/
theorem dispatch_channel (r : Router) {f : Frame} (hc : f.channel.toNat < maxChannels)
    {a : StreamAssembler} {b : RxBuf}
    (hr : r.channels ⟨f.channel.toNat, hc⟩ = ⟨true, some (a, b)⟩) (hclose : f.flags ≠ flagClose) :
    recordsOn f.channel (r.dispatch f).2 = (runChunks a.feed b (dataOn f.channel [f])).2 ∧
      (r.dispatch f).1.channels ⟨f.channel.toNat, hc⟩ =
        ⟨true, some (a, (runChunks a.feed b (dataOn f.channel [f])).1)⟩ := by
  obtain ⟨hrec, hstate⟩ := route_channel { r with frames := r.frames + 1 } hr hclose
  simp only [dispatch, dif_pos hc]
  refine ⟨?_, hstate⟩
  rw [recordsOn_append, recordsOn_seen, hrec]
  rfl

/-- A channel with an assembler that is not closed delivers what the assembler
makes of its data. -/
theorem recordsOn_dispatchAll {c : UInt8} (hc : c.toNat < maxChannels) {a : StreamAssembler}
    (fs : List Frame) {r : Router} {b : RxBuf}
    (hr : r.channels ⟨c.toNat, hc⟩ = ⟨true, some (a, b)⟩)
    (hclose : ∀ f ∈ fs, f.channel = c → f.flags ≠ flagClose) :
    recordsOn c (r.dispatchAll fs).2 = (runChunks a.feed b (dataOn c fs)).2 := by
  induction fs generalizing r b with
  | nil => rfl
  | cons f fs ih =>
      have hrest : ∀ g ∈ fs, g.channel = c → g.flags ≠ flagClose :=
        fun g hg => hclose g (List.mem_cons_of_mem _ hg)
      have hsplit : dataOn c (f :: fs) = dataOn c [f] ++ dataOn c fs := by
        rw [dataOn, dataOn, dataOn, ← List.map_append, ← List.filter_append,
          List.singleton_append]
      rw [dispatchAll, recordsOn_append, hsplit, runChunks_append]
      by_cases hf : f.channel = c
      · subst hf
        obtain ⟨hrec, hstate⟩ := r.dispatch_channel hc hr (hclose f List.mem_cons_self rfl)
        rw [hrec, ih hstate hrest]
      · obtain ⟨hrec, hstate⟩ := r.dispatch_other hc hf
        have hnone : dataOn c [f] = [] := by simp [dataOn, hf]
        rw [hrec, hnone, ih (hstate.trans hr) hrest]
        rfl

end Router

/-- Payloads without a byte make no difference. -/
theorem flatten_dataOn (c : UInt8) (fs : List Frame) :
    (dataOn c fs).flatten =
      ((fs.filter fun f => f.channel = c ∧ f.flags = flagData).map Frame.payload).flatten := by
  induction fs with
  | nil => rfl
  | cons f fs ih =>
      simp only [dataOn, List.filter_cons, decide_eq_true_eq] at ih ⊢
      by_cases hf : f.channel = c ∧ f.flags = flagData
      · by_cases hnil : f.payload = []
        · simp [hf.1, hf.2, hnil] at ih ⊢
          exact ih
        · simp [hf.1, hf.2, hnil] at ih ⊢
          exact ih
      · have hf' : ¬ (f.channel = c ∧ f.flags = flagData ∧ f.payload ≠ []) :=
          fun h => hf ⟨h.1, h.2.1⟩
        rw [if_neg hf, if_neg hf']
        exact ih

/-- `DRExport` of some recorder. -/
def IsBlob (b : List UInt8) : Prop := ∃ (F : Type) (r : DrawReplay F), b = r.drExport

/-- A blob that is not too long is a record of a draw stream. -/
theorem IsBlob.isRecord {b : List UInt8} (hb : IsBlob b) (hlen : b.length ≤ maxFrameSize) :
    (drScanner maxFrameSize).IsRecord b := by
  obtain ⟨F, r, rfl⟩ := hb
  have hbody : (r.stream ++ [DROp.endOp.toByte]).length = r.stream.length + 1 := by
    rw [List.length_append, List.length_singleton]
  have htotal : drHeaderSize + (r.stream ++ [DROp.endOp.toByte]).length ≤ maxFrameSize := by
    rw [DrawReplay.drExport, List.length_append, DRHeader.length_bytes] at hlen
    exact hlen
  have hfit : r.stream.length < 2 ^ 32 - 1 := by
    rw [hbody] at htotal
    exact Nat.lt_of_lt_of_le (by omega : r.stream.length < maxFrameSize) (by decide)
  exact isRecord_bytes r.exportHeader
    ((DrawReplay.bodyBytes_exportHeader hfit).trans hbody.symm) htotal

namespace Session

/-- Blobs that are cut into data frames of a channel, among frames of other
channels and of other kinds, arrive on the channel whole, once and in order,
however the bytes of the frames are cut into reads. -/
theorem run_delivers (s : Session) (hs : s.parser.unread = []) (c : UInt8)
    (hc : c.toNat < maxChannels) (blobs : List (List UInt8)) (hblobs : ∀ b ∈ blobs, IsBlob b)
    (hmax : ∀ b ∈ blobs, b.length ≤ maxFrameSize) (frames : List Frame)
    (hframes : ∀ f ∈ frames, f.payload.length ≤ maxFrameSize)
    (hclose : ∀ f ∈ frames, f.channel = c → f.flags ≠ flagClose)
    (hdata : ((frames.filter fun f => f.channel = c ∧ f.flags = flagData).map
      Frame.payload).flatten = blobs.flatten)
    (reads : List Recv) (hreads : (chunks reads).flatten = frames.flatMap Frame.encode) :
    recordsOn c ((s.setChannelReassembler c (some drSize) (some drSyncMagic) 4 true).run reads).2 =
      blobs := by
  have hsession : s.setChannelReassembler c (some drSize) (some drSyncMagic) 4 true =
      { s with
        router := s.router.setChannel ⟨c.toNat, hc⟩
          ⟨true, some (drAssembler maxFrameSize, .fresh)⟩ } := dif_pos hc
  have hchannel : (s.router.setChannel ⟨c.toNat, hc⟩
      ⟨true, some (drAssembler maxFrameSize, .fresh)⟩).channels ⟨c.toNat, hc⟩ =
        ⟨true, some (drAssembler maxFrameSize, .fresh)⟩ := Function.update_self _ _ _
  rw [hsession, run_events]
  rw [FrameParser.runChunks_feed hs, hreads, frames_flatMap_encode (by decide) hframes,
    Router.recordsOn_dispatchAll hc frames hchannel hclose]
  exact StreamAssembler.runChunks_flatten (a := drAssembler maxFrameSize) drSize_contract
    drSyncMagic_ne_nil (fun b hb => (hblobs b hb).isRecord (hmax b hb))
    ((flatten_dataOn c frames).trans hdata)

/-- An empty drawing in two frames, around a frame of another channel, cut in
the middle of a header, with an error between the reads. -/
theorem run_delivers_split :
    recordsOn 7 ((new.setChannelReassembler 7 (some drSize) (some drSyncMagic) 4 true).run
        [.bytes ((Frame.mk 7 0 ((DrawReplay.new 1 1 : DrawReplay Unit).drExport.take 6)).encode ++
            [0x44, 0x42, 0x55]), .error,
          .bytes ((Frame.mk 3 0 [9]).encode.drop 3 ++
            (Frame.mk 7 0 ((DrawReplay.new 1 1 : DrawReplay Unit).drExport.drop 6)).encode)]).2 =
      [(DrawReplay.new 1 1 : DrawReplay Unit).drExport] :=
  run_delivers new rfl 7 (by decide) [(DrawReplay.new 1 1 : DrawReplay Unit).drExport]
    (List.forall_mem_singleton.mpr ⟨Unit, _, rfl⟩) (by decide)
    [⟨7, 0, (DrawReplay.new 1 1 : DrawReplay Unit).drExport.take 6⟩, ⟨3, 0, [9]⟩,
      ⟨7, 0, (DrawReplay.new 1 1 : DrawReplay Unit).drExport.drop 6⟩]
    (by decide) (by decide) (by decide) _ (by decide)

end Session

end MFoES.Usbproto
