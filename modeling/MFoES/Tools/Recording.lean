import MFoES.Libgfx.DRRender
import MFoES.Usbproto.FileTransport

/-!
# Recordings of the remote viewer

With `--record` the viewer writes each blob that it renders to a file, as a frame of its own.  With
`--file` it plays such a file.

What a viewer has recorded, from whatever a device sent, is shown again by one that plays the
file, blob by blob, however the reads are cut; and what it records meanwhile is the file
(`recording_replays`).  A file that was cut off shows the first of the blobs.  Played in a loop it
shows the blobs over and over (`recording_loops`).
-/

namespace MFoES.Tools

open Incremental MFoES.Libgfx MFoES.Usbproto

/-! ## The viewer -/

/-- The session of the viewer, with the handlers that `main` sets. -/
def viewerSession (brokerOn : Bool) (channel : UInt8) : Session :=
  let s := Session.new.setChannelReassembler channel (some drSize) (some drSyncMagic) 4 true
  { s with router := { s.router with onFrame := brokerOn, onOpened := true, onClosed := true } }

/-- The main loop pumps until a pump fails.  It also says whether one did. -/
def watch (s : Session) : List Recv → Session × List SessionEvent × Bool
  | [] => (s, [], false)
  | r :: rs =>
      let t := s.pump r
      if t.2.1 < 0 then (t.1, t.2.2, true)
      else
        let u := watch t.1 rs
        (u.1, t.2.2 ++ u.2.1, u.2.2)

/-- `DRRender` accepts a blob.  The viewer has no fonts. -/
def rendersOk (blob : List UInt8) : Bool :=
  (drRender (some blob) (none : Option (DRFontTable Unit))).1 = .ok

/-- The blobs that the viewer shows. -/
def shown (brokerOn : Bool) (channel : UInt8) (rs : List Recv) : List (List UInt8) :=
  (recordsOn channel (watch (viewerSession brokerOn channel) rs).2.1).filter rendersOk

/-- What `--record` writes for blobs. -/
def recordingOf (channel : UInt8) (blobs : List (List UInt8)) : List UInt8 :=
  blobs.flatMap fun blob => encodeFrame [] channel flagData (some blob) blob.length

/-- The file that `--record` writes. -/
def recording (brokerOn : Bool) (channel : UInt8) (rs : List Recv) : List UInt8 :=
  recordingOf channel (shown brokerOn channel rs)

/-! ## The main loop and its reads -/

/-- The main loop handles what is read before the first failure. -/
theorem watch_events (rs : List Recv) (s : Session) :
    ∃ seen, seen <+: rs ∧ (watch s rs).2.1 = (s.run seen).2 := by
  induction rs generalizing s with
  | nil => exact ⟨[], List.nil_prefix, rfl⟩
  | cons r rs ih =>
      rw [watch]
      split
      · exact ⟨[r], List.prefix_append [r] rs, (List.append_nil _).symm⟩
      · obtain ⟨seen, hseen, hevents⟩ := ih (s.pump r).1
        refine ⟨r :: seen, (List.cons_prefix_cons).mpr ⟨rfl, hseen⟩, ?_⟩
        rw [Session.run, ← hevents]

/-- Failures end the main loop. -/
theorem watch_errors (s : Session) (m : Nat) :
    watch s (List.replicate m .error) = (s, [], decide (0 < m)) := by
  cases m with
  | zero => rfl
  | succ m => simp [List.replicate_succ, watch, Session.pump]

/-- The main loop on a file: it handles all chunks, and ends with the first failure. -/
theorem watch_served {cs : List (List UInt8)} (hcs : ∀ c ∈ cs, c ≠ []) (s : Session) (n : Nat) :
    (watch s (FileTransport.served cs n)).2 =
      ((s.run (cs.map Recv.bytes)).2, decide (cs.length < n)) := by
  rw [FileTransport.served]
  generalize hm : n - cs.length = m
  have hend : decide (cs.length < n) = decide (0 < m) := by
    congr 1
    exact propext (by omega)
  rw [hend]
  clear hm hend
  induction cs generalizing s with
  | nil => rw [List.map_nil, List.nil_append, watch_errors, Session.run]
  | cons c cs ih =>
      have hc := hcs c List.mem_cons_self
      obtain ⟨x, c, rfl⟩ := List.exists_cons_of_ne_nil hc
      rw [List.map_cons, List.cons_append, watch, Session.run]
      have hn : ¬ (s.pump (.bytes (x :: c))).2.1 < 0 := by
        simp only [Session.pump, List.length_cons]
        omega
      have hrest := ih (fun d hd => hcs d (List.mem_cons_of_mem _ hd)) (s.pump (.bytes (x :: c))).1
      rw [if_neg hn]
      dsimp only
      rw [hrest]

/-- The chunks of reads that give no empty one. -/
theorem chunks_map_bytes {cs : List (List UInt8)} (hcs : ∀ c ∈ cs, c ≠ []) :
    Session.chunks (cs.map Recv.bytes) = cs := by
  induction cs with
  | nil => rfl
  | cons c cs ih =>
      obtain ⟨x, c, rfl⟩ := List.exists_cons_of_ne_nil (hcs c List.mem_cons_self)
      rw [List.map_cons, Session.chunks, ih fun d hd => hcs d (List.mem_cons_of_mem _ hd)]
      exact List.cons_ne_nil x c

/-! ## What a viewer delivers -/

/-- A blob that a draw channel can deliver. -/
def Deliverable (b : List UInt8) : Prop :=
  (drScanner Usbproto.maxFrameSize).IsRecord b ∧ b.length ≤ Usbproto.maxFrameSize

/-- A channel with the assembler of the viewer. -/
def DrawChannel (r : Router) (c : UInt8) : Prop :=
  ∀ hc : c.toNat < maxChannels, ∃ b, r.channels ⟨c.toNat, hc⟩ =
    ⟨true, some (drAssembler Usbproto.maxFrameSize, b)⟩

/-- The channel of a new viewer. -/
theorem viewerSession_channels (brokerOn : Bool) {c : UInt8} (hc : c.toNat < maxChannels) :
    (viewerSession brokerOn c).router.channels ⟨c.toNat, hc⟩ =
      ⟨true, some (drAssembler Usbproto.maxFrameSize, .fresh)⟩ := by
  simp only [viewerSession, Session.setChannelReassembler, dif_pos hc]
  exact Function.update_self _ _ _

/-- A new viewer has read nothing. -/
theorem viewerSession_unread (brokerOn : Bool) (c : UInt8) :
    (viewerSession brokerOn c).parser.unread = [] := by
  by_cases hc : c.toNat < maxChannels
  · simp only [viewerSession, Session.setChannelReassembler, dif_pos hc]
    exact RxBuf.unread_fresh
  · simp only [viewerSession, Session.setChannelReassembler, dif_neg hc]
    exact RxBuf.unread_fresh

theorem drawChannel_viewerSession (brokerOn : Bool) (c : UInt8) :
    DrawChannel (viewerSession brokerOn c).router c :=
  fun hc => ⟨.fresh, viewerSession_channels brokerOn hc⟩

/-- On a channel that there is not, nothing is delivered. -/
theorem dispatch_out {c : UInt8} (hc : ¬ c.toNat < maxChannels) (r : Router) (f : Frame) :
    recordsOn c (r.dispatch f).2 = [] := by
  by_cases h : f.channel.toNat < maxChannels
  · have hne : f.channel ≠ c := fun heq => hc (heq ▸ h)
    have : Nontrivial (Fin maxChannels) := ⟨⟨0, by decide⟩, ⟨1, by decide⟩, by decide⟩
    obtain ⟨j, hj⟩ := exists_ne (⟨f.channel.toNat, h⟩ : Fin maxChannels)
    obtain ⟨hrec, -⟩ := Router.route_other { r with frames := r.frames + 1 } hj hne
    simp only [Router.dispatch, dif_pos h]
    rw [recordsOn_append, Router.recordsOn_seen, hrec]
    rfl
  · simp only [Router.dispatch, dif_neg h]
    exact Router.recordsOn_seen c _ f

/-- A close empties the assembler and delivers nothing. -/
theorem dispatch_close {r : Router} {f : Frame} (hc : f.channel.toNat < maxChannels)
    {a : StreamAssembler} {b : RxBuf}
    (hr : r.channels ⟨f.channel.toNat, hc⟩ = ⟨true, some (a, b)⟩) (hclose : f.flags = flagClose) :
    recordsOn f.channel (r.dispatch f).2 = [] ∧
      (r.dispatch f).1.channels ⟨f.channel.toNat, hc⟩ = ⟨true, some (a, b.reset)⟩ := by
  have hroute : ∀ q : Router, q.route ⟨f.channel.toNat, hc⟩ f =
      q.close ⟨f.channel.toNat, hc⟩ f := by
    intro q
    rw [Router.route, hclose, if_neg (by decide), if_pos rfl]
  simp only [Router.dispatch, dif_pos hc, hroute, Router.close, Router.setChannel]
  refine ⟨?_, ?_⟩
  · rw [recordsOn_append, Router.recordsOn_seen]
    cases r.onClosed <;> rfl
  · refine (Function.update_self _ _ _).trans ?_
    rw [hr]
    rfl

/-- A draw channel delivers what is a record by itself, whatever the frame is, and stays one. -/
theorem dispatch_deliverable {r : Router} {c : UInt8} (hr : DrawChannel r c) (f : Frame) :
    DrawChannel (r.dispatch f).1 c ∧ ∀ b ∈ recordsOn c (r.dispatch f).2, Deliverable b := by
  have hnone : ∀ b ∈ ([] : List (List UInt8)), Deliverable b :=
    fun b hb => absurd hb List.not_mem_nil
  by_cases hc : c.toNat < maxChannels
  · obtain ⟨b, hb⟩ := hr hc
    by_cases hf : f.channel = c
    · subst hf
      by_cases hclose : f.flags = flagClose
      · obtain ⟨hrec, hstate⟩ := dispatch_close hc hb hclose
        rw [hrec]
        exact ⟨fun _ => ⟨_, hstate⟩, hnone⟩
      · obtain ⟨hrec, hstate⟩ := r.dispatch_channel hc hb hclose
        refine ⟨fun _ => ⟨_, hstate⟩, ?_⟩
        rw [hrec, forall_mem_runChunks]
        refine along_of_forall (fun s d => ?_) _ _
        rw [← DrawStream.feed_delivers Usbproto.maxFrameSize s d]
        exact (drScanner Usbproto.maxFrameSize).records_forall fun _ _ _ hv => isRecord_of_emit hv
    · obtain ⟨hrec, hstate⟩ := r.dispatch_other hc hf
      rw [hrec]
      exact ⟨fun _ => ⟨b, hstate.trans hb⟩, hnone⟩
  · rw [dispatch_out hc]
    exact ⟨fun h => absurd h hc, hnone⟩

theorem dispatchAll_deliverable {r : Router} {c : UInt8} (hr : DrawChannel r c) (fs : List Frame) :
    ∀ b ∈ recordsOn c (r.dispatchAll fs).2, Deliverable b := by
  induction fs generalizing r with
  | nil => exact fun b hb => absurd hb List.not_mem_nil
  | cons f fs ih =>
      obtain ⟨hnext, hrec⟩ := dispatch_deliverable hr f
      rw [Router.dispatchAll, recordsOn_append, List.forall_mem_append]
      exact ⟨hrec, ih hnext⟩

/-- What a viewer shows are records by themselves that render. -/
theorem shown_deliverable (brokerOn : Bool) (c : UInt8) (rs : List Recv) :
    ∀ b ∈ shown brokerOn c rs, Deliverable b ∧ rendersOk b = true := by
  intro b hb
  rw [shown, List.mem_filter] at hb
  obtain ⟨seen, -, hevents⟩ := watch_events rs (viewerSession brokerOn c)
  rw [hevents, Session.run_events] at hb
  exact ⟨dispatchAll_deliverable (drawChannel_viewerSession brokerOn c) _ b hb.1, hb.2⟩

/-- On a channel that there is not, a viewer gets nothing. -/
theorem recordsOn_run_out {c : UInt8} (hc : ¬ c.toNat < maxChannels) (s : Session)
    (rs : List Recv) : recordsOn c (s.run rs).2 = [] := by
  have hall : ∀ (fs : List Frame) (r : Router), recordsOn c (r.dispatchAll fs).2 = [] := by
    intro fs
    induction fs with
    | nil => exact fun r => rfl
    | cons f fs ih =>
        intro r
        rw [Router.dispatchAll, recordsOn_append, dispatch_out hc, ih]
        rfl
  rw [Session.run_events, hall]

theorem shown_out {c : UInt8} (hc : ¬ c.toNat < maxChannels) (brokerOn : Bool)
    (rs : List Recv) : shown brokerOn c rs = [] := by
  obtain ⟨seen, -, hevents⟩ := watch_events rs (viewerSession brokerOn c)
  rw [shown, hevents, recordsOn_run_out hc]
  rfl

/-! ## Playing a file -/

/-- The frame that a blob is recorded as. -/
def blobFrame (channel : UInt8) (blob : List UInt8) : Frame := ⟨channel, flagData, blob⟩

theorem recordingOf_eq (c : UInt8) (blobs : List (List UInt8)) :
    recordingOf c blobs = blobs.flatMap fun blob => (blobFrame c blob).encode := rfl

theorem encodes_blobFrame {b : List UInt8} (hb : Deliverable b) (c : UInt8) :
    (frameScanner Usbproto.maxFrameSize).Encodes (blobFrame c b).encode (blobFrame c b) :=
  encodes_encode hb.2 (Nat.lt_of_le_of_lt hb.2 (by decide))

/-- Frames of blobs, one for each, deliver the blobs. -/
theorem recordsOn_blobFrames {c : UInt8} (hc : c.toNat < maxChannels) {r : Router}
    (hr : r.channels ⟨c.toNat, hc⟩ = ⟨true, some (drAssembler Usbproto.maxFrameSize, .fresh)⟩)
    {bs : List (List UInt8)} (hbs : ∀ b ∈ bs, Deliverable b) :
    recordsOn c (r.dispatchAll (bs.map (blobFrame c))).2 = bs := by
  have hclose : ∀ f ∈ bs.map (blobFrame c), f.channel = c → f.flags ≠ flagClose := by
    intro f hf _
    obtain ⟨b, -, rfl⟩ := List.mem_map.mp hf
    exact (by decide : flagData ≠ flagClose)
  rw [Router.recordsOn_dispatchAll hc _ hr hclose]
  refine StreamAssembler.runChunks_flatten (a := drAssembler Usbproto.maxFrameSize) drSize_contract
    drSyncMagic_ne_nil (fun b hb => (hbs b hb).1) ?_
  rw [flatten_dataOn]
  congr 1
  rw [List.filter_eq_self.mpr, List.map_map]
  · exact List.map_id bs
  · intro f hf
    obtain ⟨b, -, rfl⟩ := List.mem_map.mp hf
    exact decide_eq_true ⟨rfl, rfl⟩

/-- A viewer that reads chunks of a file shows the blobs whose frames are in it. -/
theorem shown_served {c : UInt8} (hc : c.toNat < maxChannels) {cs bs : List (List UInt8)}
    (hcs : ∀ d ∈ cs, d ≠ []) (hbs : ∀ b ∈ bs, Deliverable b ∧ rendersOk b = true)
    (hframes : (frameScanner Usbproto.maxFrameSize).records cs.flatten = bs.map (blobFrame c))
    (n : Nat) :
    shown false c (FileTransport.served cs n) = bs := by
  have hrec : recordsOn c (watch (viewerSession false c) (FileTransport.served cs n)).2.1 = bs := by
    rw [watch_served hcs, Session.run_events, chunks_map_bytes hcs,
      FrameParser.runChunks_feed (viewerSession_unread false c), hframes]
    exact recordsOn_blobFrames hc (viewerSession_channels false hc) fun b hb => (hbs b hb).1
  rw [shown, hrec]
  exact List.filter_eq_self.mpr fun b hb => (hbs b hb).2

/-- From the beginning of a recording a viewer shows the first blobs, with all those whose frames
are there. -/
theorem shown_recording {c : UInt8} (hc : c.toNat < maxChannels) {cs blobs : List (List UInt8)}
    (hcs : ∀ d ∈ cs, d ≠ []) (hblobs : ∀ b ∈ blobs, Deliverable b ∧ rendersOk b = true)
    (hpre : cs.flatten <+: recordingOf c blobs) (n : Nat) :
    shown false c (FileTransport.served cs n) <+: blobs ∧
      ∀ bs, bs <+: blobs → recordingOf c bs <+: cs.flatten →
        bs <+: shown false c (FileTransport.served cs n) := by
  have hframes := records_isPrefix (fun b hb => encodes_blobFrame (hblobs b hb).1 c) hpre
  obtain ⟨seen, hseen, heq⟩ : ∃ seen, seen <+: blobs ∧
      (frameScanner Usbproto.maxFrameSize).records cs.flatten = seen.map (blobFrame c) := by
    rw [List.prefix_iff_eq_take, ← List.map_take] at hframes
    exact ⟨_, List.take_prefix _ _, hframes⟩
  have hshown : shown false c (FileTransport.served cs n) = seen :=
    shown_served hc hcs (fun b hb => hblobs b (hseen.subset hb)) heq n
  rw [hshown]
  refine ⟨hseen, fun bs hbs hwhole => ?_⟩
  obtain ⟨X, hX⟩ := hwhole
  have hrec := records_flatMap_append
    (fun b hb => encodes_blobFrame (hblobs b (hbs.subset hb)).1 c) X
  rw [← recordingOf_eq, hX, heq] at hrec
  have hmap : bs.map (blobFrame c) <+: seen.map (blobFrame c) := by
    rw [hrec]
    exact List.prefix_append _ _
  have hpayload := hmap.map Frame.payload
  rw [List.map_map, List.map_map] at hpayload
  have hid : Frame.payload ∘ blobFrame c = id := rfl
  rw [hid, List.map_id, List.map_id] at hpayload
  exact hpayload

/-- What a viewer has recorded, possibly cut off, shows its first blobs again when it is played,
however it is read; all those whose frames are whole, once it has been read.  The main loop ends
with the read after.  A recording that is not cut off shows everything again, and is recorded again
byte by byte. -/
theorem recording_replays (brokerOn : Bool) (c : UInt8) (live : List Recv)
    {fopen : String → Option File} {path : Option String} {t : FileTransport} {file : List UInt8}
    (hopen : FileTransport.new.openFile fopen path false = (t, true))
    (hfile : ∀ p, path = some p → fopen p = some (File.opened file))
    (hcut : file <+: recording brokerOn c live) (chunk : Nat) {size : Nat} (hsize : 0 < size)
    (n : Nat) :
    shown false c ((t.setChunkSize chunk).reads size n) <+: shown brokerOn c live ∧
      (file.length ≤ n * (t.setChunkSize chunk).want size →
        (watch (viewerSession false c) ((t.setChunkSize chunk).reads size (n + 1))).2.2 = true ∧
        (∀ bs, bs <+: shown brokerOn c live → recordingOf c bs <+: file →
          bs <+: shown false c ((t.setChunkSize chunk).reads size n)) ∧
        (file = recording brokerOn c live →
          shown false c ((t.setChunkSize chunk).reads size n) = shown brokerOn c live ∧
          recording false c ((t.setChunkSize chunk).reads size n) = file)) := by
  obtain ⟨p, f, hp, -, hf, hserves, hloop, -⟩ := FileTransport.openFile_serves hopen
  rw [hfile p hp] at hf
  cases hf
  have hserves' : (t.setChunkSize chunk).Serves (File.opened file) := ⟨hserves.fp, hserves.ended⟩
  have hreads := fun n => FileTransport.reads_once hserves' hloop hsize n
  rw [File.left_opened] at hreads
  obtain ⟨cs, hcs, hne, hflat, -, -⟩ := hreads n
  have hfirst : shown false c ((t.setChunkSize chunk).reads size n) <+: shown brokerOn c live ∧
      (file.length ≤ n * (t.setChunkSize chunk).want size →
        ∀ bs, bs <+: shown brokerOn c live → recordingOf c bs <+: file →
          bs <+: shown false c ((t.setChunkSize chunk).reads size n)) := by
    by_cases hc : c.toNat < maxChannels
    · have hpre : cs.flatten <+: recordingOf c (shown brokerOn c live) := by
        rw [hflat]
        exact (List.take_prefix _ _).trans hcut
      obtain ⟨hle, hge⟩ := shown_recording hc hne (shown_deliverable brokerOn c live) hpre n
      rw [hcs]
      refine ⟨hle, fun hlong bs hbs hwhole => hge bs hbs ?_⟩
      rw [hflat, List.take_of_length_le hlong]
      exact hwhole
    · rw [shown_out hc, shown_out hc]
      exact ⟨List.nil_prefix, fun _ bs hbs _ => hbs⟩
  refine ⟨hfirst.1, fun hlong => ⟨?_, hfirst.2 hlong, ?_⟩⟩
  · obtain ⟨ds, hds, hne', -, -, hmin⟩ := hreads (n + 1)
    rw [hds, watch_served hne']
    exact decide_eq_true (Nat.lt_succ_of_le (hmin n hlong))
  · intro hwhole
    have hall := hfirst.2 hlong _ (List.prefix_refl _) (hwhole ▸ List.prefix_refl _)
    have heq := hfirst.1.eq_of_length_le hall.length_le
    refine ⟨heq, ?_⟩
    rw [recording, heq, hwhole]
    rfl

/-- An empty drawing behind a torn frame, recorded next to a broker, and played three bytes at a
time. -/
theorem recording_replays_torn :
    shown false 11 (((FileTransport.new.openFile
        (fun _ => some (File.opened (recording true 11
          [.bytes ([0x44, 0x42] ++
            (blobFrame 11 (DrawReplay.new 1 1 : DrawReplay Unit).drExport).encode)])))
        (some "frames.bin") false).1.setChunkSize 3).reads Usbproto.usbBufSize 11) =
      [(DrawReplay.new 1 1 : DrawReplay Unit).drExport] :=
  (((recording_replays true 11
    [.bytes ([0x44, 0x42] ++
      (blobFrame 11 (DrawReplay.new 1 1 : DrawReplay Unit).drExport).encode)]
    (show FileTransport.new.openFile _ (some "frames.bin") false = (_, true) from rfl)
    (fun _ _ => rfl) (List.prefix_refl _) 3 (by decide) 11).2 (by decide)).2.2 rfl).1.trans
    (by decide)

/-! ## Playing a file in a loop -/

theorem recordingOf_replicate (c : UInt8) (k : Nat) (blobs : List (List UInt8)) :
    recordingOf c (List.replicate k blobs).flatten =
      (List.replicate k (recordingOf c blobs)).flatten := by
  induction k with
  | zero => rfl
  | succ k ih =>
      rw [List.replicate_succ, List.replicate_succ, List.flatten_cons, List.flatten_cons, ← ih]
      exact List.flatMap_append

theorem flatten_replicate_isPrefix {α : Type} (x : List α) (k j : Nat) :
    (List.replicate k x).flatten <+: (List.replicate (k + j) x).flatten := by
  rw [List.replicate_add, List.flatten_append]
  exact List.prefix_append _ _

theorem recordingOf_ne_nil (c : UInt8) {blobs : List (List UInt8)} (h : blobs ≠ []) :
    recordingOf c blobs ≠ [] := by
  obtain ⟨b, bs, rfl⟩ := List.exists_cons_of_ne_nil h
  rw [recordingOf_eq, List.flatMap_cons, Frame.encode_eq]
  exact List.cons_ne_nil _ _

theorem length_le_flatten {cs : List (List UInt8)} (hcs : ∀ c ∈ cs, c ≠ []) :
    cs.length ≤ cs.flatten.length := by
  induction cs with
  | nil => exact Nat.le_refl 0
  | cons c cs ih =>
      have hpos := List.length_pos_iff.mpr (hcs c List.mem_cons_self)
      have hrest := ih fun d hd => hcs d (List.mem_cons_of_mem _ hd)
      rw [List.flatten_cons, List.length_append, List.length_cons]
      omega

/-- A recording with blobs in it, played in a loop, shows the blobs over and over: all of them `k`
times after enough reads, nothing else, and without an end.  One without blobs ends at once. -/
theorem recording_loops (brokerOn : Bool) (c : UInt8) (live : List Recv)
    {fopen : String → Option File} {path : Option String} {t : FileTransport}
    (hopen : FileTransport.new.openFile fopen path true = (t, true))
    (hfile : ∀ p, path = some p → fopen p = some (File.opened (recording brokerOn c live)))
    (chunk : Nat) {size : Nat} (hsize : 0 < size) (n : Nat) :
    (∃ k, shown false c ((t.setChunkSize chunk).reads size n) <+:
      (List.replicate k (shown brokerOn c live)).flatten) ∧
    (∀ k, k * (recording brokerOn c live).length ≤ n →
      (List.replicate k (shown brokerOn c live)).flatten <+:
        shown false c ((t.setChunkSize chunk).reads size n)) ∧
    ((watch (viewerSession false c) ((t.setChunkSize chunk).reads size n)).2.2 = true ↔
      shown brokerOn c live = [] ∧ 0 < n) := by
  obtain ⟨p, f, hp, -, hf, hserves, hloop, -⟩ := FileTransport.openFile_serves hopen
  rw [hfile p hp] at hf
  cases hf
  have hserves' : (t.setChunkSize chunk).Serves (File.opened (recording brokerOn c live)) :=
    ⟨hserves.fp, hserves.ended⟩
  by_cases hblobs : shown brokerOn c live = []
  · have hreads := FileTransport.reads_empty hserves' hsize
      (show recording brokerOn c live = [] by rw [recording, hblobs]; rfl) n
    have hnone : ∀ d ∈ ([] : List (List UInt8)), d ≠ [] := by simp
    have hwatch := watch_served hnone (viewerSession false c) n
    have hshown : shown false c ((t.setChunkSize chunk).reads size n) = [] := by
      rw [hreads, shown, hwatch]
      rfl
    rw [hshown, hreads, hwatch, hblobs]
    exact ⟨⟨0, List.nil_prefix⟩, fun k _ => by simp, by simp⟩
  · have hc : c.toNat < maxChannels := by
      by_contra hc
      exact hblobs (shown_out hc brokerOn live)
    obtain ⟨cs, k, hreads, hne, hflat, hlen⟩ := FileTransport.reads_loop hserves' hloop hsize rfl
      (recordingOf_ne_nil c hblobs) n
    rw [File.left_opened] at hflat
    have hround : cs.flatten <+: recordingOf c
        (List.replicate (k + 1) (shown brokerOn c live)).flatten := by
      rw [recordingOf_replicate, List.replicate_succ, List.flatten_cons]
      exact hflat
    have hall : ∀ j, ∀ b ∈ (List.replicate j (shown brokerOn c live)).flatten,
        Deliverable b ∧ rendersOk b = true := by
      intro j b hb
      obtain ⟨bs, hbs, hb⟩ := List.mem_flatten.mp hb
      rw [List.eq_of_mem_replicate hbs] at hb
      exact shown_deliverable brokerOn c live b hb
    rw [hreads]
    refine ⟨⟨k + 1, (shown_recording hc hne (hall (k + 1)) hround n).1⟩, fun j hj => ?_, ?_⟩
    · -- both what has been read and `j` rounds are the beginning of more rounds
      have hmore : cs.flatten <+: recordingOf c
          (List.replicate (j + (k + 1)) (shown brokerOn c live)).flatten := by
        rw [Nat.add_comm j, recordingOf_replicate]
        rw [recordingOf_replicate] at hround
        exact hround.trans (flatten_replicate_isPrefix _ _ _)
      refine (shown_recording hc hne (hall _) hmore n).2 _ (flatten_replicate_isPrefix _ _ _) ?_
      refine List.prefix_of_prefix_length_le ?_ hmore ?_
      · rw [recordingOf_replicate, recordingOf_replicate]
        exact flatten_replicate_isPrefix _ _ _
      · have hlong := length_le_flatten hne
        rw [recordingOf_replicate, List.length_flatten, List.map_replicate,
          List.sum_replicate_nat]
        rw [hlen] at hlong
        exact Nat.le_trans hj hlong
    · rw [watch_served hne]
      simp [hlen, hblobs]

/-- An empty drawing, three bytes at a time: twice after as many reads as it has bytes twice. -/
theorem recording_loops_twice :
    (List.replicate 2 (shown false 11
        [.bytes (blobFrame 11 (DrawReplay.new 1 1 : DrawReplay Unit).drExport).encode])).flatten <+:
      shown false 11 (((FileTransport.new.openFile
        (fun _ => some (File.opened (recording false 11
          [.bytes (blobFrame 11 (DrawReplay.new 1 1 : DrawReplay Unit).drExport).encode])))
        (some "frames.bin") true).1.setChunkSize 3).reads Usbproto.usbBufSize 66) :=
  (recording_loops false 11
    [.bytes (blobFrame 11 (DrawReplay.new 1 1 : DrawReplay Unit).drExport).encode]
    (show FileTransport.new.openFile _ (some "frames.bin") true = (_, true) from rfl)
    (fun _ _ => rfl) 3 (by decide) 66).2.1 2 (by decide)

end MFoES.Tools
