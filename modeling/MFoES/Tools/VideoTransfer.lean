import MFoES.App.TileStream
import MFoES.Lib.Blocks
import MFoES.Lib.Mirror
import MFoES.Lib.Transition
import Mathlib.Algebra.Order.Ring.Rat
import Mathlib.Data.Nat.GCD.Basic
import Mathlib.Tactic.NormNum

/-!
# Video transfer

The sender of the video cuts a frame into tiles, and sends those that differ enough from what its
cache says it has sent.  It forgets its cache from time to time, and when the video starts again.
The application copies the tiles that it receives into its frame, and clears the frame when the
link breaks.

A packet may get lost, and the sender does not look whether it is sent; so the two may differ.
They agree again after the next time that the cache is forgotten, and that comes after so many
frames, whatever was lost before (`screen_recovers`).
-/

namespace MFoES.Tools

open LittleEndian MFoES.App

/-! ## Frames and tiles -/

/-- A pixel, as OpenCV has it. -/
structure Pixel where
  b : UInt8
  g : UInt8
  r : UInt8

/-- A frame of `SCREEN_H` rows, resized, or a tile of `TILE_H` rows. -/
abbrev Image := Nat → Nat → Pixel

/-- `TILES_X`. -/
def tilesX : Nat := 16

/-- `TILES_Y`. -/
def tilesY : Nat := 9

/-- `TILE_W`. -/
def tileW : Nat := 1280 / tilesX

/-- `TILE_H`. -/
def tileH : Nat := 720 / tilesY

/-- The place of a tile. -/
structure Place where
  ty : Fin tilesY
  tx : Fin tilesX
deriving DecidableEq

/-- The places in the order of the two loops. -/
def places : List Place :=
  (List.finRange tilesY).flatMap fun ty => (List.finRange tilesX).map fun tx => ⟨ty, tx⟩

/-- `frame[y0:y0+TILE_H, x0:x0+TILE_W]`. -/
def tileOf (frame : Image) (k : Place) : Image :=
  fun row col => frame (k.ty * tileH + row) (k.tx * tileW + col)

/-- `cv2.absdiff` of two samples. -/
def absdiff (a b : UInt8) : Nat := max a.toNat b.toNat - min a.toNat b.toNat

/-- The samples of `cv2.absdiff` of two tiles. -/
def diffs (t1 t2 : Image) : List Nat :=
  (List.range tileH).flatMap fun row => (List.range tileW).flatMap fun col =>
    [absdiff (t1 row col).b (t2 row col).b, absdiff (t1 row col).g (t2 row col).g,
      absdiff (t1 row col).r (t2 row col).r]

/-- `tile_diff`, in percent.  No sum of rounding errors reaches the next count of samples. -/
def tileDiff : Option Image → Image → Rat
  | none, _ => 100
  | some t1, t2 =>
      ((diffs t1 t2).countP fun diff => 20 < diff : Nat) / ((tileH * tileW * 3 : Nat) : Rat) * 100

/-- `DIFF_THRESHOLD`. -/
def diffThreshold : Rat := 3 / 2

/-- The tile is left out. -/
def skipped (cached : Option Image) (tile : Image) : Bool := tileDiff cached tile < diffThreshold

/-- `tile_to_rgb565`, for a pixel. -/
def tileToRgb565 (p : Pixel) : UInt16 :=
  (p.r.toUInt16 &&& 0xF8) <<< 8 ||| (p.g.toUInt16 &&& 0xFC) <<< 3 ||| p.b.toUInt16 >>> 3

/-- `struct.pack(TILE_HDR_FMT, MSG_TILE_UPDATE, tx, ty, TILE_W, TILE_H)`. -/
def packHeader (k : Place) : List UInt8 :=
  [msgTileUpdate, .ofNat k.tx, .ofNat k.ty] ++ le16 (.ofNat tileW) ++ le16 (.ofNat tileH)

/-- A row of `tile_rgb565.tobytes()`. -/
def rowBytes (tile : Image) (row : Nat) : List UInt8 :=
  (List.range tileW).flatMap fun col => le16 (tileToRgb565 (tile row col))

/-- What `send_tile` sends. -/
def tilePacket (k : Place) (tile : Image) : List UInt8 :=
  packHeader k ++ (List.range tileH).flatMap (rowBytes tile)

/-! ## The application -/

/-- The application, and the buffer of `usbLoop`. -/
structure Device where
  app : UsbState
  buf : Bytes

namespace Device

/-- `recv` puts a packet into the buffer, and the loop looks at it. -/
def receive (d : Device) (p : List UInt8) : Device :=
  let buf : Bytes := fun o => if 0 ≤ o ∧ o < p.length then p.getD o.toNat 0 else d.buf o
  { app := d.app.packet buf p.length, buf := buf }

/-- The link breaks. -/
def disconnect (d : Device) : Device :=
  { d with
    app := { d.app with
      frameBufA := fun k => if 0 ≤ k ∧ k < framePixels then 0 else d.app.frameBufA k
      frameReady := false
      statusMsg := "USB: disconnected, retrying..."
      rrfSysMsg := true } }

/-- The application has a frame to show, with this tile in its place. -/
def Shows (d : Device) (k : Place) (tile : Image) : Prop :=
  d.app.frameReady = true ∧ ∀ row < tileH, ∀ col < tileW,
    d.app.frameBufA ((k.ty * tileH + row : Nat) * screenWidth + (k.tx * tileW + col : Nat)) =
      tileToRgb565 (tile row col)

end Device

/-! ## A tile arrives -/

section Receive

variable {d : Device} {k : Place} {tile : Image}

theorem length_rowBytes (tile : Image) (row : Nat) : (rowBytes tile row).length = 160 :=
  Blocks.length_flatMap_range (n := 2) (m := 80) fun _ _ => rfl

theorem length_packHeader (k : Place) : (packHeader k).length = 7 := rfl

theorem length_tilePacket (k : Place) (tile : Image) : (tilePacket k tile).length = 12807 := by
  rw [tilePacket, List.length_append, length_packHeader,
    Blocks.length_flatMap_range fun row _ => length_rowBytes tile row]
  decide

/-- The bytes of a pixel. -/
theorem getD_tilePacket {row col b : Nat} (hrow : row < tileH) (hcol : col < tileW) (hb : b < 2) :
    (tilePacket k tile).getD (7 + 160 * row + 2 * col + b) 0 =
      (le16 (tileToRgb565 (tile row col))).getD b 0 := by
  have hwidth : tileW = 80 := rfl
  have hat : 7 + 160 * row + 2 * col + b - 7 = row * 160 + (col * 2 + b) := by omega
  rw [tilePacket, List.getD_append_right _ _ _ _ (by rw [length_packHeader]; omega),
    length_packHeader, hat,
    Blocks.getD_flatMap_range (fun row _ => length_rowBytes tile row) hrow (by omega), rowBytes,
    Blocks.getD_flatMap_range (fun _ _ => length_le16 _) hcol hb]

/-- The header of a tile. -/
def headerOf (k : Place) : TileUpdateHeader := ⟨msgTileUpdate, .ofNat k.tx, .ofNat k.ty, 80, 80⟩

theorem tw_headerOf (k : Place) : (headerOf k).tw.toNat = 80 := rfl

theorem th_headerOf (k : Place) : (headerOf k).th.toNat = 80 := rfl

theorem toNat_tx (k : Place) : (UInt8.ofNat k.tx).toNat = k.tx :=
  UInt8.toNat_ofNat_of_lt' (Nat.lt_trans k.tx.isLt (by decide))

theorem toNat_ty (k : Place) : (UInt8.ofNat k.ty).toNat = k.ty :=
  UInt8.toNat_ofNat_of_lt' (Nat.lt_trans k.ty.isLt (by decide))

theorem x0_headerOf (k : Place) : (headerOf k).x0 = k.tx * 80 := by
  rw [TileUpdateHeader.x0, tw_headerOf]
  exact congrArg (· * 80) (toNat_tx k)

theorem y0_headerOf (k : Place) : (headerOf k).y0 = k.ty * 80 := by
  rw [TileUpdateHeader.y0, th_headerOf]
  exact congrArg (· * 80) (toNat_ty k)

theorem src_of_tw {hdr : TileUpdateHeader} (htw : hdr.tw.toNat = 80) {row : Nat} (hrow : row < 80) :
    hdr.src row = (7 + 160 * row : Nat) := by
  have hwrap : Int.bmod ((row : Int) * 80) (2 ^ 32) = row * 80 := by
    rw [Int.bmod_eq_of_le]
    · omega
    · omega
  have hsrc : hdr.src row = 7 + 2 * Int.bmod (row * hdr.tw.toNat) (2 ^ 32) := rfl
  have hwidth : ((80 : Nat) : Int) = 80 := rfl
  rw [hsrc, htw, hwidth, hwrap]
  omega

/-- The buffer starts with a tile packet. -/
def HoldsTile (buf : Bytes) (k : Place) (tile : Image) : Prop :=
  ∀ i : Nat, i < 12807 → buf i = (tilePacket k tile).getD i 0

section Holds

variable {buf : Bytes} (h : HoldsTile buf k tile)

include h

/-- The header that the application reads. -/
theorem HoldsTile.header : tileHeader buf = headerOf k := by
  have hbyte : ∀ i : Nat, i < 7 → buf i = (packHeader k).getD i 0 := by
    intro i hi
    rw [h i (by omega), tilePacket, List.getD_append _ _ _ _ (by rw [length_packHeader]; exact hi)]
  have h0 := hbyte 0 (by decide)
  have h1 := hbyte 1 (by decide)
  have h2 := hbyte 2 (by decide)
  have h3 := hbyte 3 (by decide)
  have h4 := hbyte 4 (by decide)
  have h5 := hbyte 5 (by decide)
  have h6 := hbyte 6 (by decide)
  simp only [Nat.cast_ofNat, Nat.cast_zero, Nat.cast_one] at h0 h1 h2 h3 h4 h5 h6
  have htw : ofLE16 ((packHeader k).getD 3 0) ((packHeader k).getD 4 0) = 80 := ofLE16_le16 80
  have hth : ofLE16 ((packHeader k).getD 5 0) ((packHeader k).getD 6 0) = 80 := ofLE16_le16 80
  simp only [tileHeader, h0, h1, h2, h3, h4, h5, h6, htw, hth]
  rfl

/-- The application accepts the packet. -/
theorem HoldsTile.accepted : Accepted buf 12807 where
  received := ⟨by omega, by
    simp [tileBufSize, tileHeaderBytes, screenWidth, screenHeight, dtsTilesX, dtsTilesY]⟩
  type := congrArg TileUpdateHeader.type h.header
  place := by
    rw [h.header]
    have htx := k.tx.isLt
    have hty := k.ty.isLt
    rw [← toNat_tx] at htx
    rw [← toNat_ty] at hty
    exact ⟨htx, hty⟩
  length := by
    have hexpected : (headerOf k).expected =
        7 + (80 : UInt16).toUInt32 * (80 : UInt16).toUInt32 * 2 := rfl
    rw [h.header, hexpected]
    decide

/-- What is copied to a pixel. -/
theorem HoldsTile.pixel {row col : Nat} (hrow : row < tileH) (hcol : col < tileW) :
    ofLE16 (buf ((headerOf k).src row + 2 * col)) (buf ((headerOf k).src row + 2 * col + 1)) =
      tileToRgb565 (tile row col) := by
  have hrow80 : row < 80 := hrow
  have hcol80 : col < 80 := hcol
  have hsrc := src_of_tw (tw_headerOf k) hrow80
  have hbyte : ∀ b : Nat, b < 2 → buf ((7 + 160 * row + 2 * col + b : Nat) : Int) =
      (le16 (tileToRgb565 (tile row col))).getD b 0 := by
    intro b hb
    rw [h _ (by omega), getD_tilePacket hrow hcol hb]
  have hlow := hbyte 0 (by decide)
  have hhigh := hbyte 1 (by decide)
  rw [hsrc]
  push_cast at hlow hhigh ⊢
  rw [Int.add_zero] at hlow
  rw [hlow, hhigh]
  exact ofLE16_le16 _

end Holds

/-- What is in the buffer after a packet, and what the loop makes of it. -/
theorem receive_eq (d : Device) (p : List UInt8) :
    (∀ i : Nat, i < p.length → (d.receive p).buf i = p.getD i 0) ∧
      (d.receive p).app = d.app.packet (d.receive p).buf p.length := by
  refine ⟨fun i hi => ?_, rfl⟩
  have hin : (0 : Int) ≤ i ∧ (i : Int) < p.length := ⟨Int.natCast_nonneg i, by omega⟩
  exact if_pos hin

/-- What the application has after a tile. -/
theorem app_receive (d : Device) (k : Place) (tile : Image) :
    HoldsTile (d.receive (tilePacket k tile)).buf k tile ∧
      (d.receive (tilePacket k tile)).app.frameReady = true ∧
      (d.receive (tilePacket k tile)).app.frameBufA =
        (headerOf k).putTile (d.receive (tilePacket k tile)).buf d.app.frameBufA := by
  obtain ⟨hbuf, happ⟩ := receive_eq d (tilePacket k tile)
  rw [length_tilePacket] at hbuf happ
  have hholds : HoldsTile (d.receive (tilePacket k tile)).buf k tile := hbuf
  have hacc := hholds.accepted
  have htype : ¬ (d.receive (tilePacket k tile)).buf 0 = msgUpdateValue := by
    rw [hacc.type]
    decide
  refine ⟨hholds, ?_⟩
  rw [happ, UsbState.packet, UsbState.updateValue, if_neg htype, UsbState.updateTile, if_pos hacc,
    hholds.header]
  exact ⟨rfl, rfl⟩

/-- A pixel of a place is one of those that the copies write. -/
theorem dst_headerOf (k : Place) (row col : Nat) :
    ((k.ty * tileH + row : Nat) * screenWidth + (k.tx * tileW + col : Nat) : Int) =
      (headerOf k).dst row + col := by
  rw [TileUpdateHeader.dst, x0_headerOf, y0_headerOf, show tileH = 80 from rfl,
    show tileW = 80 from rfl]
  push_cast
  ring

/-- A tile that arrives is shown. -/
theorem shows_receive (d : Device) (k : Place) (tile : Image) :
    (d.receive (tilePacket k tile)).Shows k tile := by
  obtain ⟨hholds, hready, hframe⟩ := app_receive d k tile
  refine ⟨hready, fun row hrow col hcol => ?_⟩
  have hright : (headerOf k).x0 + (headerOf k).tw.toNat ≤ screenWidth := by
    have htx := k.tx.isLt
    rw [x0_headerOf, tw_headerOf]
    simp only [tilesX, screenWidth] at htx ⊢
    omega
  rw [dst_headerOf, hframe, TileUpdateHeader.putTile_of_mem hright hrow hcol]
  exact hholds.pixel hrow hcol

/-- A tile that arrives leaves the other places alone. -/
theorem shows_receive_ne {k' : Place} {tile' : Image} (hne : k' ≠ k) (h : d.Shows k' tile') :
    (d.receive (tilePacket k tile)).Shows k' tile' := by
  obtain ⟨-, hready, hframe⟩ := app_receive d k tile
  refine ⟨hready, fun row hrow col hcol => ?_⟩
  rw [hframe, TileUpdateHeader.putTile_of_not_mem, h.2 row hrow col hcol]
  intro hmem
  obtain ⟨row', hrow', col', hcol', heq⟩ := TileUpdateHeader.mem_writes.mp hmem
  have hrow80 : row < 80 := hrow
  have hcol80 : col < 80 := hcol
  have hrow80' : row' < 80 := hrow'
  have hcol80' : col' < 80 := hcol'
  rw [← dst_headerOf] at heq
  have htx := k.tx.isLt
  have htx' := k'.tx.isLt
  have hty : (k'.ty : Nat) = k.ty ∧ (k'.tx : Nat) = k.tx := by
    simp only [tilesX, tileW, tileH, tilesY, screenWidth] at heq htx htx'
    omega
  refine hne ?_
  cases k
  cases k'
  rw [Place.mk.injEq]
  exact ⟨Fin.ext hty.1, Fin.ext hty.2⟩

/-- A packet of another type leaves the frame alone. -/
theorem shows_receive_other {x : UInt8} {xs : List UInt8} (hx : x ≠ msgTileUpdate)
    (h : d.Shows k tile) : (d.receive (x :: xs)).Shows k tile := by
  obtain ⟨hbuf, happ⟩ := receive_eq d (x :: xs)
  have hfirst : (d.receive (x :: xs)).buf 0 = x := hbuf 0 (Nat.succ_pos _)
  have hnot : ¬ Accepted (d.receive (x :: xs)).buf (x :: xs).length :=
    fun hacc => hx (hfirst.symm.trans hacc.type)
  have hready : (d.receive (x :: xs)).app.frameReady = d.app.frameReady := by
    rw [happ, UsbState.packet, UsbState.updateTile, if_neg hnot, UsbState.updateValue]
    split
    · split <;> rfl
    · rfl
  refine ⟨hready.trans h.1, fun row hrow col hcol => ?_⟩
  rw [happ, d.app.frameBufA_packet _ _ fun hacc => absurd hacc hnot]
  exact h.2 row hrow col hcol

end Receive

/-! ## The sender and the application -/

/-- The link between them. -/
def tileLink : Mirror.Link Device Place Image (List UInt8) where
  apply := Device.receive
  packet := tilePacket
  Shows := Device.Shows
  shows_self := shows_receive
  shows_ne _ _ _ _ _ hne h := shows_receive_ne hne h

/-- Every so many frames of the video one is sent, and every so many the cache is forgotten. -/
structure Video where
  frameSkip : Nat
  cacheResetFrames : Nat
  frameSkip_pos : 0 < frameSkip
  cacheResetFrames_pos : 0 < cacheResetFrames

/-- The sender, with the tiles that its loops have still to look at, and the application. -/
structure Transfer where
  frameCount : Nat
  frame : Image
  todo : List Place
  link : Mirror.State Device Place Image (List UInt8)

/-- What happens, in any order. -/
inductive TransferEvent
  /-- The sender reads from the video: a frame, or its end. -/
  | read (frame : Option Image)
  /-- The sender looks at the next tile. -/
  | tile
  /-- Another packet is sent to the application. -/
  | send (x : UInt8) (xs : List UInt8)
  /-- The application receives a packet. -/
  | receive
  /-- A packet is lost. -/
  | lose (i : Nat)
  | disconnect

namespace Transfer

/-- `tile_cache = [None] * (TILES_X * TILES_Y)`. -/
def resetCache (s : Transfer) : Transfer := { s with link := { s.link with cache := fun _ => none } }

/-- The outer loop up to the loops over the tiles. -/
def read (v : Video) (s : Transfer) : Option Image → Transfer
  | none => { s.resetCache with frameCount := 0 }
  | some frame =>
      let s := { s with frameCount := s.frameCount + 1 }
      if s.frameCount % v.frameSkip ≠ 0 then s
      else
        let s := if s.frameCount % v.cacheResetFrames = 0 then s.resetCache else s
        { s with frame := frame, todo := places }

/-- The next event. -/
def step (v : Video) (s : Transfer) : TransferEvent → Option Transfer
  | .read frame => if s.todo = [] then some (s.read v frame) else none
  | .tile =>
      match s.todo with
      | [] => none
      | k :: ks =>
          some { s with
            todo := ks
            link := tileLink.offer skipped s.link k (tileOf s.frame k) }
  | .send x xs =>
      some { s with link := { s.link with inFlight := s.link.inFlight ++ [x :: xs] } }
  | .receive =>
      match s.link.inFlight with
      | [] => none
      | p :: ps =>
          some { s with
            link := { s.link with inFlight := ps, device := s.link.device.receive p } }
  | .lose i => some { s with link := { s.link with inFlight := s.link.inFlight.eraseIdx i } }
  | .disconnect => some { s with link := { s.link with device := s.link.device.disconnect } }

end Transfer

namespace TransferEvent

/-- Nothing is lost, and nothing else changes the frame. -/
def Quiet : TransferEvent → Prop
  | .read _ | .tile | .receive => True
  | .send x _ => x ≠ msgTileUpdate
  | .lose _ | .disconnect => False

def isRead : TransferEvent → Bool
  | .read _ => true
  | _ => false

end TransferEvent

/-! ## Agreement -/

section Runs

open Transition

variable {v : Video} {s t : Transfer} {e : TransferEvent} {es : List TransferEvent}

theorem skipped_none (tile : Image) : skipped none tile = false := by
  rw [skipped, decide_eq_false_iff_not, tileDiff, diffThreshold]
  norm_num

theorem skipped_self (tile : Image) : skipped (some tile) tile = true := by
  have hzero : (diffs tile tile).countP (fun diff => 20 < diff) = 0 := by
    rw [List.countP_eq_zero]
    intro diff hdiff
    simp only [diffs, List.mem_flatMap] at hdiff
    obtain ⟨row, -, col, -, hdiff⟩ := hdiff
    have hself : ∀ a : UInt8, absdiff a a = 0 := fun a => by
      rw [absdiff, max_self, min_self, Nat.sub_self]
    simp only [hself, List.mem_cons, List.not_mem_nil, or_false, or_self] at hdiff
    rw [hdiff]
    decide
  rw [skipped, tileDiff, hzero, decide_eq_true_iff, diffThreshold, Nat.cast_zero, zero_div,
    zero_mul]
  norm_num

/-- Other packets are foreign. -/
theorem foreign_of_ne {x : UInt8} (hx : x ≠ msgTileUpdate) (xs : List UInt8) :
    tileLink.Foreign (x :: xs) := fun _ _ _ h => shows_receive_other hx h

theorem agrees_resetCache (s : Transfer) : tileLink.Agrees s.resetCache.link :=
  .of_cleared fun _ => rfl

/-- A quiet event keeps the agreement. -/
theorem step_agrees (he : e.Quiet) (hstep : s.step v e = some t)
    (h : tileLink.Agrees s.link) : tileLink.Agrees t.link := by
  cases e with
  | read frame =>
      rw [Transfer.step, Option.ite_none_right_eq_some] at hstep
      obtain ⟨-, hstep⟩ := hstep
      cases hstep
      cases frame with
      | none => exact agrees_resetCache s
      | some frame =>
          simp only [Transfer.read]
          split
          · exact h
          · split
            · exact agrees_resetCache _
            · exact h
  | tile =>
      rw [Transfer.step] at hstep
      split at hstep
      · cases hstep
      · cases hstep
        exact h.offer _ _
  | send x xs =>
      cases hstep
      exact h.foreign (foreign_of_ne he xs)
  | receive =>
      rw [Transfer.step] at hstep
      split at hstep
      · cases hstep
      · next hp =>
        cases hstep
        exact h.deliver hp
  | lose i => exact he.elim
  | disconnect => exact he.elim

theorem run_agrees (hquiet : ∀ e ∈ es, e.Quiet) (hrun : Transition.run (Transfer.step v) s es = some t)
    (h : tileLink.Agrees s.link) : tileLink.Agrees t.link := by
  induction es generalizing s with
  | nil =>
      cases hrun
      exact h
  | cons e es ih =>
      rw [Transition.run, Option.bind_eq_some_iff] at hrun
      obtain ⟨mid, hstep, hrun⟩ := hrun
      rw [List.forall_mem_cons] at hquiet
      exact ih hquiet.2 hrun (step_agrees hquiet.1 hstep h)

theorem succ_mod {n m : Nat} (hm : 0 < m) (h : (n + 1) % m ≠ 0) : (n + 1) % m = n % m + 1 := by
  have hlt := Nat.mod_lt n hm
  have hsplit : n + 1 = m * (n / m) + (n % m + 1) := by
    rw [← Nat.add_assoc, Nat.div_add_mod]
  rw [hsplit, Nat.mul_add_mod] at h ⊢
  refine Nat.mod_eq_of_lt (Nat.lt_of_le_of_ne hlt fun heq => h ?_)
  rw [heq, Nat.mod_self]

/-- The cache is forgotten with a number of frames that both of the sender's numbers divide. -/
theorem run_agrees_of_reads (hquiet : ∀ e ∈ es, e.Quiet)
    (hrun : Transition.run (Transfer.step v) s es = some t)
    (hreads : v.frameSkip.lcm v.cacheResetFrames -
      s.frameCount % v.frameSkip.lcm v.cacheResetFrames ≤ es.countP TransferEvent.isRead) :
    tileLink.Agrees t.link := by
  have hpos : 0 < v.frameSkip.lcm v.cacheResetFrames :=
    Nat.lcm_pos v.frameSkip_pos v.cacheResetFrames_pos
  have hlt := Nat.mod_lt s.frameCount hpos
  induction es generalizing s with
  | nil =>
      rw [List.countP_nil] at hreads
      omega
  | cons e es ih =>
      rw [Transition.run, Option.bind_eq_some_iff] at hrun
      obtain ⟨mid, hstep, hrun⟩ := hrun
      rw [List.forall_mem_cons] at hquiet
      -- an event that reads no frame leaves the count of frames
      have hrest : mid.frameCount = s.frameCount → e.isRead = false →
          tileLink.Agrees t.link := by
        intro hcount hread
        rw [List.countP_cons_of_neg (by rw [hread]; decide)] at hreads
        exact ih hquiet.2 hrun (by rw [hcount]; exact hreads) (by rw [hcount]; exact hlt)
      cases e with
      | read frame =>
          rw [Transfer.step, Option.ite_none_right_eq_some] at hstep
          obtain ⟨-, hstep⟩ := hstep
          cases hstep
          cases frame with
          | none => exact run_agrees hquiet.2 hrun (agrees_resetCache s)
          | some frame =>
              by_cases hreset : (s.frameCount + 1) % v.frameSkip.lcm v.cacheResetFrames = 0
              · have hdvd := Nat.dvd_of_mod_eq_zero hreset
                have hskip := Nat.mod_eq_zero_of_dvd ((Nat.dvd_lcm_left _ _).trans hdvd)
                have hcache := Nat.mod_eq_zero_of_dvd ((Nat.dvd_lcm_right _ _).trans hdvd)
                refine run_agrees hquiet.2 hrun ?_
                simp only [Transfer.read, hskip, hcache, ne_eq, not_true_eq_false, if_false,
                  if_true]
                exact agrees_resetCache _
              · have hcount : (s.read v (some frame)).frameCount = s.frameCount + 1 := by
                  simp only [Transfer.read]
                  split
                  · rfl
                  · split <;> rfl
                have hnext : (s.frameCount + 1) % v.frameSkip.lcm v.cacheResetFrames =
                    s.frameCount % v.frameSkip.lcm v.cacheResetFrames + 1 :=
                  succ_mod hpos hreset
                rw [List.countP_cons_of_pos rfl] at hreads
                refine ih hquiet.2 hrun ?_ ?_
                · rw [hcount, hnext]
                  omega
                · rw [hcount]
                  exact Nat.mod_lt _ hpos
      | tile =>
          rw [Transfer.step] at hstep
          split at hstep
          · cases hstep
          · cases hstep
            exact hrest rfl rfl
      | send x xs =>
          cases hstep
          exact hrest rfl rfl
      | receive =>
          rw [Transfer.step] at hstep
          split at hstep
          · cases hstep
          · cases hstep
            exact hrest rfl rfl
      | lose i => exact hquiet.1.elim
      | disconnect => exact hquiet.1.elim

/-! ## A frame is sent -/

/-- The tiles of the frame are sent, as far as they are not still to be looked at. -/
structure Sending (v : Video) (frame : Image) (s : Transfer) : Prop where
  current : s.frame = frame
  sent : ∀ k, k ∈ s.todo ∨ Mirror.Link.UpToDate skipped s.link k (tileOf frame k)
  /-- All of them, where the cache was forgotten. -/
  reset : s.frameCount % v.cacheResetFrames = 0 →
    ∀ k, k ∈ s.todo ∧ s.link.cache k = none ∨ s.link.cache k = some (tileOf frame k)

theorem mem_places (k : Place) : k ∈ places := by
  simp only [places, List.mem_flatMap, List.mem_map, List.mem_finRange, true_and]
  exact ⟨k.ty, k.tx, rfl⟩

/-- A frame that is not left out. -/
theorem sending_read {frame : Image} (hstep : s.step v (.read (some frame)) = some t)
    (hsent : t.frameCount % v.frameSkip = 0) : Sending v frame t := by
  rw [Transfer.step, Option.ite_none_right_eq_some] at hstep
  obtain ⟨-, hstep⟩ := hstep
  cases hstep
  simp only [Transfer.read] at hsent ⊢
  by_cases hskip : (s.frameCount + 1) % v.frameSkip ≠ 0
  · rw [if_pos hskip] at hsent
    exact absurd hsent hskip
  · rw [if_neg hskip]
    split
    · exact ⟨rfl, fun k => Or.inl (mem_places k), fun _ k => Or.inl ⟨mem_places k, rfl⟩⟩
    · next hcache => exact ⟨rfl, fun k => Or.inl (mem_places k), fun h => absurd h hcache⟩

/-- The next tile is looked at. -/
theorem Sending.tile {frame : Image} (h : Sending v frame s) {k : Place} {ks : List Place}
    (htodo : s.todo = k :: ks) :
    Sending v frame { s with
      todo := ks
      link := tileLink.offer skipped s.link k (tileOf s.frame k) } where
  current := h.current
  sent k' := by
    have hk' := h.sent k'
    rw [htodo, List.mem_cons, ← h.current] at hk'
    rw [← h.current]
    by_cases heq : k' = k
    · subst heq
      exact Or.inr (.offer skipped_none skipped_self (Or.inl ⟨rfl, rfl⟩))
    · rcases hk' with (hk' | hk') | hk'
      · exact absurd hk' heq
      · exact Or.inl hk'
      · exact Or.inr (.offer skipped_none skipped_self (Or.inr ⟨heq, hk'⟩))
  reset hreset k' := by
    have hk' := h.reset hreset k'
    rw [htodo, List.mem_cons, ← h.current] at hk'
    simp only [Mirror.Link.cache_offer]
    rw [← h.current]
    by_cases heq : k' = k
    · subst heq
      refine Or.inr ?_
      rcases hk' with ⟨-, hnone⟩ | hsome
      · rw [hnone, skipped_none]
        exact Function.update_self _ _ _
      · rw [hsome, skipped_self]
        exact hsome
    · rcases hk' with ⟨hk' | hk', hnone⟩ | hsome
      · exact absurd hk' heq
      · refine Or.inl ⟨hk', ?_⟩
        split
        · exact hnone
        · rw [Function.update_of_ne heq, hnone]
      · refine Or.inr ?_
        split
        · exact hsome
        · rw [Function.update_of_ne heq, hsome]

/-- An event that reads nothing goes on with the frame. -/
theorem step_sending {frame : Image} (hread : e.isRead = false) (hstep : s.step v e = some t) :
    t.frameCount = s.frameCount ∧ (Sending v frame s → Sending v frame t) := by
  cases e with
  | read frame => cases hread
  | tile =>
      rw [Transfer.step] at hstep
      split at hstep
      · cases hstep
      · next htodo =>
        cases hstep
        exact ⟨rfl, fun h => h.tile htodo⟩
  | send x xs =>
      cases hstep
      exact ⟨rfl, fun h => ⟨h.current, h.sent, h.reset⟩⟩
  | receive =>
      rw [Transfer.step] at hstep
      split at hstep
      · cases hstep
      · cases hstep
        exact ⟨rfl, fun h => ⟨h.current, h.sent, h.reset⟩⟩
  | lose i =>
      cases hstep
      exact ⟨rfl, fun h => ⟨h.current, h.sent, h.reset⟩⟩
  | disconnect =>
      cases hstep
      exact ⟨rfl, fun h => ⟨h.current, h.sent, h.reset⟩⟩

theorem run_sending {frame : Image} (hread : ∀ e ∈ es, e.isRead = false)
    (hrun : Transition.run (Transfer.step v) s es = some t) :
    t.frameCount = s.frameCount ∧ (Sending v frame s → Sending v frame t) := by
  induction es generalizing s with
  | nil =>
      cases hrun
      exact ⟨rfl, id⟩
  | cons e es ih =>
      rw [Transition.run, Option.bind_eq_some_iff] at hrun
      obtain ⟨mid, hstep, hrun⟩ := hrun
      rw [List.forall_mem_cons] at hread
      obtain ⟨hcount, hnext⟩ : mid.frameCount = s.frameCount ∧
          (Sending v frame s → Sending v frame mid) := step_sending hread.1 hstep
      obtain ⟨hcounts, hrest⟩ := ih hread.2 hrun
      exact ⟨hcounts.trans hcount, fun h => hrest (hnext h)⟩

/-- What is to be looked at and to be received can be. -/
theorem exists_drained (v : Video) (s : Transfer) :
    ∃ es t, (∀ e ∈ es, e.Quiet ∧ e.isRead = false) ∧
      Transition.run (Transfer.step v) s es = some t ∧ t.todo = [] ∧ t.link.inFlight = [] := by
  have hreceive : ∀ (n : Nat) (s : Transfer), s.todo = [] → s.link.inFlight.length = n →
      ∃ es t, (∀ e ∈ es, e.Quiet ∧ e.isRead = false) ∧
        Transition.run (Transfer.step v) s es = some t ∧ t.todo = [] ∧ t.link.inFlight = [] := by
    intro n
    induction n with
    | zero =>
        intro s htodo hlen
        exact ⟨[], s, by simp, rfl, htodo, List.eq_nil_of_length_eq_zero hlen⟩
    | succ n ih =>
        intro s htodo hlen
        obtain ⟨p, ps, hps⟩ := List.exists_cons_of_length_eq_add_one hlen
        obtain ⟨es, t, hes, hrun, hdone⟩ := ih { s with
          link := { s.link with inFlight := ps, device := s.link.device.receive p } } htodo
          (by rw [hps, List.length_cons] at hlen; exact Nat.succ.inj hlen)
        have hstep : s.step v .receive = some { s with
            link := { s.link with inFlight := ps, device := s.link.device.receive p } } := by
          rw [Transfer.step, hps]
        exact ⟨.receive :: es, t, List.forall_mem_cons.mpr ⟨⟨trivial, rfl⟩, hes⟩,
          (Transition.run_cons hstep es).trans hrun, hdone⟩
  have htile : ∀ (ks : List Place) (s : Transfer), s.todo = ks →
      ∃ es t, (∀ e ∈ es, e.Quiet ∧ e.isRead = false) ∧
        Transition.run (Transfer.step v) s es = some t ∧ t.todo = [] ∧ t.link.inFlight = [] := by
    intro ks
    induction ks with
    | nil => exact fun s htodo => hreceive _ s htodo rfl
    | cons k ks ih =>
        intro s htodo
        obtain ⟨es, t, hes, hrun, hdone⟩ := ih { s with
          todo := ks
          link := tileLink.offer skipped s.link k (tileOf s.frame k) } rfl
        have hstep : s.step v .tile = some { s with
            todo := ks
            link := tileLink.offer skipped s.link k (tileOf s.frame k) } := by
          rw [Transfer.step, htodo]
        exact ⟨.tile :: es, t, List.forall_mem_cons.mpr ⟨⟨trivial, rfl⟩, hes⟩,
          (Transition.run_cons hstep es).trans hrun, hdone⟩
  exact htile _ s rfl

theorem exists_sent (v : Video) (s : Transfer) (htodo : s.todo = []) (frame : Option Image) :
    ∃ es t, (∀ e ∈ es, e.Quiet ∧ e.isRead = false) ∧
      Transition.run (Transfer.step v) s ([] ++ .read frame :: es) = some t ∧ t.todo = [] ∧
        t.link.inFlight = [] := by
  obtain ⟨es, t, hes, hrun, hdone⟩ := exists_drained v (s.read v frame)
  have hstep : s.step v (.read frame) = some (s.read v frame) := if_pos htodo
  exact ⟨es, t, hes, (Transition.run_cons hstep es).trans hrun, hdone⟩

/-- Whatever was lost before: after as many frames as the least common multiple of the sender's
numbers, and once all has been looked at and received, the application shows the last frame that
was not left out, except for tiles that differ little from it; and without an exception where the
cache was forgotten with this frame. -/
theorem screen_recovers (v : Video) {s t : Transfer} {before after : List TransferEvent}
    {frame : Image} (hquiet : ∀ e ∈ before ++ .read (some frame) :: after, e.Quiet)
    (hreads : v.frameSkip.lcm v.cacheResetFrames ≤
      (before ++ [TransferEvent.read (some frame)]).countP TransferEvent.isRead)
    (hlast : ∀ e ∈ after, e.isRead = false)
    (hrun : Transition.run (Transfer.step v) s (before ++ .read (some frame) :: after) = some t)
    (hsent : t.frameCount % v.frameSkip = 0) (hdone : t.todo = [])
    (hdrained : t.link.inFlight = []) (k : Place) :
    (∃ tile, tileDiff (some tile) (tileOf frame k) < diffThreshold ∧ t.link.device.Shows k tile) ∧
      (t.frameCount % v.cacheResetFrames = 0 → t.link.device.Shows k (tileOf frame k)) := by
  have hagrees : tileLink.Agrees t.link := by
    refine run_agrees_of_reads hquiet hrun ?_
    rw [List.append_cons, List.countP_append]
    omega
  obtain ⟨mid, -, hrun⟩ := Transition.run_of_append hrun
  rw [Transition.run, Option.bind_eq_some_iff] at hrun
  obtain ⟨first, hstep, hrun⟩ := hrun
  obtain ⟨hcount, hrest⟩ := run_sending hlast hrun
  have hsending := hrest (sending_read hstep (hcount ▸ hsent))
  constructor
  · obtain ⟨tile, htile, hclose⟩ := (hsending.sent k).resolve_left (by simp [hdone])
    exact ⟨tile, of_decide_eq_true hclose, hagrees.drained hdrained htile⟩
  · intro hreset
    have hcache := (hsending.reset hreset k).resolve_left (by simp [hdone])
    exact hagrees.drained hdrained hcache

/-- The application has garbage and receives a torn packet first. -/
theorem screen_recovers_garbage :
    ∃ es t, Transition.run (Transfer.step ⟨1, 1, by decide, by decide⟩)
        ⟨0, fun _ _ => ⟨9, 9, 9⟩, [], fun _ => none, [[0xF5]],
          ⟨fun _ => 7, false, [], "", false⟩, fun _ => 8⟩
        ([] ++ .read (some fun _ _ => ⟨0, 0, 0⟩) :: es) = some t ∧
      ∀ k, t.link.device.Shows k fun _ _ => ⟨0, 0, 0⟩ := by
  obtain ⟨es, t, hes, hrun, hdone, hdrained⟩ := exists_sent ⟨1, 1, by decide, by decide⟩
    ⟨0, fun _ _ => ⟨9, 9, 9⟩, [], fun _ => none, [[0xF5]],
      ⟨fun _ => 7, false, [], "", false⟩, fun _ => 8⟩ rfl (some fun _ _ => ⟨0, 0, 0⟩)
  refine ⟨es, t, hrun, fun k => ?_⟩
  exact (screen_recovers ⟨1, 1, by decide, by decide⟩ 
    (List.forall_mem_cons.mpr ⟨trivial, fun e he => (hes e he).1⟩) (by decide)
    (fun e he => (hes e he).2) hrun (Nat.mod_one _) hdone hdrained k).2 (Nat.mod_one _)

end Runs

end MFoES.Tools
