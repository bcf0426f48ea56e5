import Mathlib.Tactic.Common
import Mathlib.Tactic.Ring
import MFoES.Lib.LittleEndian

/-!
# Video tiles

`usbLoop` receives packets into a buffer that holds a header and one tile of 80 by 80 pixels.  The
header of a tile update says where the tile is and how large it is, and the loop copies its rows
into the frame.  It checks the place against a grid of 16 by 9 tiles and the size against the
length of the packet, and never the two together: a tile of another shape than the grid's is the
right length as well, and ends up at its own multiples (`stays_iff`).

The buffer is memory: behind the packet are the bytes of earlier ones, and what lies around it.
-/

namespace MFoES.App

open LittleEndian

/-- `SCREEN_W`. -/
def screenWidth : Nat := 1280

/-- `SCREEN_H`. -/
def screenHeight : Nat := 720

/-- `FRAME_PIXELS`. -/
def framePixels : Nat := screenWidth * screenHeight

/-- `DTS_TILES_X`. -/
def dtsTilesX : Nat := 16

/-- `DTS_TILES_Y`. -/
def dtsTilesY : Nat := 9

/-- `sizeof(TileUpdateHeader)`. -/
def tileHeaderBytes : Nat := 7

/-- `tile_buf_size`, with `DTS_TILE_SIZE` of the screen. -/
def tileBufSize : Nat := tileHeaderBytes + screenWidth / dtsTilesX * (screenHeight / dtsTilesY) * 2

/-- `MSG_TILE_UPDATE`. -/
def msgTileUpdate : UInt8 := 0xF5

/-- `MSG_UPDATE_VALUE`. -/
def msgUpdateValue : UInt8 := 0xD0

/-- `sizeof(CValue)`. -/
def cvalueBytes : Nat := 17

/-! ## The header -/

/-- `TileUpdateHeader`. -/
structure TileUpdateHeader where
  type : UInt8
  tx : UInt8
  ty : UInt8
  tw : UInt16
  th : UInt16
deriving DecidableEq

/-- Memory, byte by byte. -/
abbrev Bytes := Int → UInt8

/-- `(TileUpdateHeader*)buf`. -/
def tileHeader (buf : Bytes) : TileUpdateHeader where
  type := buf 0
  tx := buf 1
  ty := buf 2
  tw := ofLE16 (buf 3) (buf 4)
  th := ofLE16 (buf 5) (buf 6)

namespace TileUpdateHeader

/-- `expected`, the length of the packet, in 32 bits. -/
def expected (hdr : TileUpdateHeader) : UInt32 := 7 + hdr.tw.toUInt32 * hdr.th.toUInt32 * 2

/-- `x0`. -/
def x0 (hdr : TileUpdateHeader) : Nat := hdr.tx.toNat * hdr.tw.toNat

/-- `y0`. -/
def y0 (hdr : TileUpdateHeader) : Nat := hdr.ty.toNat * hdr.th.toNat

/-- The pixel of `frameBufA` that a row of the tile starts at. -/
def dst (hdr : TileUpdateHeader) (row : Nat) : Int := (hdr.y0 + row) * screenWidth + hdr.x0

/-- The byte of the buffer that a row of the tile starts at.  `row * tw` is an `int`. -/
def src (hdr : TileUpdateHeader) (row : Nat) : Int :=
  tileHeaderBytes + 2 * Int.bmod (row * hdr.tw.toNat) (2 ^ 32)

/-- The pixels of `frameBufA` that the copies write. -/
def writes (hdr : TileUpdateHeader) : List Int :=
  (List.range hdr.th.toNat).flatMap fun row =>
    (List.range hdr.tw.toNat).map fun (i : Nat) => hdr.dst row + i

/-- The bytes that the copies read. -/
def copied (hdr : TileUpdateHeader) : List Int :=
  (List.range hdr.th.toNat).flatMap fun row =>
    (List.range (2 * hdr.tw.toNat)).map fun (i : Nat) => hdr.src row + i

/-- `memcpy` of a row. -/
def putRow (hdr : TileUpdateHeader) (buf : Bytes) (frame : Int → UInt16) (row : Nat) :
    Int → UInt16 :=
  fun k =>
    if hdr.dst row ≤ k ∧ k < hdr.dst row + hdr.tw.toNat then
      let at_ := hdr.src row + 2 * (k - hdr.dst row)
      ofLE16 (buf at_) (buf (at_ + 1))
    else frame k

/-- The copies of a tile. -/
def putTile (hdr : TileUpdateHeader) (buf : Bytes) (frame : Int → UInt16) : Int → UInt16 :=
  (List.range hdr.th.toNat).foldl (hdr.putRow buf) frame

end TileUpdateHeader

/-! ## The loop -/

/-- What `usbLoop` has of the application. -/
structure UsbState where
  /-- `frameBufA`, and the memory around it. -/
  frameBufA : Int → UInt16
  frameReady : Bool
  /-- The bytes of `cvdata`. -/
  cvdata : List UInt8
  statusMsg : String
  rrfSysMsg : Bool

/-- A packet of `r` bytes is in the buffer, and the loop copies a tile from it. -/
structure Accepted (buf : Bytes) (r : Nat) : Prop where
  received : 1 ≤ r ∧ r ≤ tileBufSize
  type : buf 0 = msgTileUpdate
  place : (tileHeader buf).tx.toNat < dtsTilesX ∧ (tileHeader buf).ty.toNat < dtsTilesY
  length : UInt32.ofNat r = (tileHeader buf).expected

instance (buf : Bytes) (r : Nat) : Decidable (Accepted buf r) :=
  decidable_of_iff ((1 ≤ r ∧ r ≤ tileBufSize) ∧ buf 0 = msgTileUpdate ∧
      ((tileHeader buf).tx.toNat < dtsTilesX ∧ (tileHeader buf).ty.toNat < dtsTilesY) ∧
        UInt32.ofNat r = (tileHeader buf).expected)
    ⟨fun h => ⟨h.1, h.2.1, h.2.2.1, h.2.2.2⟩, fun h => ⟨h.received, h.type, h.place, h.length⟩⟩

/-- `MSG_UPDATE_VALUE`. -/
def UsbState.updateValue (s : UsbState) (buf : Bytes) (r : Nat) : UsbState :=
  if buf 0 = msgUpdateValue then
    if cvalueBytes ≤ r then
      { s with
        cvdata := (List.range cvalueBytes).map fun (i : Nat) => buf i
        statusMsg := "CV: Updated"
        rrfSysMsg := true }
    else { s with statusMsg := "CV: Update Error", rrfSysMsg := true }
  else s

/-- `MSG_TILE_UPDATE`. -/
def UsbState.updateTile (s : UsbState) (buf : Bytes) (r : Nat) : UsbState :=
  if Accepted buf r then
    let hdr := tileHeader buf
    { s with
      frameBufA := hdr.putTile buf s.frameBufA
      frameReady := true
      statusMsg := "DTS streaming - tile (" ++ toString hdr.tx.toNat ++ ", " ++
        toString hdr.ty.toNat ++ ") updated"
      rrfSysMsg := true }
  else s

/-- What the loop does with the `r` bytes that it has received, from one on. -/
def UsbState.packet (s : UsbState) (buf : Bytes) (r : Nat) : UsbState :=
  (s.updateValue buf r).updateTile buf r

/-! ## Where the copies go -/

/-- The bytes that the loop reads of a packet that it accepts. -/
def TileUpdateHeader.reads (hdr : TileUpdateHeader) : List Int :=
  (List.range tileHeaderBytes).map (fun (i : Nat) => (i : Int)) ++ hdr.copied

/-- The copies write the pixels of the tile, on the screen, and read the packet. -/
structure Stays (hdr : TileUpdateHeader) (r : Nat) : Prop where
  frame : ∀ k ∈ hdr.writes, 0 ≤ k ∧ k < framePixels
  screen : ∀ row < hdr.th.toNat, ∀ i < hdr.tw.toNat,
    hdr.x0 + i < screenWidth ∧ hdr.y0 + row < screenHeight
  tile : ∀ k ∈ hdr.writes,
    (hdr.x0 ≤ k % screenWidth ∧ k % screenWidth < hdr.x0 + hdr.tw.toNat) ∧
      (hdr.y0 ≤ k / screenWidth ∧ k / screenWidth < hdr.y0 + hdr.th.toNat)
  packet : ∀ o ∈ hdr.reads, 0 ≤ o ∧ o < r

/-- The tile lies on the screen, or it is empty. -/
def TileUpdateHeader.Fits (hdr : TileUpdateHeader) : Prop :=
  hdr.tw = 0 ∨ hdr.th = 0 ∨
    (hdr.x0 + hdr.tw.toNat ≤ screenWidth ∧ hdr.y0 + hdr.th.toNat ≤ screenHeight)

namespace TileUpdateHeader

variable {hdr : TileUpdateHeader} {buf : Bytes} {frame : Int → UInt16} {k o : Int}

theorem mem_writes :
    k ∈ hdr.writes ↔ ∃ row < hdr.th.toNat, ∃ i < hdr.tw.toNat, k = hdr.dst row + (i : Nat) := by
  simp [writes, eq_comm]

theorem mem_copied :
    o ∈ hdr.copied ↔
      ∃ row < hdr.th.toNat, ∃ i < 2 * hdr.tw.toNat, o = hdr.src row + (i : Nat) := by
  simp [copied, eq_comm]

theorem mem_reads : o ∈ hdr.reads ↔ (0 ≤ o ∧ o < tileHeaderBytes) ∨ o ∈ hdr.copied := by
  rw [reads, List.mem_append]
  refine or_congr_left ?_
  simp only [List.mem_map, List.mem_range]
  constructor
  · rintro ⟨i, hi, rfl⟩
    omega
  · rintro ⟨hlow, hhigh⟩
    exact ⟨o.toNat, by omega, by omega⟩

/-! ## What a copy changes and what it depends on -/

theorem putRow_of_lt {row : Nat} (hrow : row < hdr.th.toNat) (hk : k ∉ hdr.writes) :
    hdr.putRow buf frame row k = frame k := by
  refine if_neg fun hin => hk (mem_writes.mpr ⟨row, hrow, (k - hdr.dst row).toNat, ?_, ?_⟩)
  · omega
  · omega

/-- Nothing but the pixels of `writes` changes. -/
theorem putTile_of_not_mem (hk : k ∉ hdr.writes) : hdr.putTile buf frame k = frame k := by
  have hrows : ∀ rows : List Nat, (∀ row ∈ rows, row < hdr.th.toNat) →
      ∀ mem, rows.foldl (hdr.putRow buf) mem k = mem k := by
    intro rows
    induction rows with
    | nil => intro _ mem; rfl
    | cons row rows ih =>
        intro hlt mem
        rw [List.forall_mem_cons] at hlt
        rw [List.foldl_cons, ih hlt.2, putRow_of_lt hlt.1 hk]
  exact hrows _ (fun row hrow => List.mem_range.mp hrow) frame

/-- A pixel of a tile that is not wider than the screen is copied once, from its place in the
packet. -/
theorem putTile_of_mem (hx : hdr.x0 + hdr.tw.toNat ≤ screenWidth) {row i : Nat}
    (hrow : row < hdr.th.toNat) (hi : i < hdr.tw.toNat) :
    hdr.putTile buf frame (hdr.dst row + i) =
      ofLE16 (buf (hdr.src row + 2 * i)) (buf (hdr.src row + 2 * i + 1)) := by
  have hself : ∀ mem, hdr.putRow buf mem row (hdr.dst row + i) =
      ofLE16 (buf (hdr.src row + 2 * i)) (buf (hdr.src row + 2 * i + 1)) := by
    intro mem
    have hcol : hdr.dst row + (i : Int) - hdr.dst row = i := by omega
    rw [putRow, if_pos (by omega), hcol]
  have hother : ∀ r, r ≠ row → ∀ mem, hdr.putRow buf mem r (hdr.dst row + i) =
      mem (hdr.dst row + i) := by
    intro r hr mem
    refine if_neg ?_
    simp only [dst, screenWidth] at hx ⊢
    omega
  have hrows : ∀ rows : List Nat, ∀ mem, rows.foldl (hdr.putRow buf) mem (hdr.dst row + i) =
      if row ∈ rows then ofLE16 (buf (hdr.src row + 2 * i)) (buf (hdr.src row + 2 * i + 1))
      else mem (hdr.dst row + i) := by
    intro rows
    induction rows with
    | nil => intro mem; rfl
    | cons r rows ih =>
        intro mem
        rw [List.foldl_cons, ih]
        by_cases hr : r = row
        · subst hr
          rw [hself, if_pos List.mem_cons_self, ite_self]
        · simp only [hother r hr, List.mem_cons, Ne.symm hr, false_or]
  rw [putTile, hrows, if_pos (List.mem_range.mpr hrow)]

theorem putRow_congr {buf' : Bytes} {row : Nat} (hrow : row < hdr.th.toNat)
    (h : ∀ o ∈ hdr.copied, buf o = buf' o) :
    hdr.putRow buf frame row = hdr.putRow buf' frame row := by
  funext k
  simp only [putRow]
  split
  · next hin =>
    have hbyte : ∀ d : Nat, d < 2 → buf (hdr.src row + 2 * (k - hdr.dst row) + d) =
        buf' (hdr.src row + 2 * (k - hdr.dst row) + d) := by
      intro d hd
      refine h _ (mem_copied.mpr ⟨row, hrow, 2 * (k - hdr.dst row).toNat + d, ?_, ?_⟩)
      · omega
      · omega
    have hlow : buf (hdr.src row + 2 * (k - hdr.dst row)) =
        buf' (hdr.src row + 2 * (k - hdr.dst row)) := by simpa using hbyte 0 (by decide)
    rw [hlow]
    exact congrArg _ (hbyte 1 (by decide))
  · rfl

/-- Nothing but the bytes of `copied` matters. -/
theorem putTile_congr {buf' : Bytes} (h : ∀ o ∈ hdr.copied, buf o = buf' o) :
    hdr.putTile buf frame = hdr.putTile buf' frame := by
  have hrows : ∀ rows : List Nat, (∀ row ∈ rows, row < hdr.th.toNat) →
      ∀ mem, rows.foldl (hdr.putRow buf) mem = rows.foldl (hdr.putRow buf') mem := by
    intro rows
    induction rows with
    | nil => intro _ mem; rfl
    | cons row rows ih =>
        intro hlt mem
        rw [List.forall_mem_cons] at hlt
        rw [List.foldl_cons, List.foldl_cons, putRow_congr hlt.1 h, ih hlt.2]
  exact hrows _ (fun row hrow => List.mem_range.mp hrow) frame

end TileUpdateHeader

/-- A packet changes the pixels of `writes` at most, and only if it is accepted. -/
theorem UsbState.frameBufA_packet (s : UsbState) (buf : Bytes) (r : Nat) {k : Int}
    (hk : Accepted buf r → k ∉ (tileHeader buf).writes) :
    (s.packet buf r).frameBufA k = s.frameBufA k := by
  have hvalue : (s.updateValue buf r).frameBufA = s.frameBufA := by
    rw [UsbState.updateValue]
    split
    · split <;> rfl
    · rfl
  rw [UsbState.packet, UsbState.updateTile, hvalue]
  split
  · next haccepted => exact TileUpdateHeader.putTile_of_not_mem (hk haccepted)
  · rw [hvalue]

/-! ## When the copies stay -/

section Stays

variable {hdr : TileUpdateHeader} {buf : Bytes} {r : Nat}

/-- The length that the loop expects is the one that a tile on the screen has. -/
theorem expected_of_le (hw : hdr.tw.toNat ≤ screenWidth) (hh : hdr.th.toNat ≤ screenHeight) :
    hdr.expected.toNat = tileHeaderBytes + 2 * (hdr.th.toNat * hdr.tw.toNat) := by
  have hmul : hdr.th.toNat * hdr.tw.toNat ≤ 720 * 1280 := Nat.mul_le_mul hh hw
  rw [TileUpdateHeader.expected, UInt32.toNat_add, UInt32.toNat_mul, UInt32.toNat_mul,
    UInt16.toNat_toUInt32, UInt16.toNat_toUInt32, Nat.mul_comm hdr.tw.toNat]
  show (7 + hdr.th.toNat * hdr.tw.toNat % 2 ^ 32 * 2 % 2 ^ 32) % 2 ^ 32 = 7 + _
  omega

theorem Accepted.toNat (h : Accepted buf r) : (tileHeader buf).expected.toNat = r := by
  have hle : r ≤ 12807 := h.received.2
  rw [← h.length, UInt32.toNat_ofNat']
  omega

/-- A tile without pixels is its header. -/
theorem stays_of_empty (h : hdr.expected.toNat = r) (hempty : hdr.tw = 0 ∨ hdr.th = 0) :
    Stays hdr r := by
  have hnone : ∀ row < hdr.th.toNat, ∀ i < hdr.tw.toNat, False := by
    intro row hrow i hi
    rcases hempty with hw | hh
    · rw [hw] at hi
      exact Nat.not_lt_zero _ hi
    · rw [hh] at hrow
      exact Nat.not_lt_zero _ hrow
  have hseven : r = 7 := by
    rw [← h, TileUpdateHeader.expected]
    rcases hempty with hw | hh
    · rw [hw]
      simp
    · rw [hh]
      simp
  constructor
  · intro k hk
    obtain ⟨row, hrow, i, hi, -⟩ := TileUpdateHeader.mem_writes.mp hk
    exact (hnone row hrow i hi).elim
  · intro row hrow i hi
    exact (hnone row hrow i hi).elim
  · intro k hk
    obtain ⟨row, hrow, i, hi, -⟩ := TileUpdateHeader.mem_writes.mp hk
    exact (hnone row hrow i hi).elim
  · intro o ho
    rcases TileUpdateHeader.mem_reads.mp ho with hheader | hcopied
    · rw [hseven]
      exact hheader
    · obtain ⟨row, hrow, i, hi, -⟩ := TileUpdateHeader.mem_copied.mp hcopied
      exact (hnone row hrow 0 (by omega)).elim

/-- A pixel of a tile that lies on the screen. -/
theorem dst_pixel {row i : Nat} (hi : hdr.x0 + i < screenWidth) :
    (hdr.dst row + i) % screenWidth = hdr.x0 + i ∧
      (hdr.dst row + i) / screenWidth = hdr.y0 + row := by
  have hdst : hdr.dst row + i =
      (hdr.x0 + i : Nat) + (screenWidth : Int) * (hdr.y0 + row : Nat) := by
    rw [TileUpdateHeader.dst]
    push_cast
    ring
  have hpos : (screenWidth : Int) ≠ 0 := by decide
  rw [hdst]
  constructor
  · rw [Int.add_mul_emod_self_left, Int.emod_eq_of_lt (by omega) (by omega)]
    push_cast
    rfl
  · rw [Int.add_mul_ediv_left _ _ hpos, Int.ediv_eq_zero_of_lt (by omega) (by omega)]
    push_cast
    ring

/-- The bytes that a row reads are those of the packet. -/
theorem src_row {row i : Nat} (hw : hdr.tw.toNat ≤ screenWidth) (hh : hdr.th.toNat ≤ screenHeight)
    (hrow : row < hdr.th.toNat) (hi : i < 2 * hdr.tw.toNat) :
    0 ≤ hdr.src row + i ∧ hdr.src row + i < hdr.expected.toNat := by
  have hnext : row * hdr.tw.toNat + hdr.tw.toNat ≤ hdr.th.toNat * hdr.tw.toNat := by
    rw [← Nat.succ_mul]
    exact Nat.mul_le_mul_right _ hrow
  have hmul : hdr.th.toNat * hdr.tw.toNat ≤ 720 * 1280 := Nat.mul_le_mul hh hw
  have hwrap : Int.bmod ((row : Int) * hdr.tw.toNat) (2 ^ 32) = (row * hdr.tw.toNat : Nat) := by
    rw [← Int.natCast_mul]
    generalize row * hdr.tw.toNat = n at hnext ⊢
    rw [Int.bmod_eq_of_le]
    · omega
    · omega
  have hsrc : hdr.src row = (7 + 2 * (row * hdr.tw.toNat) : Nat) := by
    unfold TileUpdateHeader.src
    rw [hwrap]
    simp [tileHeaderBytes]
  have hlen : hdr.expected.toNat = 7 + 2 * (hdr.th.toNat * hdr.tw.toNat) := expected_of_le hw hh
  rw [hsrc, hlen]
  generalize row * hdr.tw.toNat = n at hnext ⊢
  constructor
  · omega
  · omega

/-- A tile on the screen. -/
theorem stays_of_le (h : hdr.expected.toNat = r)
    (hx : hdr.x0 + hdr.tw.toNat ≤ screenWidth) (hy : hdr.y0 + hdr.th.toNat ≤ screenHeight) :
    Stays hdr r := by
  have hw : hdr.tw.toNat ≤ screenWidth := Nat.le_of_add_left_le hx
  have hh : hdr.th.toNat ≤ screenHeight := Nat.le_of_add_left_le hy
  constructor
  · intro k hk
    obtain ⟨row, hrow, i, hi, rfl⟩ := TileUpdateHeader.mem_writes.mp hk
    rw [TileUpdateHeader.dst, framePixels]
    simp only [screenWidth, screenHeight] at hx hy ⊢
    omega
  · intro row hrow i hi
    omega
  · intro k hk
    obtain ⟨row, hrow, i, hi, rfl⟩ := TileUpdateHeader.mem_writes.mp hk
    obtain ⟨hcol, hline⟩ := @dst_pixel hdr row i (by omega)
    rw [hcol, hline]
    omega
  · intro o ho
    rcases TileUpdateHeader.mem_reads.mp ho with hheader | hcopied
    · have hlen := expected_of_le hw hh
      rw [h] at hlen
      omega
    · obtain ⟨row, hrow, i, hi, hat⟩ := TileUpdateHeader.mem_copied.mp hcopied
      rw [hat, ← h]
      exact src_row hw hh hrow hi

end Stays

/-- The copies of an accepted packet stay where they belong exactly when its tile lies on the
screen, or has no pixel. -/
theorem stays_iff {buf : Bytes} {r : Nat} (h : Accepted buf r) :
    Stays (tileHeader buf) r ↔ (tileHeader buf).Fits := by
  constructor
  · intro hstays
    rcases Nat.eq_zero_or_pos (tileHeader buf).tw.toNat with hw | hw
    · exact Or.inl (UInt16.toNat_inj.mp hw)
    rcases Nat.eq_zero_or_pos (tileHeader buf).th.toNat with hh | hh
    · exact Or.inr (Or.inl (UInt16.toNat_inj.mp hh))
    -- the last pixel of the last row is on the screen
    have hlast := hstays.screen ((tileHeader buf).th.toNat - 1) (by omega)
      ((tileHeader buf).tw.toNat - 1) (by omega)
    exact Or.inr (Or.inr (by omega))
  · rintro (hw | hh | ⟨hx, hy⟩)
    · exact stays_of_empty h.toNat (Or.inl hw)
    · exact stays_of_empty h.toNat (Or.inr hh)
    · exact stays_of_le h.toNat hx hy

/-! ## Packets -/

/-- A buffer that starts with these bytes. -/
def bufferOf (bytes : List UInt8) : Bytes := fun o => if o < 0 then 0 else bytes.getD o.toNat 0

/-- The last tile of the grid. -/
def lastTile : Bytes := bufferOf [0xF5, 15, 8, 80, 0, 80, 0]

/-- A tile of one column, eight times its height down. -/
def tallTile : Bytes := bufferOf [0xF5, 0, 8, 1, 0, 0x00, 0x19]

theorem stays_lastTile : Stays (tileHeader lastTile) 12807 :=
  (stays_iff (by decide)).mpr (by
    show (_ : Prop) ∨ _
    decide)

/-- It is accepted, and written behind the frame. -/
theorem not_stays_tallTile : Accepted tallTile 12807 ∧ ¬ Stays (tileHeader tallTile) 12807 := by
  refine ⟨by decide, fun hstays => ?_⟩
  have hlast := hstays.screen 0 (by decide) 0 (by decide)
  revert hlast
  decide

end MFoES.App
