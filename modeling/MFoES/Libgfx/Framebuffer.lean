import MFoES.Lib.Ownership
import MFoES.Libgfx.Surface

/-!
# The framebuffer back-end

A framebuffer device maps the video memory.  `enableMultiBuffer` allocates up to three buffers on
the heap, and `swapBuffers` copies the one that was drawn into the mapping.  A caller may attach
buffers of its own.

Memory is modelled by block and by cell, which has the four bytes of a pixel.
-/

namespace MFoES.Libgfx

/-- What a pointer to pixels refers to. -/
inductive Block where
  /-- `m_pFbMem`. -/
  | mapping
  /-- What `malloc` returned, by the number of the call. -/
  | heap (id : Nat)
  /-- A buffer of the caller. -/
  | external (id : Nat)
deriving DecidableEq

structure FrameBuffer where
  pData : Option Block
  bOwned : Bool
  bReady : Bool
deriving DecidableEq

/-- `pData = nullptr`. -/
def FrameBuffer.clear (slot : FrameBuffer) : FrameBuffer := { slot with pData := none }

/-- A `LinuxGFX` on a framebuffer device, with the memory that it refers to. -/
structure FbDevice where
  width : Int16
  height : Int16
  pitch : UInt32
  pBuffer : Option Block
  buffers : Nat → FrameBuffer
  bufferCount : Nat
  drawBufferIndex : Nat
  displayBufferIndex : Nat
  multiBufferEnabled : Bool
  /-- `m_pFbMem` is mapped. -/
  mapped : Bool
  heap : Allocations
  /-- How often something was freed that `malloc` did not return. -/
  strayFrees : Nat
  /-- The size of each block, in bytes. -/
  size : Block → Nat
  mem : Block → Int → UInt32

namespace FbDevice

/-- The constructor, for a device that says `xres`, `yres`, `line_length` and `smem_len`. -/
def new (xres yres lineLength smemLen : UInt32) (mem : Block → Int → UInt32) : FbDevice where
  width := xres.toUInt16.toInt16
  height := yres.toUInt16.toInt16
  pitch := lineLength
  pBuffer := some .mapping
  buffers := Function.update (fun _ => ⟨none, false, false⟩) 0 ⟨some .mapping, false, false⟩
  bufferCount := 1
  drawBufferIndex := 0
  displayBufferIndex := 0
  multiBufferEnabled := false
  mapped := true
  heap := .none
  strayFrees := 0
  size b := if b = .mapping then smemLen.toNat else 0
  mem := mem

variable (s : FbDevice)

/-! ## Memory -/

/-- `(size_t)m_width * (size_t)m_height * 4`. -/
def bufSize : Nat := (UInt64.ofInt s.width.toInt * UInt64.ofInt s.height.toInt * 4).toNat

/-- `memset` to zeros, of `bufSize` bytes. -/
def zero (b : Block) : FbDevice :=
  { s with mem := fun b' i =>
      if b' = b ∧ 0 ≤ i ∧ i < (s.bufSize / 4 : Nat) then 0 else s.mem b' i }

/-- `memcpy` into the mapping, of `bufSize` bytes. -/
def copyToFb (src : Block) : FbDevice :=
  { s with mem := fun b i =>
      if b = .mapping ∧ 0 ≤ i ∧ i < (s.bufSize / 4 : Nat) then s.mem src i else s.mem b i }

def free : Block → FbDevice
  | .heap id => { s with heap := s.heap.free id }
  | _ => { s with strayFrees := s.strayFrees + 1 }

def setSlot (i : Nat) (slot : FrameBuffer) : FbDevice :=
  { s with buffers := Function.update s.buffers i slot }

@[simp]
theorem buffers_setSlot_self (i : Nat) (slot : FrameBuffer) :
    (s.setSlot i slot).buffers i = slot := by
  rw [setSlot]
  exact Function.update_self ..

theorem buffers_setSlot_of_ne {i j : Nat} (h : j ≠ i) (slot : FrameBuffer) :
    (s.setSlot i slot).buffers j = s.buffers j := by
  rw [setSlot]
  exact Function.update_of_ne h ..

/-- `if (m_buffers[i].bOwned && m_buffers[i].pData)`: free the buffer, and say what becomes of the
slot. -/
def freeSlot (after : FrameBuffer → FrameBuffer) (s : FbDevice) (i : Nat) : FbDevice :=
  match (s.buffers i).bOwned, (s.buffers i).pData with
  | true, some b => (s.free b).setSlot i (after (s.buffers i))
  | _, _ => s

/-! ## Pixels -/

/-- The clip of `setPixel` and `getPixel`. -/
def inside (x y : Int16) : Bool := 0 ≤ x && x < s.width && 0 ≤ y && y < s.height

/-- The cell of a pixel. -/
def cell (x y : Int16) : Int := Surface.deviceCell s.pitch x y

/-- The cells of `m_pBuffer` that `setPixel` or `getPixel` accesses. -/
def accesses (x y : Int16) : Option (Block × Int) :=
  if s.inside x y then s.pBuffer.map fun b => (b, s.cell x y) else none

def setPixel (x y : Int16) (color : UInt32) : FbDevice :=
  match s.accesses x y with
  | some (b, i) => { s with mem := Function.update s.mem b (Function.update (s.mem b) i color) }
  | none => s

def getPixel (x y : Int16) : UInt32 :=
  match s.accesses x y with
  | some (b, i) => s.mem b i
  | none => 0

def writePixel (x y : Int16) (color : UInt32) : FbDevice :=
  if alpha color = 0 ∨ s.inside x y = false then s
  else if alpha color = 0xFF then s.setPixel x y color
  else s.setPixel x y (blendARGB color (s.getPixel x y))

/-! ## Buffers -/

/-- The body of the loop that allocates, where `malloc` succeeds. -/
def allocSlot (i : Nat) : FbDevice :=
  let b := Block.heap s.heap.next
  let s₁ := { s with heap := s.heap.alloc, size := Function.update s.size b s.bufSize }
  (s₁.setSlot i ⟨some b, true, false⟩).zero b

/-- The body of the loop that frees what was allocated before `malloc` failed. -/
def rollbackSlot (j : Nat) : FbDevice :=
  let s₁ := match (s.buffers j).pData with
    | some b => s.free b
    | none => s
  s₁.setSlot j (s.buffers j).clear

/-- Back to `m_pBuffer` as the only buffer. -/
def singleBuffer : FbDevice :=
  { s with bufferCount := 1, multiBufferEnabled := false }.setSlot 0
    { s.buffers 0 with pData := s.pBuffer, bOwned := false }

/-- The branch where `malloc` fails for the slot `i`. -/
def allocFailed (i : Nat) : FbDevice :=
  ((List.range i).foldl rollbackSlot (s.setSlot i (s.buffers i).clear)).singleBuffer

/-- The loop that allocates `left` buffers from the slot `i` on; `ok` says which calls of `malloc`
succeed. -/
def allocSlots (ok : Nat → Bool) : Nat → Nat → FbDevice → Bool × FbDevice
  | _, 0, s => (true, s)
  | i, left + 1, s =>
      if ok i then allocSlots ok (i + 1) left (s.allocSlot i) else (false, s.allocFailed i)

/-- How many buffers `enableMultiBuffer` allocates. -/
def bufferNumber (numBuffers : UInt8) : Nat :=
  if numBuffers < 1 ∨ 3 < numBuffers then 2 else numBuffers.toNat

/-- Free the buffers that there are, for `n` others. -/
def dropBuffers (n : Nat) : FbDevice :=
  { (List.range s.bufferCount).foldl
      (freeSlot fun slot => { slot with pData := none, bOwned := false }) s with bufferCount := n }

/-- Show the first of `n` buffers and draw into the second, if there is one. -/
def useBuffers (n : Nat) : FbDevice :=
  let draw := if 1 < n then 1 else 0
  { s with displayBufferIndex := 0, drawBufferIndex := draw, multiBufferEnabled := true,
           pBuffer := (s.buffers draw).pData }

def enableMultiBuffer (ok : Nat → Bool) (numBuffers : UInt8) : Bool × FbDevice :=
  let n := bufferNumber numBuffers
  let (done, s₁) := allocSlots ok 0 n (s.dropBuffers n)
  if done then (true, s₁.useBuffers n) else (false, s₁)

/-- `_flushToFb`, which `swapBuffers` calls without multi-buffering. -/
def flushToFb : FbDevice :=
  match s.pBuffer with
  | none => s
  | some b => if b = .mapping then s else s.copyToFb b

/-- The block that `swapBuffers` presents, with multi-buffering. -/
def presented : Option Block :=
  if s.bufferCount ≤ s.drawBufferIndex then none else (s.buffers s.drawBufferIndex).pData

/-- The rest of `swapBuffers`: the next buffer to draw into. -/
def nextBuffer (autoclear : Bool) : FbDevice :=
  let draw := (s.drawBufferIndex + 1) % s.bufferCount
  let s₁ := { s with drawBufferIndex := draw }
  match (s₁.buffers draw).pData with
  | none => s₁
  | some b =>
      let s₂ := if autoclear then s₁.zero b else s₁
      { s₂ with pBuffer := some b }

def swapBuffers (autoclear : Bool) : FbDevice :=
  if s.multiBufferEnabled then
    match s.presented with
    | none => s
    | some b =>
        let s₁ := s.setSlot s.drawBufferIndex { s.buffers s.drawBufferIndex with bReady := true }
        let s₂ := { s₁ with displayBufferIndex := s.drawBufferIndex }
        (s₂.copyToFb b).nextBuffer autoclear
  else s.flushToFb

def selectDrawBuffer (idx : UInt8) : FbDevice :=
  if s.multiBufferEnabled = false ∨ s.bufferCount ≤ idx.toNat then s
  else { s with drawBufferIndex := idx.toNat, pBuffer := (s.buffers idx.toNat).pData }

/-- `selectDisplayBuffer`.  A slot without a buffer is copied from nowhere. -/
def selectDisplayBuffer (idx : UInt8) : FbDevice :=
  if s.multiBufferEnabled = false ∨ s.bufferCount ≤ idx.toNat then s
  else
    let s₁ := { s with displayBufferIndex := idx.toNat }
    match (s.buffers idx.toNat).pData with
    | none => s₁
    | some b => s₁.copyToFb b

/-- The slot of an attached buffer.  What it owned is freed. -/
def lendSlot (i ext : Nat) : FbDevice :=
  (freeSlot (fun slot => slot) s i).setSlot i ⟨some (.external ext), false, false⟩

/-- `attachExternalBuffer`, of a buffer of the caller. -/
def attachExternalBuffer (idx : UInt8) (pBuf : Option Nat) : FbDevice :=
  match pBuf with
  | none => s
  | some ext =>
      if 3 ≤ idx then s
      else
        let s₁ := s.lendSlot idx.toNat ext
        { s₁ with bufferCount :=
            if s₁.bufferCount ≤ idx.toNat then idx.toNat + 1 else s₁.bufferCount }

def detachExternalBuffer (idx : UInt8) : FbDevice :=
  if s.bufferCount ≤ idx.toNat then s
  else if (s.buffers idx.toNat).bOwned then s
  else s.setSlot idx.toNat { s.buffers idx.toNat with pData := none, bReady := false }

/-- `stop`, as the destructor calls it: `_cleanupMultiBuffer`, and `munmap`. -/
def stop : FbDevice :=
  let s₁ := (List.range 3).foldl (freeSlot FrameBuffer.clear) s
  { s₁ with multiBufferEnabled := false, mapped := false }

end FbDevice

/-! ## Runs -/

/-- A call of a program. -/
inductive FbCall where
  | setPixel (x y : Int16) (color : UInt32)
  | getPixel (x y : Int16)
  | writePixel (x y : Int16) (color : UInt32)
  | swapBuffers (autoclear : Bool)
  | selectDrawBuffer (idx : UInt8)
  | selectDisplayBuffer (idx : UInt8)
  | enableMultiBuffer (ok : Nat → Bool) (numBuffers : UInt8)
  | attachExternalBuffer (idx : UInt8) (pBuf : Option Nat)
  | detachExternalBuffer (idx : UInt8)

namespace FbDevice

def step (s : FbDevice) : FbCall → FbDevice
  | .setPixel x y color => s.setPixel x y color
  | .getPixel _ _ => s
  | .writePixel x y color => s.writePixel x y color
  | .swapBuffers autoclear => s.swapBuffers autoclear
  | .selectDrawBuffer idx => s.selectDrawBuffer idx
  | .selectDisplayBuffer idx => s.selectDisplayBuffer idx
  | .enableMultiBuffer ok numBuffers => (s.enableMultiBuffer ok numBuffers).2
  | .attachExternalBuffer idx pBuf => s.attachExternalBuffer idx pBuf
  | .detachExternalBuffer idx => s.detachExternalBuffer idx

def run (s : FbDevice) (calls : List FbCall) : FbDevice := calls.foldl step s

end FbDevice

end MFoES.Libgfx
