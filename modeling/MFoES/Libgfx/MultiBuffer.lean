import Mathlib.Tactic.Ring
import MFoES.Libgfx.BufferLifetimes
import MFoES.Libgfx.Spans

/-!
# What a multi-buffered framebuffer shows

A buffer is allocated, and copied to the mapping, as `m_width * m_height` pixels without a gap.
`setPixel` and the screen have `m_pitch` bytes a line.  So the screen shows what was drawn, and
`setPixel` stays in the buffer, exactly when lines have no padding (`right_iff`), or there is no
second line.
-/

namespace MFoES.Libgfx

/-- A call that draws, presents or selects. -/
def FbCall.Draws : FbCall → Prop
  | .enableMultiBuffer _ _ => False
  | .attachExternalBuffer _ _ => False
  | .detachExternalBuffer _ => False
  | _ => True

namespace FbDevice

/-! ## The property -/

/-- What `setPixel` or `getPixel` accesses is in the allocation. -/
def Contained (s : FbDevice) (x y : Int16) : Prop :=
  ∀ b i, s.accesses x y = some (b, i) → 0 ≤ i ∧ 4 * i + 4 ≤ s.size b

/-- The cell of the mapping that is displayed at a pixel: the byte `y * m_pitch + 4 * x`. -/
def screenCell (s : FbDevice) (x y : Int16) : Int :=
  (y.toInt * s.pitch.toNat + 4 * x.toInt) / 4

/-- After a swap, the screen shows the buffer that was presented. -/
def Shows (s s' : FbDevice) : Prop :=
  ∀ b, s.presented = some b → ∀ x y, s.inside x y = true →
    s'.mem .mapping (s.screenCell x y) = s.mem b (s.cell x y)

/-- One call accesses what it may, and shows what it has to. -/
def Obeys (s : FbDevice) : FbCall → Prop
  | .setPixel x y _ => s.Contained x y
  | .getPixel x y => s.Contained x y
  | .writePixel x y color => alpha color = 0 ∨ s.Contained x y
  | .swapBuffers autoclear => s.Shows (s.swapBuffers autoclear)
  | _ => True

/-- So do all calls of a run. -/
def Right : FbDevice → List FbCall → Prop
  | _, [] => True
  | s, c :: calls => s.Obeys c ∧ Right (s.step c) calls

/-! ## Buffers of a size -/

/-- The slots that are counted have buffers of the heap of one size, and one of them is drawn
into. -/
structure Buffered (s : FbDevice) : Prop where
  multi : s.multiBufferEnabled = true
  draw : s.drawBufferIndex < s.bufferCount
  slot : ∀ i, i < s.bufferCount →
    ∃ id, (s.buffers i).pData = some (.heap id) ∧ s.size (.heap id) = s.bufSize
  current : s.pBuffer = (s.buffers s.drawBufferIndex).pData

/-- The same size and line length. -/
structure Same (s s' : FbDevice) : Prop where
  width : s'.width = s.width
  height : s'.height = s.height
  pitch : s'.pitch = s.pitch

variable {s s' : FbDevice} {x y : Int16}

theorem Same.refl (s : FbDevice) : s.Same s := ⟨rfl, rfl, rfl⟩

theorem Same.trans {s'' : FbDevice} (h : s.Same s') (h' : s'.Same s'') : s.Same s'' :=
  ⟨h'.width.trans h.width, h'.height.trans h.height, h'.pitch.trans h.pitch⟩

theorem Same.bufSize (h : s.Same s') : s'.bufSize = s.bufSize := by
  rw [FbDevice.bufSize, FbDevice.bufSize, h.width, h.height]

/-! ## After `enableMultiBuffer` -/

/-- Slots from the first on that have buffers of the size. -/
def FilledTo (s : FbDevice) (n : Nat) : Prop :=
  ∀ j, j < n → ∃ id, (s.buffers j).pData = some (.heap id) ∧ s.size (.heap id) = s.bufSize

theorem FilledTo.allocSlot {i : Nat} (h : s.FilledTo i) : (s.allocSlot i).FilledTo (i + 1) := by
  intro j hj
  have hsize : ∀ id, s.size (.heap id) = s.bufSize →
      (s.allocSlot i).size (.heap id) = (s.allocSlot i).bufSize := by
    intro id hid
    show Function.update s.size (.heap s.heap.next) s.bufSize (.heap id) = s.bufSize
    rw [Function.update_apply, hid, ite_self]
  rcases Nat.eq_or_lt_of_le (Nat.le_of_lt_succ hj) with rfl | hlt
  · refine ⟨s.heap.next, ?_, ?_⟩
    · exact congrArg FrameBuffer.pData (buffers_setSlot_self _ j _)
    · exact Function.update_self ..
  · obtain ⟨id, hdata, hid⟩ := h j hlt
    refine ⟨id, ?_, hsize id hid⟩
    have hother := buffers_setSlot_of_ne
      { s with heap := s.heap.alloc, size := Function.update s.size (.heap s.heap.next) s.bufSize }
      (Nat.ne_of_lt hlt) ⟨some (.heap s.heap.next), true, false⟩
    exact (congrArg FrameBuffer.pData hother).trans hdata

theorem FilledTo.allocSlots {ok : Nat → Bool} {i left : Nat} (h : s.FilledTo i)
    (hdone : (FbDevice.allocSlots ok i left s).1 = true) :
    (FbDevice.allocSlots ok i left s).2.FilledTo (i + left) ∧
      s.Same (FbDevice.allocSlots ok i left s).2 ∧
        (FbDevice.allocSlots ok i left s).2.bufferCount = s.bufferCount := by
  induction left generalizing s i with
  | zero => exact ⟨h, .refl s, rfl⟩
  | succ left ih =>
      rw [FbDevice.allocSlots] at hdone ⊢
      cases hok : ok i with
      | false =>
          rw [hok] at hdone
          cases hdone
      | true =>
          rw [hok] at hdone
          obtain ⟨hfilled, hsame, hcount⟩ := ih h.allocSlot hdone
          rw [if_pos rfl, ← Nat.add_assoc, Nat.add_right_comm]
          exact ⟨hfilled, ⟨hsame.width, hsame.height, hsame.pitch⟩, hcount⟩

theorem same_freeSlots (s : FbDevice) (after : FrameBuffer → FrameBuffer) (is : List Nat) :
    s.Same (is.foldl (freeSlot after) s) := by
  induction is generalizing s with
  | nil => exact .refl s
  | cons i is ih =>
      have hstep : s.Same (freeSlot after s i) := by
        rw [freeSlot]
        split
        · next b _ _ => cases b <;> exact ⟨rfl, rfl, rfl⟩
        · exact .refl s
      exact hstep.trans (ih _)

/-- Where `enableMultiBuffer` succeeds, there is a buffer to draw into. -/
theorem buffered_enable {ok : Nat → Bool} {numBuffers : UInt8}
    (h : s.enableMultiBuffer ok numBuffers = (true, s')) : s'.Buffered ∧ s.Same s' := by
  have hpos := bufferNumber_pos numBuffers
  rw [FbDevice.enableMultiBuffer] at h
  dsimp only at h
  split at h
  · next hdone =>
    cases h
    have hfree := same_freeSlots s (fun slot => { slot with pData := none, bOwned := false })
      (List.range s.bufferCount)
    have hdrop : s.Same (s.dropBuffers (bufferNumber numBuffers)) :=
      ⟨hfree.width, hfree.height, hfree.pitch⟩
    have hempty : (s.dropBuffers (bufferNumber numBuffers)).FilledTo 0 :=
      fun j hj => absurd hj (Nat.not_lt_zero j)
    obtain ⟨hfilled, hsame, hcount⟩ := hempty.allocSlots hdone
    rw [Nat.zero_add] at hfilled
    change _ = bufferNumber numBuffers at hcount
    refine ⟨⟨rfl, ?_, ?_, rfl⟩, hdrop.trans ⟨hsame.width, hsame.height, hsame.pitch⟩⟩
    · show (if 1 < bufferNumber numBuffers then 1 else 0) < FbDevice.bufferCount _
      rw [FbDevice.useBuffers, hcount]
      split <;> omega
    · intro i hi
      change i < FbDevice.bufferCount _ at hi
      rw [FbDevice.useBuffers, hcount] at hi
      exact hfilled i hi
  · cases h

/-! ## Cells -/

/-- A line has room for the pixels, and the mapping for the lines. -/
structure Geometry (s : FbDevice) : Prop where
  aligned : s.pitch.toNat % 4 = 0
  wide : 4 * s.width.toInt ≤ s.pitch.toNat
  fits : s.pitch.toNat * s.height.toInt < 2 ^ 32

/-- Lines have no padding, or there is one at most. -/
def Unpadded (s : FbDevice) : Prop :=
  s.pitch.toNat = 4 * s.width.toInt ∨ s.height.toInt ≤ 1 ∨ s.width.toInt ≤ 0

theorem Same.geometry (h : s.Same s') (hs : s.Geometry) : s'.Geometry := by
  constructor
  · rw [h.pitch]
    exact hs.aligned
  · rw [h.pitch, h.width]
    exact hs.wide
  · rw [h.pitch, h.height]
    exact hs.fits

theorem Same.unpadded (h : s.Same s') (hs : s.Unpadded) : s'.Unpadded := by
  rw [Unpadded, h.pitch, h.width, h.height]
  exact hs

theorem fbInside_iff :
    s.inside x y = true ↔
      0 ≤ x.toInt ∧ x.toInt < s.width.toInt ∧ 0 ≤ y.toInt ∧ y.toInt < s.height.toInt := by
  simp [inside, Int16.le_iff_toInt_le, Int16.lt_iff_toInt_lt, and_assoc]

/-- A pixel is in its line, where the screen has it. -/
theorem Geometry.cell_eq (hs : s.Geometry) (hin : s.inside x y = true) :
    s.cell x y = y.toInt * (s.pitch.toNat / 4 : Nat) + x.toInt ∧ s.screenCell x y = s.cell x y := by
  obtain ⟨hx, hw, hy, hh⟩ := fbInside_iff.mp hin
  have haligned := hs.aligned
  have hwide := hs.wide
  have hfits := hs.fits
  obtain ⟨p, hp⟩ : ∃ p, s.pitch.toNat = 4 * p := ⟨s.pitch.toNat / 4, by omega⟩
  obtain ⟨i, hi⟩ := Int.eq_ofNat_of_zero_le hx
  obtain ⟨j, hj⟩ := Int.eq_ofNat_of_zero_le hy
  obtain ⟨h, hh'⟩ : ∃ h : Nat, s.height.toInt = h := ⟨s.height.toInt.toNat, by omega⟩
  rw [hp] at hwide hfits
  rw [hh'] at hh hfits
  have hrows : (j + 1) * p ≤ h * p := Nat.mul_le_mul_right p (by omega)
  have hpix : 4 * (h * p) < 2 ^ 32 := by
    have hcast : ((4 * (h * p) : Nat) : Int) = (4 * p : Nat) * (h : Int) := by
      push_cast
      ring
    omega
  rw [Nat.add_mul, Nat.one_mul] at hrows
  have hcell : s.cell x y = ((j * p + i : Nat) : Int) := by
    rw [cell, Surface.deviceCell, UInt32.toNat_add, UInt32.toNat_mul, toNat_u32 hx, toNat_u32 hy,
      UInt32.toNat_div, hp, hi, hj]
    show (((j * (4 * p / 4) % 2 ^ 32 + i) % 2 ^ 32 : Nat) : Int) = _
    rw [Nat.mul_div_cancel_left p (by decide), Nat.mod_add_mod, Nat.mod_eq_of_lt (by omega)]
  constructor
  · rw [hcell, hp, hi, hj, Nat.mul_div_cancel_left p (by decide)]
    push_cast
    rfl
  · rw [hcell, screenCell, hp, hi, hj]
    have hbyte : (j : Int) * (4 * p : Nat) + 4 * (i : Int) = 4 * ((j * p + i : Nat) : Int) := by
      push_cast
      ring
    show ((j : Int) * (4 * p : Nat) + 4 * (i : Int)) / 4 = _
    rw [hbyte, Int.mul_ediv_cancel_left _ (by decide)]

theorem bufSize_eq (hw : 0 ≤ s.width.toInt) (hh : 0 ≤ s.height.toInt) :
    (s.bufSize : Int) = s.width.toInt * s.height.toInt * 4 := by
  obtain ⟨w, hw'⟩ := Int.eq_ofNat_of_zero_le hw
  obtain ⟨h, hh'⟩ := Int.eq_ofNat_of_zero_le hh
  have hwlt := s.width.toInt_lt
  have hhlt := s.height.toInt_lt
  have hmul : w * h ≤ 2 ^ 15 * 2 ^ 15 := Nat.mul_le_mul (by omega) (by omega)
  have hofInt : ∀ n : Nat, n < 2 ^ 15 → (UInt64.ofInt (n : Int)).toNat = n := by
    intro n hn
    rw [UInt64.ofInt, UInt64.toNat_ofNat']
    omega
  rw [bufSize, hw', hh', UInt64.toNat_mul, UInt64.toNat_mul, hofInt w (by omega),
    hofInt h (by omega)]
  show ((w * h % 2 ^ 64 * 4 % 2 ^ 64 : Nat) : Int) = _
  rw [Nat.mod_eq_of_lt (by omega : w * h < 2 ^ 64), Nat.mod_eq_of_lt (by omega)]
  push_cast
  rfl

/-- Without padding a buffer has the pixels. -/
theorem Geometry.cell_lt (hs : s.Geometry) (hun : s.Unpadded) (hin : s.inside x y = true) :
    0 ≤ s.cell x y ∧ 4 * s.cell x y + 4 ≤ s.bufSize := by
  obtain ⟨hx, hw, hy, hh⟩ := fbInside_iff.mp hin
  rw [(hs.cell_eq hin).1, bufSize_eq (by omega) (by omega)]
  rcases hun with hpitch | hsingle | hnone
  · have hp : ((s.pitch.toNat / 4 : Nat) : Int) = s.width.toInt := by omega
    rw [hp]
    have hrows : (y.toInt + 1) * s.width.toInt ≤ s.height.toInt * s.width.toInt :=
      Int.mul_le_mul_of_nonneg_right (by omega) (by omega)
    have hnonneg : 0 ≤ y.toInt * s.width.toInt := Int.mul_nonneg hy (by omega)
    rw [Int.add_mul, Int.one_mul, Int.mul_comm s.height.toInt] at hrows
    omega
  · have hzero : y.toInt = 0 := by omega
    have hone : s.height.toInt = 1 := by omega
    rw [hzero, hone]
    omega
  · omega

/-! ## Steps that draw -/

theorem Buffered.of_alike (hs : s.Buffered) (halike : s.Alike s') (hsame : s.Same s')
    (hsize : s'.size = s.size) (hmulti : s'.multiBufferEnabled = s.multiBufferEnabled)
    (hdraw : s'.drawBufferIndex < s.bufferCount)
    (hcurrent : s'.pBuffer = (s.buffers s'.drawBufferIndex).pData) : s'.Buffered := by
  constructor
  · exact hmulti.trans hs.multi
  · rw [halike.count]
    exact hdraw
  · intro i hi
    rw [halike.count] at hi
    rw [halike.pData, hsize, hsame.bufSize]
    exact hs.slot i hi
  · rw [halike.pData]
    exact hcurrent

theorem Buffered.setPixel (hs : s.Buffered) (x y : Int16) (color : UInt32) :
    (s.setPixel x y color).Buffered ∧ s.Same (s.setPixel x y color) := by
  have halike := (alike_setPixel s x y color).1
  rw [FbDevice.setPixel] at halike ⊢
  cases haccess : s.accesses x y with
  | none => exact ⟨hs, .refl s⟩
  | some p =>
      rw [haccess] at halike
      exact ⟨hs.of_alike halike ⟨rfl, rfl, rfl⟩ rfl rfl hs.draw hs.current, ⟨rfl, rfl, rfl⟩⟩

theorem Buffered.writePixel (hs : s.Buffered) (x y : Int16) (color : UInt32) :
    (s.writePixel x y color).Buffered ∧ s.Same (s.writePixel x y color) := by
  rw [FbDevice.writePixel]
  split_ifs
  · exact ⟨hs, .refl s⟩
  · exact hs.setPixel x y _
  · exact hs.setPixel x y _

theorem zero_mapping (s : FbDevice) (id : Nat) :
    (s.zero (.heap id)).mem .mapping = s.mem .mapping := by
  funext i
  simp [zero]

/-- Going on to a buffer of the heap leaves the mapping. -/
theorem nextBuffer_eq {id : Nat} (autoclear : Bool)
    (hdata : (s.buffers ((s.drawBufferIndex + 1) % s.bufferCount)).pData = some (.heap id)) :
    s.Same (s.nextBuffer autoclear) ∧ (s.nextBuffer autoclear).size = s.size ∧
      (s.nextBuffer autoclear).multiBufferEnabled = s.multiBufferEnabled ∧
        (s.nextBuffer autoclear).drawBufferIndex = (s.drawBufferIndex + 1) % s.bufferCount ∧
          (s.nextBuffer autoclear).pBuffer = some (.heap id) ∧
            (s.nextBuffer autoclear).mem .mapping = s.mem .mapping := by
  rw [nextBuffer]
  dsimp only
  rw [hdata]
  cases autoclear with
  | false => exact ⟨⟨rfl, rfl, rfl⟩, rfl, rfl, rfl, rfl, rfl⟩
  | true => exact ⟨⟨rfl, rfl, rfl⟩, rfl, rfl, rfl, rfl, zero_mapping _ id⟩

/-- `swapBuffers` copies the buffer that was drawn into, and goes on to the next. -/
theorem Buffered.swap (hs : s.Buffered) (autoclear : Bool) :
    ((s.swapBuffers autoclear).Buffered ∧ s.Same (s.swapBuffers autoclear)) ∧
      ∀ b, s.presented = some b → ∀ i : Int, 0 ≤ i → i < (s.bufSize / 4 : Nat) →
        (s.swapBuffers autoclear).mem .mapping i = s.mem b i := by
  have halike := (alike_swapBuffers s autoclear).1
  obtain ⟨id, hid, -⟩ := hs.slot _ hs.draw
  have hpresented : s.presented = some (.heap id) := by
    rw [presented, if_neg (Nat.not_le.mpr hs.draw), hid]
  have hnext : (s.drawBufferIndex + 1) % s.bufferCount < s.bufferCount :=
    Nat.mod_lt _ (by have := hs.draw; omega)
  obtain ⟨id', hid', -⟩ := hs.slot _ hnext
  rw [swapBuffers, if_pos hs.multi, hpresented] at halike ⊢
  dsimp only at halike ⊢
  have hready := alike_setReady s s.drawBufferIndex
  obtain ⟨hsame, hsize, hmulti, hdraw, hbuffer, hmem⟩ := @nextBuffer_eq
    (FbDevice.copyToFb { s.setSlot s.drawBufferIndex
      { s.buffers s.drawBufferIndex with bReady := true } with
        displayBufferIndex := s.drawBufferIndex } (.heap id)) id' autoclear
    ((hready.pData _).trans hid')
  have hsame' : s.Same _ := ⟨hsame.width, hsame.height, hsame.pitch⟩
  refine ⟨⟨hs.of_alike halike hsame' hsize hmulti ?_ ?_, hsame'⟩, ?_⟩
  · rw [hdraw]
    exact hnext
  · rw [hbuffer, hdraw]
    exact hid'.symm
  · intro b hb i hlow hhigh
    obtain rfl := Option.some.inj hb
    rw [hmem]
    exact if_pos ⟨rfl, hlow, hhigh⟩

/-- A call that draws leaves a buffer to draw into. -/
theorem Buffered.step (hs : s.Buffered) {c : FbCall} (hc : c.Draws) :
    (s.step c).Buffered ∧ s.Same (s.step c) := by
  cases c with
  | setPixel x y color => exact hs.setPixel x y color
  | getPixel x y => exact ⟨hs, .refl s⟩
  | writePixel x y color => exact hs.writePixel x y color
  | swapBuffers autoclear => exact (hs.swap autoclear).1
  | selectDrawBuffer idx =>
      have halike := alike_selectDrawBuffer s idx
      rw [FbDevice.step, selectDrawBuffer] at *
      split at halike
      · next hno =>
        rw [if_pos hno]
        exact ⟨hs, .refl s⟩
      · next hdone =>
        rw [if_neg hdone]
        refine ⟨hs.of_alike halike ⟨rfl, rfl, rfl⟩ rfl rfl ?_ rfl, ⟨rfl, rfl, rfl⟩⟩
        exact Nat.not_le.mp (not_or.mp hdone).2
  | selectDisplayBuffer idx =>
      have halike := (alike_selectDisplayBuffer s idx).1
      rw [FbDevice.step, selectDisplayBuffer] at *
      split at halike
      · next hno =>
        rw [if_pos hno]
        exact ⟨hs, .refl s⟩
      · next hdone =>
        rw [if_neg hdone]
        cases hdata : (s.buffers idx.toNat).pData with
        | none =>
            rw [hdata] at halike
            exact ⟨hs.of_alike halike ⟨rfl, rfl, rfl⟩ rfl rfl hs.draw hs.current, ⟨rfl, rfl, rfl⟩⟩
        | some b =>
            rw [hdata] at halike
            exact ⟨hs.of_alike halike ⟨rfl, rfl, rfl⟩ rfl rfl hs.draw hs.current, ⟨rfl, rfl, rfl⟩⟩
  | enableMultiBuffer ok numBuffers => exact hc.elim
  | attachExternalBuffer idx pBuf => exact hc.elim
  | detachExternalBuffer idx => exact hc.elim

/-! ## Runs -/

/-- Without padding, a pixel is in its buffer. -/
theorem Buffered.contained (hs : s.Buffered) (hg : s.Geometry) (hun : s.Unpadded) (x y : Int16) :
    s.Contained x y := by
  intro b i haccess
  obtain ⟨id, hid, hsize⟩ := hs.slot _ hs.draw
  rw [accesses, hs.current, hid] at haccess
  split at haccess
  · next hin =>
    cases haccess
    rw [hsize]
    exact hg.cell_lt hun hin
  · cases haccess

theorem Buffered.right (hs : s.Buffered) (hg : s.Geometry) (hun : s.Unpadded)
    {calls : List FbCall} (hcalls : ∀ c ∈ calls, c.Draws) : s.Right calls := by
  induction calls generalizing s with
  | nil => trivial
  | cons c calls ih =>
      rw [List.forall_mem_cons] at hcalls
      obtain ⟨hstep, hsame⟩ := hs.step hcalls.1
      refine ⟨?_, ih hstep (hsame.geometry hg) (hsame.unpadded hun) hcalls.2⟩
      cases c with
      | setPixel x y color => exact hs.contained hg hun x y
      | getPixel x y => exact hs.contained hg hun x y
      | writePixel x y color => exact Or.inr (hs.contained hg hun x y)
      | swapBuffers autoclear =>
          intro b hb x y hin
          obtain ⟨hlow, hhigh⟩ := hg.cell_lt hun hin
          rw [(hg.cell_eq hin).2]
          exact (hs.swap autoclear).2 b hb _ hlow (by omega)
      | _ => trivial

/-- With padding, the last pixel is behind its buffer. -/
theorem Buffered.not_contained (hs : s.Buffered) (hg : s.Geometry) (hun : ¬ s.Unpadded) :
    ¬ s.Contained (s.width - 1) (s.height - 1) := by
  simp only [Unpadded, not_or, not_le] at hun
  obtain ⟨hpitch, hhigh, hwide⟩ := hun
  have hw := @toInt_pred s.width (by omega)
  have hh := @toInt_pred s.height (by omega)
  have hin : s.inside (s.width - 1) (s.height - 1) = true := fbInside_iff.mpr (by omega)
  obtain ⟨id, hid, hsize⟩ := hs.slot _ hs.draw
  intro hcontained
  have hfits := (hcontained (.heap id) (s.cell (s.width - 1) (s.height - 1)) (by
    rw [accesses, if_pos hin, hs.current, hid]
    rfl)).2
  have haligned := hg.aligned
  have hline := hg.wide
  rw [hsize, bufSize_eq (by omega) (by omega), (hg.cell_eq hin).1, hw, hh] at hfits
  have hrows : (s.height.toInt - 1) * (s.width.toInt + 1) ≤
      (s.height.toInt - 1) * (s.pitch.toNat / 4 : Nat) :=
    Int.mul_le_mul_of_nonneg_left (by omega) (by omega)
  have hexpand : (s.height.toInt - 1) * (s.width.toInt + 1) =
      s.width.toInt * s.height.toInt + s.height.toInt - s.width.toInt - 1 := by
    ring
  omega

/-- A device whose lines hold its pixels. -/
theorem new_geometry {xres yres lineLength smemLen : UInt32} {mem : Block → Int → UInt32}
    (haligned : lineLength.toNat % 4 = 0) (hwide : 4 * xres.toNat ≤ lineLength.toNat)
    (hmapped : lineLength.toNat * yres.toNat ≤ smemLen.toNat) :
    (new xres yres lineLength smemLen mem).Geometry := by
  have hle : ∀ n : UInt32, n.toUInt16.toInt16.toInt ≤ n.toNat := by
    intro n
    have hlt := n.toNat_lt
    have hmod : n.toUInt16.toNat = n.toNat % 2 ^ 16 := UInt32.toNat_toUInt16 n
    have hbv : n.toUInt16.toInt16.toInt = n.toUInt16.toBitVec.toInt := rfl
    have hcond := BitVec.toInt_eq_toNat_cond n.toUInt16.toBitVec
    change _ = if 2 * n.toUInt16.toNat < 2 ^ 16 then (n.toUInt16.toNat : Int)
      else (n.toUInt16.toNat : Int) - (2 ^ 16 : Nat) at hcond
    split at hcond <;> omega
  constructor
  · exact haligned
  · have hx := hle xres
    show 4 * xres.toUInt16.toInt16.toInt ≤ (lineLength.toNat : Int)
    omega
  · have hlt := smemLen.toNat_lt
    have hmul : (lineLength.toNat : Int) * yres.toUInt16.toInt16.toInt ≤
        lineLength.toNat * yres.toNat := Int.mul_le_mul_of_nonneg_left (hle yres) (by omega)
    show (lineLength.toNat : Int) * yres.toUInt16.toInt16.toInt < 2 ^ 32
    have hcast : ((lineLength.toNat * yres.toNat : Nat) : Int) =
        (lineLength.toNat : Int) * yres.toNat := by push_cast; rfl
    omega

/-- Once `enableMultiBuffer` has succeeded, every run that draws stays in its buffers and shows
what was drawn, exactly when lines have no padding, or there is one at most. -/
theorem right_iff {xres yres lineLength smemLen : UInt32} {mem : Block → Int → UInt32}
    {ok : Nat → Bool} {numBuffers : UInt8} (haligned : lineLength.toNat % 4 = 0)
    (hwide : 4 * xres.toNat ≤ lineLength.toNat)
    (hmapped : lineLength.toNat * yres.toNat ≤ smemLen.toNat)
    (henable : (new xres yres lineLength smemLen mem).enableMultiBuffer ok numBuffers = (true, s)) :
    (∀ calls : List FbCall, (∀ c ∈ calls, c.Draws) → s.Right calls) ↔
      lineLength.toNat = 4 * s.width.toInt ∨ s.height.toInt ≤ 1 ∨ s.width.toInt ≤ 0 := by
  obtain ⟨hs, hsame⟩ := buffered_enable henable
  have hg := hsame.geometry (new_geometry haligned hwide hmapped)
  have hpitch : s.pitch = lineLength := hsame.pitch
  rw [← hpitch]
  constructor
  · intro hright
    by_contra hun
    have hlast := hright [.setPixel (s.width - 1) (s.height - 1) 0] (by simp [FbCall.Draws])
    exact hs.not_contained hg hun hlast.1
  · intro hun calls hcalls
    exact hs.right hg hun hcalls

/-- A screen of 800 by 480 pixels, lines of 3200 bytes and two buffers. -/
def plainScreen : FbDevice :=
  ((new 800 480 3200 1536000 fun _ _ => 0).enableMultiBuffer (fun _ => true) 2).2

/-- It shows its last pixel. -/
theorem right_plainScreen :
    plainScreen.Right [.setPixel 799 479 0xFFFFFFFF, .swapBuffers true, .writePixel 0 0 0x80FF0000,
      .swapBuffers false] := by
  have hiff := @right_iff plainScreen 800 480 3200 1536000 (fun _ _ => 0) (fun _ => true) 2
    (by decide) (by decide) (by decide) rfl
  exact hiff.mpr (Or.inl rfl) _ (by simp [FbCall.Draws])

/-- A screen of 1366 by 768 pixels, with lines of 5504 bytes. -/
def paddedScreen : FbDevice :=
  ((new 1366 768 5504 4227072 fun _ _ => 0).enableMultiBuffer (fun _ => true) 2).2

/-- Its last pixel is behind the buffer. -/
theorem not_right_paddedScreen :
    ((new 1366 768 5504 4227072 fun _ _ => 0).enableMultiBuffer (fun _ => true) 2).1 = true ∧
      ¬ paddedScreen.Right [.setPixel 1365 767 0xFFFFFFFF] := by
  refine ⟨rfl, fun hright => ?_⟩
  have hfits := (hright.1 (.heap 1) 1056757 rfl).2
  have hsize : paddedScreen.size (.heap 1) = 4196352 := rfl
  rw [hsize] at hfits
  omega

end FbDevice

end MFoES.Libgfx
