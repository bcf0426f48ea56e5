import MFoES.Libgfx.Framebuffer

/-!
# The lifetimes of the buffers

The slots own what `malloc` returned, so everything is freed once (`Accounted`), whatever the
program calls.  `m_pBuffer` is another matter.  It is left behind when the allocation of new buffers
fails, when a buffer is attached in the place of the one that it refers to, and when a slot without
a buffer is selected (`lifetimes_iff`).
-/

namespace MFoES.Libgfx

/-- What a slot has to free. -/
def FrameBuffer.owner (slot : FrameBuffer) : Option Nat :=
  match slot.bOwned, slot.pData with
  | true, some (.heap id) => some id
  | _, _ => none

theorem FrameBuffer.owner_eq_some {slot : FrameBuffer} {id : Nat} :
    slot.owner = some id ↔ slot.bOwned = true ∧ slot.pData = some (.heap id) := by
  obtain ⟨pData, bOwned, bReady⟩ := slot
  cases bOwned with
  | false => simp [owner]
  | true =>
      cases pData with
      | none => simp [owner]
      | some b => cases b <;> simp [owner]

theorem FrameBuffer.owner_of_free {slot : FrameBuffer}
    (h : slot.bOwned = true → slot.pData = none) : slot.owner = none := by
  rw [Option.eq_none_iff_forall_ne_some]
  intro id howner
  obtain ⟨howned, hdata⟩ := owner_eq_some.mp howner
  rw [h howned] at hdata
  cases hdata

namespace FbDevice

/-! ## The property -/

/-- Allocated, or mapped.  The buffers of the caller are for the caller to free. -/
def Allocated (s : FbDevice) : Block → Prop
  | .mapping => s.mapped = true
  | .heap id => s.heap.Live id
  | .external _ => True

/-- `m_pBuffer` refers to a buffer. -/
def Valid (s : FbDevice) : Prop := ∃ b, s.pBuffer = some b ∧ s.Allocated b

/-- It does so in every state of a run. -/
def NeverDangling : FbDevice → List FbCall → Prop
  | s, [] => s.Valid
  | s, c :: calls => s.Valid ∧ NeverDangling (s.step c) calls

/-- What `malloc` returned was freed once, and nothing else. -/
def FreedOnce (s : FbDevice) : Prop :=
  (∀ id, id < s.heap.next → s.heap.frees id = 1) ∧ s.strayFrees = 0

/-! ## The condition -/

/-- The call does not leave `m_pBuffer` behind: each `malloc` succeeds, or `m_pBuffer` is not a
buffer of the heap; the buffer in the way of an attached one is not `m_pBuffer`; a selected slot
has a buffer. -/
def Keeps (s : FbDevice) : FbCall → Prop
  | .enableMultiBuffer ok numBuffers =>
      (∀ i, i < bufferNumber numBuffers → ok i = true) ∨ ∀ id, s.pBuffer ≠ some (.heap id)
  | .attachExternalBuffer idx pBuf =>
      pBuf = none ∨ 3 ≤ idx ∨ (s.buffers idx.toNat).bOwned = false ∨
        (s.buffers idx.toNat).pData ≠ s.pBuffer
  | .selectDrawBuffer idx =>
      s.multiBufferEnabled = false ∨ s.bufferCount ≤ idx.toNat ∨
        (s.buffers idx.toNat).pData ≠ none
  | _ => True

def AllKeep : FbDevice → List FbCall → Prop
  | _, [] => True
  | s, c :: calls => s.Keeps c ∧ AllKeep (s.step c) calls

/-! ## What is owned -/

def owner (s : FbDevice) (i : Nat) : Option Nat := (s.buffers i).owner

/-- The slots below `m_bufferCount` own the heap. -/
structure Accounted (s : FbDevice) : Prop where
  owned : s.heap.Owned s.owner
  stray : s.strayFrees = 0
  heapOnly : ∀ i b, (s.buffers i).bOwned = true → (s.buffers i).pData = some b →
    ∃ id, b = .heap id
  below : ∀ i id, s.owner i = some id → i < s.bufferCount
  few : s.bufferCount ≤ 3

/-- A slot that has a buffer of the heap owns it. -/
def Plain (s : FbDevice) : Prop :=
  ∀ i id, (s.buffers i).pData = some (.heap id) → (s.buffers i).bOwned = true

/-- The slots and the heap are the same but for `bReady`. -/
structure Alike (s s' : FbDevice) : Prop where
  heap : s'.heap = s.heap
  stray : s'.strayFrees = s.strayFrees
  count : s'.bufferCount = s.bufferCount
  mapped : s'.mapped = s.mapped
  pData : ∀ i, (s'.buffers i).pData = (s.buffers i).pData
  bOwned : ∀ i, (s'.buffers i).bOwned = (s.buffers i).bOwned

variable {s s' : FbDevice} {i id : Nat} {slot : FrameBuffer} {after : FrameBuffer → FrameBuffer}

theorem Alike.owner (h : s.Alike s') : s'.owner = s.owner := by
  funext i
  rw [FbDevice.owner, FbDevice.owner, FrameBuffer.owner, FrameBuffer.owner, h.pData, h.bOwned]

theorem Alike.accounted (h : s.Alike s') (hs : s.Accounted) : s'.Accounted where
  owned := by
    rw [h.heap, h.owner]
    exact hs.owned
  stray := h.stray.trans hs.stray
  heapOnly := by
    intro i b howned hdata
    rw [h.bOwned] at howned
    rw [h.pData] at hdata
    exact hs.heapOnly i b howned hdata
  below := by
    rw [h.owner, h.count]
    exact hs.below
  few := by
    rw [h.count]
    exact hs.few

theorem Alike.plain (h : s.Alike s') (hs : s.Plain) : s'.Plain := by
  intro i id hdata
  rw [h.pData] at hdata
  rw [h.bOwned]
  exact hs i id hdata

/-- What is allocated is up to the mapping and the heap. -/
theorem allocated_congr (hmapped : s'.mapped = s.mapped) (hheap : s'.heap = s.heap) (b : Block) :
    s'.Allocated b ↔ s.Allocated b := by
  cases b with
  | mapping => rw [Allocated, Allocated, hmapped]
  | heap id => rw [Allocated, Allocated, hheap]
  | external id => exact Iff.rfl

theorem valid_congr (hmapped : s'.mapped = s.mapped) (hheap : s'.heap = s.heap)
    (hbuffer : s'.pBuffer = s.pBuffer) : s'.Valid ↔ s.Valid := by
  simp only [Valid, hbuffer, allocated_congr hmapped hheap]

theorem Alike.allocated (h : s.Alike s') (b : Block) : s'.Allocated b ↔ s.Allocated b :=
  allocated_congr h.mapped h.heap b

theorem Alike.valid (h : s.Alike s') (hbuffer : s'.pBuffer = s.pBuffer) : s'.Valid ↔ s.Valid :=
  valid_congr h.mapped h.heap hbuffer

/-- What a slot has is allocated. -/
theorem Plain.allocated (hplain : s.Plain) (hs : s.Accounted) (hmapped : s.mapped = true)
    {b : Block} (hdata : (s.buffers i).pData = some b) : s.Allocated b := by
  cases b with
  | mapping => exact hmapped
  | heap id => exact hs.owned.live i id (FrameBuffer.owner_eq_some.mpr ⟨hplain i id hdata, hdata⟩)
  | external id => trivial

theorem owner_setSlot : (s.setSlot i slot).owner = Function.update s.owner i slot.owner := by
  funext j
  rcases eq_or_ne j i with rfl | hji
  · rw [Function.update_self, owner, buffers_setSlot_self]
  · rw [Function.update_of_ne hji, owner, buffers_setSlot_of_ne s hji, owner]

/-- A slot may be set to one that owns a buffer of the heap, or nothing. -/
theorem Accounted.heapOnly_setSlot (hs : s.Accounted)
    (hslot : slot.bOwned = true → ∀ b, slot.pData = some b → ∃ id, b = .heap id) :
    ∀ j b, ((s.setSlot i slot).buffers j).bOwned = true →
      ((s.setSlot i slot).buffers j).pData = some b → ∃ id, b = .heap id := by
  intro j b howned hdata
  rcases eq_or_ne j i with rfl | hji
  · rw [buffers_setSlot_self] at howned hdata
    exact hslot howned b hdata
  · rw [buffers_setSlot_of_ne _ hji] at howned hdata
    exact hs.heapOnly j b howned hdata

/-- A slot that owns nothing may be set to one that owns nothing. -/
theorem Accounted.setSlot (hs : s.Accounted) (hi : s.owner i = none)
    (hslot : slot.bOwned = true → slot.pData = none) : (s.setSlot i slot).Accounted := by
  have howner : (s.setSlot i slot).owner = s.owner := by
    rw [owner_setSlot, FrameBuffer.owner_of_free hslot, ← hi, Function.update_eq_self]
  constructor
  · rw [howner]
    exact hs.owned
  · exact hs.stray
  · refine hs.heapOnly_setSlot fun howned b hdata => ?_
    rw [hslot howned] at hdata
    cases hdata
  · rw [howner]
    exact hs.below
  · exact hs.few

/-! ## Freeing -/

/-- A slot frees what it owns, or nothing. -/
theorem Accounted.freeSlot_cases (hs : s.Accounted) (after : FrameBuffer → FrameBuffer) (i : Nat) :
    (∃ id, s.owner i = some id ∧
      freeSlot after s i = (s.free (.heap id)).setSlot i (after (s.buffers i))) ∨
    (s.owner i = none ∧ freeSlot after s i = s) := by
  rw [owner, FrameBuffer.owner, freeSlot]
  cases howned : (s.buffers i).bOwned with
  | false => exact Or.inr ⟨rfl, rfl⟩
  | true =>
      cases hdata : (s.buffers i).pData with
      | none => exact Or.inr ⟨rfl, rfl⟩
      | some b =>
          obtain ⟨id, rfl⟩ := hs.heapOnly i b howned hdata
          exact Or.inl ⟨id, rfl, rfl⟩

/-- Freeing a slot, which gets something else that it does not own. -/
theorem Accounted.free (hs : s.Accounted) (hi : s.owner i = some id)
    (hslot : slot.bOwned = true → slot.pData = none) :
    ((s.free (.heap id)).setSlot i slot).Accounted := by
  have howner : ((s.free (.heap id)).setSlot i slot).owner = Function.update s.owner i none := by
    rw [owner_setSlot, FrameBuffer.owner_of_free hslot]
    rfl
  constructor
  · rw [howner]
    exact hs.owned.free hi
  · exact hs.stray
  · refine hs.heapOnly_setSlot fun howned b hdata => ?_
    rw [hslot howned] at hdata
    cases hdata
  · intro j id' hj
    rw [howner] at hj
    rcases eq_or_ne j i with rfl | hji
    · rw [Function.update_self] at hj
      cases hj
    · rw [Function.update_of_ne hji] at hj
      exact hs.below j id' hj
  · exact hs.few

/-- Slots are emptied, and the rest stays. -/
structure Drops (s s' : FbDevice) : Prop where
  accounted : s'.Accounted
  pBuffer : s'.pBuffer = s.pBuffer
  count : s'.bufferCount = s.bufferCount
  mapped : s'.mapped = s.mapped
  slot : ∀ j, (s'.buffers j).pData = none ∨ s'.buffers j = s.buffers j

theorem Drops.trans {s'' : FbDevice} (h : s.Drops s') (h' : s'.Drops s'') : s.Drops s'' where
  accounted := h'.accounted
  pBuffer := h'.pBuffer.trans h.pBuffer
  count := h'.count.trans h.count
  mapped := h'.mapped.trans h.mapped
  slot := by
    intro j
    rcases h'.slot j with hnone | hsame
    · exact Or.inl hnone
    · rw [hsame]
      exact h.slot j

theorem Drops.plain (h : s.Drops s') (hs : s.Plain) : s'.Plain := by
  intro j id hdata
  rcases h.slot j with hnone | hsame
  · rw [hnone] at hdata
    cases hdata
  · rw [hsame] at hdata ⊢
    exact hs j id hdata

theorem Accounted.drops_freeSlot (hs : s.Accounted) (hafter : ∀ slot, (after slot).pData = none)
    (i : Nat) :
    s.Drops (freeSlot after s i) ∧
      (freeSlot after s i).owner = Function.update s.owner i none := by
  rcases hs.freeSlot_cases after i with ⟨id, hi, heq⟩ | ⟨hi, heq⟩
  · rw [heq]
    constructor
    · refine ⟨hs.free hi fun _ => hafter _, rfl, rfl, rfl, fun j => ?_⟩
      rcases eq_or_ne j i with rfl | hji
      · refine Or.inl ?_
        rw [buffers_setSlot_self]
        exact hafter _
      · exact Or.inr (buffers_setSlot_of_ne _ hji _)
    · rw [owner_setSlot, FrameBuffer.owner_of_free fun _ => hafter _]
      rfl
  · rw [heq]
    refine ⟨⟨hs, rfl, rfl, rfl, fun _ => Or.inr rfl⟩, ?_⟩
    rw [← hi, Function.update_eq_self]

/-- The loops that free the first slots. -/
theorem Accounted.drops_freeSlots (hs : s.Accounted) (after : FrameBuffer → FrameBuffer)
    (hafter : ∀ slot, (after slot).pData = none) (n : Nat) :
    s.Drops ((List.range n).foldl (freeSlot after) s) ∧
      ∀ j, ((List.range n).foldl (freeSlot after) s).owner j =
        if j < n then none else s.owner j := by
  induction n with
  | zero => exact ⟨⟨hs, rfl, rfl, rfl, fun _ => Or.inr rfl⟩, fun j => rfl⟩
  | succ n ih =>
      obtain ⟨hdrops, howner⟩ := ih
      rw [List.range_succ, List.foldl_append]
      obtain ⟨hstep, hnow⟩ := hdrops.accounted.drops_freeSlot hafter n
      refine ⟨hdrops.trans hstep, fun j => ?_⟩
      show (freeSlot after _ n).owner j = _
      rw [hnow, Function.update_apply, howner]
      split_ifs <;> first | rfl | omega

/-- The loop that frees what was allocated frees it as the destructor does. -/
theorem Accounted.rollback_eq (hs : s.Accounted) (n : Nat) (hn : ∀ j, j < n → s.owner j ≠ none) :
    (List.range n).foldl rollbackSlot s =
      (List.range n).foldl (freeSlot FrameBuffer.clear) s := by
  induction n with
  | zero => rfl
  | succ n ih =>
      have ih := ih fun j hj => hn j (Nat.lt_succ_of_lt hj)
      obtain ⟨hdrops, howner⟩ :=
        hs.drops_freeSlots FrameBuffer.clear (fun _ => rfl) n
      rw [List.range_succ, List.foldl_append, List.foldl_append, ih, List.foldl_cons,
        List.foldl_nil, List.foldl_cons, List.foldl_nil]
      have hsome := howner n
      rw [if_neg (Nat.lt_irrefl n)] at hsome
      have hown := hn n (Nat.lt_succ_self n)
      rw [← hsome] at hown
      rcases hdrops.accounted.freeSlot_cases FrameBuffer.clear n with
        ⟨id, hid, heq⟩ | ⟨hnone, -⟩
      · rw [heq, rollbackSlot, (FrameBuffer.owner_eq_some.mp hid).2]
      · exact (hown hnone).elim

/-! ## Allocating -/

theorem Accounted.allocSlot (hs : s.Accounted) (hi : s.owner i = none) (hlt : i < s.bufferCount) :
    (s.allocSlot i).Accounted ∧
      (s.allocSlot i).owner = Function.update s.owner i (some s.heap.next) := by
  have howner : (s.allocSlot i).owner = Function.update s.owner i (some s.heap.next) :=
    owner_setSlot
  refine ⟨?_, howner⟩
  constructor
  · rw [howner]
    exact hs.owned.alloc hi
  · exact hs.stray
  · exact hs.heapOnly_setSlot fun _ b hdata => ⟨_, (Option.some.inj hdata).symm⟩
  · intro j id hj
    rw [howner] at hj
    rcases eq_or_ne j i with rfl | hji
    · exact hlt
    · rw [Function.update_of_ne hji] at hj
      exact hs.below j id hj
  · exact hs.few

theorem Plain.setSlot (hs : s.Plain)
    (hslot : ∀ id, slot.pData = some (.heap id) → slot.bOwned = true) :
    (s.setSlot i slot).Plain := by
  intro j id hdata
  rcases eq_or_ne j i with rfl | hji
  · rw [buffers_setSlot_self] at hdata ⊢
    exact hslot id hdata
  · rw [buffers_setSlot_of_ne _ hji] at hdata ⊢
    exact hs j id hdata

theorem Plain.allocSlot (hs : s.Plain) (i : Nat) : (s.allocSlot i).Plain :=
  @Plain.setSlot { s with heap := _ } i _ hs fun _ _ => rfl

/-- Where `malloc` fails, nothing is owned any more, and the first slot has `m_pBuffer`. -/
structure Failed (s s' : FbDevice) : Prop where
  accounted : s'.Accounted
  pBuffer : s'.pBuffer = s.pBuffer
  mapped : s'.mapped = s.mapped
  owner : ∀ j, s'.owner j = none
  plain : s.Plain → (∀ id, s.pBuffer ≠ some (.heap id)) → s'.Plain

/-- Where nothing is owned, the number of buffers does not matter. -/
theorem Accounted.recount (hs : s.Accounted) (hnone : ∀ j, s.owner j = none) {n : Nat}
    (hn : n ≤ 3) (multi : Bool) :
    ({ s with bufferCount := n, multiBufferEnabled := multi } : FbDevice).Accounted := by
  refine ⟨hs.owned, hs.stray, hs.heapOnly, ?_, hn⟩
  intro j id hj
  exact absurd ((hnone j).symm.trans hj) (by simp)

theorem Accounted.singleBuffer (hs : s.Accounted) (hnone : ∀ j, s.owner j = none) :
    s.Failed s.singleBuffer := by
  have hone := hs.recount hnone (by decide : 1 ≤ 3) false
  have hfree : ({ s.buffers 0 with pData := s.pBuffer, bOwned := false } : FrameBuffer).bOwned =
      true → s.pBuffer = none := fun howned => nomatch howned
  constructor
  · exact hone.setSlot (hnone 0) hfree
  · rfl
  · rfl
  · intro j
    rw [FbDevice.singleBuffer, owner_setSlot, FrameBuffer.owner_of_free hfree]
    rcases eq_or_ne j 0 with rfl | hj
    · rw [Function.update_self]
    · rw [Function.update_of_ne hj]
      exact hnone j
  · intro hplain hheap j id hdata
    rw [FbDevice.singleBuffer] at hdata ⊢
    rcases eq_or_ne j 0 with rfl | hj
    · rw [buffers_setSlot_self] at hdata
      exact (hheap id hdata).elim
    · rw [buffers_setSlot_of_ne _ hj] at hdata ⊢
      exact hplain j id hdata

theorem Accounted.allocFailed (hs : s.Accounted) (hbelow : ∀ j, j < i → s.owner j ≠ none)
    (habove : ∀ j, i ≤ j → s.owner j = none) : s.Failed (s.allocFailed i) := by
  have hset : (s.setSlot i (s.buffers i).clear).Accounted :=
    hs.setSlot (habove i (Nat.le_refl i)) fun _ => rfl
  have howner : ∀ j, (s.setSlot i (s.buffers i).clear).owner j = s.owner j := by
    intro j
    rw [owner_setSlot, FrameBuffer.owner_of_free fun _ => rfl, ← habove i (Nat.le_refl i),
      Function.update_eq_self]
  obtain ⟨hdrops, hnone⟩ := hset.drops_freeSlots FrameBuffer.clear (fun _ => rfl) i
  rw [FbDevice.allocFailed, hset.rollback_eq i fun j hj => by rw [howner]; exact hbelow j hj]
  have hfailed := hdrops.accounted.singleBuffer fun j => by
    rw [hnone, howner]
    split
    · rfl
    · next hge => exact habove j (Nat.not_lt.mp hge)
  refine ⟨hfailed.accounted, hfailed.pBuffer.trans hdrops.pBuffer,
    hfailed.mapped.trans hdrops.mapped, hfailed.owner, fun hplain hheap => ?_⟩
  refine hfailed.plain (hdrops.plain (hplain.setSlot fun _ hdata => (nomatch hdata))) ?_
  · rw [hdrops.pBuffer]
    exact hheap

/-- Where each `malloc` succeeds, the first slots own buffers. -/
structure Filled (s s' : FbDevice) (n : Nat) : Prop where
  accounted : s'.Accounted
  mapped : s'.mapped = s.mapped
  count : s'.bufferCount = s.bufferCount
  full : ∀ j, j < n → s'.owner j ≠ none
  plain : s.Plain → s'.Plain

/-- The loop allocates all slots or leaves none. -/
theorem Accounted.allocSlots {ok : Nat → Bool} {left : Nat} (hs : s.Accounted)
    (hbelow : ∀ j, j < i → s.owner j ≠ none) (habove : ∀ j, i ≤ j → s.owner j = none)
    (hleft : i + left ≤ s.bufferCount) :
    ((allocSlots ok i left s).1 = true → s.Filled (allocSlots ok i left s).2 (i + left)) ∧
      ((allocSlots ok i left s).1 = false → s.Failed (allocSlots ok i left s).2) := by
  induction left generalizing s i with
  | zero => exact ⟨fun _ => ⟨hs, rfl, rfl, hbelow, fun h => h⟩, fun h => nomatch h⟩
  | succ left ih =>
      rw [FbDevice.allocSlots]
      cases hok : ok i with
      | false => exact ⟨fun h => (nomatch h), fun _ => hs.allocFailed hbelow habove⟩
      | true =>
          have hi := habove i (Nat.le_refl i)
          obtain ⟨hslot, howner⟩ := hs.allocSlot hi (by omega)
          have hrest := @ih (s.allocSlot i) (i + 1) hslot
            (fun j hj => by
              rw [howner]
              rcases eq_or_ne j i with rfl | hji
              · simp
              · rw [Function.update_of_ne hji]
                exact hbelow j (by omega))
            (fun j hj => by
              rw [howner, Function.update_of_ne (by omega)]
              exact habove j (by omega))
            (by show i + 1 + left ≤ s.bufferCount; omega)
          rw [if_pos rfl]
          constructor
          · intro hdone
            obtain ⟨haccounted, hmapped, hcount, hfull, hplain⟩ := hrest.1 hdone
            refine ⟨haccounted, hmapped, hcount, fun j hj => hfull j (by omega), fun h => ?_⟩
            exact hplain (h.allocSlot i)
          · intro hdone
            obtain ⟨haccounted, hbuffer, hmapped, hnone, hplain⟩ := hrest.2 hdone
            exact ⟨haccounted, hbuffer, hmapped, hnone, fun h => hplain (h.allocSlot i)⟩

theorem allocSlots_fst {ok : Nat → Bool} {left : Nat} :
    (allocSlots ok i left s).1 = true ↔ ∀ j, i ≤ j → j < i + left → ok j = true := by
  induction left generalizing s i with
  | zero => exact iff_of_true rfl fun j hge hlt => absurd hlt (Nat.not_lt.mpr hge)
  | succ left ih =>
      rw [FbDevice.allocSlots]
      cases hok : ok i with
      | false =>
          refine iff_of_false (fun h => nomatch h) fun hall => ?_
          rw [hall i (Nat.le_refl i) (by omega)] at hok
          cases hok
      | true =>
          rw [if_pos rfl, ih]
          constructor
          · intro hall j hge hlt
            rcases Nat.eq_or_lt_of_le hge with rfl | hgt
            · exact hok
            · exact hall j hgt (by omega)
          · intro hall j hge hlt
            exact hall j (by omega) (by omega)

theorem bufferNumber_le (numBuffers : UInt8) : bufferNumber numBuffers ≤ 3 := by
  rw [bufferNumber]
  split
  · decide
  · next hsome =>
    rw [not_or, UInt8.lt_iff_toNat_lt, UInt8.lt_iff_toNat_lt] at hsome
    change _ ∧ ¬ 3 < numBuffers.toNat at hsome
    omega

theorem bufferNumber_pos (numBuffers : UInt8) : 0 < bufferNumber numBuffers := by
  rw [bufferNumber]
  split
  · decide
  · next hsome =>
    rw [not_or, UInt8.lt_iff_toNat_lt, UInt8.lt_iff_toNat_lt] at hsome
    change ¬ numBuffers.toNat < 1 ∧ _ at hsome
    omega

/-! ## The calls -/

/-- Nothing is owned after the loop that frees. -/
theorem Accounted.dropBuffers (hs : s.Accounted) {n : Nat} (hn : n ≤ 3) :
    (s.dropBuffers n).Accounted ∧ (∀ j, (s.dropBuffers n).owner j = none) ∧
      (s.dropBuffers n).pBuffer = s.pBuffer ∧ (s.dropBuffers n).mapped = s.mapped ∧
        (s.Plain → (s.dropBuffers n).Plain) := by
  obtain ⟨hdrops, howner⟩ := hs.drops_freeSlots
    (fun slot => { slot with pData := none, bOwned := false }) (fun _ => rfl) s.bufferCount
  have hnone : ∀ j, ((List.range s.bufferCount).foldl
      (freeSlot fun slot => { slot with pData := none, bOwned := false }) s).owner j = none := by
    intro j
    rw [howner]
    split
    · rfl
    · next hge =>
      rw [Option.eq_none_iff_forall_ne_some]
      intro id hj
      exact hge (hs.below j id hj)
  exact ⟨hdrops.accounted.recount hnone hn _, hnone, hdrops.pBuffer, hdrops.mapped, hdrops.plain⟩

/-- The program draws into a buffer of the heap. -/
theorem Filled.useBuffers {n : Nat} (h : s.Filled s' n) (hn : 0 < n) :
    (s'.useBuffers n).Accounted ∧ (s'.useBuffers n).mapped = s.mapped ∧
      (s.Plain → (s'.useBuffers n).Plain) ∧
        ∃ id, (s'.useBuffers n).pBuffer = some (.heap id) ∧ (s'.useBuffers n).heap.Live id := by
  have halike : s'.Alike (s'.useBuffers n) := ⟨rfl, rfl, rfl, rfl, fun _ => rfl, fun _ => rfl⟩
  refine ⟨halike.accounted h.accounted, h.mapped, fun hplain => halike.plain (h.plain hplain), ?_⟩
  have hfull := h.full (if 1 < n then 1 else 0) (by split <;> omega)
  obtain ⟨id, hid⟩ := Option.ne_none_iff_exists'.mp hfull
  exact ⟨id, (FrameBuffer.owner_eq_some.mp hid).2, h.accounted.owned.live _ id hid⟩

/-- What `enableMultiBuffer` leaves where each `malloc` succeeds. -/
theorem Accounted.enable_of_ok (hs : s.Accounted) {ok : Nat → Bool} {numBuffers : UInt8}
    (hok : ∀ i, i < bufferNumber numBuffers → ok i = true) :
    (s.enableMultiBuffer ok numBuffers).2.Accounted ∧
      (s.enableMultiBuffer ok numBuffers).2.mapped = s.mapped ∧
        (s.Plain → (s.enableMultiBuffer ok numBuffers).2.Plain) ∧
          (s.enableMultiBuffer ok numBuffers).2.Valid := by
  obtain ⟨haccounted, hnone, -, hmapped, hplain⟩ := hs.dropBuffers (bufferNumber_le numBuffers)
  have hdone := (@allocSlots_fst (s.dropBuffers (bufferNumber numBuffers)) 0 ok
    (bufferNumber numBuffers)).mpr fun j _ hj => hok j (by omega)
  have hfilled := (@Accounted.allocSlots _ 0 ok (bufferNumber numBuffers) haccounted
    (fun j hj => absurd hj (Nat.not_lt_zero j)) (fun j _ => hnone j) (by
      rw [Nat.zero_add]
      exact Nat.le_refl _)).1 hdone
  rw [Nat.zero_add] at hfilled
  obtain ⟨haccounted', hmapped', hplain', id, hbuffer, hlive⟩ :=
    hfilled.useBuffers (bufferNumber_pos numBuffers)
  have heq : (s.enableMultiBuffer ok numBuffers).2 =
      (FbDevice.allocSlots ok 0 (bufferNumber numBuffers)
        (s.dropBuffers (bufferNumber numBuffers))).2.useBuffers (bufferNumber numBuffers) := by
    rw [FbDevice.enableMultiBuffer]
    dsimp only
    rw [if_pos hdone]
  rw [heq]
  exact ⟨haccounted', hmapped'.trans hmapped, fun h => hplain' (hplain h), _, hbuffer, hlive⟩

/-- What it leaves where a `malloc` fails. -/
theorem Accounted.enable_of_not_ok (hs : s.Accounted) {ok : Nat → Bool} {numBuffers : UInt8}
    (hok : ¬ ∀ i, i < bufferNumber numBuffers → ok i = true) :
    s.Failed (s.enableMultiBuffer ok numBuffers).2 := by
  obtain ⟨haccounted, hnone, hbuffer, hmapped, hplain⟩ :=
    hs.dropBuffers (bufferNumber_le numBuffers)
  have hdone : (FbDevice.allocSlots ok 0 (bufferNumber numBuffers)
      (s.dropBuffers (bufferNumber numBuffers))).1 = false := by
    rw [← Bool.not_eq_true, allocSlots_fst]
    intro hall
    exact hok fun i hi => hall i (Nat.zero_le i) (by omega)
  have hfailed := (@Accounted.allocSlots _ 0 ok (bufferNumber numBuffers) haccounted
    (fun j hj => absurd hj (Nat.not_lt_zero j)) (fun j _ => hnone j) (by
      rw [Nat.zero_add]
      exact Nat.le_refl _)).2 hdone
  have heq : (s.enableMultiBuffer ok numBuffers).2 =
      (FbDevice.allocSlots ok 0 (bufferNumber numBuffers)
        (s.dropBuffers (bufferNumber numBuffers))).2 := by
    rw [FbDevice.enableMultiBuffer]
    dsimp only
    rw [if_neg (by simp [hdone])]
  rw [heq]
  refine ⟨hfailed.accounted, hfailed.pBuffer.trans hbuffer, hfailed.mapped.trans hmapped,
    hfailed.owner, fun h hheap => hfailed.plain (hplain h) ?_⟩
  rw [hbuffer]
  exact hheap

theorem alike_copyToFb (s : FbDevice) (b : Block) : s.Alike (s.copyToFb b) :=
  ⟨rfl, rfl, rfl, rfl, fun _ => rfl, fun _ => rfl⟩

theorem Alike.refl (s : FbDevice) : s.Alike s := ⟨rfl, rfl, rfl, rfl, fun _ => rfl, fun _ => rfl⟩

theorem Alike.trans {s'' : FbDevice} (h : s.Alike s') (h' : s'.Alike s'') : s.Alike s'' where
  heap := h'.heap.trans h.heap
  stray := h'.stray.trans h.stray
  count := h'.count.trans h.count
  mapped := h'.mapped.trans h.mapped
  pData := fun i => (h'.pData i).trans (h.pData i)
  bOwned := fun i => (h'.bOwned i).trans (h.bOwned i)

theorem alike_nextBuffer (s : FbDevice) (autoclear : Bool) :
    s.Alike (s.nextBuffer autoclear) ∧
      ((s.nextBuffer autoclear).pBuffer = s.pBuffer ∨
        ∃ i b, (s.buffers i).pData = some b ∧ (s.nextBuffer autoclear).pBuffer = some b) := by
  rw [nextBuffer]
  dsimp only
  cases hdata : (s.buffers ((s.drawBufferIndex + 1) % s.bufferCount)).pData with
  | none => exact ⟨⟨rfl, rfl, rfl, rfl, fun _ => rfl, fun _ => rfl⟩, Or.inl rfl⟩
  | some b =>
      cases autoclear with
      | false =>
          exact ⟨⟨rfl, rfl, rfl, rfl, fun _ => rfl, fun _ => rfl⟩, Or.inr ⟨_, b, hdata, rfl⟩⟩
      | true => exact ⟨⟨rfl, rfl, rfl, rfl, fun _ => rfl, fun _ => rfl⟩, Or.inr ⟨_, b, hdata, rfl⟩⟩

theorem alike_setReady (s : FbDevice) (i : Nat) :
    s.Alike (s.setSlot i { s.buffers i with bReady := true }) := by
  refine ⟨rfl, rfl, rfl, rfl, fun j => ?_, fun j => ?_⟩
  · rcases eq_or_ne j i with rfl | hji
    · rw [buffers_setSlot_self]
    · rw [buffers_setSlot_of_ne _ hji]
  · rcases eq_or_ne j i with rfl | hji
    · rw [buffers_setSlot_self]
    · rw [buffers_setSlot_of_ne _ hji]

/-- `swapBuffers` leaves `m_pBuffer`, or takes the buffer of a slot. -/
theorem alike_swapBuffers (s : FbDevice) (autoclear : Bool) :
    s.Alike (s.swapBuffers autoclear) ∧
      ((s.swapBuffers autoclear).pBuffer = s.pBuffer ∨
        ∃ i b, (s.buffers i).pData = some b ∧ (s.swapBuffers autoclear).pBuffer = some b) := by
  rw [swapBuffers]
  cases s.multiBufferEnabled with
  | false =>
      rw [if_neg Bool.false_ne_true, flushToFb]
      split
      · exact ⟨.refl s, Or.inl rfl⟩
      · split
        · exact ⟨.refl s, Or.inl rfl⟩
        · exact ⟨alike_copyToFb s _, Or.inl rfl⟩
  | true =>
      rw [if_pos rfl]
      cases s.presented with
      | none => exact ⟨.refl s, Or.inl rfl⟩
      | some b =>
          dsimp only
          generalize ht : FbDevice.copyToFb _ b = t
          have halike : s.Alike t := by
            rw [← ht]
            exact (alike_setReady s s.drawBufferIndex).trans
              ⟨rfl, rfl, rfl, rfl, fun _ => rfl, fun _ => rfl⟩
          have hbuffer : t.pBuffer = s.pBuffer := by
            rw [← ht]
            rfl
          obtain ⟨hnext, hpick⟩ := alike_nextBuffer t autoclear
          rw [hbuffer] at hpick
          simp only [halike.pData] at hpick
          exact ⟨halike.trans hnext, hpick⟩

theorem alike_setPixel (s : FbDevice) (x y : Int16) (color : UInt32) :
    s.Alike (s.setPixel x y color) ∧ (s.setPixel x y color).pBuffer = s.pBuffer := by
  rw [setPixel]
  cases s.accesses x y with
  | none => exact ⟨.refl s, rfl⟩
  | some p => exact ⟨⟨rfl, rfl, rfl, rfl, fun _ => rfl, fun _ => rfl⟩, rfl⟩

theorem alike_writePixel (s : FbDevice) (x y : Int16) (color : UInt32) :
    s.Alike (s.writePixel x y color) ∧ (s.writePixel x y color).pBuffer = s.pBuffer := by
  rw [writePixel]
  split_ifs
  · exact ⟨.refl s, rfl⟩
  · exact alike_setPixel s x y _
  · exact alike_setPixel s x y _

theorem alike_selectDrawBuffer (s : FbDevice) (idx : UInt8) : s.Alike (s.selectDrawBuffer idx) := by
  rw [selectDrawBuffer]
  split
  · exact .refl s
  · exact ⟨rfl, rfl, rfl, rfl, fun _ => rfl, fun _ => rfl⟩

theorem alike_selectDisplayBuffer (s : FbDevice) (idx : UInt8) :
    s.Alike (s.selectDisplayBuffer idx) ∧ (s.selectDisplayBuffer idx).pBuffer = s.pBuffer := by
  rw [selectDisplayBuffer]
  split
  · exact ⟨.refl s, rfl⟩
  · cases (s.buffers idx.toNat).pData with
    | none => exact ⟨⟨rfl, rfl, rfl, rfl, fun _ => rfl, fun _ => rfl⟩, rfl⟩
    | some b => exact ⟨⟨rfl, rfl, rfl, rfl, fun _ => rfl, fun _ => rfl⟩, rfl⟩

theorem setSlot_setSlot (s : FbDevice) (i : Nat) (slot slot' : FrameBuffer) :
    (s.setSlot i slot).setSlot i slot' = s.setSlot i slot' := by
  simp only [setSlot, Function.update_idem]

/-- More slots may be counted than own something. -/
theorem Accounted.grow (hs : s.Accounted) {n : Nat} (hn : s.bufferCount ≤ n) (hn' : n ≤ 3) :
    ({ s with bufferCount := n } : FbDevice).Accounted :=
  ⟨hs.owned, hs.stray, hs.heapOnly, fun i id hi => Nat.lt_of_lt_of_le (hs.below i id hi) hn, hn'⟩

/-- A slot that is lent has freed what it owned. -/
theorem Accounted.lendSlot (hs : s.Accounted) (i ext : Nat) :
    (s.lendSlot i ext).Accounted ∧
      ((∃ id, s.owner i = some id ∧ s.lendSlot i ext =
          (s.free (.heap id)).setSlot i ⟨some (.external ext), false, false⟩) ∨
        s.owner i = none ∧
          s.lendSlot i ext = s.setSlot i ⟨some (.external ext), false, false⟩) := by
  rw [FbDevice.lendSlot]
  rcases hs.freeSlot_cases (fun slot => slot) i with ⟨id, hid, heq⟩ | ⟨hnone, heq⟩
  · rw [heq, setSlot_setSlot]
    exact ⟨hs.free hid fun howned => (nomatch howned), Or.inl ⟨id, hid, rfl⟩⟩
  · rw [heq]
    exact ⟨hs.setSlot hnone fun howned => (nomatch howned), Or.inr ⟨hnone, rfl⟩⟩

theorem plain_lendSlot (hplain : s.Plain) (hs : s.Accounted) (i ext : Nat) :
    (s.lendSlot i ext).Plain := by
  rcases (hs.lendSlot i ext).2 with ⟨id, -, heq⟩ | ⟨-, heq⟩
  · rw [heq]
    have hfree : (s.free (.heap id)).Plain := hplain
    exact hfree.setSlot fun _ hdata => nomatch hdata
  · rw [heq]
    exact hplain.setSlot fun _ hdata => nomatch hdata

/-- Lending a slot leaves `m_pBuffer` a buffer, unless the slot owned it. -/
theorem valid_lendSlot (hs : s.Accounted) (hvalid : s.Valid) (i ext : Nat) :
    (s.lendSlot i ext).Valid ↔ (s.buffers i).bOwned = false ∨ (s.buffers i).pData ≠ s.pBuffer := by
  obtain ⟨b, hbuffer, halloc⟩ := hvalid
  rcases (hs.lendSlot i ext).2 with ⟨id, hid, heq⟩ | ⟨hnone, heq⟩
  · obtain ⟨howned, hdata⟩ := FrameBuffer.owner_eq_some.mp hid
    rw [heq, howned, hdata, hbuffer]
    have hfree : ((s.free (.heap id)).setSlot i ⟨some (.external ext), false, false⟩).Valid ↔
        (s.free (.heap id)).Allocated b := by
      constructor
      · rintro ⟨b', hb', halloc'⟩
        obtain rfl := Option.some.inj (hbuffer.symm.trans hb')
        exact halloc'
      · intro halloc'
        exact ⟨b, hbuffer, halloc'⟩
    rw [hfree]
    cases b with
    | mapping => exact iff_of_true halloc (Or.inr (by simp))
    | external id' => exact iff_of_true trivial (Or.inr (by simp))
    | heap id' =>
        rcases eq_or_ne id' id with rfl | hne
        · exact iff_of_false Allocations.not_live_free (by simp)
        · refine iff_of_true ((Allocations.live_free_of_ne hne).mpr halloc) (Or.inr ?_)
          simpa using Ne.symm hne
  · rw [heq]
    refine iff_of_true ((valid_congr rfl rfl rfl).mpr ⟨b, hbuffer, halloc⟩) ?_
    · cases howned : (s.buffers i).bOwned with
      | false => exact Or.inl rfl
      | true =>
          refine Or.inr fun hdata => ?_
          rw [hbuffer] at hdata
          obtain ⟨id, rfl⟩ := hs.heapOnly i b howned hdata
          rw [owner, FrameBuffer.owner_eq_some.mpr ⟨howned, hdata⟩] at hnone
          cases hnone

/-- Counting other slots leaves `m_pBuffer`. -/
theorem valid_recount (s : FbDevice) (n : Nat) :
    ({ s with bufferCount := n } : FbDevice).Valid ↔ s.Valid :=
  valid_congr rfl rfl rfl

/-! ## One step -/

theorem Accounted.detach (hs : s.Accounted) (idx : UInt8) :
    (s.detachExternalBuffer idx).Accounted := by
  rw [detachExternalBuffer]
  split
  · exact hs
  · split
    · exact hs
    · next howned =>
      rw [Bool.not_eq_true] at howned
      refine hs.setSlot (FrameBuffer.owner_of_free fun h => ?_) fun _ => rfl
      rw [howned] at h
      cases h

/-- Every step frees what it has to. -/
theorem Accounted.step (hs : s.Accounted) (c : FbCall) : (s.step c).Accounted := by
  cases c with
  | setPixel x y color => exact (alike_setPixel s x y color).1.accounted hs
  | getPixel x y => exact hs
  | writePixel x y color => exact (alike_writePixel s x y color).1.accounted hs
  | swapBuffers autoclear => exact (alike_swapBuffers s autoclear).1.accounted hs
  | selectDrawBuffer idx => exact (alike_selectDrawBuffer s idx).accounted hs
  | selectDisplayBuffer idx => exact (alike_selectDisplayBuffer s idx).1.accounted hs
  | enableMultiBuffer ok numBuffers =>
      rcases Decidable.em (∀ i, i < bufferNumber numBuffers → ok i = true) with hok | hnot
      · exact (hs.enable_of_ok hok).1
      · exact (hs.enable_of_not_ok hnot).accounted
  | attachExternalBuffer idx pBuf =>
      cases pBuf with
      | none => exact hs
      | some ext =>
          rw [FbDevice.step, attachExternalBuffer]
          split
          · exact hs
          · next hidx =>
            rw [UInt8.le_iff_toNat_le] at hidx
            have hlt : idx.toNat < 3 := Nat.not_le.mp hidx
            have hlend := (hs.lendSlot idx.toNat ext).1
            have hfew := hlend.few
            refine hlend.grow ?_ ?_
            · split <;> omega
            · split <;> omega
  | detachExternalBuffer idx => exact hs.detach idx

/-- Between the calls that keep it, `m_pBuffer` and the slots have buffers. -/
structure Sound (s : FbDevice) : Prop where
  accounted : s.Accounted
  plain : s.Plain
  mapped : s.mapped = true
  valid : s.Valid

/-- Taking the buffer of a slot. -/
theorem Sound.take (hs : s.Sound) (halike : s.Alike s')
    (hbuffer : s'.pBuffer = s.pBuffer ∨
      ∃ i b, (s.buffers i).pData = some b ∧ s'.pBuffer = some b) : s'.Sound := by
  refine ⟨halike.accounted hs.accounted, halike.plain hs.plain, halike.mapped.trans hs.mapped, ?_⟩
  rcases hbuffer with hsame | ⟨i, b, hdata, htaken⟩
  · rw [halike.valid hsame]
    exact hs.valid
  · refine ⟨b, htaken, ?_⟩
    rw [halike.allocated]
    exact hs.plain.allocated hs.accounted hs.mapped hdata

theorem Sound.enable_iff (hs : s.Sound) (ok : Nat → Bool) (numBuffers : UInt8) :
    ((s.enableMultiBuffer ok numBuffers).2.Valid ↔ s.Keeps (.enableMultiBuffer ok numBuffers)) ∧
      (s.Keeps (.enableMultiBuffer ok numBuffers) →
        (s.enableMultiBuffer ok numBuffers).2.Sound) := by
  rcases Decidable.em (∀ i, i < bufferNumber numBuffers → ok i = true) with hok | hnot
  · obtain ⟨haccounted, hmapped, hplain, hvalid⟩ := hs.accounted.enable_of_ok hok
    refine ⟨iff_of_true hvalid (Or.inl hok), fun _ => ?_⟩
    exact ⟨haccounted, hplain hs.plain, hmapped.trans hs.mapped, hvalid⟩
  · have hfailed := hs.accounted.enable_of_not_ok hnot
    obtain ⟨b, hbuffer, halloc⟩ := hs.valid
    have hmapped := hfailed.mapped.trans hs.mapped
    have hiff : (s.enableMultiBuffer ok numBuffers).2.Valid ↔
        (s.enableMultiBuffer ok numBuffers).2.Allocated b := by
      rw [Valid, hfailed.pBuffer, hbuffer]
      simp
    rw [hiff, Keeps, or_iff_right hnot, hbuffer]
    cases b with
    | mapping =>
        refine ⟨iff_of_true hmapped (by simp), fun hheap => ?_⟩
        exact ⟨hfailed.accounted, hfailed.plain hs.plain (hbuffer ▸ hheap), hmapped,
          hiff.mpr hmapped⟩
    | external ext =>
        refine ⟨iff_of_true trivial (by simp), fun hheap => ?_⟩
        exact ⟨hfailed.accounted, hfailed.plain hs.plain (hbuffer ▸ hheap), hmapped,
          hiff.mpr trivial⟩
    | heap id =>
        refine ⟨iff_of_false ?_ (by simp), fun hheap => (hheap id rfl).elim⟩
        -- nobody owns it any more, so it was freed
        intro hlive
        obtain ⟨j, hj⟩ := hfailed.accounted.owned.covered id hlive
        rw [hfailed.owner j] at hj
        cases hj

theorem Sound.attach_iff (hs : s.Sound) (idx : UInt8) (pBuf : Option Nat) :
    ((s.attachExternalBuffer idx pBuf).Valid ↔ s.Keeps (.attachExternalBuffer idx pBuf)) ∧
      (s.Keeps (.attachExternalBuffer idx pBuf) → (s.attachExternalBuffer idx pBuf).Sound) := by
  have haccounted := hs.accounted.step (.attachExternalBuffer idx pBuf)
  cases pBuf with
  | none => exact ⟨iff_of_true hs.valid (Or.inl rfl), fun _ => hs⟩
  | some ext =>
      rw [FbDevice.step] at haccounted
      rw [Keeps, or_iff_right (by simp : ¬ some ext = none)]
      rcases Decidable.em (3 ≤ idx) with hidx | hidx
      · rw [attachExternalBuffer, if_pos hidx]
        exact ⟨iff_of_true hs.valid (Or.inl hidx), fun _ => hs⟩
      · rw [or_iff_right hidx, ← valid_lendSlot hs.accounted hs.valid idx.toNat ext]
        rw [attachExternalBuffer, if_neg hidx] at haccounted ⊢
        refine ⟨valid_recount _ _, fun hvalid => ⟨haccounted, ?_, ?_, ?_⟩⟩
        · exact plain_lendSlot hs.plain hs.accounted idx.toNat ext
        · rcases (hs.accounted.lendSlot idx.toNat ext).2 with ⟨id, -, heq⟩ | ⟨-, heq⟩
          · rw [heq]
            exact hs.mapped
          · rw [heq]
            exact hs.mapped
        · exact (valid_recount _ _).mpr hvalid

theorem Sound.select_iff (hs : s.Sound) (idx : UInt8) :
    ((s.selectDrawBuffer idx).Valid ↔ s.Keeps (.selectDrawBuffer idx)) ∧
      (s.Keeps (.selectDrawBuffer idx) → (s.selectDrawBuffer idx).Sound) := by
  have halike := alike_selectDrawBuffer s idx
  rw [Keeps, ← or_assoc]
  rcases Decidable.em (s.multiBufferEnabled = false ∨ s.bufferCount ≤ idx.toNat) with hno | hdone
  · rw [selectDrawBuffer, if_pos hno]
    exact ⟨iff_of_true hs.valid (Or.inl hno), fun _ => hs⟩
  · rw [or_iff_right hdone]
    have hbuffer : (s.selectDrawBuffer idx).pBuffer = (s.buffers idx.toNat).pData := by
      rw [selectDrawBuffer, if_neg hdone]
    cases hdata : (s.buffers idx.toNat).pData with
    | none =>
        refine ⟨iff_of_false ?_ (by simp), fun h => (h rfl).elim⟩
        rintro ⟨b, htaken, -⟩
        rw [hbuffer, hdata] at htaken
        cases htaken
    | some b =>
        have hsound := hs.take halike (Or.inr ⟨idx.toNat, b, hdata, hbuffer.trans hdata⟩)
        exact ⟨iff_of_true hsound.valid (by simp), fun _ => hsound⟩

theorem Sound.detach (hs : s.Sound) (idx : UInt8) : (s.detachExternalBuffer idx).Sound := by
  have haccounted := hs.accounted.detach idx
  rw [detachExternalBuffer] at haccounted ⊢
  split at haccounted
  · next hno =>
    rw [if_pos hno]
    exact hs
  · next hin =>
    rw [if_neg hin]
    split at haccounted
    · next howned =>
      rw [if_pos howned]
      exact hs
    · next howned =>
      rw [if_neg howned]
      refine ⟨haccounted, hs.plain.setSlot fun _ hdata => (nomatch hdata), hs.mapped, ?_⟩
      exact (valid_congr rfl rfl rfl).mpr hs.valid

/-- A step leaves `m_pBuffer` with a buffer exactly when it keeps it. -/
theorem Sound.step_iff (hs : s.Sound) (c : FbCall) :
    ((s.step c).Valid ↔ s.Keeps c) ∧ (s.Keeps c → (s.step c).Sound) := by
  have hkept : (s.step c).Sound → s.Keeps c →
      ((s.step c).Valid ↔ s.Keeps c) ∧ (s.Keeps c → (s.step c).Sound) := fun hsound hkeeps =>
    ⟨iff_of_true hsound.valid hkeeps, fun _ => hsound⟩
  cases c with
  | setPixel x y color =>
      obtain ⟨halike, hbuffer⟩ := alike_setPixel s x y color
      exact hkept (hs.take halike (Or.inl hbuffer)) trivial
  | getPixel x y => exact hkept hs trivial
  | writePixel x y color =>
      obtain ⟨halike, hbuffer⟩ := alike_writePixel s x y color
      exact hkept (hs.take halike (Or.inl hbuffer)) trivial
  | swapBuffers autoclear =>
      obtain ⟨halike, hbuffer⟩ := alike_swapBuffers s autoclear
      exact hkept (hs.take halike hbuffer) trivial
  | selectDrawBuffer idx => exact hs.select_iff idx
  | selectDisplayBuffer idx =>
      obtain ⟨halike, hbuffer⟩ := alike_selectDisplayBuffer s idx
      exact hkept (hs.take halike (Or.inl hbuffer)) trivial
  | enableMultiBuffer ok numBuffers => exact hs.enable_iff ok numBuffers
  | attachExternalBuffer idx pBuf => exact hs.attach_iff idx pBuf
  | detachExternalBuffer idx => exact hkept (hs.detach idx) trivial

/-! ## Runs -/

theorem Accounted.run (hs : s.Accounted) (calls : List FbCall) : (s.run calls).Accounted := by
  induction calls generalizing s with
  | nil => exact hs
  | cons c calls ih => exact ih (hs.step c)

/-- The destructor frees what is left. -/
theorem Accounted.stop (hs : s.Accounted) : s.stop.FreedOnce := by
  obtain ⟨hdrops, howner⟩ := hs.drops_freeSlots FrameBuffer.clear (fun _ => rfl) 3
  have hnone : ∀ j, ((List.range 3).foldl (freeSlot FrameBuffer.clear) s).owner j = none := by
    intro j
    rw [howner]
    split
    · rfl
    · next hge =>
      rw [Option.eq_none_iff_forall_ne_some]
      intro id hj
      have hlt := hs.below j id hj
      have hfew := hs.few
      omega
  refine ⟨fun id hid => ?_, hdrops.accounted.stray⟩
  exact hdrops.accounted.owned.freed_once hnone hid

theorem Sound.neverDangling_iff (hs : s.Sound) (calls : List FbCall) :
    s.NeverDangling calls ↔ s.AllKeep calls := by
  induction calls generalizing s with
  | nil => exact iff_of_true hs.valid trivial
  | cons c calls ih =>
      obtain ⟨hstep, hsound⟩ := hs.step_iff c
      rw [NeverDangling, AllKeep]
      constructor
      · rintro ⟨-, hrest⟩
        have hkeeps : s.Keeps c := by
          refine hstep.mp ?_
          cases calls with
          | nil => exact hrest
          | cons c' calls => exact hrest.1
        exact ⟨hkeeps, (ih (hsound hkeeps)).mp hrest⟩
      · rintro ⟨hkeeps, hrest⟩
        exact ⟨hs.valid, (ih (hsound hkeeps)).mpr hrest⟩

theorem new_sound (xres yres lineLength smemLen : UInt32) (mem : Block → Int → UInt32) :
    (new xres yres lineLength smemLen mem).Sound := by
  have hbuffers : ∀ i, ((new xres yres lineLength smemLen mem).buffers i).bOwned = false ∧
      ∀ id, ((new xres yres lineLength smemLen mem).buffers i).pData ≠ some (.heap id) := by
    intro i
    rw [new]
    rcases eq_or_ne i 0 with rfl | hi
    · simp
    · simp [Function.update_of_ne hi]
  have howner : (new xres yres lineLength smemLen mem).owner = fun _ => none := by
    funext i
    refine FrameBuffer.owner_of_free fun howned => ?_
    rw [(hbuffers i).1] at howned
    cases howned
  constructor
  · constructor
    · rw [howner]
      exact .none
    · rfl
    · intro i b howned
      rw [(hbuffers i).1] at howned
      cases howned
    · intro i id hi
      rw [howner] at hi
      cases hi
    · exact (by decide : 1 ≤ 3)
  · intro i id hdata
    exact ((hbuffers i).2 id hdata).elim
  · rfl
  · exact ⟨.mapping, rfl, rfl⟩

/-- `m_pBuffer` has a buffer in every state of a run, and every buffer is freed once by its end,
exactly when each call keeps `m_pBuffer`. -/
theorem lifetimes_iff (xres yres lineLength smemLen : UInt32) (mem : Block → Int → UInt32)
    (calls : List FbCall) :
    (new xres yres lineLength smemLen mem).NeverDangling calls ∧
        ((new xres yres lineLength smemLen mem).run calls).stop.FreedOnce ↔
      (new xres yres lineLength smemLen mem).AllKeep calls := by
  have hs := new_sound xres yres lineLength smemLen mem
  rw [hs.neverDangling_iff calls, and_iff_left]
  exact (hs.accounted.run calls).stop

/-- Two buffers, and then no memory for three. -/
theorem not_lifetimes_grow :
    ¬ ((new 800 480 3200 1536000 fun _ _ => 0).NeverDangling
        [.enableMultiBuffer (fun _ => true) 2, .enableMultiBuffer (fun _ => false) 3] ∧
      ((new 800 480 3200 1536000 fun _ _ => 0).run
        [.enableMultiBuffer (fun _ => true) 2,
          .enableMultiBuffer (fun _ => false) 3]).stop.FreedOnce) := by
  rintro ⟨⟨-, -, b, hbuffer, halloc⟩, -⟩
  obtain rfl : Block.heap 1 = b := Option.some.inj hbuffer
  exact absurd halloc.2 (by decide)

end FbDevice

end MFoES.Libgfx
