import Mathlib
import MFoES.Northbridge.Frame
import MFoES.Lib.Detection

/-!
# Bit errors in frames

The CRC is linear.  Flipping a bit of a frame changes the `syndrome`, the
difference of the stored CRC and the computed one, by a `column` that depends on
the position only: what `crcBit` makes of a single bit in as many rounds as the bit
goes through.  The stored bytes count as positions with few rounds.

Every column has odd parity, since the polynomial has an even number of terms and
so `crcBit` keeps the parity.  Two columns differ, since `crcBit` is injective and
needs more than 512 rounds to bring a single bit back.  One, two or three flipped
bits then leave a syndrome, whatever else the two sides check before.
-/

namespace MFoES.Northbridge

open Detection

/-! ## One round of the CRC -/

/-- A register as a vector of bits. -/
def bits (v : UInt16) : Fin 16 → ZMod 2 := fun i => if v.toBitVec[i] then 1 else 0

theorem bits_injective : Function.Injective bits := by
  intro a b h
  apply UInt16.toBitVec_inj.mp
  ext i hi
  have hbit := congrFun h ⟨i, hi⟩
  simp only [bits, Fin.getElem_fin] at hbit
  cases ha : a.toBitVec[i] <;> cases hb : b.toBitVec[i] <;> simp_all

@[simp] theorem bits_xor (a b : UInt16) : bits (a ^^^ b) = bits a + bits b := by
  funext i
  simp only [bits, UInt16.toBitVec_xor, Pi.add_apply, Fin.getElem_fin, BitVec.getElem_xor]
  cases a.toBitVec[i.val] <;> cases b.toBitVec[i.val] <;> decide

/-- The number of set bits, up to evenness. -/
def parity : (Fin 16 → ZMod 2) →+ ZMod 2 where
  toFun v := ∑ i, v i
  map_zero' := by simp
  map_add' v w := by simp [Finset.sum_add_distrib]

/-- What the polynomial puts back for a bit that is shifted out. -/
def feedback (carry : Bool) : UInt16 := if carry then 0x1021 else 0

theorem crcBit_eq (v : UInt16) : crcBit v = (v <<< 1) ^^^ feedback v.toBitVec[15] := by
  have hand : (v &&& 0x8000).toBitVec = if v.toBitVec[15] then 0x8000#16 else 0#16 :=
    BitVec.and_twoPow v.toBitVec 15
  have hmsb : v &&& 0x8000 ≠ 0 ↔ v.toBitVec[15] = true := by
    rw [Ne, ← UInt16.toBitVec_inj, hand]
    cases v.toBitVec[15] <;> simp
  simp only [crcBit, hmsb, feedback]
  cases v.toBitVec[15] <;> simp

theorem feedback_xor (a b : Bool) : feedback (a ^^ b) = feedback a ^^^ feedback b := by
  cases a <;> cases b <;> decide

theorem crcBit_xor (a b : UInt16) : crcBit (a ^^^ b) = crcBit a ^^^ crcBit b := by
  rw [crcBit_eq, crcBit_eq, crcBit_eq, UInt16.toBitVec_xor, BitVec.getElem_xor, feedback_xor,
    UInt16.shiftLeft_xor]
  ac_rfl

theorem iterate_crcBit_xor (n : Nat) (a b : UInt16) :
    crcBit^[n] (a ^^^ b) = crcBit^[n] a ^^^ crcBit^[n] b := by
  induction n generalizing a b with
  | zero => rfl
  | succ n ih => rw [Function.iterate_succ_apply, crcBit_xor, ih]; rfl

/-- Shifting a bit out takes its parity away. -/
theorem parity_shift (v : UInt16) : parity (bits (v <<< 1)) + bits v 15 = parity (bits v) := by
  change ∑ i, bits (v <<< 1) i + bits v 15 = ∑ i, bits v i
  rw [Fin.sum_univ_succ, Fin.sum_univ_castSucc (fun i => bits v i)]
  have hzero : bits (v <<< 1) 0 = 0 := by simp [bits]
  have hsucc : ∀ i : Fin 15, bits (v <<< 1) i.succ = bits v i.castSucc := by
    intro i
    simp [bits]
  rw [hzero, zero_add, Finset.sum_congr rfl fun i _ => hsucc i]
  rfl

theorem parity_feedback (carry : Bool) :
    parity (bits (feedback carry)) = if carry then 1 else 0 := by
  cases carry <;> decide

theorem parity_crcBit (v : UInt16) : parity (bits (crcBit v)) = parity (bits v) := by
  rw [crcBit_eq, bits_xor, map_add, parity_feedback, ← parity_shift v]
  rfl

theorem crcBit_eq_zero {v : UInt16} (h : crcBit v = 0) : v = 0 := by
  rw [crcBit_eq] at h
  have hlow : (v <<< 1).toBitVec[0] = false := by simp
  cases hv : v.toBitVec[15] with
  | true =>
      have hbit := congrArg (fun u => u.toBitVec[0]) h
      simp [hv, feedback] at hbit
  | false =>
      apply UInt16.toBitVec_inj.mp
      ext i hi
      rcases Nat.lt_or_ge i 15 with hlt | hge
      · have hbit := congrArg (fun u => u.toBitVec[i + 1]) h
        simpa [hv, feedback] using hbit
      · obtain rfl : i = 15 := by omega
        simpa using hv

theorem crcBit_injective : Function.Injective crcBit := by
  intro a b h
  have hzero : crcBit (a ^^^ b) = 0 := by rw [crcBit_xor, h, UInt16.xor_self]
  exact UInt16.xor_eq_zero_iff.mp (crcBit_eq_zero hzero)

/-- A single bit does not come back within a frame. -/
theorem crcBit_back {d : Nat} (h0 : 0 < d) (h : d < 512) : crcBit^[d] 1 ≠ 1 := by
  have hall : (List.iterate crcBit (crcBit 1) 511).all (· != 1) = true := by decide +kernel
  have hmem : crcBit^[d] 1 ∈ List.iterate crcBit (crcBit 1) 511 := by
    refine List.mem_iterate.mpr ⟨d - 1, by omega, ?_⟩
    rw [← Function.iterate_succ_apply, Nat.succ_eq_add_one, Nat.sub_add_cancel h0]
  exact bne_iff_ne.mp (List.all_eq_true.mp hall _ hmem)

/-! ## The syndrome -/

theorem crcByte_eq (crc : UInt16) (b : UInt8) :
    crcByte crc b = crcBit^[8] (crc ^^^ (b.toUInt16 <<< 8)) := rfl

theorem foldl_crcByte_xor (l : List UInt8) (crc d : UInt16) :
    l.foldl crcByte (crc ^^^ d) = l.foldl crcByte crc ^^^ crcBit^[8 * l.length] d := by
  induction l generalizing crc d with
  | nil => rfl
  | cons b l ih =>
      have hbyte : crcByte (crc ^^^ d) b = crcByte crc b ^^^ crcBit^[8] d := by
        rw [crcByte_eq, crcByte_eq, ← iterate_crcBit_xor]
        congr 1
        ac_rfl
      rw [List.foldl_cons, List.foldl_cons, hbyte, ih, ← Function.iterate_add_apply,
        List.length_cons, Nat.mul_succ]

/-- A changed byte goes through eight rounds for itself and for each byte behind it. -/
theorem foldl_crcByte_set {l : List UInt8} {i : Nat} (hi : i < l.length) (m : UInt8)
    (crc : UInt16) : (l.set i (l[i] ^^^ m)).foldl crcByte crc =
      l.foldl crcByte crc ^^^ crcBit^[8 * (l.length - i)] (m.toUInt16 <<< 8) := by
  induction l generalizing i crc with
  | nil => exact absurd hi (Nat.not_lt_zero i)
  | cons b l ih =>
      cases i with
      | zero =>
          have hbyte : crcByte crc (b ^^^ m) = crcByte crc b ^^^ crcBit^[8] (m.toUInt16 <<< 8) := by
            rw [crcByte_eq, crcByte_eq, ← iterate_crcBit_xor, UInt8.toUInt16_xor,
              UInt16.shiftLeft_xor]
            congr 1
            ac_rfl
          simp only [List.set_cons_zero, List.getElem_cons_zero, List.foldl_cons, hbyte]
          rw [foldl_crcByte_xor, ← Function.iterate_add_apply]
          rfl
      | succ i =>
          have hi' : i < l.length := Nat.lt_of_succ_lt_succ hi
          simp only [List.set_cons_succ, List.getElem_cons_succ, List.foldl_cons]
          rw [ih hi', List.length_cons, Nat.add_sub_add_right]

/-- The bytes of the stored CRC do not overlap. -/
theorem or_eq_xor (low high : UInt8) :
    low.toUInt16 ||| (high.toUInt16 <<< 8) = low.toUInt16 ^^^ (high.toUInt16 <<< 8) := by
  apply UInt16.toBitVec_inj.mp
  ext i hi
  rcases Nat.lt_or_ge i 8 with hlt | hge
  · simp [hlt]
  · simp [BitVec.getLsbD_of_ge low.toBitVec i hge]

/-- What the CRC check compares. -/
def syndrome (frame : RawFrame) : UInt16 := storedCrc frame ^^^ crc16Ccitt (covered frame)

theorem storedCrc_eq (frame : RawFrame) (hlow : 62 < 64) (hhigh : 63 < 64) :
    storedCrc frame = frame[62].toUInt16 ^^^ (frame[63].toUInt16 <<< 8) := or_eq_xor _ _

theorem covered_set (frame : RawFrame) {i : Nat} (hi : i < 64) (v : UInt8) :
    covered (frame.set i v) = (covered frame).set i v := by
  rw [covered, covered, Vector.toList_set, List.take_set]

theorem length_covered (frame : RawFrame) : (covered frame).length = 62 := by
  simp [covered]

theorem getElem_covered (frame : RawFrame) {i : Nat} (hi : i < (covered frame).length)
    (hframe : i < 64) : (covered frame)[i] = frame[i] := by
  simp [covered]

/-- A change of a covered byte. -/
theorem syndrome_set_covered (frame : RawFrame) {i : Nat} (hi : i < 62) (hframe : i < 64)
    (m : UInt8) : syndrome (frame.set i (frame[i] ^^^ m)) =
      syndrome frame ^^^ crcBit^[8 * (62 - i)] (m.toUInt16 <<< 8) := by
  have hcrc := foldl_crcByte_set (by rw [length_covered]; exact hi : i < (covered frame).length) m
    0xFFFF
  rw [getElem_covered frame _ (by omega), length_covered] at hcrc
  rw [syndrome, syndrome, covered_set, crc16Ccitt, crc16Ccitt, hcrc,
    storedCrc_eq _ (by decide) (by decide), storedCrc_eq _ (by decide) (by decide),
    Vector.getElem_set_ne _ _ (by omega), Vector.getElem_set_ne _ _ (by omega)]
  ac_rfl

theorem covered_set_crc (frame : RawFrame) {i : Nat} (h62 : 62 ≤ i) (hi : i < 64) (v : UInt8) :
    covered (frame.set i v) = covered frame := by
  rw [covered_set, List.set_eq_of_length_le]
  rw [length_covered]
  exact h62

/-- A change of the low byte of the CRC. -/
theorem syndrome_set_low (frame : RawFrame) {i : Nat} (hi : i < 64) (hlow : i = 62) (m : UInt8) :
    syndrome (frame.set i (frame[i] ^^^ m)) = syndrome frame ^^^ m.toUInt16 := by
  subst hlow
  rw [syndrome, syndrome, covered_set_crc frame (Nat.le_refl 62),
    storedCrc_eq _ (by decide) (by decide), storedCrc_eq _ (by decide) (by decide),
    Vector.getElem_set_self, Vector.getElem_set_ne _ _ (by decide), UInt8.toUInt16_xor]
  ac_rfl

/-- A change of the high byte. -/
theorem syndrome_set_high (frame : RawFrame) {i : Nat} (hi : i < 64) (hhigh : i = 63)
    (m : UInt8) :
    syndrome (frame.set i (frame[i] ^^^ m)) = syndrome frame ^^^ (m.toUInt16 <<< 8) := by
  subst hhigh
  rw [syndrome, syndrome, covered_set_crc frame (by decide),
    storedCrc_eq _ (by decide) (by decide), storedCrc_eq _ (by decide) (by decide),
    Vector.getElem_set_self, Vector.getElem_set_ne _ _ (by decide), UInt8.toUInt16_xor,
    UInt16.shiftLeft_xor]
  ac_rfl

/-! ## Columns -/

/-- Bit `k % 8` of byte `k / 8` the other way. -/
def flipBit (frame : RawFrame) (k : Fin 512) : RawFrame :=
  have hk : k.val / 8 < 64 := by omega
  frame.set (k / 8) (frame[k.val / 8] ^^^ (1 <<< UInt8.ofNat (k % 8)))

/-- How many rounds a bit goes through. -/
def rounds (k : Fin 512) : Nat :=
  if k.val / 8 < 62 then 8 * (63 - k / 8) + k % 8
  else if k.val / 8 = 62 then k % 8
  else 8 + k % 8

theorem rounds_lt (k : Fin 512) : rounds k < 512 := by
  rw [rounds]
  split_ifs <;> omega

theorem rounds_injective : Function.Injective rounds := by
  intro a b h
  simp only [rounds] at h
  ext
  split_ifs at h <;> omega

/-- What a bit adds to the syndrome. -/
def column (k : Fin 512) : UInt16 := crcBit^[rounds k] 1

theorem bit_eq (j : Nat) (hj : j < 8) :
    ((1 : UInt8) <<< UInt8.ofNat j).toUInt16 = crcBit^[j] 1 ∧
      ((1 : UInt8) <<< UInt8.ofNat j).toUInt16 <<< 8 = crcBit^[8 + j] 1 := by
  have hall : ∀ j < 8, ((1 : UInt8) <<< UInt8.ofNat j).toUInt16 = crcBit^[j] 1 ∧
      ((1 : UInt8) <<< UInt8.ofNat j).toUInt16 <<< 8 = crcBit^[8 + j] 1 := by decide
  exact hall j hj

theorem syndrome_flipBit (frame : RawFrame) (k : Fin 512) :
    syndrome (flipBit frame k) = syndrome frame ^^^ column k := by
  obtain ⟨hlow, hhigh⟩ := bit_eq (k.val % 8) (Nat.mod_lt _ (by decide))
  rcases Nat.lt_trichotomy (k.val / 8) 62 with hlt | heq | hgt
  · rw [flipBit, syndrome_set_covered frame hlt, hhigh, ← Function.iterate_add_apply, column, rounds,
      if_pos hlt]
    congr 2
    omega
  · have hcol : column k = crcBit^[k.val % 8] 1 := by simp [column, rounds, heq]
    simp only [flipBit, heq]
    rw [syndrome_set_low frame _ rfl, hlow, hcol]
  · have h63 : k.val / 8 = 63 := by omega
    have hcol : column k = crcBit^[8 + k.val % 8] 1 := by simp [column, rounds, h63]
    simp only [flipBit, h63]
    rw [syndrome_set_high frame _ rfl, hhigh, hcol]

theorem bits_column_injective : Function.Injective fun k => bits (column k) := by
  intro a b h
  exact rounds_injective (iterate_injOn crcBit_injective (fun d h0 hd => crcBit_back h0 hd)
    (rounds_lt a) (rounds_lt b) (bits_injective h))

theorem parity_iterate_crcBit (n : Nat) (v : UInt16) :
    parity (bits (crcBit^[n] v)) = parity (bits v) := by
  induction n generalizing v with
  | zero => rfl
  | succ n ih => rw [Function.iterate_succ_apply, ih, parity_crcBit]

theorem parity_column (k : Fin 512) : parity (bits (column k)) = 1 := by
  rw [column, parity_iterate_crcBit]
  decide

theorem add_self (v : Fin 16 → ZMod 2) : v + v = 0 := by
  funext i
  exact CharTwo.add_self_eq_zero (v i)

/-- The bits at some positions the other way. -/
def flipBits (frame : RawFrame) (ks : List (Fin 512)) : RawFrame := ks.foldl flipBit frame

theorem bits_syndrome_flipBits (frame : RawFrame) (ks : List (Fin 512)) :
    bits (syndrome (flipBits frame ks)) =
      bits (syndrome frame) + (ks.map fun k => bits (column k)).sum := by
  induction ks generalizing frame with
  | nil => simp [flipBits]
  | cons k ks ih =>
      have h := ih (flipBit frame k)
      rw [syndrome_flipBit, bits_xor, add_assoc] at h
      exact h

/-- Up to three flipped bits give a syndrome. -/
theorem syndrome_flipBits_ne_zero {frame : RawFrame} (hframe : syndrome frame = 0)
    {ks : List (Fin 512)} (hnodup : ks.Nodup) (hne : ks ≠ []) (hlen : ks.length ≤ 3) :
    syndrome (flipBits frame ks) ≠ 0 := by
  intro hzero
  have hsum := bits_syndrome_flipBits frame ks
  have hbits : bits 0 = 0 := by
    funext i
    simp [bits]
  rw [hzero, hframe, hbits, zero_add, ← List.sum_toFinset _ hnodup] at hsum
  refine sum_columns_ne_zero add_self bits_column_injective parity parity_column ?_ ?_ hsum.symm
  · exact (List.toFinset_nonempty_iff ks).mpr hne
  · exact le_trans (List.toFinset_card_le ks) hlen

/-! ## Rejection -/

/-- `LinkImpl::parse` returns `false`. -/
def Link.Parsed.Rejected : Link.Parsed → Prop
  | .blank => True
  | .crcError => True
  | .idle _ => False
  | .frame _ _ => False

/-- `dspi_dma_isr` hands nothing over and counts no idle frame. -/
def Dspi.Landed.Rejected : Dspi.Landed → Prop
  | .message _ => False
  | .idle => False
  | .crcError => True
  | .zero => True

/-- A frame with the magic, a length and a CRC that fit. -/
def Valid (frame : RawFrame) : Prop :=
  frame.get 0 = Link.kMagic ∧ (frame.get 2).toNat ≤ Link.kPayloadMax ∧
    storedCrc frame = crc16Ccitt (covered frame)

/-- What either side builds is valid. -/
theorem valid_putFrame (magic type len flags : UInt8) (payload : List UInt8)
    (hmagic : magic = Link.kMagic) (hlen : len.toNat ≤ Link.kPayloadMax) :
    Valid (putFrame magic type len flags payload) := by
  obtain ⟨h0, _, h2, _⟩ := getElem_putFrame magic type len flags payload
  refine ⟨h0.trans hmagic, ?_, crc_putFrame magic type len flags payload⟩
  exact (congrArg UInt8.toNat h2).trans_le hlen

theorem syndrome_eq_zero {frame : RawFrame} :
    syndrome frame = 0 ↔ storedCrc frame = crc16Ccitt (covered frame) :=
  UInt16.xor_eq_zero_iff

theorem not_valid_of_head {frame : RawFrame}
    (h : frame.get 0 ≠ Link.kMagic ∨ Link.kPayloadMax < (frame.get 2).toNat) : ¬ Valid frame := by
  rintro ⟨hmagic, hlen, _⟩
  rcases h with hmagic' | hlong
  · exact hmagic' hmagic
  · exact Nat.not_lt_of_le hlen hlong

/-- The host takes the valid frames and no others. -/
theorem Link.rejected_parse_iff (frame : RawFrame) :
    (Link.parse frame).Rejected ↔ ¬ Valid frame := by
  rw [Link.parse]
  split_ifs with hhead hblank hcrc hidle
  · simp [Parsed.Rejected, not_valid_of_head hhead]
  · simp [Parsed.Rejected, not_valid_of_head hhead]
  · simp [Parsed.Rejected, Valid, hcrc]
  all_goals
    rw [not_or, not_not, Nat.not_lt] at hhead
    have hvalid : Valid frame := ⟨hhead.1, hhead.2, not_not.mp hcrc⟩
    simp [Parsed.Rejected, hvalid]

/-- So does the firmware. -/
theorem Dspi.rejected_validate_iff (frame : RawFrame) :
    (Dspi.validate frame).Rejected ↔ ¬ Valid frame := by
  rw [Dspi.validate]
  split_ifs with hhead hcrc hidle hzero
  · have hvalid : Valid frame := ⟨hhead.1, hhead.2, hcrc⟩
    simp [Landed.Rejected, hvalid]
  · have hvalid : Valid frame := ⟨hhead.1, hhead.2, hcrc⟩
    simp [Landed.Rejected, hvalid]
  · simp [Landed.Rejected, Valid, hcrc]
  all_goals
    simp only [Landed.Rejected, true_iff]
    intro hvalid
    exact hhead ⟨hvalid.1, hvalid.2.1⟩

/-- Flip one, two or three bits of a valid frame, and both sides reject it. -/
theorem flipBits_rejected {frame : RawFrame} (hframe : Valid frame) {ks : List (Fin 512)}
    (hnodup : ks.Nodup) (hne : ks ≠ []) (hlen : ks.length ≤ 3) :
    (Link.parse (flipBits frame ks)).Rejected ∧ (Dspi.validate (flipBits frame ks)).Rejected := by
  have hsyn := syndrome_flipBits_ne_zero (syndrome_eq_zero.mpr hframe.2.2) hnodup hne hlen
  have hbad : ¬ Valid (flipBits frame ks) := fun h => hsyn (syndrome_eq_zero.mpr h.2.2)
  exact ⟨(Link.rejected_parse_iff _).mpr hbad, (Dspi.rejected_validate_iff _).mpr hbad⟩

/-- A bit of the magic, one of the payload and one of the CRC. -/
theorem flipBits_rejected_idle :
    (Link.parse (flipBits (Link.buildFrame 0 [] 0 false) [0, 100, 511])).Rejected ∧
      (Dspi.validate (flipBits (Link.buildFrame 0 [] 0 false) [0, 100, 511])).Rejected :=
  flipBits_rejected (valid_putFrame Link.kMagic 0 0 0 [] rfl (by decide))
    (by decide) (by decide) (by decide)

end MFoES.Northbridge
