import Mathlib.Algebra.Ring.Nat
import Mathlib.Data.List.GetD
import Mathlib.Logic.Function.Basic
import Mathlib.Tactic.Common

/-!
# Values in bytes

Values are packed into a memory of bytes one behind another: as records of the same number of
bytes (`record`, `poke`), or as bits, the first one at the top of its byte (`putBit`, `getBit`).
To store one of them is to change it and no other (`record_poke`, `getBit_putBit`).
-/

namespace ByteMemory

/-- The bytes at their addresses. -/
abbrev Memory := Nat → UInt8

/-! ## Records -/

/-- Write bytes from an address on. -/
def poke (mem : Memory) (base : Nat) (bytes : List UInt8) : Memory := fun k =>
  if base ≤ k ∧ k < base + bytes.length then bytes.getD (k - base) 0 else mem k

variable {mem : Memory} {base : Nat} {bytes : List UInt8} {k : Nat}

theorem poke_inside (h : k < bytes.length) : poke mem base bytes (base + k) = bytes.getD k 0 := by
  rw [poke, if_pos ⟨Nat.le_add_right base k, Nat.add_lt_add_left h base⟩, Nat.add_sub_cancel_left]

theorem poke_outside (h : k < base ∨ base + bytes.length ≤ k) : poke mem base bytes k = mem k := by
  rw [poke, if_neg]
  omega

/-- The bytes of the record that has a number. -/
def record (mem : Memory) (size i : Nat) : List UInt8 :=
  (List.range size).map fun k => mem (i * size + k)

/-- To write a record is to change that record. -/
theorem record_poke (mem : Memory) {size : Nat} (hsize : bytes.length = size) (i j : Nat) :
    record (poke mem (i * size) bytes) size j = if i = j then bytes else record mem size j := by
  split
  · next hown =>
    subst hown
    refine List.ext_getElem (by rw [record, List.length_map, List.length_range, hsize]) ?_
    intro k hk hk'
    simp only [record, List.getElem_map, List.getElem_range]
    rw [poke_inside hk', List.getD_eq_getElem]
  · next hne =>
    refine List.map_congr_left fun k hk => poke_outside ?_
    rw [List.mem_range] at hk
    rw [hsize]
    -- the other record ends before this one, or begins behind it
    rcases Nat.lt_or_gt_of_ne hne with hlt | hlt
    · have hnext := Nat.mul_le_mul_right size (Nat.succ_le_of_lt hlt)
      rw [Nat.succ_mul] at hnext
      omega
    · have hnext := Nat.mul_le_mul_right size (Nat.succ_le_of_lt hlt)
      rw [Nat.succ_mul] at hnext
      omega

/-- A record of the first `n` stays below their end. -/
theorem poke_beyond {size i n : Nat} (hsize : bytes.length = size) (hi : i < n)
    (hk : n * size ≤ k) : poke mem (i * size) bytes k = mem k := by
  refine poke_outside (Or.inr ?_)
  have hnext := Nat.mul_le_mul_right size (Nat.succ_le_of_lt hi)
  rw [Nat.succ_mul] at hnext
  omega

/-! ## Bits -/

/-- The bit of a byte that has a number. -/
def bitOf (byte : UInt8) (i : Nat) : Bool := (byte >>> UInt8.ofNat (7 - i % 8)) &&& 1 ≠ 0

/-- Set or clear the bit of a byte. -/
def withBit (byte : UInt8) (i : Nat) (bit : Bool) : UInt8 :=
  if bit then byte ||| (1 <<< UInt8.ofNat (7 - i % 8))
  else byte &&& ~~~ (1 <<< UInt8.ofNat (7 - i % 8))

def getBit (mem : Memory) (i : Nat) : Bool := bitOf (mem (i / 8)) i

def putBit (mem : Memory) (i : Nat) (bit : Bool) : Memory :=
  Function.update mem (i / 8) (withBit (mem (i / 8)) i bit)

theorem toNat_place (i : Nat) : (UInt8.ofNat (7 - i % 8)).toNat = 7 - i % 8 :=
  UInt8.toNat_ofNat_of_lt' (show 7 - i % 8 < 256 by omega)

/-- The bit of a number at the place of a bit in its byte. -/
theorem bitOf_eq (byte : UInt8) (i : Nat) : bitOf byte i = byte.toNat.testBit (7 - i % 8) := by
  rw [Bool.eq_iff_iff, bitOf, decide_eq_true_iff, Nat.testBit, bne_iff_ne, Ne,
    ← UInt8.toNat_inj, UInt8.toNat_and, UInt8.toNat_shiftRight, toNat_place,
    Nat.mod_eq_of_lt (show 7 - i % 8 < 8 by omega), Nat.and_comm]
  rfl

theorem toNat_mask (i : Nat) : ((1 : UInt8) <<< UInt8.ofNat (7 - i % 8)).toNat =
    2 ^ (7 - i % 8) := by
  have hsmall : 2 ^ (7 - i % 8) < 2 ^ 8 := Nat.pow_lt_pow_right (by decide) (by omega)
  have hone : (1 : UInt8).toNat = 1 := rfl
  rw [UInt8.toNat_shiftLeft, toNat_place, Nat.mod_eq_of_lt (show 7 - i % 8 < 8 by omega),
    Nat.shiftLeft_eq, hone, Nat.one_mul, Nat.mod_eq_of_lt hsmall]

theorem bitOf_withBit (byte : UInt8) (i j : Nat) (bit : Bool) :
    bitOf (withBit byte i bit) j = if i % 8 = j % 8 then bit else bitOf byte j := by
  have hplace : 7 - i % 8 = 7 - j % 8 ↔ i % 8 = j % 8 := by omega
  rw [bitOf_eq, bitOf_eq, withBit]
  cases bit with
  | true =>
      rw [if_pos rfl, UInt8.toNat_or, toNat_mask, Nat.testBit_or, Nat.testBit_two_pow]
      split
      · next h => simp [hplace.mpr h]
      · next h => simp [mt hplace.mp h]
  | false =>
      have hclear : (~~~ ((1 : UInt8) <<< UInt8.ofNat (7 - i % 8))).toNat =
          2 ^ 8 - (2 ^ (7 - i % 8) + 1) := by
        rw [UInt8.toNat_not, toNat_mask, Nat.sub_sub]
        exact congrArg (2 ^ 8 - ·) (Nat.add_comm 1 _)
      have hsmall : 2 ^ (7 - i % 8) < 2 ^ 8 := Nat.pow_lt_pow_right (by decide) (by omega)
      rw [if_neg Bool.false_ne_true, UInt8.toNat_and, hclear, Nat.testBit_and,
        Nat.testBit_two_pow_sub_succ hsmall, Nat.testBit_two_pow]
      split
      · next h => simp [hplace.mpr h]
      · next h =>
        have hlow : 7 - j % 8 < 8 := by omega
        simp [mt hplace.mp h, hlow]

/-- To put a bit is to change that bit. -/
theorem getBit_putBit (mem : Memory) (i j : Nat) (bit : Bool) :
    getBit (putBit mem i bit) j = if i = j then bit else getBit mem j := by
  rw [getBit, getBit, putBit]
  by_cases hbyte : j / 8 = i / 8
  · have hindex : i % 8 = j % 8 ↔ i = j := by omega
    rw [hbyte, Function.update_self, bitOf_withBit]
    exact if_congr hindex rfl rfl
  · rw [Function.update_of_ne hbyte, if_neg]
    rintro rfl
    exact hbyte rfl

theorem putBit_beyond {i n : Nat} (bit : Bool) (hi : i < n) (hk : (n + 7) / 8 ≤ k) :
    putBit mem i bit k = mem k := by
  rw [putBit, Function.update_of_ne]
  omega

end ByteMemory
