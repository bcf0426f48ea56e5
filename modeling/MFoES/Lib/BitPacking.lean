import Mathlib.Data.Nat.Bitwise
import Mathlib.Data.List.GetD
import Mathlib.Data.UInt
import Mathlib.Tactic.Common

/-!
# Bits packed into bytes

A writer shifts bits into an accumulator, the first one to the top, and puts out a byte whenever
it has eight; at the end, the last byte is filled up with zeros (`Writer`).  A reader takes the
bits out of a memory again: it counts them in a byte, which may wrap, and fetches the next byte
whenever the count is a multiple of eight (`Reader`).

`bytesBits_pack` says that the bytes have the bits in order, and `Reader.At.read` that the reader
finds the `n`-th bit where the writer has put it.
-/

namespace BitPacking

/-! ## The bits of a number -/

/-- The low `n` bits of a number, the highest first. -/
def bitsOf (n v : Nat) : List Bool := (List.range n).map fun k => v.testBit (n - 1 - k)

@[simp] theorem length_bitsOf (n v : Nat) : (bitsOf n v).length = n := by simp [bitsOf]

/-- A bit that is shifted in is the last one. -/
theorem bitsOf_snoc (n acc : Nat) (b : Bool) :
    bitsOf (n + 1) ((acc <<< 1) ||| b.toNat) = bitsOf n acc ++ [b] := by
  rw [bitsOf, List.range_succ, List.map_append]
  refine congr_arg₂ _ (List.map_congr_left fun k hk => ?_) ?_
  · rw [List.mem_range] at hk
    have hindex : n + 1 - 1 - k = (n - 1 - k) + 1 := by omega
    have hbit : b.toNat.testBit ((n - 1 - k) + 1) = false := by
      rw [Nat.testBit_succ, show b.toNat / 2 = 0 by cases b <;> rfl, Nat.zero_testBit]
    rw [hindex, Nat.testBit_or, hbit, Bool.or_false, Nat.testBit_shiftLeft]
    simp
  · have hlast : ((acc <<< 1) ||| b.toNat).testBit 0 = b := by
      rw [Nat.testBit_or, Nat.testBit_shiftLeft]
      cases b <;> rfl
    rw [List.map_singleton, Nat.add_sub_cancel, Nat.sub_self, hlast]

/-- Zeros that are shifted in come last. -/
theorem bitsOf_shiftLeft (n m acc : Nat) :
    bitsOf (n + m) (acc <<< m) = bitsOf n acc ++ List.replicate m false := by
  induction m with
  | zero => simp
  | succ m ih =>
      have hshift : acc <<< (m + 1) = ((acc <<< m) <<< 1) ||| false.toNat := by
        rw [← Nat.shiftLeft_add]
        exact (Nat.or_zero _).symm
      rw [← Nat.add_assoc, hshift, bitsOf_snoc, ih, List.append_assoc, List.replicate_succ']

/-- The bits of bytes. -/
def bytesBits (bytes : List Nat) : List Bool := bytes.flatMap (bitsOf 8)

theorem length_bytesBits (bytes : List Nat) : (bytesBits bytes).length = 8 * bytes.length := by
  induction bytes with
  | nil => rfl
  | cons b bytes ih =>
      rw [bytesBits, List.flatMap_cons, List.length_append, length_bitsOf, ← bytesBits, ih,
        List.length_cons]
      omega

theorem getElem?_bytesBits {bytes : List Nat} {k : Nat} (h : k < 8 * bytes.length) :
    (bytesBits bytes)[k]? = some ((bytes.getD (k / 8) 0).testBit (7 - k % 8)) := by
  induction bytes generalizing k with
  | nil => exact absurd h (by simp)
  | cons b bytes ih =>
      rw [List.length_cons] at h
      rw [bytesBits, List.flatMap_cons]
      by_cases hfirst : k < 8
      · rw [List.getElem?_append_left (by rwa [length_bitsOf]), Nat.div_eq_of_lt hfirst,
          Nat.mod_eq_of_lt hfirst, bitsOf, List.getElem?_map, List.getElem?_range hfirst]
        rfl
      · obtain ⟨j, rfl⟩ := Nat.exists_eq_add_of_le (Nat.le_of_not_lt hfirst)
        have hdiv : (8 + j) / 8 = j / 8 + 1 := by omega
        have hmod : (8 + j) % 8 = j % 8 := by omega
        rw [List.getElem?_append_right (by rw [length_bitsOf]; omega), length_bitsOf,
          Nat.add_sub_cancel_left, hdiv, hmod, List.getD_cons_succ]
        exact ih (by omega)

/-! ## The writer -/

/-- Bytes that are full, and the bits of the one that is not. -/
structure Writer where
  packed : List Nat := []
  acc : Nat := 0
  count : Nat := 0

namespace Writer

/-- Write a bit. -/
def push (w : Writer) (bit : Bool) : Writer :=
  let acc := (w.acc <<< 1) ||| bit.toNat
  if w.count + 1 = 8 then { packed := w.packed ++ [acc] }
  else { w with acc := acc, count := w.count + 1 }

/-- Fill up the last byte. -/
def flush (w : Writer) : List Nat :=
  if w.count = 0 then w.packed else w.packed ++ [w.acc <<< (8 - w.count)]

/-- The bits that were written. -/
def bits (w : Writer) : List Bool := bytesBits w.packed ++ bitsOf w.count w.acc

/-- The bytes are bytes, and the accumulator is less than one. -/
structure Ok (w : Writer) : Prop where
  packed : ∀ b ∈ w.packed, b < 256
  count : w.count < 8
  acc : w.acc < 2 ^ w.count

theorem Ok.start : Ok {} := ⟨nofun, by decide, by decide⟩

theorem push_lt {acc n : Nat} (h : acc < 2 ^ n) (b : Bool) :
    (acc <<< 1) ||| b.toNat < 2 ^ (n + 1) := by
  refine Nat.or_lt_two_pow ?_ ?_
  · rw [Nat.shiftLeft_eq, Nat.pow_succ]
    omega
  · have hb : b.toNat ≤ 1 := Bool.toNat_le b
    have hpow : 1 < 2 ^ (n + 1) := Nat.one_lt_two_pow (Nat.succ_ne_zero n)
    omega

theorem Ok.push {w : Writer} (h : w.Ok) (b : Bool) : (w.push b).Ok := by
  have hacc := push_lt h.acc b
  rw [Writer.push]
  split_ifs with hfull
  · refine ⟨?_, (by decide : 0 < 8), (by decide : 0 < 2 ^ 0)⟩
    rw [List.forall_mem_append, List.forall_mem_singleton]
    rw [hfull] at hacc
    exact ⟨h.packed, hacc⟩
  · have hcount := h.count
    exact ⟨h.packed, by dsimp only; omega, hacc⟩

theorem bits_push (w : Writer) (b : Bool) : (w.push b).bits = w.bits ++ [b] := by
  have hbits := bitsOf_snoc w.count w.acc b
  rw [push, bits, bits, List.append_assoc, ← hbits]
  split_ifs with hfull
  · rw [hfull, bytesBits, List.flatMap_append, List.append_assoc]
    rfl
  · rfl

theorem Ok.flush {w : Writer} (h : w.Ok) : ∀ b ∈ w.flush, b < 256 := by
  rw [Writer.flush]
  split_ifs with hempty
  · exact h.packed
  · have hcount := h.count
    rw [List.forall_mem_append, List.forall_mem_singleton]
    refine ⟨h.packed, ?_⟩
    have hpow : 2 ^ w.count * 2 ^ (8 - w.count) = 256 := by
      rw [← Nat.pow_add, Nat.add_sub_cancel' (Nat.le_of_lt hcount)]
    rw [Nat.shiftLeft_eq, ← hpow]
    exact Nat.mul_lt_mul_of_pos_right h.acc (Nat.two_pow_pos _)

theorem Ok.bytesBits_flush {w : Writer} (h : w.Ok) :
    ∃ pad, bytesBits w.flush = w.bits ++ List.replicate pad false := by
  rw [Writer.flush, bits]
  split_ifs with hempty
  · exact ⟨0, by rw [hempty]; simp [bitsOf]⟩
  · have hshift := bitsOf_shiftLeft w.count (8 - w.count) w.acc
    rw [Nat.add_sub_cancel' (Nat.le_of_lt h.count)] at hshift
    refine ⟨8 - w.count, ?_⟩
    rw [bytesBits, List.flatMap_append, List.append_assoc, ← hshift]
    simp [bytesBits]

end Writer

/-- The bytes of bits. -/
def pack (bits : List Bool) : List Nat := (bits.foldl Writer.push {}).flush

theorem foldl_push (bits : List Bool) (w : Writer) (h : w.Ok) :
    (bits.foldl Writer.push w).Ok ∧ (bits.foldl Writer.push w).bits = w.bits ++ bits := by
  induction bits generalizing w with
  | nil => exact ⟨h, (List.append_nil _).symm⟩
  | cons b bits ih =>
      obtain ⟨hok, hbits⟩ := ih (w.push b) (h.push b)
      refine ⟨hok, ?_⟩
      rw [List.foldl_cons, hbits, Writer.bits_push, List.append_assoc]
      rfl

theorem pack_lt (bits : List Bool) : ∀ b ∈ pack bits, b < 256 :=
  (foldl_push bits {} .start).1.flush

/-- The bytes have the bits in order. -/
theorem bytesBits_pack (bits : List Bool) :
    ∃ pad, bytesBits (pack bits) = bits ++ List.replicate pad false := by
  obtain ⟨hok, hbits⟩ := foldl_push bits {} .start
  obtain ⟨pad, hpad⟩ := hok.bytesBits_flush
  exact ⟨pad, by rw [pack, hpad, hbits]; rfl⟩

/-- A bit is where it was put. -/
theorem testBit_pack {bits : List Bool} {k : Nat} (h : k < bits.length) :
    k / 8 < (pack bits).length ∧ ((pack bits).getD (k / 8) 0).testBit (7 - k % 8) = bits[k] := by
  obtain ⟨pad, hpad⟩ := bytesBits_pack bits
  have hlen := congrArg List.length hpad
  rw [length_bytesBits, List.length_append] at hlen
  have hget := @getElem?_bytesBits (pack bits) k (by omega)
  rw [hpad, List.getElem?_append_left h, List.getElem?_eq_getElem h] at hget
  exact ⟨by omega, (Option.some.inj hget).symm⟩

/-! ## The reader -/

/-- The next byte, the count of the bits that were read, and what is left of a byte. -/
structure Reader where
  next : Nat
  bit : UInt8 := 0
  bits8 : UInt8 := 0

namespace Reader

/-- Read a bit. -/
def read (mem : Nat → UInt8) (r : Reader) : Bool × Reader :=
  let fetch := r.bit &&& 7 = 0
  let bits8 := if fetch then mem r.next else r.bits8
  let next := if fetch then r.next + 1 else r.next
  (decide (bits8 &&& 0x80 ≠ 0), { next := next, bit := r.bit + 1, bits8 := bits8 <<< 1 })

/-- `n` bits were read from `start` on. -/
structure At (mem : Nat → UInt8) (start n : Nat) (r : Reader) : Prop where
  next : r.next = start + (n + 7) / 8
  bit : r.bit = UInt8.ofNat n
  bits8 : n % 8 ≠ 0 → r.bits8 = mem (start + n / 8) <<< UInt8.ofNat (n % 8)

theorem At.start (mem : Nat → UInt8) (start : Nat) : At mem start 0 { next := start } :=
  ⟨rfl, rfl, fun h => absurd rfl h⟩

/-- The count may wrap: a multiple of eight it stays. -/
theorem and_seven_eq_zero_iff (n : Nat) : UInt8.ofNat n &&& 7 = 0 ↔ n % 8 = 0 := by
  rw [← UInt8.toNat_inj, UInt8.toNat_and, UInt8.toNat_ofNat']
  show n % 2 ^ 8 &&& 2 ^ 3 - 1 = 0 ↔ _
  rw [Nat.and_two_pow_sub_one_eq_mod]
  omega

theorem At.read {mem : Nat → UInt8} {start n : Nat} {r : Reader} (h : At mem start n r) :
    (r.read mem).1 = decide ((mem (start + n / 8) <<< UInt8.ofNat (n % 8)) &&& 0x80 ≠ 0) ∧
      At mem start (n + 1) (r.read mem).2 := by
  have hfetch : r.bit &&& 7 = 0 ↔ n % 8 = 0 := by
    rw [h.bit]
    exact and_seven_eq_zero_iff n
  have hbits8 : (if r.bit &&& 7 = 0 then mem r.next else r.bits8) =
      mem (start + n / 8) <<< UInt8.ofNat (n % 8) := by
    by_cases hn : n % 8 = 0
    · have hdiv : (n + 7) / 8 = n / 8 := by omega
      rw [if_pos (hfetch.mpr hn), h.next, hdiv, hn]
      simp
    · rw [if_neg (mt hfetch.mp hn), h.bits8 hn]
  have hnext : (if r.bit &&& 7 = 0 then r.next + 1 else r.next) = start + (n + 1 + 7) / 8 := by
    rw [h.next]
    by_cases hn : n % 8 = 0
    · rw [if_pos (hfetch.mpr hn)]
      omega
    · rw [if_neg (mt hfetch.mp hn)]
      omega
  rw [Reader.read]
  dsimp only
  rw [hbits8, hnext]
  refine ⟨rfl, rfl, ?_, ?_⟩
  · rw [h.bit, UInt8.ofNat_add]
    rfl
  · intro hsucc
    have hdiv : (n + 1) / 8 = n / 8 := by omega
    have hmod : (n + 1) % 8 = n % 8 + 1 := by omega
    have hlt : n % 8 < 8 := Nat.mod_lt _ (by decide)
    have hto : (UInt8.ofNat (n % 8)).toNat = n % 8 :=
      UInt8.toNat_ofNat_of_lt' (Nat.lt_trans hlt (by decide))
    rw [hdiv, hmod, UInt8.ofNat_add, UInt8.shiftLeft_add_of_toNat_lt]
    · rfl
    · rw [hto]
      show n % 8 + 1 < 8
      omega

/-- The top of a byte that was shifted. -/
theorem shiftLeft_and_top {k : Nat} (h : k < 8) (byte : UInt8) :
    (byte <<< UInt8.ofNat k) &&& 0x80 ≠ 0 ↔ byte.toNat.testBit (7 - k) = true := by
  have hto : (UInt8.ofNat k).toNat % 8 = k := by
    rw [UInt8.toNat_ofNat_of_lt' (Nat.lt_trans h (by decide)), Nat.mod_eq_of_lt h]
  rw [Ne, ← UInt8.toNat_inj, UInt8.toNat_and, UInt8.toNat_shiftLeft, hto]
  show ¬ (byte.toNat <<< k % 2 ^ 8) &&& 2 ^ 7 = 0 ↔ _
  rw [Nat.and_two_pow, Nat.testBit_mod_two_pow, Nat.testBit_shiftLeft]
  have hle : k ≤ 7 := by omega
  cases byte.toNat.testBit (7 - k) <;> simp [hle]

end Reader

end BitPacking
