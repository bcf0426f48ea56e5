import Mathlib.Algebra.Group.Nat.Defs
import MFoES.Lib.Cyclic

/-!
# The ring buffer of the daemon

`RingBuffer` is a byte array with two counters that only ever grow, modulo
`2 ^ 32`, and are reduced modulo the capacity where bytes are copied.  That is
sound because the capacity divides `2 ^ 32`; the structure has this, and that
the bytes in use fit, as fields.

What a ring buffer is for is `contents`, the bytes written and not read.  A
`write` appends what fits and reports how much that was, and a `read_exact`
takes from the front or leaves everything as it is.
-/

namespace MFoES.Usbd

open Cyclic

/-- `RING_SIZE`. -/
def ringSize : Nat := 16 * 1024 * 1024

/-- `RingBuffer`, of capacity `cap`. -/
structure RingBuffer (cap : Nat) where
  buf : List UInt8
  /-- The writer's counter. -/
  head : UInt32
  /-- The reader's counter. -/
  tail : UInt32
  cap_dvd : cap ∣ 2 ^ 32
  cap_lt : cap < 2 ^ 32
  buf_length : buf.length = cap
  used_le : (head - tail).toNat ≤ cap

namespace RingBuffer

variable {cap : Nat}

/-- `init`, on the memory that `malloc` returned. -/
def init (mem : List UInt8) (hdvd : cap ∣ 2 ^ 32) (hlt : cap < 2 ^ 32) (hmem : mem.length = cap) :
    RingBuffer cap :=
  ⟨mem, 0, 0, hdvd, hlt, hmem, Nat.zero_le _⟩

/-- `used()`. -/
def used (r : RingBuffer cap) : Nat := (r.head - r.tail).toNat

/-- `free_space()`. -/
def freeSpace (r : RingBuffer cap) : Nat := cap - r.used

/-- The bytes written and not yet read, in order. -/
def contents (r : RingBuffer cap) : List UInt8 := queued r.buf r.tail.toNat r.used

theorem cap_pos (r : RingBuffer cap) : 0 < cap :=
  Nat.pos_of_dvd_of_pos r.cap_dvd (by decide)

@[simp] theorem length_contents (r : RingBuffer cap) : r.contents.length = r.used :=
  length_queued _ (r.buf_length.symm ▸ r.used_le)

theorem freeSpace_eq (r : RingBuffer cap) : r.freeSpace = cap - r.contents.length := by
  rw [length_contents, freeSpace]

/-- Where the writer's counter stands in the array. -/
theorem head_mod (r : RingBuffer cap) : r.head.toNat % cap = (r.tail.toNat + r.used) % cap := by
  have hsum : r.tail + (r.head - r.tail) = r.head := by
    rw [UInt32.add_comm, UInt32.sub_add_cancel]
  have hnat := congrArg UInt32.toNat hsum
  rw [UInt32.toNat_add] at hnat
  rw [← hnat, Nat.mod_mod_of_dvd _ r.cap_dvd]
  rfl

theorem used_add {h t : UInt32} {n : Nat} (hn : (h - t).toNat + n < 2 ^ 32) :
    (h + UInt32.ofNat n - t).toNat = (h - t).toNat + n := by
  have hswap : h + UInt32.ofNat n - t = h - t + UInt32.ofNat n := by grind
  rw [hswap, UInt32.toNat_add, UInt32.toNat_ofNat_of_lt' (show n < 2 ^ 32 by omega),
    Nat.mod_eq_of_lt hn]

theorem used_sub {h t : UInt32} {n : Nat} (hn : n ≤ (h - t).toNat) :
    (h - (t + UInt32.ofNat n)).toNat = (h - t).toNat - n := by
  have hlt := (h - t).toNat_lt
  have hof : (UInt32.ofNat n).toNat = n := UInt32.toNat_ofNat_of_lt' (show n < 2 ^ 32 by omega)
  have hswap : h - (t + UInt32.ofNat n) = h - t - UInt32.ofNat n := by grind
  rw [hswap, UInt32.toNat_sub_of_le, hof]
  rw [UInt32.le_iff_toNat_le, hof]
  exact hn

/-- `len` in `write`, once it is cut to what is free. -/
def accepted (r : RingBuffer cap) (data : List UInt8) : Nat :=
  let avail := cap - r.used
  if avail < data.length then avail else data.length

theorem accepted_eq (r : RingBuffer cap) (data : List UInt8) :
    r.accepted data = min data.length r.freeSpace := by
  simp only [accepted, freeSpace]
  split <;> omega

theorem length_take_accepted (r : RingBuffer cap) (data : List UInt8) :
    (data.take (r.accepted data)).length = r.accepted data := by
  rw [List.length_take, accepted_eq]
  omega

theorem used_add_accepted_le (r : RingBuffer cap) (data : List UInt8) :
    r.used + r.accepted data ≤ cap := by
  have hused : r.used ≤ cap := r.used_le
  rw [accepted_eq, freeSpace]
  omega

/-- `write`, with how much it accepted. -/
def write (r : RingBuffer cap) (data : List UInt8) : RingBuffer cap × Nat :=
  let len := r.accepted data
  ({ r with
      buf := copyIn r.buf (r.head.toNat % cap) (data.take len)
      head := r.head + UInt32.ofNat len
      buf_length := by
        have hpos := Nat.mod_lt r.head.toNat r.cap_pos
        have hle := r.used_add_accepted_le data
        rw [length_copyIn, r.buf_length]
        · rw [r.buf_length]
          omega
        · rw [r.buf_length, length_take_accepted]
          omega
      used_le := by
        have hle := r.used_add_accepted_le data
        have hlt := r.cap_lt
        rw [used] at hle
        rw [used_add (by omega)]
        exact hle }, len)

/-- `read_exact` once it does not wait, or has waited long enough: the bytes it
read, or `none` for a timeout. -/
def readExact (r : RingBuffer cap) (len : Nat) : Option (List UInt8 × RingBuffer cap) :=
  if h : r.used < len then none
  else some (copyOut r.buf (r.tail.toNat % cap) len,
    { r with
      tail := r.tail + UInt32.ofNat len
      used_le := by
        have hused : r.used ≤ cap := r.used_le
        rw [used_sub (Nat.le_of_not_lt h)]
        exact Nat.le_trans (Nat.sub_le _ _) hused })

/-! ## The queue of bytes -/

@[simp] theorem contents_init (mem : List UInt8) (hdvd : cap ∣ 2 ^ 32) (hlt : cap < 2 ^ 32)
    (hmem : mem.length = cap) : (init mem hdvd hlt hmem).contents = [] :=
  List.eq_nil_of_length_eq_zero
    ((length_contents _).trans (show ((0 : UInt32) - 0).toNat = 0 from rfl))

/-- A write appends what it accepts, and that is what fits. -/
theorem contents_write (r : RingBuffer cap) (data : List UInt8) :
    (r.write data).1.contents = r.contents ++ data.take (r.accepted data) ∧
      (r.write data).2 = r.accepted data := by
  refine ⟨?_, rfl⟩
  have hle := r.used_add_accepted_le data
  have hlt := r.cap_lt
  have hused : (r.write data).1.used = r.used + r.accepted data :=
    used_add (show r.used + r.accepted data < 2 ^ 32 by omega)
  have hbuf : 0 < r.buf.length := by
    rw [r.buf_length]
    exact r.cap_pos
  have hfits : r.used + (data.take (r.accepted data)).length ≤ r.buf.length := by
    rw [length_take_accepted, r.buf_length]
    exact hle
  have hcopy := queued_copyIn r.tail.toNat hbuf hfits
  rw [length_take_accepted, r.buf_length, ← head_mod, ← hused] at hcopy
  exact hcopy

/-- A write that fits is accepted whole. -/
theorem write_of_fits {r : RingBuffer cap} {data : List UInt8} (h : data.length ≤ r.freeSpace) :
    (r.write data).1.contents = r.contents ++ data := by
  have hlen : r.accepted data = data.length := by
    rw [accepted_eq]
    omega
  rw [(r.contents_write data).1, hlen, List.take_length]

/-- A write to a full ring leaves the contents. -/
theorem write_of_full {r : RingBuffer cap} (data : List UInt8) (h : r.freeSpace = 0) :
    (r.write data).1.contents = r.contents := by
  have hlen : r.accepted data = 0 := by
    rw [accepted_eq]
    omega
  rw [(r.contents_write data).1, hlen, List.take_zero, List.append_nil]

/-- A read that is served takes from the front. -/
theorem readExact_of_le {r : RingBuffer cap} {len : Nat} (h : len ≤ r.used) :
    ∃ r', r.readExact len = some (r.contents.take len, r') ∧
      r'.contents = r.contents.drop len := by
  have hused : r.used ≤ cap := r.used_le
  have hcap : r.buf.length ∣ cap := by simp [r.buf_length]
  have hdvd : r.buf.length ∣ 2 ^ 32 := Nat.dvd_trans hcap r.cap_dvd
  have hpos : r.tail.toNat % cap ≤ r.buf.length := by
    rw [r.buf_length]
    exact Nat.le_of_lt (Nat.mod_lt _ r.cap_pos)
  have hlen : (UInt32.ofNat len).toNat = len := by
    have hlt := r.cap_lt
    exact UInt32.toNat_ofNat_of_lt' (show len < 2 ^ 32 by omega)
  rw [readExact, dif_neg (Nat.not_lt.mpr h)]
  refine ⟨_, congrArg some (Prod.ext ?_ rfl), ?_⟩
  · have hmod : queued r.buf (r.tail.toNat % cap) len = queued r.buf r.tail.toNat len :=
      queued_mod hcap _ _
    rw [copyOut_eq hpos (by rw [r.buf_length]; omega), hmod, contents, queued, queued,
      List.take_take, Nat.min_eq_left h]
  · have hdrop := queued_drop r.tail.toNat h (by rw [r.buf_length]; exact hused)
    have hsub : (r.head - (r.tail + UInt32.ofNat len)).toNat = r.used - len := used_sub h
    change queued r.buf (r.tail + UInt32.ofNat len).toNat
      (r.head - (r.tail + UInt32.ofNat len)).toNat = r.contents.drop len
    rw [contents, ← hdrop, hsub, UInt32.toNat_add, hlen, queued_mod hdvd]

/-- A read that is not served changes nothing. -/
theorem readExact_of_lt {r : RingBuffer cap} {len : Nat} (h : r.used < len) :
    r.readExact len = none :=
  dif_pos h

end RingBuffer

/-- A ring of a channel, on memory of zeros. -/
def freshRing : RingBuffer ringSize :=
  .init (List.replicate ringSize 0) (by decide) (by decide) List.length_replicate

@[simp] theorem contents_freshRing : freshRing.contents = [] := RingBuffer.contents_init _ _ _ _

@[simp] theorem freeSpace_freshRing : freshRing.freeSpace = ringSize := by
  rw [RingBuffer.freeSpace_eq, contents_freshRing]
  rfl

end MFoES.Usbd
