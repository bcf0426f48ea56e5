import MFoES.Lib.BoundedQueue
import MFoES.Usbd.RingBuffer

/-!
# The ring buffer over a run of calls

Both calls hold the lock while they look at the counters and copy, so a run is a sequence of
calls.  A `read_exact` that waits lets go of the lock, and takes effect where it is served or
its time is up.

The ring is a bounded queue of bytes (`abstraction_call`), however often its counters wrap.
-/

namespace MFoES.Usbd

open BoundedQueue

namespace RingBuffer

variable {cap : Nat}

/-- A call on the ring, where it takes effect. -/
def call (r : RingBuffer cap) : Call UInt8 → RingBuffer cap × Result UInt8
  | .write data => ((r.write data).1, .accepted (r.write data).2)
  | .read _ true => (r, .failed)
  | .read len false =>
      match r.readExact len with
      | none => (r, .failed)
      | some (bytes, r') => (r', .bytes bytes)

theorem call_write (r : RingBuffer cap) (data : List UInt8) :
    (r.call (.write data)).1.contents = (step cap r.contents (.write data)).1 ∧
      (r.call (.write data)).2 = (step cap r.contents (.write data)).2 := by
  have hwrite := r.contents_write data
  rw [accepted_eq, freeSpace_eq] at hwrite
  exact ⟨hwrite.1, congrArg Result.accepted hwrite.2⟩

theorem call_read (r : RingBuffer cap) (len : Nat) :
    (r.call (.read len false)).1.contents = (step cap r.contents (.read len false)).1 ∧
      (r.call (.read len false)).2 = (step cap r.contents (.read len false)).2 := by
  rcases Nat.lt_or_ge r.used len with hlt | hle
  · have hshort : r.contents.length < len := by
      rw [length_contents]
      exact hlt
    rw [call, readExact_of_lt hlt, step, if_pos (Or.inr hshort)]
    exact ⟨rfl, rfl⟩
  · obtain ⟨r', hread, hdrop⟩ := readExact_of_le hle
    have hlong : ¬ (false = true ∨ r.contents.length < len) := by
      rw [length_contents]
      rintro (hno | hlt)
      · cases hno
      · omega
    rw [call, hread, step, if_neg hlong]
    exact ⟨hdrop, rfl⟩

/-- The ring is a queue of the bytes written and not read. -/
theorem abstraction_call : Abstraction cap call (@contents cap) := by
  have hboth : ∀ (r : RingBuffer cap) (c : Call UInt8),
      (r.call c).1.contents = (step cap r.contents c).1 ∧
        (r.call c).2 = (step cap r.contents c).2 := by
    intro r c
    cases c with
    | write data => exact r.call_write data
    | read len gaveUp =>
        cases gaveUp with
        | true => exact ⟨rfl, rfl⟩
        | false => exact r.call_read len
  exact ⟨fun r c => (hboth r c).1, fun r c => (hboth r c).2⟩

/-- What a call does to a ring. -/
structure Fifo (r : RingBuffer cap) (tr : Trace UInt8) : Prop where
  /-- What was read, and then what is in the ring, is what was accepted. -/
  order : written tr = taken tr ++ r.contents
  used_le : r.used ≤ cap
  write (data : List UInt8) : (r.call (.write data)).2 = .accepted (min data.length r.freeSpace)
  read (len : Nat) (gaveUp : Bool) (bytes : List UInt8) :
    (r.call (.read len gaveUp)).2 = .bytes bytes → bytes.length = len
  failed (c : Call UInt8) : (r.call c).2 = .failed → (r.call c).1 = r

theorem length_of_read {r : RingBuffer cap} {len : Nat} {gaveUp : Bool} {bytes : List UInt8}
    (h : (r.call (.read len gaveUp)).2 = .bytes bytes) : bytes.length = len := by
  rw [abstraction_call.result, step] at h
  split at h
  · cases h
  · next hserved =>
    rw [not_or, Nat.not_lt] at hserved
    cases h
    exact List.length_take_of_le hserved.2

/-- A read that fails leaves the ring, array and counters included. -/
theorem call_of_failed {r : RingBuffer cap} {c : Call UInt8} (h : (r.call c).2 = .failed) :
    (r.call c).1 = r := by
  cases c with
  | write data => cases h
  | read len gaveUp =>
      cases gaveUp with
      | true => rfl
      | false =>
          rw [call] at h ⊢
          cases hread : r.readExact len with
          | none => rfl
          | some served =>
              rw [hread] at h
              cases h

end RingBuffer

end MFoES.Usbd
