import MFoES.Lib.DropOldest
import MFoES.Southbridge.RingBuffer

/-!
# The audio ring in one thread

Without a second thread the ring is a list of at most `capacity - 1` items.  It gives the results
of this list to every sequence of calls (`runBy_eq_list`), whatever the slots held before and
however often the indices have come around.
-/

namespace MFoES.Southbridge.RingBuffer

open DropOldest

variable {k : Nat} {α : Type}

/-- `empty()`. -/
def empty (r : RingBuffer k α) : Bool := r.size == 0

/-- A call.  A `pop` that finds nothing leaves `out` as it was. -/
def call (r : RingBuffer k α) : Call α → RingBuffer k α × Result α
  | .push item =>
      match r.push item with
      | none => (r, .pushed false)
      | some r' => (r', .pushed true)
  | .pushOverwrite item => (r.pushOverwrite item, .overwritten)
  | .pop =>
      match r.pop with
      | none => (r, .popped none)
      | some (out, r') => (r', .popped (some out))
  | .size => (r, .size r.size)
  | .empty => (r, .empty r.empty)

/-- The difference in `size()` wraps around as a `size_t`, and the mask takes the turns away. -/
theorem toNat_size (r : RingBuffer k α) (hk : k ≤ 63) :
    ((UInt64.ofNat r.head.val - UInt64.ofNat r.tail.val) &&& UInt64.ofNat (2 ^ k - 1)).toNat =
      r.size := by
  have hturns : 2 ^ 64 = 2 ^ k * 2 ^ (64 - k) := by
    rw [← Nat.pow_add, Nat.add_sub_cancel' (by omega)]
  have hmore := Nat.two_pow_pos (64 - k)
  have hle : 2 ^ k ≤ UInt64.size := Nat.pow_le_pow_right (by decide) (by omega : k ≤ 64)
  have hhead := r.head.isLt
  have htail := r.tail.isLt
  obtain ⟨more, hmore⟩ := Nat.exists_eq_succ_of_ne_zero hmore.ne'
  rw [UInt64.toNat_and, UInt64.toNat_sub, UInt64.toNat_ofNat_of_lt' (by omega),
    UInt64.toNat_ofNat_of_lt' (by omega), UInt64.toNat_ofNat_of_lt' (by omega),
    Nat.and_two_pow_sub_one_eq_mod, size, Nat.and_two_pow_sub_one_eq_mod,
    Nat.mod_mod_of_dvd _ ⟨2 ^ (64 - k), hturns⟩, hturns, hmore, Nat.mul_succ,
    show 2 ^ k * more + 2 ^ k - r.tail.val + r.head.val =
      r.head.val + 2 ^ k - r.tail.val + 2 ^ k * more by omega, Nat.add_mul_mod_self_left]

/-- The ring is full when the list is as long as it gets. -/
theorem full_iff_length (r : RingBuffer k α) :
    r.contents.length = 2 ^ k - 1 ↔ r.size + 1 = 2 ^ k := by
  have hpos := Nat.two_pow_pos k
  rw [length_contents]
  omega

/-- A call does to the list what it does to the queue. -/
theorem step_contents (r : RingBuffer k α) (c : Call α) :
    DropOldest.step (2 ^ k - 1) r.contents c = ((r.call c).1.contents, (r.call c).2) := by
  cases c with
  | push item =>
      simp only [DropOldest.step, full_iff_length, call]
      cases hpush : r.push item with
      | none => rw [if_pos (push_eq_none.mp hpush)]
      | some r' =>
          have hroom : r.size + 1 ≠ 2 ^ k := fun hfull => by
            rw [push_eq_none.mpr hfull] at hpush
            cases hpush
          rw [if_neg hroom, contents_push hpush]
  | pushOverwrite item =>
      simp only [DropOldest.step, full_iff_length, call]
      split
      · next hfull => rw [pushOverwrite_of_full item hfull]
      · next hroom => rw [pushOverwrite_of_room item hroom]
  | pop =>
      simp only [DropOldest.step, call]
      cases hpop : r.pop with
      | none =>
          have hempty := pop_eq_none.mp hpop
          rw [hempty]
          rfl
      | some p =>
          obtain ⟨out, r'⟩ := p
          rw [contents_pop hpop]
          rfl
  | size =>
      rw [DropOldest.step, length_contents]
      rfl
  | empty =>
      have hempty : r.contents.isEmpty = r.empty := by
        rw [empty, ← length_contents]
        cases r.contents <;> rfl
      rw [DropOldest.step, hempty]
      rfl

/-- In one thread the ring is a list of at most `capacity - 1` items. -/
theorem runBy_eq_list (buf : Fin (2 ^ k) → α) (calls : List (Call α)) :
    (runBy call (init buf) calls).2 = (runBy (DropOldest.step (2 ^ k - 1)) [] calls).2 ∧
      (runBy call (init buf) calls).1.contents =
        (runBy (DropOldest.step (2 ^ k - 1)) [] calls).1 ∧
      (runBy call (init buf) calls).1.contents.length ≤ 2 ^ k - 1 := by
  have hrun : runBy (DropOldest.step (2 ^ k - 1)) [] calls =
      ((runBy call (init buf) calls).1.contents, (runBy call (init buf) calls).2) := by
    rw [← contents_init buf]
    exact Reactive.run_map (fun r c => by rw [step_contents]) (init buf) calls
  have hlength : (runBy (DropOldest.step (2 ^ k - 1)) [] calls).1.length ≤ 2 ^ k - 1 :=
    length_runBy_le calls (Nat.zero_le _)
  rw [hrun] at hlength ⊢
  exact ⟨rfl, rfl, hlength⟩

/-- A ring of four slots is full with three items. -/
example :
    (runBy call (init fun _ => 0 : RingBuffer 2 Nat)
      [.push 1, .push 2, .push 3, .push 4, .pushOverwrite 5, .size, .pop, .pop, .empty]).2 =
      [.pushed true, .pushed true, .pushed true, .pushed false, .overwritten, .size 3,
        .popped (some 2), .popped (some 3), .empty false] := by
  decide

end MFoES.Southbridge.RingBuffer
