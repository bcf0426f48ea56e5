import Mathlib.Data.List.Rotate
import Mathlib.Tactic.Common

/-!
# Cyclic buffers

A list of fixed length serves as a cyclic buffer: the elements that are queued
start at some position and wrap around the end.  Programs copy in and out of
such a buffer in at most two pieces, `copyOut` and `copyIn`.

Seen from the position of the copy, that is, with the list rotated there, a
copy concerns a prefix (`copyOut_eq`, `rotate_copyIn`).  So the queue is a
prefix of a rotation, `queued`, and copying in behind it appends to it
(`queued_copyIn`), while moving the start drops from it (`queued_drop`).
-/

namespace Cyclic

variable {α : Type}

/-- `n` elements from `pos` on, in two pieces when they wrap around the end. -/
def copyOut (buf : List α) (pos n : Nat) : List α :=
  if pos + n ≤ buf.length then (buf.drop pos).take n
  else buf.drop pos ++ buf.take (n - (buf.length - pos))

/-- Replace what stands at `pos`. -/
def splice (buf : List α) (pos : Nat) (data : List α) : List α :=
  buf.take pos ++ data ++ buf.drop (pos + data.length)

/-- Put `data` at `pos`, in two pieces when it wraps around the end. -/
def copyIn (buf : List α) (pos : Nat) (data : List α) : List α :=
  if pos + data.length ≤ buf.length then splice buf pos data
  else splice (splice buf pos (data.take (buf.length - pos))) 0 (data.drop (buf.length - pos))

/-- The `n` elements that are queued from `pos` on. -/
def queued (buf : List α) (pos n : Nat) : List α := (buf.rotate pos).take n

theorem length_splice {buf : List α} {pos : Nat} {data : List α}
    (h : pos + data.length ≤ buf.length) : (splice buf pos data).length = buf.length := by
  simp only [splice, List.length_append, List.length_take, List.length_drop]
  omega

theorem length_copyIn {buf : List α} {pos : Nat} {data : List α} (hpos : pos ≤ buf.length)
    (h : data.length ≤ buf.length) : (copyIn buf pos data).length = buf.length := by
  rw [copyIn]
  split
  · next hle => exact length_splice hle
  · rw [length_splice, length_splice]
    · rw [List.length_take]
      omega
    · rw [length_splice, List.length_drop]
      · omega
      · rw [List.length_take]
        omega

theorem length_queued {buf : List α} {n : Nat} (pos : Nat) (h : n ≤ buf.length) :
    (queued buf pos n).length = n := by
  rw [queued, List.length_take, List.length_rotate]
  omega

/-- A copy reads what is queued. -/
theorem copyOut_eq {buf : List α} {pos n : Nat} (hpos : pos ≤ buf.length) (h : n ≤ buf.length) :
    copyOut buf pos n = queued buf pos n := by
  rw [queued, List.rotate_eq_drop_append_take hpos, copyOut]
  split
  · next hle =>
    rw [List.take_append_of_le_length]
    rw [List.length_drop]
    omega
  · next hgt =>
    have hfirst : (buf.drop pos).take n = buf.drop pos := by
      refine List.take_of_length_le ?_
      rw [List.length_drop]
      omega
    rw [List.take_append, hfirst, List.length_drop, List.take_take, Nat.min_eq_left]
    omega

theorem copyIn_fits {A B data : List α} (h : data.length ≤ B.length) :
    copyIn (A ++ B) A.length data = A ++ (data ++ B.drop data.length) := by
  rw [copyIn, if_pos (by rw [List.length_append]; omega), splice, List.take_left,
    List.append_assoc, ← List.drop_drop, List.drop_left]

theorem copyIn_wraps {A B D₁ D₂ : List α} (h₁ : D₁.length = B.length) (h₂ : D₂ ≠ [])
    (hA : D₂.length ≤ A.length) :
    copyIn (A ++ B) A.length (D₁ ++ D₂) = (D₂ ++ A.drop D₂.length) ++ D₁ := by
  have hpos := List.length_pos_iff.mpr h₂
  have hroom : (A ++ B).length - A.length = D₁.length := by
    rw [List.length_append]
    omega
  rw [copyIn, if_neg (by simp only [List.length_append]; omega), hroom, List.take_left,
    List.drop_left, splice, splice, List.take_left, List.take_zero, List.nil_append, Nat.zero_add,
    ← List.drop_drop, List.drop_left, h₁, List.drop_length, List.append_nil,
    List.drop_append_of_le_length hA, List.append_assoc]

/-- Seen from `pos`, a copy replaces the front. -/
theorem rotate_copyIn {buf : List α} {pos : Nat} {data : List α} (hpos : pos ≤ buf.length)
    (h : data.length ≤ buf.length) :
    (copyIn buf pos data).rotate pos = data ++ (buf.rotate pos).drop data.length := by
  obtain ⟨A, B, rfl, rfl⟩ : ∃ A B, buf = A ++ B ∧ pos = A.length :=
    ⟨buf.take pos, buf.drop pos, (List.take_append_drop pos buf).symm,
      (List.length_take_of_le hpos).symm⟩
  rw [List.rotate_append_length_eq]
  rw [List.length_append] at h
  rcases Nat.lt_or_ge B.length data.length with hlt | hle
  · -- the copy wraps
    obtain ⟨D₁, D₂, rfl, h₁⟩ : ∃ D₁ D₂, data = D₁ ++ D₂ ∧ D₁.length = B.length :=
      ⟨data.take B.length, data.drop B.length, (List.take_append_drop _ _).symm,
        List.length_take_of_le (Nat.le_of_lt hlt)⟩
    rw [List.length_append] at h hlt
    have hA : D₂.length ≤ A.length := by omega
    have hfront : A.length = (D₂ ++ A.drop D₂.length).length := by
      rw [List.length_append, List.length_drop]
      omega
    have h₂ : D₂ ≠ [] := List.ne_nil_of_length_pos (by omega)
    rw [copyIn_wraps h₁ h₂ hA, hfront, List.rotate_append_length_eq, List.append_assoc,
      List.length_append, h₁, ← List.drop_drop, List.drop_left]
  · rw [copyIn_fits hle, List.rotate_append_length_eq, List.append_assoc,
      List.drop_append_of_le_length hle]

theorem rotate_add_mod {l : List α} {m : Nat} (h : l.length = m) (pos n : Nat) :
    l.rotate ((pos + n) % m) = (l.rotate pos).rotate n := by
  rw [← h, List.rotate_mod, List.rotate_rotate]

/-- Copying in behind the queue appends to it. -/
theorem queued_copyIn {buf : List α} {n : Nat} {data : List α} (pos : Nat)
    (h0 : 0 < buf.length) (h : n + data.length ≤ buf.length) :
    queued (copyIn buf ((pos + n) % buf.length) data) pos (n + data.length) =
      queued buf pos n ++ data := by
  have hend : (pos + n) % buf.length ≤ buf.length := Nat.le_of_lt (Nat.mod_lt _ h0)
  have hdata : data.length ≤ buf.length := by omega
  have hlen : (copyIn buf ((pos + n) % buf.length) data).length = buf.length :=
    length_copyIn hend hdata
  have hn : n ≤ (buf.rotate pos).length := by
    rw [List.length_rotate]
    omega
  have htake : ((buf.rotate pos).take n).length = n := List.length_take_of_le hn
  have hdrop : data.length ≤ ((buf.rotate pos).drop n).length := by
    rw [List.length_drop, List.length_rotate]
    omega
  have hrot : ((copyIn buf ((pos + n) % buf.length) data).rotate pos).rotate n =
      ((buf.rotate pos).take n ++ (data ++ ((buf.rotate pos).drop n).drop data.length)).rotate n := by
    have hcopy := rotate_copyIn hend hdata
    rw [rotate_add_mod hlen, rotate_add_mod rfl, List.rotate_eq_drop_append_take hn,
      List.drop_append_of_le_length hdrop] at hcopy
    have hback := List.rotate_append_length_eq ((buf.rotate pos).take n)
      (data ++ ((buf.rotate pos).drop n).drop data.length)
    rw [htake] at hback
    rw [hcopy, hback, List.append_assoc]
  have hqueue := List.rotate_eq_rotate.mp hrot
  rw [queued, queued, hqueue, ← List.append_assoc, List.take_append_of_le_length,
    List.take_of_length_le]
  · rw [List.length_append, htake]
  · rw [List.length_append, htake]

/-- A position may be counted modulo any multiple of the length. -/
theorem queued_mod {buf : List α} {m : Nat} (h : buf.length ∣ m) (pos n : Nat) :
    queued buf (pos % m) n = queued buf pos n := by
  rw [queued, queued, ← List.rotate_mod, Nat.mod_mod_of_dvd _ h, List.rotate_mod]

/-- Moving the start of the queue drops from it. -/
theorem queued_drop {buf : List α} {n k : Nat} (pos : Nat) (hk : k ≤ n) (hn : n ≤ buf.length) :
    queued buf (pos + k) (n - k) = (queued buf pos n).drop k := by
  have hlen : k ≤ (buf.rotate pos).length := by
    rw [List.length_rotate]
    omega
  rw [queued, queued, ← List.rotate_rotate, List.rotate_eq_drop_append_take hlen,
    List.take_append_of_le_length, List.drop_take]
  rw [List.length_drop, List.length_rotate]
  omega

end Cyclic
