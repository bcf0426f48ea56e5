import Mathlib.Data.List.Basic
import Mathlib.Tactic.Common

/-!
# A buffer that is filled and sent

A user of a buffer fills it with single writes, takes a lock, and sends it element by element.  The
lock covers the sending only, so two users can get into each other's way.

While nobody else writes, the buffer comes to what the user fills it with, and this is what is
sent (`Use.Carries`).
-/

namespace SharedBuffer

variable {α : Type}

/-! ## Writes -/

/-- Elements at consecutive indices. -/
def writesAt (off : Nat) : List α → List (Nat × α)
  | [] => []
  | a :: l => (off, a) :: writesAt (off + 1) l

/-- Write one after the other. -/
def write (buf : List α) (todo : List (Nat × α)) : List α :=
  todo.foldl (fun buf w => buf.set w.1 w.2) buf

theorem write_append (buf : List α) (ws ws' : List (Nat × α)) :
    write buf (ws ++ ws') = write (write buf ws) ws' := List.foldl_append

/-- Elements at consecutive indices take the place of what was there. -/
theorem write_writesAt (a l b c : List α) (h : l.length = b.length) :
    write (a ++ b ++ c) (writesAt a.length l) = a ++ l ++ c := by
  induction l generalizing a b with
  | nil =>
      rw [List.eq_nil_of_length_eq_zero h.symm]
      rfl
  | cons x l ih =>
      obtain ⟨y, b, rfl⟩ := List.exists_cons_of_length_pos (l := b) (by rw [← h]; simp)
      have hset : (a ++ y :: b ++ c).set a.length x = a ++ [x] ++ b ++ c := by simp
      have hrest := ih (a ++ [x]) b (Nat.succ.inj h)
      rw [List.length_append, List.length_singleton] at hrest
      show write ((a ++ y :: b ++ c).set a.length x) (writesAt (a.length + 1) l) = _
      rw [hset, hrest, List.append_assoc a, List.singleton_append]

/-- Elements at the front. -/
theorem write_front {buf l : List α} (h : l.length ≤ buf.length) :
    write buf (writesAt 0 l) = l ++ buf.drop l.length := by
  have hwrite := write_writesAt [] l (buf.take l.length) (buf.drop l.length)
    (by rw [List.length_take, Nat.min_eq_left h])
  rw [List.nil_append, List.take_append_drop] at hwrite
  exact hwrite

/-! ## Users -/

/-- The buffer, the lock, and what was sent so far. -/
structure Port (α : Type) where
  buf : List α
  locked : Bool
  sent : List (List α)

/-- How far a user is. -/
inductive Use (α : Type) where
  | fill (todo : List (Nat × α))
  | lock
  | send (out : List α)

/-- The next step of a user; none while it waits for the lock.  The last one leaves no use. -/
def Use.step (p : Port α) : Use α → Option (Port α × Option (Use α))
  | fill [] => some (p, some .lock)
  | fill (w :: todo) => some ({ p with buf := p.buf.set w.1 w.2 }, some (.fill todo))
  | lock => if p.locked then none else some ({ p with locked := true }, some (.send []))
  | send out =>
      match p.buf[out.length]? with
      | some a => some (p, some (.send (out ++ [a])))
      | none => some ({ p with locked := false, sent := p.sent ++ [out] }, none)

/-- The user sends `target` if nobody else writes. -/
def Use.Carries (target buf : List α) : Use α → Prop
  | fill todo => write buf todo = target
  | lock => buf = target
  | send out => buf = target ∧ out <+: target

variable {target : List α} {p p' : Port α} {u : Use α} {next : Option (Use α)}

theorem Use.length_step (h : u.step p = some (p', next)) : p'.buf.length = p.buf.length := by
  cases u with
  | fill todo =>
      cases todo with
      | nil =>
          cases h
          rfl
      | cons w todo =>
          cases h
          exact List.length_set
  | lock =>
      rw [step] at h
      split at h
      · cases h
      · cases h
        rfl
  | send out =>
      rw [step] at h
      split at h
      · cases h
        rfl
      · cases h
        rfl

/-- A step goes on with the target, or has sent it. -/
theorem Use.Carries.step (hu : u.Carries target p.buf) (h : u.step p = some (p', next)) :
    (∃ v, next = some v ∧ v.Carries target p'.buf ∧ p'.sent = p.sent) ∨
      next = none ∧ p'.sent = p.sent ++ [target] := by
  cases u with
  | fill todo =>
      cases todo with
      | nil =>
          cases h
          exact Or.inl ⟨.lock, rfl, hu, rfl⟩
      | cons w todo =>
          cases h
          exact Or.inl ⟨.fill todo, rfl, hu, rfl⟩
  | lock =>
      rw [Use.step] at h
      split at h
      · cases h
      · cases h
        exact Or.inl ⟨.send [], rfl, ⟨hu, List.nil_prefix⟩, rfl⟩
  | send out =>
      obtain ⟨hbuf, hout⟩ := hu
      rw [Use.step, hbuf] at h
      split at h
      · next a ha =>
        cases h
        refine Or.inl ⟨.send (out ++ [a]), rfl, ⟨hbuf, ?_⟩, rfl⟩
        obtain ⟨rest, rfl⟩ := hout
        rw [List.getElem?_append_right (Nat.le_refl _), Nat.sub_self] at ha
        obtain ⟨rest, rfl⟩ : ∃ l, rest = a :: l := by
          cases rest with
          | nil => cases ha
          | cons b rest =>
              cases ha
              exact ⟨rest, rfl⟩
        exact ⟨rest, by rw [List.append_assoc, List.singleton_append]⟩
      · next hnone =>
        cases h
        refine Or.inr ⟨rfl, ?_⟩
        rw [List.getElem?_eq_none_iff] at hnone
        rw [hout.eq_of_length_le hnone]

/-! ## A user alone -/

/-- A user that nobody else gets in the way of is through, and has brought `p` to `q`. -/
inductive Use.Finishes : Port α → Use α → Port α → Prop where
  | last {p q : Port α} {u : Use α} (h : u.step p = some (q, none)) : Finishes p u q
  | next {p p' q : Port α} {u v : Use α} (h : u.step p = some (p', some v))
      (rest : Finishes p' v q) : Finishes p u q

theorem Use.finishes_send {buf out rest : List α} {sent : List (List α)} (h : out ++ rest = buf) :
    Finishes ⟨buf, true, sent⟩ (.send out) ⟨buf, false, sent ++ [buf]⟩ := by
  induction rest generalizing out with
  | nil =>
      rw [List.append_nil] at h
      subst h
      refine .last ?_
      rw [step, List.getElem?_eq_none (Nat.le_refl _)]
  | cons a rest ih =>
      have hstep : (Use.send out).step ⟨buf, true, sent⟩ =
          some (⟨buf, true, sent⟩, some (.send (out ++ [a]))) := by
        subst h
        rw [step, List.getElem?_append_right (Nat.le_refl _), Nat.sub_self]
        rfl
      exact .next hstep (ih (by rw [List.append_assoc, List.singleton_append, h]))

/-- Alone, a user sends what it fills the buffer with. -/
theorem Use.finishes_fill (todo : List (Nat × α)) (buf : List α) (sent : List (List α)) :
    Finishes ⟨buf, false, sent⟩ (.fill todo)
      ⟨write buf todo, false, sent ++ [write buf todo]⟩ := by
  induction todo generalizing buf with
  | nil => exact .next rfl (.next rfl (finishes_send (List.nil_append _)))
  | cons w todo ih => exact .next rfl (ih (buf.set w.1 w.2))

end SharedBuffer
