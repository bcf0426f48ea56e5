import MFoES.Lib.Reactive

/-!
# Queues that can drop their oldest item

A list of at most `limit` items, the oldest one first.  Where it is full, `push` refuses, and
`pushOverwrite` drops the oldest item.
-/

namespace DropOldest

variable {α : Type}

/-- A call. -/
inductive Call (α : Type)
  | push (item : α)
  | pushOverwrite (item : α)
  | pop
  | size
  | empty

/-- What a call returns. -/
inductive Result (α : Type)
  | pushed (accepted : Bool)
  | overwritten
  | popped (out : Option α)
  | size (n : Nat)
  | empty (yes : Bool)
  deriving DecidableEq

/-- A call on a queue of at most `limit` items. -/
def step (limit : Nat) (q : List α) : Call α → List α × Result α
  | .push item => if q.length = limit then (q, .pushed false) else (q ++ [item], .pushed true)
  | .pushOverwrite item =>
      (if q.length = limit then (q ++ [item]).tail else q ++ [item], .overwritten)
  | .pop => (q.tail, .popped q.head?)
  | .size => (q, .size q.length)
  | .empty => (q, .empty q.isEmpty)

/-- Make calls, with their results. -/
def runBy {σ : Type} (call : σ → Call α → σ × Result α) : σ → List (Call α) → σ × List (Result α) :=
  Reactive.run fun s c => ((call s c).1, [(call s c).2])

/-- No more is queued than there is room for. -/
theorem length_step_le {limit : Nat} {q : List α} (h : q.length ≤ limit) (c : Call α) :
    (step limit q c).1.length ≤ limit := by
  cases c with
  | push item =>
      rw [step]
      split
      · exact h
      · rw [List.length_append, List.length_singleton]
        omega
  | pushOverwrite item =>
      rw [step]
      split
      · rw [List.length_tail, List.length_append, List.length_singleton]
        exact h
      · rw [List.length_append, List.length_singleton]
        omega
  | pop =>
      rw [step, List.length_tail]
      omega
  | size => exact h
  | empty => exact h

theorem length_runBy_le {limit : Nat} (cs : List (Call α)) :
    ∀ {q : List α}, q.length ≤ limit → (runBy (step limit) q cs).1.length ≤ limit := by
  induction cs with
  | nil => exact fun h => h
  | cons c cs ih => exact fun h => ih (length_step_le h c)

end DropOldest
