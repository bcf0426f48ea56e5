import Mathlib.Data.List.Induction
import MFoES.Lib.Reactive

/-!
# Bounded queues

A queue of at most `cap` elements.  A write appends as much as there is room for, and a read
takes exactly what it asked for from the front, or fails.  A read that has waited long enough
fails as well.

What was read and what is queued is what was accepted, in order (`conserved_run`).  An
implementation has an `Abstraction` to the lists that are queued, call by call, and then its
runs give the same results (`Abstraction.run_eq`).
-/

namespace BoundedQueue

variable {α : Type}

/-- A call.  `gaveUp` tells that a read has waited long enough. -/
inductive Call (α : Type) where
  | write (data : List α)
  | read (len : Nat) (gaveUp : Bool)

/-- What a call returns. -/
inductive Result (α : Type) where
  | accepted (n : Nat)
  | failed
  | bytes (data : List α)
deriving DecidableEq

/-- A call on a queue of capacity `cap`. -/
def step (cap : Nat) (q : List α) : Call α → List α × Result α
  | .write data =>
      (q ++ data.take (min data.length (cap - q.length)),
        .accepted (min data.length (cap - q.length)))
  | .read len gaveUp =>
      if gaveUp = true ∨ q.length < len then (q, .failed) else (q.drop len, .bytes (q.take len))

/-- The calls of a run, each with its result. -/
abbrev Trace (α : Type) := List (Call α × Result α)

/-- What the writes of a run accepted. -/
def written : Trace α → List α
  | [] => []
  | (.write data, .accepted n) :: tr => data.take n ++ written tr
  | _ :: tr => written tr

/-- What its reads returned. -/
def taken : Trace α → List α
  | [] => []
  | (_, .bytes data) :: tr => data ++ taken tr
  | _ :: tr => taken tr

/-- Make calls, with a trace. -/
def runBy {σ : Type} (call : σ → Call α → σ × Result α) : σ → List (Call α) → σ × Trace α :=
  Reactive.run fun s c => ((call s c).1, [(c, (call s c).2)])

/-- The end of a run, one call earlier. -/
theorem runBy_concat {σ : Type} (call : σ → Call α → σ × Result α) (s : σ) (cs : List (Call α))
    (c : Call α) :
    runBy call s (cs ++ [c]) =
      ((call (runBy call s cs).1 c).1,
        (runBy call s cs).2 ++ [(c, (call (runBy call s cs).1 c).2)]) := by
  rw [runBy, Reactive.run_append]
  rfl

/-! ## Conservation -/

theorem written_concat (tr : Trace α) (c : Call α) (r : Result α) :
    written (tr ++ [(c, r)]) = written tr ++ written [(c, r)] := by
  induction tr with
  | nil => rfl
  | cons p tr ih =>
      obtain ⟨d, res⟩ := p
      cases d with
      | read len gaveUp => exact ih
      | write data =>
          cases res with
          | accepted n =>
              rw [List.cons_append, written, written, ih, List.append_assoc]
          | failed => exact ih
          | bytes b => exact ih

theorem taken_concat (tr : Trace α) (c : Call α) (r : Result α) :
    taken (tr ++ [(c, r)]) = taken tr ++ taken [(c, r)] := by
  induction tr with
  | nil => rfl
  | cons p tr ih =>
      obtain ⟨d, res⟩ := p
      cases res with
      | accepted n => exact ih
      | failed => exact ih
      | bytes b => rw [List.cons_append, taken, taken, ih, List.append_assoc]

/-- No more is queued than there is room for. -/
theorem length_step_le {cap : Nat} {q : List α} (h : q.length ≤ cap) (c : Call α) :
    (step cap q c).1.length ≤ cap := by
  cases c with
  | write data =>
      show (q ++ data.take _).length ≤ cap
      rw [List.length_append, List.length_take]
      omega
  | read len gaveUp =>
      rw [step]
      split
      · exact h
      · show (q.drop len).length ≤ cap
        rw [List.length_drop]
        omega

/-- A call takes from the front what it returns, and appends what it accepts. -/
theorem conserved_step (cap : Nat) (q : List α) (c : Call α) :
    q ++ written [(c, (step cap q c).2)] = taken [(c, (step cap q c).2)] ++ (step cap q c).1 := by
  cases c with
  | write data =>
      show q ++ (data.take _ ++ []) = [] ++ (q ++ data.take _)
      rw [List.append_nil, List.nil_append]
  | read len gaveUp =>
      rw [step]
      split
      · exact List.append_nil q
      · show q ++ [] = (q.take len ++ []) ++ q.drop len
        rw [List.append_nil, List.append_nil, List.take_append_drop]

/-- What was read and what is queued is what was accepted, in order. -/
theorem conserved_run (cap : Nat) (cs : List (Call α)) :
    written (runBy (step cap) [] cs).2 =
        taken (runBy (step cap) [] cs).2 ++ (runBy (step cap) [] cs).1 ∧
      (runBy (step cap) [] cs).1.length ≤ cap := by
  induction cs using List.reverseRecOn with
  | nil => exact ⟨rfl, Nat.zero_le cap⟩
  | append_singleton cs c ih =>
      obtain ⟨hbytes, hlen⟩ := ih
      rw [runBy_concat, written_concat, taken_concat]
      refine ⟨?_, length_step_le hlen c⟩
      rw [hbytes, List.append_assoc, List.append_assoc, conserved_step]

/-! ## Implementations -/

/-- The states of an implementation stand for the lists that are queued. -/
structure Abstraction {σ : Type} (cap : Nat) (call : σ → Call α → σ × Result α)
    (contents : σ → List α) : Prop where
  state (s : σ) (c : Call α) : contents (call s c).1 = (step cap (contents s) c).1
  result (s : σ) (c : Call α) : (call s c).2 = (step cap (contents s) c).2

/-- A run of an implementation gives the results of the queue. -/
theorem Abstraction.run_eq {σ : Type} {cap : Nat} {call : σ → Call α → σ × Result α}
    {contents : σ → List α} (h : Abstraction cap call contents) (s : σ) (cs : List (Call α)) :
    runBy (step cap) (contents s) cs =
      (contents (runBy call s cs).1, (runBy call s cs).2) := by
  exact Reactive.run_map (fun s c => by rw [h.state, h.result]) s cs

end BoundedQueue
