import Mathlib.Data.List.Basic
import Mathlib.Tactic.Common

/-!
# Readers that consume what was written

A reader is a state monad computation, and `Holds s L` says that the state `s`
has the elements `L` left.  `Reads Holds m b v` says that `m`, started with `b`
in front, returns `v` and consumes exactly `b`.  The rules follow the
computation: `Reads.bind` for sequencing, `Reads.get_bind` for a look at the
state, `reads_readN` for a counted run.
-/

namespace Reading

variable {σ α β γ : Type} {Holds : σ → List α → Prop}

/-- `m` returns `v` from `b` and leaves what follows `b`. -/
def Reads (Holds : σ → List α → Prop) (m : StateM σ β) (b : List α) (v : β) : Prop :=
  ∀ s L, Holds s (b ++ L) → (m s).1 = v ∧ Holds (m s).2 L

/-- Run `m` a number of times. -/
def readN (m : StateM σ β) : Nat → StateM σ (List β)
  | 0 => pure []
  | n + 1 => do
      let v ← m
      let vs ← readN m n
      pure (v :: vs)

namespace Reads

theorem run {m : StateM σ β} {b L : List α} {v : β} {s : σ} (hm : Reads Holds m b v)
    (h : Holds s (b ++ L)) : ∃ t, m s = (v, t) ∧ Holds t L :=
  ⟨(m s).2, Prod.ext (hm s L h).1 rfl, (hm s L h).2⟩

theorem pure (v : β) : Reads Holds (pure v : StateM σ β) [] v :=
  fun _ _ h => ⟨rfl, h⟩

theorem bind {m : StateM σ β} {f : β → StateM σ γ} {b c : List α} {v : β} {w : γ}
    (hm : Reads Holds m b v) (hf : Reads Holds (f v) c w) : Reads Holds (m >>= f) (b ++ c) w := by
  intro s L h
  rw [List.append_assoc] at h
  obtain ⟨hv, hrest⟩ := hm s (c ++ L) h
  have hw := hf (m s).2 L hrest
  rw [← hv] at hw
  exact hw

/-- What is returned may be computed from what is read. -/
theorem map {m : StateM σ β} {b : List α} {v : β} (hm : Reads Holds m b v) (f : β → γ) :
    Reads Holds (m >>= fun x => Pure.pure (f x)) b (f v) := by
  have h : Reads Holds (m >>= fun x => Pure.pure (f x)) (b ++ []) (f v) :=
    hm.bind (Reads.pure (f v))
  rw [List.append_nil] at h
  exact h

/-- Sequencing against a list of pieces. -/
theorem cons {m : StateM σ β} {f : β → StateM σ γ} {b : List α} {bs : List (List α)} {v : β}
    {w : γ} (hm : Reads Holds m b v) (hf : Reads Holds (f v) bs.flatten w) :
    Reads Holds (m >>= f) (b :: bs).flatten w :=
  hm.bind hf

/-- A look at the state consumes nothing. -/
theorem get_bind {f : σ → StateM σ γ} {b : List α} {w : γ}
    (hf : ∀ s L, Holds s (b ++ L) → Reads Holds (f s) b w) : Reads Holds (get >>= f) b w :=
  fun s L h => hf s L h s L h

end Reads

/-- A counted run reads back the values it is long enough for. -/
theorem reads_readN {m : StateM σ β} {enc : β → List α} (hm : ∀ v, Reads Holds m (enc v) v) :
    ∀ vs : List β, Reads Holds (readN m vs.length) (vs.flatMap enc) vs
  | [] => Reads.pure []
  | v :: vs => by
      have hrest : Reads Holds (readN m vs.length >>= fun vs => pure (v :: vs)) (vs.flatMap enc)
          (v :: vs) := (reads_readN hm vs).map _
      exact (hm v).bind hrest

end Reading
