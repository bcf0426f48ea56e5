import Mathlib.Data.List.Nodup
import Mathlib.Tactic.Common

/-!
# Loops over the keys of a map

A loop visits keys, each once, and its body only touches what the state has for the key it
visits.  Then what the state has for a key changes as the body changes it there, and other keys
do not matter (`view_foldl`).
-/

namespace Pointwise

variable {σ κ : Type} {ν : κ → Type} [DecidableEq κ]

/-- What the loop makes of the part of the state that belongs to one key. -/
theorem view_foldl {view : σ → (k : κ) → ν k} {body : σ → κ → σ} {part : (k : κ) → ν k → ν k}
    (hself : ∀ s k, view (body s k) k = part k (view s k))
    (hother : ∀ s k k', k' ≠ k → view (body s k) k' = view s k') {keys : List κ}
    (hnodup : keys.Nodup) (s : σ) (k : κ) :
    view (keys.foldl body s) k = if k ∈ keys then part k (view s k) else view s k := by
  induction keys generalizing s with
  | nil => simp
  | cons k' keys ih =>
      obtain ⟨hnot, hnodup'⟩ := List.nodup_cons.mp hnodup
      rw [List.foldl_cons, ih hnodup']
      rcases Decidable.em (k = k') with rfl | hne
      · rw [if_neg hnot, if_pos List.mem_cons_self, hself]
      · rw [hother s k' k hne]
        simp [hne]

/-- What a loop over all keys makes of the part of a key. -/
theorem view_foldl_of_mem {view : σ → (k : κ) → ν k} {body : σ → κ → σ}
    {part : (k : κ) → ν k → ν k} (hself : ∀ s k, view (body s k) k = part k (view s k))
    (hother : ∀ s k k', k' ≠ k → view (body s k) k' = view s k') {keys : List κ}
    (hnodup : keys.Nodup) (s : σ) {k : κ} (hk : k ∈ keys) :
    view (keys.foldl body s) k = part k (view s k) := by
  rw [view_foldl hself hother hnodup, if_pos hk]

end Pointwise
