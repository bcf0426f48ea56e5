import Mathlib.Data.List.Basic
import Mathlib.Data.List.Nodup
import Mathlib.Tactic.Common

/-!
# Walking a list by index while erasing from it

`sweep body` visits the elements of a list by index.  `body` says what becomes of
an element, or that it is erased, and what it puts out.  An erased element is not
counted, so that the next one comes up at the same index.

Every element is visited once, in order (`sweep_eq`).  Where elements have keys
of their own, what one of them puts out is read off from the whole output by its
key (`flatMap_of_key`).
-/

namespace Sweep

variable {α β γ κ : Type}

/-- The loop, at index `i`. -/
def sweep (body : α → Option α × List β) : Nat → Nat → List α → List α × List β
  | 0, _, xs => (xs, [])
  | fuel + 1, i, xs =>
      match xs[i]? with
      | none => (xs, [])
      | some x =>
          match body x with
          | (none, out) =>
              let r := sweep body fuel i (xs.eraseIdx i)
              (r.1, out ++ r.2)
          | (some y, out) =>
              let r := sweep body fuel (i + 1) (xs.set i y)
              (r.1, out ++ r.2)

theorem sweep_append {body : α → Option α × List β} {todo : List α} :
    ∀ {fuel : Nat} (seen : List α), todo.length ≤ fuel →
      sweep body fuel seen.length (seen ++ todo) =
        (seen ++ todo.filterMap fun x => (body x).1, todo.flatMap fun x => (body x).2) := by
  induction todo with
  | nil =>
      intro fuel seen _
      cases fuel with
      | zero => rw [sweep, List.filterMap_nil, List.flatMap_nil]
      | succ fuel =>
          rw [sweep, List.append_nil, List.getElem?_eq_none (Nat.le_refl _), List.filterMap_nil,
            List.flatMap_nil, List.append_nil]
  | cons x todo ih =>
      intro fuel seen hfuel
      cases fuel with
      | zero => exact absurd hfuel (Nat.not_succ_le_zero _)
      | succ fuel =>
          have hle : todo.length ≤ fuel := Nat.le_of_succ_le_succ hfuel
          have hx : (seen ++ x :: todo)[seen.length]? = some x := by
            rw [List.getElem?_append_right (Nat.le_refl _), Nat.sub_self, List.getElem?_cons_zero]
          rw [sweep, hx, List.flatMap_cons]
          cases hbody : body x with
          | mk o out =>
              cases o with
              | none =>
                  have herase : (seen ++ x :: todo).eraseIdx seen.length = seen ++ todo := by
                    rw [List.eraseIdx_append_of_length_le (Nat.le_refl _), Nat.sub_self,
                      List.eraseIdx_cons_zero]
                  simp only [herase, ih seen hle, List.filterMap_cons, hbody]
              | some y =>
                  have hset : (seen ++ x :: todo).set seen.length y = seen ++ y :: todo := by
                    rw [List.set_append_right _ _ (Nat.le_refl _), Nat.sub_self, List.set_cons_zero]
                  have hlen : (seen ++ [y]).length = seen.length + 1 := List.length_append
                  have hrest := ih (seen ++ [y]) hle
                  rw [hlen, List.append_assoc, List.append_assoc, List.singleton_append,
                    List.singleton_append] at hrest
                  simp only [hset, hrest, List.filterMap_cons, hbody]

/-- A sweep visits every element once. -/
theorem sweep_eq (body : α → Option α × List β) (xs : List α) :
    sweep body xs.length 0 xs =
      (xs.filterMap fun x => (body x).1, xs.flatMap fun x => (body x).2) :=
  sweep_append [] (Nat.le_refl _)

/-! ## Keys -/

/-- What an element with a key of its own puts out. -/
theorem flatMap_of_key {key : α → κ} {f : α → List γ} {xs : List α} {x : α}
    (hnodup : (xs.map key).Nodup) (hx : x ∈ xs)
    (h : ∀ y ∈ xs, key y ≠ key x → f y = []) : xs.flatMap f = f x := by
  induction xs with
  | nil => cases hx
  | cons y ys ih =>
      obtain ⟨hy, hys⟩ := List.nodup_cons.mp hnodup
      have hrest : ∀ z ∈ ys, key z ≠ key x → f z = [] := fun z hz =>
        h z (List.mem_cons_of_mem _ hz)
      rw [List.flatMap_cons]
      rcases List.mem_cons.mp hx with rfl | hx
      · have hnil : ys.flatMap f = [] := by
          refine List.flatMap_eq_nil_iff.mpr fun z hz => hrest z hz fun heq => hy ?_
          rw [← heq]
          exact List.mem_map_of_mem hz
        rw [hnil, List.append_nil]
      · have hne : key y ≠ key x := by
          intro heq
          exact hy (heq ▸ List.mem_map_of_mem hx)
        rw [h y List.mem_cons_self hne, ih hys hx hrest, List.nil_append]

/-- What is left of the elements keeps their keys. -/
theorem map_filterMap_sublist {key : α → κ} {f : α → Option α} {xs : List α}
    (h : ∀ x ∈ xs, ∀ y, f x = some y → key y = key x) :
    List.Sublist ((xs.filterMap f).map key) (xs.map key) := by
  induction xs with
  | nil => exact List.Sublist.slnil
  | cons x xs ih =>
      have hrest := ih fun z hz => h z (List.mem_cons_of_mem _ hz)
      rw [List.filterMap_cons]
      cases hf : f x with
      | none => exact hrest.cons _
      | some y =>
          rw [List.map_cons, List.map_cons, h x List.mem_cons_self y hf]
          exact hrest.cons_cons _

end Sweep
