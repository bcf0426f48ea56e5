import Mathlib.Data.Nat.Init
import Mathlib.Logic.Function.Basic
import Mathlib.Tactic.Common

/-!
# Who frees an allocation

Allocations are numbered as they are made.  Holders own some of them.  Each live allocation has one
owner, and nothing that was freed has one (`Owned`); so once nobody owns anything, each allocation
was freed exactly once (`Owned.freed_once`).
-/

/-- What was allocated, and how often each allocation was freed. -/
structure Allocations where
  next : Nat
  frees : Nat → Nat

namespace Allocations

/-- Nothing yet. -/
def none : Allocations := ⟨0, fun _ => 0⟩

/-- Allocate; the number is `next`. -/
def alloc (h : Allocations) : Allocations := { h with next := h.next + 1 }

def free (h : Allocations) (id : Nat) : Allocations :=
  { h with frees := Function.update h.frees id (h.frees id + 1) }

/-- Allocated and not yet freed. -/
def Live (h : Allocations) (id : Nat) : Prop := id < h.next ∧ h.frees id = 0

variable {ι : Type} {h : Allocations} {owner : ι → Option Nat} {i : ι} {id id' : Nat}

theorem not_live_free : ¬ (h.free id).Live id := by
  rintro ⟨-, hzero⟩
  simp [free] at hzero

theorem live_free_of_ne (hne : id' ≠ id) : (h.free id).Live id' ↔ h.Live id' := by
  simp only [Live, free, Function.update_of_ne hne]

theorem live_alloc : h.alloc.Live id ↔ h.Live id ∨ id = h.next ∧ h.frees id = 0 := by
  simp only [Live, alloc]
  omega

/-- Every live allocation has one owner. -/
structure Owned (h : Allocations) (owner : ι → Option Nat) : Prop where
  live : ∀ i id, owner i = some id → h.Live id
  unique : ∀ i j id, owner i = some id → owner j = some id → i = j
  covered : ∀ id, h.Live id → ∃ i, owner i = some id
  once : ∀ id, id < h.next → h.frees id ≤ 1
  beyond : ∀ id, h.next ≤ id → h.frees id = 0

theorem Owned.none : (none).Owned (fun _ : ι => Option.none) where
  live := fun _ _ howner => nomatch howner
  unique := fun _ _ _ howner => nomatch howner
  covered := fun _ hlive => absurd hlive.1 (Nat.not_lt_zero _)
  once := fun _ _ => Nat.zero_le 1
  beyond := fun _ _ => rfl

/-- Once nobody owns anything, all was freed, and only once. -/
theorem Owned.freed_once (hown : h.Owned owner) (hnone : ∀ i, owner i = Option.none)
    (hid : id < h.next) : h.frees id = 1 := by
  have honce := hown.once id hid
  have hfreed : h.frees id ≠ 0 := by
    intro hzero
    obtain ⟨i, howner⟩ := hown.covered id ⟨hid, hzero⟩
    rw [hnone i] at howner
    cases howner
  omega

variable [DecidableEq ι]

/-- An owner frees what it has. -/
theorem Owned.free (hown : h.Owned owner) (hi : owner i = some id) :
    (h.free id).Owned (Function.update owner i Option.none) := by
  have hlive := hown.live i id hi
  have hother : ∀ j id', Function.update owner i Option.none j = some id' →
      owner j = some id' ∧ id' ≠ id := by
    intro j id' howner
    rcases eq_or_ne j i with rfl | hji
    · rw [Function.update_self] at howner
      cases howner
    · rw [Function.update_of_ne hji] at howner
      refine ⟨howner, ?_⟩
      rintro rfl
      exact hji (hown.unique j i id' howner hi)
  constructor
  · intro j id' howner
    obtain ⟨hj, hne⟩ := hother j id' howner
    exact (live_free_of_ne hne).mpr (hown.live j id' hj)
  · intro j k id' hj hk
    exact hown.unique j k id' (hother j id' hj).1 (hother k id' hk).1
  · intro id' hlive'
    rcases eq_or_ne id' id with rfl | hne
    · exact (not_live_free hlive').elim
    · obtain ⟨j, hj⟩ := hown.covered id' ((live_free_of_ne hne).mp hlive')
      refine ⟨j, ?_⟩
      rw [Function.update_of_ne, hj]
      rintro rfl
      exact hne (Option.some.inj (hj.symm.trans hi))
  · intro id' hlt
    rcases eq_or_ne id' id with rfl | hne
    · simp [Allocations.free, hlive.2]
    · simpa [Allocations.free, Function.update_of_ne hne] using hown.once id' hlt
  · intro id' hge
    have hne : id' ≠ id := by
      rintro rfl
      exact absurd hlive.1 (Nat.not_lt.mpr hge)
    simpa [Allocations.free, Function.update_of_ne hne] using hown.beyond id' hge

/-- A holder that has nothing gets a new allocation. -/
theorem Owned.alloc (hown : h.Owned owner) (hi : owner i = Option.none) :
    h.alloc.Owned (Function.update owner i (some h.next)) := by
  have hnew : ∀ j, owner j ≠ some h.next := by
    intro j hj
    exact absurd (hown.live j _ hj).1 (Nat.lt_irrefl _)
  have hzero := hown.beyond h.next (Nat.le_refl _)
  constructor
  · intro j id howner
    rw [live_alloc]
    rcases eq_or_ne j i with rfl | hji
    · rw [Function.update_self] at howner
      obtain rfl := Option.some.inj howner
      exact Or.inr ⟨rfl, hzero⟩
    · rw [Function.update_of_ne hji] at howner
      exact Or.inl (hown.live j id howner)
  · intro j k id hj hk
    rcases eq_or_ne j i with rfl | hji
    · rw [Function.update_self] at hj
      obtain rfl := Option.some.inj hj
      rcases eq_or_ne k j with rfl | hkj
      · rfl
      · rw [Function.update_of_ne hkj] at hk
        exact (hnew k hk).elim
    · rw [Function.update_of_ne hji] at hj
      rcases eq_or_ne k i with rfl | hki
      · rw [Function.update_self] at hk
        obtain rfl := Option.some.inj hk
        exact (hnew j hj).elim
      · rw [Function.update_of_ne hki] at hk
        exact hown.unique j k id hj hk
  · intro id hlive
    rw [live_alloc] at hlive
    rcases hlive with hlive | ⟨rfl, -⟩
    · obtain ⟨j, hj⟩ := hown.covered id hlive
      refine ⟨j, ?_⟩
      rw [Function.update_of_ne, hj]
      rintro rfl
      rw [hi] at hj
      cases hj
    · exact ⟨i, Function.update_self ..⟩
  · intro id hlt
    rcases Nat.lt_or_ge id h.next with hlt' | hge
    · exact hown.once id hlt'
    · show h.frees id ≤ 1
      rw [hown.beyond id hge]
      exact Nat.zero_le 1
  · intro id hge
    exact hown.beyond id (Nat.le_of_succ_le hge)

end Allocations
