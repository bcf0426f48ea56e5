import Mathlib.Data.Fintype.Card
import Mathlib.Data.Fintype.Fin
import Mathlib.Data.List.AList

/-!
# Tables of slots

A table has a fixed number of slots, each of which may hold a value under a key.  An entry is put
into the slot that has its key, or else into the first that is free.

Such a table is a finite map with as many keys as it has slots: it has every key once
(`Represents`), looks up what the map has (`Represents.lookup_eq`), and refuses an entry exactly
where the map has no room for its key (`Represents.put`).
-/

namespace SlotTable

variable {n : Nat} {K V : Type} [DecidableEq K]

/-- A slot with a key and a value, or a free one. -/
abbrev Slots (n : Nat) (K V : Type) := Fin n → Option (K × V)

/-- The first slot that has the key. -/
def find (t : Slots n K V) (k : K) : Option (Fin n) :=
  (List.finRange n).find? fun i => (t i).any (·.1 == k)

/-- The first slot that is free. -/
def free (t : Slots n K V) : Option (Fin n) := (List.finRange n).find? fun i => (t i).isNone

/-- What the table has under a key. -/
def lookup (t : Slots n K V) (k : K) : Option V := (find t k).bind fun i => (t i).map Prod.snd

/-- The table with an entry, if it has a slot for it. -/
def put (t : Slots n K V) (k : K) (v : V) : Option (Slots n K V) :=
  match find t k with
  | some i => some (Function.update t i (some (k, v)))
  | none => (free t).map fun i => Function.update t i (some (k, v))

/-- The table has the entries of a map. -/
structure Represents (t : Slots n K V) (m : AList fun _ : K => V) : Prop where
  bound : ∀ {i k v}, t i = some (k, v) → m.lookup k = some v
  distinct : ∀ {i j k v w}, t i = some (k, v) → t j = some (k, w) → i = j
  held : ∀ {k v}, m.lookup k = some v → ∃ i, t i = some (k, v)

/-- The empty table. -/
theorem represents_empty : Represents (fun _ : Fin n => (none : Option (K × V))) ∅ where
  bound := nofun
  distinct := nofun
  held := nofun

variable {t : Slots n K V} {m : AList fun _ : K => V} {k : K} {v : V}

theorem find_eq_some {i : Fin n} (h : find t k = some i) : ∃ v, t i = some (k, v) := by
  have hany := List.find?_some h
  rw [Option.any_eq_true] at hany
  obtain ⟨⟨key, w⟩, hslot, hkey⟩ := hany
  rw [beq_iff_eq] at hkey
  exact ⟨w, by rw [hslot, ← hkey]⟩

theorem find_eq_none (h : find t k = none) (i : Fin n) (v : V) : t i ≠ some (k, v) := by
  intro hslot
  have hnot := List.find?_eq_none.mp h i (List.mem_finRange i)
  rw [hslot] at hnot
  simp at hnot

omit [DecidableEq K] in
theorem free_eq_some {i : Fin n} (h : free t = some i) : t i = none := by
  have hnone := List.find?_some (p := fun i => (t i).isNone) h
  exact Option.isNone_iff_eq_none.mp hnone

omit [DecidableEq K] in
theorem free_eq_none (h : free t = none) (i : Fin n) : ∃ k v, t i = some (k, v) := by
  have hnot := List.find?_eq_none.mp h i (List.mem_finRange i)
  cases hslot : t i with
  | none =>
      rw [hslot] at hnot
      exact absurd rfl hnot
  | some entry => exact ⟨entry.1, entry.2, rfl⟩

namespace Represents

theorem mem_of_slot (h : Represents t m) {i : Fin n} (hslot : t i = some (k, v)) : k ∈ m := by
  rw [← AList.lookup_isSome, h.bound hslot]
  rfl

/-- The key is found exactly where the map has it. -/
theorem find_isSome (h : Represents t m) (k : K) : (find t k).isSome ↔ k ∈ m := by
  constructor
  · intro hsome
    obtain ⟨i, hi⟩ := Option.isSome_iff_exists.mp hsome
    obtain ⟨v, hslot⟩ := find_eq_some hi
    exact h.mem_of_slot hslot
  · intro hmem
    obtain ⟨v, hv⟩ := Option.isSome_iff_exists.mp (AList.lookup_isSome.mpr hmem)
    obtain ⟨i, hslot⟩ := h.held hv
    cases hfind : find t k with
    | none => exact absurd hslot (find_eq_none hfind i v)
    | some j => rfl

/-- A look-up in the table is one in the map. -/
theorem lookup_eq (h : Represents t m) (k : K) : lookup t k = m.lookup k := by
  rw [lookup]
  cases hfind : find t k with
  | none =>
      have hnot : k ∉ m := by
        rw [← h.find_isSome, hfind]
        exact Bool.false_ne_true
      rw [AList.lookup_eq_none.mpr hnot]
      rfl
  | some i =>
      obtain ⟨v, hslot⟩ := find_eq_some hfind
      rw [Option.bind_some, hslot, h.bound hslot]
      rfl

/-- The keys of the map are those of the slots, one for one. -/
theorem length_keys (h : Represents t m) :
    m.keys.length = (Finset.univ.filter fun i => (t i).isSome).card := by
  rw [← List.toFinset_card_of_nodup m.keys_nodup]
  symm
  refine Finset.card_bij (fun i hi => ((t i).get (Finset.mem_filter.mp hi).2).1) ?_ ?_ ?_
  · intro i hi
    obtain ⟨⟨k, v⟩, hslot⟩ := Option.isSome_iff_exists.mp (Finset.mem_filter.mp hi).2
    rw [List.mem_toFinset, ← AList.mem_keys]
    simp only [hslot, Option.get_some]
    exact h.mem_of_slot hslot
  · intro i hi j hj heq
    obtain ⟨⟨k, v⟩, hslot⟩ := Option.isSome_iff_exists.mp (Finset.mem_filter.mp hi).2
    obtain ⟨⟨l, w⟩, hslot'⟩ := Option.isSome_iff_exists.mp (Finset.mem_filter.mp hj).2
    simp only [hslot, hslot', Option.get_some] at heq
    exact h.distinct hslot (heq ▸ hslot')
  · intro k hk
    rw [List.mem_toFinset, ← AList.mem_keys] at hk
    obtain ⟨v, hv⟩ := Option.isSome_iff_exists.mp (AList.lookup_isSome.mpr hk)
    obtain ⟨i, hslot⟩ := h.held hv
    refine ⟨i, Finset.mem_filter.mpr ⟨Finset.mem_univ i, by rw [hslot]; rfl⟩, ?_⟩
    simp only [hslot, Option.get_some]

/-- A slot is free exactly where the map has fewer keys than there are slots. -/
theorem free_isSome (h : Represents t m) : (free t).isSome ↔ m.keys.length < n := by
  rw [h.length_keys]
  constructor
  · intro hsome
    obtain ⟨i, hi⟩ := Option.isSome_iff_exists.mp hsome
    have hlt : (Finset.univ.filter fun i => (t i).isSome).card <
        (Finset.univ : Finset (Fin n)).card := by
      refine Finset.card_lt_card (Finset.filter_ssubset.mpr ⟨i, Finset.mem_univ i, ?_⟩)
      rw [free_eq_some hi]
      exact Bool.false_ne_true
    rwa [Finset.card_univ, Fintype.card_fin] at hlt
  · intro hlt
    cases hfree : free t with
    | some i => rfl
    | none =>
        have hall : (Finset.univ.filter fun i => (t i).isSome) = Finset.univ := by
          refine Finset.filter_true_of_mem fun i _ => ?_
          obtain ⟨k, v, hslot⟩ := free_eq_none hfree i
          rw [hslot]
          rfl
        rw [hall, Finset.card_univ, Fintype.card_fin] at hlt
        exact absurd hlt (Nat.lt_irrefl n)

/-- An entry in a slot whose key, if it has one, is that of the entry. -/
theorem update (h : Represents t m) {i : Fin n} (hslot : ∀ l w, t i = some (l, w) → l = k)
    (hother : ∀ j w, j ≠ i → t j ≠ some (k, w)) (v : V) :
    Represents (Function.update t i (some (k, v))) (m.insert k v) := by
  refine ⟨fun {j l w} hj => ?_, fun {j j' l w w'} hj hj' => ?_, fun {l w} hl => ?_⟩
  · by_cases heq : j = i
    · subst heq
      rw [Function.update_self] at hj
      cases hj
      exact AList.lookup_insert m
    · rw [Function.update_of_ne heq] at hj
      have hne : l ≠ k := fun hkey => hother j w heq (hkey ▸ hj)
      rw [AList.lookup_insert_ne hne]
      exact h.bound hj
  · by_cases heq : j = i
    · by_cases heq' : j' = i
      · exact heq.trans heq'.symm
      · subst heq
        rw [Function.update_self] at hj
        rw [Function.update_of_ne heq'] at hj'
        cases hj
        exact absurd hj' (hother j' w' heq')
    · rw [Function.update_of_ne heq] at hj
      by_cases heq' : j' = i
      · subst heq'
        rw [Function.update_self] at hj'
        cases hj'
        exact absurd hj (hother j w heq)
      · rw [Function.update_of_ne heq'] at hj'
        exact h.distinct hj hj'
  · by_cases hkey : l = k
    · subst hkey
      rw [AList.lookup_insert] at hl
      cases hl
      exact ⟨i, Function.update_self _ _ _⟩
    · rw [AList.lookup_insert_ne hkey] at hl
      obtain ⟨j, hj⟩ := h.held hl
      have hne : j ≠ i := fun heq => hkey (hslot l w (heq ▸ hj))
      exact ⟨j, by rw [Function.update_of_ne hne, hj]⟩

/-- An entry is put where the map has its key, or room for it, and nowhere else. -/
theorem put (h : Represents t m) (k : K) (v : V) :
    (k ∈ m ∨ m.keys.length < n) ∧
        (∃ u, SlotTable.put t k v = some u ∧ Represents u (m.insert k v)) ∨
      ¬ (k ∈ m ∨ m.keys.length < n) ∧ SlotTable.put t k v = none := by
  rw [← h.find_isSome, ← h.free_isSome, SlotTable.put]
  cases hfind : find t k with
  | some i =>
      obtain ⟨w, hslot⟩ := find_eq_some hfind
      refine Or.inl ⟨Or.inl rfl, _, rfl, h.update (fun l w' hl => ?_) (fun j w' hne hj => ?_) v⟩
      · rw [hslot] at hl
        cases hl
        rfl
      · exact hne (h.distinct hj hslot)
  | none =>
      cases hfree : free t with
      | some i =>
          have hnone := free_eq_some hfree
          refine Or.inl ⟨Or.inr rfl, _, rfl, h.update (fun l w' hl => ?_) (fun j w' _ => ?_) v⟩
          · rw [hnone] at hl
            cases hl
          · exact find_eq_none hfind j w'
      | none => exact Or.inr ⟨by simp, rfl⟩

end Represents

end SlotTable
