import Mathlib.Data.Fintype.Card
import Mathlib.Data.List.Nodup
import Mathlib.Tactic.Common

/-!
# Loops on fuel

A loop whose state has finitely many values passes each of them once at most, or it never ends.
So the number of values is fuel enough (`run_of_injective`): without an end by then there is none.
-/

namespace Loop

variable {σ : Type}

/-- The states that a loop passes, the last one included; none where the fuel is out before. -/
def run (next : σ → Option σ) : Nat → σ → Option (List σ)
  | 0, _ => none
  | fuel + 1, s =>
      match next s with
      | none => some [s]
      | some s' => (run next fuel s').map (s :: ·)

variable {next : σ → Option σ} {n m : Nat} {s s' : σ} {l l' : List σ}

theorem run_last (h : next s = none) : run next (n + 1) s = some [s] := by
  simp [run, h]

theorem run_next (h : next s = some s') :
    run next (n + 1) s = (run next n s').map (s :: ·) := by
  simp [run, h]

/-- A loop whose states are known. -/
theorem run_of_steps {f : Nat → σ} {N : Nat} (hnext : ∀ k < N, next (f k) = some (f (k + 1)))
    (hlast : next (f N) = none) (hn : N < n) :
    run next n (f 0) = some ((List.range (N + 1)).map f) := by
  induction N generalizing f n with
  | zero =>
      obtain ⟨n, rfl⟩ := Nat.exists_eq_add_of_le' hn
      exact run_last hlast
  | succ N ih =>
      obtain ⟨n, rfl⟩ := Nat.exists_eq_add_of_le' (Nat.zero_lt_of_lt hn)
      have hrest : run next n (f 1) = some ((List.range (N + 1)).map fun k => f (k + 1)) :=
        ih (f := fun k => f (k + 1)) (fun k hk => hnext (k + 1) (Nat.succ_lt_succ hk)) hlast
          (Nat.lt_of_succ_lt_succ hn)
      rw [run_next (hnext 0 (Nat.succ_pos N)), hrest, Option.map_some,
        List.range_succ_eq_map (n := N + 1), List.map_cons, List.map_map]
      rfl

/-- A loop that keeps to what makes it go on does not end. -/
theorem run_eq_none {inv : σ → Prop} (hstep : ∀ s, inv s → ∃ s', next s = some s' ∧ inv s')
    (h : inv s) : run next n s = none := by
  induction n generalizing s with
  | zero => rfl
  | succ n ih =>
      obtain ⟨s', hs', hinv⟩ := hstep s h
      rw [run_next hs', ih hinv, Option.map_none]

/-- A loop that ends has more fuel than it needs, or just enough. -/
theorem run_of_length_le (h : run next m s = some l) (hn : l.length ≤ n) :
    run next n s = some l := by
  induction m generalizing s l n with
  | zero => cases h
  | succ m ih =>
      cases hs : next s with
      | none =>
          rw [run_last hs] at h
          cases h
          obtain ⟨n, rfl⟩ := Nat.exists_eq_add_of_le' hn
          exact run_last hs
      | some s' =>
          rw [run_next hs] at h
          obtain ⟨rest, hrest, rfl⟩ := Option.map_eq_some_iff.mp h
          obtain ⟨n, rfl⟩ := Nat.exists_eq_add_of_le' (Nat.le_trans (Nat.succ_pos _) hn)
          rw [run_next hs, ih hrest (Nat.le_of_succ_le_succ hn)]
          rfl

theorem run_unique (h : run next n s = some l) (h' : run next m s = some l') : l = l' := by
  have hmax := run_of_length_le h (Nat.le_max_left _ l'.length)
  rw [run_of_length_le h' (Nat.le_max_right l.length _)] at hmax
  exact (Option.some.inj hmax).symm

/-- From every state that the loop passes it ends in as many passes as are left. -/
theorem run_of_mem (h : run next n s = some l) (hs' : s' ∈ l) :
    ∃ m l', run next m s' = some l' ∧ l'.length ≤ l.length := by
  induction n generalizing s l with
  | zero => cases h
  | succ n ih =>
      cases hs : next s with
      | none =>
          rw [run_last hs] at h
          cases h
          obtain rfl := List.mem_singleton.mp hs'
          exact ⟨1, [s'], run_last hs, Nat.le_refl _⟩
      | some t =>
          have hrun := h
          rw [run_next hs] at h
          obtain ⟨rest, hrest, rfl⟩ := Option.map_eq_some_iff.mp h
          rcases List.mem_cons.mp hs' with rfl | hmem
          · exact ⟨n + 1, _, hrun, Nat.le_refl _⟩
          · obtain ⟨m, l', hm, hlen⟩ := ih hrest hmem
            exact ⟨m, l', hm, Nat.le_succ_of_le hlen⟩

/-- A loop that ends passes no state twice. -/
theorem nodup_of_run (h : run next n s = some l) : l.Nodup := by
  induction n generalizing s l with
  | zero => cases h
  | succ n ih =>
      cases hs : next s with
      | none =>
          rw [run_last hs] at h
          cases h
          exact List.nodup_singleton s
      | some t =>
          have hrun := h
          rw [run_next hs] at h
          obtain ⟨rest, hrest, rfl⟩ := Option.map_eq_some_iff.mp h
          refine List.nodup_cons.mpr ⟨fun hmem => ?_, ih hrest⟩
          -- from there the loop would go on as it does from here, and end sooner
          obtain ⟨m, l', hm, hlen⟩ := run_of_mem hrest hmem
          rw [run_unique hm hrun, List.length_cons] at hlen
          omega

/-- With as much fuel as there are states, a loop that ends at all ends. -/
theorem run_of_injective {N : Nat} {code : σ → Fin N} (hcode : Function.Injective code)
    (hn : N ≤ n) (h : run next m s = some l) : run next n s = some l := by
  have hlen : l.length ≤ N := by
    have hcard := ((nodup_of_run h).map hcode).length_le_card
    rwa [List.length_map, Fintype.card_fin] at hcard
  exact run_of_length_le h (hlen.trans hn)

/-- A loop that brings a measure down ends. -/
theorem exists_run_of_measure (size : σ → Nat)
    (hsize : ∀ s s', next s = some s' → size s' < size s) (hn : size s < n) :
    ∃ l, run next n s = some l := by
  induction n generalizing s with
  | zero => exact (Nat.not_lt_zero _ hn).elim
  | succ n ih =>
      cases hs : next s with
      | none => exact ⟨[s], run_last hs⟩
      | some s' =>
          obtain ⟨l, hl⟩ := ih (Nat.lt_of_lt_of_le (hsize s s' hs) (Nat.le_of_lt_succ hn))
          exact ⟨s :: l, by rw [run_next hs, hl, Option.map_some]⟩

end Loop
