import Mathlib.Logic.Function.Basic
import Mathlib.Tactic.Common

/-!
# Mirrors

A sender keeps a cache of what it has sent, and a device shows what it has received.  Between them
packets are in flight, in the order in which they were sent.

Where a packet shows its value and disturbs nothing else (`Link`), the device will show the cache
once it has received what is in flight (`Agrees`).  This holds of an empty cache, whatever the
device shows and whatever is in flight, and it is kept by what either side does (`Agrees.put`,
`Agrees.deliver`).  A value that is offered to a sender which leaves out what is close to its cache
is up to date from then on (`UpToDate.offer`).
-/

namespace Mirror

variable {δ κ γ π : Type}

/-- A device, what it shows, and packets that make it show something. -/
structure Link (δ κ γ π : Type) where
  apply : δ → π → δ
  packet : κ → γ → π
  Shows : δ → κ → γ → Prop
  shows_self : ∀ d k v, Shows (apply d (packet k v)) k v
  shows_ne : ∀ d k v k' v', k' ≠ k → Shows d k' v' → Shows (apply d (packet k v)) k' v'

/-- The sender's cache, the packets in flight, the oldest first, and the device. -/
structure State (δ κ γ π : Type) where
  cache : κ → Option γ
  inFlight : List π
  device : δ

namespace Link

variable (L : Link δ κ γ π)

/-- A packet that leaves alone what the device shows. -/
def Foreign (p : π) : Prop := ∀ d k v, L.Shows d k v → L.Shows (L.apply d p) k v

/-- The device will show the cache, once it has received what is in flight. -/
def Agrees (s : State δ κ γ π) : Prop :=
  ∀ k v, s.cache k = some v → L.Shows (s.inFlight.foldl L.apply s.device) k v

variable {L}

theorem Agrees.of_cleared {s : State δ κ γ π} (h : ∀ k, s.cache k = none) : L.Agrees s := by
  intro k v hk
  rw [h k] at hk
  cases hk

/-- A foreign packet may be sent as well. -/
theorem Agrees.foreign {s : State δ κ γ π} (h : L.Agrees s) {p : π} (hp : L.Foreign p) :
    L.Agrees { s with inFlight := s.inFlight ++ [p] } := by
  intro k v hk
  rw [List.foldl_append]
  exact hp _ k v (h k v hk)

/-- The device receives the oldest packet. -/
theorem Agrees.deliver {s : State δ κ γ π} (h : L.Agrees s) {p : π} {ps : List π}
    (hp : s.inFlight = p :: ps) :
    L.Agrees { s with inFlight := ps, device := L.apply s.device p } := by
  intro k v hk
  have hshows := h k v hk
  rw [hp] at hshows
  exact hshows

theorem Agrees.drained {s : State δ κ γ π} (h : L.Agrees s) (hdrained : s.inFlight = []) {k : κ}
    {v : γ} (hk : s.cache k = some v) : L.Shows s.device k v := by
  have hshows := h k v hk
  rw [hdrained] at hshows
  exact hshows

/-! ## The sender -/

variable [DecidableEq κ]

variable (L) in
/-- The sender takes a value to its cache and sends it. -/
def put (s : State δ κ γ π) (k : κ) (v : γ) : State δ κ γ π :=
  { s with
    cache := Function.update s.cache k (some v)
    inFlight := s.inFlight ++ [L.packet k v] }

theorem Agrees.put {s : State δ κ γ π} (h : L.Agrees s) (k : κ) (v : γ) :
    L.Agrees (L.put s k v) := by
  intro k' v' hk'
  rw [Link.put, List.foldl_append]
  by_cases heq : k' = k
  · subst heq
    have hv : v = v' := by
      simpa [Link.put] using hk'
    subst hv
    exact L.shows_self _ _ _
  · exact L.shows_ne _ _ _ _ _ heq (h k' v' ((Function.update_of_ne heq _ _).symm.trans hk'))

variable (L) in
/-- The sender leaves out a value that is close to its cache. -/
def offer (close : Option γ → γ → Bool) (s : State δ κ γ π) (k : κ) (v : γ) : State δ κ γ π :=
  if close (s.cache k) v then s else L.put s k v

theorem Agrees.offer {close : Option γ → γ → Bool} {s : State δ κ γ π} (h : L.Agrees s) (k : κ)
    (v : γ) : L.Agrees (L.offer close s k v) := by
  rw [Link.offer]
  split
  · exact h
  · exact h.put k v

/-- The cache after a value is offered. -/
theorem cache_offer (close : Option γ → γ → Bool) (s : State δ κ γ π) (k : κ) (v : γ) :
    (L.offer close s k v).cache =
      if close (s.cache k) v then s.cache else Function.update s.cache k (some v) := by
  rw [Link.offer]
  split <;> rfl

/-- What the cache has is close to the value. -/
def UpToDate (close : Option γ → γ → Bool) (s : State δ κ γ π) (k : κ) (v : γ) : Prop :=
  ∃ w, s.cache k = some w ∧ close (some w) v = true

/-- A value that has been offered is up to date, as are those that were. -/
theorem UpToDate.offer {close : Option γ → γ → Bool} (hnone : ∀ v, close none v = false)
    (hself : ∀ v, close (some v) v = true) {s : State δ κ γ π} {k k' : κ} {v v' : γ}
    (h : k' = k ∧ v' = v ∨ k' ≠ k ∧ UpToDate close s k' v') :
    UpToDate close (L.offer close s k v) k' v' := by
  rw [UpToDate, cache_offer]
  rcases h with ⟨rfl, rfl⟩ | ⟨hne, w, hw, hclose⟩
  · split
    · next hclose =>
      cases hcache : s.cache k' with
      | none =>
          rw [hcache, hnone] at hclose
          cases hclose
      | some w => exact ⟨w, rfl, by rw [← hcache]; exact hclose⟩
    · exact ⟨v', Function.update_self _ _ _, hself v'⟩
  · refine ⟨w, ?_, hclose⟩
    split
    · exact hw
    · rw [Function.update_of_ne hne, hw]

end Link

end Mirror
