import Mathlib.Data.Fintype.Card
import MFoES.Northbridge.I2cBus

/-!
# Owners of the transaction slots

Every slot is in one `Place`: free, with one caller, under way for a caller that has given up,
or about to be freed by the worker.  Its owner's `Hand` says how far the command is.  A step of
a caller touches one slot, which no other caller holds (`Moves`), and leaves the others alone
(`Same`).

The worker gives the semaphore behind its critical section, and a caller that has timed out may
have freed the slot by then.  A slot keeps one owner as long as such a give does not reach the
next caller after that caller has dropped stale gives (`GivenInTime`).
-/

namespace MFoES.Northbridge.I2cBus

open Transition

/-- Before the command is queued, with a slot. -/
def Pc.Early : Pc → Prop
  | .reset _ => True
  | .drain _ => True
  | .send _ => True
  | .refused _ => True
  | _ => False

namespace Bus

variable {s t : Bus} {i : Slot} {queueDepth : Nat}

/-! ## What holds a slot -/

/-- A caller holds a slot. -/
def Holds (s : Bus) (k : Nat) (i : Slot) : Prop := (s.callers k).pc.slot = some i

/-- The command that the worker executes for a slot. -/
def running (s : Bus) (i : Slot) : List I2cCmd :=
  match s.worker with
  | .execute cmd => if cmd.slot = some i then [cmd] else []
  | .store cmd slot _ => if slot = i then [cmd] else []
  | .critical cmd slot => if slot = i then [cmd] else []
  | _ => []

/-- The commands under way for a slot. -/
def flight (s : Bus) (i : Slot) : List I2cCmd :=
  s.running i ++ s.cmdQueue.filter fun cmd => cmd.slot = some i

/-- A slot is in flight and abandoned. -/
def Adrift (s : Bus) (i : Slot) : Prop :=
  ((s.txn i).abandoned = true ∧ s.flight i ≠ []) ∨ s.worker = .release i

/-- A slot is free, or one caller owns it, or it is in flight and abandoned, and no two of
these at once. -/
def OneOwner (s : Bus) (i : Slot) : Prop :=
  (s.freeSlots.count i = 1 ∧ (∀ k, ¬ s.Holds k i) ∧ ¬ s.Adrift i) ∨
    (s.freeSlots.count i = 0 ∧ (∃! k, s.Holds k i) ∧ ¬ s.Adrift i) ∨
    (s.freeSlots.count i = 0 ∧ (∀ k, ¬ s.Holds k i) ∧ s.Adrift i)

/-- The result and the bytes are what came of the call's own command. -/
def Own (s : Bus) (call rxLen : Nat) (result : Int) (rx : List UInt8) : Prop :=
  ∃ e ∈ s.executed, e.call = some call ∧ e.result = result ∧
    rx = if 0 ≤ result then e.rx.toList.take rxLen else []

/-- A give comes while its own call holds the slot, or no other call waits there or has
dropped the stale gives already. -/
def GivenInTime (s : Bus) : Event → Prop
  | .worker _ => ∀ slot call, s.worker = .give slot call → ∀ k, s.Holds k slot →
      call ≠ some (s.callers k).call →
        (s.callers k).pc ≠ .send slot ∧ (s.callers k).pc ≠ .waiting slot
  | _ => True

/-! ## Places -/

/-- A caller has a slot for itself. -/
structure Held (s : Bus) (i : Slot) (k : Nat) : Prop where
  count : s.freeSlots.count i = 0
  holds : s.Holds k i
  unique : ∀ k', s.Holds k' i → k' = k
  calm : s.worker ≠ .release i

/-- The slot has what came of a command. -/
def Filled (s : Bus) (i : Slot) (call : Option Nat) : Prop :=
  ∃ e ∈ s.executed, e.call = call ∧ e.result = (s.txn i).result ∧ e.rx = (s.txn i).rx

/-- How far a caller and its command are. -/
inductive Hand (s : Bus) (i : Slot) (k : Nat) : Prop
  /-- The command is not queued. -/
  | early (flight : s.flight i = []) (pc : (s.callers k).pc.Early)
      (cleared : (s.callers k).pc ≠ .reset i →
        (s.txn i).completed = false ∧ (s.txn i).abandoned = false)
  /-- The command is under way, and nobody has given up. -/
  | queued (cmd : I2cCmd) (flight : s.flight i = [cmd])
      (call : cmd.call = some (s.callers k).call)
      (pc : (s.callers k).pc = .waiting i ∨ (s.callers k).pc = .race i)
      (completed : (s.txn i).completed = false) (abandoned : (s.txn i).abandoned = false)
  /-- The worker is done with it. -/
  | finished (flight : s.flight i = [])
      (pc : (s.callers k).pc = .waiting i ∨ (s.callers k).pc = .race i ∨
        (s.callers k).pc = .late i ∨ (s.callers k).pc = .read i)
      (completed : (s.txn i).completed = true) (filled : s.Filled i (some (s.callers k).call))
  /-- The result is read. -/
  | leaving (result : Int) (rx : List UInt8) (flight : s.flight i = [])
      (pc : (s.callers k).pc = .release i result rx) (completed : (s.txn i).completed = true)
      (own : s.Own (s.callers k).call (s.callers k).rxLen result rx)

/-- Where a slot is. -/
inductive Place (s : Bus) (i : Slot) : Prop
  | free (count : s.freeSlots.count i = 1) (vacant : ∀ k, ¬ s.Holds k i)
      (flight : s.flight i = []) (calm : s.worker ≠ .release i)
  | held (k : Nat) (held : s.Held i k) (hand : s.Hand i k)
  | adrift (cmd : I2cCmd) (count : s.freeSlots.count i = 0) (vacant : ∀ k, ¬ s.Holds k i)
      (flight : s.flight i = [cmd]) (abandoned : (s.txn i).abandoned = true)
      (calm : s.worker ≠ .release i)
  | releasing (count : s.freeSlots.count i = 0) (vacant : ∀ k, ¬ s.Holds k i)
      (flight : s.flight i = []) (worker : s.worker = .release i)

/-- Every place has one owner. -/
theorem Place.oneOwner (h : s.Place i) : s.OneOwner i := by
  cases h with
  | free count vacant flight calm =>
      refine Or.inl ⟨count, vacant, ?_⟩
      rintro (⟨-, hflight⟩ | hrelease)
      · exact hflight flight
      · exact calm hrelease
  | held k held hand =>
      refine Or.inr (Or.inl ⟨held.count, ⟨k, held.holds, held.unique⟩, ?_⟩)
      rintro (⟨habandoned, hflight⟩ | hrelease)
      · cases hand with
        | early flight pc cleared => exact hflight flight
        | queued cmd flight call pc completed abandoned =>
            rw [abandoned] at habandoned
            cases habandoned
        | finished flight pc completed filled => exact hflight flight
        | leaving result rx flight pc completed own => exact hflight flight
      · exact held.calm hrelease
  | adrift cmd count vacant flight abandoned calm =>
      exact Or.inr (Or.inr ⟨count, vacant, Or.inl ⟨abandoned, by simp [flight]⟩⟩)
  | releasing count vacant flight worker => exact Or.inr (Or.inr ⟨count, vacant, Or.inr worker⟩)

/-- The owner of a slot, and how far it is. -/
theorem Place.hand {k : Nat} (h : s.Place i) (hk : s.Holds k i) : s.Held i k ∧ s.Hand i k := by
  cases h with
  | free count vacant flight calm => exact absurd hk (vacant k)
  | held k' held hand =>
      obtain rfl := held.unique k hk
      exact ⟨held, hand⟩
  | adrift cmd count vacant flight abandoned calm => exact absurd hk (vacant k)
  | releasing count vacant flight worker => exact absurd hk (vacant k)

theorem Own.mono {call rxLen : Nat} {result : Int} {rx : List UInt8}
    (h : s.Own call rxLen result rx) (hexec : s.executed ⊆ t.executed) :
    t.Own call rxLen result rx := by
  obtain ⟨e, he, hown⟩ := h
  exact ⟨e, hexec he, hown⟩

/-- What a step leaves alone at a slot. -/
structure Same (s t : Bus) (i : Slot) : Prop where
  count : t.freeSlots.count i = s.freeSlots.count i
  callers : ∀ k, s.Holds k i ∨ t.Holds k i → t.callers k = s.callers k
  flight : t.flight i = s.flight i
  worker : t.worker = .release i ↔ s.worker = .release i
  completed : (t.txn i).completed = (s.txn i).completed
  abandoned : (t.txn i).abandoned = (s.txn i).abandoned
  /-- The worker may write to a slot whose command is under way. -/
  filled : s.flight i = [] → (t.txn i).result = (s.txn i).result ∧ (t.txn i).rx = (s.txn i).rx
  executed : s.executed ⊆ t.executed

theorem Same.holds (h : Same s t i) (k : Nat) : t.Holds k i ↔ s.Holds k i := by
  constructor
  · intro hk
    rw [Holds, ← h.callers k (Or.inr hk)]
    exact hk
  · intro hk
    rw [Holds, h.callers k (Or.inl hk)]
    exact hk

theorem Held.same {k : Nat} (h : s.Held i k) (hst : Same s t i) : t.Held i k where
  count := hst.count.trans h.count
  holds := (hst.holds k).mpr h.holds
  unique k' hk' := h.unique k' ((hst.holds k').mp hk')
  calm hrelease := h.calm (hst.worker.mp hrelease)

theorem Filled.same {call : Option Nat} (h : s.Filled i call) (hst : Same s t i)
    (hflight : s.flight i = []) : t.Filled i call := by
  obtain ⟨e, he, hcall, hresult, hrx⟩ := h
  obtain ⟨hresult', hrx'⟩ := hst.filled hflight
  exact ⟨e, hst.executed he, hcall, hresult.trans hresult'.symm, hrx.trans hrx'.symm⟩

theorem Hand.same {k : Nat} (h : s.Hand i k) (hk : s.Holds k i) (hst : Same s t i) :
    t.Hand i k := by
  have hcaller := hst.callers k (Or.inl hk)
  cases h with
  | early flight pc cleared =>
      exact .early (hst.flight.trans flight) (by rw [hcaller]; exact pc)
        (by rw [hcaller, hst.completed, hst.abandoned]; exact cleared)
  | queued cmd flight call pc completed abandoned =>
      exact .queued cmd (hst.flight.trans flight) (by rw [hcaller]; exact call)
        (by rw [hcaller]; exact pc) (hst.completed.trans completed)
        (hst.abandoned.trans abandoned)
  | finished flight pc completed filled =>
      exact .finished (hst.flight.trans flight) (by rw [hcaller]; exact pc)
        (hst.completed.trans completed) (by rw [hcaller]; exact filled.same hst flight)
  | leaving result rx flight pc completed own =>
      exact .leaving result rx (hst.flight.trans flight) (by rw [hcaller]; exact pc)
        (hst.completed.trans completed) (by rw [hcaller]; exact own.mono hst.executed)

/-- A slot that a step leaves alone stays where it is. -/
theorem Place.same (h : s.Place i) (hst : Same s t i) : t.Place i := by
  have hvacant : (∀ k, ¬ s.Holds k i) → ∀ k, ¬ t.Holds k i :=
    fun hs k hk => hs k ((hst.holds k).mp hk)
  cases h with
  | free count vacant flight calm =>
      exact .free (hst.count.trans count) (hvacant vacant) (hst.flight.trans flight)
        (fun hrelease => calm (hst.worker.mp hrelease))
  | held k held hand => exact .held k (held.same hst) (hand.same held.holds hst)
  | adrift cmd count vacant flight abandoned calm =>
      exact .adrift cmd (hst.count.trans count) (hvacant vacant) (hst.flight.trans flight)
        (hst.abandoned.trans abandoned) (fun hrelease => calm (hst.worker.mp hrelease))
  | releasing count vacant flight worker =>
      exact .releasing (hst.count.trans count) (hvacant vacant) (hst.flight.trans flight)
        (hst.worker.mpr worker)

/-! ## Invariant -/

/-- What the worker knows of the command it has. -/
def Working (s : Bus) : Prop :=
  match s.worker with
  | .store cmd i result => ∃ e ∈ s.executed, e.call = cmd.call ∧ e.result = result ∧
      e.rx = (s.txn i).rx
  | .critical cmd i => s.Filled i cmd.call
  | .give i call => (∀ c, call = some c → c < s.calls) ∧
      ∀ k, (s.callers k).pc ≠ .idle → call = some (s.callers k).call →
        s.Holds k i ∧ (s.txn i).completed = true ∧ ¬ (s.callers k).pc.Early
  | _ => True

/-- The slots, the calls, the semaphores, the worker and what was returned. -/
structure Inv (s : Bus) : Prop where
  place : ∀ i, s.Place i
  fresh : ∀ k, (s.callers k).pc ≠ .idle → (s.callers k).call < s.calls
  distinct : ∀ k k', (s.callers k).pc ≠ .idle → (s.callers k').pc ≠ .idle →
    (s.callers k).call = (s.callers k').call → k = k'
  drained : ∀ k i, (s.callers k).pc = .send i → (s.txn i).done = false
  woken : ∀ k i, (s.callers k).pc = .waiting i → (s.txn i).done = true →
    (s.txn i).completed = true
  working : s.Working
  returned : ∀ r ∈ s.returned, s.Own r.call r.rxLen r.result r.rx

theorem place_init (i : Slot) : Place {} i := by
  refine .free ?_ ?_ rfl ?_
  · exact List.count_eq_one_of_mem (List.nodup_finRange 4) (List.mem_finRange i)
  · intro k hk
    cases hk
  · intro hrelease
    cases hrelease

theorem inv_init : Inv {} where
  place := place_init
  fresh k hk := absurd rfl hk
  distinct k k' hk := absurd rfl hk
  drained k i hk := by cases hk
  woken k i hk := by cases hk
  working := trivial
  returned r hr := by cases hr

/-! ## Steps of the callers -/

/-- A caller goes on and touches one slot, which no other caller holds. -/
structure Moves (s t : Bus) (k : Nat) (i : Slot) (p : Pc) : Prop where
  callers : t.callers = Function.update s.callers k { s.callers k with pc := p }
  active : (s.callers k).pc ≠ .idle
  source : ∀ j, s.Holds k j → j = i
  target : ∀ j, p.slot = some j → j = i
  alone : ∀ k', s.Holds k' i → k' = k
  count : ∀ j, j ≠ i → t.freeSlots.count j = s.freeSlots.count j
  flight : ∀ j, j ≠ i → t.flight j = s.flight j
  txn : ∀ j, j ≠ i → t.txn j = s.txn j
  rx : (t.txn i).rx = (s.txn i).rx
  worker : t.worker = s.worker
  calls : t.calls = s.calls
  executed : t.executed = s.executed

variable {k : Nat} {p : Pc}

theorem Moves.self (h : Moves s t k i p) : t.callers k = { s.callers k with pc := p } := by
  rw [h.callers, Function.update_self]

theorem Moves.other (h : Moves s t k i p) {k' : Nat} (hk : k' ≠ k) :
    t.callers k' = s.callers k' := by
  rw [h.callers, Function.update_of_ne hk]

/-- Another caller holds another slot. -/
theorem Moves.ne_of_other (h : Moves s t k i p) {k' : Nat} (hk : k' ≠ k) {j : Slot}
    (hj : s.Holds k' j) : j ≠ i := by
  intro hji
  subst hji
  exact hk (h.alone k' hj)

theorem Moves.same (h : Moves s t k i p) {j : Slot} (hj : j ≠ i) : Same s t j where
  count := h.count j hj
  callers := by
    intro k' hk'
    by_cases heq : k' = k
    · subst heq
      rcases hk' with hs | ht
      · exact absurd (h.source j hs) hj
      · rw [Holds, h.self] at ht
        exact absurd (h.target j ht) hj
    · exact h.other heq
  flight := h.flight j hj
  worker := by rw [h.worker]
  completed := by rw [h.txn j hj]
  abandoned := by rw [h.txn j hj]
  filled := fun _ => by rw [h.txn j hj]; exact ⟨rfl, rfl⟩
  executed := by rw [h.executed]; exact List.Subset.refl _

theorem Moves.call (h : Moves s t k i p) (k' : Nat) :
    (t.callers k').call = (s.callers k').call := by
  by_cases heq : k' = k
  · subst heq
    rw [h.self]
  · rw [h.other heq]

theorem Moves.active_of (h : Moves s t k i p) {k' : Nat} (hk' : (t.callers k').pc ≠ .idle) :
    (s.callers k').pc ≠ .idle := by
  by_cases heq : k' = k
  · subst heq
    exact h.active
  · rw [← h.other heq]
    exact hk'

/-- The worker does not notice a caller that keeps the result while the worker is in its critical
section, and stays behind the wait once its command is done. -/
theorem Moves.working (h : Moves s t k i p) (hs : s.Working)
    (hresult : ∀ cmd, s.worker = .critical cmd i → (t.txn i).result = (s.txn i).result)
    (hdone : ¬ (s.callers k).pc.Early → s.Holds k i → (s.txn i).completed = true → p ≠ .idle →
      p.slot = some i ∧ (t.txn i).completed = true ∧ ¬ p.Early) : t.Working := by
  have hrx : ∀ j, (t.txn j).rx = (s.txn j).rx := by
    intro j
    by_cases hj : j = i
    · subst hj
      exact h.rx
    · rw [h.txn j hj]
  rw [Working, h.worker]
  rw [Working] at hs
  cases hw : s.worker with
  | idle => trivial
  | execute cmd => trivial
  | release j => trivial
  | store cmd j result =>
      rw [hw] at hs
      obtain ⟨e, he, hcall, hres, hbuf⟩ := hs
      exact ⟨e, by rw [h.executed]; exact he, hcall, hres, hbuf.trans (hrx j).symm⟩
  | critical cmd j =>
      rw [hw] at hs
      obtain ⟨e, he, hcall, hres, hbuf⟩ := hs
      have hsame : (t.txn j).result = (s.txn j).result := by
        by_cases hj : j = i
        · subst hj
          exact hresult cmd hw
        · rw [h.txn j hj]
      exact ⟨e, by rw [h.executed]; exact he, hcall, hres.trans hsame.symm, hbuf.trans (hrx j).symm⟩
  | give j call =>
      rw [hw] at hs
      obtain ⟨hbound, hgiven⟩ := hs
      refine ⟨by rw [h.calls]; exact hbound, ?_⟩
      intro k' hk' hcall
      rw [h.call k'] at hcall
      obtain ⟨hholds, hcompleted, hearly⟩ := hgiven k' (h.active_of hk') hcall
      by_cases heq : k' = k
      · subst heq
        obtain rfl := h.source j hholds
        rw [h.self] at hk'
        obtain ⟨hslot, hcomp, hpc⟩ := hdone hearly hholds hcompleted hk'
        rw [Holds, h.self]
        exact ⟨hslot, hcomp, hpc⟩
      · have hj : j ≠ i := h.ne_of_other heq hholds
        rw [Holds, h.other heq, h.txn j hj]
        exact ⟨hholds, hcompleted, hearly⟩

/-- What is to be shown of a caller's step. -/
theorem Inv.move (hs : Inv s) (h : Moves s t k i p) (hplace : t.Place i)
    (hworking : t.Working) (hsend : p = .send i → (t.txn i).done = false)
    (hwait : p = .waiting i → (t.txn i).done = true → (t.txn i).completed = true)
    (hreturned : ∀ r ∈ t.returned, t.Own r.call r.rxLen r.result r.rx) : Inv t where
  place := by
    intro j
    by_cases hj : j = i
    · subst hj
      exact hplace
    · exact (hs.place j).same (h.same hj)
  fresh := by
    intro k' hk'
    rw [h.call k', h.calls]
    exact hs.fresh k' (h.active_of hk')
  distinct := by
    intro k₁ k₂ h₁ h₂ hcall
    rw [h.call k₁, h.call k₂] at hcall
    exact hs.distinct k₁ k₂ (h.active_of h₁) (h.active_of h₂) hcall
  drained := by
    intro k' j hpc
    by_cases heq : k' = k
    · subst heq
      rw [h.self] at hpc
      obtain rfl := h.target j (by rw [show p = .send j from hpc]; rfl)
      exact hsend hpc
    · rw [h.other heq] at hpc
      have hj : j ≠ i := h.ne_of_other heq (by rw [Holds, hpc]; rfl)
      rw [h.txn j hj]
      exact hs.drained k' j hpc
  woken := by
    intro k' j hpc
    by_cases heq : k' = k
    · subst heq
      rw [h.self] at hpc
      obtain rfl := h.target j (by rw [show p = .waiting j from hpc]; rfl)
      exact hwait hpc
    · rw [h.other heq] at hpc
      have hj : j ≠ i := h.ne_of_other heq (by rw [Holds, hpc]; rfl)
      rw [h.txn j hj]
      exact hs.woken k' j hpc
  working := hworking
  returned := hreturned

/-- A step to neither `xQueueSend` nor the wait. -/
theorem Inv.moveOn (hs : Inv s) (h : Moves s t k i p) (hplace : t.Place i) (hworking : t.Working)
    (hsend : p ≠ .send i) (hwait : p ≠ .waiting i)
    (hreturned : ∀ r ∈ t.returned, t.Own r.call r.rxLen r.result r.rx) : Inv t :=
  hs.move h hplace hworking (fun hpc => absurd hpc hsend) (fun hpc => absurd hpc hwait) hreturned

/-- A step that a caller with a slot takes, and that touches this slot at most. -/
theorem Held.moves (h : s.Held i k)
    (hcallers : t.callers = Function.update s.callers k { s.callers k with pc := p })
    (hpc : ∀ j, p.slot = some j → j = i)
    (hcount : ∀ j, j ≠ i → t.freeSlots.count j = s.freeSlots.count j)
    (hflight : ∀ j, j ≠ i → t.flight j = s.flight j) (htxn : ∀ j, j ≠ i → t.txn j = s.txn j)
    (hrx : (t.txn i).rx = (s.txn i).rx) (hworker : t.worker = s.worker)
    (hcalls : t.calls = s.calls) (hexec : t.executed = s.executed) : Moves s t k i p where
  callers := hcallers
  active := by
    intro hidle
    have hholds := h.holds
    rw [Holds, hidle] at hholds
    cases hholds
  source j hj := Option.some.inj (hj.symm.trans h.holds)
  target := hpc
  alone := h.unique
  count := hcount
  flight := hflight
  txn := htxn
  rx := hrx
  worker := hworker
  calls := hcalls
  executed := hexec

@[simp] theorem txn_setTxn_goto (x : I2cTxn) : ((s.setTxn i x).goto k p).txn i = x :=
  Function.update_self _ _ _

/-- A caller writes to its slot and goes on. -/
theorem Held.writes (h : s.Held i k) (hpc : ∀ j, p.slot = some j → j = i) {x : I2cTxn}
    (hrx : x.rx = (s.txn i).rx) : Moves s ((s.setTxn i x).goto k p) k i p :=
  h.moves rfl hpc (fun _ _ => rfl) (fun _ _ => rfl) (fun _ hj => Function.update_of_ne hj _ _)
    (by rw [txn_setTxn_goto]; exact hrx) rfl rfl rfl

/-- A caller goes on without touching its slot. -/
theorem Held.goes (h : s.Held i k) (hpc : ∀ j, p.slot = some j → j = i) :
    Moves s (s.goto k p) k i p :=
  h.moves rfl hpc (fun _ _ => rfl) (fun _ _ => rfl) (fun _ _ => rfl) rfl rfl rfl rfl

/-- A caller that keeps its slot. -/
theorem Held.stay (h : s.Held i k) (hm : Moves s t k i p) (hpc : p.slot = some i)
    (hcount : t.freeSlots.count i = s.freeSlots.count i) : t.Held i k where
  count := hcount.trans h.count
  holds := by
    rw [Holds, hm.self]
    exact hpc
  unique k' hk' := by
    by_contra heq
    rw [Holds, hm.other heq] at hk'
    exact heq (h.unique k' hk')
  calm := by
    rw [hm.worker]
    exact h.calm

/-- A caller that lets its slot go. -/
theorem Moves.vacant (hm : Moves s t k i p) (hpc : p.slot = none) (k' : Nat) :
    ¬ t.Holds k' i := by
  intro hk'
  by_cases heq : k' = k
  · subst heq
    rw [Holds, hm.self] at hk'
    rw [show p.slot = none from hpc] at hk'
    cases hk'
  · rw [Holds, hm.other heq] at hk'
    exact heq (hm.alone k' hk')

/-- A critical section has its command under way. -/
theorem not_critical (hflight : s.flight i = []) (cmd : I2cCmd) : s.worker ≠ .critical cmd i := by
  intro hw
  simp [flight, running, hw] at hflight

/-- A step before the command is queued. -/
theorem Moves.working_early (hm : Moves s t k i p) (hs : s.Working) (hflight : s.flight i = [])
    {q : Pc} (hpc : (s.callers k).pc = q) (hearly : q.Early) : t.Working :=
  hm.working hs (fun cmd hw => absurd hw (not_critical hflight cmd))
    (fun hnot => absurd (hpc ▸ hearly) hnot)

theorem Hand.early_of (h : s.Hand i k) (hearly : (s.callers k).pc.Early) :
    s.flight i = [] ∧ ((s.callers k).pc ≠ .reset i →
      (s.txn i).completed = false ∧ (s.txn i).abandoned = false) := by
  cases h with
  | early flight pc cleared => exact ⟨flight, cleared⟩
  | queued cmd flight call pc completed abandoned =>
      rcases pc with hpc | hpc
      · rw [hpc] at hearly
        exact absurd hearly id
      · rw [hpc] at hearly
        exact absurd hearly id
  | finished flight pc completed filled =>
      rcases pc with hpc | hpc | hpc | hpc
      all_goals
        rw [hpc] at hearly
        exact absurd hearly id
  | leaving result rx flight pc completed own =>
      rw [pc] at hearly
      exact absurd hearly id

/-- Before the command is queued, nothing is under way for the slot. -/
theorem Inv.early (h : Inv s) {q : Pc} (hpc : (s.callers k).pc = q) (hslot : q.slot = some i)
    (hearly : q.Early) : s.Held i k ∧ s.flight i = [] ∧ (q ≠ .reset i →
      (s.txn i).completed = false ∧ (s.txn i).abandoned = false) := by
  subst hpc
  obtain ⟨held, hand⟩ := (h.place i).hand hslot
  exact ⟨held, hand.early_of hearly⟩

/-- Once the command is done, the slot has what came of it until the caller has read it. -/
theorem Hand.finished_of (h : s.Hand i k) (hearly : ¬ (s.callers k).pc.Early)
    (hcompleted : (s.txn i).completed = true)
    (hrelease : ∀ result rx, (s.callers k).pc ≠ .release i result rx) :
    s.flight i = [] ∧ s.Filled i (some (s.callers k).call) := by
  cases h with
  | early flight pc cleared => exact absurd pc hearly
  | queued cmd flight call pc completed abandoned =>
      rw [completed] at hcompleted
      cases hcompleted
  | finished flight pc completed filled => exact ⟨flight, filled⟩
  | leaving result rx flight pc completed own => exact absurd pc (hrelease result rx)

theorem Inv.reset (h : Inv s) (hpc : (s.callers k).pc = .reset i) :
    Inv ((s.setTxn i { s.txn i with
      completed := false, abandoned := false, result := i2cErrTimeout }).goto k (.drain i)) := by
  obtain ⟨held, hflight, -⟩ := h.early hpc rfl trivial
  have hm := held.writes (p := .drain i) (fun j hj => (Option.some.inj hj).symm)
    (x := { s.txn i with completed := false, abandoned := false, result := i2cErrTimeout }) rfl
  refine h.moveOn hm (.held k (held.stay hm rfl rfl) (.early hflight ?_ ?_))
    (hm.working_early h.working hflight hpc trivial) nofun nofun h.returned
  · rw [hm.self]
    trivial
  · intro _
    simp

theorem Inv.drain (h : Inv s) (hpc : (s.callers k).pc = .drain i) :
    Inv ((s.setTxn i { s.txn i with done := false }).goto k (.send i)) := by
  obtain ⟨held, hflight, hcleared⟩ := h.early hpc rfl trivial
  have hm := held.writes (p := .send i) (fun j hj => (Option.some.inj hj).symm)
    (x := { s.txn i with done := false }) rfl
  refine h.move hm (.held k (held.stay hm rfl rfl) (.early hflight ?_ ?_))
    (hm.working_early h.working hflight hpc trivial) ?_ ?_ h.returned
  · rw [hm.self]
    trivial
  · intro _
    rw [txn_setTxn_goto]
    exact hcleared nofun
  · intro _
    rw [txn_setTxn_goto]
  · intro hwait
    cases hwait

theorem Inv.queue (h : Inv s) (hpc : (s.callers k).pc = .send i) :
    Inv (goto { s with cmdQueue := s.cmdQueue ++ [s.cmdOf k i] } k (.waiting i)) := by
  obtain ⟨held, hflight, hcleared⟩ := h.early hpc rfl trivial
  obtain ⟨hcompleted, habandoned⟩ := hcleared nofun
  have hqueue : ∀ j,
      flight (goto { s with cmdQueue := s.cmdQueue ++ [s.cmdOf k i] } k (.waiting i)) j =
        s.flight j ++ if j = i then [s.cmdOf k i] else [] := by
    intro j
    change s.running j ++ (s.cmdQueue ++ [s.cmdOf k i]).filter _ = _
    rw [List.filter_append, ← List.append_assoc]
    congr 1
    by_cases hj : j = i
    · simp [hj, cmdOf]
    · simp [hj, cmdOf, Ne.symm hj]
  have hm : Moves s (goto { s with cmdQueue := s.cmdQueue ++ [s.cmdOf k i] } k (.waiting i)) k i
      (.waiting i) :=
    { held.goes (p := .waiting i) (fun j hj => (Option.some.inj hj).symm) with
      flight := fun j hj => by rw [hqueue, if_neg hj, List.append_nil] }
  refine h.move hm (.held k (held.stay hm rfl rfl)
    (.queued (s.cmdOf k i) ?_ ?_ ?_ hcompleted habandoned))
    (hm.working_early h.working hflight hpc trivial) ?_ ?_ h.returned
  · rw [hqueue, hflight, if_pos rfl, List.nil_append]
  · rw [hm.call]
    rfl
  · rw [hm.self]
    exact Or.inl rfl
  · intro hsend
    cases hsend
  · intro _ hdone
    rw [show ((goto { s with cmdQueue := s.cmdQueue ++ [s.cmdOf k i] } k (.waiting i)).txn i).done =
      (s.txn i).done from rfl, h.drained k i hpc] at hdone
    cases hdone

theorem Inv.refuse (h : Inv s) (hpc : (s.callers k).pc = .send i) :
    Inv (s.goto k (.refused i)) := by
  obtain ⟨held, hflight, hcleared⟩ := h.early hpc rfl trivial
  have hm := held.goes (p := .refused i) (fun j hj => (Option.some.inj hj).symm)
  refine h.moveOn hm (.held k (held.stay hm rfl rfl) (.early hflight ?_ ?_))
    (hm.working_early h.working hflight hpc trivial) nofun nofun h.returned
  · rw [hm.self]
    trivial
  · intro _
    exact hcleared nofun

/-- The queue of free slots has room for a slot that is not in it. -/
theorem length_freeSlots (h : ∀ j, s.Place j) (hcount : s.freeSlots.count i = 0) :
    s.freeSlots.length < i2cTxnSlots := by
  have hle : ∀ j, s.freeSlots.count j ≤ 1 := by
    intro j
    cases h j with
    | free count vacant flight calm => exact Nat.le_of_eq count
    | held k held hand => exact held.count.trans_le (Nat.zero_le 1)
    | adrift cmd count vacant flight abandoned calm => exact count.trans_le (Nat.zero_le 1)
    | releasing count vacant flight worker => exact count.trans_le (Nat.zero_le 1)
  have hnodup : (i :: s.freeSlots).Nodup :=
    List.nodup_cons.mpr ⟨List.count_eq_zero.mp hcount, List.nodup_iff_count_le_one.mpr hle⟩
  have hcard := List.Nodup.length_le_card hnodup
  rw [Fintype.card_fin, List.length_cons] at hcard
  exact hcard

theorem freeSlots_releaseSlot (h : ∀ j, s.Place j) (hcount : s.freeSlots.count i = 0) :
    s.releaseSlot i = { s with freeSlots := s.freeSlots ++ [i] } := by
  rw [releaseSlot, if_pos (length_freeSlots h hcount)]

theorem count_release (h : s.freeSlots.count i = 0) : (s.freeSlots ++ [i]).count i = 1 := by
  rw [List.count_append, h, List.count_singleton_self]

theorem count_release_of_ne {j : Slot} (hj : j ≠ i) :
    (s.freeSlots ++ [i]).count j = s.freeSlots.count j := by
  rw [List.count_append, List.count_singleton, if_neg (by simpa using Ne.symm hj), Nat.add_zero]

/-- A caller that frees its slot. -/
theorem Held.frees (h : s.Held i k) (hcallers : t.callers = Function.update s.callers k
      { s.callers k with pc := .idle })
    (hfree : t.freeSlots = s.freeSlots ++ [i]) (hqueue : t.cmdQueue = s.cmdQueue)
    (htxn : t.txn = s.txn) (hworker : t.worker = s.worker) (hcalls : t.calls = s.calls)
    (hexec : t.executed = s.executed) : Moves s t k i .idle := by
  refine h.moves hcallers (fun j hj => by cases hj) ?_ ?_ ?_ ?_ hworker hcalls hexec
  · intro j hj
    rw [hfree]
    exact count_release_of_ne hj
  · intro j _
    rw [flight, running, hworker, hqueue]
    rfl
  · intro j _
    rw [htxn]
  · rw [htxn]

/-- A slot that a caller has freed. -/
theorem Held.freed (h : s.Held i k) (hm : Moves s t k i .idle)
    (hfree : t.freeSlots = s.freeSlots ++ [i]) (hqueue : t.cmdQueue = s.cmdQueue)
    (hflight : s.flight i = []) : t.Place i := by
  refine .free ?_ (hm.vacant rfl) ?_ ?_
  · rw [hfree]
    exact count_release h.count
  · rw [flight, running, hm.worker, hqueue]
    exact hflight
  · rw [hm.worker]
    exact h.calm

theorem Inv.giveUp (h : Inv s) (hpc : (s.callers k).pc = .refused i) :
    Inv (goto { s.releaseSlot i with dropped := s.dropped + 1 } k .idle) := by
  obtain ⟨held, hflight, -⟩ := h.early hpc rfl trivial
  rw [freeSlots_releaseSlot h.place held.count]
  have hm := held.frees (t := goto { s with
    freeSlots := s.freeSlots ++ [i], dropped := s.dropped + 1 } k .idle) rfl rfl rfl rfl rfl rfl rfl
  exact h.moveOn hm (held.freed hm rfl rfl hflight)
    (hm.working_early h.working hflight hpc trivial) nofun nofun h.returned

/-- Behind the wait the slot has what came of the command. -/
theorem Hand.done_of (h : s.Hand i k)
    (hpc : (s.callers k).pc = .late i ∨ (s.callers k).pc = .read i) :
    s.flight i = [] ∧ (s.txn i).completed = true ∧ s.Filled i (some (s.callers k).call) := by
  cases h with
  | early flight pc cleared =>
      rcases hpc with hpc | hpc
      all_goals
        rw [hpc] at pc
        exact absurd pc id
  | queued cmd flight call pc completed abandoned =>
      rcases hpc with hpc | hpc
      all_goals simp [hpc] at pc
  | finished flight pc completed filled => exact ⟨flight, completed, filled⟩
  | leaving result rx flight pc completed own =>
      rcases hpc with hpc | hpc
      all_goals
        rw [hpc] at pc
        cases pc

/-- The semaphore was given for the caller's own command. -/
theorem Inv.woken_finished (h : Inv s) (hpc : (s.callers k).pc = .waiting i)
    (hdone : (s.txn i).done = true) : s.Held i k ∧ s.flight i = [] ∧
      (s.txn i).completed = true ∧ s.Filled i (some (s.callers k).call) := by
  obtain ⟨held, hand⟩ := (h.place i).hand (by rw [Holds, hpc]; rfl)
  have hcompleted := h.woken k i hpc hdone
  obtain ⟨hflight, hfilled⟩ := hand.finished_of (by rw [hpc]; exact id) hcompleted (by simp [hpc])
  exact ⟨held, hflight, hcompleted, hfilled⟩

/-- The caller takes the semaphore and goes on to the result. -/
theorem Inv.take (h : Inv s) (held : s.Held i k) (hflight : s.flight i = [])
    (hcompleted : (s.txn i).completed = true) (hfilled : s.Filled i (some (s.callers k).call)) :
    Inv ((s.setTxn i { s.txn i with done := false }).goto k (.read i)) := by
  have hm := held.writes (p := .read i) (fun j hj => (Option.some.inj hj).symm)
    (x := { s.txn i with done := false }) rfl
  refine h.moveOn hm (.held k (held.stay hm rfl rfl) (.finished hflight ?_ ?_ ?_))
    (hm.working h.working ?_ ?_) nofun nofun h.returned
  · rw [hm.self]
    exact Or.inr (Or.inr (Or.inr rfl))
  · rw [txn_setTxn_goto]
    exact hcompleted
  · obtain ⟨e, he, hcall, hresult, hrx⟩ := hfilled
    refine ⟨e, he, ?_, ?_, ?_⟩
    · rw [hm.call]
      exact hcall
    · rw [txn_setTxn_goto]
      exact hresult
    · rw [txn_setTxn_goto]
      exact hrx
  · intro cmd hw
    exact absurd hw (not_critical hflight cmd)
  · intro _ _ _ _
    rw [txn_setTxn_goto]
    exact ⟨rfl, hcompleted, id⟩

theorem Inv.timeout (h : Inv s) (hpc : (s.callers k).pc = .waiting i) :
    Inv (s.goto k (.race i)) := by
  obtain ⟨held, hand⟩ := (h.place i).hand (by rw [Holds, hpc]; rfl)
  have hm := held.goes (p := .race i) (fun j hj => (Option.some.inj hj).symm)
  refine h.moveOn hm (.held k (held.stay hm rfl rfl) ?_) (hm.working h.working ?_ ?_) nofun nofun
    h.returned
  · cases hand with
    | early flight pc cleared =>
        rw [hpc] at pc
        exact absurd pc id
    | queued cmd flight call pc completed abandoned =>
        refine .queued cmd flight ?_ ?_ completed abandoned
        · rw [hm.call]
          exact call
        · rw [hm.self]
          exact Or.inr rfl
    | finished flight pc completed filled =>
        refine .finished flight ?_ completed ?_
        · rw [hm.self]
          exact Or.inr (Or.inl rfl)
        · rw [hm.call]
          exact filled
    | leaving result rx flight pc completed own =>
        rw [hpc] at pc
        cases pc
  · intro cmd hw
    rfl
  · intro _ _ hcompleted _
    exact ⟨rfl, hcompleted, id⟩

theorem Inv.lost (h : Inv s) (hpc : (s.callers k).pc = .race i)
    (hcompleted : (s.txn i).completed = true) : Inv (s.goto k (.late i)) := by
  obtain ⟨held, hand⟩ := (h.place i).hand (by rw [Holds, hpc]; rfl)
  obtain ⟨hflight, hfilled⟩ := hand.finished_of (by rw [hpc]; exact id) hcompleted (by simp [hpc])
  have hm := held.goes (p := .late i) (fun j hj => (Option.some.inj hj).symm)
  refine h.moveOn hm (.held k (held.stay hm rfl rfl) (.finished hflight ?_ hcompleted ?_))
    (hm.working h.working ?_ ?_) nofun nofun h.returned
  · rw [hm.self]
    exact Or.inr (Or.inr (Or.inl rfl))
  · rw [hm.call]
    exact hfilled
  · intro cmd hw
    rfl
  · intro _ _ _ _
    exact ⟨rfl, hcompleted, id⟩

/-- The caller abandons the slot to the worker. -/
theorem Inv.abandon (h : Inv s) (hpc : (s.callers k).pc = .race i)
    (hcompleted : (s.txn i).completed = false) :
    Inv ((s.setTxn i { s.txn i with abandoned := true }).goto k .idle) := by
  obtain ⟨held, hand⟩ := (h.place i).hand (by rw [Holds, hpc]; rfl)
  have hm := held.writes (p := .idle) (fun j hj => by cases hj)
    (x := { s.txn i with abandoned := true }) rfl
  refine h.moveOn hm ?_ (hm.working h.working ?_ ?_) nofun nofun h.returned
  · cases hand with
    | early flight pc cleared =>
        rw [hpc] at pc
        exact absurd pc id
    | queued cmd flight call pc completed abandoned =>
        refine .adrift cmd held.count (hm.vacant rfl) flight ?_ held.calm
        rw [txn_setTxn_goto]
    | finished flight pc completed filled =>
        rw [completed] at hcompleted
        cases hcompleted
    | leaving result rx flight pc completed own =>
        rw [hpc] at pc
        cases pc
  · intro cmd hw
    rw [txn_setTxn_goto]
  · intro _ _ _ hidle
    exact absurd rfl hidle

theorem Inv.read (h : Inv s) (hpc : (s.callers k).pc = .read i) :
    Inv (s.goto k (.release i (s.txn i).result (s.copyOut k i))) := by
  obtain ⟨held, hand⟩ := (h.place i).hand (by rw [Holds, hpc]; rfl)
  obtain ⟨hflight, hcompleted, e, he, hcall, hresult, hrx⟩ := hand.done_of (Or.inr hpc)
  have hm := held.goes (p := .release i (s.txn i).result (s.copyOut k i))
    (fun j hj => (Option.some.inj hj).symm)
  refine h.moveOn hm (.held k (held.stay hm rfl rfl)
    (.leaving (s.txn i).result (s.copyOut k i) hflight ?_ hcompleted ?_))
    (hm.working h.working ?_ ?_) nofun nofun h.returned
  · rw [hm.self]
  · refine ⟨e, he, ?_, hresult, ?_⟩
    · rw [hm.call]
      exact hcall
    · rw [hm.self, hrx]
      rfl
  · intro cmd hw
    rfl
  · intro _ _ _ _
    exact ⟨rfl, hcompleted, id⟩

theorem Inv.release (h : Inv s) {result : Int} {rx : List UInt8}
    (hpc : (s.callers k).pc = .release i result rx) :
    Inv (goto { s.releaseSlot i with
      returned := s.returned ++
        [⟨(s.callers k).call, (s.callers k).rxLen, result, rx⟩] } k .idle) := by
  obtain ⟨held, hand⟩ := (h.place i).hand (by rw [Holds, hpc]; rfl)
  rw [freeSlots_releaseSlot h.place held.count]
  have hm := held.frees (t := goto { s with
    freeSlots := s.freeSlots ++ [i]
    returned := s.returned ++ [⟨(s.callers k).call, (s.callers k).rxLen, result, rx⟩] } k .idle)
    rfl rfl rfl rfl rfl rfl rfl
  cases hand with
  | early flight pc cleared =>
      rw [hpc] at pc
      exact absurd pc id
  | queued cmd flight call pc completed abandoned => simp [hpc] at pc
  | finished flight pc completed filled => simp [hpc] at pc
  | leaving result' rx' flight pc completed own =>
      rw [hpc] at pc
      obtain ⟨-, rfl, rfl⟩ := Pc.release.inj pc
      refine h.moveOn hm (held.freed hm rfl rfl flight) (hm.working h.working ?_ ?_) nofun nofun ?_
      · intro cmd hw
        rfl
      · intro _ _ _ hidle
        exact absurd rfl hidle
      · intro r hr
        rcases List.mem_append.mp hr with hold | hnew
        · exact h.returned r hold
        · rw [List.mem_singleton] at hnew
          subst hnew
          exact own

/-- A caller takes a slot. -/
theorem Inv.acquire (h : Inv s) (hpc : (s.callers k).pc = .acquire) {freeSlots : List Slot}
    (hfree : s.freeSlots = i :: freeSlots) :
    Inv (goto { s with freeSlots } k (.reset i)) := by
  have hnone : ∀ j, ¬ s.Holds k j := by
    intro j hj
    rw [Holds, hpc] at hj
    cases hj
  cases h.place i with
  | held k' held hand =>
      have hcount := held.count
      rw [hfree, List.count_cons_self] at hcount
      cases hcount
  | adrift cmd count vacant flight abandoned calm =>
      rw [hfree, List.count_cons_self] at count
      cases count
  | releasing count vacant flight worker =>
      rw [hfree, List.count_cons_self] at count
      cases count
  | free count vacant flight calm =>
      have hm : Moves s (goto { s with freeSlots } k (.reset i)) k i (.reset i) := {
        callers := rfl
        active := by simp [hpc]
        source := fun j hj => absurd hj (hnone j)
        target := fun j hj => (Option.some.inj hj).symm
        alone := fun k' hk' => absurd hk' (vacant k')
        count := by
          intro j hj
          rw [hfree, List.count_cons_of_ne (Ne.symm hj)]
          rfl
        flight := fun _ _ => rfl
        txn := fun _ _ => rfl
        rx := rfl
        worker := rfl
        calls := rfl
        executed := rfl }
      refine h.moveOn hm (.held k ?_ (.early flight ?_ ?_)) (hm.working h.working ?_ ?_)
        nofun nofun h.returned
      · refine ⟨?_, ?_, ?_, calm⟩
        · rw [hfree, List.count_cons_self] at count
          exact Nat.succ.inj count
        · rw [Holds, hm.self]
          rfl
        · intro k' hk'
          by_contra heq
          rw [Holds, hm.other heq] at hk'
          exact vacant k' hk'
      · rw [hm.self]
        trivial
      · intro hreset
        rw [hm.self] at hreset
        exact absurd rfl hreset
      · intro cmd hw
        rfl
      · intro _ hholds
        exact absurd hholds (hnone i)

/-- A step of a caller that has no slot and gets none. -/
theorem same_of_vacant {x : Caller} (hs : ∀ j, ¬ s.Holds k j) (hx : x.pc.slot = none)
    (hcallers : t.callers = Function.update s.callers k x) (hfree : t.freeSlots = s.freeSlots)
    (hflight : t.flight i = s.flight i) (htxn : t.txn = s.txn) (hworker : t.worker = s.worker)
    (hexec : t.executed = s.executed) : Same s t i where
  count := by rw [hfree]
  callers := by
    intro k' hk'
    by_cases heq : k' = k
    · subst heq
      rcases hk' with hold | hnew
      · exact absurd hold (hs i)
      · rw [Holds, hcallers, Function.update_self, hx] at hnew
        cases hnew
    · rw [hcallers, Function.update_of_ne heq]
  flight := hflight
  worker := by rw [hworker]
  completed := by rw [htxn]
  abandoned := by rw [htxn]
  filled := fun _ => by rw [htxn]; exact ⟨rfl, rfl⟩
  executed := by rw [hexec]; exact List.Subset.refl _

/-- A caller without a slot starts a call of its own or ends one. -/
theorem Inv.vacant (h : Inv s) (hs : ∀ j, ¬ s.Holds k j) {x : Caller} {n : Nat}
    (hx : x.pc.slot = none) (hn : s.calls ≤ n)
    (hcall : x.pc ≠ .idle → s.calls ≤ x.call ∧ x.call < n) :
    Inv { s with callers := Function.update s.callers k x, calls := n } where
  place i := (h.place i).same (same_of_vacant hs hx rfl rfl rfl rfl rfl rfl)
  fresh := by
    intro k' hk'
    by_cases heq : k' = k
    · subst heq
      simp only [Function.update_self] at hk' ⊢
      exact (hcall hk').2
    · simp only [Function.update_of_ne heq] at hk' ⊢
      exact Nat.lt_of_lt_of_le (h.fresh k' hk') hn
  distinct := by
    intro k₁ k₂ h₁ h₂ heq
    by_cases heq₁ : k₁ = k
    · by_cases heq₂ : k₂ = k
      · rw [heq₁, heq₂]
      · subst heq₁
        simp only [Function.update_self, Function.update_of_ne heq₂] at h₁ h₂ heq
        have hlt := h.fresh k₂ h₂
        rw [← heq] at hlt
        exact absurd hlt (Nat.not_lt_of_le (hcall h₁).1)
    · by_cases heq₂ : k₂ = k
      · subst heq₂
        simp only [Function.update_self, Function.update_of_ne heq₁] at h₁ h₂ heq
        have hlt := h.fresh k₁ h₁
        rw [heq] at hlt
        exact absurd hlt (Nat.not_lt_of_le (hcall h₂).1)
      · simp only [Function.update_of_ne heq₁, Function.update_of_ne heq₂] at h₁ h₂ heq
        exact h.distinct k₁ k₂ h₁ h₂ heq
  drained := by
    intro k' i hpc
    by_cases heq : k' = k
    · subst heq
      simp only [Function.update_self] at hpc
      rw [hpc] at hx
      cases hx
    · simp only [Function.update_of_ne heq] at hpc
      exact h.drained k' i hpc
  woken := by
    intro k' i hpc
    by_cases heq : k' = k
    · subst heq
      simp only [Function.update_self] at hpc
      rw [hpc] at hx
      cases hx
    · simp only [Function.update_of_ne heq] at hpc
      exact h.woken k' i hpc
  working := by
    have hworking := h.working
    rw [Working] at hworking ⊢
    cases hw : s.worker with
    | idle => trivial
    | execute cmd => trivial
    | release j => trivial
    | store cmd j result =>
        rw [hw] at hworking
        exact hworking
    | critical cmd j =>
        rw [hw] at hworking
        exact hworking
    | give j call =>
        rw [hw] at hworking
        obtain ⟨hbound, hgiven⟩ := hworking
        refine ⟨fun c hc => Nat.lt_of_lt_of_le (hbound c hc) hn, ?_⟩
        intro k' hk' hc
        by_cases heq : k' = k
        · subst heq
          simp only [Function.update_self] at hk' hc
          exact absurd (hbound _ hc) (Nat.not_lt_of_le (hcall hk').1)
        · simp only [Function.update_of_ne heq] at hk' hc
          simp only [Holds, Function.update_of_ne heq]
          exact hgiven k' hk' hc
  returned := h.returned

theorem Inv.callerStep (h : Inv s) {ok : Bool} (hstep : s.callerStep queueDepth k ok = some t) :
    Inv t := by
  unfold Bus.callerStep at hstep
  cases hpc : (s.callers k).pc with
  | idle =>
      rw [hpc] at hstep
      cases hstep
  | acquire =>
      rw [hpc] at hstep
      have hnone : ∀ j, ¬ s.Holds k j := by
        intro j hj
        rw [Holds, hpc] at hj
        cases hj
      dsimp only at hstep
      split at hstep
      · next i freeSlots hfree =>
          cases hstep
          exact h.acquire hpc hfree
      · cases hstep
        exact h.vacant hnone rfl (Nat.le_refl _) (fun hidle => absurd rfl hidle)
      · cases hstep
  | reset i =>
      rw [hpc] at hstep
      cases hstep
      exact h.reset hpc
  | drain i =>
      rw [hpc] at hstep
      cases hstep
      exact h.drain hpc
  | send i =>
      rw [hpc] at hstep
      dsimp only at hstep
      split_ifs at hstep with hroom hok hok
      · cases hstep
        exact h.queue hpc
      · cases hstep
        exact h.refuse hpc
  | refused i =>
      rw [hpc] at hstep
      cases hstep
      exact h.giveUp hpc
  | waiting i =>
      rw [hpc] at hstep
      dsimp only at hstep
      split_ifs at hstep with hdone hok hok
      · cases hstep
        obtain ⟨held, hflight, hcompleted, hfilled⟩ := h.woken_finished hpc hdone
        exact h.take held hflight hcompleted hfilled
      · cases hstep
        exact h.timeout hpc
  | race i =>
      rw [hpc] at hstep
      dsimp only at hstep
      split_ifs at hstep with hcompleted
      · cases hstep
        exact h.lost hpc hcompleted
      · cases hstep
        exact h.abandon hpc (Bool.eq_false_iff.mpr hcompleted)
  | late i =>
      rw [hpc] at hstep
      cases hstep
      obtain ⟨held, hand⟩ := (h.place i).hand (by rw [Holds, hpc]; rfl)
      obtain ⟨hflight, hcompleted, hfilled⟩ := hand.done_of (Or.inl hpc)
      exact h.take held hflight hcompleted hfilled
  | read i =>
      rw [hpc] at hstep
      cases hstep
      exact h.read hpc
  | release i result rx =>
      rw [hpc] at hstep
      cases hstep
      exact h.release hpc

/-! ## Steps of the worker -/

/-- What is to be shown of a step that no caller takes. -/
theorem Inv.serve (h : Inv s) (hcallers : t.callers = s.callers) (hcalls : t.calls = s.calls)
    (hreturned : t.returned = s.returned) (hexec : s.executed ⊆ t.executed)
    (hplace : ∀ i, t.Place i)
    (hsend : ∀ k i, (s.callers k).pc = .send i → (t.txn i).done = false)
    (hwait : ∀ k i, (s.callers k).pc = .waiting i → (t.txn i).done = true →
      (t.txn i).completed = true) (hworking : t.Working) : Inv t where
  place := hplace
  fresh := by
    rw [hcallers, hcalls]
    exact h.fresh
  distinct := by
    rw [hcallers]
    exact h.distinct
  drained := by
    rw [hcallers]
    exact hsend
  woken := by
    rw [hcallers]
    exact hwait
  working := hworking
  returned := by
    intro r hr
    rw [hreturned] at hr
    exact (h.returned r hr).mono hexec

/-- Steps that touch neither the semaphores nor what the callers see of the slots. -/
theorem Inv.serve_same (h : Inv s) (hcallers : t.callers = s.callers) (hcalls : t.calls = s.calls)
    (hreturned : t.returned = s.returned) (hsame : ∀ i, Same s t i)
    (hdone : ∀ i, (t.txn i).done = (s.txn i).done) (hworking : t.Working) : Inv t := by
  refine h.serve hcallers hcalls hreturned (hsame 0).executed (fun i => (h.place i).same (hsame i))
    ?_ ?_ hworking
  · intro k i hpc
    rw [hdone]
    exact h.drained k i hpc
  · intro k i hpc hgiven
    rw [hdone] at hgiven
    rw [(hsame i).completed]
    exact h.woken k i hpc hgiven

/-- A step of the worker or of `post_async` that writes to no slot. -/
theorem same_of_queue (hcallers : t.callers = s.callers)
    (hcount : t.freeSlots.count i = s.freeSlots.count i) (htxn : t.txn = s.txn)
    (hflight : t.flight i = s.flight i) (hworker : t.worker = .release i ↔ s.worker = .release i)
    (hexec : t.executed = s.executed) : Same s t i where
  count := hcount
  callers _ _ := by rw [hcallers]
  flight := hflight
  worker := hworker
  completed := by rw [htxn]
  abandoned := by rw [htxn]
  filled _ := by
    rw [htxn]
    exact ⟨rfl, rfl⟩
  executed := by
    rw [hexec]
    exact List.Subset.refl _

theorem Inv.post (h : Inv s) {cmd : I2cCmd} (hslot : cmd.slot = none) :
    Inv { s with cmdQueue := s.cmdQueue ++ [cmd] } := by
  refine h.serve_same rfl rfl rfl ?_ (fun _ => rfl) h.working
  intro i
  refine same_of_queue rfl rfl rfl ?_ Iff.rfl rfl
  show s.running i ++ (s.cmdQueue ++ [cmd]).filter _ = s.running i ++ s.cmdQueue.filter _
  rw [List.filter_append, List.filter_singleton, hslot]
  simp

theorem Inv.drop (h : Inv s) : Inv { s with dropped := s.dropped + 1 } := by
  refine h.serve_same rfl rfl rfl ?_ (fun _ => rfl) h.working
  intro i
  exact same_of_queue rfl rfl rfl rfl Iff.rfl rfl

/-- The worker takes a command. -/
theorem Inv.pull (h : Inv s) (hw : s.worker = .idle) {cmd : I2cCmd} {cmdQueue : List I2cCmd}
    (hqueue : s.cmdQueue = cmd :: cmdQueue) : Inv { s with cmdQueue, worker := .execute cmd } := by
  refine h.serve_same rfl rfl rfl ?_ (fun _ => rfl) trivial
  intro i
  refine same_of_queue rfl rfl rfl ?_ ?_ rfl
  · simp only [flight, running, hw, hqueue, List.nil_append, List.filter_cons, decide_eq_true_eq]
    split_ifs with hslot
    · rfl
    · rfl
  · simp [hw]

theorem Inv.execute_async (h : Inv s) {cmd : I2cCmd} (hw : s.worker = .execute cmd)
    (hslot : cmd.slot = none) : Inv { s with worker := .idle } := by
  refine h.serve_same rfl rfl rfl ?_ (fun _ => rfl) trivial
  intro i
  refine same_of_queue rfl rfl rfl ?_ ?_ rfl
  · simp [flight, running, hw, hslot]
  · simp [hw]

/-- A field that a write keeps. -/
theorem txn_update {α : Type} (f : I2cTxn → α) {x : I2cTxn} {j : Slot} (hx : f x = f (s.txn j))
    (i : Slot) : f (Function.update s.txn j x i) = f (s.txn i) := by
  by_cases hij : i = j
  · subst hij
    rw [Function.update_self, hx]
  · rw [Function.update_of_ne hij]

/-- The worker writes to a slot whose command is under way. -/
theorem same_of_fill {x : I2cTxn} {j : Slot} (hcallers : t.callers = s.callers)
    (hfree : t.freeSlots = s.freeSlots) (htxn : t.txn = Function.update s.txn j x)
    (hcompleted : x.completed = (s.txn j).completed)
    (habandoned : x.abandoned = (s.txn j).abandoned) (hbusy : s.flight j ≠ [])
    (hflight : t.flight i = s.flight i) (hs : s.worker ≠ .release i) (ht : t.worker ≠ .release i)
    (hexec : s.executed ⊆ t.executed) : Same s t i where
  count := by rw [hfree]
  callers _ _ := by rw [hcallers]
  flight := hflight
  worker := ⟨fun hrelease => absurd hrelease ht, fun hrelease => absurd hrelease hs⟩
  completed := by
    rw [htxn]
    exact txn_update I2cTxn.completed hcompleted i
  abandoned := by
    rw [htxn]
    exact txn_update I2cTxn.abandoned habandoned i
  filled := by
    intro hidle
    by_cases hij : i = j
    · subst hij
      exact absurd hidle hbusy
    · rw [htxn, Function.update_of_ne hij]
      exact ⟨rfl, rfl⟩
  executed := hexec

/-- The worker executes a command that has a slot. -/
theorem Inv.execute (h : Inv s) {cmd : I2cCmd} {j : Slot} (hw : s.worker = .execute cmd)
    (hslot : cmd.slot = some j) (result : Int) (rx : Buffer) :
    Inv { s.setTxn j { s.txn j with rx } with
      worker := .store cmd j result, executed := s.executed ++ [⟨cmd.call, result, rx⟩] } := by
  refine h.serve_same rfl rfl rfl ?_ (txn_update I2cTxn.done rfl) ?_
  · intro i
    refine same_of_fill rfl rfl rfl rfl rfl ?_ ?_ ?_ ?_ (List.subset_append_left _ _)
    · simp [flight, running, hw, hslot]
    · simp [flight, running, hw, hslot, setTxn]
    · simp [hw]
    · simp
  · exact ⟨_, List.mem_append_right _ (List.mem_singleton_self _), rfl, rfl,
      by simp [setTxn]⟩

theorem Inv.store (h : Inv s) {cmd : I2cCmd} {j : Slot} {result : Int}
    (hw : s.worker = .store cmd j result) :
    Inv { s.setTxn j { s.txn j with result } with worker := .critical cmd j } := by
  have hworking := h.working
  rw [Working, hw] at hworking
  obtain ⟨e, he, hcall, hresult, hrx⟩ := hworking
  refine h.serve_same rfl rfl rfl ?_ (txn_update I2cTxn.done rfl) ?_
  · intro i
    refine same_of_fill rfl rfl rfl rfl rfl ?_ ?_ ?_ ?_ (List.Subset.refl _)
    · simp [flight, running, hw]
    · simp [flight, running, hw, setTxn]
    · simp [hw]
    · simp
  · exact ⟨e, he, hcall, by simp [setTxn, hresult], by simp [setTxn, hrx]⟩

/-- What the worker leaves alone beside the slot it is done with. -/
theorem same_of_ne {x : I2cTxn} {j : Slot} (hij : i ≠ j) (hcallers : t.callers = s.callers)
    (hcount : t.freeSlots.count i = s.freeSlots.count i)
    (htxn : t.txn = Function.update s.txn j x) (hflight : t.flight i = s.flight i)
    (hworker : t.worker = .release i ↔ s.worker = .release i) (hexec : t.executed = s.executed) :
    Same s t i where
  count := hcount
  callers _ _ := by rw [hcallers]
  flight := hflight
  worker := hworker
  completed := by rw [htxn, Function.update_of_ne hij]
  abandoned := by rw [htxn, Function.update_of_ne hij]
  filled _ := by
    rw [htxn, Function.update_of_ne hij]
    exact ⟨rfl, rfl⟩
  executed := by
    rw [hexec]
    exact List.Subset.refl _

/-- The slot of the command in the critical section is still waited for, or abandoned. -/
theorem Place.critical (h : s.Place i) {cmd : I2cCmd} (hw : s.worker = .critical cmd i) :
    (s.cmdQueue.filter fun cmd => cmd.slot = some i) = [] ∧
      ((∃ k, s.Held i k ∧ cmd.call = some (s.callers k).call ∧
          ((s.callers k).pc = .waiting i ∨ (s.callers k).pc = .race i) ∧
          (s.txn i).abandoned = false) ∨
        (s.freeSlots.count i = 0 ∧ (∀ k, ¬ s.Holds k i) ∧ (s.txn i).abandoned = true)) := by
  have hflight : s.flight i = cmd :: s.cmdQueue.filter fun cmd => cmd.slot = some i := by
    simp [flight, running, hw]
  cases h with
  | free count vacant flight calm =>
      rw [flight] at hflight
      cases hflight
  | held k held hand =>
      cases hand with
      | early flight pc cleared =>
          rw [flight] at hflight
          cases hflight
      | queued cmd' flight call pc completed abandoned =>
          rw [flight] at hflight
          obtain ⟨rfl, hqueue⟩ := List.cons.inj hflight
          exact ⟨hqueue.symm, Or.inl ⟨k, held, call, pc, abandoned⟩⟩
      | finished flight pc completed filled =>
          rw [flight] at hflight
          cases hflight
      | leaving result rx flight pc completed own =>
          rw [flight] at hflight
          cases hflight
  | adrift cmd' count vacant flight abandoned calm =>
      rw [flight] at hflight
      exact ⟨(List.cons.inj hflight).2.symm, Or.inr ⟨count, vacant, abandoned⟩⟩
  | releasing count vacant flight worker =>
      rw [flight] at hflight
      cases hflight

/-- The critical section gives nothing. -/
theorem Inv.drained_complete (h : Inv s) (j : Slot) (k : Nat) (i : Slot)
    (hpc : (s.callers k).pc = .send i) :
    (Function.update s.txn j { s.txn j with completed := true } i).done = false :=
  (txn_update I2cTxn.done (x := { s.txn j with completed := true }) rfl i).trans (h.drained k i hpc)

/-- It completes the slot that it is for. -/
theorem Inv.woken_complete (h : Inv s) (j : Slot) (k : Nat) (i : Slot)
    (hpc : (s.callers k).pc = .waiting i)
    (hdone : (Function.update s.txn j { s.txn j with completed := true } i).done = true) :
    (Function.update s.txn j { s.txn j with completed := true } i).completed = true := by
  by_cases hij : i = j
  · subst hij
    rw [Function.update_self]
  · rw [Function.update_of_ne hij] at hdone ⊢
    exact h.woken k i hpc hdone

/-- The worker wins the critical section. -/
theorem Inv.complete (h : Inv s) {cmd : I2cCmd} {j : Slot} (hw : s.worker = .critical cmd j)
    (hqueue : (s.cmdQueue.filter fun cmd => cmd.slot = some j) = [])
    (held : s.Held j k) (hcall : cmd.call = some (s.callers k).call)
    (hpc : (s.callers k).pc = .waiting j ∨ (s.callers k).pc = .race j) :
    Inv { s.setTxn j { s.txn j with completed := true } with worker := .give j cmd.call } := by
  have hfilled := h.working
  rw [Working, hw] at hfilled
  obtain ⟨e, he, hecall, hresult, hrx⟩ := hfilled
  have hactive : (s.callers k).pc ≠ .idle := by
    rcases hpc with hpc | hpc
    all_goals simp [hpc]
  have hearly : ¬ (s.callers k).pc.Early := by
    rcases hpc with hpc | hpc
    all_goals
      rw [hpc]
      exact id
  refine h.serve rfl rfl rfl (List.Subset.refl _) ?_ ?_ ?_ ?_
  · intro i
    by_cases hij : i = j
    · subst hij
      refine .held k ⟨held.count, held.holds, held.unique, by simp⟩ (.finished ?_ ?_ ?_ ?_)
      · simp [flight, running, setTxn, hqueue]
      · rcases hpc with hpc | hpc
        · exact Or.inl hpc
        · exact Or.inr (Or.inl hpc)
      · simp [setTxn]
      · refine ⟨e, he, hecall.trans hcall, ?_, ?_⟩
        · simp [setTxn, hresult]
        · simp [setTxn, hrx]
    · refine (h.place i).same (same_of_ne hij rfl rfl rfl ?_ ?_ rfl)
      · simp [flight, running, setTxn, hw, Ne.symm hij]
      · simp [hw]
  · exact h.drained_complete j
  · exact h.woken_complete j
  · refine ⟨?_, ?_⟩
    · intro c hc
      rw [hcall] at hc
      obtain rfl := Option.some.inj hc
      exact h.fresh k hactive
    · intro k' hk' hc
      rw [hcall] at hc
      obtain rfl := h.distinct k k' hactive hk' (Option.some.inj hc)
      exact ⟨held.holds, by simp [setTxn], hearly⟩

/-- The caller has won it already, and the slot is the worker's. -/
theorem Inv.inherit (h : Inv s) {cmd : I2cCmd} {j : Slot} (hw : s.worker = .critical cmd j)
    (hqueue : (s.cmdQueue.filter fun cmd => cmd.slot = some j) = [])
    (hcount : s.freeSlots.count j = 0) (hvacant : ∀ k, ¬ s.Holds k j) :
    Inv { s.setTxn j { s.txn j with completed := true } with worker := .release j } := by
  refine h.serve rfl rfl rfl (List.Subset.refl _) ?_ ?_ ?_ trivial
  · intro i
    by_cases hij : i = j
    · subst hij
      refine .releasing hcount hvacant ?_ rfl
      simp [flight, running, setTxn, hqueue]
    · refine (h.place i).same (same_of_ne hij rfl rfl rfl ?_ ?_ rfl)
      · simp [flight, running, setTxn, hw, Ne.symm hij]
      · simp [hw, Ne.symm hij]
  · exact h.drained_complete j
  · exact h.woken_complete j

/-- The give, in time. -/
theorem Inv.give (h : Inv s) {j : Slot} {call : Option Nat} (hw : s.worker = .give j call)
    (hgiven : ∀ k, s.Holds k j → call ≠ some (s.callers k).call →
      (s.callers k).pc ≠ .send j ∧ (s.callers k).pc ≠ .waiting j) :
    Inv { s.setTxn j { s.txn j with done := true } with worker := .idle } := by
  have hworking := h.working
  rw [Working, hw] at hworking
  obtain ⟨-, hown⟩ := hworking
  refine h.serve rfl rfl rfl (List.Subset.refl _) ?_ ?_ ?_ trivial
  · intro i
    have hkeep {α : Type} (f : I2cTxn → α) (hf : f { s.txn j with done := true } = f (s.txn j)) :
        f (Function.update s.txn j { s.txn j with done := true } i) = f (s.txn i) :=
      txn_update f hf i
    refine (h.place i).same ⟨rfl, fun _ _ => rfl, ?_, ?_, hkeep I2cTxn.completed rfl,
      hkeep I2cTxn.abandoned rfl, ?_, List.Subset.refl _⟩
    · simp [flight, running, setTxn, hw]
    · simp [hw]
    · intro _
      exact ⟨hkeep I2cTxn.result rfl, hkeep I2cTxn.rx rfl⟩
  · intro k i hpc
    by_cases hij : i = j
    · subst hij
      have hholds : s.Holds k i := by
        rw [Holds, hpc]
        rfl
      by_cases hcall : call = some (s.callers k).call
      · obtain ⟨-, -, hearly⟩ := hown k (by simp [hpc]) hcall
        rw [hpc] at hearly
        exact absurd trivial hearly
      · exact absurd hpc (hgiven k hholds hcall).1
    · simp only [setTxn, Function.update_of_ne hij]
      exact h.drained k i hpc
  · intro k i hpc hdone
    by_cases hij : i = j
    · subst hij
      have hholds : s.Holds k i := by
        rw [Holds, hpc]
        rfl
      by_cases hcall : call = some (s.callers k).call
      · obtain ⟨-, hcompleted, -⟩ := hown k (by simp [hpc]) hcall
        simp [setTxn, hcompleted]
      · exact absurd hpc (hgiven k hholds hcall).2
    · simp only [setTxn, Function.update_of_ne hij] at hdone ⊢
      exact h.woken k i hpc hdone

/-- The worker frees a slot. -/
theorem Inv.free (h : Inv s) {j : Slot} (hw : s.worker = .release j) :
    Inv { s.releaseSlot j with worker := .idle } := by
  have hplace := h.place j
  cases hplace with
  | free count vacant flight calm => exact absurd hw calm
  | held k held hand => exact absurd hw held.calm
  | adrift cmd count vacant flight abandoned calm => exact absurd hw calm
  | releasing count vacant flight worker =>
      rw [freeSlots_releaseSlot h.place count]
      refine h.serve rfl rfl rfl (List.Subset.refl _) ?_ h.drained h.woken trivial
      intro i
      by_cases hij : i = j
      · subst hij
        refine .free (count_release count) vacant ?_ (by simp)
        simpa [Bus.flight, running, hw] using flight
      · refine (h.place i).same (same_of_queue rfl (count_release_of_ne hij) rfl ?_ ?_ rfl)
        · simp [Bus.flight, running, hw]
        · simp [hw, Ne.symm hij]

theorem Inv.workerStep (h : Inv s) {bus : Transfer} (hgiven : s.GivenInTime (.worker bus))
    (hstep : s.workerStep bus = some t) : Inv t := by
  unfold Bus.workerStep at hstep
  cases hw : s.worker with
  | idle =>
      rw [hw] at hstep
      dsimp only at hstep
      cases hqueue : s.cmdQueue with
      | nil =>
          rw [hqueue] at hstep
          cases hstep
      | cons cmd cmdQueue =>
          rw [hqueue] at hstep
          cases hstep
          exact h.pull hw hqueue
  | execute cmd =>
      rw [hw] at hstep
      dsimp only at hstep
      cases hslot : cmd.slot with
      | none =>
          rw [hslot] at hstep
          cases hstep
          exact h.execute_async hw hslot
      | some j =>
          rw [hslot] at hstep
          cases hstep
          exact h.execute hw hslot _ _
  | store cmd j result =>
      rw [hw] at hstep
      cases hstep
      exact h.store hw
  | critical cmd j =>
      rw [hw] at hstep
      cases hstep
      obtain ⟨hqueue, ⟨k, held, hcall, hpc, habandoned⟩ | ⟨hcount, hvacant, habandoned⟩⟩ :=
        (h.place j).critical hw
      · rw [habandoned, if_neg Bool.false_ne_true]
        exact h.complete hw hqueue held hcall hpc
      · rw [habandoned, if_pos rfl]
        exact h.inherit hw hqueue hcount hvacant
  | give j call =>
      rw [hw] at hstep
      cases hstep
      exact h.give hw (hgiven j call hw)
  | release j =>
      rw [hw] at hstep
      cases hstep
      exact h.free hw

/-! ## Runs -/

theorem Inv.step (h : Inv s) {e : Event} (hgiven : s.GivenInTime e)
    (hstep : s.step queueDepth e = some t) : Inv t := by
  cases e with
  | call k request rxLen =>
      simp only [Bus.step] at hstep
      split at hstep
      · next hpc =>
          cases hstep
          refine h.vacant ?_ rfl (Nat.le_succ _) (fun _ => ⟨Nat.le_refl _, Nat.lt_succ_self _⟩)
          intro j hj
          rw [Holds, hpc] at hj
          cases hj
      · cases hstep
  | caller k ok => exact h.callerStep hstep
  | post request =>
      simp only [Bus.step] at hstep
      split_ifs at hstep with hroom
      · cases hstep
        exact h.post rfl
      · cases hstep
        exact h.drop
  | worker bus => exact h.workerStep hgiven hstep

/-- Where the gives of a run come in time, every slot has one owner, and what a caller returns
came of its own command. -/
theorem oneOwner_of_givenInTime {es : List Event}
    (hgiven : Throughout (step queueDepth) GivenInTime {} es)
    (hrun : run (step queueDepth) {} es = some s) :
    (∀ i, s.OneOwner i) ∧ ∀ r ∈ s.returned, s.Own r.call r.rxLen r.result r.rx := by
  have h : Inv s := run_invariant (fun hinv hin hstep => hinv.step hin hstep) inv_init hgiven hrun
  exact ⟨fun i => (h.place i).oneOwner, h.returned⟩

/-- A caller moves in its own steps. -/
theorem callers_callerStep {ok : Bool} (hstep : s.callerStep queueDepth k ok = some t) {k' : Nat}
    (hk : k' ≠ k) : t.callers k' = s.callers k' := by
  unfold Bus.callerStep at hstep
  have hgoto : ∀ (u : Bus) (pc : Pc), u.callers = s.callers →
      (u.goto k pc).callers k' = s.callers k' := by
    intro u pc hu
    rw [goto, hu]
    exact Function.update_of_ne hk _ _
  have hrelease : ∀ j, (s.releaseSlot j).callers = s.callers := by
    intro j
    unfold releaseSlot
    split_ifs
    · rfl
    · rfl
  split at hstep
  all_goals try split_ifs at hstep
  all_goals try split at hstep
  all_goals cases hstep
  all_goals first
    | exact hgoto _ _ rfl
    | exact hgoto _ _ (hrelease _)

theorem callers_workerStep {bus : Transfer} (hstep : s.workerStep bus = some t) :
    t.callers = s.callers := by
  unfold Bus.workerStep at hstep
  split at hstep
  all_goals try split at hstep
  all_goals cases hstep
  all_goals try rfl
  unfold releaseSlot
  split_ifs
  · rfl
  · rfl

/-- One caller only, and gives for the call it makes. -/
def Alone (s : Bus) : Event → Prop
  | .call k _ _ => k = 0
  | .caller k _ => k = 0
  | .post _ => True
  | .worker _ =>
    match s.worker with
    | .give _ call => call = some (s.callers 0).call
    | _ => True

instance (s : Bus) (e : Event) : Decidable (s.Alone e) := by
  cases e with
  | call k request rxLen => exact instDecidableEqNat k 0
  | caller k ok => exact instDecidableEqNat k 0
  | post request => exact .isTrue trivial
  | worker bus =>
      unfold Alone
      cases s.worker with
      | give slot call => exact decEq call (some (s.callers 0).call)
      | _ => exact .isTrue trivial

/-- No other caller has a slot. -/
theorem givenInTime_of_alone {es : List Event} (h : Throughout (step queueDepth) Alone {} es) :
    Throughout (step queueDepth) GivenInTime {} es := by
  refine throughout_mono (I := fun s => ∀ k, k ≠ 0 → s.callers k = {}) ?_ ?_ (fun _ _ => rfl) h
  · intro s e t hinv halone hstep k hk
    rw [← hinv k hk]
    cases e with
    | call k' request rxLen =>
        obtain rfl : k' = 0 := halone
        simp only [Bus.step] at hstep
        split at hstep
        · cases hstep
          exact Function.update_of_ne hk _ _
        · cases hstep
    | caller k' ok =>
        obtain rfl : k' = 0 := halone
        exact callers_callerStep hstep hk
    | post request =>
        simp only [Bus.step] at hstep
        split_ifs at hstep
        · cases hstep
          rfl
        · cases hstep
          rfl
    | worker bus => rw [callers_workerStep hstep]
  · intro s e hinv halone
    cases e with
    | call k' request rxLen => trivial
    | caller k' ok => trivial
    | post request => trivial
    | worker bus =>
        intro j call hw k hholds hcall
        by_cases hk : k = 0
        · subst hk
          rw [Alone, hw] at halone
          exact absurd halone hcall
        · rw [Holds, hinv k hk] at hholds
          cases hholds

/-- What a task asks for. -/
def readTwo : Request := ⟨0x20, .writeRead, [1], 2⟩

/-- A transfer that works. -/
def transferTwo : Transfer := ⟨1, 2, [7, 8]⟩

/-- One call. -/
def oneCall : List Event :=
  .call 0 readTwo 2 :: List.replicate 4 (.caller 0 true) ++
    List.replicate 5 (.worker transferTwo) ++ List.replicate 3 (.caller 0 true)

set_option maxRecDepth 20000 in
theorem run_oneCall : (run (step 16) {} oneCall).map (fun s => s.returned) =
    some [⟨0, 2, 2, [7, 8]⟩] := by
  decide

set_option maxRecDepth 20000 in
theorem alone_oneCall : Throughout (step 16) Alone {} oneCall := by
  decide

theorem oneOwner_oneCall : ∃ s, run (step 16) {} oneCall = some s ∧
    s.returned = [⟨0, 2, 2, [7, 8]⟩] ∧ (∀ i, s.OneOwner i) ∧ s.Own 0 2 2 [7, 8] := by
  obtain ⟨s, hrun, hreturned⟩ := Option.map_eq_some_iff.mp run_oneCall
  obtain ⟨howner, hown⟩ := oneOwner_of_givenInTime (givenInTime_of_alone alone_oneCall) hrun
  refine ⟨s, hrun, hreturned, howner, ?_⟩
  exact hown ⟨0, 2, 2, [7, 8]⟩ (by rw [hreturned]; exact List.mem_singleton_self _)

/-- The give of the first call is late: the caller times out, sees the result and frees the
slot, and it goes round to the fifth call. -/
def lateGive : List Event :=
  Event.call 0 readTwo 2 :: List.replicate 4 (Event.caller 0 true) ++
    List.replicate 3 (Event.worker transferTwo) ++ Event.caller 0 false :: Event.worker transferTwo ::
    List.replicate 4 (Event.caller 0 true) ++
    [Event.call 1 readTwo 2, Event.caller 1 true, Event.call 2 readTwo 2, Event.caller 2 true,
      Event.call 3 readTwo 2, Event.caller 3 true] ++
    Event.call 4 readTwo 2 :: List.replicate 4 (Event.caller 4 true) ++ Event.worker transferTwo ::
    List.replicate 3 (Event.caller 4 true)

set_option maxRecDepth 20000 in
theorem run_lateGive : (run (step 16) {} lateGive).map
    (fun s => (s.returned, s.executed.map Execution.call)) =
      some ([⟨0, 2, 2, [7, 8]⟩, ⟨4, 2, i2cErrTimeout, []⟩], [some 0]) := by
  decide

/-- The fifth call returns before its command is executed. -/
theorem not_own_lateGive :
    ¬ ∀ (queueDepth : Nat) (es : List Event) (s : Bus), run (step queueDepth) {} es = some s →
      (∀ i, s.OneOwner i) ∧ ∀ r ∈ s.returned, s.Own r.call r.rxLen r.result r.rx := by
  intro h
  obtain ⟨s, hrun, hview⟩ := Option.map_eq_some_iff.mp run_lateGive
  obtain ⟨hreturned, hexecuted⟩ := Prod.mk.inj hview
  obtain ⟨e, he, hcall, -⟩ := (h 16 lateGive s hrun).2 ⟨4, 2, i2cErrTimeout, []⟩
    (by rw [hreturned]; exact List.mem_cons_of_mem _ (List.mem_singleton_self _))
  have hmem := List.mem_map_of_mem (f := Execution.call) he
  rw [hexecuted, hcall, List.mem_singleton] at hmem
  cases hmem

end Bus

end MFoES.Northbridge.I2cBus
