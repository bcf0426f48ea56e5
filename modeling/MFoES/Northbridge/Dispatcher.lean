import MFoES.Lib.Reactive
import MFoES.Lib.SlotTable
import MFoES.Northbridge.Request

/-!
# The dispatcher of the firmware

A handler is registered for a type of frame, in one of 16 bindings.  The dispatcher's task calls
the handler of each message it receives, and sends what the handler has written.

In every sequence of registrations and messages it acts like a finite map of at most 16 handlers
(`dispatcher_serves`): a registration replaces the handler of its type, and is refused for the idle
type, without a function, and where the map is full.
-/

namespace MFoES.Northbridge.Dispatcher

open Dspi

/-! ## Bindings -/

/-- `DSPI_MAX_HANDLERS`. -/
def dspiMaxHandlers : Nat := 16

/-- `DspiCommandFn`, of a message and the user pointer, on what it changes besides its reply. -/
abbrev CommandFn (U W : Type) := DspiMsg → Option U → W → DspiReply × W

/-- A function with its user pointer. -/
abbrev Handler (U W : Type) := CommandFn U W × Option U

/-- `Binding`.  One that is used has a function. -/
structure Binding (U W : Type) where
  fn : Option (CommandFn U W) := none
  user : Option U := none
  type : UInt8 := 0
  used : Bool := false
  bound : used = true → fn.isSome = true := by exact nofun

/-- `g_table`, `g_unknown`, `g_handled` and `g_unhandled`. -/
structure Table (U W : Type) where
  table : Fin dspiMaxHandlers → Binding U W := fun _ => {}
  unknown : Binding U W := {}
  handled : UInt32 := 0
  unhandled : UInt32 := 0

variable {U W : Type}

/-- What a binding calls. -/
def Binding.handler (b : Binding U W) : Option (Handler U W) := b.fn.map fun fn => (fn, b.user)

namespace Table

/-- `find`. -/
def find (t : Table U W) (type : UInt8) : Option (Fin dspiMaxHandlers) :=
  (List.finRange dspiMaxHandlers).find? fun i => (t.table i).used && (t.table i).type == type

/-- The first binding that is not used. -/
def firstUnused (t : Table U W) : Option (Fin dspiMaxHandlers) :=
  (List.finRange dspiMaxHandlers).find? fun i => !(t.table i).used

/-- `dspi_on`. -/
def dspiOn (t : Table U W) (type : UInt8) (fn : Option (CommandFn U W)) (user : Option U) :
    Table U W × Bool :=
  if h : type = dspiTypeIdle ∨ fn.isNone = true then (t, false)
  else
    let slot :=
      match t.find type with
      | some i => some i
      | none => t.firstUnused
    match slot with
    | none => (t, false)
    | some i =>
        let binding : Binding U W := ⟨fn, user, type, true, fun _ => by
          rw [not_or, Bool.not_eq_true, Option.isNone_eq_false_iff] at h
          exact h.2⟩
        ({ t with table := Function.update t.table i binding }, true)

/-- `dspi_on_unknown`. -/
def dspiOnUnknown (t : Table U W) (fn : Option (CommandFn U W)) (user : Option U) : Table U W :=
  { t with unknown := { t.unknown with
      fn := fn
      user := user
      used := false
      bound := nofun } }

/-- The handler of a type, or else the one of unknown types. -/
def binding (t : Table U W) (type : UInt8) : Option (Handler U W) :=
  match t.find type with
  | some i => (t.table i).handler
  | none => t.unknown.handler

end Table

/-- The arguments of `dspi_send`. -/
structure Reply where
  type : UInt8
  data : List UInt8
  flags : UInt8
deriving DecidableEq

/-- What a handler has written goes out. -/
def replyOf (type : UInt8) (reply : DspiReply) : Option Reply :=
  if 0 < reply.data.length then some ⟨type, reply.data, dspiFlagReply⟩ else none

namespace Table

/-- `dispatcher_task`, for a message. -/
def dispatch (t : Table U W) (w : W) (req : DspiMsg) : (Table U W × W) × Option Reply :=
  if req.flags &&& dspiFlagReply ≠ 0 then ((t, w), none)
  else
    match t.binding req.type with
    | none => (({ t with unhandled := t.unhandled + 1 }, w), none)
    | some (fn, user) =>
        let r := fn req user w
        (({ t with handled := t.handled + 1 }, r.2), replyOf req.type r.1)

end Table

/-! ## Calls -/

/-- What the firmware does with its dispatcher. -/
inductive Call (U W : Type) where
  | on (type : UInt8) (fn : Option (CommandFn U W)) (user : Option U)
  | onUnknown (fn : Option (CommandFn U W)) (user : Option U)
  /-- `dspi_receive` gives a message. -/
  | receive (req : DspiMsg)

/-- What comes of it. -/
inductive Result where
  | registered (accepted : Bool)
  | replied (reply : Option Reply)
deriving DecidableEq

/-- The dispatcher, on a call. -/
def react (s : Table U W × W) : Call U W → (Table U W × W) × List Result
  | .on type fn user =>
      let r := s.1.dspiOn type fn user
      ((r.1, s.2), [.registered r.2])
  | .onUnknown fn user => ((s.1.dspiOnUnknown fn user, s.2), [])
  | .receive req =>
      let r := s.1.dispatch s.2 req
      (r.1, [.replied r.2])

/-! ## A map of handlers -/

/-- The handlers by type, and what the task counts. -/
structure Handlers (U W : Type) where
  bound : AList fun _ : UInt8 => Handler U W := ∅
  unknown : Option (Handler U W) := none
  handled : UInt32 := 0
  unhandled : UInt32 := 0

namespace Handlers

/-- The map has the type, or room for it. -/
def HasRoom (m : Handlers U W) (type : UInt8) : Prop :=
  type ∈ m.bound ∨ m.bound.keys.length < dspiMaxHandlers

instance (m : Handlers U W) (type : UInt8) : Decidable (m.HasRoom type) :=
  inferInstanceAs (Decidable (_ ∨ _))

/-- A handler for a type. -/
def on (m : Handlers U W) (type : UInt8) (fn : Option (CommandFn U W)) (user : Option U) :
    Handlers U W × Bool :=
  match fn with
  | none => (m, false)
  | some fn =>
      if type ≠ dspiTypeIdle ∧ m.HasRoom type then
        ({ m with bound := m.bound.insert type (fn, user) }, true)
      else (m, false)

/-- The handler of a type, or else the one of unknown types. -/
def handler (m : Handlers U W) (type : UInt8) : Option (Handler U W) :=
  (m.bound.lookup type).or m.unknown

/-- The handlers, on a call.  A reply of the master is dropped. -/
def react (s : Handlers U W × W) : Call U W → (Handlers U W × W) × List Result
  | .on type fn user =>
      let r := s.1.on type fn user
      ((r.1, s.2), [.registered r.2])
  | .onUnknown fn user => (({ s.1 with unknown := fn.map fun fn => (fn, user) }, s.2), [])
  | .receive req =>
      if req.flags &&& dspiFlagReply ≠ 0 then (s, [.replied none])
      else
        match s.1.handler req.type with
        | none => (({ s.1 with unhandled := s.1.unhandled + 1 }, s.2), [.replied none])
        | some (fn, user) =>
            let r := fn req user s.2
            (({ s.1 with handled := s.1.handled + 1 }, r.2), [.replied (replyOf req.type r.1)])

end Handlers

/-! ## The bindings as a table of slots -/

namespace Table

/-- The bindings that are used. -/
def slots (t : Table U W) : SlotTable.Slots dspiMaxHandlers UInt8 (Handler U W) := fun i =>
  if (t.table i).used then (t.table i).handler.map fun h => ((t.table i).type, h) else none

variable {t : Table U W}

theorem slots_of_unused {i : Fin dspiMaxHandlers} (h : (t.table i).used = false) :
    t.slots i = none := by
  rw [slots, h]
  rfl

theorem slots_of_used {i : Fin dspiMaxHandlers} (h : (t.table i).used = true) :
    ∃ handler, (t.table i).handler = some handler ∧
      t.slots i = some ((t.table i).type, handler) := by
  obtain ⟨fn, hfn⟩ := Option.isSome_iff_exists.mp ((t.table i).bound h)
  have hhandler : (t.table i).handler = some (fn, (t.table i).user) := by
    rw [Binding.handler, hfn]
    rfl
  exact ⟨_, hhandler, by rw [slots, if_pos h, hhandler]; rfl⟩

theorem find_slots (type : UInt8) : SlotTable.find t.slots type = t.find type := by
  rw [SlotTable.find, find]
  congr 1
  funext i
  cases hused : (t.table i).used with
  | false => rw [slots_of_unused hused]; rfl
  | true =>
      obtain ⟨handler, -, hslot⟩ := slots_of_used hused
      rw [hslot]
      rfl

theorem free_slots : SlotTable.free t.slots = t.firstUnused := by
  rw [SlotTable.free, firstUnused]
  congr 1
  funext i
  cases hused : (t.table i).used with
  | false => rw [slots_of_unused hused]; rfl
  | true =>
      obtain ⟨handler, -, hslot⟩ := slots_of_used hused
      rw [hslot]
      rfl

/-- Nothing is registered for the idle type or without a function. -/
theorem dspiOn_refused {type : UInt8} {fn : Option (CommandFn U W)}
    (h : type = dspiTypeIdle ∨ fn.isNone = true) (user : Option U) :
    t.dspiOn type fn user = (t, false) := dif_pos h

/-- A registration puts its handler into the slots, where it can. -/
theorem dspiOn_put {type : UInt8} (htype : type ≠ dspiTypeIdle) (fn : CommandFn U W)
    (user : Option U) :
    (SlotTable.put t.slots type (fn, user) = none ∧ t.dspiOn type (some fn) user = (t, false)) ∨
      ∃ u, SlotTable.put t.slots type (fn, user) = some u.slots ∧ u.unknown = t.unknown ∧
        u.handled = t.handled ∧ u.unhandled = t.unhandled ∧
          t.dspiOn type (some fn) user = (u, true) := by
  have hgood : ¬ (type = dspiTypeIdle ∨ (some fn).isNone = true) := by
    rintro (h | h)
    · exact htype h
    · cases h
  have hupdate : ∀ (i : Fin dspiMaxHandlers) (hbound),
      ({ t with table := Function.update t.table i ⟨some fn, user, type, true, hbound⟩ } :
        Table U W).slots = Function.update t.slots i (some (type, (fn, user))) := by
    intro i hbound
    funext j
    by_cases hj : j = i
    · subst hj
      simp [slots, Binding.handler]
    · simp [slots, Function.update_of_ne hj]
  rw [SlotTable.put, find_slots, free_slots]
  simp only [dspiOn, dif_neg hgood]
  cases t.find type with
  | some i => exact Or.inr ⟨_, congrArg some (hupdate i fun _ => rfl).symm, rfl, rfl, rfl, rfl⟩
  | none =>
      cases t.firstUnused with
      | some i => exact Or.inr ⟨_, congrArg some (hupdate i fun _ => rfl).symm, rfl, rfl, rfl, rfl⟩
      | none => exact Or.inl ⟨rfl, rfl⟩

end Table

/-! ## The dispatcher serves the map -/

/-- The dispatcher has the handlers of the map. -/
structure Serves (t : Table U W) (m : Handlers U W) : Prop where
  bound : SlotTable.Represents t.slots m.bound
  room : m.bound.keys.length ≤ dspiMaxHandlers
  unknown : t.unknown.handler = m.unknown
  handled : t.handled = m.handled
  unhandled : t.unhandled = m.unhandled

theorem serves_init : Serves ({} : Table U W) {} where
  bound := SlotTable.represents_empty
  room := Nat.zero_le _
  unknown := rfl
  handled := rfl
  unhandled := rfl

namespace Serves

variable {t : Table U W} {m : Handlers U W}

theorem binding_eq (h : Serves t m) (type : UInt8) : t.binding type = m.handler type := by
  rw [Handlers.handler, ← h.bound.lookup_eq, SlotTable.lookup, Table.find_slots, Table.binding]
  cases hfind : t.find type with
  | none => exact h.unknown
  | some i =>
      have hboth := List.find?_some
        (p := fun i => (t.table i).used && (t.table i).type == type) hfind
      have hused : (t.table i).used = true := (Bool.and_eq_true_iff.mp hboth).1
      obtain ⟨handler, hhandler, hslot⟩ := Table.slots_of_used hused
      rw [Option.bind_some, hslot]
      exact hhandler

theorem on (h : Serves t m) (type : UInt8) (fn : Option (CommandFn U W)) (user : Option U) :
    Serves (t.dspiOn type fn user).1 (m.on type fn user).1 ∧
      (m.on type fn user).2 = (t.dspiOn type fn user).2 := by
  cases fn with
  | none =>
      rw [Table.dspiOn_refused (Or.inr rfl)]
      exact ⟨h, rfl⟩
  | some fn =>
      by_cases htype : type = dspiTypeIdle
      · have hrefused : m.on type (some fn) user = (m, false) := if_neg fun hgood => hgood.1 htype
        rw [Table.dspiOn_refused (Or.inl htype), hrefused]
        exact ⟨h, rfl⟩
      · have hon : m.on type (some fn) user = if m.HasRoom type then
            ({ m with bound := m.bound.insert type (fn, user) }, true) else (m, false) := by
          simp only [Handlers.on, ne_eq, htype, not_false_eq_true, true_and]
        rcases h.bound.put type (fn, user) with ⟨hroom, u, hput, hnext⟩ | ⟨hfull, hput⟩
        · rcases Table.dspiOn_put htype fn user with ⟨hnone, -⟩ | ⟨t', hput', hu, hh, hn, hdone⟩
          · rw [hput] at hnone
            cases hnone
          · rw [hput] at hput'
            cases hput'
            rw [hdone, hon, if_pos (show m.HasRoom type from hroom)]
            refine ⟨⟨hnext, ?_, hu ▸ h.unknown, hh ▸ h.handled, hn ▸ h.unhandled⟩, rfl⟩
            rw [hnext.length_keys]
            exact (Finset.card_le_univ _).trans_eq (Fintype.card_fin _)
        · rcases Table.dspiOn_put htype fn user with ⟨-, hdone⟩ | ⟨t', hput', -⟩
          · rw [hdone, hon, if_neg (show ¬ m.HasRoom type from hfull)]
            exact ⟨h, rfl⟩
          · rw [hput] at hput'
            cases hput'

theorem onUnknown (h : Serves t m) (fn : Option (CommandFn U W)) (user : Option U) :
    Serves (t.dspiOnUnknown fn user) { m with unknown := fn.map fun fn => (fn, user) } :=
  ⟨h.bound, h.room, rfl, h.handled, h.unhandled⟩

/-- Handlers of different types are registered one after another, where there is room for all. -/
theorem registered (h : Serves t m) {rs : List (UInt8 × CommandFn U W)}
    (hidle : ∀ r ∈ rs, r.1 ≠ dspiTypeIdle) (hnodup : (rs.map Prod.fst).Nodup)
    (hroom : m.bound.keys.length + rs.length ≤ dspiMaxHandlers) :
    ∃ m', Serves (rs.foldl (fun t r => (t.dspiOn r.1 (some r.2) none).1) t) m' ∧
      m'.unknown = m.unknown ∧ ∀ type, m'.bound.lookup type =
        ((rs.lookup type).map fun fn => (fn, none)).or (m.bound.lookup type) := by
  induction rs generalizing t m with
  | nil => exact ⟨m, h, rfl, fun _ => rfl⟩
  | cons r rs ih =>
      rw [List.map_cons, List.nodup_cons] at hnodup
      rw [List.length_cons] at hroom
      have hon : m.on r.1 (some r.2) none =
          ({ m with bound := m.bound.insert r.1 (r.2, none) }, true) :=
        if_pos ⟨hidle r List.mem_cons_self, Or.inr (by omega)⟩
      have hnext := (h.on r.1 (some r.2) none).1
      rw [hon] at hnext
      have hkeys : (m.bound.insert r.1 (r.2, none)).keys.length ≤ m.bound.keys.length + 1 := by
        rw [AList.keys_insert, List.length_cons]
        exact Nat.succ_le_succ List.length_erase_le
      obtain ⟨m', hserves, hunknown, hlookup⟩ := ih hnext
        (fun r' hr' => hidle r' (List.mem_cons_of_mem r hr')) hnodup.2 (by dsimp only; omega)
      refine ⟨m', hserves, hunknown, fun type => ?_⟩
      rw [hlookup, List.lookup_cons]
      by_cases htype : type = r.1
      · subst htype
        have hnone : rs.lookup r.1 = none := by
          rw [List.lookup_eq_none_iff]
          intro r' hr'
          rw [bne_iff_ne]
          intro heq
          exact hnodup.1 (heq ▸ List.mem_map_of_mem hr')
        rw [hnone, AList.lookup_insert, beq_self_eq_true]
        rfl
      · rw [AList.lookup_insert_ne htype, beq_false_of_ne htype]

/-- A call keeps this, and comes to the same. -/
theorem react (h : Serves t m) (w : W) (c : Call U W) :
    Serves (Dispatcher.react (t, w) c).1.1 (Handlers.react (m, w) c).1.1 ∧
      (Handlers.react (m, w) c).1.2 = (Dispatcher.react (t, w) c).1.2 ∧
        (Handlers.react (m, w) c).2 = (Dispatcher.react (t, w) c).2 := by
  cases c with
  | on type fn user =>
      obtain ⟨hnext, hresult⟩ := h.on type fn user
      exact ⟨hnext, rfl, by rw [Handlers.react, Dispatcher.react, hresult]⟩
  | onUnknown fn user =>
      exact ⟨h.onUnknown fn user, rfl, rfl⟩
  | receive req =>
      simp only [Dispatcher.react, Handlers.react, Table.dispatch]
      by_cases hreply : req.flags &&& dspiFlagReply ≠ 0
      · simp only [if_pos hreply]
        exact ⟨h, trivial, trivial⟩
      · simp only [if_neg hreply, h.binding_eq]
        cases m.handler req.type with
        | none =>
            exact ⟨⟨h.bound, h.room, h.unknown, h.handled, by rw [h.unhandled]⟩, rfl, rfl⟩
        | some handler =>
            exact ⟨⟨h.bound, h.room, h.unknown, by rw [h.handled], h.unhandled⟩, rfl, rfl⟩

end Serves

/-- In every sequence of registrations and messages, the dispatcher accepts and refuses, answers,
counts and changes what a map of at most 16 handlers does. -/
theorem dispatcher_serves (w : W) (calls : List (Call U W)) :
    (Reactive.run react ({}, w) calls).2 = (Reactive.run Handlers.react ({}, w) calls).2 ∧
      (Reactive.run react ({}, w) calls).1.2 = (Reactive.run Handlers.react ({}, w) calls).1.2 ∧
      (Reactive.run react ({}, w) calls).1.1.handled =
        (Reactive.run Handlers.react ({}, w) calls).1.1.handled ∧
      (Reactive.run react ({}, w) calls).1.1.unhandled =
        (Reactive.run Handlers.react ({}, w) calls).1.1.unhandled ∧
      (Reactive.run Handlers.react ({}, w) calls).1.1.bound.keys.length ≤ dspiMaxHandlers ∧
      ∀ type, (Reactive.run react ({}, w) calls).1.1.binding type =
        (Reactive.run Handlers.react ({}, w) calls).1.1.handler type := by
  have hstep : ∀ {s : Table U W × W} {r : Handlers U W × W} (c : Call U W),
      (Serves s.1 r.1 ∧ r.2 = s.2) →
        (Serves (react s c).1.1 (Handlers.react r c).1.1 ∧
          (Handlers.react r c).1.2 = (react s c).1.2) ∧
            (Handlers.react r c).2 = (react s c).2 := by
    rintro ⟨t, w⟩ ⟨m, w'⟩ c ⟨h, rfl⟩
    obtain ⟨hnext, hworld, hresult⟩ := h.react w' c
    exact ⟨⟨hnext, hworld⟩, hresult⟩
  obtain ⟨⟨hend, hworld⟩, hresults⟩ := Reactive.run_simulates
    (R := fun (s : Table U W × W) (r : Handlers U W × W) => Serves s.1 r.1 ∧ r.2 = s.2) hstep
    (s := ({}, w)) (t := ({}, w)) ⟨serves_init, rfl⟩ calls
  exact ⟨hresults.symm, hworld.symm, hend.handled, hend.unhandled, hend.room, hend.binding_eq⟩

end MFoES.Northbridge.Dispatcher
