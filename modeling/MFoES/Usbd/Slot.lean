import MFoES.Usbd.ReadAll
import MFoES.Usbd.RxPath

/-!
# The owners of a channel

An element of `channels` is used by one application after another.  When one
connects, `ipc_accept_thread` initialises the element, provided that it is not
active, and starts three threads on it.  The threads are detached, and each goes on
until it happens to see `active` cleared.  By then another application may have
connected, and `active` may be set again.

`Slot` is an element of `channels` with all the threads that were started on it.
The threads take the steps of `TxPath` and of `RxPath`.  A run is any interleaving
of them with the events from outside (`Env`): applications that connect and go
away, and frames of the host.

While every application that is let in finds all threads returned, the running
threads are those of one owner (`exclusive_of_vacant`).
-/

namespace MFoES.Usbd

open Transition Usbproto

/-- The threads that are started for an owner. -/
inductive Kind where
  | tx
  | rx
  | reader
deriving DecidableEq, Repr

/-- Where a thread stands, with its local variables. -/
inductive Body where
  /-- `channel_tx_thread`. -/
  | tx (pc : TxPc) (txbuf : Fin 2 → List UInt8) (cur : Fin 2)
  /-- `channel_rx_thread`. -/
  | rx (pc : RxPc)
  /-- `app_reader_thread`.  In a call of `read_all`, `fd` is the socket it was given. -/
  | reader (pc : ReaderPc) (fd : Option Nat)

namespace Body

/-- A thread that has just been started. -/
def start : Kind → Body
  | .tx => .tx .prefillWait (fun _ => []) ⟨0, Nat.two_pos⟩
  | .rx => .rx .loopHead
  | .reader => .reader .loopHead none

def kind : Body → Kind
  | .tx _ _ _ => .tx
  | .rx _ => .rx
  | .reader _ _ => .reader

/-- The thread has not returned. -/
def Running : Body → Prop
  | .tx pc _ _ => pc ≠ .exited
  | .rx pc => pc ≠ .exited
  | .reader pc _ => pc ≠ .exited

instance : DecidablePred Running
  | .tx _ _ _ => inferInstanceAs (Decidable (_ ≠ _))
  | .rx _ => inferInstanceAs (Decidable (_ ≠ _))
  | .reader _ _ => inferInstanceAs (Decidable (_ ≠ _))

@[simp] theorem kind_start (k : Kind) : (start k).kind = k := by
  cases k <;> rfl

theorem running_start (k : Kind) : (start k).Running := by
  cases k <;> exact nofun

end Body

/-- A thread, and the socket of the application it was started for. -/
structure Thread where
  owner : Option Nat
  body : Body

/-- What `ipc_accept_thread` has yet to do for an application it has let in. -/
inductive AcceptAct where
  | sendOpen
  | spawn (k : Kind)
deriving DecidableEq, Repr

/-- An element of `channels`, with the threads that use it.  The sockets of the
applications are numbered in the order of `accept`. -/
structure Slot where
  id : UInt8
  sockFd : Option Nat
  active : Bool
  rxRing : RingBuffer ringSize
  txRing : RingBuffer ringSize
  /-- The rest of a pass of `ipc_accept_thread`. -/
  todo : List AcceptAct
  /-- What `usb_rx_thread` has yet to do for the frame it dispatches. -/
  pending : List Action
  /-- What its last ring write returned. -/
  written : Nat
  /-- The threads, in the order in which they were started. -/
  threads : List Thread
  /-- How many applications have connected. -/
  connects : Nat
  /-- The sockets on which a read may fail, or give a length that is refused. -/
  gone : List Nat
  /-- The frames of the channel that went out. -/
  wire : List Frame
  /-- The messages for applications, with the sockets they were written to. -/
  toApp : List (Option Nat × List UInt8)

/-- What comes from outside. -/
inductive Env where
  /-- An application connects and asks for the channel. -/
  | connect
  /-- An application closes its end.  Reads give no bytes then, and `read_all` tries
  again. -/
  | disconnect (fd : Nat)
  /-- An application goes away so that its reader sees it: it leaves messages unread,
  and reads fail, or the last length it sends is refused. -/
  | hangUp (fd : Nat)
  /-- `usb_rx_thread` recognises a frame for the channel. -/
  | frame (f : Frame)
deriving DecidableEq, Repr

/-- What a thread of the channel can do. -/
inductive Move where
  /-- A step.  `ok` is whether a USB write in it succeeds. -/
  | step (ok : Bool)
  /-- A wait times out. -/
  | timeout
  /-- `read_all` is called. -/
  | call
  /-- `read_all` returns the four bytes of a length. -/
  | readLen (plen : UInt32)
  /-- `read()` returns bytes of a chunk. -/
  | readSome (bytes : List UInt8)
  /-- `read_all` fails. -/
  | readFail
deriving DecidableEq, Repr

namespace Slot

inductive Event where
  | env (x : Env)
  /-- `ipc_accept_thread` takes a step.  `ok` is whether a USB write in it succeeds. -/
  | accept (ok : Bool)
  /-- `usb_rx_thread` does the next thing for a frame. -/
  | usbRx
  /-- The thread with index `i` moves. -/
  | thread (i : Nat) (m : Move)
deriving DecidableEq, Repr

/-- What comes from outside in a run. -/
def envOf (es : List Event) : List Env :=
  es.filterMap fun
    | .env x => some x
    | _ => none

/-! ## The threads of the channel -/

/-- The way to USB, as threads at `reader` and `tx` find it. -/
def txPath (s : Slot) (reader : ReaderPc) (tx : TxPc) (txbuf : Fin 2 → List UInt8)
    (cur : Fin 2) : TxPath :=
  ⟨s.id, s.txRing, s.active, reader, tx, txbuf, cur, s.wire, false, [], []⟩

/-- The slot behind a step on the way to USB. -/
def afterTx (s : Slot) (t : TxPath) : Slot :=
  { s with txRing := t.txRing, active := t.active, wire := t.wire }

/-- The way from USB, as a thread at `pc` finds it. -/
def rxPath (s : Slot) (pc : RxPc) : RxPath := ⟨s.rxRing, s.active, s.pending, s.written, pc, [], []⟩

/-- The slot behind a step on the way from USB. -/
def afterRx (s : Slot) (t : RxPath) : Slot :=
  { s with
    rxRing := t.rxRing
    active := t.active
    written := t.written
    toApp := s.toApp ++ t.app.map fun m => (s.sockFd, m) }

/-- The next thing is a call of `read_all`. -/
def AtCall : ReaderPc → Prop
  | .readLen | .readChunk _ [] => True
  | _ => False

instance : DecidablePred AtCall := fun pc => by
  unfold AtCall
  split <;> infer_instance

/-- A move of the reader, as an event of `TxPath`.  `fd` is the socket of the call of
`read_all`. -/
def readerEvent (s : Slot) : Option Nat → Move → Option TxPath.Event
  | _, .step ok => some (.reader ok)
  | some fd, .readLen plen =>
      if AppReader.Refused plen ∧ fd ∉ s.gone then none else some (.readLen plen)
  | some _, .readSome bytes => some (.readSome bytes)
  | some fd, .readFail => if fd ∈ s.gone then some .readFail else none
  | _, _ => none

/-- The socket of the call of `read_all`, while it has not returned. -/
def callFd (fd : Option Nat) : ReaderPc → Option Nat
  | .readChunk _ (_ :: _) => fd
  | _ => none

/-- A move of a thread, unless it has to wait. -/
def move (s : Slot) : Body → Move → Option (Slot × Body)
  | .tx pc txbuf cur, .step ok =>
      ((s.txPath .exited pc txbuf cur).step (.tx ok)).map fun t =>
        (s.afterTx t, .tx t.tx t.txbuf t.cur)
  | .tx _ _ _, _ => none
  | .rx pc, .step _ => ((s.rxPath pc).step .rx).map fun t => (s.afterRx t, .rx t.pc)
  | .rx pc, .timeout => ((s.rxPath pc).step .timeout).map fun t => (s.afterRx t, .rx t.pc)
  | .rx _, _ => none
  | .reader pc none, .call => if AtCall pc then some (s, .reader pc s.sockFd) else none
  | .reader pc fd, m =>
      (s.readerEvent fd m).bind fun e =>
        ((s.txPath pc .exited (fun _ => []) ⟨0, Nat.two_pos⟩).step e).map fun t =>
          (s.afterTx t, .reader t.reader (callFd fd t.reader))

/-! ## The steps -/

/-- `ipc_accept_thread` takes up an application: it is turned away, or `Channel::init`
is called.  `ring` is what `RingBuffer::init` leaves. -/
def connect (ring : RingBuffer ringSize) (s : Slot) : Slot :=
  if s.active then { s with connects := s.connects + 1 }
  else
    { s with
      sockFd := some s.connects
      active := true
      rxRing := ring
      txRing := ring
      todo := [.sendOpen, .spawn .tx, .spawn .rx, .spawn .reader]
      connects := s.connects + 1 }

/-- An event from outside, unless the thread that takes it up is busy. -/
def envStep (ring : RingBuffer ringSize) (s : Slot) : Env → Option Slot
  | .connect => if s.todo = [] then some (s.connect ring) else none
  | .disconnect _ => some s
  | .hangUp fd => some (if fd < s.connects then { s with gone := fd :: s.gone } else s)
  | .frame f => if s.pending = [] then some { s with pending := react s.active f } else none

/-- A step of `ipc_accept_thread` behind `Channel::init`. -/
def acceptStep (s : Slot) (ok : Bool) : Option Slot :=
  match s.todo with
  | [] => none
  | .sendOpen :: todo =>
      some { s with
        wire := if ok then s.wire ++ [⟨s.id, flagOpen, []⟩] else s.wire
        todo }
  | .spawn k :: todo => some { s with threads := s.threads ++ [⟨s.sockFd, .start k⟩], todo }

/-- A step of `usb_rx_thread` for a frame. -/
def usbRxStep (s : Slot) : Option Slot :=
  match s.pending with
  | [] => none
  | a :: pending =>
      some { s.afterRx ((s.rxPath .exited).act a) with
        pending
        wire := match a with
          | .sendFrame f => s.wire ++ [f]
          | _ => s.wire }

/-- A move of the thread with index `i`. -/
def threadStep (s : Slot) (i : Nat) (m : Move) : Option Slot :=
  s.threads[i]?.bind fun th =>
    (s.move th.body m).map fun (t, body) => { t with threads := s.threads.set i ⟨th.owner, body⟩ }

/-- One step. -/
def step (ring : RingBuffer ringSize) (s : Slot) : Event → Option Slot
  | .env x => s.envStep ring x
  | .accept ok => s.acceptStep ok
  | .usbRx => s.usbRxStep
  | .thread i m => s.threadStep i m

/-- The slot before the first application. -/
def start (id : UInt8) (ring : RingBuffer ringSize) : Slot :=
  ⟨id, none, false, ring, ring, [], [], 0, [], 0, [], [], []⟩

/-! ## Exclusive ownership -/

/-- The threads that have not returned. -/
def running (s : Slot) : List Thread := s.threads.filter fun th => th.body.Running

/-- All running threads were started for the application that the slot belongs to, and
there is at most one of each kind. -/
def Exclusive (s : Slot) : Prop :=
  (∀ th ∈ s.running, th.owner = s.sockFd) ∧ (s.running.map fun th => th.body.kind).Nodup

instance (s : Slot) : Decidable s.Exclusive := inferInstanceAs (Decidable (_ ∧ _))

/-! ## What a move does -/

variable {ring : RingBuffer ringSize} {s t : Slot}

/-- What a move of a thread leaves alone. -/
structure Keeps (s t : Slot) : Prop where
  sockFd : t.sockFd = s.sockFd
  todo : t.todo = s.todo
  pending : t.pending = s.pending
  connects : t.connects = s.connects
  gone : t.gone = s.gone

theorem keeps_afterTx (s : Slot) (u : TxPath) : Keeps s (s.afterTx u) := ⟨rfl, rfl, rfl, rfl, rfl⟩

theorem keeps_afterRx (s : Slot) (u : RxPath) : Keeps s (s.afterRx u) := ⟨rfl, rfl, rfl, rfl, rfl⟩

/-- A reader that takes a step has not returned. -/
theorem reader_running {u v : TxPath} {fd : Option Nat} {m : Move} {e : TxPath.Event}
    (he : s.readerEvent fd m = some e) (hs : u.step e = some v) : u.reader ≠ .exited := by
  intro hpc
  have hreader : ∀ ok, u.readerStep ok = none := fun ok => by rw [TxPath.readerStep, hpc]
  rw [readerEvent.eq_def] at he
  split at he
  · cases he
    rw [TxPath.step, hreader] at hs
    cases hs
  · split at he
    · cases he
    · cases he
      rw [TxPath.step, hpc] at hs
      cases hs
  · cases he
    rw [TxPath.step, hpc] at hs
    cases hs
  · split at he
    · cases he
      rw [TxPath.step, hpc] at hs
      cases hs
    · cases he
  · cases he

/-- A thread that moves has not returned, and it remains the thread that it is. -/
theorem move_spec {body body' : Body} {m : Move} (h : s.move body m = some (t, body')) :
    body.Running ∧ body'.kind = body.kind ∧ Keeps s t := by
  rw [move.eq_def] at h
  split at h
  next pc txbuf cur ok =>
    obtain ⟨u, hu, heq⟩ := Option.map_eq_some_iff.mp h
    cases heq
    exact ⟨(TxPath.sameReader_txStep hu).1, rfl, keeps_afterTx s u⟩
  next => cases h
  next pc ok =>
    obtain ⟨u, hu, heq⟩ := Option.map_eq_some_iff.mp h
    cases heq
    exact ⟨(RxPath.sameRest_rxStep hu).1, rfl, keeps_afterRx s u⟩
  next pc =>
    obtain ⟨u, hu, heq⟩ := Option.map_eq_some_iff.mp h
    cases heq
    exact ⟨(RxPath.sameRest_timeout hu).1, rfl, keeps_afterRx s u⟩
  next => cases h
  next pc =>
    split at h
    next hcall =>
      cases h
      refine ⟨fun hpc => ?_, rfl, rfl, rfl, rfl, rfl, rfl⟩
      rw [hpc] at hcall
      exact hcall
    next => cases h
  next pc fd =>
    obtain ⟨e, he, hmap⟩ := Option.bind_eq_some_iff.mp h
    obtain ⟨u, hu, heq⟩ := Option.map_eq_some_iff.mp hmap
    cases heq
    exact ⟨reader_running he hu, rfl, keeps_afterTx s u⟩

/-- The thread at index `i` has moved. -/
theorem threadStep_spec {i : Nat} {m : Move} (h : s.threadStep i m = some t) :
    ∃ th u body, s.threads[i]? = some th ∧ s.move th.body m = some (u, body) ∧
      t = { u with threads := s.threads.set i ⟨th.owner, body⟩ } := by
  obtain ⟨th, hth, hmap⟩ := Option.bind_eq_some_iff.mp h
  obtain ⟨⟨u, body⟩, hmove, heq⟩ := Option.map_eq_some_iff.mp hmap
  exact ⟨th, u, body, hth, hmove, heq.symm⟩

/-- The owners and the kinds of the running threads. -/
def tags (s : Slot) : List (Option Nat × Kind) := s.running.map fun th => (th.owner, th.body.kind)

theorem map_set_sublist {th : Thread} {body : Body} (hrunning : th.body.Running)
    (hkind : body.kind = th.body.kind) {threads : List Thread} :
    ∀ {i : Nat}, threads[i]? = some th →
      (((threads.set i ⟨th.owner, body⟩).filter fun th => th.body.Running).map
          fun th => (th.owner, th.body.kind)).Sublist
        ((threads.filter fun th => th.body.Running).map fun th => (th.owner, th.body.kind)) := by
  induction threads with
  | nil =>
      intro i hi
      cases hi
  | cons a threads ih =>
      intro i hi
      cases i with
      | zero =>
          cases hi
          rw [List.set_cons_zero, List.filter_cons, List.filter_cons_of_pos (by simpa using hrunning)]
          split
          · rw [List.map_cons, List.map_cons, hkind]
          · exact List.sublist_cons_self _ _
      | succ i =>
          have hrest := ih hi
          rw [List.set_cons_succ, List.filter_cons, List.filter_cons]
          split
          · rw [List.map_cons, List.map_cons]
            exact hrest.cons_cons _
          · exact hrest

/-- No move adds to the running threads. -/
theorem tags_threadStep {i : Nat} {m : Move} (h : s.threadStep i m = some t) :
    t.tags.Sublist s.tags ∧ Keeps s t := by
  obtain ⟨th, u, body, hth, hmove, rfl⟩ := threadStep_spec h
  obtain ⟨hrunning, hkind, hkeeps⟩ := move_spec hmove
  exact ⟨map_set_sublist hrunning hkind hth,
    ⟨hkeeps.sockFd, hkeeps.todo, hkeeps.pending, hkeeps.connects, hkeeps.gone⟩⟩

/-! ## Owners that come when the threads have returned -/

/-- The threads that are to be started. -/
def spawns (todo : List AcceptAct) : List Kind :=
  todo.filterMap fun
    | .spawn k => some k
    | .sendOpen => none

/-- The running threads belong to the owner, and are not to be started again. -/
structure Owned (s : Slot) : Prop where
  owner : ∀ g ∈ s.tags, g.1 = s.sockFd
  kinds : (s.tags.map Prod.snd ++ spawns s.todo).Nodup

theorem Owned.exclusive (h : Owned s) : s.Exclusive := by
  constructor
  · intro th hth
    exact h.owner _ (List.mem_map_of_mem hth)
  · have hkinds := h.kinds.sublist (List.sublist_append_left _ _)
    rw [tags, List.map_map] at hkinds
    exact hkinds

theorem Owned.of_sublist (h : Owned s) (htags : t.tags.Sublist s.tags)
    (hfd : t.sockFd = s.sockFd) (htodo : t.todo = s.todo) : Owned t := by
  constructor
  · intro g hg
    rw [hfd]
    exact h.owner g (htags.subset hg)
  · rw [htodo]
    exact h.kinds.sublist ((htags.map Prod.snd).append_right _)

theorem owned_start (id : UInt8) (ring : RingBuffer ringSize) : Owned (start id ring) :=
  ⟨fun _ hg => absurd hg List.not_mem_nil, List.nodup_nil⟩

/-- An application that is let in finds that all threads have returned. -/
def Vacant (s : Slot) (e : Event) : Prop := e = .env .connect → s.active = false → s.running = []

theorem owned_connect (h : Owned s) (hvacant : s.active = false → s.running = []) :
    Owned (s.connect ring) := by
  rw [connect]
  cases hactive : s.active with
  | true => exact h.of_sublist (List.Sublist.refl _) rfl rfl
  | false =>
      have htags : s.tags = [] := by rw [tags, hvacant hactive, List.map_nil]
      constructor
      · intro g hg
        exact absurd (htags ▸ hg : g ∈ []) List.not_mem_nil
      · have hkinds : (s.tags.map Prod.snd ++ [Kind.tx, .rx, .reader]).Nodup := by
          rw [htags]
          decide
        exact hkinds

theorem owned_acceptStep {ok : Bool} (h : Owned s) (hs : s.acceptStep ok = some t) : Owned t := by
  rw [acceptStep.eq_def] at hs
  split at hs
  next => cases hs
  next todo htodo =>
    cases hs
    refine ⟨h.owner, ?_⟩
    have hkinds := h.kinds
    rw [htodo] at hkinds
    exact hkinds
  next k todo htodo =>
    cases hs
    have htags : tags { s with threads := s.threads ++ [⟨s.sockFd, .start k⟩], todo } =
        s.tags ++ [(s.sockFd, k)] := by
      simp only [tags, running, List.filter_append, List.map_append]
      rw [List.filter_cons_of_pos (by simpa using Body.running_start k)]
      simp
    have hkinds := h.kinds
    rw [htodo] at hkinds
    constructor
    · intro g hg
      rw [htags] at hg
      rcases List.mem_append.mp hg with hg | hg
      · exact h.owner g hg
      · rw [List.mem_singleton.mp hg]
    · rw [htags, List.map_append, List.append_assoc]
      exact hkinds

theorem owned_step {e : Event} (h : Owned s) (hvacant : Vacant s e)
    (hs : step ring s e = some t) : Owned t := by
  cases e with
  | env x =>
      rw [step, envStep.eq_def] at hs
      split at hs
      · split at hs
        · cases hs
          exact owned_connect h (hvacant rfl)
        · cases hs
      · cases hs
        exact h
      · cases hs
        split
        · exact h.of_sublist (List.Sublist.refl _) rfl rfl
        · exact h
      · split at hs
        · cases hs
          exact h.of_sublist (List.Sublist.refl _) rfl rfl
        · cases hs
  | accept ok => exact owned_acceptStep h hs
  | usbRx =>
      rw [step, usbRxStep.eq_def] at hs
      split at hs
      · cases hs
      · cases hs
        exact h.of_sublist (List.Sublist.refl _) rfl rfl
  | thread i m =>
      obtain ⟨htags, hkeeps⟩ := tags_threadStep hs
      exact h.of_sublist htags hkeeps.sockFd hkeeps.todo

/-- The running threads are those of one owner, while every application that is let in
finds that the threads before have returned. -/
theorem exclusive_of_vacant {id : UInt8} {es : List Event}
    (hvacant : Throughout (step ring) Vacant (start id ring) es)
    (hrun : run (step ring) (start id ring) es = some t) : t.Exclusive :=
  (run_invariant owned_step (owned_start id ring) hvacant hrun).exclusive

end Slot

end MFoES.Usbd
