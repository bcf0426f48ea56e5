import MFoES.Usbd.Slot

/-!
# In which order owners may come

Whether an application that is let in finds the threads returned is up to the
scheduler.  What comes from outside does not settle it: nothing waits for the
threads, and a host that closes a channel, or an application that goes away, only
takes `active` back.

So the order of the events from outside keeps the threads of two owners apart, in
all interleavings, exactly when it gives the channel away once: no application
connects behind an event that ends the first owner's time (`exclusive_iff`).
-/

namespace MFoES.Usbd

namespace Slot

open Transition Usbproto

variable {ring : RingBuffer ringSize} {s t : Slot} {id : UInt8}

/-- The first owner's time ends: with a CLOSE of the host, or with the application gone
so that its reader sees it. -/
def Ends : Env → Prop
  | .frame f => f.flags = flagClose
  | .hangUp fd => fd = 0
  | _ => False

/-- An application connects after the first owner's time. -/
def Reuses (es : List Env) : Prop := ∃ x, Ends x ∧ [.connect, x, .connect].Sublist es

/-! ## The dispatch of a frame -/

/-- What the events leave alone in which nobody connects and no thread of an owner
moves. -/
structure SameThreads (s t : Slot) : Prop where
  sockFd : t.sockFd = s.sockFd
  todo : t.todo = s.todo
  threads : t.threads = s.threads
  connects : t.connects = s.connects

/-- A step of `usb_rx_thread`: it does the next thing, which may be to clear `active`. -/
theorem usbRxStep_spec (h : s.usbRxStep = some t) :
    ∃ a, s.pending = a :: t.pending ∧ SameThreads s t ∧ t.gone = s.gone ∧
      (t.active = true ↔ s.active = true ∧ ∀ cid, a ≠ .clearActive cid) := by
  rw [usbRxStep.eq_def] at h
  split at h
  next => cases h
  next a pending hpending =>
    cases h
    refine ⟨a, hpending, ⟨rfl, rfl, rfl, rfl⟩, rfl, ?_⟩
    cases a with
    | clearActive cid => exact iff_of_false (by simp [afterRx, RxPath.act]) fun h => h.2 cid rfl
    | readActive cid => exact (and_iff_left fun _ => by simp).symm
    | writeRx cid data => exact (and_iff_left fun _ => by simp).symm
    | sendFrame f => exact (and_iff_left fun _ => by simp).symm

theorem clearActive_not_mem_react {active : Bool} {f : Frame}
    (h : active = true → f.flags ≠ flagClose) (cid : Nat) : .clearActive cid ∉ react active f := by
  rw [react]
  split_ifs with hdata hopen hclose
  · simp
  · simp
  · exact absurd hclose.1 (h hclose.2)
  · simp

theorem clearActive_mem_react {f : Frame} (h : f.flags = flagClose) :
    .clearActive f.channel.toNat ∈ react true f := by
  rw [react, if_neg (by rw [h]; exact fun hd => absurd hd.1 (by decide)),
    if_neg (by rw [h]; decide), if_pos ⟨h, rfl⟩]
  exact List.mem_cons_self

/-! ## One owner -/

/-- The reader is out of its loop. -/
def Leaving : ReaderPc → Prop
  | .done _ | .sendClose | .exited => True
  | _ => False

/-- The reader is in its loop, and reads from the first socket. -/
def Staying : Body → Prop
  | .reader pc fd => ¬ Leaving pc ∧ (fd = none ∨ fd = some 0)
  | _ => True

/-- The first owner has the channel. -/
structure Served (s : Slot) : Prop where
  active : s.active = true
  sockFd : s.sockFd = some 0
  connects : 0 < s.connects
  gone : 0 ∉ s.gone
  pending : ∀ cid, .clearActive cid ∉ s.pending
  staying : ∀ th ∈ s.threads, Staying th.body

/-- No application has connected. -/
structure Unused (s : Slot) : Prop where
  active : s.active = false
  threads : s.threads = []
  todo : s.todo = []
  connects : s.connects = 0
  gone : s.gone = []
  pending : ∀ cid, .clearActive cid ∉ s.pending

theorem unused_start (id : UInt8) (ring : RingBuffer ringSize) : Unused (start id ring) :=
  ⟨rfl, rfl, rfl, rfl, rfl, fun _ h => absurd h List.not_mem_nil⟩

/-- A step of a reader that reads nothing leaves it in its loop, while the channel is
active. -/
theorem readerStep_stays {u v : TxPath} {ok : Bool} (hactive : u.active = true)
    (hpc : ¬ Leaving u.reader) (hs : u.readerStep ok = some v) :
    v.active = true ∧ ¬ Leaving v.reader := by
  simp only [TxPath.readerStep] at hs
  cases hreader : u.reader with
  | loopHead =>
      simp only [hreader, hactive] at hs
      cases hs
      exact ⟨rfl, False.elim⟩
  | checkWrite remaining rest =>
      simp only [hreader] at hs
      split at hs
      · cases hs
        exact ⟨hactive, False.elim⟩
      · split at hs
        · cases hs
          exact ⟨hactive, False.elim⟩
        · cases hs
          exact ⟨hactive, False.elim⟩
  | write remaining rest =>
      simp only [hreader] at hs
      cases hs
      exact ⟨hactive, False.elim⟩
  | readLen =>
      simp only [hreader] at hs
      cases hs
  | readChunk remaining buf =>
      simp only [hreader] at hs
      cases hs
  | done buf =>
      rw [hreader] at hpc
      exact absurd trivial hpc
  | sendClose =>
      rw [hreader] at hpc
      exact absurd trivial hpc
  | exited =>
      rw [hreader] at hpc
      exact absurd trivial hpc

/-- So does a read, of what is not refused. -/
theorem read_stays {u v : TxPath} {e : TxPath.Event} (hactive : u.active = true)
    (he : (∃ plen, ¬ AppReader.Refused plen ∧ e = .readLen plen) ∨ ∃ bytes, e = .readSome bytes)
    (hs : u.step e = some v) : v.active = true ∧ ¬ Leaving v.reader := by
  rcases he with ⟨plen, hplen, rfl⟩ | ⟨bytes, rfl⟩
  · simp only [TxPath.step] at hs
    split at hs
    · rw [if_neg (show ¬ (plen.toNat = 0 ∨ maxFrameSize < plen.toNat) from hplen)] at hs
      cases hs
      exact ⟨hactive, False.elim⟩
    · cases hs
  · simp only [TxPath.step] at hs
    split at hs
    · split at hs
      · cases hs
        refine ⟨hactive, ?_⟩
        simp only
        split
        · exact False.elim
        · exact False.elim
      · cases hs
    · cases hs

/-- A thread of the first owner leaves the channel active. -/
theorem Served.move (h : Served s) {body body' : Body} {m : Move} (hbody : Staying body)
    (hs : s.move body m = some (t, body')) : t.active = true ∧ Staying body' := by
  rw [Slot.move.eq_def] at hs
  split at hs
  next pc txbuf cur ok =>
    obtain ⟨u, hu, heq⟩ := Option.map_eq_some_iff.mp hs
    cases heq
    exact ⟨(TxPath.sameReader_txStep hu).2.active.trans h.active, trivial⟩
  next => cases hs
  next pc ok =>
    obtain ⟨u, hu, heq⟩ := Option.map_eq_some_iff.mp hs
    cases heq
    exact ⟨(RxPath.sameRest_rxStep hu).2.active.trans h.active, trivial⟩
  next pc =>
    obtain ⟨u, hu, heq⟩ := Option.map_eq_some_iff.mp hs
    cases heq
    exact ⟨(RxPath.sameRest_timeout hu).2.active.trans h.active, trivial⟩
  next => cases hs
  next pc =>
    split at hs
    · cases hs
      exact ⟨h.active, hbody.1, Or.inr h.sockFd⟩
    · cases hs
  next pc fd hcall =>
    obtain ⟨e, he, hmap⟩ := Option.bind_eq_some_iff.mp hs
    obtain ⟨u, hu, heq⟩ := Option.map_eq_some_iff.mp hmap
    cases heq
    have hfd : callFd fd u.reader = none ∨ callFd fd u.reader = some 0 := by
      rw [callFd.eq_def]
      split
      · exact hbody.2
      · exact Or.inl rfl
    have hstays : u.active = true ∧ ¬ Leaving u.reader := by
      rw [readerEvent.eq_def] at he
      split at he
      · cases he
        exact readerStep_stays h.active hbody.1 hu
      next fd plen =>
        split at he
        · cases he
        next hplen =>
          cases he
          have hzero : fd ∉ s.gone := by
            rcases hbody.2 with hnone | hsome
            · cases hnone
            · cases hsome
              exact h.gone
          exact read_stays h.active (Or.inl ⟨plen, fun hr => hplen ⟨hr, hzero⟩, rfl⟩) hu
      · cases he
        exact read_stays h.active (Or.inr ⟨_, rfl⟩) hu
      next fd =>
        split at he
        next hgone =>
          rcases hbody.2 with hnone | hsome
          · cases hnone
          · cases hsome
            exact absurd hgone h.gone
        next => cases he
      · cases he
    exact ⟨hstays.1, hstays.2, hfd⟩

theorem staying_start (k : Kind) : Staying (.start k) := by
  cases k with
  | reader => exact ⟨False.elim, Or.inl rfl⟩
  | tx => trivial
  | rx => trivial

/-- The first owner keeps the channel, whoever asks for it, until its time ends. -/
theorem served_step {e : Event} (h : Served s) (he : ∀ x, e = .env x → ¬ Ends x)
    (hs : step ring s e = some t) : Served t := by
  cases e with
  | env x =>
      have hends := he x rfl
      cases x with
      | connect =>
          rw [step, envStep] at hs
          split at hs
          · cases hs
            rw [connect, if_pos h.active]
            exact ⟨h.active, h.sockFd, Nat.succ_pos _, h.gone, h.pending, h.staying⟩
          · cases hs
      | disconnect fd =>
          cases hs
          exact h
      | hangUp fd =>
          cases hs
          split
          · refine ⟨h.active, h.sockFd, h.connects, fun hmem => ?_, h.pending, h.staying⟩
            rcases List.mem_cons.mp hmem with h0 | hmem
            · exact hends h0.symm
            · exact h.gone hmem
          · exact h
      | frame f =>
          rw [step, envStep] at hs
          split at hs
          · cases hs
            exact ⟨h.active, h.sockFd, h.connects, h.gone,
              clearActive_not_mem_react fun _ => hends, h.staying⟩
          · cases hs
  | accept ok =>
      rw [step, acceptStep.eq_def] at hs
      split at hs
      next => cases hs
      next =>
        cases hs
        exact ⟨h.active, h.sockFd, h.connects, h.gone, h.pending, h.staying⟩
      next k todo _ =>
        cases hs
        refine ⟨h.active, h.sockFd, h.connects, h.gone, h.pending, fun th hth => ?_⟩
        rcases List.mem_append.mp hth with hth | hth
        · exact h.staying th hth
        · rw [List.mem_singleton.mp hth]
          exact staying_start k
  | usbRx =>
      obtain ⟨a, hpending, hsame, hgone, hactive⟩ := usbRxStep_spec hs
      have hclear := h.pending
      rw [hpending] at hclear
      refine ⟨hactive.mpr ⟨h.active, fun cid heq => hclear cid (heq ▸ List.mem_cons_self)⟩,
        hsame.sockFd.trans h.sockFd, ?_, ?_, fun cid hmem => hclear cid (List.mem_cons_of_mem a hmem),
        ?_⟩
      · rw [hsame.connects]
        exact h.connects
      · rw [hgone]
        exact h.gone
      · rw [hsame.threads]
        exact h.staying
  | thread i m =>
      obtain ⟨th, u, body, hth, hmove, rfl⟩ := threadStep_spec hs
      obtain ⟨-, -, hkeeps⟩ := move_spec hmove
      obtain ⟨hactive, hbody⟩ := h.move (h.staying th (List.mem_of_getElem? hth)) hmove
      refine ⟨hactive, hkeeps.sockFd.trans h.sockFd, ?_, ?_, ?_, fun th' hth' => ?_⟩
      · rw [hkeeps.connects]
        exact h.connects
      · rw [hkeeps.gone]
        exact h.gone
      · rw [hkeeps.pending]
        exact h.pending
      · rcases List.mem_or_eq_of_mem_set hth' with hmem | rfl
        · exact h.staying th' hmem
        · exact hbody

/-- The channel is unused until the first application connects, and then it has it. -/
theorem unused_step {e : Event} (h : Unused s) (hs : step ring s e = some t) :
    e ≠ .env .connect ∧ Unused t ∨ e = .env .connect ∧ Served t := by
  cases e with
  | env x =>
      cases x with
      | connect =>
          rw [step, envStep, if_pos h.todo] at hs
          cases hs
          refine Or.inr ⟨rfl, ?_⟩
          rw [connect, if_neg (by rw [h.active]; exact Bool.false_ne_true)]
          refine ⟨rfl, congrArg some h.connects, Nat.succ_pos _, ?_, h.pending, fun th hth => ?_⟩
          · rw [h.gone]
            exact List.not_mem_nil
          · rw [h.threads] at hth
            cases hth
      | disconnect fd =>
          cases hs
          exact Or.inl ⟨by simp, h⟩
      | hangUp fd =>
          cases hs
          refine Or.inl ⟨by simp, ?_⟩
          rw [if_neg (by rw [h.connects]; exact Nat.not_lt_zero fd)]
          exact h
      | frame f =>
          rw [step, envStep] at hs
          split at hs
          · cases hs
            refine Or.inl ⟨by simp, h.active, h.threads, h.todo, h.connects, h.gone, ?_⟩
            exact clearActive_not_mem_react fun hactive => by rw [h.active] at hactive; cases hactive
          · cases hs
  | accept ok =>
      rw [step, acceptStep, h.todo] at hs
      cases hs
  | usbRx =>
      obtain ⟨a, hpending, hsame, hgone, hactive⟩ := usbRxStep_spec hs
      refine Or.inl ⟨by simp, ?_, hsame.threads.trans h.threads, hsame.todo.trans h.todo,
        hsame.connects.trans h.connects, hgone.trans h.gone, fun cid hmem => ?_⟩
      · rw [h.active] at hactive
        exact Bool.eq_false_iff.mpr fun htrue => Bool.false_ne_true (hactive.mp htrue).1
      · exact h.pending cid (hpending ▸ List.mem_cons_of_mem a hmem)
  | thread i m =>
      obtain ⟨th, u, body, hth, -⟩ := threadStep_spec hs
      rw [h.threads] at hth
      cases hth

/-! ## Orders that give the channel away once -/

@[simp] theorem envOf_env (x : Env) (es : List Event) : envOf (.env x :: es) = x :: envOf es := rfl

/-- What comes from outside, at the head of a run. -/
theorem envOf_cons (e : Event) (es : List Event) :
    (∃ x, e = .env x ∧ envOf (e :: es) = x :: envOf es) ∨
      (∀ x, e ≠ .env x) ∧ envOf (e :: es) = envOf es := by
  cases e with
  | env x => exact Or.inl ⟨x, rfl, rfl⟩
  | accept ok => exact Or.inr ⟨nofun, rfl⟩
  | usbRx => exact Or.inr ⟨nofun, rfl⟩
  | thread i m => exact Or.inr ⟨nofun, rfl⟩

theorem connect_mem_envOf {es : List Event} (h : .env .connect ∈ es) : .connect ∈ envOf es :=
  List.mem_filterMap.mpr ⟨_, h, rfl⟩

/-- Where nobody connects, nobody is let in. -/
theorem vacant_of_not_mem {es : List Event} (hes : .connect ∉ envOf es) (s : Slot) :
    Throughout (step ring) Vacant s es :=
  throughout_of_mem (P := Vacant) (fun _ he _ heq => absurd (connect_mem_envOf (heq ▸ he)) hes) s

/-- Where nobody connects, the channel stays unused. -/
theorem Unused.of_run {es : List Event} (h : Unused s) (hes : .connect ∉ envOf es)
    (hrun : run (step ring) s es = some t) : Unused t := by
  have hother : ∀ e ∈ es, ∀ _ : Slot, e ≠ .env .connect := fun e he _ heq =>
    hes (connect_mem_envOf (heq ▸ he))
  refine run_invariant (fun hs he hstep => ?_) h (throughout_of_mem hother s) hrun
  exact ((unused_step hs hstep).resolve_right fun hconnect => he hconnect.1).2

/-- Nobody is let in before the first owner's time ends. -/
theorem vacant_of_served {es : List Event} :
    ∀ {s : Slot}, Served s → (¬ ∃ x, Ends x ∧ [x, .connect].Sublist (envOf es)) →
      Throughout (step ring) Vacant s es := by
  induction es with
  | nil => exact fun _ _ => trivial
  | cons e es ih =>
      intro s hs hes
      refine ⟨fun _ hactive => ?_, fun t ht => ?_⟩
      · rw [hs.active] at hactive
        cases hactive
      · rcases envOf_cons e es with ⟨x, rfl, heq⟩ | ⟨hne, heq⟩
        · rw [heq] at hes
          by_cases hx : Ends x
          · refine vacant_of_not_mem (fun hmem => hes ⟨x, hx, ?_⟩) t
            exact (List.singleton_sublist.mpr hmem).cons_cons x
          · refine ih (served_step hs (fun y hy => ?_) ht) fun hends => ?_
            · cases hy
              exact hx
            · obtain ⟨y, hy, hsub⟩ := hends
              exact hes ⟨y, hy, hsub.cons x⟩
        · rw [heq] at hes
          exact ih (served_step hs (fun y hy => absurd hy (hne y)) ht) hes

/-- Nobody is let in twice. -/
theorem vacant_of_unused {es : List Event} :
    ∀ {s : Slot}, Unused s → ¬ Reuses (envOf es) → Throughout (step ring) Vacant s es := by
  induction es with
  | nil => exact fun _ _ => trivial
  | cons e es ih =>
      intro s hs hes
      refine ⟨fun _ _ => ?_, fun t ht => ?_⟩
      · rw [running, hs.threads]
        rfl
      · rcases unused_step hs ht with ⟨-, hunused⟩ | ⟨rfl, hserved⟩
        · refine ih hunused fun hreuses => ?_
          obtain ⟨y, hy, hsub⟩ := hreuses
          refine hes ⟨y, hy, ?_⟩
          rcases envOf_cons e es with ⟨x, -, heq⟩ | ⟨-, heq⟩
          · rw [heq]
            exact hsub.cons x
          · rw [heq]
            exact hsub
        · refine vacant_of_served hserved fun hends => ?_
          obtain ⟨y, hy, hsub⟩ := hends
          exact hes ⟨y, hy, hsub.cons_cons _⟩

/-! ## Orders that give the channel away again -/

variable (ring)

/-- With what comes from outside in the order `es`, some interleaving leads to threads
of two owners. -/
def Overlaps (ring : RingBuffer ringSize) (s : Slot) (es : List Env) : Prop :=
  ∃ acts t, envOf acts <+: es ∧ run (step ring) s acts = some t ∧ ¬ t.Exclusive

variable {ring} in
/-- One event goes on to a slot in which threads will overlap. -/
theorem Overlaps.cons {x : Env} {es : List Env} {acts : List Event} (hacts : envOf acts = [x])
    (hrun : run (step ring) s acts = some t) (h : Overlaps ring t es) :
    Overlaps ring s (x :: es) := by
  obtain ⟨rest, u, hpre, hrest, hu⟩ := h
  refine ⟨acts ++ rest, u, ?_, run_trans hrun hrest, hu⟩
  have happend : envOf (acts ++ rest) = x :: envOf rest := by
    rw [envOf, List.filterMap_append]
    exact congrArg (· ++ _) hacts
  rw [happend]
  exact List.cons_prefix_cons.mpr ⟨rfl, hpre⟩

/-- `usb_rx_thread` does all it has to do for a frame. -/
theorem exists_usbRx {pending : List Action} : ∀ {s : Slot}, s.pending = pending →
    ∃ acts t, envOf acts = [] ∧ run (step ring) s acts = some t ∧ t.pending = [] ∧
      SameThreads s t ∧ t.gone = s.gone ∧
      (t.active = true ↔ s.active = true ∧ ∀ cid, .clearActive cid ∉ pending) := by
  induction pending with
  | nil =>
      intro s hs
      exact ⟨[], s, rfl, rfl, hs, ⟨rfl, rfl, rfl, rfl⟩, rfl, by simp⟩
  | cons a pending ih =>
      intro s hs
      obtain ⟨u, hu⟩ : ∃ u, s.usbRxStep = some u := by
        rw [usbRxStep, hs]
        exact ⟨_, rfl⟩
      have hstep : step ring s .usbRx = some u := hu
      obtain ⟨b, hcons, hsame, hgone, hactive⟩ := usbRxStep_spec hu
      obtain ⟨rfl, hpending⟩ := List.cons.inj (hs.symm.trans hcons)
      obtain ⟨acts, t, henv, hrun, ht, hsame', hgone', hiff⟩ := ih hpending.symm
      refine ⟨.usbRx :: acts, t, henv, ?_, ht, ?_, hgone'.trans hgone, ?_⟩
      · rw [run_cons hstep]
        exact hrun
      · exact ⟨hsame'.sockFd.trans hsame.sockFd, hsame'.todo.trans hsame.todo,
          hsame'.threads.trans hsame.threads, hsame'.connects.trans hsame.connects⟩
      · rw [hiff, hactive, and_assoc]
        refine and_congr_right fun _ => ?_
        rw [← forall_and]
        refine forall_congr' fun cid => ?_
        rw [List.mem_cons, not_or]
        exact and_congr_left fun _ => ne_comm

/-- An event from outside is taken up, and no thread of an owner moves. -/
theorem exists_quiet {x : Env} (hs : s.pending = []) (hx : x ≠ .connect) :
    ∃ acts t, envOf acts = [x] ∧ run (step ring) s acts = some t ∧ t.pending = [] ∧
      SameThreads s t ∧ (∀ fd, x = .hangUp fd → fd < s.connects → fd ∈ t.gone) ∧
      (t.active = true ↔ s.active = true ∧ ∀ f, x = .frame f → f.flags ≠ flagClose) := by
  cases x with
  | connect => exact absurd rfl hx
  | disconnect fd =>
      exact ⟨[.env (.disconnect fd)], s, rfl, rfl, hs, ⟨rfl, rfl, rfl, rfl⟩, nofun,
        (and_iff_left nofun).symm⟩
  | hangUp fd =>
      by_cases hfd : fd < s.connects
      · refine ⟨[.env (.hangUp fd)], { s with gone := fd :: s.gone }, rfl, ?_, hs,
          ⟨rfl, rfl, rfl, rfl⟩, ?_, (and_iff_left nofun).symm⟩
        · exact congrArg some (if_pos hfd)
        · intro fd' heq _
          cases heq
          exact List.mem_cons_self
      · refine ⟨[.env (.hangUp fd)], s, rfl, congrArg some (if_neg hfd), hs, ⟨rfl, rfl, rfl, rfl⟩, ?_,
          (and_iff_left nofun).symm⟩
        intro fd' heq hlt
        cases heq
        exact absurd hlt hfd
  | frame f =>
      obtain ⟨acts, t, henv, hrun, ht, hsame, -, hiff⟩ :=
        exists_usbRx ring (s := { s with pending := react s.active f }) rfl
      have hstep : step ring s (.env (.frame f)) = some { s with pending := react s.active f } :=
        if_pos hs
      refine ⟨.env (.frame f) :: acts, t, by rw [envOf_env, henv], ?_, ht,
        ⟨hsame.sockFd, hsame.todo, hsame.threads, hsame.connects⟩, nofun, ?_⟩
      · rw [run_cons hstep]
        exact hrun
      · rw [hiff]
        refine and_congr_right fun hactive => ?_
        change s.active = true at hactive
        constructor
        · intro hclear g hg hflags
          cases hg
          rw [hactive] at hclear
          exact hclear _ (clearActive_mem_react hflags)
        · intro hflags cid
          exact clearActive_not_mem_react (fun _ => hflags f rfl) cid

/-- The threads of the first owner, where none has taken a step. -/
def firstThreads : List Thread :=
  [⟨some 0, .start .tx⟩, ⟨some 0, .start .rx⟩, ⟨some 0, .start .reader⟩]

/-- The first owner has the channel, and its threads have taken no step. -/
structure Taken (s : Slot) : Prop where
  active : s.active = true
  sockFd : s.sockFd = some 0
  todo : s.todo = []
  pending : s.pending = []
  threads : s.threads = firstThreads
  connects : 0 < s.connects

/-- The channel can be given away, and the first owner's transmitter is running. -/
structure Left (s : Slot) : Prop where
  active : s.active = false
  todo : s.todo = []
  pending : s.pending = []
  threads : ⟨some 0, .start .tx⟩ ∈ s.threads
  connects : 0 < s.connects

theorem Left.overlaps {es : List Env} : ∀ {s : Slot}, Left s → .connect ∈ es → Overlaps ring s es := by
  induction es with
  | nil => exact fun _ hes => absurd hes List.not_mem_nil
  | cons x es ih =>
      intro s hs hes
      by_cases hx : x = .connect
      · have hstep : step ring s (.env .connect) = some (s.connect ring) := if_pos hs.todo
        refine ⟨[.env .connect], s.connect ring, ?_, run_cons hstep [], fun hexclusive => ?_⟩
        · rw [hx]
          exact List.cons_prefix_cons.mpr ⟨rfl, List.nil_prefix⟩
        · have hmem : (⟨some 0, .start .tx⟩ : Thread) ∈ (s.connect ring).running := by
            rw [connect, if_neg (by rw [hs.active]; exact Bool.false_ne_true)]
            exact List.mem_filter.mpr ⟨hs.threads, by decide⟩
          have howner := hexclusive.1 _ hmem
          rw [connect, if_neg (by rw [hs.active]; exact Bool.false_ne_true)] at howner
          exact absurd (Option.some.inj howner) (Nat.ne_of_lt hs.connects)
      · obtain ⟨acts, t, henv, hrun, ht, hsame, -, hiff⟩ := exists_quiet ring hs.pending hx
        refine .cons henv hrun (ih ⟨?_, ?_, ht, ?_, ?_⟩
          ((List.mem_cons.mp hes).resolve_left fun h => hx h.symm))
        · rw [hs.active] at hiff
          exact Bool.eq_false_iff.mpr fun h => Bool.noConfusion (hiff.mp h).1
        · rw [hsame.todo, hs.todo]
        · rw [hsame.threads]
          exact hs.threads
        · rw [hsame.connects]
          exact hs.connects

/-- A read fails on a socket that is gone. -/
theorem move_readFail {fd : Nat} (h : fd ∈ s.gone) :
    s.move (.reader .readLen (some fd)) .readFail = some (s, .reader (.done []) none) := by
  have hevent : s.readerEvent (some fd) .readFail = some .readFail := if_pos h
  change (s.readerEvent (some fd) .readFail).bind _ = _
  rw [hevent]
  rfl

/-- The slot with the threads of the first owner, of which the reader is at `pc`. -/
def withReader (s : Slot) (active : Bool) (pc : ReaderPc) (fd : Option Nat) : Slot :=
  { s with
    active
    threads := [⟨some 0, .start .tx⟩, ⟨some 0, .start .rx⟩, ⟨some 0, .reader pc fd⟩] }

/-- The reader of the first owner finds the socket gone. -/
theorem Taken.reader_leaves (h : Taken s) (hgone : 0 ∈ s.gone) :
    ∃ acts t, envOf acts = [] ∧ run (step ring) s acts = some t ∧ Left t := by
  have hstart : s = s.withReader true .loopHead none := by
    rw [withReader, ← h.active]
    exact congrArg (fun threads => { s with threads }) h.threads
  have hloop : step ring (s.withReader true .loopHead none) (.thread 2 (.step true)) =
      some (s.withReader true .readLen none) := rfl
  have hcall : step ring (s.withReader true .readLen none) (.thread 2 .call) =
      some (s.withReader true .readLen s.sockFd) := rfl
  have hfail : step ring (s.withReader true .readLen (some 0)) (.thread 2 .readFail) =
      some (s.withReader true (.done []) none) := by
    have hmove := move_readFail (s := s.withReader true .readLen (some 0)) hgone
    change ((s.withReader true .readLen (some 0)).move (.reader .readLen (some 0)) .readFail).map _ =
      _
    rw [hmove]
    rfl
  have hdone : step ring (s.withReader true (.done []) none) (.thread 2 (.step true)) =
      some (s.withReader false .sendClose none) := rfl
  refine ⟨[.thread 2 (.step true), .thread 2 .call, .thread 2 .readFail, .thread 2 (.step true)],
    s.withReader false .sendClose none, rfl, ?_,
    ⟨rfl, h.todo, h.pending, List.mem_cons_self, h.connects⟩⟩
  have hrun : run (step ring) (s.withReader true .loopHead none)
      [.thread 2 (.step true), .thread 2 .call, .thread 2 .readFail, .thread 2 (.step true)] =
        some (s.withReader false .sendClose none) := by
    rw [run_cons hloop, run_cons hcall, h.sockFd, run_cons hfail, run_cons hdone, run_nil]
  rw [← hstart] at hrun
  exact hrun

/-- Once the first owner's time ends, the channel can be given away. -/
theorem Taken.ends {x : Env} (h : Taken s) (hx : Ends x) :
    ∃ acts t, envOf acts = [x] ∧ run (step ring) s acts = some t ∧ Left t := by
  have hne : x ≠ .connect := by
    rintro rfl
    exact hx
  obtain ⟨acts, u, henv, hrun, hu, hsame, hgone, hiff⟩ := exists_quiet ring h.pending hne
  have htodo := hsame.todo.trans h.todo
  have hthreads := hsame.threads.trans h.threads
  have hconnects : 0 < u.connects := by
    rw [hsame.connects]
    exact h.connects
  cases x with
  | connect => exact hx.elim
  | disconnect fd => exact hx.elim
  | hangUp fd =>
      cases (show fd = 0 from hx)
      have hactive := hiff.mpr ⟨h.active, nofun⟩
      have hu0 : Taken u := ⟨hactive, hsame.sockFd.trans h.sockFd, htodo, hu, hthreads, hconnects⟩
      obtain ⟨rest, t, henv', hrun', ht⟩ := hu0.reader_leaves ring (hgone 0 rfl h.connects)
      refine ⟨acts ++ rest, t, ?_, run_trans hrun hrun', ht⟩
      rw [envOf, List.filterMap_append]
      exact congrArg₂ _ henv henv'
  | frame f =>
      refine ⟨acts, u, henv, hrun, ?_, htodo, hu, ?_, hconnects⟩
      · exact Bool.eq_false_iff.mpr fun hactive => (hiff.mp hactive).2 f rfl hx
      · rw [hthreads]
        exact List.mem_cons_self

theorem Taken.overlaps {es : List Env} : ∀ {s : Slot}, Taken s →
    (∃ x, Ends x ∧ [x, .connect].Sublist es) → Overlaps ring s es := by
  induction es with
  | nil =>
      rintro s - ⟨x, -, hsub⟩
      cases hsub
  | cons y es ih =>
      rintro s hs ⟨x, hx, hsub⟩
      by_cases hy : Ends y
      · have hconnect : .connect ∈ es := by
          cases hsub with
          | cons _ hsub => exact hsub.subset (List.mem_cons_of_mem x List.mem_cons_self)
          | cons_cons _ hsub => exact List.singleton_sublist.mp hsub
        obtain ⟨acts, t, henv, hrun, ht⟩ := hs.ends ring hy
        exact .cons henv hrun (ht.overlaps ring hconnect)
      · have hrest : [x, .connect].Sublist es := by
          cases hsub with
          | cons _ hsub => exact hsub
          | cons_cons _ _ => exact absurd hx hy
        by_cases hconnect : y = .connect
        · rw [hconnect]
          have hstep : step ring s (.env .connect) = some { s with connects := s.connects + 1 } := by
            rw [step, envStep, if_pos hs.todo, connect, if_pos hs.active]
          have henv : envOf [.env .connect] = [.connect] := rfl
          refine .cons henv (run_cons hstep []) (ih ?_ ⟨x, hx, hrest⟩)
          exact ⟨hs.active, hs.sockFd, hs.todo, hs.pending, hs.threads, Nat.succ_pos _⟩
        · obtain ⟨acts, t, henv, hrun, ht, hsame, -, hiff⟩ :=
            exists_quiet ring hs.pending hconnect
          refine .cons henv hrun (ih ⟨?_, hsame.sockFd.trans hs.sockFd, hsame.todo.trans hs.todo, ht,
            hsame.threads.trans hs.threads, ?_⟩ ⟨x, hx, hrest⟩)
          · refine hiff.mpr ⟨hs.active, ?_⟩
            rintro f rfl
            exact hy
          · rw [hsame.connects]
            exact hs.connects

/-- The first application is let in, and its threads are started. -/
theorem Unused.taken (h : Unused s) (hpending : s.pending = []) :
    ∃ acts t, envOf acts = [.connect] ∧ run (step ring) s acts = some t ∧ Taken t := by
  have hstep : step ring s (.env .connect) = some (s.connect ring) := if_pos h.todo
  rw [connect, if_neg (by rw [h.active]; exact Bool.false_ne_true)] at hstep
  refine ⟨[.env .connect, .accept false, .accept false, .accept false, .accept false], _, rfl,
    (run_cons hstep _).trans rfl, rfl, congrArg some h.connects, rfl, hpending, ?_, Nat.succ_pos _⟩
  simp only [h.threads, h.connects]
  rfl

theorem Unused.overlaps {es : List Env} : ∀ {s : Slot}, Unused s → s.pending = [] → Reuses es →
    Overlaps ring s es := by
  induction es with
  | nil =>
      rintro s - - ⟨x, -, hsub⟩
      cases hsub
  | cons y es ih =>
      rintro s hs hpending ⟨x, hx, hsub⟩
      by_cases hconnect : y = .connect
      · have hrest : [x, .connect].Sublist es := by
          cases hsub with
          | cons _ hsub => exact (List.sublist_cons_self _ _).trans hsub
          | cons_cons _ hsub => exact hsub
        obtain ⟨acts, t, henv, hrun, ht⟩ := hs.taken ring hpending
        rw [hconnect]
        exact .cons henv hrun (ht.overlaps ring ⟨x, hx, hrest⟩)
      · have hrest : Reuses es := by
          cases hsub with
          | cons _ hsub => exact ⟨x, hx, hsub⟩
          | cons_cons _ _ => exact absurd rfl hconnect
        obtain ⟨acts, t, henv, hrun, ht, hsame, -, hiff⟩ :=
          exists_quiet ring hpending hconnect
        refine .cons henv hrun (ih (hs.of_run (fun hmem => ?_) hrun) ht hrest)
        rw [henv] at hmem
        exact hconnect (List.mem_singleton.mp hmem).symm

/-! ## Which orders keep owners apart -/

/-- An order of the events from outside keeps the threads of two owners apart, in every
interleaving, exactly when it gives the channel away once. -/
theorem exclusive_iff (id : UInt8) (ring : RingBuffer ringSize) (es : List Env) :
    (∀ acts t, envOf acts <+: es → run (step ring) (start id ring) acts = some t → t.Exclusive) ↔
      ¬ Reuses es := by
  constructor
  · rintro h hreuses
    obtain ⟨acts, t, hpre, hrun, ht⟩ := (unused_start id ring).overlaps ring rfl hreuses
    exact ht (h acts t hpre hrun)
  · intro h acts t hpre hrun
    refine exclusive_of_vacant (vacant_of_unused (unused_start id ring) fun hreuses => ?_) hrun
    obtain ⟨x, hx, hsub⟩ := hreuses
    exact h ⟨x, hx, hsub.trans hpre.sublist⟩

/-- An application connects, the host closes the channel, and another one connects. -/
theorem exclusive_iff_reconnect :
    ¬ ∀ acts t, run (step freshRing) (start 0 freshRing) acts = some t → t.Exclusive := by
  intro h
  have hrun := h [.env .connect, .accept true, .accept true, .accept true, .accept true,
    .env (.frame ⟨0, flagClose, []⟩), .usbRx, .env .connect] _ rfl
  exact absurd hrun (by decide)

end Slot

end MFoES.Usbd
