import MFoES.Usbproto.Broker

/-!
# Runs of the broker

`Served` says what one client goes through in `poll` or `broadcast`, and
`Broker.Inv` what holds of the broker and of all it has done.  A sweep that serves
every client keeps the invariant (`Inv.swept`), and so does every event.

So the frames that `onClientFrame` gets are a shuffle of the complete frames of
the clients (`run_injects`), and what was sent to a connected client and what it
has pending are all the frames that were broadcast since it was accepted
(`run_broadcasts`).
-/

namespace MFoES.Usbproto

open Incremental Sweep

/-! ## Serving one client -/

/-- A client is served, and `frame` is queued for it: what becomes of it, and the
acts. -/
structure Served (limit : Nat) (frame : List UInt8) (c : Client) (o : Option Client)
    (acts : List Act) : Prop where
  own : ∀ a ∈ acts, a.sock = some c.sock ∧ a.Faithful ∧ a ≠ .accepted c.sock
  kept : ∀ d, o = some d → d.sock = c.sock ∧
    sentTo c.sock acts ++ d.pending = c.pending ++ frame ∧
      (c.pending.length ≤ limit → d.pending.length ≤ limit)
  left : o = none → Act.closed c.sock ∈ acts
  parsed : (frameScanner maxFrameSize).records c.parser.unread = [] →
    ∃ R, (frameScanner maxFrameSize).Advances (c.parser.unread ++ receivedFrom c.sock acts) R
        (framesOf c.sock acts) ∧
      (frameScanner maxFrameSize).records R = [] ∧ ∀ d, o = some d → d.parser.unread = R

/-- Acts that only send receive nothing and hand nothing on. -/
theorem sent_acts {c : Client} {acts : List Act} (h : ∀ a ∈ acts, ∃ bs, a = .sent c.sock bs) :
    (∀ a ∈ acts, a.sock = some c.sock ∧ a.Faithful ∧ a ≠ .accepted c.sock) ∧
      receivedFrom c.sock acts = [] ∧ framesOf c.sock acts = [] := by
  refine ⟨fun a ha => ?_, List.flatMap_eq_nil_iff.mpr fun a ha => ?_,
    List.flatMap_eq_nil_iff.mpr fun a ha => ?_⟩
  · obtain ⟨bs, rfl⟩ := h a ha
    exact ⟨rfl, trivial, nofun⟩
  · obtain ⟨bs, rfl⟩ := h a ha
    rfl
  · obtain ⟨bs, rfl⟩ := h a ha
    rfl

theorem closed_acts (id : Nat) :
    sentTo id [.closed id] = [] ∧ receivedFrom id [.closed id] = [] ∧
      framesOf id [.closed id] = [] := ⟨rfl, rfl, rfl⟩

/-- What holds of the acts of a client before it is closed, with the close behind them. -/
theorem own_close {id : Nat} {acts : List Act} {P : Act → Prop} (hown : ∀ a ∈ acts, P a)
    (hclosed : P (.closed id)) : ∀ a ∈ acts ++ [.closed id], P a := by
  intro a ha
  rcases List.mem_append.mp ha with ha | ha
  · exact hown a ha
  · rw [List.mem_singleton.mp ha]
    exact hclosed

/-- A client that is lost after some of its bytes went out. -/
theorem served_lost {limit : Nat} {frame : List UInt8} {c : Client} {acts : List Act}
    (h : ∀ a ∈ acts, ∃ bs, a = .sent c.sock bs) :
    Served limit frame c none (acts ++ [.closed c.sock]) := by
  obtain ⟨hown, hrecv, hframes⟩ := sent_acts h
  obtain ⟨-, hcr, hcf⟩ := closed_acts c.sock
  refine ⟨own_close hown ⟨rfl, trivial, nofun⟩, nofun, fun _ => ?_,
    fun hq => ⟨c.parser.unread, ?_, hq, nofun⟩⟩
  · exact List.mem_append_right _ (List.mem_singleton_self _)
  · rw [receivedFrom_append, framesOf_append, hrecv, hframes, hcr, hcf, List.append_nil,
      List.append_nil]
    exact .refl _

/-- A client whose queue was flushed. -/
theorem served_flushed {limit : Nat} {frame : List UInt8} {c d : Client} {acts : List Act}
    (h : ∀ a ∈ acts, ∃ bs, a = .sent c.sock bs) (hsock : d.sock = c.sock)
    (hparser : d.parser = c.parser)
    (hsent : sentTo c.sock acts ++ d.pending = c.pending ++ frame)
    (hlimit : c.pending.length ≤ limit → (c.pending ++ frame).length ≤ limit) :
    Served limit frame c (some d) acts := by
  obtain ⟨hown, hrecv, hframes⟩ := sent_acts h
  refine ⟨hown, fun e he => ?_, nofun, fun hq => ⟨c.parser.unread, ?_, hq, fun e he => ?_⟩⟩
  · cases he
    refine ⟨hsock, hsent, fun hle => ?_⟩
    have hlen := congrArg List.length hsent
    have hmax := hlimit hle
    rw [List.length_append] at hlen
    omega
  · rw [hrecv, hframes, List.append_nil]
    exact .refl _
  · cases he
    rw [hparser]

/-- A client that is read from after it was served. -/
theorem Served.recvAll {limit : Nat} {c d : Client} {acts : List Act}
    (h : Served limit [] c (some d) acts) (rs : List RecvResult) :
    Served limit [] c (if (d.recvAll rs).2.1 then some (d.recvAll rs).1 else none)
      (acts ++ ((d.recvAll rs).2.2 ++
        if (d.recvAll rs).2.1 then [] else [.closed c.sock])) := by
  obtain ⟨hsock, hsent, hlimit⟩ := h.kept d rfl
  obtain ⟨hacts, hrsock, hrpending, hrparser⟩ := d.recvAll_spec rs
  rw [hsock] at hacts hrparser
  have hquiet : sentTo c.sock (d.recvAll rs).2.2 = [] :=
    List.flatMap_eq_nil_iff.mpr fun a ha => (hacts a ha).2.2.1
  obtain ⟨hcs, hcr, hcf⟩ := closed_acts c.sock
  have hown : ∀ a ∈ acts ++ (d.recvAll rs).2.2,
      a.sock = some c.sock ∧ a.Faithful ∧ a ≠ .accepted c.sock := by
    intro a ha
    rcases List.mem_append.mp ha with ha | ha
    · exact h.own a ha
    · exact ⟨(hacts a ha).1, (hacts a ha).2.1, (hacts a ha).2.2.2⟩
  have hparsed : (frameScanner maxFrameSize).records c.parser.unread = [] →
      (frameScanner maxFrameSize).Advances
          (c.parser.unread ++ receivedFrom c.sock (acts ++ (d.recvAll rs).2.2))
          (d.recvAll rs).1.parser.unread (framesOf c.sock (acts ++ (d.recvAll rs).2.2)) ∧
        (frameScanner maxFrameSize).records (d.recvAll rs).1.parser.unread = [] := by
    intro hq
    obtain ⟨R, hadv, hR, hd⟩ := h.parsed hq
    rw [← hd d rfl] at hadv hR
    obtain ⟨hrest, hend⟩ := hrparser hR
    refine ⟨?_, hend⟩
    rw [receivedFrom_append, framesOf_append, ← List.append_assoc]
    exact (hadv.append _).trans hrest
  cases (d.recvAll rs).2.1 with
  | true =>
      rw [if_pos rfl, if_pos rfl, List.append_nil]
      refine ⟨hown, fun e he => ?_, nofun, fun hq => ⟨_, (hparsed hq).1, (hparsed hq).2, ?_⟩⟩
      · cases he
        rw [hrsock, hrpending, sentTo_append, hquiet, List.append_nil]
        exact ⟨hsock, hsent, hlimit⟩
      · intro e he
        cases he
        rfl
  | false =>
      rw [if_neg Bool.false_ne_true, if_neg Bool.false_ne_true, ← List.append_assoc]
      refine ⟨own_close hown ⟨rfl, trivial, nofun⟩, nofun, fun _ => ?_,
        fun hq => ⟨_, ?_, (hparsed hq).2, nofun⟩⟩
      · exact List.mem_append_right _ (List.mem_singleton_self _)
      · rw [receivedFrom_append _ (acts ++ _), framesOf_append _ (acts ++ _), hcr, hcf,
          List.append_nil, List.append_nil]
        exact (hparsed hq).1

namespace Broker

/-- `broadcast` serves a client: the frame is queued and flushed, or the client is
dropped. -/
theorem served_broadcastClient (limit : Nat) (frame : List UInt8) (send : List SendResult)
    (c : Client) :
    Served limit frame c (broadcastClient limit frame send c).1
      (broadcastClient limit frame send c).2 := by
  rw [broadcastClient]
  by_cases hover : limit < c.out.length - c.outPos + frame.length
  · rw [if_pos hover]
    refine ⟨fun a ha => ?_, nofun, fun _ => ?_, fun h => ⟨c.parser.unread, ?_, h, nofun⟩⟩
    · rcases List.mem_cons.mp ha with rfl | ha
      · exact ⟨rfl, trivial, nofun⟩
      · rw [List.mem_singleton.mp ha]
        exact ⟨rfl, trivial, nofun⟩
    · exact List.mem_cons_of_mem _ (List.mem_singleton_self _)
    · exact (List.append_nil c.parser.unread).symm ▸ .refl _
  · rw [if_neg hover]
    obtain ⟨hacts, hkept⟩ := (c.enqueue frame).flush_spec send
    cases ho : ((c.enqueue frame).flush send).1 with
    | none =>
        simp only [ho]
        exact served_lost hacts
    | some d =>
        simp only [ho]
        obtain ⟨hsock, hparser, hsent⟩ := hkept d ho
        refine served_flushed hacts hsock hparser ?_ fun _ => ?_
        · rw [← c.pending_enqueue frame]
          exact hsent
        · rw [List.length_append, Client.length_pending]
          omega

/-- `poll` serves a client, with no new frame for it. -/
theorem served_pollClient (limit : Nat) (ready : Ready) (wfds rfds : Bool) (c : Client) :
    Served limit [] c (pollClient ready wfds rfds c).1 (pollClient ready wfds rfds c).2 := by
  obtain ⟨w, hw⟩ : ∃ w, w = if wfds then c.flush (ready.send c.sock) else (some c, []) := ⟨_, rfl⟩
  have hflush : (∀ a ∈ w.2, ∃ bs, a = .sent c.sock bs) ∧
      ∀ d, w.1 = some d → d.sock = c.sock ∧ d.parser = c.parser ∧
        sentTo c.sock w.2 ++ d.pending = c.pending := by
    cases wfds with
    | true =>
        rw [hw, if_pos rfl]
        exact c.flush_spec (ready.send c.sock)
    | false =>
        rw [hw, if_neg Bool.false_ne_true]
        refine ⟨fun a ha => absurd ha List.not_mem_nil, fun d hd => ?_⟩
        cases hd
        exact ⟨rfl, rfl, rfl⟩
  rw [pollClient, ← hw]
  cases ho : w.1 with
  | none => exact served_lost hflush.1
  | some d =>
      obtain ⟨hsock, hparser, hsent⟩ := hflush.2 d ho
      have hserved : Served limit [] c (some d) w.2 :=
        served_flushed hflush.1 hsock hparser (by rw [List.append_nil]; exact hsent)
          (by rw [List.append_nil]; exact id)
      cases rfds with
      | false => exact hserved
      | true =>
          have hread := hserved.recvAll (ready.recv d.sock)
          simp only [if_true]
          cases halive : (d.recvAll (ready.recv d.sock)).2.1 with
          | true =>
              rw [halive, if_pos rfl, if_pos rfl, List.append_nil] at hread
              exact hread
          | false =>
              rw [halive, if_neg Bool.false_ne_true, if_neg Bool.false_ne_true] at hread
              exact hread

/-! ## The invariant -/

/-- The bytes relayed behind the accept of `id`. -/
def relayedSince (id : Nat) : List Act → List UInt8
  | [] => []
  | a :: acts => if a = .accepted id then acts.flatMap Act.relay else relayedSince id acts

theorem relayedSince_of_mem {id : Nat} {acts : List Act} (h : .accepted id ∈ acts)
    (acts' : List Act) :
    relayedSince id (acts ++ acts') = relayedSince id acts ++ acts'.flatMap Act.relay := by
  induction acts with
  | nil => cases h
  | cons a acts ih =>
      rw [List.cons_append, relayedSince, relayedSince]
      by_cases ha : a = .accepted id
      · rw [if_pos ha, if_pos ha, List.flatMap_append]
      · rw [if_neg ha, if_neg ha]
        exact ih ((List.mem_cons.mp h).resolve_left fun heq => ha heq.symm)

theorem relayedSince_of_not_mem {id : Nat} {acts : List Act} (h : .accepted id ∉ acts)
    (acts' : List Act) : relayedSince id (acts ++ acts') = relayedSince id acts' := by
  induction acts with
  | nil => rfl
  | cons a acts ih =>
      obtain ⟨hne, hrest⟩ := not_or.mp (mt List.mem_cons.mpr h)
      rw [List.cons_append, relayedSince, if_neg fun heq => hne heq.symm]
      exact ih hrest

/-- What holds of a broker that has done `acts`. -/
structure Inv (limit : Nat) (b : Broker) (acts : List Act) : Prop where
  queueLimit : b.queueLimit = limit
  nodup : (b.clients.map Client.sock).Nodup
  accepted : ∀ id, .accepted id ∈ acts ↔ id < b.nextSock
  known : ∀ c ∈ b.clients, c.sock < b.nextSock
  /-- Nothing is done on a socket before it is accepted. -/
  early : ∀ a ∈ acts, ∀ id, a.sock = some id → id < b.nextSock
  faithful : ∀ a ∈ acts, a.Faithful
  gone : ∀ id, id < b.nextSock → (∃ c ∈ b.clients, c.sock = id) ∨ .closed id ∈ acts
  sent : ∀ c ∈ b.clients, sentTo c.sock acts ++ c.pending = relayedSince c.sock acts
  bound : ∀ c ∈ b.clients, c.pending.length ≤ limit
  /-- The parser of a connected client has what is behind its last frame. -/
  parsed : ∀ c ∈ b.clients, (frameScanner maxFrameSize).Advances (receivedFrom c.sock acts)
      c.parser.unread (framesOf c.sock acts) ∧
    (frameScanner maxFrameSize).records c.parser.unread = []
  /-- Every complete frame was handed on, also of clients that are gone. -/
  complete : ∀ id, framesOf id acts =
    (frameScanner maxFrameSize).records (receivedFrom id acts)

theorem inv_fresh (limit : Nat) : Inv limit (fresh limit) [] where
  queueLimit := rfl
  nodup := List.nodup_nil
  accepted := fun id => ⟨fun h => absurd h List.not_mem_nil, fun h => absurd h (Nat.not_lt_zero id)⟩
  known := fun _ hc => absurd hc List.not_mem_nil
  early := fun _ ha => absurd ha List.not_mem_nil
  faithful := fun _ ha => absurd ha List.not_mem_nil
  gone := fun id h => absurd h (Nat.not_lt_zero id)
  sent := fun _ hc => absurd hc List.not_mem_nil
  bound := fun _ hc => absurd hc List.not_mem_nil
  parsed := fun _ hc => absurd hc List.not_mem_nil
  complete := fun _ => (Scanner.records_nil _).symm

/-- Nothing was done on a socket that is not accepted. -/
theorem Inv.silent {limit : Nat} {b : Broker} {acts : List Act} (h : Inv limit b acts) {id : Nat}
    (hid : b.nextSock ≤ id) :
    sentTo id acts = [] ∧ receivedFrom id acts = [] ∧ framesOf id acts = [] := by
  have hoff : ∀ a ∈ acts, a.sock ≠ some id := fun a ha heq =>
    Nat.not_lt.mpr hid (h.early a ha id heq)
  exact ⟨List.flatMap_eq_nil_iff.mpr fun a ha => (Act.off_sock (hoff a ha)).1,
    List.flatMap_eq_nil_iff.mpr fun a ha => (Act.off_sock (hoff a ha)).2.1,
    List.flatMap_eq_nil_iff.mpr fun a ha => (Act.off_sock (hoff a ha)).2.2⟩

/-! ## Accepting -/

/-- A new client has received nothing, and nothing was relayed since. -/
theorem Inv.connected {limit : Nat} {b : Broker} {acts : List Act} (h : Inv limit b acts) :
    Inv limit { b with
      clients := b.clients ++ [Client.connected b.nextSock]
      nextSock := b.nextSock + 1 } (acts ++ [.accepted b.nextSock]) := by
  have hquiet : ∀ id, sentTo id [.accepted b.nextSock] = [] ∧
      receivedFrom id [.accepted b.nextSock] = [] ∧ framesOf id [.accepted b.nextSock] = [] :=
    fun _ => ⟨rfl, rfl, rfl⟩
  have hsame : ∀ id, sentTo id (acts ++ [.accepted b.nextSock]) = sentTo id acts ∧
      receivedFrom id (acts ++ [.accepted b.nextSock]) = receivedFrom id acts ∧
      framesOf id (acts ++ [.accepted b.nextSock]) = framesOf id acts := by
    intro id
    obtain ⟨hs, hr, hf⟩ := hquiet id
    rw [sentTo_append, receivedFrom_append, framesOf_append, hs, hr, hf, List.append_nil,
      List.append_nil, List.append_nil]
    exact ⟨rfl, rfl, rfl⟩
  obtain ⟨hsent, hrecv, hframes⟩ := h.silent (Nat.le_refl b.nextSock)
  refine ⟨h.queueLimit, ?_, fun id => ?_, fun c hc => ?_, fun a ha id hid => ?_,
    fun a ha => ?_, fun id hid => ?_, fun c hc => ?_, fun c hc => ?_, fun c hc => ?_,
    fun id => ?_⟩
  · rw [List.map_append]
    refine List.nodup_append.mpr ⟨h.nodup, List.nodup_singleton _, ?_⟩
    intro s hs t ht heq
    obtain ⟨c, hc, rfl⟩ := List.mem_map.mp hs
    have hlt := h.known c hc
    rw [heq, List.mem_singleton.mp ht] at hlt
    exact Nat.lt_irrefl _ hlt
  · rw [List.mem_append, h.accepted, List.mem_singleton, Act.accepted.injEq]
    change _ ↔ id < b.nextSock + 1
    omega
  · rcases List.mem_append.mp hc with hc | hc
    · exact Nat.lt_succ_of_lt (h.known c hc)
    · rw [List.mem_singleton.mp hc]
      exact Nat.lt_succ_self _
  · rcases List.mem_append.mp ha with ha | ha
    · exact Nat.lt_succ_of_lt (h.early a ha id hid)
    · rw [List.mem_singleton.mp ha] at hid
      cases hid
      exact Nat.lt_succ_self _
  · rcases List.mem_append.mp ha with ha | ha
    · exact h.faithful a ha
    · rw [List.mem_singleton.mp ha]
      trivial
  · rcases Nat.lt_succ_iff_lt_or_eq.mp hid with hlt | rfl
    · rcases h.gone id hlt with ⟨c, hc, heq⟩ | hclosed
      · exact Or.inl ⟨c, List.mem_append_left _ hc, heq⟩
      · exact Or.inr (List.mem_append_left _ hclosed)
    · exact Or.inl ⟨_, List.mem_append_right _ (List.mem_singleton_self _), rfl⟩
  · rw [(hsame c.sock).1]
    rcases List.mem_append.mp hc with hc | hc
    · rw [h.sent c hc, relayedSince_of_mem ((h.accepted _).mpr (h.known c hc))]
      exact (List.append_nil _).symm
    · have hnot : .accepted b.nextSock ∉ acts := fun hin =>
        Nat.lt_irrefl _ ((h.accepted _).mp hin)
      rw [List.mem_singleton.mp hc]
      change sentTo b.nextSock acts ++ [] = relayedSince b.nextSock _
      rw [hsent, relayedSince_of_not_mem hnot, relayedSince, if_pos rfl]
      rfl
  · rcases List.mem_append.mp hc with hc | hc
    · exact h.bound c hc
    · rw [List.mem_singleton.mp hc]
      exact Nat.zero_le _
  · rw [(hsame c.sock).2.1, (hsame c.sock).2.2]
    rcases List.mem_append.mp hc with hc | hc
    · exact h.parsed c hc
    · rw [List.mem_singleton.mp hc]
      change (frameScanner maxFrameSize).Advances (receivedFrom b.nextSock acts) []
        (framesOf b.nextSock acts) ∧ _
      rw [hrecv, hframes]
      exact ⟨.refl _, Scanner.records_nil _⟩
  · rw [(hsame id).2.1, (hsame id).2.2]
    exact h.complete id

theorem Inv.accept {limit : Nat} {k : Nat} : ∀ {b : Broker} {acts : List Act}, Inv limit b acts →
    Inv limit (b.accept k).1 (acts ++ (b.accept k).2) := by
  induction k with
  | zero =>
      intro b acts h
      rw [Broker.accept, List.append_nil]
      exact h
  | succ k ih =>
      intro b acts h
      have hrest := ih h.connected
      rw [List.append_assoc] at hrest
      exact hrest

/-! ## A sweep over the clients -/

section
variable {γ : Type} {p : Act → List γ} {id : Nat} {clients : List Client}
  {acts : Client → List Act}

/-- What is done on the socket of a connected client is done in its turn. -/
theorem flatMap_acts_of_mem (hp : ∀ a : Act, a.sock ≠ some id → p a = [])
    (hnodup : (clients.map Client.sock).Nodup)
    (hown : ∀ c ∈ clients, ∀ a ∈ acts c, a.sock = some c.sock) {c : Client} (hc : c ∈ clients)
    (hid : c.sock = id) : (clients.flatMap acts).flatMap p = (acts c).flatMap p := by
  rw [List.flatMap_assoc]
  refine flatMap_of_key hnodup hc fun d hd hne => List.flatMap_eq_nil_iff.mpr fun a ha => hp a ?_
  rw [hown d hd a ha]
  intro heq
  exact hne ((Option.some.inj heq).trans hid.symm)

/-- Nothing is done on a socket that no client has. -/
theorem flatMap_acts_of_not_mem (hp : ∀ a : Act, a.sock ≠ some id → p a = [])
    (hown : ∀ c ∈ clients, ∀ a ∈ acts c, a.sock = some c.sock)
    (hid : ∀ c ∈ clients, c.sock ≠ id) : (clients.flatMap acts).flatMap p = [] := by
  refine List.flatMap_eq_nil_iff.mpr fun a ha => hp a ?_
  obtain ⟨c, hc, hac⟩ := List.mem_flatMap.mp ha
  rw [hown c hc a hac]
  intro heq
  exact hid c hc (Option.some.inj heq)

end

/-- What is done in a sweep: some acts on no socket, and what is done for each client in
its turn. -/
structure Turns (limit : Nat) (frame : List UInt8) (clients : List Client)
    (body : Client → Option Client × List Act) (out : List Act) : Prop where
  served : ∀ c ∈ clients, Served limit frame c (body c).1 (body c).2
  turn : ∀ a ∈ out, a.sock = none ∧ a.Faithful ∨ ∃ c ∈ clients, a ∈ (body c).2
  mem : ∀ c ∈ clients, ∀ a ∈ (body c).2, a ∈ out
  relayed : out.flatMap Act.relay = frame
  at_client : ∀ c ∈ clients, sentTo c.sock out = sentTo c.sock (body c).2 ∧
    receivedFrom c.sock out = receivedFrom c.sock (body c).2 ∧
      framesOf c.sock out = framesOf c.sock (body c).2
  off_clients : ∀ id, (∀ c ∈ clients, c.sock ≠ id) →
    receivedFrom id out = [] ∧ framesOf id out = []

theorem turns {limit : Nat} {frame : List UInt8} {clients : List Client} {pre : List Act}
    {body : Client → Option Client × List Act} (hnodup : (clients.map Client.sock).Nodup)
    (hpre : ∀ a ∈ pre, a.sock = none) (hrelay : pre.flatMap Act.relay = frame)
    (hbody : ∀ c ∈ clients, Served limit frame c (body c).1 (body c).2) :
    Turns limit frame clients body (pre ++ clients.flatMap fun c => (body c).2) := by
  have hown : ∀ c ∈ clients, ∀ a ∈ (body c).2, a.sock = some c.sock := fun c hc a ha =>
    ((hbody c hc).own a ha).1
  have hquiet : ∀ id, sentTo id pre = [] ∧ receivedFrom id pre = [] ∧ framesOf id pre = [] := by
    intro id
    have hoff : ∀ a ∈ pre, a.sentTo id = [] ∧ a.receivedFrom id = [] ∧ a.frameOf id = [] :=
      fun a ha => Act.off_sock (by rw [hpre a ha]; nofun)
    exact ⟨List.flatMap_eq_nil_iff.mpr fun a ha => (hoff a ha).1,
      List.flatMap_eq_nil_iff.mpr fun a ha => (hoff a ha).2.1,
      List.flatMap_eq_nil_iff.mpr fun a ha => (hoff a ha).2.2⟩
  refine ⟨hbody, fun a ha => ?_, fun c hc a ha => ?_, ?_, fun c hc => ?_, fun id hid => ?_⟩
  · rcases List.mem_append.mp ha with ha | ha
    · refine Or.inl ⟨hpre a ha, ?_⟩
      cases a with
      | injected _ _ _ => exact absurd (hpre _ ha) nofun
      | _ => trivial
    · exact Or.inr (List.mem_flatMap.mp ha)
  · exact List.mem_append_right _ (List.mem_flatMap.mpr ⟨c, hc, ha⟩)
  · have hnone : (clients.flatMap fun c => (body c).2).flatMap Act.relay = [] := by
      refine List.flatMap_eq_nil_iff.mpr fun a ha => ?_
      obtain ⟨c, hc, hac⟩ := List.mem_flatMap.mp ha
      cases a with
      | relayed f => exact absurd (hown c hc _ hac) nofun
      | _ => rfl
    rw [List.flatMap_append, hrelay, hnone, List.append_nil]
  · rw [sentTo_append, receivedFrom_append, framesOf_append, (hquiet _).1, (hquiet _).2.1,
      (hquiet _).2.2]
    exact ⟨flatMap_acts_of_mem (fun a ha => (Act.off_sock ha).1) hnodup hown hc rfl,
      flatMap_acts_of_mem (fun a ha => (Act.off_sock ha).2.1) hnodup hown hc rfl,
      flatMap_acts_of_mem (fun a ha => (Act.off_sock ha).2.2) hnodup hown hc rfl⟩
  · rw [receivedFrom_append, framesOf_append, (hquiet _).2.1, (hquiet _).2.2]
    exact ⟨flatMap_acts_of_not_mem (fun a ha => (Act.off_sock ha).2.1) hown hid,
      flatMap_acts_of_not_mem (fun a ha => (Act.off_sock ha).2.2) hown hid⟩

/-- Nobody is accepted in a sweep. -/
theorem Turns.not_accepted {limit : Nat} {frame : List UInt8} {clients : List Client}
    {body : Client → Option Client × List Act} {out : List Act}
    (h : Turns limit frame clients body out) (id : Nat) : .accepted id ∉ out := by
  intro hin
  rcases h.turn _ hin with ⟨hsock, -⟩ | ⟨c, hc, hac⟩
  · cases hsock
  · obtain ⟨hsock, -, hne⟩ := (h.served c hc).own _ hac
    exact hne (Option.some.inj hsock ▸ rfl)

/-- Serving every client keeps the invariant. -/
theorem Inv.swept {limit : Nat} {b b' : Broker} {acts : List Act} (h : Inv limit b acts)
    (pre : List Act) (frame : List UInt8) (body : Client → Option Client × List Act)
    (hpre : ∀ a ∈ pre, a.sock = none) (hrelay : pre.flatMap Act.relay = frame)
    (hbody : ∀ c ∈ b.clients, Served limit frame c (body c).1 (body c).2)
    (hclients : b'.clients = b.clients.filterMap fun c => (body c).1)
    (hnext : b'.nextSock = b.nextSock) (hlimit : b'.queueLimit = b.queueLimit) :
    Inv limit b' (acts ++ (pre ++ b.clients.flatMap fun c => (body c).2)) := by
  have hturns := turns h.nodup hpre hrelay hbody
  generalize pre ++ b.clients.flatMap (fun c => (body c).2) = out at hturns ⊢
  -- a client that is left was there, and was kept
  have hleft : ∀ d ∈ b'.clients, ∃ c ∈ b.clients, (body c).1 = some d ∧ d.sock = c.sock := by
    intro d hd
    rw [hclients] at hd
    obtain ⟨c, hc, ho⟩ := List.mem_filterMap.mp hd
    exact ⟨c, hc, ho, ((hbody c hc).kept d ho).1⟩
  refine ⟨hlimit.trans h.queueLimit, ?_, fun id => ?_, fun d hd => ?_, fun a ha id hid => ?_,
    fun a ha => ?_, fun id hid => ?_, fun d hd => ?_, fun d hd => ?_, fun d hd => ?_,
    fun id => ?_⟩
  · rw [hclients]
    refine (map_filterMap_sublist ?_).nodup h.nodup
    exact fun c hc d hd => ((hbody c hc).kept d hd).1
  · rw [List.mem_append, or_iff_left (hturns.not_accepted id), hnext]
    exact h.accepted id
  · obtain ⟨c, hc, -, heq⟩ := hleft d hd
    rw [heq, hnext]
    exact h.known c hc
  · rw [hnext]
    rcases List.mem_append.mp ha with ha | ha
    · exact h.early a ha id hid
    · rcases hturns.turn a ha with ⟨hsock, -⟩ | ⟨c, hc, hac⟩
      · rw [hsock] at hid
        cases hid
      · rw [← Option.some.inj (((hbody c hc).own a hac).1.symm.trans hid)]
        exact h.known c hc
  · rcases List.mem_append.mp ha with ha | ha
    · exact h.faithful a ha
    · rcases hturns.turn a ha with ⟨-, hfaithful⟩ | ⟨c, hc, hac⟩
      · exact hfaithful
      · exact ((hbody c hc).own a hac).2.1
  · rw [hnext] at hid
    rcases h.gone id hid with ⟨c, hc, rfl⟩ | hclosed
    · cases ho : (body c).1 with
      | some d =>
          refine Or.inl ⟨d, ?_, ((hbody c hc).kept d ho).1⟩
          rw [hclients]
          exact List.mem_filterMap.mpr ⟨c, hc, ho⟩
      | none =>
          exact Or.inr (List.mem_append_right _ (hturns.mem c hc _ ((hbody c hc).left ho)))
    · exact Or.inr (List.mem_append_left _ hclosed)
  · obtain ⟨c, hc, ho, heq⟩ := hleft d hd
    obtain ⟨-, hsent, -⟩ := (hbody c hc).kept d ho
    rw [heq, relayedSince_of_mem ((h.accepted _).mpr (h.known c hc)), hturns.relayed,
      sentTo_append, (hturns.at_client c hc).1, List.append_assoc, hsent, ← List.append_assoc,
      h.sent c hc]
  · obtain ⟨c, hc, ho, -⟩ := hleft d hd
    exact ((hbody c hc).kept d ho).2.2 (h.bound c hc)
  · obtain ⟨c, hc, ho, heq⟩ := hleft d hd
    obtain ⟨hadv, hquiet⟩ := h.parsed c hc
    obtain ⟨R, hrest, hend, hR⟩ := (hbody c hc).parsed hquiet
    obtain ⟨-, hrecv, hframes⟩ := hturns.at_client c hc
    rw [heq, receivedFrom_append, framesOf_append, hrecv, hframes, hR d ho]
    exact ⟨(hadv.append _).trans hrest, hend⟩
  · rw [receivedFrom_append, framesOf_append]
    by_cases hid : ∃ c ∈ b.clients, c.sock = id
    · obtain ⟨c, hc, rfl⟩ := hid
      obtain ⟨hadv, hquiet⟩ := h.parsed c hc
      obtain ⟨R, hrest, hend, -⟩ := (hbody c hc).parsed hquiet
      obtain ⟨-, hrecv, hframes⟩ := hturns.at_client c hc
      have hall := ((hadv.append _).trans hrest).records
      rw [hend, List.append_nil] at hall
      rw [hrecv, hframes]
      exact hall.symm
    · obtain ⟨hrecv, hframes⟩ := hturns.off_clients id fun c hc heq => hid ⟨c, hc, heq⟩
      rw [hrecv, hframes, List.append_nil, List.append_nil]
      exact h.complete id

/-! ## Runs -/

/-- All clients are closed. -/
theorem Inv.shutdownAll {limit : Nat} {b b' : Broker} {acts : List Act} (h : Inv limit b acts)
    (hclients : b'.clients = []) (hnext : b'.nextSock = b.nextSock)
    (hlimit : b'.queueLimit = b.queueLimit) :
    Inv limit b' (acts ++ b.clients.map fun c => .closed c.sock) := by
  have hswept := h.swept [] [] (fun c => (none, [.closed c.sock]))
    (fun _ ha => absurd ha List.not_mem_nil) rfl
    (fun c _ => served_lost fun _ ha => absurd ha List.not_mem_nil)
    (by rw [hclients, List.filterMap_eq_nil_iff.mpr fun _ _ => rfl]) hnext hlimit
  rw [List.nil_append, ← List.map_eq_flatMap] at hswept
  exact hswept

theorem Inv.poll {limit : Nat} {b : Broker} {acts : List Act} (h : Inv limit b acts)
    (ready : Option Ready) : Inv limit (b.poll ready).1 (acts ++ (b.poll ready).2) := by
  have hstill : Inv limit b (acts ++ []) := by
    rw [List.append_nil]
    exact h
  rw [Broker.poll.eq_def]
  by_cases hrun : b.running = true
  · rw [if_pos hrun]
    cases ready with
    | none => exact hstill
    | some ready =>
        simp only [sweep_eq]
        rw [← List.append_assoc]
        exact h.accept.swept [] [] _ (fun _ ha => absurd ha List.not_mem_nil) rfl
          (fun c _ => served_pollClient limit ready _ _ c) rfl rfl rfl
  · rw [if_neg hrun]
    exact hstill

theorem Inv.broadcast {limit : Nat} {b : Broker} {acts : List Act} (h : Inv limit b acts)
    (frame : List UInt8) (send : Nat → List SendResult) :
    Inv limit (b.broadcast frame send).1 (acts ++ (b.broadcast frame send).2) := by
  rw [Broker.broadcast]
  by_cases hrun : b.running = true ∧ frame ≠ []
  · rw [if_pos hrun]
    simp only [sweep_eq, h.queueLimit]
    refine h.swept [.relayed frame] frame _ (fun a ha => ?_) ?_
      (fun c _ => served_broadcastClient limit frame (send c.sock) c) rfl rfl h.queueLimit.symm
    · rw [List.mem_singleton.mp ha]
      rfl
    · rw [List.flatMap_singleton]
      rfl
  · rw [if_neg hrun, List.append_nil]
    exact h

/-- Every event keeps the invariant. -/
theorem Inv.step {limit : Nat} {b : Broker} {acts : List Act} (h : Inv limit b acts) (e : Event) :
    Inv limit (b.step e).1 (acts ++ (b.step e).2) := by
  cases e with
  | start ok =>
      cases ok with
      | true => exact h.shutdownAll rfl rfl rfl
      | false => exact h.shutdownAll rfl rfl rfl
  | stop => exact h.shutdownAll rfl rfl rfl
  | poll ready => exact h.poll ready
  | broadcast frame send => exact h.broadcast frame send

theorem Inv.run {limit : Nat} {es : List Event} : ∀ {b : Broker} {acts : List Act},
    Inv limit b acts → Inv limit (b.run es).1 (acts ++ (b.run es).2) := by
  induction es with
  | nil =>
      intro b acts h
      rw [Broker.run, List.append_nil]
      exact h
  | cons e es ih =>
      intro b acts h
      have hrest := ih (h.step e)
      rw [List.append_assoc] at hrest
      exact hrest

theorem inv_run (limit : Nat) (es : List Event) :
    Inv limit ((fresh limit).run es).1 ((fresh limit).run es).2 :=
  (inv_fresh limit).run

/-! ## No gap in a broadcast -/

/-- The frames that were handed on, with the sockets they came from. -/
def order (acts : List Act) : List (Nat × Frame) :=
  acts.filterMap fun
    | .injected sock f _ => some (sock, f)
    | _ => none

/-- What `onClientFrame` was called with. -/
def calls (acts : List Act) : List (List UInt8) :=
  acts.filterMap fun
    | .injected _ _ frame => some frame
    | _ => none

/-- The frames of `id` in an order of the frames of all. -/
def ofClient (id : Nat) (order : List (Nat × Frame)) : List Frame :=
  (order.filter fun p => p.1 = id).map Prod.snd

theorem calls_eq {acts : List Act} (h : ∀ a ∈ acts, a.Faithful) :
    calls acts = (order acts).map fun p => p.2.encode := by
  induction acts with
  | nil => rfl
  | cons a acts ih =>
      have hrest := ih fun x hx => h x (List.mem_cons_of_mem _ hx)
      cases a with
      | injected sock f frame =>
          have hframe : frame = f.encode := h _ List.mem_cons_self
          rw [calls, order, List.filterMap_cons, List.filterMap_cons, List.map_cons, hframe]
          exact congrArg _ hrest
      | _ => exact hrest

theorem ofClient_order (id : Nat) (acts : List Act) :
    ofClient id (order acts) = framesOf id acts := by
  induction acts with
  | nil => rfl
  | cons a acts ih =>
      cases a with
      | injected sock f frame =>
          have hcons : order (.injected sock f frame :: acts) = (sock, f) :: order acts := rfl
          rw [hcons, ofClient, framesOf, List.flatMap_cons, List.filter_cons, Act.frameOf]
          by_cases hs : sock = id
          · rw [if_pos (decide_eq_true hs), if_pos hs]
            exact congrArg (f :: ·) ih
          · rw [if_neg (by rw [decide_eq_true_eq]; exact hs), if_neg hs]
            exact ih
      | _ => exact ih

/-- The beginning of a frame, and not all of it. -/
def Unfinished (tail : List UInt8) : Prop :=
  ∃ (f : Frame) (X : List UInt8),
    f.payload.length ≤ maxFrameSize ∧ X ≠ [] ∧ tail ++ X = f.encode

/-- Whole frames and the beginning of one more. -/
theorem frames_unfinished {fs : List Frame} (hfs : ∀ f ∈ fs, f.payload.length ≤ maxFrameSize)
    {tail : List UInt8} (ht : Unfinished tail) :
    (frameScanner maxFrameSize).records (fs.flatMap Frame.encode ++ tail) = fs := by
  induction fs with
  | nil =>
      obtain ⟨f, X, hf, hX, heq⟩ := ht
      have henc := encodes_encode hf
        (Nat.lt_of_le_of_lt hf (by decide : maxFrameSize < 2 ^ 32))
      rw [← heq] at henc
      rw [List.flatMap_nil, List.nil_append]
      exact henc.records_of_cut hX
  | cons f fs ih =>
      have hf := hfs f List.mem_cons_self
      rw [List.flatMap_cons, List.append_assoc,
        frames_encode hf (Nat.lt_of_le_of_lt hf (by decide : maxFrameSize < 2 ^ 32)),
        ih fun g hg => hfs g (List.mem_cons_of_mem _ hg)]

/-- In every run in which each client has sent whole frames and at most the
beginning of one more, what `onClientFrame` gets are these frames, in an order in
which those of each client keep theirs. -/
theorem run_injects {limit : Nat} {es : List Event} {fs : Nat → List Frame}
    {tail : Nat → List UInt8} (hfs : ∀ id, ∀ f ∈ fs id, f.payload.length ≤ maxFrameSize)
    (htail : ∀ id, Unfinished (tail id))
    (hrecv : ∀ id, receivedFrom id ((fresh limit).run es).2 =
      (fs id).flatMap Frame.encode ++ tail id) :
    ∃ order : List (Nat × Frame),
      calls ((fresh limit).run es).2 = order.map (fun p => p.2.encode) ∧
        ∀ id, ofClient id order = fs id := by
  have h := inv_run limit es
  refine ⟨order ((fresh limit).run es).2, calls_eq h.faithful, fun id => ?_⟩
  rw [ofClient_order, h.complete, hrecv, frames_unfinished (hfs id) (htail id)]

/-- Two clients connect; the frame of the second comes between the halves of the
frame of the first, which then closes with one more byte sent. -/
def interleaved : List Event :=
  let readable (connections : Nat) (recv : Nat → List RecvResult) : Event :=
    .poll (some ⟨connections, fun _ => true, fun _ => false, fun _ => [], recv⟩)
  let first := Frame.encode ⟨3, 0, [9]⟩
  [.start true, readable 2 fun _ => [],
    readable 0 fun sock => if sock = 0 then [.bytes (first.take 5)] else [],
    readable 0 fun sock => if sock = 0 then [] else [.bytes (Frame.encode ⟨4, 1, []⟩)],
    readable 0 fun sock => if sock = 0 then [.bytes (first.drop 5), .bytes [0x44], .bytes []] else []]

theorem run_injects_interleaved :
    ∃ order : List (Nat × Frame),
      calls ((fresh 100).run interleaved).2 = order.map (fun p => p.2.encode) ∧
        ∀ id, ofClient id order =
          if id = 0 then [⟨3, 0, [9]⟩] else if id = 1 then [⟨4, 1, []⟩] else [] := by
  have hacts : ((fresh 100).run interleaved).2 =
      [.accepted 0, .accepted 1, .received 0 ((Frame.encode ⟨3, 0, [9]⟩).take 5),
        .received 1 (Frame.encode ⟨4, 1, []⟩),
        .injected 1 ⟨4, 1, []⟩ (Frame.encode ⟨4, 1, []⟩),
        .received 0 ((Frame.encode ⟨3, 0, [9]⟩).drop 5),
        .injected 0 ⟨3, 0, [9]⟩ (Frame.encode ⟨3, 0, [9]⟩), .received 0 [0x44], .closed 0] := by
    decide
  have htail : ∀ id : Nat, Unfinished (if id = 0 then [0x44] else []) := by
    intro id
    refine ⟨⟨3, 0, []⟩, if id = 0 then (Frame.encode ⟨3, 0, []⟩).drop 1 else
      Frame.encode ⟨3, 0, []⟩, Nat.zero_le _, ?_, ?_⟩
    · split <;> decide
    · split <;> decide
  refine run_injects (fun id f hf => ?_) htail (fun id => ?_)
  · match id with
    | 0 => rw [List.mem_singleton.mp hf]; decide
    | 1 => rw [List.mem_singleton.mp hf]; decide
    | _ + 2 => cases hf
  · rw [hacts]
    match id with
    | 0 => decide
    | 1 => decide
    | _ + 2 => rfl

end Broker

end MFoES.Usbproto
