import MFoES.Usbd.TxPath

/-!
# `read_all`, and a client that goes away

`read_all` loops until it has what was asked for.  It takes a result of zero,
the end of the stream, for a short read and tries again, so after the peer has
closed it never returns.

`AppReader` is `app_reader_thread` between two calls of `read()`, while the
channel is active.  A run is the sequence of the results.  The writes to the ring
that come between two calls are `TxPath`'s (`step_simulates`).

Once the peer has closed, the thread leaves its loop exactly when it had a reason
to leave before: a call failed, or the bytes that came hold a length that is
refused (`appReaderThread_leaves`).
-/

namespace MFoES.Usbd

open LittleEndian Transition Usbproto

/-- What a call of `read()` gives: bytes, none of them at the end of the stream,
or -1 and `errno`. -/
inductive ReadResult where
  | bytes (bs : List UInt8)
  | failed (errno : Int)
deriving DecidableEq, Repr

/-- The peer has closed. -/
def ReadResult.eof : ReadResult := .bytes []

/-- The bytes of a result. -/
def ReadResult.data : ReadResult → List UInt8
  | .bytes bs => bs
  | .failed _ => []

/-- `EINTR`. -/
def eintr : Int := 4

/-- `EAGAIN`. -/
def eagain : Int := 11

/-- A result at which `read_all` returns -1. -/
def ReadResult.Fatal : ReadResult → Prop
  | .failed errno => errno ≠ eintr ∧ errno ≠ 0 ∧ errno ≠ eagain
  | .bytes _ => False

instance : DecidablePred ReadResult.Fatal
  | .failed _ => inferInstanceAs (Decidable (_ ∧ _))
  | .bytes _ => inferInstanceAs (Decidable False)

/-- Where a call of `read_all` stands. -/
inductive ReadAll where
  /-- In the loop, with what it got. -/
  | reading (got : List UInt8)
  | returned (buf : List UInt8)
  /-- It returned -1. -/
  | failed
deriving DecidableEq, Repr

/-- One pass of the loop of `read_all`, with `got` of `len` bytes there.  A `read()`
gives no more than was asked for. -/
def readAll (len : Nat) (got : List UInt8) : ReadResult → Option ReadAll
  | .failed errno =>
      if errno = eintr then some (.reading got)
      else if errno = 0 ∨ errno = eagain then some (.reading got)
      else some .failed
  | .bytes bs =>
      if len < (got ++ bs).length then none
      -- `usleep(100); continue`
      else if bs = [] then some (.reading got)
      else if (got ++ bs).length < len then some (.reading (got ++ bs))
      else some (.returned (got ++ bs))

/-- A pass that returns -1, one that goes on, and one that has it all. -/
theorem readAll_cases {len : Nat} {got : List UInt8} {r : ReadResult} {o : ReadAll}
    (hgot : got.length < len) (h : readAll len got r = some o) :
    r.Fatal ∧ o = .failed ∨
      ¬ r.Fatal ∧ (got ++ r.data).length < len ∧ o = .reading (got ++ r.data) ∨
        ¬ r.Fatal ∧ (got ++ r.data).length = len ∧ o = .returned (got ++ r.data) := by
  cases r with
  | failed errno =>
      rw [ReadResult.data, List.append_nil]
      simp only [readAll] at h
      by_cases hintr : errno = eintr
      · rw [if_pos hintr] at h
        cases h
        exact Or.inr (Or.inl ⟨fun hf => hf.1 hintr, hgot, rfl⟩)
      · rw [if_neg hintr] at h
        by_cases hagain : errno = 0 ∨ errno = eagain
        · rw [if_pos hagain] at h
          cases h
          refine Or.inr (Or.inl ⟨fun hf => ?_, hgot, rfl⟩)
          rcases hagain with h0 | h11
          · exact hf.2.1 h0
          · exact hf.2.2 h11
        · rw [if_neg hagain] at h
          cases h
          exact Or.inl ⟨⟨hintr, fun h0 => hagain (Or.inl h0), fun h11 => hagain (Or.inr h11)⟩, rfl⟩
  | bytes bs =>
      rw [ReadResult.data]
      simp only [readAll] at h
      by_cases hmore : len < (got ++ bs).length
      · rw [if_pos hmore] at h
        cases h
      · rw [if_neg hmore] at h
        by_cases hbs : bs = []
        · rw [if_pos hbs] at h
          cases h
          rw [hbs, List.append_nil]
          exact Or.inr (Or.inl ⟨id, hgot, rfl⟩)
        · rw [if_neg hbs] at h
          by_cases hlt : (got ++ bs).length < len
          · rw [if_pos hlt] at h
            cases h
            exact Or.inr (Or.inl ⟨id, hlt, rfl⟩)
          · rw [if_neg hlt] at h
            cases h
            exact Or.inr (Or.inr ⟨id, by omega, rfl⟩)

/-- At the end of the stream `read_all` stays where it is. -/
theorem readAll_eof {len : Nat} {got : List UInt8} (hgot : got.length < len) :
    readAll len got .eof = some (.reading got) := by
  rw [ReadResult.eof, readAll, List.append_nil, if_neg (by omega), if_pos rfl]

/-- Where `app_reader_thread` waits for `read()`. -/
inductive AppReader where
  /-- In `read_all` of a length. -/
  | readLen (got : List UInt8)
  /-- In `read_all` of a chunk, with `remaining` to read of the message. -/
  | readChunk (remaining : Nat) (got : List UInt8)
  /-- Out of the loop. -/
  | done
deriving DecidableEq, Repr

namespace AppReader

/-- The reader of a channel that has just been opened. -/
def start : AppReader := .readLen []

/-- Whether `ch.active` is set.  It is cleared at `done:`. -/
def active : AppReader → Bool
  | .done => false
  | _ => true

/-- A length that the thread does not accept. -/
def Refused (plen : UInt32) : Prop := plen.toNat = 0 ∨ maxFrameSize < plen.toNat

instance (plen : UInt32) : Decidable (Refused plen) := inferInstanceAs (Decidable (_ ∨ _))

/-- With the bytes of a length. -/
def atLen (plen : UInt32) : AppReader :=
  if Refused plen then .done else .readChunk plen.toNat []

/-- With `remaining` to read after a chunk. -/
def atChunk (remaining : Nat) : AppReader :=
  if remaining = 0 then .readLen [] else .readChunk remaining []

/-- Up to the next call of `read()`, after one that gave `r`. -/
def step : AppReader → ReadResult → Option AppReader
  | .readLen got, r =>
      (readAll 4 got r).map fun
        | .reading got' => .readLen got'
        | .returned buf => atLen (get32 buf 0)
        | .failed => .done
  | .readChunk remaining got, r =>
      (readAll (TxPath.chunkLen remaining) got r).map fun
        | .reading got' => .readChunk remaining got'
        | .returned _ => atChunk (remaining - TxPath.chunkLen remaining)
        | .failed => .done
  | .done, _ => none

/-! ## What the bytes ask for -/

/-- The stream has whole messages and then a length that is refused. -/
inductive RefusedIn : List UInt8 → Prop
  | here {plen : UInt32} (rest : List UInt8) : Refused plen → RefusedIn (le32 plen ++ rest)
  | behind {plen : UInt32} {body rest : List UInt8} : ¬ Refused plen →
      body.length = plen.toNat → RefusedIn rest → RefusedIn (le32 plen ++ (body ++ rest))

theorem RefusedIn.four_le {X : List UInt8} (h : RefusedIn X) : 4 ≤ X.length := by
  cases h with
  | here rest _ => rw [List.length_append, length_le32]; omega
  | behind _ _ _ => rw [List.length_append, length_le32]; omega

/-- The bytes a body would have, and what is behind it, hold a length that is
refused. -/
def RefusedBehind (n : Nat) (X : List UInt8) : Prop := n ≤ X.length ∧ RefusedIn (X.drop n)

theorem refusedBehind_zero (X : List UInt8) : RefusedBehind 0 X ↔ RefusedIn X :=
  ⟨fun h => h.2, fun h => ⟨Nat.zero_le _, h⟩⟩

/-- A body may be passed in pieces. -/
theorem refusedBehind_append {n : Nat} {buf : List UInt8} (hn : buf.length ≤ n) (X : List UInt8) :
    RefusedBehind n (buf ++ X) ↔ RefusedBehind (n - buf.length) X := by
  rw [RefusedBehind, RefusedBehind, List.drop_append, List.drop_of_length_le hn,
    List.nil_append, List.length_append]
  refine and_congr_left fun _ => ?_
  omega

/-- The first length decides. -/
theorem refusedIn_iff {buf : List UInt8} (hbuf : buf.length = 4) (X : List UInt8) :
    RefusedIn (buf ++ X) ↔
      Refused (get32 buf 0) ∨
        ¬ Refused (get32 buf 0) ∧ RefusedBehind (get32 buf 0).toNat X := by
  have heq : ∀ {plen : UInt32} {Y : List UInt8}, buf ++ X = le32 plen ++ Y →
      get32 buf 0 = plen ∧ X = Y := by
    intro plen Y h
    obtain ⟨hb, hX⟩ := List.append_inj h (by rw [hbuf, length_le32])
    rw [hb, ← List.append_nil (le32 plen), get32_le32]
    exact ⟨rfl, hX⟩
  have hle : buf = le32 (get32 buf 0) :=
    (((get32_eq_iff _ (Nat.le_of_eq hbuf.symm)).mp rfl).eq_of_length
      (by rw [hbuf, length_le32])).symm
  constructor
  · intro h
    generalize hY : buf ++ X = Y at h
    cases h with
    | here rest hr =>
        obtain ⟨hlen, -⟩ := heq hY
        rw [hlen]
        exact Or.inl hr
    | @behind plen body rest hr hbody hrest =>
        obtain ⟨hlen, hX⟩ := heq hY
        rw [hlen, hX, refusedBehind_append (Nat.le_of_eq hbody), hbody, Nat.sub_self,
          refusedBehind_zero]
        exact Or.inr ⟨hr, hrest⟩
  · rintro (hr | ⟨hr, hlen, hrest⟩)
    · rw [hle]
      exact .here X hr
    · rw [hle, ← List.take_append_drop (get32 buf 0).toNat X]
      exact .behind hr (List.length_take_of_le hlen) hrest

/-! ## A run -/

/-- The bytes that a run of results brings. -/
def brought (rs : List ReadResult) : List UInt8 := rs.flatMap ReadResult.data

/-- What `read_all` was asked for is not all there. -/
def Waiting : AppReader → Prop
  | .readLen got => got.length < 4
  | .readChunk remaining got => got.length < TxPath.chunkLen remaining
  | .done => True

/-- With the bytes `X` to come, the thread comes to a length that it refuses, or it
has. -/
def WillRefuse : AppReader → List UInt8 → Prop
  | .readLen got, X => RefusedIn (got ++ X)
  | .readChunk remaining got, X => RefusedBehind remaining (got ++ X)
  | .done, _ => True

theorem chunkLen_pos {remaining : Nat} (h : 0 < remaining) : 0 < TxPath.chunkLen remaining := by
  rw [TxPath.chunkLen]
  split
  · exact h
  · exact (by decide : 0 < usbBufSize)

theorem chunkLen_le (remaining : Nat) : TxPath.chunkLen remaining ≤ remaining := by
  rw [TxPath.chunkLen]
  split <;> omega

theorem atLen_spec (plen : UInt32) (X : List UInt8) :
    (atLen plen).Waiting ∧
      ((atLen plen).WillRefuse X ↔
        Refused plen ∨ ¬ Refused plen ∧ RefusedBehind plen.toNat X) := by
  rw [atLen]
  by_cases hr : Refused plen
  · rw [if_pos hr]
    exact ⟨trivial, iff_of_true trivial (Or.inl hr)⟩
  · rw [if_neg hr]
    refine ⟨chunkLen_pos (Nat.pos_of_ne_zero fun h0 => hr (Or.inl h0)), ?_⟩
    exact ⟨fun h => Or.inr ⟨hr, h⟩, fun h => (h.resolve_left hr).2⟩

theorem atChunk_spec (remaining : Nat) (X : List UInt8) :
    (atChunk remaining).Waiting ∧
      ((atChunk remaining).WillRefuse X ↔ RefusedBehind remaining X) := by
  rw [atChunk]
  by_cases h0 : remaining = 0
  · rw [if_pos h0, h0, refusedBehind_zero]
    exact ⟨(by decide : ([] : List UInt8).length < 4), Iff.rfl⟩
  · rw [if_neg h0]
    exact ⟨chunkLen_pos (Nat.pos_of_ne_zero h0), Iff.rfl⟩

/-- A result that is fatal ends the thread; any other passes its bytes on. -/
theorem step_spec {a b : AppReader} {r : ReadResult} (ha : a.Waiting) (h : a.step r = some b) :
    b.Waiting ∧ (r.Fatal → b = .done) ∧
      (¬ r.Fatal → ∀ X, b.WillRefuse X ↔ a.WillRefuse (r.data ++ X)) := by
  cases a with
  | readLen got =>
      obtain ⟨o, hread, rfl⟩ := Option.map_eq_some_iff.mp h
      rcases readAll_cases ha hread with ⟨hf, rfl⟩ | ⟨hf, hlt, rfl⟩ | ⟨hf, hlen, rfl⟩
      · exact ⟨trivial, fun _ => rfl, fun hn => absurd hf hn⟩
      · refine ⟨hlt, fun h => absurd h hf, fun _ X => ?_⟩
        rw [WillRefuse, WillRefuse, List.append_assoc]
      · refine ⟨(atLen_spec _ []).1, fun h => absurd h hf, fun _ X => ?_⟩
        rw [(atLen_spec _ X).2, ← refusedIn_iff hlen, WillRefuse, List.append_assoc]
  | readChunk remaining got =>
      obtain ⟨o, hread, rfl⟩ := Option.map_eq_some_iff.mp h
      rcases readAll_cases ha hread with ⟨hf, rfl⟩ | ⟨hf, hlt, rfl⟩ | ⟨hf, hlen, rfl⟩
      · exact ⟨trivial, fun _ => rfl, fun hn => absurd hf hn⟩
      · refine ⟨hlt, fun h => absurd h hf, fun _ X => ?_⟩
        rw [WillRefuse, WillRefuse, List.append_assoc]
      · refine ⟨(atChunk_spec _ []).1, fun h => absurd h hf, fun _ X => ?_⟩
        rw [(atChunk_spec _ X).2, WillRefuse, ← List.append_assoc, ← hlen]
        exact (refusedBehind_append (hlen ▸ chunkLen_le remaining) X).symm
  | done => cases h

/-- The same for a run. -/
theorem run_spec {rs : List ReadResult} : ∀ {a b : AppReader}, a.Waiting →
    run step a rs = some b →
      b.Waiting ∧ ((∃ r ∈ rs, r.Fatal) → b = .done) ∧
        ((∀ r ∈ rs, ¬ r.Fatal) → ∀ X, b.WillRefuse X ↔ a.WillRefuse (brought rs ++ X)) := by
  induction rs with
  | nil =>
      intro a b ha h
      cases h
      exact ⟨ha, fun ⟨r, hr, _⟩ => absurd hr List.not_mem_nil, fun _ X => Iff.rfl⟩
  | cons r rs ih =>
      intro a b ha h
      cases hstep : a.step r with
      | none =>
          rw [run, hstep] at h
          cases h
      | some c =>
          rw [run_cons hstep] at h
          obtain ⟨hc, hfatal, hsame⟩ := step_spec ha hstep
          obtain ⟨hb, hbfatal, hbsame⟩ := ih hc h
          refine ⟨hb, ?_, ?_⟩
          · rintro ⟨q, hq, hf⟩
            rcases List.mem_cons.mp hq with rfl | hq
            · -- nothing is read behind a fatal result
              rw [hfatal hf] at h
              cases rs with
              | nil =>
                  cases h
                  rfl
              | cons _ _ => cases h
            · exact hbfatal ⟨q, hq, hf⟩
          · intro hnone X
            rw [hbsame (fun q hq => hnone q (List.mem_cons_of_mem _ hq)) X,
              hsame (hnone r List.mem_cons_self), brought, brought, List.flatMap_cons,
              List.append_assoc]

/-- A thread that waits for bytes will not refuse what is not there. -/
theorem not_willRefuse_nil {a : AppReader} (ha : a.Waiting) (hne : a ≠ .done) :
    ¬ a.WillRefuse [] := by
  cases a with
  | readLen got =>
      intro h
      have hlen := RefusedIn.four_le h
      rw [List.append_nil] at hlen
      exact Nat.not_lt.mpr hlen ha
  | readChunk remaining got =>
      intro h
      have hlen := h.1
      rw [List.append_nil] at hlen
      have hlt : got.length < TxPath.chunkLen remaining := ha
      have hle := chunkLen_le remaining
      omega
  | done => exact absurd rfl hne

/-- Once the peer has closed the thread does not move. -/
theorem run_eof {a : AppReader} (ha : a.Waiting) (hne : a ≠ .done) (n : Nat) :
    run step a (List.replicate n .eof) = some a := by
  have hstep : a.step .eof = some a := by
    cases a with
    | readLen got => rw [step, readAll_eof ha, Option.map_some]
    | readChunk remaining got => rw [step, readAll_eof ha, Option.map_some]
    | done => exact absurd rfl hne
  induction n with
  | zero => rfl
  | succ n ih =>
      rw [List.replicate_succ, run_cons hstep]
      exact ih

/-! ## The reader of a channel -/

/-- Where the thread waits, in the words of `TxPath`. -/
inductive Stands : AppReader → ReaderPc → Prop
  | readLen (got : List UInt8) : Stands (.readLen got) .readLen
  | readChunk (remaining : Nat) (got : List UInt8) :
      Stands (.readChunk remaining got) (.readChunk remaining got)
  | done (buf : List UInt8) : Stands .done (.done buf)

theorem atLen_simulates {s : TxPath} (hs : s.reader = .readLen) (plen : UInt32) :
    ∃ es t, run TxPath.step s es = some t ∧ Stands (atLen plen) t.reader := by
  rw [atLen]
  by_cases hr : Refused plen
  · have hstep : s.step (.readLen plen) = some { s with reader := .done [] } := by
      simp only [TxPath.step, hs]
      exact if_pos hr
    rw [if_pos hr]
    exact ⟨[.readLen plen], _, run_cons hstep [], .done []⟩
  · have hstep : s.step (.readLen plen) =
        some { s with reader := .readChunk plen.toNat [] } := by
      simp only [TxPath.step, hs]
      exact if_neg hr
    rw [if_neg hr]
    exact ⟨[.readLen plen], _, run_cons hstep [], .readChunk _ []⟩

/-- A whole chunk is written to the ring before the next call of `read()`. -/
theorem atChunk_simulates {s : TxPath} {remaining : Nat} {rest : List UInt8}
    (hs : s.reader = .checkWrite remaining rest) (hrest : 0 < rest.length)
    (hactive : s.active = true) (hfree : rest.length ≤ s.txRing.freeSpace) :
    ∃ es t, run TxPath.step s es = some t ∧ Stands (atChunk remaining) t.reader := by
  have hall : (s.txRing.write rest).2 = rest.length := by
    rw [(RingBuffer.contents_write _ _).2, RingBuffer.accepted_eq, Nat.min_eq_left hfree]
  have hcheck : s.step (.reader true) = some { s with reader := .write remaining rest } := by
    rw [TxPath.step, TxPath.readerStep, hs]
    exact if_pos ⟨hrest, hactive⟩
  have hwrite : TxPath.step { s with reader := .write remaining rest } (.reader true) =
      some { s with
        txRing := (s.txRing.write rest).1
        put := s.put ++ rest
        reader := .checkWrite remaining [] } := by
    rw [TxPath.step, TxPath.readerStep]
    simp only [hall, List.take_length, List.drop_length]
  rw [atChunk]
  by_cases h0 : remaining = 0
  · have hend : run TxPath.step s (List.replicate 4 (.reader true)) = some { s with
        txRing := (s.txRing.write rest).1
        put := s.put ++ rest
        reader := .readLen } := by
      rw [List.replicate_succ, run_cons hcheck, List.replicate_succ, run_cons hwrite, h0]
      simp only [List.replicate, run, TxPath.step, TxPath.readerStep, List.length_nil,
        Nat.lt_irrefl, false_and, if_false, Option.bind_some, if_true, hactive]
    rw [if_pos h0]
    exact ⟨_, _, hend, .readLen []⟩
  · have hend : run TxPath.step s (List.replicate 3 (.reader true)) = some { s with
        txRing := (s.txRing.write rest).1
        put := s.put ++ rest
        reader := .readChunk remaining [] } := by
      rw [List.replicate_succ, run_cons hcheck, List.replicate_succ, run_cons hwrite]
      simp only [List.replicate, run, TxPath.step, TxPath.readerStep, List.length_nil,
        Nat.lt_irrefl, false_and, if_false, Option.bind_some, if_neg h0]
    rw [if_neg h0]
    exact ⟨_, _, hend, .readChunk remaining []⟩

/-- Between two calls of `read()` the thread takes the steps of the reader of an
active channel whose ring has room for the chunk. -/
theorem step_simulates {s : TxPath} {a b : AppReader} {r : ReadResult} (ha : a.Waiting)
    (hs : Stands a s.reader) (hactive : s.active = true)
    (hfree : ∀ remaining got, a = .readChunk remaining got →
      TxPath.chunkLen remaining ≤ s.txRing.freeSpace) (h : a.step r = some b) :
    ∃ es t, run TxPath.step s es = some t ∧ Stands b t.reader := by
  cases a with
  | readLen got =>
      have hpc : s.reader = .readLen := by
        generalize s.reader = pc at hs
        cases hs
        rfl
      obtain ⟨o, hread, rfl⟩ := Option.map_eq_some_iff.mp h
      rcases readAll_cases ha hread with ⟨-, rfl⟩ | ⟨-, -, rfl⟩ | ⟨-, -, rfl⟩
      · exact ⟨[.readFail], _, run_cons (by rw [TxPath.step, hpc]) [], .done []⟩
      · exact ⟨[], s, rfl, hpc ▸ .readLen _⟩
      · exact atLen_simulates hpc _
  | readChunk remaining got =>
      have hpc : s.reader = .readChunk remaining got := by
        generalize s.reader = pc at hs
        cases hs
        rfl
      have hlt : got.length < TxPath.chunkLen remaining := ha
      obtain ⟨o, hread, rfl⟩ := Option.map_eq_some_iff.mp h
      have hsome : ∀ {bs : List UInt8}, bs ≠ [] → (got ++ bs).length ≤ TxPath.chunkLen remaining →
          s.step (.readSome bs) = some { s with
            appRead := s.appRead ++ bs
            reader :=
              if (got ++ bs).length = TxPath.chunkLen remaining then
                .checkWrite (remaining - TxPath.chunkLen remaining) (got ++ bs)
              else .readChunk remaining (got ++ bs) } := by
        intro bs hne hle
        rw [TxPath.step, hpc]
        exact if_pos ⟨List.length_pos_iff.mpr hne, hle⟩
      rcases readAll_cases ha hread with ⟨-, rfl⟩ | ⟨-, hlen, rfl⟩ | ⟨-, hlen, rfl⟩
      · exact ⟨[.readFail], _, run_cons (by rw [TxPath.step, hpc]) [], .done got⟩
      · by_cases hne : r.data = []
        · rw [hne, List.append_nil]
          exact ⟨[], s, rfl, hpc ▸ .readChunk _ _⟩
        · refine ⟨[.readSome r.data], _, run_cons (hsome hne (Nat.le_of_lt hlen)) [], ?_⟩
          rw [if_neg (Nat.ne_of_lt hlen)]
          exact .readChunk _ _
      · have hne : r.data ≠ [] := by
          intro hnil
          rw [hnil, List.append_nil] at hlen
          omega
        have hread := hsome hne (Nat.le_of_eq hlen)
        rw [if_pos hlen] at hread
        obtain ⟨es, t, hrun, ht⟩ := atChunk_simulates (s := { s with
            appRead := s.appRead ++ r.data
            reader := .checkWrite (remaining - TxPath.chunkLen remaining) (got ++ r.data) })
          rfl (by omega) hactive (hlen.symm ▸ hfree remaining got rfl)
        exact ⟨.readSome r.data :: es, t, (run_cons hread es).trans hrun, ht⟩
  | done => cases h

/-- After the peer has closed, the thread leaves its loop and frees the channel
exactly when a call of `read()` failed before, or the bytes before the close hold a
length that is refused. -/
theorem appReaderThread_leaves {rs : List ReadResult} {a : AppReader}
    (h : run step start rs = some a) :
    (∃ n b, run step start (rs ++ List.replicate n .eof) = some b ∧ b.active = false) ↔
      (∃ r ∈ rs, r.Fatal) ∨ RefusedIn (brought rs) := by
  have hstart : start.Waiting := (by decide : ([] : List UInt8).length < 4)
  obtain ⟨ha, hfatal, hsame⟩ := run_spec hstart h
  have hdone : a = .done ↔ (∃ r ∈ rs, r.Fatal) ∨ RefusedIn (brought rs) := by
    by_cases hf : ∃ r ∈ rs, r.Fatal
    · exact iff_of_true (hfatal hf) (Or.inl hf)
    · have hnil := hsame (fun r hr hrf => hf ⟨r, hr, hrf⟩) []
      rw [List.append_nil] at hnil
      constructor
      · rintro rfl
        exact Or.inr (hnil.mp trivial)
      · intro hor
        exact Decidable.byContradiction fun hne =>
          not_willRefuse_nil ha hne (hnil.mpr (hor.resolve_left hf))
  rw [← hdone]
  constructor
  · rintro ⟨n, b, hrun, hactive⟩
    rw [run_append, h, Option.bind_some] at hrun
    by_contra hne
    rw [run_eof ha hne] at hrun
    cases hrun
    cases a with
    | readLen _ => cases hactive
    | readChunk _ _ => cases hactive
    | done => exact hne rfl
  · rintro rfl
    exact ⟨0, .done, by rw [List.replicate_zero, List.append_nil]; exact h, rfl⟩

/-- A length of zero, in two reads; then the close. -/
theorem appReaderThread_leaves_zero :
    ∃ n b, run step start ([.bytes [0, 0], .bytes [0, 0]] ++ List.replicate n .eof) = some b ∧
      b.active = false :=
  (appReaderThread_leaves (show run step start [.bytes [0, 0], .bytes [0, 0]] = some .done by
    decide)).mpr (Or.inr (.here [] (show Refused 0 by decide)))

/-- The peer closes and has sent nothing. -/
theorem appReaderThread_leaves_eof :
    ¬ ∃ n b, run step start (List.replicate n .eof) = some b ∧ b.active = false := by
  rintro ⟨n, b, hrun, hactive⟩
  rw [run_eof (a := start) (by decide : ([] : List UInt8).length < 4) (by decide)] at hrun
  cases hrun
  cases hactive

end AppReader

end MFoES.Usbd
