import MFoES.Usbd.RxPath

/-!
# The client of the daemon

`UsbdClient::recv` reads a length and then as many bytes from the socket of the daemon.  A
`Socket` has the bytes that arrive before it ends, at an end of file or an error, and the bytes
that never arrive; together they are whole messages.  `pace` is how many bytes each `read()`
gives at most, and which of them are interrupted.  What comes behind an error does not matter:
the client does not read on after one.

A message longer than the buffer is left in the socket, and an end of file inside a body is
taken for the end of a shorter message.  In every other case the client stays in step with the
messages (`recv_inStep_iff`, `calls_inStep_iff`).
-/

namespace MFoES.Usbd

open LittleEndian

/-- How a socket ends. -/
inductive Ending where
  | eof
  | error
deriving DecidableEq

/-- How far a `read()` goes. -/
inductive Pace where
  | interrupted
  /-- One byte, and at most `more` further ones. -/
  | upTo (more : Nat)

/-- The socket, from where it is read. -/
structure Socket where
  arriving : List UInt8
  missing : List UInt8
  ending : Ending
  pace : List Pace

/-- What `read()` gives. -/
inductive SocketRead where
  | interrupted
  | error
  | eof
  | bytes (bs : List UInt8)
deriving DecidableEq

namespace Socket

/-- What is left of the messages. -/
def left (s : Socket) : List UInt8 := s.arriving ++ s.missing

/-- What `read()` gives at the end. -/
def atEnd (s : Socket) : SocketRead :=
  match s.ending with
  | .eof => .eof
  | .error => .error

/-- Behind `n` bytes. -/
def advance (s : Socket) (n : Nat) (pace : List Pace) : Socket :=
  { s with arriving := s.arriving.drop n, pace := pace }

theorem advance_advance (s : Socket) (n m : Nat) (pace pace' : List Pace) :
    (s.advance n pace).advance m pace' = s.advance (n + m) pace' := by
  rw [advance, advance, advance, ← List.drop_drop]

/-- Take `n` bytes. -/
def take (s : Socket) (n : Nat) (pace : List Pace) : Socket × SocketRead :=
  (s.advance n pace, .bytes (s.arriving.take n))

/-- `read()` of up to `len` bytes. -/
def read (s : Socket) (len : Nat) : Socket × SocketRead :=
  match s.pace, s.arriving with
  | .interrupted :: pace, _ => ({ s with pace := pace }, .interrupted)
  | _, [] => (s, s.atEnd)
  | .upTo more :: pace, _ => s.take (min len (more + 1)) pace
  | [], _ => s.take len []

/-- A `read()` is interrupted, comes at the end, or takes some of the bytes. -/
theorem read_cases (s : Socket) {len : Nat} (hlen : 0 < len) :
    (∃ pace, s.pace = .interrupted :: pace ∧
      s.read len = ({ s with pace := pace }, .interrupted)) ∨
    (s.arriving = [] ∧ s.read len = (s, s.atEnd)) ∨
    ∃ n pace, 0 < n ∧ n ≤ len ∧ pace.length ≤ s.pace.length ∧ s.arriving ≠ [] ∧
      s.read len = s.take n pace := by
  obtain ⟨arriving, missing, ending, pace⟩ := s
  cases pace with
  | nil =>
      cases arriving with
      | nil => exact Or.inr (Or.inl ⟨rfl, rfl⟩)
      | cons b bs =>
          exact Or.inr (Or.inr ⟨len, [], hlen, Nat.le_refl _, Nat.le_refl _, List.cons_ne_nil _ _,
            rfl⟩)
  | cons p pace =>
      cases p with
      | interrupted => exact Or.inl ⟨pace, rfl, rfl⟩
      | upTo more =>
          cases arriving with
          | nil => exact Or.inr (Or.inl ⟨rfl, rfl⟩)
          | cons b bs =>
              exact Or.inr (Or.inr ⟨min len (more + 1), pace, by omega, Nat.min_le_left _ _,
                Nat.le_succ _, List.cons_ne_nil _ _, rfl⟩)

/-- What `_read` can go on for. -/
def patience (s : Socket) : Nat := s.arriving.length + s.pace.length

theorem patience_advance_lt {s : Socket} {n : Nat} {pace : List Pace} (hn : 0 < n)
    (hpace : pace.length ≤ s.pace.length) (hne : s.arriving ≠ []) :
    (s.advance n pace).patience < s.patience := by
  have hpos := List.length_pos_iff.mpr hne
  rw [patience, patience, advance]
  dsimp only
  rw [List.length_drop]
  omega

theorem patience_read_lt {s : Socket} {len : Nat} (hlen : 0 < len) :
    (s.read len).2 = .interrupted ∨ (∃ bs, (s.read len).2 = .bytes bs) →
      (s.read len).1.patience < s.patience := by
  intro hgoes
  rcases s.read_cases hlen with ⟨pace, hpace, hread⟩ | ⟨-, hread⟩ |
    ⟨n, pace, hn, -, hle, hne, hread⟩
  · rw [hread, patience, patience, hpace, List.length_cons]
    exact Nat.lt_succ_self _
  · rw [hread, atEnd] at hgoes
    cases hending : s.ending with
    | eof => simp [hending] at hgoes
    | error => simp [hending] at hgoes
  · rw [hread]
    exact patience_advance_lt hn hle hne

/-- `_read` of `len` bytes, of which `got` are in the buffer: its return value, and the buffer. -/
def readFrom (s : Socket) (len : Nat) (got : List UInt8) : Socket × Int × List UInt8 :=
  if _ : got.length < len then
    match hread : s.read (len - got.length) with
    | (t, .interrupted) => t.readFrom len got
    | (t, .error) => (t, -1, got)
    | (t, .eof) => (t, if 0 < got.length then got.length else -1, got)
    | (t, .bytes bs) => t.readFrom len (got ++ bs)
  else (s, got.length, got)
termination_by s.patience
decreasing_by
  · have hlen : 0 < len - got.length := by omega
    have hless := patience_read_lt (s := s) hlen
    rw [hread] at hless
    exact hless (Or.inl rfl)
  · have hlen : 0 < len - got.length := by omega
    have hless := patience_read_lt (s := s) hlen
    rw [hread] at hless
    exact hless (Or.inr ⟨bs, rfl⟩)

/-- `_read` goes around after a signal and after bytes, and returns at the end. -/
theorem readFrom_cases (s : Socket) (len : Nat) (got : List UInt8) (hlt : got.length < len) :
    (∃ pace, s.pace = .interrupted :: pace ∧
      s.readFrom len got = readFrom { s with pace := pace } len got) ∨
    (s.arriving = [] ∧ s.readFrom len got =
      (s, if s.ending = .eof ∧ got ≠ [] then (got.length : Int) else -1, got)) ∨
    ∃ n pace, 0 < n ∧ n ≤ len - got.length ∧ pace.length ≤ s.pace.length ∧ s.arriving ≠ [] ∧
      s.readFrom len got = (s.advance n pace).readFrom len (got ++ s.arriving.take n) := by
  have hpos : 0 < len - got.length := by omega
  rw [readFrom, dif_pos hlt]
  rcases s.read_cases hpos with ⟨pace, hpace, hread⟩ | ⟨hnil, hread⟩ |
    ⟨n, pace, hn, hle, hp, hne, hread⟩
  · refine Or.inl ⟨pace, hpace, ?_⟩
    split <;> (rename_i heq; rw [hread] at heq; cases heq)
    rfl
  · refine Or.inr (Or.inl ⟨hnil, ?_⟩)
    cases hending : s.ending with
    | error =>
        rw [atEnd, hending] at hread
        split <;> (rename_i heq; rw [hread] at heq; cases heq)
        rfl
    | eof =>
        rw [atEnd, hending] at hread
        split <;> (rename_i heq; rw [hread] at heq; cases heq)
        simp only [true_and, List.length_pos_iff, ne_eq]
  · refine Or.inr (Or.inr ⟨n, pace, hn, hle, hp, hne, ?_⟩)
    rw [take] at hread
    split <;> (rename_i heq; rw [hread] at heq; cases heq)
    rfl

/-- `_read` gets what it asks for, if that many bytes arrive. -/
theorem readFrom_of_le (s : Socket) (len : Nat) (got : List UInt8) (hgot : got.length ≤ len)
    (h : len - got.length ≤ s.arriving.length) :
    ∃ pace, s.readFrom len got =
      (s.advance (len - got.length) pace, (len : Int),
        got ++ s.arriving.take (len - got.length)) := by
  induction hpatience : s.patience using Nat.strongRecOn generalizing s got with
  | ind p ih =>
      rcases Nat.lt_or_ge got.length len with hlt | hge
      · rcases s.readFrom_cases len got hlt with ⟨pace, hpace, hread⟩ | ⟨hnil, -⟩ |
          ⟨n, pace, hn, hle, hp, hne, hread⟩
        · rw [hread]
          refine ih _ ?_ { s with pace := pace } got hgot h rfl
          rw [← hpatience, patience, patience, hpace, List.length_cons]
          exact Nat.lt_succ_self _
        · rw [hnil, List.length_nil] at h
          omega
        · have htake : (got ++ s.arriving.take n).length = got.length + n := by
            rw [List.length_append, List.length_take]
            omega
          have hrest : len - (got ++ s.arriving.take n).length = len - got.length - n := by omega
          have hdrop : (s.advance n pace).arriving = s.arriving.drop n := rfl
          obtain ⟨pace', hread'⟩ := ih _ (hpatience ▸ patience_advance_lt hn hp hne)
            (s.advance n pace) (got ++ s.arriving.take n) (by omega)
            (by rw [hrest, hdrop, List.length_drop]; omega) rfl
          have hsum : n + (len - got.length - n) = len - got.length := by omega
          refine ⟨pace', ?_⟩
          rw [hread, hread', hrest, hdrop, List.append_assoc, ← List.take_add, advance_advance,
            hsum]
      · have heq : len = got.length := Nat.le_antisymm hge hgot
        subst heq
        refine ⟨s.pace, ?_⟩
        rw [readFrom, dif_neg (Nat.lt_irrefl _), Nat.sub_self, List.take_zero, List.append_nil]
        rfl

/-- It gets all that arrives otherwise, and says so if there was any before an end of file. -/
theorem readFrom_of_lt (s : Socket) (len : Nat) (got : List UInt8)
    (h : got.length + s.arriving.length < len) :
    ∃ pace, s.readFrom len got =
      ({ s with arriving := [], pace := pace },
        if s.ending = .eof ∧ got ++ s.arriving ≠ [] then ((got ++ s.arriving).length : Int) else -1,
        got ++ s.arriving) := by
  induction hpatience : s.patience using Nat.strongRecOn generalizing s got with
  | ind p ih =>
      rcases s.readFrom_cases len got (by omega) with
        ⟨pace, hpace, hread⟩ | ⟨hnil, hread⟩ | ⟨n, pace, hn, hle, hp, hne, hread⟩
      · rw [hread]
        refine ih _ ?_ { s with pace := pace } got h rfl
        rw [← hpatience, patience, patience, hpace, List.length_cons]
        exact Nat.lt_succ_self _
      · obtain ⟨arriving, missing, ending, pace⟩ := s
        cases hnil
        refine ⟨pace, ?_⟩
        rw [hread]
        simp only [List.append_nil]
      · have hsum : got ++ s.arriving.take n ++ s.arriving.drop n = got ++ s.arriving := by
          rw [List.append_assoc, List.take_append_drop]
        have hdrop : (s.advance n pace).arriving = s.arriving.drop n := rfl
        obtain ⟨pace', hread'⟩ := ih _ (hpatience ▸ patience_advance_lt hn hp hne)
          (s.advance n pace) (got ++ s.arriving.take n)
          (by rw [hdrop, List.length_append, List.length_take, List.length_drop]; omega) rfl
        refine ⟨pace', ?_⟩
        rw [hread, hread', hdrop, hsum]
        rfl

end Socket

/-! ## The client -/

/-- `UsbdClient`, with its socket. -/
structure UsbdClient where
  fd : Int
  connected : Bool
  socket : Socket

namespace UsbdClient

open Socket

/-- `is_connected()`. -/
def isConnected (c : UsbdClient) : Bool := c.connected && decide (0 ≤ c.fd)

/-- `_disconnect()`. -/
def disconnect (c : UsbdClient) : UsbdClient := { c with connected := false }

/-- `recv` into a buffer of `bufSize` bytes: the return value, and what is in the buffer. -/
def recv (c : UsbdClient) (bufSize : UInt32) : UsbdClient × Int × List UInt8 :=
  if c.connected = false ∨ c.fd < 0 then (c, -1, [])
  else
    match c.socket.readFrom 4 [] with
    | (socket, ret, head) =>
        let c := { c with socket := socket }
        if ret ≠ 4 then (c.disconnect, -1, [])
        else
          let plen := get32 head 0
          if plen = 0 ∨ bufSize < plen then (c, -1, [])
          else
            match c.socket.readFrom plen.toNat [] with
            | (socket, ret, buf) =>
                let c := { c with socket := socket }
                (if ret < 0 then c.disconnect else c, ret, buf)

/-! ## In step with the messages -/

/-- Messages on the socket. -/
def wire (ms : List (List UInt8)) : List UInt8 := ms.flatMap RxPath.message

/-- The client is at the start of a message. -/
structure At (c : UsbdClient) (ms : List (List UInt8)) : Prop where
  left : c.socket.left = wire ms
  fits : ∀ m ∈ ms, m.length < 2 ^ 32

/-- What `recv` may do where the messages `ms` are left: return the next one whole, or disconnect,
or stand at the start of a message. -/
inductive InStep (ms : List (List UInt8)) (r : UsbdClient × Int × List UInt8) : Prop
  | message (m : List UInt8) (rest : List (List UInt8)) (split : ms = m :: rest)
      (ret : r.2.1 = m.length) (bytes : r.2.2 = m) (left : r.1.socket.left = wire rest)
  | disconnected (ret : r.2.1 = -1) (gone : r.1.isConnected = false)
  | skipped (ret : r.2.1 = -1) (rest : List (List UInt8)) (suffix : rest <:+ ms)
      (left : r.1.socket.left = wire rest)

/-- If the client is connected and learns the length of the next message, the buffer is long
enough for it, and the socket does not come to an end of file inside of its body. -/
def Receivable (ms : List (List UInt8)) (c : UsbdClient) (bufSize : UInt32) : Prop :=
  c.isConnected = true → ∀ m ∈ ms.head?, m ≠ [] → 4 ≤ c.socket.arriving.length →
    m.length ≤ bufSize.toNat ∧
      (c.socket.ending = .eof →
        c.socket.arriving.length = 4 ∨ 4 + m.length ≤ c.socket.arriving.length)

theorem wire_cons (m : List UInt8) (ms : List (List UInt8)) :
    wire (m :: ms) = le32 (UInt32.ofNat m.length) ++ (m ++ wire ms) := by
  rw [wire, List.flatMap_cons, RxPath.message, List.append_assoc]
  rfl

theorem length_wire_le {ms ns : List (List UInt8)} (h : ms <:+ ns) :
    (wire ms).length ≤ (wire ns).length := by
  obtain ⟨pre, rfl⟩ := h
  rw [wire, wire, List.flatMap_append, List.length_append]
  omega

section Recv

variable {c : UsbdClient} {ms : List (List UInt8)} {bufSize : UInt32}

theorem recv_of_disconnected (h : c.isConnected = false) (bufSize : UInt32) :
    c.recv bufSize = (c, -1, []) := by
  rw [isConnected, Bool.and_eq_false_iff, decide_eq_false_iff_not, Int.not_le] at h
  exact if_pos h

theorem recv_of_connected (h : c.isConnected = true) (bufSize : UInt32) :
    c.recv bufSize =
      match c.socket.readFrom 4 [] with
      | (socket, ret, head) =>
          let c := { c with socket := socket }
          if ret ≠ 4 then (c.disconnect, -1, [])
          else
            let plen := get32 head 0
            if plen = 0 ∨ bufSize < plen then (c, -1, [])
            else
              match c.socket.readFrom plen.toNat [] with
              | (socket, ret, buf) =>
                  let c := { c with socket := socket }
                  (if ret < 0 then c.disconnect else c, ret, buf) := by
  rw [isConnected, Bool.and_eq_true, decide_eq_true_eq] at h
  refine if_neg ?_
  rw [not_or, Bool.not_eq_false, Int.not_lt]
  exact h

@[simp] theorem isConnected_disconnect (c : UsbdClient) : c.disconnect.isConnected = false := rfl

/-- Without a whole length the client disconnects. -/
theorem recv_of_short (h : c.isConnected = true) (hshort : c.socket.arriving.length < 4)
    (bufSize : UInt32) :
    (c.recv bufSize).2.1 = -1 ∧ (c.recv bufSize).1.isConnected = false := by
  obtain ⟨pace, hread⟩ := c.socket.readFrom_of_lt 4 []
    (by rw [List.length_nil]; omega)
  have hret : (if c.socket.ending = .eof ∧ [] ++ c.socket.arriving ≠ [] then
      (([] ++ c.socket.arriving).length : Int) else -1) ≠ 4 := by
    rw [List.nil_append]
    split
    · omega
    · decide
  rw [recv_of_connected h, hread]
  dsimp only
  rw [if_pos hret]
  exact ⟨rfl, rfl⟩

/-- The client behind the length of a message. -/
theorem recv_of_message (bufSize : UInt32) (h : c.isConnected = true) {m : List UInt8}
    (hm : m.length < 2 ^ 32)
    (hat : c.socket.left = wire (m :: ms)) (hlong : 4 ≤ c.socket.arriving.length) :
    ∃ pace, (c.socket.advance 4 pace).left = m ++ wire ms ∧ c.recv bufSize =
      if m = [] ∨ bufSize.toNat < m.length then
        ({ c with socket := c.socket.advance 4 pace }, -1, [])
      else
        match (c.socket.advance 4 pace).readFrom m.length [] with
        | (socket, ret, buf) =>
            (if ret < 0 then { c with socket := socket, connected := false }
              else { c with socket := socket }, ret, buf) := by
  obtain ⟨pace, hread⟩ := c.socket.readFrom_of_le 4 [] (Nat.zero_le 4) hlong
  have hlen : (le32 (UInt32.ofNat m.length)).length = 4 := length_le32 _
  have hhead : c.socket.arriving.take 4 = le32 (UInt32.ofNat m.length) := by
    have htake := congrArg (List.take 4) hat
    rw [Socket.left, wire_cons, List.take_append_of_le_length hlong, List.take_left' hlen] at htake
    exact htake
  have hplen : get32 (le32 (UInt32.ofNat m.length)) 0 = UInt32.ofNat m.length := by
    have hget := get32_le32 (UInt32.ofNat m.length) []
    rw [List.append_nil] at hget
    exact hget
  have hnat : (UInt32.ofNat m.length).toNat = m.length := UInt32.toNat_ofNat_of_lt' hm
  have hguard : (UInt32.ofNat m.length = 0 ∨ bufSize < UInt32.ofNat m.length) ↔
      (m = [] ∨ bufSize.toNat < m.length) := by
    rw [UInt32.lt_iff_toNat_lt, hnat, ← UInt32.toNat_inj, hnat, UInt32.toNat_zero,
      List.length_eq_zero_iff]
  refine ⟨pace, ?_, ?_⟩
  · have hdrop := congrArg (List.drop 4) hat
    rw [Socket.left, wire_cons, List.drop_append_of_le_length hlong, List.drop_left' hlen] at hdrop
    exact hdrop
  · rw [recv_of_connected h, hread]
    simp only [List.length_nil, Nat.sub_zero, List.nil_append, hhead, hplen, hnat, hguard,
      disconnect]
    rfl

/-- What is left in the middle of a body is not the start of a message. -/
theorem not_wire_of_body {m : List UInt8} {rest ns : List (List UInt8)} (hm : m ≠ [])
    (hsuffix : ns <:+ m :: rest) : m ++ wire rest ≠ wire ns := by
  have hpos := List.length_pos_iff.mpr hm
  intro heq
  have hlen := congrArg List.length heq
  rw [List.length_append] at hlen
  rcases List.suffix_cons_iff.mp hsuffix with rfl | hsuffix
  · rw [wire_cons, List.length_append, List.length_append, length_le32] at hlen
    omega
  · have hle := length_wire_le hsuffix
    omega

/-- A message that is longer than the buffer stays in the socket without its length. -/
theorem not_inStep_of_long (h : c.isConnected = true) {m : List UInt8} (hm : m.length < 2 ^ 32)
    (hat : c.socket.left = wire (m :: ms)) (hlong : 4 ≤ c.socket.arriving.length) (hne : m ≠ [])
    (hbuf : bufSize.toNat < m.length) : ¬ InStep (m :: ms) (c.recv bufSize) := by
  obtain ⟨pace, hleft, hrecv⟩ := recv_of_message bufSize h hm hat hlong
  rw [if_pos (Or.inr hbuf)] at hrecv
  rw [hrecv]
  rintro (⟨m', rest, -, hret, -, -⟩ | ⟨-, hgone⟩ | ⟨-, rest, hsuffix, hrest⟩)
  · have hret' : (-1 : Int) = m'.length := hret
    omega
  · have hconn : c.isConnected = false := hgone
    rw [h] at hconn
    cases hconn
  · have hrest' : (c.socket.advance 4 pace).left = wire rest := hrest
    rw [hleft] at hrest'
    exact not_wire_of_body hne hsuffix hrest'

/-- An empty message is skipped. -/
theorem recv_of_empty (h : c.isConnected = true) (hat : c.socket.left = wire ([] :: ms))
    (hlong : 4 ≤ c.socket.arriving.length) (bufSize : UInt32) :
    (c.recv bufSize).2.1 = -1 ∧ (c.recv bufSize).1.socket.left = wire ms := by
  obtain ⟨pace, hleft, hrecv⟩ :=
    recv_of_message bufSize h (m := []) (by decide) hat hlong
  rw [if_pos (Or.inl rfl)] at hrecv
  rw [hrecv]
  exact ⟨rfl, hleft⟩

/-- A message that fits and arrives is returned. -/
theorem recv_of_fits (h : c.isConnected = true) {m : List UInt8} (hm : m.length < 2 ^ 32)
    (hat : c.socket.left = wire (m :: ms)) (hne : m ≠ []) (hbuf : m.length ≤ bufSize.toNat)
    (hlong : 4 + m.length ≤ c.socket.arriving.length) :
    (c.recv bufSize).2.1 = m.length ∧ (c.recv bufSize).2.2 = m ∧
      (c.recv bufSize).1.socket.left = wire ms := by
  obtain ⟨pace, hleft, hrecv⟩ := recv_of_message bufSize h hm hat (by omega)
  have harrives : m.length ≤ (c.socket.advance 4 pace).arriving.length := by
    rw [Socket.advance]
    dsimp only
    rw [List.length_drop]
    omega
  obtain ⟨pace', hread⟩ := (c.socket.advance 4 pace).readFrom_of_le m.length []
    (Nat.zero_le _) harrives
  rw [if_neg (by rw [not_or, Nat.not_lt]; exact ⟨hne, hbuf⟩), hread] at hrecv
  have hbody : (c.socket.advance 4 pace).arriving.take m.length = m := by
    have htake := congrArg (List.take m.length) hleft
    rw [Socket.left, List.take_append_of_le_length harrives, List.take_left] at htake
    exact htake
  have hbehind : ((c.socket.advance 4 pace).advance m.length pace').left = wire ms := by
    have hdrop := congrArg (List.drop m.length) hleft
    rw [Socket.left, List.drop_append_of_le_length harrives, List.drop_left] at hdrop
    exact hdrop
  have hret : ¬ ((m.length : Int) < 0) := by omega
  rw [hrecv]
  dsimp only
  rw [if_neg hret, List.length_nil, Nat.sub_zero, List.nil_append]
  exact ⟨rfl, hbody, hbehind⟩

/-- A message that fits and does not arrive. -/
theorem recv_of_cut (h : c.isConnected = true) {m : List UInt8} (hm : m.length < 2 ^ 32)
    (hat : c.socket.left = wire (m :: ms)) (hbuf : m.length ≤ bufSize.toNat)
    (hlong : 4 ≤ c.socket.arriving.length) (hcut : c.socket.arriving.length < 4 + m.length) :
    ∃ t : Socket, c.recv bufSize =
      if c.socket.ending = .eof ∧ 4 < c.socket.arriving.length then
        ({ c with socket := t }, (c.socket.arriving.length : Int) - 4, c.socket.arriving.drop 4)
      else ({ c with socket := t, connected := false }, -1, c.socket.arriving.drop 4) := by
  obtain ⟨pace, -, hrecv⟩ := recv_of_message bufSize h hm hat hlong
  have harriving : (c.socket.advance 4 pace).arriving = c.socket.arriving.drop 4 := rfl
  have hending : (c.socket.advance 4 pace).ending = c.socket.ending := rfl
  obtain ⟨pace', hread⟩ := (c.socket.advance 4 pace).readFrom_of_lt m.length []
    (by rw [harriving, List.length_nil, List.length_drop]; omega)
  have hne : m ≠ [] := by
    rintro rfl
    rw [List.length_nil] at hcut
    omega
  have hsome : (c.socket.arriving.drop 4 ≠ []) ↔ 4 < c.socket.arriving.length := by
    rw [Ne, List.drop_eq_nil_iff]
    omega
  rw [if_neg (by rw [not_or, Nat.not_lt]; exact ⟨hne, hbuf⟩), hread, harriving, hending,
    List.nil_append] at hrecv
  simp only [hsome] at hrecv
  refine ⟨{ c.socket.advance 4 pace with arriving := [], pace := pace' }, ?_⟩
  rw [hrecv]
  by_cases hend : c.socket.ending = .eof ∧ 4 < c.socket.arriving.length
  · have hlen : ((c.socket.arriving.drop 4).length : Int) =
        (c.socket.arriving.length : Int) - 4 := by
      rw [List.length_drop]
      omega
    have hret : ¬ ((c.socket.arriving.length : Int) - 4 < 0) := by omega
    simp only [if_pos hend, hlen, if_neg hret]
    rfl
  · simp only [if_neg hend]
    rfl

/-- A call of a connected client: it stays in step and the message was receivable, or neither. -/
theorem recv_cases (h : c.isConnected = true) (hat : c.At ms) (bufSize : UInt32) :
    InStep ms (c.recv bufSize) ∧ Receivable ms c bufSize ∧
        ((c.recv bufSize).1.isConnected = false ∨ (c.recv bufSize).1.At ms.tail) ∨
      ¬ InStep ms (c.recv bufSize) ∧ ¬ Receivable ms c bufSize := by
  rcases Nat.lt_or_ge c.socket.arriving.length 4 with hshort | hlong
  · obtain ⟨hret, hgone⟩ := recv_of_short h hshort bufSize
    exact Or.inl ⟨.disconnected hret hgone, fun _ _ _ _ hlong => by omega, Or.inl hgone⟩
  · obtain ⟨m, rest, rfl⟩ : ∃ m rest, ms = m :: rest := by
      cases ms with
      | cons m rest => exact ⟨m, rest, rfl⟩
      | nil =>
          have hnil : c.socket.arriving = [] := (List.append_eq_nil_iff.mp hat.left).1
          rw [hnil] at hlong
          cases hlong
    have hm := hat.fits m List.mem_cons_self
    have hrest := fun m' hm' => hat.fits m' (List.mem_cons_of_mem m hm')
    by_cases hempty : m = []
    · subst hempty
      obtain ⟨hret, hleft⟩ := recv_of_empty h hat.left hlong bufSize
      exact Or.inl ⟨.skipped hret rest (List.suffix_cons _ _) hleft,
        fun _ m hm hne => absurd (Option.some.inj hm).symm hne, Or.inr ⟨hleft, hrest⟩⟩
    rcases Nat.lt_or_ge bufSize.toNat m.length with hbuf | hbuf
    · refine Or.inr ⟨not_inStep_of_long h hm hat.left hlong hempty hbuf, fun hrecv => ?_⟩
      exact absurd (hrecv h m rfl hempty hlong).1 (Nat.not_le.mpr hbuf)
    rcases Nat.lt_or_ge c.socket.arriving.length (4 + m.length) with hcut | hwhole
    · obtain ⟨t, hrecv⟩ := recv_of_cut h hm hat.left hbuf hlong hcut
      by_cases hend : c.socket.ending = .eof ∧ 4 < c.socket.arriving.length
      · rw [if_pos hend] at hrecv
        refine Or.inr ⟨?_, fun hok => ?_⟩
        · rw [hrecv]
          rintro (⟨m', rest', hsplit, hret, -, -⟩ | ⟨hret, -⟩ | ⟨hret, -, -, -⟩)
          · cases hsplit
            have hret' : (c.socket.arriving.length : Int) - 4 = m.length := hret
            omega
          · have hret' : (c.socket.arriving.length : Int) - 4 = -1 := hret
            omega
          · have hret' : (c.socket.arriving.length : Int) - 4 = -1 := hret
            omega
        · rcases (hok h m rfl hempty hlong).2 hend.1 with hfour | hwhole
          · omega
          · omega
      · rw [if_neg hend] at hrecv
        have hgone : (c.recv bufSize).1.isConnected = false := by
          rw [hrecv]
          rfl
        have hret : (c.recv bufSize).2.1 = -1 := by rw [hrecv]
        refine Or.inl ⟨.disconnected hret hgone, ?_, Or.inl hgone⟩
        rintro - m' hm' - -
        cases hm'
        refine ⟨hbuf, fun heof => Or.inl ?_⟩
        rw [not_and] at hend
        have hnot := hend heof
        omega
    · obtain ⟨hret, hbytes, hleft⟩ := recv_of_fits h hm hat.left hempty hbuf hwhole
      refine Or.inl ⟨.message m rest rfl hret hbytes hleft, ?_, Or.inr ⟨hleft, hrest⟩⟩
      rintro - m' hm' - -
      cases hm'
      exact ⟨hbuf, fun _ => Or.inr hwhole⟩

end Recv

/-! ## A sequence of calls -/

/-- `P` holds of every call of a sequence.  Behind each call one message is left less. -/
def Calls (P : List (List UInt8) → UsbdClient → UInt32 → Prop) :
    List (List UInt8) → UsbdClient → List UInt32 → Prop
  | _, _, [] => True
  | ms, c, bufSize :: bufSizes =>
      P ms c bufSize ∧ Calls P ms.tail (c.recv bufSize).1 bufSizes

/-- Every call of `recv` stays in step exactly when every message is receivable when its call
comes. -/
theorem calls_inStep_iff (c : UsbdClient) (ms : List (List UInt8)) (hat : c.At ms)
    (bufSizes : List UInt32) :
    Calls (fun ms c bufSize => InStep ms (c.recv bufSize)) ms c bufSizes ↔
      Calls Receivable ms c bufSizes := by
  have hstands : c.isConnected = false ∨ c.At ms := Or.inr hat
  clear hat
  induction bufSizes generalizing c ms with
  | nil => exact Iff.rfl
  | cons bufSize bufSizes ih =>
      rw [Calls, Calls]
      cases hconn : c.isConnected with
      | false =>
          have hrecv := recv_of_disconnected hconn bufSize
          have hstep : InStep ms (c.recv bufSize) := by
            rw [hrecv]
            exact .disconnected rfl hconn
          have hok : Receivable ms c bufSize := fun h => by
            rw [hconn] at h
            cases h
          have hgone : (c.recv bufSize).1.isConnected = false := by
            rw [hrecv]
            exact hconn
          exact and_congr (iff_of_true hstep hok) (ih _ _ (Or.inl hgone))
      | true =>
          have hat : c.At ms := hstands.resolve_left (by rw [hconn]; decide)
          rcases recv_cases hconn hat bufSize with ⟨hstep, hok, hnext⟩ | ⟨hstep, hok⟩
          · exact and_congr (iff_of_true hstep hok) (ih _ _ hnext)
          · exact iff_of_false (fun h => hstep h.1) (fun h => hok h.1)

/-- A client with two messages of one byte before it, on a socket that then ends. -/
def pending : UsbdClient :=
  ⟨3, true, ⟨[1, 0, 0, 0, 7, 1, 0, 0, 0, 9], [], .eof, [.upTo 2, .interrupted]⟩⟩

theorem at_pending : pending.At [[7], [9]] := ⟨by decide, by decide⟩

theorem calls_inStep_iff_pending :
    Calls (fun ms c bufSize => InStep ms (c.recv bufSize)) [[7], [9]] pending [4, 4, 4] ↔
      Calls Receivable [[7], [9]] pending [4, 4, 4] :=
  calls_inStep_iff pending [[7], [9]] at_pending [4, 4, 4]

/-- A message of two bytes, and a buffer of one. -/
theorem not_inStep_long :
    ¬ ∀ (c : UsbdClient) (ms : List (List UInt8)), c.At ms → ∀ bufSizes : List UInt32,
      Calls (fun ms c bufSize => InStep ms (c.recv bufSize)) ms c bufSizes := by
  intro hall
  have hbad : ¬ InStep [[7, 9]]
      (recv ⟨3, true, ⟨[2, 0, 0, 0, 7, 9], [], .eof, []⟩⟩ 1) :=
    not_inStep_of_long rfl (m := [7, 9]) (by decide) (by decide) (by decide) (by decide) (by decide)
  exact hbad (hall ⟨3, true, ⟨[2, 0, 0, 0, 7, 9], [], .eof, []⟩⟩ [[7, 9]] ⟨by decide, by decide⟩
    [1]).1

end UsbdClient

end MFoES.Usbd
