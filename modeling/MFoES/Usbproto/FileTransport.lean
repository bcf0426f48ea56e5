import MFoES.Usbproto.Session

/-!
# FileTransport

`FileTransport` serves a file as if it were the pipe of the device.  A read takes what is left of
the file, at most a chunk at a time.  At the end it fails from then on, or goes back to the
beginning.

Read by read, a file that is played once comes out whole and is followed by failures
(`reads_once`), and one that is played in a loop comes out over and over (`reads_loop`).
-/

namespace MFoES.Usbproto

/-! ## Files -/

/-- A file that is open for reading. -/
structure File where
  bytes : List UInt8
  pos : Nat
  /-- `fseek` can take it back to its beginning. -/
  seekable : Bool

namespace File

/-- A regular file, as `fopen` gives it. -/
def opened (bytes : List UInt8) : File := ⟨bytes, 0, true⟩

/-- What is still to be read. -/
def left (f : File) : List UInt8 := f.bytes.drop f.pos

/-- `fread(buf, 1, n, fp)`. -/
def fread (f : File) (n : Nat) : File × List UInt8 :=
  ({ f with pos := f.pos + (f.left.take n).length }, f.left.take n)

/-- `fseek(fp, 0, SEEK_SET)`. -/
def rewind (f : File) : Option File := if f.seekable then some { f with pos := 0 } else none

theorem left_opened (bytes : List UInt8) : (opened bytes).left = bytes := rfl

theorem left_fread (f : File) (n : Nat) : (f.fread n).1.left = f.left.drop n := by
  simp only [fread, left, List.length_take, List.length_drop, List.drop_drop]
  rcases Nat.le_total n (f.bytes.length - f.pos) with hle | hge
  · rw [Nat.min_eq_left hle]
  · rw [Nat.min_eq_right hge, List.drop_of_length_le (by omega), List.drop_of_length_le (by omega)]

end File

/-! ## The transport -/

/-- `FileTransport`. -/
structure FileTransport where
  fp : Option File
  loop : Bool
  ended : Bool
  chunk : Nat
  err : String

namespace FileTransport

/-- `FileTransport()`. -/
def new : FileTransport := ⟨none, false, false, 0, ""⟩

def close (t : FileTransport) : FileTransport := { t with fp := none, ended := false }

/-- `open`.  There is no path where `path` is null. -/
def openFile (t : FileTransport) (fopen : String → Option File) (path : Option String)
    (loop : Bool) : FileTransport × Bool :=
  let t := { t.close with err := "" }
  match path with
  | none => ({ t with err := "no path given" }, false)
  | some path =>
      if path = "" then ({ t with err := "no path given" }, false)
      else match fopen path with
        | none => ({ t with err := "cannot open " ++ path }, false)
        | some fp => ({ t with fp := some fp, loop := loop, ended := false }, true)

def isOpen (t : FileTransport) : Bool := t.fp.isSome

/-- `send`: a file has no far end. -/
def send (t : FileTransport) (_data : List UInt8) : FileTransport × Bool := (t, true)

def setChunkSize (t : FileTransport) (bytes : Nat) : FileTransport := { t with chunk := bytes }

def atEnd (t : FileTransport) : Bool := t.ended

/-- The `want` of `recv`. -/
def want (t : FileTransport) (bufSize : Nat) : Nat :=
  if t.chunk ≠ 0 ∧ t.chunk < bufSize then t.chunk else bufSize

/-- `recv`.  No buffer counts as one without room. -/
def recv (t : FileTransport) (bufSize : Nat) : FileTransport × Recv :=
  match t.fp with
  | none => (t, .error)
  | some fp =>
      if bufSize = 0 then (t, .error)
      else if t.ended then (t, .error)
      else
        let (fp, got) := fp.fread (t.want bufSize)
        if got ≠ [] then ({ t with fp := some fp }, .bytes got)
        else if t.loop then
          match fp.rewind with
          | none => ({ t with fp := some fp, err := "rewind failed", ended := true }, .error)
          | some fp =>
              let (fp, got) := fp.fread (t.want bufSize)
              if got ≠ [] then ({ t with fp := some fp }, .bytes got)
              -- to loop over an empty file would spin
              else ({ t with fp := some fp, err := "capture is empty", ended := true }, .error)
        else ({ t with fp := some fp, ended := true }, .error)

/-- What `n` calls of `recv` return. -/
def reads (t : FileTransport) (bufSize : Nat) : Nat → List Recv
  | 0 => []
  | n + 1 => (t.recv bufSize).2 :: reads (t.recv bufSize).1 bufSize n

/-! ## One read -/

/-- The transport serves `f`. -/
structure Serves (t : FileTransport) (f : File) : Prop where
  fp : t.fp = some f
  ended : t.ended = false

/-- Where `open` returns true, the transport serves the file. -/
theorem openFile_serves {t t' : FileTransport} {fopen : String → Option File} {path : Option String}
    {loop : Bool} (h : t.openFile fopen path loop = (t', true)) :
    ∃ p f, path = some p ∧ p ≠ "" ∧ fopen p = some f ∧ t'.Serves f ∧ t'.loop = loop ∧
      t'.chunk = t.chunk := by
  unfold openFile at h
  cases path with
  | none => cases h
  | some p =>
      simp only at h
      split at h
      · cases h
      · next hp =>
          cases hf : fopen p with
          | none =>
              rw [hf] at h
              cases h
          | some f =>
              rw [hf] at h
              cases h
              exact ⟨p, f, rfl, hp, hf, ⟨rfl, rfl⟩, rfl, rfl⟩

theorem want_pos (t : FileTransport) {size : Nat} (hsize : 0 < size) : 0 < t.want size := by
  unfold want
  split <;> omega

variable {t : FileTransport} {f : File} {size : Nat}

/-- A read takes a chunk of what is left. -/
theorem Serves.recv (ht : t.Serves f) (hsize : 0 < size) (hleft : f.left ≠ []) :
    (t.recv size).2 = .bytes (f.left.take (t.want size)) ∧ f.left.take (t.want size) ≠ [] ∧
      (t.recv size).1 = { t with fp := some (f.fread (t.want size)).1 } := by
  have hgot : f.left.take (t.want size) ≠ [] := by
    rw [Ne, List.take_eq_nil_iff]
    exact fun h => h.elim (Nat.ne_of_gt (t.want_pos hsize)) hleft
  have hrecv : t.recv size =
      ({ t with fp := some (f.fread (t.want size)).1 }, .bytes (f.left.take (t.want size))) := by
    simp only [FileTransport.recv, ht.fp, ht.ended, if_neg (Nat.ne_of_gt hsize), File.fread]
    exact if_pos hgot
  rw [hrecv]
  exact ⟨rfl, hgot, rfl⟩

/-- At the end of a file that is played once a read fails, and so do the ones after it. -/
theorem Serves.recv_end (ht : t.Serves f) (hloop : t.loop = false) (hsize : 0 < size)
    (hleft : f.left = []) : (t.recv size).2 = .error ∧ (t.recv size).1.ended = true := by
  simp [FileTransport.recv, ht.fp, ht.ended, Nat.ne_of_gt hsize, File.fread, hleft, hloop]

/-- A read from a file that is played in a loop takes a chunk of what is left, or of the file from
its beginning. -/
theorem Serves.recv_loop (ht : t.Serves f) (hloop : t.loop = true) (hsize : 0 < size)
    (hseek : f.seekable = true) (hbytes : f.bytes ≠ []) :
    ∃ g : File, (g = f ∨ f.left = [] ∧ g = { f with pos := 0 }) ∧
      (t.recv size).2 = .bytes (g.left.take (t.want size)) ∧ g.left.take (t.want size) ≠ [] ∧
      (t.recv size).1 = { t with fp := some (g.fread (t.want size)).1 } := by
  by_cases hleft : f.left = []
  · have hgot : ¬ f.bytes.take (t.want size) = [] := by
      rw [List.take_eq_nil_iff]
      exact fun h => h.elim (Nat.ne_of_gt (t.want_pos hsize)) hbytes
    have hnone : (f.fread (t.want size)).2 = [] := by rw [File.fread, hleft, List.take_nil]
    have hbegin : (f.fread (t.want size)).1.rewind = some { f with pos := 0 } := if_pos hseek
    have hrecv : t.recv size =
        ({ t with fp := some (({ f with pos := 0 } : File).fread (t.want size)).1 },
          .bytes (f.bytes.take (t.want size))) := by
      simp only [FileTransport.recv, ht.fp, ht.ended, if_neg (Nat.ne_of_gt hsize), hnone, hloop,
        hbegin]
      exact if_pos hgot
    refine ⟨{ f with pos := 0 }, Or.inr ⟨hleft, rfl⟩, ?_, hgot, ?_⟩
    · rw [hrecv]
      rfl
    · rw [hrecv]
  · exact ⟨f, Or.inl rfl, ht.recv hsize hleft⟩

/-- Where an empty file is to loop, a read fails, and so do the ones after it. -/
theorem Serves.recv_empty (ht : t.Serves f) (hsize : 0 < size) (hbytes : f.bytes = []) :
    (t.recv size).2 = .error ∧ (t.recv size).1.ended = true := by
  have hleft : ∀ n, (f.bytes.drop n) = [] := fun n => by rw [hbytes, List.drop_nil]
  simp only [FileTransport.recv, ht.fp, ht.ended, if_neg (Nat.ne_of_gt hsize), File.fread,
    File.left, hleft, List.take_nil, File.rewind]
  cases t.loop <;> cases f.seekable <;> simp [hbytes]

/-- A transport that has ended fails from then on. -/
theorem reads_of_ended (ht : t.ended = true) (size : Nat) (n : Nat) :
    t.reads size n = List.replicate n .error := by
  have hrecv : t.recv size = (t, .error) := by
    unfold FileTransport.recv
    cases t.fp with
    | none => rfl
    | some f => simp [ht]
  induction n with
  | zero => rfl
  | succ n ih => rw [reads, hrecv, ih, List.replicate_succ]

/-! ## All reads -/

/-- Reads that give the chunks `cs` and fail from then on. -/
def served (cs : List (List UInt8)) (n : Nat) : List Recv :=
  cs.map Recv.bytes ++ List.replicate (n - cs.length) .error

/-- A file that is played once comes out whole, at most a chunk at a time, and is followed by
failures. -/
theorem reads_once (ht : t.Serves f) (hloop : t.loop = false) (hsize : 0 < size) (n : Nat) :
    ∃ cs : List (List UInt8), t.reads size n = served cs n ∧ (∀ c ∈ cs, c ≠ []) ∧
      cs.flatten = f.left.take (n * t.want size) ∧ cs.length ≤ n ∧
      ∀ m, f.left.length ≤ m * t.want size → cs.length ≤ m := by
  induction n generalizing t f with
  | zero => exact ⟨[], rfl, by simp, by simp, Nat.le_refl 0, fun m _ => Nat.zero_le m⟩
  | succ n ih =>
      by_cases hleft : f.left = []
      · obtain ⟨hrecv, hended⟩ := ht.recv_end hloop hsize hleft
        refine ⟨[], ?_, by simp, by simp [hleft], Nat.zero_le _, fun m _ => Nat.zero_le m⟩
        rw [reads, hrecv, reads_of_ended hended]
        rfl
      · obtain ⟨hrecv, hgot, hnext⟩ := ht.recv hsize hleft
        have ht' : (t.recv size).1.Serves (f.fread (t.want size)).1 := by
          rw [hnext]
          exact ⟨rfl, ht.ended⟩
        have hwant : (t.recv size).1.want size = t.want size := by
          rw [hnext]
          rfl
        obtain ⟨cs, hreads, hcs, hflat, hlen, hmin⟩ := ih ht' (by rw [hnext]; exact hloop)
        rw [hwant, f.left_fread] at hflat hmin
        refine ⟨f.left.take (t.want size) :: cs, ?_, ?_, ?_, Nat.succ_le_succ hlen, ?_⟩
        · rw [reads, hrecv, hreads, served, served, List.length_cons, Nat.add_sub_add_right]
          rfl
        · exact List.forall_mem_cons.mpr ⟨hgot, hcs⟩
        · rw [List.flatten_cons, hflat, Nat.succ_mul, Nat.add_comm, List.take_add]
        · intro m hm
          have hpos := List.length_pos_iff.mpr hleft
          cases m with
          | zero => omega
          | succ m =>
              refine Nat.succ_le_succ (hmin m ?_)
              rw [List.length_drop]
              rw [Nat.succ_mul] at hm
              omega

/-- A file that is played in a loop comes out over and over, and no read fails. -/
theorem reads_loop (ht : t.Serves f) (hloop : t.loop = true) (hsize : 0 < size)
    (hseek : f.seekable = true) (hbytes : f.bytes ≠ []) (n : Nat) :
    ∃ (cs : List (List UInt8)) (k : Nat), t.reads size n = served cs n ∧ (∀ c ∈ cs, c ≠ []) ∧
      cs.flatten <+: f.left ++ (List.replicate k f.bytes).flatten ∧ cs.length = n := by
  induction n generalizing t f with
  | zero => exact ⟨[], 0, rfl, by simp, List.nil_prefix, rfl⟩
  | succ n ih =>
      obtain ⟨g, hg, hrecv, hgot, hnext⟩ := ht.recv_loop hloop hsize hseek hbytes
      have hsame : g.seekable = true ∧ g.bytes = f.bytes := by
        rcases hg with rfl | ⟨-, rfl⟩ <;> exact ⟨hseek, rfl⟩
      have ht' : (t.recv size).1.Serves (g.fread (t.want size)).1 := by
        rw [hnext]
        exact ⟨rfl, ht.ended⟩
      obtain ⟨cs, k, hreads, hcs, hflat, hlen⟩ := ih ht' (by rw [hnext]; exact hloop) hsame.1
        (by rw [File.fread, hsame.2]; exact hbytes)
      rw [g.left_fread, show (g.fread (t.want size)).1.bytes = f.bytes from hsame.2] at hflat
      have hstream : (g.left.take (t.want size) :: cs).flatten <+:
          g.left ++ (List.replicate k f.bytes).flatten := by
        have hsplit : g.left ++ (List.replicate k f.bytes).flatten = g.left.take (t.want size) ++
            (g.left.drop (t.want size) ++ (List.replicate k f.bytes).flatten) := by
          rw [← List.append_assoc, List.take_append_drop]
        rw [List.flatten_cons, hsplit, List.prefix_append_right_inj]
        exact hflat
      have hall : t.reads size (n + 1) = served (g.left.take (t.want size) :: cs) (n + 1) := by
        rw [reads, hrecv, hreads, served, served, List.length_cons, Nat.add_sub_add_right]
        rfl
      have hne : ∀ c ∈ g.left.take (t.want size) :: cs, c ≠ [] :=
        List.forall_mem_cons.mpr ⟨hgot, hcs⟩
      rcases hg with rfl | ⟨hleft, rfl⟩
      · exact ⟨_, k, hall, hne, hstream, congrArg (· + 1) hlen⟩
      · refine ⟨_, k + 1, hall, hne, ?_, congrArg (· + 1) hlen⟩
        rw [hleft, List.replicate_succ, List.flatten_cons]
        exact hstream

/-- To loop over an empty file fails from the first read on. -/
theorem reads_empty (ht : t.Serves f) (hsize : 0 < size) (hbytes : f.bytes = []) (n : Nat) :
    t.reads size n = served [] n := by
  cases n with
  | zero => rfl
  | succ n =>
      obtain ⟨hrecv, hended⟩ := ht.recv_empty hsize hbytes
      rw [reads, hrecv, reads_of_ended hended]
      rfl

end FileTransport

end MFoES.Usbproto
