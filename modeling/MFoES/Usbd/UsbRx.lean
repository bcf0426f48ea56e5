import MFoES.Usbproto.FrameParser

/-!
# The receive loop of the daemon

`usb_rx_thread` reads the bulk endpoint in pieces of at most half a megabyte,
accumulates them in a reassembly buffer, and scans the buffer for frames.

The scan shares no code with `FrameParser`, and has no cap on the length in a
header.  `PassMove` is what one pass of it can do.  Up to a header over a cap,
it does what the scanner with that cap says (`pass_sound`).
-/

namespace MFoES.Usbd

open LittleEndian Incremental Usbproto

/-! ## Constants -/

/-- `MAX_CHANNELS`. -/
def maxChannels : Nat := 32

/-- `MAX_FRAME_SIZE`. -/
def maxFrameSize : Nat := 4 * 1024 * 1024

/-- `FRAME_MAGIC`, "MUBD". -/
def frameMagic : UInt32 := 0x4D554244

/-- `FLAG_DATA`. -/
def flagData : UInt8 := 0x00

/-- `FLAG_OPEN`. -/
def flagOpen : UInt8 := 0x01

/-- `FLAG_CLOSE`. -/
def flagClose : UInt8 := 0x02

/-- `FLAG_ACK`. -/
def flagAck : UInt8 := 0x03

/-- `sizeof(FrameHeader)`. -/
def sizeofFrameHeader : Nat := 12

/-- `REASSEMBLY_MAX`. -/
def reassemblyMax : Nat := maxFrameSize + sizeofFrameHeader

/-- `READ_CHUNK`, the most one `read()` returns. -/
def readChunk : Nat := 512 * 1024

/-! ## The scan -/

/-- The packed `FrameHeader` at the front of `R`. -/
def hdrAt (R : List UInt8) : FrameHeader where
  magic := get32 R 0
  channel := R.getD 4 0
  flags := R.getD 5 0
  reserved := get16 R 6
  length := get32 R 8

theorem decodeHeader_eq_hdrAt {R : List UInt8} (h : sizeofFrameHeader ≤ R.length) :
    decodeHeader R = some (hdrAt R) :=
  if_neg (Nat.not_lt.mpr h)

/-- `total_needed`. -/
def totalNeeded (hdr : FrameHeader) : Nat := sizeofFrameHeader + hdr.length.toNat

/-- The first `reassembly_len` bytes of the buffer, and `consumed`. -/
structure Scan where
  reassembly : List UInt8
  consumed : Nat
  consumed_le : consumed ≤ reassembly.length

namespace Scan

/-- The bytes not consumed. -/
def rest (s : Scan) : List UInt8 := s.reassembly.drop s.consumed

/-- `consumed += n`. -/
def consume (s : Scan) (n : Nat) (h : s.consumed + n ≤ s.reassembly.length) : Scan :=
  ⟨s.reassembly, s.consumed + n, h⟩

/-- The start of a scan. -/
def start (reassembly : List UInt8) : Scan := ⟨reassembly, 0, Nat.zero_le _⟩

@[simp] theorem rest_start (R : List UInt8) : (start R).rest = R := rfl

@[simp] theorem rest_consume (s : Scan) (n : Nat) (h : s.consumed + n ≤ s.reassembly.length) :
    (s.consume n h).rest = s.rest.drop n :=
  List.drop_drop.symm

theorem length_rest (s : Scan) : s.rest.length = s.reassembly.length - s.consumed :=
  List.length_drop

/-- One pass of the `while` that processes complete frames, with the frame it
recognises. -/
def pass (s : Scan) : Pass Scan Frame :=
  if hhdr : s.consumed + sizeofFrameHeader ≤ s.reassembly.length then
    let hdr := hdrAt s.rest
    if hdr.magic ≠ frameMagic then
      .again (s.consume 1 (Nat.le_trans (Nat.add_le_add_left (by decide) _) hhdr)) []
    else if htot : s.consumed + totalNeeded hdr ≤ s.reassembly.length then
      .again (s.consume (totalNeeded hdr) htot)
        [⟨hdr.channel, hdr.flags, (s.rest.drop sizeofFrameHeader).take hdr.length.toNat⟩]
    else .done s
  else .done s

/-- The scan of a buffer. -/
def run (reassembly : List UInt8) : Scan × List Frame :=
  loop pass (reassembly.length + 1) (start reassembly)

/-- The states the scan of a buffer goes through. -/
def states (reassembly : List UInt8) : List Scan :=
  visits pass (reassembly.length + 1) (start reassembly)

end Scan

/-! ## The thread -/

/-- Copy what was read behind what is buffered.  Where it does not fit, the
buffer is reset first. -/
def accumulate (reassembly readbuf : List UInt8) : List UInt8 :=
  (if reassemblyMax < reassembly.length + readbuf.length then [] else reassembly) ++ readbuf

/-- What one iteration of `usb_rx_thread` does with the bytes `read()` returned:
the buffer it leaves, and the frames it recognised. -/
def usbRxThread (reassembly readbuf : List UInt8) : List UInt8 × List Frame :=
  -- `r <= 0`
  if readbuf = [] then (reassembly, [])
  else
    let r := Scan.run (accumulate reassembly readbuf)
    (r.1.rest, r.2)

/-! ## The scan follows the scanner -/

namespace Scan

/-- A header that `FrameParser` takes for a frame start if its length is within
`cap`, and it is not. -/
def Over (cap : Nat) (s : Scan) : Prop :=
  sizeofFrameHeader ≤ s.rest.length ∧ (hdrAt s.rest).magic = frameMagic ∧
    cap < (hdrAt s.rest).length.toNat

instance (cap : Nat) (s : Scan) : Decidable (s.Over cap) :=
  inferInstanceAs (Decidable (_ ∧ _))

/-- What a pass can do. -/
inductive PassMove (s : Scan) : Prop where
  | short (hlen : s.rest.length < sizeofFrameHeader) (hp : s.pass = .done s)
  | skip (hlen : sizeofFrameHeader ≤ s.rest.length) (hm : (hdrAt s.rest).magic ≠ frameMagic)
      (t : Scan) (hp : s.pass = .again t []) (ht : t.rest = s.rest.drop 1)
  | wait (hlen : sizeofFrameHeader ≤ s.rest.length) (hm : (hdrAt s.rest).magic = frameMagic)
      (htot : s.rest.length < totalNeeded (hdrAt s.rest)) (hp : s.pass = .done s)
  | emit (hlen : sizeofFrameHeader ≤ s.rest.length) (hm : (hdrAt s.rest).magic = frameMagic)
      (htot : totalNeeded (hdrAt s.rest) ≤ s.rest.length) (t : Scan)
      (hp : s.pass = .again t [(hdrAt s.rest).frame s.rest])
      (ht : t.rest = s.rest.drop (totalNeeded (hdrAt s.rest)))

theorem passMove (s : Scan) : s.PassMove := by
  have hle := s.consumed_le
  have hlen := s.length_rest
  by_cases hhdr : s.consumed + sizeofFrameHeader ≤ s.reassembly.length
  · have h12 : sizeofFrameHeader ≤ s.rest.length := by omega
    by_cases hm : (hdrAt s.rest).magic = frameMagic
    · by_cases htot : s.consumed + totalNeeded (hdrAt s.rest) ≤ s.reassembly.length
      · refine .emit h12 hm (by omega) (s.consume _ htot) ?_ (by simp)
        simp [pass, hhdr, hm, htot]
        rfl
      · refine .wait h12 hm (by omega) ?_
        simp [pass, hm, htot]
    · refine .skip h12 hm (s.consume 1 (by rw [sizeofFrameHeader] at hhdr; omega)) ?_ (by simp)
      simp [pass, hhdr, hm]
  · exact .short (by omega) (by simp [pass, hhdr])

variable {cap : Nat}

/-- A pass that breaks leaves the state as it is. -/
theorem eq_of_done {s t : Scan} (h : s.pass = .done t) : t = s := by
  cases s.passMove with
  | short _ hp | wait _ _ _ hp =>
      rw [hp] at h
      cases h
      rfl
  | skip _ _ u hp _ | emit _ _ _ u hp _ =>
      rw [hp] at h
      cases h

/-- Where no length is over the cap, a pass breaks when the scanner waits. -/
theorem verdict_of_done {s t : Scan} (h : ¬ s.Over cap) (hp : s.pass = .done t) :
    (frameScanner cap).verdict s.rest = .wait := by
  rw [frameScanner_verdict, frameVerdict_eq_wait]
  cases s.passMove with
  | short hlen _ => exact Or.inl hlen
  | wait hlen hm htot _ =>
      refine Or.inr ⟨hdrAt s.rest, decodeHeader_eq_hdrAt hlen, ?_, htot⟩
      exact fun hb => hb.elim (· hm) fun hc => h ⟨hlen, hm, hc⟩
  | skip _ _ u hu _ | emit _ _ _ u hu _ =>
      rw [hp] at hu
      cases hu

/-- Where no length is over the cap, a pass does what the scanner says. -/
theorem pass_sound {s : Scan} (h : ¬ s.Over cap) :
    s.pass.Sound (frameScanner cap) rest s ∧ s.pass.Keeps (frameScanner cap) rest s := by
  cases hp : s.pass with
  | done t =>
      rw [eq_of_done hp]
      exact ⟨(frameScanner cap).records_of_wait (verdict_of_done h hp), .refl _⟩
  | again t out =>
      refine ⟨?_, trivial⟩
      cases s.passMove with
      | short _ hu | wait _ _ _ hu =>
          rw [hp] at hu
          cases hu
      | skip hlen hm u hu hrest =>
          rw [hp] at hu
          cases hu
          have hskip : (frameScanner cap).verdict s.rest = .skip :=
            frameVerdict_eq_skip.mpr ⟨hdrAt s.rest, decodeHeader_eq_hdrAt hlen, Or.inl hm⟩
          have hne := List.length_pos_iff.mpr ((frameScanner cap).skip_ne_nil hskip)
          refine ⟨hrest ▸ Scanner.advances_skip hskip, ?_⟩
          rw [hrest, List.length_drop]
          omega
      | emit hlen hm htot u hu hrest =>
          rw [hp] at hu
          cases hu
          have hemit : (frameScanner cap).verdict s.rest =
              .emit (totalNeeded (hdrAt s.rest)) ((hdrAt s.rest).frame s.rest) := by
            refine frameVerdict_eq_emit.mpr
              ⟨hdrAt s.rest, decodeHeader_eq_hdrAt hlen, ?_, htot, rfl, rfl⟩
            exact fun hb => hb.elim (· hm) fun hc => h ⟨hlen, hm, hc⟩
          have hpos := (frameScanner cap).emit_pos hemit
          refine ⟨hrest ▸ Scanner.advances_emit hemit, ?_⟩
          rw [hrest, List.length_drop]
          omega

/-- A pass that goes around consumes. -/
theorem exists_drop_of_again {s t : Scan} {out : List Frame} (h : s.pass = .again t out) :
    ∃ n, t.rest = s.rest.drop n := by
  cases s.passMove with
  | short _ hp | wait _ _ _ hp =>
      rw [hp] at h
      cases h
  | skip _ _ u hp hu | emit _ _ _ u hp hu =>
      rw [hp] at h
      cases h
      exact ⟨_, hu⟩

/-- Whatever a loop of passes visits, and where it ends, is a tail of where it
started. -/
theorem loop_suffix (fuel : Nat) (s : Scan) :
    (∀ t ∈ visits pass fuel s, t.rest <:+ s.rest) ∧ (loop pass fuel s).1.rest <:+ s.rest := by
  refine loop_invariant (P := fun t : Scan => t.rest <:+ s.rest) ?_ ?_ fuel List.suffix_rfl
  · intro t u ht hp
    rw [eq_of_done hp]
    exact ht
  · intro t u out ht hp
    obtain ⟨n, hu⟩ := exists_drop_of_again hp
    rw [hu]
    exact (List.drop_suffix n _).trans ht

theorem run_suffix (R : List UInt8) : (run R).1.rest <:+ R := (loop_suffix _ (start R)).2

theorem fuel_run (R : List UInt8) : (start R).rest.length < R.length + 1 := Nat.lt_succ_self _

end Scan

theorem length_accumulate_le {R data : List UInt8} (hdata : data.length ≤ readChunk) :
    (accumulate R data).length ≤ reassemblyMax := by
  have hchunk : readChunk ≤ reassemblyMax := by decide
  rw [accumulate, List.length_append]
  split
  · rw [List.length_nil]
    omega
  · omega

/-- No buffer outgrows the allocation. -/
theorem usbRxThread_length_le {R data : List UInt8} (hR : R.length ≤ reassemblyMax)
    (hdata : data.length ≤ readChunk) : (usbRxThread R data).1.length ≤ reassemblyMax := by
  rw [usbRxThread]
  split
  · exact hR
  · exact Nat.le_trans (Scan.run_suffix _).length_le (length_accumulate_le hdata)

/-! ## Payloads -/

/-- Without a cap no length is over it. -/
theorem Scan.not_over (s : Scan) : ¬ s.Over (2 ^ 32 - 1) := by
  rintro ⟨-, -, hlt⟩
  have := (hdrAt s.rest).length.toNat_lt
  omega

/-- A frame that is recognised lies in the buffer. -/
theorem Scan.payload_run_le (R : List UInt8) :
    ∀ f ∈ (Scan.run R).2, sizeofFrameHeader + f.payload.length ≤ R.length := by
  have hrun : (frameScanner (2 ^ 32 - 1)).records R = (Scan.run R).2 :=
    loop_records (fun t _ => (Scan.pass_sound t.not_over).1) (Scan.fuel_run R)
  rw [← hrun]
  refine (frameScanner (2 ^ 32 - 1)).records_forall fun i n f hv => ?_
  obtain ⟨hdr, -, -, hle, -, rfl⟩ := frameVerdict_eq_emit.mp hv
  rw [FrameHeader.total, List.length_drop] at hle
  rw [FrameHeader.frame, List.length_take, List.length_drop, List.length_drop]
  rw [headerSize] at hle ⊢
  rw [sizeofFrameHeader]
  omega

/-- The buffer bounds the payloads that are dispatched. -/
theorem payload_usbRxThread_le {R data : List UInt8} (hdata : data.length ≤ readChunk) :
    ∀ f ∈ (usbRxThread R data).2, f.payload.length ≤ maxFrameSize := by
  rw [usbRxThread]
  split
  · exact fun f hf => absurd hf List.not_mem_nil
  · intro f hf
    have hle := Scan.payload_run_le _ f hf
    have hmax := length_accumulate_le (R := R) hdata
    rw [reassemblyMax] at hmax
    omega

end MFoES.Usbd
