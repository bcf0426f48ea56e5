import Mathlib.Data.Nat.Find
import MFoES.Usbproto.FrameParser

/-!
# The receive side of `usb_channel.py`

`UsbChannelManager` reassembles frames in a buffer with a read position.
`_parse_rx` scans the buffer for frames.  Where `FrameParser` resynchronises and
keeps what could be a split magic, it gives the buffer up in two places: when no
magic is left to be found, and when a header announces more than
`MAX_FRAME_SIZE`.

That matters exactly when a frame could begin in the bytes given up
(`feedRx_agrees`).
-/

namespace MFoES.Tools

open LittleEndian Pattern Incremental Usbproto

/-! ## Constants -/

/-- `FRAME_MAGIC`, "MUBD". -/
def frameMagic : UInt32 := 0x4D554244

/-- `HEADER_SIZE`. -/
def headerSize : Nat := 12

/-- `USB_BUF_SIZE`. -/
def usbBufSize : Nat := 512 * 1024

/-- `MAX_FRAME_SIZE`. -/
def maxFrameSize : Nat := 4 * 1024 * 1024

/-! ## The parser -/

/-- `struct.unpack_from(HEADER_FMT, buf, pos)`, on what stands at `pos`. -/
def unpackHeader (R : List UInt8) : FrameHeader where
  magic := get32 R 0
  channel := R.getD 4 0
  flags := R.getD 5 0
  reserved := get16 R 6
  length := get32 R 8

theorem decodeHeader_eq_unpackHeader {R : List UInt8} (h : headerSize ≤ R.length) :
    decodeHeader R = some (unpackHeader R) :=
  if_neg (Nat.not_lt.mpr h)

/-- `buf.find(needle, start)`. -/
def find (buf needle : List UInt8) (start : Nat) : Option Nat :=
  (List.range' start (buf.length - start)).find? fun i => decide (Occurs needle buf i)

theorem find_eq_some {buf needle : List UInt8} {start i : Nat}
    (h : find buf needle start = some i) :
    start ≤ i ∧ i < buf.length ∧ Occurs needle buf i ∧
      ∀ j, start ≤ j → j < i → ¬ Occurs needle buf j := by
  obtain ⟨hocc, hmem, hbefore⟩ := List.find?_range'_eq_some.mp h
  rw [List.mem_range'_1] at hmem
  refine ⟨hmem.1, by omega, of_decide_eq_true hocc, fun j hj hji => ?_⟩
  simpa using hbefore j hj hji

/-- `_rx_buf` and `_rx_pos`. -/
structure UsbChannelManager where
  rxBuf : List UInt8
  rxPos : Nat
  rxPos_le : rxPos ≤ rxBuf.length

namespace UsbChannelManager

theorem pos_fresh_le : 0 ≤ ([] : List UInt8).length := Nat.le_refl 0

/-- A new manager. -/
def fresh : UsbChannelManager := ⟨[], 0, pos_fresh_le⟩

/-- What stands at the read position. -/
def pending (m : UsbChannelManager) : List UInt8 := m.rxBuf.drop m.rxPos

/-- `pos = n`. -/
def seek (m : UsbChannelManager) (n : Nat) (h : n ≤ m.rxBuf.length) : UsbChannelManager :=
  ⟨m.rxBuf, n, h⟩

/-- `self._rx_buf.extend(data)`. -/
def extend (m : UsbChannelManager) (data : List UInt8) : UsbChannelManager :=
  ⟨m.rxBuf ++ data, m.rxPos, by rw [List.length_append]; exact Nat.le_add_right_of_le m.rxPos_le⟩

/-- One pass of the `while True` of `_parse_rx`, with the frame it dispatches. -/
def pass (m : UsbChannelManager) : Pass UsbChannelManager Frame :=
  let avail := m.rxBuf.length - m.rxPos
  if avail < headerSize then .done m
  else
    let hdr := unpackHeader m.pending
    if hdr.magic ≠ frameMagic then
      match h : find m.rxBuf (le32 frameMagic) (m.rxPos + 1) with
      | none => .done (m.seek m.rxBuf.length (Nat.le_refl _))
      | some idx => .again (m.seek idx (Nat.le_of_lt (find_eq_some h).2.1)) []
    else if maxFrameSize < hdr.length.toNat then
      .done (m.seek m.rxBuf.length (Nat.le_refl _))
    else if htot : headerSize + hdr.length.toNat ≤ avail then
      .again (m.seek (m.rxPos + (headerSize + hdr.length.toNat))
          (by have := m.rxPos_le; omega))
        [⟨hdr.channel, hdr.flags, (m.pending.drop headerSize).take hdr.length.toNat⟩]
    else .done m

/-- The compaction at the end of `_parse_rx`. -/
def compact (m : UsbChannelManager) : UsbChannelManager :=
  if usbBufSize ≤ m.rxPos then ⟨m.rxBuf.drop m.rxPos, 0, Nat.zero_le _⟩ else m

/-- `_parse_rx`. -/
def parseRx (m : UsbChannelManager) : UsbChannelManager × List Frame :=
  let r := loop pass (m.pending.length + 1) m
  (r.1.compact, r.2)

/-- `_feed_rx`. -/
def feedRx (m : UsbChannelManager) (data : List UInt8) : UsbChannelManager × List Frame :=
  (m.extend data).parseRx

@[simp] theorem pending_fresh : fresh.pending = [] := rfl

theorem length_pending (m : UsbChannelManager) : m.pending.length = m.rxBuf.length - m.rxPos :=
  List.length_drop

@[simp] theorem pending_extend (m : UsbChannelManager) (data : List UInt8) :
    (m.extend data).pending = m.pending ++ data :=
  List.drop_append_of_le_length m.rxPos_le

@[simp] theorem pending_seek_length (m : UsbChannelManager) :
    (m.seek m.rxBuf.length (Nat.le_refl _)).pending = [] :=
  List.drop_length

theorem pending_seek_add (m : UsbChannelManager) (n : Nat) (h : m.rxPos + n ≤ m.rxBuf.length) :
    (m.seek (m.rxPos + n) h).pending = m.pending.drop n :=
  List.drop_drop.symm

@[simp] theorem pending_compact (m : UsbChannelManager) : m.compact.pending = m.pending := by
  unfold compact
  split <;> rfl

/-! ## The loop follows the scanner -/

/-- The bytes `_parse_rx` gives up: there is a header, and either no magic in it
or behind it, or too great a length. -/
def GivesUp (m : UsbChannelManager) : Prop :=
  headerSize ≤ m.pending.length ∧
    (((unpackHeader m.pending).magic ≠ frameMagic ∧
        find m.rxBuf (le32 frameMagic) (m.rxPos + 1) = none) ∨
      ((unpackHeader m.pending).magic = frameMagic ∧
        maxFrameSize < (unpackHeader m.pending).length.toNat))

instance (m : UsbChannelManager) : Decidable m.GivesUp :=
  inferInstanceAs (Decidable (_ ∧ (_ ∨ _)))

theorem pass_of_givesUp {m : UsbChannelManager} (h : m.GivesUp) :
    m.pass = .done (m.seek m.rxBuf.length (Nat.le_refl _)) := by
  obtain ⟨h12, ⟨hm, hnone⟩ | ⟨hm, hcap⟩⟩ := h
  all_goals
    rw [length_pending] at h12
    have hshort : ¬ m.rxBuf.length - m.rxPos < headerSize := Nat.not_lt.mpr h12
    simp only [pass]
    rw [if_neg hshort]
  · rw [if_pos hm]
    split
    next => rfl
    next idx hsome =>
      rw [hnone] at hsome
      cases hsome
  · rw [if_neg (not_not.mpr hm), if_pos hcap]

/-- What a pass can do. -/
inductive PassMove (m : UsbChannelManager) : Prop where
  | short (hlen : m.pending.length < headerSize) (hp : m.pass = .done m)
  | giveUp (hgive : m.GivesUp) (t : UsbChannelManager) (hp : m.pass = .done t)
      (ht : t.pending = [])
  | resync (hlen : headerSize ≤ m.pending.length)
      (hm : (unpackHeader m.pending).magic ≠ frameMagic) (t : UsbChannelManager) (n : Nat)
      (hp : m.pass = .again t []) (ht : t.pending = m.pending.drop n) (h0 : 0 < n)
      (hn : n + 4 ≤ m.pending.length)
      (hno : ∀ i, 0 < i → i < n → ¬ Occurs kMagicBytes m.pending i)
  | wait (hlen : headerSize ≤ m.pending.length)
      (hgood : ¬ (unpackHeader m.pending).Bad maxFrameSize)
      (htot : m.pending.length < (unpackHeader m.pending).total) (hp : m.pass = .done m)
  | emit (hlen : headerSize ≤ m.pending.length)
      (hgood : ¬ (unpackHeader m.pending).Bad maxFrameSize)
      (htot : (unpackHeader m.pending).total ≤ m.pending.length) (t : UsbChannelManager)
      (hp : m.pass = .again t [(unpackHeader m.pending).frame m.pending])
      (ht : t.pending = m.pending.drop (unpackHeader m.pending).total)

/-- A magic further on is what a pass goes to. -/
theorem passMove_of_find {m : UsbChannelManager} {idx : Nat}
    (hshort : ¬ m.rxBuf.length - m.rxPos < headerSize)
    (hm : (unpackHeader m.pending).magic ≠ frameMagic)
    (hfind : find m.rxBuf (le32 frameMagic) (m.rxPos + 1) = some idx) : m.PassMove := by
  have hlen := m.length_pending
  obtain ⟨hidx, hlt, hocc, hbefore⟩ := find_eq_some hfind
  have hfit : idx + 4 ≤ m.rxBuf.length := hocc.add_length_le kMagicBytes_ne_nil
  refine .resync (by omega) hm (m.seek idx (Nat.le_of_lt hlt)) (idx - m.rxPos) ?_ ?_
    (by omega) (by omega) ?_
  · simp only [pass]
    rw [if_neg hshort, if_pos hm]
    split
    next hnone =>
      rw [hfind] at hnone
      cases hnone
    next i hsome =>
      rw [hfind] at hsome
      cases hsome
      rfl
  · rw [pending, pending, List.drop_drop, Nat.add_sub_cancel' (by omega)]
    rfl
  · intro i h0 hi
    rw [pending, occurs_drop]
    exact hbefore _ (by omega) (by omega)

/-- With a header within the cap, a pass waits for the rest of the frame or
dispatches it. -/
theorem passMove_of_magic {m : UsbChannelManager}
    (hshort : ¬ m.rxBuf.length - m.rxPos < headerSize)
    (hm : (unpackHeader m.pending).magic = frameMagic)
    (hcap : ¬ maxFrameSize < (unpackHeader m.pending).length.toNat) : m.PassMove := by
  have hlen := m.length_pending
  have hle := m.rxPos_le
  have h12 : headerSize ≤ m.pending.length := by omega
  have hgood : ¬ (unpackHeader m.pending).Bad maxFrameSize := by
    rintro (h | h)
    · exact h hm
    · exact hcap h
  by_cases htot : headerSize + (unpackHeader m.pending).length.toNat ≤
      m.rxBuf.length - m.rxPos
  · have hfit : m.rxPos + (unpackHeader m.pending).total ≤ m.rxBuf.length := by
      rw [FrameHeader.total]
      change m.rxPos + (headerSize + _) ≤ _
      omega
    refine .emit h12 hgood (by rw [hlen]; exact htot) (m.seek _ hfit) ?_
      (m.pending_seek_add _ hfit)
    simp only [pass]
    rw [if_neg hshort, if_neg (not_not.mpr hm), if_neg hcap, dif_pos htot]
    rfl
  · refine .wait h12 hgood (by rw [hlen]; exact Nat.lt_of_not_le htot) ?_
    simp only [pass]
    rw [if_neg hshort, if_neg (not_not.mpr hm), if_neg hcap, dif_neg htot]

theorem passMove (m : UsbChannelManager) : m.PassMove := by
  have hlen := m.length_pending
  have hle := m.rxPos_le
  by_cases hshort : m.rxBuf.length - m.rxPos < headerSize
  · exact .short (by omega) (by simp [pass, hshort])
  · have h12 : headerSize ≤ m.pending.length := by omega
    by_cases hm : (unpackHeader m.pending).magic = frameMagic
    · by_cases hcap : maxFrameSize < (unpackHeader m.pending).length.toNat
      · have hgive : m.GivesUp := ⟨h12, Or.inr ⟨hm, hcap⟩⟩
        exact .giveUp hgive _ (pass_of_givesUp hgive) m.pending_seek_length
      · exact passMove_of_magic hshort hm hcap
    · cases hfind : find m.rxBuf (le32 frameMagic) (m.rxPos + 1) with
      | none =>
          have hgive : m.GivesUp := ⟨h12, Or.inl ⟨hm, hfind⟩⟩
          exact .giveUp hgive _ (pass_of_givesUp hgive) m.pending_seek_length
      | some idx => exact passMove_of_find hshort hm hfind

/-- The bytes given up are some in which a frame could begin. -/
def Loses (m : UsbChannelManager) : Prop :=
  m.GivesUp ∧ ∃ j < m.pending.length, (frameScanner maxFrameSize).CanBegin (m.pending.drop j)

instance (m : UsbChannelManager) : Decidable m.Loses :=
  inferInstanceAs (Decidable (_ ∧ _))

/-- A pass that goes around does what the scanner says, and one that breaks does
unless it loses bytes. -/
theorem pass_sound (m : UsbChannelManager) :
    m.pass.Moves (frameScanner maxFrameSize) pending m ∧
      (¬ m.Loses → m.pass.Sound (frameScanner maxFrameSize) pending m ∧
        m.pass.Keeps (frameScanner maxFrameSize) pending m) := by
  cases m.passMove with
  | short hlen hp =>
      rw [hp]
      exact ⟨trivial, fun _ => ⟨frames_of_short hlen, .refl _⟩⟩
  | giveUp hgive t hp ht =>
      rw [hp]
      refine ⟨trivial, fun hl => ?_⟩
      have hadv : (frameScanner maxFrameSize).Advances m.pending [] [] := by
        have h := (givesUp_frameScanner maxFrameSize).advances (R := m.pending)
          (n := m.pending.length) fun i hi hc => hl ⟨hgive, i, hi, hc⟩
        rw [List.drop_length] at h
        exact h
      refine ⟨hadv.records.trans (Scanner.records_nil _), ?_⟩
      change (frameScanner maxFrameSize).Advances m.pending t.pending []
      rw [ht]
      exact hadv
  | resync hlen hm t n hp ht h0 hn hno =>
      have hskip : (frameScanner maxFrameSize).verdict m.pending = .skip :=
        frameVerdict_eq_skip.mpr ⟨_, decodeHeader_eq_unpackHeader hlen, Or.inl hm⟩
      have hadv := (syncsOn_kMagicBytes maxFrameSize).advances_resync (n := n) hskip
        (by change n + 4 ≤ _; omega) hno
      rw [hp]
      refine ⟨⟨ht ▸ hadv, ?_⟩, fun _ => ⟨⟨ht ▸ hadv, ?_⟩, trivial⟩⟩
      all_goals
        rw [ht, List.length_drop]
        omega
  | wait hlen hgood htot hp =>
      rw [hp]
      refine ⟨trivial, fun _ => ⟨Scanner.records_of_wait _ (frameVerdict_eq_wait.mpr ?_), .refl _⟩⟩
      exact Or.inr ⟨_, decodeHeader_eq_unpackHeader hlen, hgood, htot⟩
  | emit hlen hgood htot t hp ht =>
      have hemit : (frameScanner maxFrameSize).verdict m.pending =
          .emit (unpackHeader m.pending).total ((unpackHeader m.pending).frame m.pending) :=
        frameVerdict_eq_emit.mpr ⟨_, decodeHeader_eq_unpackHeader hlen, hgood, htot, rfl, rfl⟩
      have hpos := (frameScanner maxFrameSize).emit_pos hemit
      rw [hp]
      refine ⟨⟨ht ▸ Scanner.advances_emit hemit, ?_⟩,
        fun _ => ⟨⟨ht ▸ Scanner.advances_emit hemit, ?_⟩, trivial⟩⟩
      all_goals
        rw [ht, List.length_drop]
        omega

/-! ## Runs -/

/-- No pass of a feed loses bytes. -/
def Careful (m : UsbChannelManager) (data : List UInt8) : Prop :=
  ∀ t ∈ visits pass ((m.extend data).pending.length + 1) (m.extend data), ¬ t.Loses

instance (m : UsbChannelManager) (data : List UInt8) : Decidable (m.Careful data) :=
  inferInstanceAs (Decidable (∀ t ∈ _, _))

theorem feedRx_sound {m : UsbChannelManager} {data : List UInt8} (h : m.Careful data) :
    FeedSound (frameScanner maxFrameSize) pending feedRx m data := by
  intro _
  rw [feedRx, parseRx, pending_compact, ← pending_extend]
  exact loop_sound (fun t ht => ((pass_sound t).2 (h t ht)).1) (Nat.lt_succ_self _)
    fun t ht => ((pass_sound t).2 (h t ht)).2

theorem runChunks_feedRx {cs : List (List UInt8)} (h : Along feedRx Careful .fresh cs) :
    (runChunks feedRx .fresh cs).2 = (frameScanner maxFrameSize).records cs.flatten :=
  runChunks_records pending_fresh (h.mono fun _ _ => feedRx_sound)

/-- A feed that loses bytes ends with nothing pending, where the scanner still
has what was lost. -/
theorem feedRx_of_loses {m : UsbChannelManager} {data : List UInt8} (h : ¬ m.Careful data) :
    ∃ t : UsbChannelManager, t.Loses ∧ (m.feedRx data).1.pending = [] ∧
      (frameScanner maxFrameSize).Advances (m.pending ++ data) t.pending (m.feedRx data).2 := by
  simp only [Careful, not_forall, not_not] at h
  obtain ⟨t, ht, hl⟩ := h
  obtain ⟨hend, hadv⟩ := loop_of_done (fun t _ => (pass_sound t).1) ht (pass_of_givesUp hl.1)
  refine ⟨t, hl, ?_, ?_⟩
  · rw [feedRx, parseRx, pending_compact, hend, pending_seek_length]
  · rw [feedRx, parseRx, ← pending_extend]
    exact hadv

theorem not_isPrefix_replicate (k i : Nat) :
    ¬ kMagicBytes <+: (List.replicate k (0 : UInt8)).drop i := by
  intro h
  have hmem : (0x44 : UInt8) ∈ (List.replicate k (0 : UInt8)).drop i := h.subset (by decide)
  rw [List.drop_replicate] at hmem
  exact absurd (List.eq_of_mem_replicate hmem) (by decide)

/-- Zeros are given up. -/
theorem givesUp_of_zeros {m : UsbChannelManager} {k : Nat} (hm : m.pending = List.replicate k 0)
    (hk : headerSize ≤ k) : m.GivesUp := by
  have h12 : headerSize ≤ m.pending.length := by
    rw [hm, List.length_replicate]
    exact hk
  refine ⟨h12, Or.inl ⟨fun hmagic => ?_, ?_⟩⟩
  · have hpre := (decodeHeader_magic (decodeHeader_eq_unpackHeader h12)).mp hmagic
    rw [hm] at hpre
    exact not_isPrefix_replicate k 0 hpre
  · cases hfind : find m.rxBuf (le32 frameMagic) (m.rxPos + 1) with
    | none => rfl
    | some idx =>
        obtain ⟨hidx, -, hocc, -⟩ := find_eq_some hfind
        have hin : Occurs kMagicBytes m.pending (idx - m.rxPos) := by
          rw [pending, occurs_drop, Nat.add_sub_cancel' (by omega)]
          exact hocc
        rw [hm] at hin
        exact absurd hin (not_isPrefix_replicate k _)

/-- Bytes in which no frame begins are not dispatched. -/
theorem feedRx_quiet {m : UsbChannelManager} {X : List UInt8} (hm : m.pending = [])
    (h : X.length < headerSize ∨ ∃ k, X = List.replicate k 0) : (m.feedRx X).2 = [] := by
  have hX : (m.extend X).pending = X := by rw [pending_extend, hm, List.nil_append]
  have hdone : ∃ u, (m.extend X).pass = .done u := by
    rcases Nat.lt_or_ge X.length headerSize with hlt | hge
    · cases (m.extend X).passMove with
      | short _ hp | giveUp _ _ hp _ | wait _ _ _ hp => exact ⟨_, hp⟩
      | resync hlen _ _ _ _ _ _ _ _ | emit hlen _ _ _ _ _ =>
          rw [hX] at hlen
          omega
    · rcases h with hlt | ⟨k, rfl⟩
      · omega
      · rw [List.length_replicate] at hge
        exact ⟨_, pass_of_givesUp (givesUp_of_zeros hX hge)⟩
  obtain ⟨u, hu⟩ := hdone
  rw [feedRx, parseRx, loop, hu]

/-- What a feed lost can be brought about to be a frame by bytes that are none. -/
theorem exists_frame_of_loses {t : UsbChannelManager} (h : t.Loses) :
    ∃ X, (frameScanner maxFrameSize).records (t.pending ++ X) ≠ [] ∧
      (X.length < headerSize ∨ ∃ k, X = List.replicate k 0) := by
  obtain ⟨-, hex⟩ := h
  -- the first place where a frame could begin
  obtain ⟨hlt, hbegin⟩ := Nat.find_spec hex
  have hadv := (givesUp_frameScanner maxFrameSize).advances (R := t.pending) (n := Nat.find hex)
    fun i hi hc => Nat.find_min hex hi ⟨Nat.lt_trans hi hlt, hc⟩
  have hne : t.pending.drop (Nat.find hex) ≠ [] := by
    rw [Ne, List.drop_eq_nil_iff]
    omega
  obtain ⟨X, n, f, hv, hquiet⟩ := exists_quiet hne hbegin
  refine ⟨X, ?_, hquiet⟩
  rw [hadv X, List.nil_append, Scanner.records_of_emit _ hv]
  exact List.cons_ne_nil _ _

/-- As long as no feed loses bytes, the frames dispatched are those that
`FrameParser` emits.  Any feed that loses bytes can be followed by one after
which they differ. -/
theorem feedRx_agrees {cs : List (List UInt8)} (h : Along feedRx Careful .fresh cs) :
    (runChunks feedRx .fresh cs).2 = (runChunks FrameParser.feed .fresh cs).2 ∧
    ∀ c, ¬ Careful (runChunks feedRx .fresh cs).1 c →
      ∃ d, (runChunks feedRx .fresh (cs ++ [c, d])).2 ≠
        (runChunks FrameParser.feed .fresh (cs ++ [c, d])).2 := by
  refine ⟨?_, fun c hc => ?_⟩
  · rw [runChunks_feedRx h, FrameParser.runChunks_feed RxBuf.unread_fresh]
    rfl
  · obtain ⟨t, hl, hend, hadv⟩ := feedRx_of_loses hc
    obtain ⟨d, hframe, hquiet⟩ := exists_frame_of_loses hl
    have hrun := (runChunks_advances (h.mono fun _ _ => feedRx_sound)
      (Scanner.records_nil _)).1
    have hscan := hrun ([c, d] : List (List UInt8)).flatten
    rw [pending_fresh, List.nil_append, ← List.flatten_append, List.flatten_cons,
      List.flatten_cons, List.flatten_nil, List.append_nil, ← List.append_assoc,
      hadv d] at hscan
    refine ⟨d, fun heq => hframe ?_⟩
    rw [FrameParser.runChunks_feed RxBuf.unread_fresh, runChunks_append] at heq
    simp only [runChunks, feedRx_quiet hend hquiet, List.append_nil] at heq
    have hcancel := List.append_cancel_left (heq.trans hscan)
    exact List.self_eq_append_right.mp hcancel

/-- A frame in two feeds, with bytes behind it at which no frame begins. -/
theorem feedRx_agrees_cut :
    (runChunks feedRx .fresh
        [(Frame.encode ⟨3, 0, [9]⟩).take 5, (Frame.encode ⟨3, 0, [9]⟩).drop 5 ++ [1]]).2 =
      (runChunks FrameParser.feed .fresh
        [(Frame.encode ⟨3, 0, [9]⟩).take 5, (Frame.encode ⟨3, 0, [9]⟩).drop 5 ++ [1]]).2 :=
  (feedRx_agrees (by decide)).1

/-- Twelve bytes of garbage and the first byte of a frame, then the frame. -/
theorem feedRx_agrees_garbage :
    (runChunks feedRx .fresh
        [List.replicate 12 0 ++ [0x44], (Frame.encode ⟨3, 0, [9]⟩).drop 1]).2 ≠
      (runChunks FrameParser.feed .fresh
        [List.replicate 12 0 ++ [0x44], (Frame.encode ⟨3, 0, [9]⟩).drop 1]).2 := by
  decide

end UsbChannelManager

end MFoES.Tools
