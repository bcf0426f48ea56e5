import MFoES.Libgfx.DRRender
import MFoES.Usbproto.StreamAssembler

/-!
# Draw streams

The draw channel is an assembler with `DRRecordSize` for its sizer and
`DRSyncMagic` for its magic.  The sizer keeps the contract of an assembler
(`drSize_contract`), so clean runs deliver the blobs of the stream however it is
cut.

Not every run is clean.  A blob that ends in the beginning of a magic, followed
by a short chunk that is none, makes the assembler read the end of the blob
again, and the next chunk can complete a blob that the stream does not have
(`deliver_chunking_rewind`).  `deliver_chunking` says that this is the only way
for the cuts to matter.
-/

namespace MFoES.Usbproto

open Pattern Incremental Libgfx Libgfx.DRReader LittleEndian

/-! ## The sizer -/

/-- `DRRecordSize` on a pointer that is not null. -/
def drSize (R : List UInt8) : Nat := drRecordSize (some R)

theorem drSyncMagic_ne_nil : drSyncMagic ≠ [] := by decide

/-- The first bytes are no part of a magic. -/
theorem drSize_of_mismatch {R : List UInt8}
    (h : R.take (min R.length 4) ≠ drSyncMagic.take (min R.length 4)) : drSize R = badRecord := by
  have hmin : (if R.length < 4 then R.length else 4) = min R.length 4 := by
    split <;> omega
  simp only [drSize, drRecordSize, hmin, if_pos h]
  rfl

/-- The header is not all there. -/
theorem drSize_of_short {R : List UInt8}
    (h : R.take (min R.length 4) = drSyncMagic.take (min R.length 4))
    (hlen : R.length < drHeaderSize) : drSize R = needMore := by
  have hmin : (if R.length < 4 then R.length else 4) = min R.length 4 := by
    split <;> omega
  simp only [drSize, drRecordSize, hmin, h, ne_eq, not_true_eq_false, if_false, if_pos hlen]
  rfl

/-- `DRPeek` rejects a version before it looks at anything behind the header. -/
theorem drPeek_badVersion_iff {R : List UInt8} (hm : R.take 4 = drSyncMagic)
    (hlen : drHeaderSize ≤ R.length) :
    drPeek (some R) = .error .badVersion ↔ drVersion < get16 R 4 := by
  have hversion : (readHeader (DRReader.new (R.drop 4) (drHeaderSize - 4))).1.1 = get16 R 4 := by
    rw [← Nat.add_zero 4, ← get16_drop]
    rfl
  rcases hread : readHeader (DRReader.new (R.drop 4) (drHeaderSize - 4)) with ⟨⟨version, hdr⟩, rd⟩
  rw [hread] at hversion
  subst hversion
  simp only [drPeek, if_neg (Nat.not_lt.mpr hlen), hm, ne_eq, not_true_eq_false, if_false, hread]
  split_ifs with h₁ h₂ h₃ <;> simp [h₁]

/-- The header gives the size. -/
theorem drSize_of_header {R : List UInt8} (hm : R.take 4 = drSyncMagic)
    (hlen : drHeaderSize ≤ R.length) :
    drSize R =
      if drVersion < get16 R 4 then badRecord else drHeaderSize + (get32 R 16).toNat := by
  have h4 : ¬ R.length < 4 :=
    fun h => absurd (Nat.lt_of_lt_of_le h (by decide : 4 ≤ 20)) (Nat.not_lt.mpr hlen)
  have hmagic : drSyncMagic.take 4 = drSyncMagic := rfl
  simp only [drSize, drRecordSize, if_neg h4, hm, hmagic, ne_eq, not_true_eq_false, if_false,
    if_neg (Nat.not_lt.mpr hlen)]
  by_cases hv : drVersion < get16 R 4
  · rw [(drPeek_badVersion_iff hm hlen).mpr hv, if_pos hv]
    rfl
  · rw [if_neg hv]
    have hne := mt (drPeek_badVersion_iff hm hlen).mp hv
    split
    next h => exact absurd h hne
    next => rfl

/-- The three answers of the sizer. -/
theorem drSize_cases (R : List UInt8) :
    (R.take (min R.length 4) ≠ drSyncMagic.take (min R.length 4) ∧ drSize R = badRecord) ∨
      (R.length < drHeaderSize ∧ drSize R = needMore) ∨
      (R.take 4 = drSyncMagic ∧ drHeaderSize ≤ R.length ∧ drSize R =
        if drVersion < get16 R 4 then badRecord else drHeaderSize + (get32 R 16).toNat) := by
  by_cases hm : R.take (min R.length 4) = drSyncMagic.take (min R.length 4)
  · rcases Nat.lt_or_ge R.length drHeaderSize with hlt | hge
    · exact .inr (.inl ⟨hlt, drSize_of_short hm hlt⟩)
    · have h4 : min R.length 4 = 4 := Nat.min_eq_right (Nat.le_trans (by decide) hge)
      rw [h4] at hm
      exact .inr (.inr ⟨hm, hge, drSize_of_header hm hge⟩)
  · exact .inl ⟨hm, drSize_of_mismatch hm⟩

theorem size_lt_badRecord (n : UInt32) : drHeaderSize + n.toNat < badRecord :=
  Nat.lt_of_lt_of_le (Nat.add_lt_add_left n.toNat_lt drHeaderSize) (by decide)

/-- A header is the same with more behind it. -/
theorem drSize_header_append {R : List UInt8} (X : List UInt8) (hm : R.take 4 = drSyncMagic)
    (hlen : drHeaderSize ≤ R.length) : drSize (R ++ X) = drSize R := by
  have h4 : 4 ≤ R.length := Nat.le_trans (by decide) hlen
  have hm' : (R ++ X).take 4 = drSyncMagic := by rw [List.take_append_of_le_length h4, hm]
  have hlen' : drHeaderSize ≤ (R ++ X).length := by
    rw [List.length_append]
    omega
  rw [drSize_of_header hm hlen, drSize_of_header hm' hlen',
    get16_append X (Nat.le_trans (by decide) hlen), get32_append X (Nat.le_trans (by decide) hlen)]

theorem mismatch_append {R : List UInt8} (X : List UInt8)
    (h : R.take (min R.length 4) ≠ drSyncMagic.take (min R.length 4)) :
    (R ++ X).take (min (R ++ X).length 4) ≠ drSyncMagic.take (min (R ++ X).length 4) := by
  intro heq
  refine h ?_
  have hle : min R.length 4 ≤ min (R ++ X).length 4 := by
    rw [List.length_append]
    omega
  have htake := congrArg (List.take (min R.length 4)) heq
  rw [List.take_take, List.take_take, Nat.min_eq_left hle,
    List.take_append_of_le_length (Nat.min_le_left _ _)] at htake
  exact htake

/-- `DRRecordSize` keeps the contract of a sizer. -/
theorem drSize_contract : StreamAssembler.SizerContract drSize drSyncMagic where
  nil := rfl
  bad_append := by
    intro R X hbad
    rcases drSize_cases R with ⟨hm, -⟩ | ⟨-, hmore⟩ | ⟨hm, hlen, -⟩
    · exact drSize_of_mismatch (mismatch_append X hm)
    · rw [hmore] at hbad
      exact absurd hbad (by decide)
    · rw [drSize_header_append X hm hlen, hbad]
  size_append := by
    intro R X hne hgood
    rcases drSize_cases R with ⟨-, hbad⟩ | ⟨-, hmore⟩ | ⟨hm, hlen, -⟩
    · exact absurd hbad hgood
    · exact absurd hmore hne
    · exact drSize_header_append X hm hlen
  bad_of_mismatch := by
    intro R hlen hm
    refine drSize_of_mismatch fun heq => hm ?_
    have h4 : min R.length 4 = 4 := Nat.min_eq_right hlen
    rw [h4] at heq
    exact List.prefix_iff_eq_take.mpr heq.symm
  length_le := by
    intro R hne
    rcases drSize_cases R with ⟨-, hbad⟩ | ⟨-, hmore⟩ | ⟨-, -, hsize⟩
    · rw [hbad]
      decide
    · exact absurd hmore hne
    · rw [hsize]
      split_ifs
      · decide
      · exact Nat.le_add_right_of_le (by decide)

/-- A blob is at least a header long. -/
theorem drHeaderSize_le_drSize {R : List UInt8} (hne : drSize R ≠ needMore)
    (hgood : drSize R ≠ badRecord) : drHeaderSize ≤ drSize R := by
  rcases drSize_cases R with ⟨-, hbad⟩ | ⟨-, hmore⟩ | ⟨-, -, hsize⟩
  · exact absurd hbad hgood
  · exact absurd hmore hne
  · rw [hsize] at hgood ⊢
    split_ifs at hgood ⊢
    · exact absurd rfl hgood
    · exact Nat.le_add_right _ _

/-! ## The records of a draw stream -/

/-- The scanner of a draw stream. -/
def drScanner (maxRecord : Nat) : Scanner UInt8 (List UInt8) :=
  StreamAssembler.scanner drSize_contract maxRecord

theorem drScanner_syncsOn (maxRecord : Nat) : (drScanner maxRecord).SyncsOn drSyncMagic :=
  StreamAssembler.syncsOn drSize_contract maxRecord

/-- A stream shorter than a header has no record. -/
theorem drScanner_of_short {maxRecord : Nat} {R : List UInt8} (h : R.length < drHeaderSize) :
    (drScanner maxRecord).records R = [] := by
  refine (drScanner maxRecord).records_of_short (fun hv => ?_) R h
  obtain ⟨hne, hgood, -, rfl, -⟩ := StreamAssembler.verdict_eq_emit.mp hv
  exact drHeaderSize_le_drSize hne fun hbad => hgood (.inl hbad)

/-- The header that `DRExport` writes says how long the blob is. -/
theorem drSize_bytes (hdr : DRHeader) (X : List UInt8) :
    drSize (hdr.bytes ++ X) = drHeaderSize + hdr.bodyBytes.toNat := by
  have hm : (hdr.bytes ++ X).take 4 = drSyncMagic := rfl
  have hlen : drHeaderSize ≤ (hdr.bytes ++ X).length := by
    rw [List.length_append, hdr.length_bytes]
    exact Nat.le_add_right _ _
  have hversion : get16 (hdr.bytes ++ X) 4 = drVersion := by
    rw [← Nat.add_zero 4, ← get16_drop]
    exact get16_le16 _ _
  have hbody : get32 (hdr.bytes ++ X) 16 = hdr.bodyBytes := by
    rw [← Nat.add_zero 16, ← get32_drop]
    exact get32_le32 _ _
  rw [drSize_of_header hm hlen, hversion, hbody, if_neg (UInt16.lt_irrefl _)]

/-- A blob that is not too long is a record. -/
theorem isRecord_bytes {maxRecord : Nat} (hdr : DRHeader) {body : List UInt8}
    (hbody : hdr.bodyBytes.toNat = body.length)
    (hmax : drHeaderSize + body.length ≤ maxRecord) :
    (drScanner maxRecord).IsRecord (hdr.bytes ++ body) := by
  intro X
  have hlen : (hdr.bytes ++ body).length = drHeaderSize + body.length := by
    rw [List.length_append, hdr.length_bytes]
  have hsize : drSize (hdr.bytes ++ body ++ X) = (hdr.bytes ++ body).length := by
    rw [List.append_assoc, drSize_bytes, hbody, hlen]
  have hgood : (hdr.bytes ++ body).length < badRecord := by
    rw [hlen, ← hbody]
    exact size_lt_badRecord hdr.bodyBytes
  refine StreamAssembler.verdict_eq_emit.mpr ?_
  rw [hsize]
  refine ⟨?_, ?_, ?_, rfl, List.take_left.symm⟩
  · rw [hlen]
    exact Nat.ne_of_gt (Nat.add_pos_left (by decide) _)
  · rintro (h | h) <;> omega
  · exact (List.prefix_append _ X).length_le

/-- What is emitted as a record is one by itself. -/
theorem isRecord_of_emit {maxRecord : Nat} {R : List UInt8} {n : Nat} {b : List UInt8}
    (h : (drScanner maxRecord).verdict R = .emit n b) :
    (drScanner maxRecord).IsRecord b ∧ b.length ≤ maxRecord := by
  obtain ⟨hne, hgood, hle, rfl, rfl⟩ := StreamAssembler.verdict_eq_emit.mp h
  have hheader := drHeaderSize_le_drSize hne fun hbad => hgood (.inl hbad)
  have hlen : (R.take (drSize R)).length = drSize R := List.length_take_of_le hle
  have hmagic : (R.take (drSize R)).take 4 = drSyncMagic := by
    rw [List.take_take, Nat.min_eq_left (Nat.le_trans (by decide) hheader)]
    rcases drSize_cases R with ⟨-, hbad⟩ | ⟨-, hmore⟩ | ⟨hm, -, -⟩
    · exact absurd (.inl hbad) hgood
    · exact absurd hmore hne
    · exact hm
  -- the size is read from the header, which is the same behind the record and alone
  have hsize : ∀ X, drSize (R.take (drSize R) ++ X) = drSize R := by
    intro X
    have halone := drSize_header_append (R.drop (drSize R)) hmagic (by omega)
    rw [List.take_append_drop] at halone
    rw [drSize_header_append X hmagic (by omega), ← halone]
  refine ⟨fun X => ?_, ?_⟩
  · refine StreamAssembler.verdict_eq_emit.mpr ?_
    rw [hsize, hlen]
    refine ⟨hne, hgood, ?_, rfl, ?_⟩
    · rw [List.length_append, hlen]
      exact Nat.le_add_right _ _
    · rw [List.take_append_of_le_length (Nat.le_of_eq hlen.symm), List.take_take, Nat.min_self]
  · rw [hlen]
    exact Nat.le_of_not_lt fun hlt => hgood (.inr hlt)

/-! ## The assembler of a draw channel -/

/-- `StreamAssembler(DRRecordSize, DRSyncMagic(), DR_SYNC_LEN, maxRecord)`. -/
def drAssembler (maxRecord : Nat) : StreamAssembler :=
  .new (some drSize) (some drSyncMagic) 4 maxRecord

namespace DrawStream

open StreamAssembler

variable {maxRecord : Nat}

/-- The runs of a fresh assembler. -/
def deliver (maxRecord : Nat) (cs : List (List UInt8)) : List (List UInt8) :=
  (runChunks (drAssembler maxRecord).feed .fresh cs).2

/-- No feed of a run rewinds. -/
def CleanRun (maxRecord : Nat) (cs : List (List UInt8)) : Prop :=
  Along (drAssembler maxRecord).feed (drAssembler maxRecord).Clean .fresh cs

instance (maxRecord : Nat) (cs : List (List UInt8)) : Decidable (CleanRun maxRecord cs) :=
  inferInstanceAs (Decidable (Along _ _ _ _))

/-- A feed delivers the records of what there is to read. -/
theorem feed_delivers (maxRecord : Nat) (b : RxBuf) (data : List UInt8) :
    (drScanner maxRecord).records (b.unread ++ data) = ((drAssembler maxRecord).feed b data).2 :=
  feed_records (a := drAssembler maxRecord) drSize_contract drSyncMagic_ne_nil b data

/-- A clean run advances over the stream. -/
theorem runChunks_advances {cs : List (List UInt8)} (h : CleanRun maxRecord cs) :
    (drScanner maxRecord).Advances cs.flatten
      (runChunks (drAssembler maxRecord).feed .fresh cs).1.unread (deliver maxRecord cs) :=
  runChunks_sound (a := drAssembler maxRecord) drSize_contract drSyncMagic_ne_nil h

/-- A feed that is not clean leaves the tail of a buffer to be read again. -/
theorem feed_rewinds {b : RxBuf} {data : List UInt8} (h : ¬ (drAssembler maxRecord).Clean b data) :
    ∃ t, (drAssembler maxRecord).Rewinding t ∧
      (drScanner maxRecord).Advances (b.unread ++ data) t.unread
        ((drAssembler maxRecord).feed b data).2 ∧
      ((drAssembler maxRecord).feed b data).1.unread = t.buf.drop (t.buf.length - 3) :=
  feed_of_not_clean (a := drAssembler maxRecord) drSize_contract drSyncMagic_ne_nil h

/-- A run that is clean up to its last feed delivers the records of the stream. -/
theorem deliver_concat {cs : List (List UInt8)} (h : CleanRun maxRecord cs) (d : List UInt8) :
    deliver maxRecord (cs ++ [d]) = (drScanner maxRecord).records (cs.flatten ++ d) :=
  StreamAssembler.runChunks_feed (a := drAssembler maxRecord) drSize_contract drSyncMagic_ne_nil h d

/-- A clean run delivers the records of the stream. -/
theorem deliver_eq {cs : List (List UInt8)} (h : CleanRun maxRecord cs) :
    deliver maxRecord cs = (drScanner maxRecord).records cs.flatten :=
  runChunks_records RxBuf.unread_fresh
    (h.mono fun _ _ => feed_sound (a := drAssembler maxRecord) drSize_contract drSyncMagic_ne_nil)

/-- A blob without a body. -/
def emptyBlob : List UInt8 := DRHeader.bytes ⟨0, 0, 0, 0⟩

theorem records_emptyBlob (hmax : drHeaderSize ≤ maxRecord) :
    (drScanner maxRecord).records emptyBlob = [emptyBlob] := by
  have hrec : (drScanner maxRecord).IsRecord (emptyBlob ++ []) :=
    isRecord_bytes ⟨0, 0, 0, 0⟩ rfl hmax
  have h := records_flatten (List.forall_mem_singleton.mpr hrec)
  rw [List.append_nil, List.flatten_singleton] at h
  exact h

/-- One byte more in front of a blob changes nothing. -/
theorem records_cons_emptyBlob (hmax : drHeaderSize ≤ maxRecord) (x : UInt8) :
    (drScanner maxRecord).records (x :: emptyBlob) = [emptyBlob] := by
  have hm : ¬ drSyncMagic <+: x :: emptyBlob := by
    simp [drSyncMagic, emptyBlob, DRHeader.bytes, List.cons_prefix_cons]
  rw [drScanner_syncsOn maxRecord _ (List.cons_ne_nil _ _) hm]
  exact records_emptyBlob hmax

/-- Where a pass rewinds, some bytes make a blob with what it rewinds to, and
none with what was still to be read. -/
theorem exists_phantom (hmax : drHeaderSize ≤ maxRecord) {t : RxBuf}
    (ht : (drAssembler maxRecord).Rewinding t) :
    ∃ d, (drScanner maxRecord).records (t.unread ++ d) = [] ∧
      (drScanner maxRecord).records (t.buf.drop (t.buf.length - 3) ++ d) = [emptyBlob] := by
  obtain ⟨hne, -, hlong, j, hlt, hle, hpre⟩ := ht
  change 3 < t.buf.length at hlong
  change t.buf.length - 3 ≤ j at hle
  change t.buf.drop j <+: drSyncMagic at hpre
  have hsome : 0 < t.avail := by
    rw [← t.length_unread]
    refine List.length_pos_iff.mpr fun hnil => hne ?_
    rw [hnil]
    rfl
  rw [RxBuf.avail] at hsome
  -- `P` is the beginning of a magic that starts before the read position
  obtain ⟨P, hP⟩ : ∃ P, P = t.buf.drop j := ⟨_, rfl⟩
  have hlen : P.length = t.buf.length - j := by rw [hP, List.length_drop]
  have hblob : P ++ emptyBlob.drop P.length = emptyBlob := by
    have htake : P = emptyBlob.take P.length := by
      rw [← hP] at hpre
      refine List.prefix_iff_eq_take.mp (hpre.trans ?_)
      exact List.prefix_append drSyncMagic _
    have happ := List.take_append_drop P.length emptyBlob
    rw [← htake] at happ
    exact happ
  refine ⟨emptyBlob.drop P.length, ?_, ?_⟩
  · refine drScanner_of_short ?_
    rw [List.length_append, List.length_drop, t.length_unread, RxBuf.avail, hlen]
    have h20 : emptyBlob.length = 20 := rfl
    change _ < 20
    omega
  · rcases Nat.lt_or_ge (t.buf.length - 3) j with hbefore | hat
    · have hj : t.buf.length - 3 + 1 = j := by omega
      rw [List.drop_eq_getElem_cons (by omega), hj, ← hP, List.cons_append, hblob]
      exact records_cons_emptyBlob hmax _
    · rw [Nat.le_antisymm hle hat, ← hP, hblob]
      exact records_emptyBlob hmax

/-- After a clean run, a feed that is not clean can be followed by bytes such
that cutting before them matters. -/
theorem deliver_of_not_clean (hmax : drHeaderSize ≤ maxRecord) {cs : List (List UInt8)}
    (hcs : CleanRun maxRecord cs) {c : List UInt8}
    (hc : ¬ (drAssembler maxRecord).Clean
      (runChunks (drAssembler maxRecord).feed .fresh cs).1 c) :
    ∃ d, deliver maxRecord (cs ++ [c, d]) ≠ deliver maxRecord (cs ++ [c ++ d]) := by
  have hrun := runChunks_advances hcs
  obtain ⟨t, ht, hadv, hun⟩ := feed_rewinds hc
  obtain ⟨d, hnone, hphantom⟩ := exists_phantom hmax ht
  refine ⟨d, ?_⟩
  have hwhole : deliver maxRecord (cs ++ [c ++ d]) = deliver maxRecord cs ++
      ((drAssembler maxRecord).feed (runChunks (drAssembler maxRecord).feed .fresh cs).1 c).2 := by
    rw [deliver_concat hcs, hrun, ← List.append_assoc, hadv, hnone, List.append_nil]
  have hlast := feed_delivers maxRecord
    ((drAssembler maxRecord).feed (runChunks (drAssembler maxRecord).feed .fresh cs).1 c).1 d
  rw [hun, hphantom] at hlast
  have hcut : deliver maxRecord (cs ++ [c, d]) = deliver maxRecord (cs ++ [c ++ d]) ++
      [emptyBlob] := by
    rw [hwhole, deliver, runChunks_append]
    simp only [runChunks, List.append_nil]
    rw [← hlast, List.append_assoc]
    rfl
  rw [hcut]
  exact fun heq => absurd (congrArg List.length heq) (by simp)

/-- A clean run delivers the same records as any other clean run over the same
stream, however the stream is cut.  After it, any feed that is not clean can be
followed by bytes for which a cut before them matters. -/
theorem deliver_chunking (maxRecord : Nat) {cs : List (List UInt8)}
    (hcs : CleanRun maxRecord cs) :
    (∀ ds, CleanRun maxRecord ds → cs.flatten = ds.flatten →
      deliver maxRecord cs = deliver maxRecord ds) ∧
    (drHeaderSize ≤ maxRecord → ∀ c,
      ¬ (drAssembler maxRecord).Clean (runChunks (drAssembler maxRecord).feed .fresh cs).1 c →
      ∃ d, deliver maxRecord (cs ++ [c, d]) ≠ deliver maxRecord (cs ++ [c ++ d])) := by
  refine ⟨fun ds hds h => ?_, fun hmax c hc => deliver_of_not_clean hmax hcs hc⟩
  rw [deliver_eq hcs, deliver_eq hds, h]

/-- A blob in two chunks and in one. -/
theorem deliver_chunking_split :
    deliver maxFrameSize [emptyBlob.take 5, emptyBlob.drop 5] =
      deliver maxFrameSize [emptyBlob] :=
  (deliver_chunking maxFrameSize (by decide)).1 _ (by decide) (by decide)

/-- A blob that ends in "DR", the rest of a magic in two chunks, and the rest of
a header: a blob is delivered that is not there in one chunk. -/
theorem deliver_chunking_rewind :
    deliver maxFrameSize
        [DRHeader.bytes ⟨0, 0, 0, 2⟩ ++ [0x44, 0x52] ++ [0x50], emptyBlob.drop 3] ≠
      deliver maxFrameSize
        [DRHeader.bytes ⟨0, 0, 0, 2⟩ ++ [0x44, 0x52] ++ [0x50] ++ emptyBlob.drop 3] := by
  decide

end DrawStream

end MFoES.Usbproto
