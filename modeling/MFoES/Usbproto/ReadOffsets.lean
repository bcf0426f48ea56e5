import MFoES.Usbproto.Bounds

/-!
# Read offsets of an assembler

The read position of an assembler is an offset into its buffer.  What it has
read of the stream is the same position counted from the start of the stream.
The buffer ends where the stream does so far, so that offset is what was fed
less what is unread (`offset`), and neither inserting nor compacting changes it.

Records and resyncs that find a magic move it forward.  A resync that finds none
puts it a fixed distance before the end of the buffer.  When less than that is
unread, and the buffer still holds bytes already read, it goes back over them
(`StepsBack`).  `reads_forward_iff` says that this is the only way back, and
that without it the delivered records are disjoint parts of the stream.
-/

namespace MFoES.Usbproto

open Pattern Incremental Libgfx

namespace StreamAssembler

/-- The stream offset of the read position, when `fed` bytes have been fed. -/
def offset (fed : Nat) (b : RxBuf) : Int := fed - b.avail

/-- The read positions of a run as stream offsets, at every pass of every feed
and where the feed ends. -/
def readOffsets (a : StreamAssembler) : Nat → RxBuf → List (List UInt8) → List Int
  | _, _, [] => []
  | fed, b, c :: cs =>
      trail a.pass (offset (fed + c.length)) ((b.insert c).avail + 1) (b.insert c) ++
        a.readOffsets (fed + c.length) (a.feed b c).1 cs

/-- Fewer bytes are unread than a failed resync keeps, they do not begin the
magic, and there are bytes to go back over. -/
def StepsBack (a : StreamAssembler) (b : RxBuf) : Prop :=
  b.avail < keepTail a.magic.length ∧ keepTail a.magic.length < b.buf.length ∧
    ¬ b.unread <+: a.magic

instance (a : StreamAssembler) (b : RxBuf) : Decidable (a.StepsBack b) :=
  inferInstanceAs (Decidable (_ ∧ _))

/-- No pass of a feed steps back. -/
def Forward (a : StreamAssembler) (b : RxBuf) (data : List UInt8) : Prop :=
  ∀ t ∈ visits a.pass ((b.insert data).avail + 1) (b.insert data), ¬ a.StepsBack t

variable {a : StreamAssembler}

theorem offset_insert (fed : Nat) (b : RxBuf) (data : List UInt8) :
    offset (fed + data.length) (b.insert data) = offset fed b := by
  rw [offset, offset, RxBuf.avail_insert]
  omega

theorem offset_le_offset {fed : Nat} {b c : RxBuf} :
    offset fed b ≤ offset fed c ↔ c.avail ≤ b.avail := by
  rw [offset, offset]
  omega

theorem readOffsets_head? {fed : Nat} {b : RxBuf} {cs : List (List UInt8)} {x : Int}
    (hx : x ∈ (a.readOffsets fed b cs).head?) : x = offset fed b := by
  cases cs with
  | nil => cases hx
  | cons c cs =>
      rw [readOffsets, List.head?_append, trail_head?, offset_insert] at hx
      cases hx
      rfl

/-- The read position goes forward over a run when it does in every pass. -/
theorem isChain_readOffsets {fed : Nat} {b : RxBuf} {cs : List (List UInt8)} :
    (a.readOffsets fed b cs).IsChain (· ≤ ·) ↔
      Along a.feed (fun b c => ∀ t ∈ visits a.pass ((b.insert c).avail + 1) (b.insert c),
        (a.pass t).next.avail ≤ t.avail) b cs := by
  induction cs generalizing fed b with
  | nil => exact iff_of_true .nil trivial
  | cons c cs ih =>
      rw [readOffsets, List.isChain_append, isChain_trail, ih, Along]
      have hjoin : ∀ x ∈ (trail a.pass (offset (fed + c.length)) ((b.insert c).avail + 1)
          (b.insert c)).getLast?,
          ∀ y ∈ (a.readOffsets (fed + c.length) (a.feed b c).1 cs).head?, x ≤ y := by
        intro x hx y hy
        rw [trail, List.getLast?_append, List.getLast?_singleton] at hx
        cases hx
        rw [readOffsets_head? hy, offset_le_offset, feed, RxBuf.avail_compact]
      simp only [offset_le_offset]
      constructor
      · exact fun h => ⟨h.1, h.2.1⟩
      · exact fun h => ⟨h.1, h.2, hjoin⟩

end StreamAssembler

namespace DrawStream

open StreamAssembler

variable {maxRecord : Nat}

/-- Bytes short of a magic either begin one or are rejected. -/
theorem drSize_of_length_lt {R : List UInt8} (h : R.length < 4) :
    drSize R = if R <+: drSyncMagic then needMore else badRecord := by
  have hmin : min R.length 4 = R.length := Nat.min_eq_left (Nat.le_of_lt h)
  have hiff : R.take (min R.length 4) = drSyncMagic.take (min R.length 4) ↔
      R <+: drSyncMagic := by
    rw [hmin, List.take_length, List.prefix_iff_eq_take]
  split_ifs with hpre
  · exact drSize_of_short (hiff.mpr hpre) (Nat.lt_trans h (by decide))
  · exact drSize_of_mismatch (mt hiff.mp hpre)

/-- A resync leaves no more to be read than there was, unless it finds nothing
and the tail it keeps is longer. -/
theorem resyncPass_avail_le_iff {b : RxBuf} :
    (b.resyncPass drSyncMagic : Pass RxBuf (List UInt8)).next.avail ≤ b.avail ↔
      ¬ (b.avail < 3 ∧ 3 < b.buf.length) := by
  cases hp : (b.resyncPass drSyncMagic : Pass RxBuf (List UInt8)) with
  | done t =>
      obtain ⟨hfail, rfl⟩ := RxBuf.resyncPass_done hp
      have hav : (b.resync drSyncMagic).1.avail = if 3 < b.buf.length then 3 else b.avail :=
        RxBuf.avail_resync_of_false hfail
      rw [Pass.next, hav]
      split_ifs with hlong
      · rw [and_iff_left hlong, Nat.not_lt]
      · exact iff_of_true (Nat.le_refl _) fun h => hlong h.2
  | again t out =>
      have hlt := RxBuf.avail_lt_of_again hp
      obtain ⟨hfound, rfl⟩ := RxBuf.resyncPass_again hp
      rcases b.resync_spec drSyncMagic_ne_nil with ⟨-, n, -, hn, -⟩ | ⟨hf, -⟩
      · have h4 : drSyncMagic.length = 4 := rfl
        exact iff_of_true (Nat.le_of_lt hlt) fun h => by omega
      · rw [hf] at hfound
        cases hfound

/-- A pass goes back exactly where the state says so. -/
theorem pass_avail_le_iff {b : RxBuf} :
    ((drAssembler maxRecord).pass b).next.avail ≤ b.avail ↔
      ¬ (drAssembler maxRecord).StepsBack b := by
  have hsize : (drAssembler maxRecord).size b.unread = drSize b.unread := rfl
  have hback : (drAssembler maxRecord).StepsBack b ↔
      b.avail < 3 ∧ 3 < b.buf.length ∧ ¬ b.unread <+: drSyncMagic := Iff.rfl
  have hshort : b.avail < 3 → drSize b.unread =
      if b.unread <+: drSyncMagic then needMore else badRecord := fun h =>
    drSize_of_length_lt (by rw [RxBuf.length_unread]; omega)
  rw [hback, StreamAssembler.pass]
  split_ifs with h₀ h₁ h₂ h₃ h₄
  · refine iff_of_true (Nat.le_refl _) fun h => h.2.2 ?_
    rw [List.eq_nil_of_length_eq_zero (b.length_unread.trans h₀)]
    exact List.nil_prefix
  · -- the magic is contradicted, so it is there in full
    have h4 : 4 ≤ b.avail := h₁.2.1
    rw [show (drAssembler maxRecord).magic = drSyncMagic from rfl, resyncPass_avail_le_iff]
    exact iff_of_true (fun h => by omega) fun h => by omega
  · refine iff_of_true (Nat.le_refl _) fun h => ?_
    rw [hsize, hshort h.1, if_neg h.2.2] at h₂
    exact absurd h₂ (by decide)
  · rw [show (drAssembler maxRecord).magic = drSyncMagic from rfl, resyncPass_avail_le_iff]
    refine not_congr ⟨fun h => ⟨h.1, h.2, fun hpre => h₂ ?_⟩, fun h => ⟨h.1, h.2.1⟩⟩
    rw [hsize, hshort h.1, if_pos hpre]
  · -- a record is longer than what is unread before a step back
    rw [Pass.next, RxBuf.avail_compact, RxBuf.avail_advance]
    refine iff_of_true (Nat.sub_le _ _) fun h => h₃ (.inl ?_)
    rw [hsize, hshort h.1, if_neg h.2.2]
  · refine iff_of_true (Nat.le_refl _) fun h => h₃ (.inl ?_)
    rw [hsize, hshort h.1, if_neg h.2.2]

/-- A pass that rewinds to the beginning of a magic steps back. -/
theorem stepsBack_of_rewinding {b : RxBuf} (h : (drAssembler maxRecord).Rewinding b) :
    (drAssembler maxRecord).StepsBack b := by
  obtain ⟨hne, -, hrw⟩ := h
  have hlt : b.avail < keepTail drSyncMagic.length :=
    Nat.lt_of_not_le fun hle => RxBuf.not_rewinds_of_le hle hrw
  refine ⟨hlt, hrw.1, fun hpre => hne ?_⟩
  have h4 : b.unread.length < 4 := by
    rw [RxBuf.length_unread]
    exact Nat.lt_trans hlt (by decide)
  exact (drSize_of_length_lt h4).trans (if_pos hpre)

theorem clean_of_forward {b : RxBuf} {c : List UInt8}
    (h : (drAssembler maxRecord).Forward b c) : (drAssembler maxRecord).Clean b c :=
  fun t ht hrw => h t ht (stepsBack_of_rewinding hrw)

/-- A clean run delivers disjoint parts of the stream, in its order. -/
theorem deliver_inOrder {cs : List (List UInt8)} (h : CleanRun maxRecord cs) :
    PartsInOrder (deliver maxRecord cs) cs.flatten := by
  rw [deliver_eq h]
  refine Scanner.records_inOrder (fun hv => ?_) cs.flatten
  obtain ⟨-, -, -, rfl, rfl⟩ := verdict_eq_emit.mp hv
  rfl

/-- The read position never goes back in the stream, and the records delivered
are disjoint parts of it in its order, exactly when no pass of the run steps
back. -/
theorem reads_forward_iff (maxRecord : Nat) (cs : List (List UInt8)) :
    (((drAssembler maxRecord).readOffsets 0 .fresh cs).Pairwise (· ≤ ·) ∧
        PartsInOrder (deliver maxRecord cs) cs.flatten) ↔
      Along (drAssembler maxRecord).feed (drAssembler maxRecord).Forward .fresh cs := by
  have hchain : ((drAssembler maxRecord).readOffsets 0 .fresh cs).Pairwise (· ≤ ·) ↔
      Along (drAssembler maxRecord).feed (drAssembler maxRecord).Forward .fresh cs := by
    rw [← List.isChain_iff_pairwise, isChain_readOffsets]
    simp only [pass_avail_le_iff]
    rfl
  rw [hchain]
  refine and_iff_left_of_imp fun h => deliver_inOrder ?_
  exact h.mono fun _ _ => clean_of_forward

/-- A blob that ends in "DR" and a byte that is no magic, then the rest of a
header: the assembler goes back, and delivers "DR" twice. -/
theorem reads_forward_rewind :
    ¬ ((drAssembler maxFrameSize).readOffsets 0 .fresh
        [DRHeader.bytes ⟨0, 0, 0, 2⟩ ++ [0x44, 0x52] ++ [0x50],
          emptyBlob.drop 3]).Pairwise (· ≤ ·) ∧
      ¬ PartsInOrder
        (deliver maxFrameSize
          [DRHeader.bytes ⟨0, 0, 0, 2⟩ ++ [0x44, 0x52] ++ [0x50], emptyBlob.drop 3])
        (DRHeader.bytes ⟨0, 0, 0, 2⟩ ++ [0x44, 0x52] ++ [0x50] ++ emptyBlob.drop 3) := by
  refine ⟨by decide, fun h => absurd h.length_le (by decide)⟩

end DrawStream

end MFoES.Usbproto
