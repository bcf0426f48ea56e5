import MFoES.Usbproto.DrawStream
import MFoES.Usbproto.FrameParser

/-!
# Bounded buffers

Bytes from the wire stay in the buffer of a parser until they are read and
compacted away.  This file bounds what stays after a `feed`.

The read position is bounded by `compact`, which ends every feed
(`bounded_compact`).  What is not yet read is bounded by the ways a loop can
break.  Where a header or a record is still arriving, less than it is there.
Where a resync fails, at most the tail of a magic is kept (`avail_resync_le`).
So the bounds hold after one feed in any state, and after every run.
-/

namespace MFoES.Usbproto

open Pattern Incremental

namespace RxBuf

/-- The dead prefix is short, or there is no buffer. -/
def Bounded (b : RxBuf) : Prop := b.pos ≤ b.buf.length ∧ (b.buf = [] ∨ b.pos < usbBufSize)

theorem bounded_fresh : fresh.Bounded := ⟨Nat.le_refl 0, .inl rfl⟩

/-- Compaction leaves no dead prefix that is worth a move. -/
theorem bounded_compact (b : RxBuf) : b.compact.Bounded := by
  refine ⟨b.compact.pos_le, ?_⟩
  have hsize : 0 < usbBufSize := by decide
  unfold compact
  split_ifs with h₀ h₁ h₂
  · exact .inr (by rw [h₀]; exact hsize)
  · exact .inl rfl
  · exact .inr hsize
  · exact .inr (Nat.lt_of_not_le h₂)

@[simp] theorem avail_compact (b : RxBuf) : b.compact.avail = b.avail := by
  rw [← length_unread, unread_compact, length_unread]

@[simp] theorem avail_insert (b : RxBuf) (data : List UInt8) :
    (b.insert data).avail = b.avail + data.length := by
  rw [← length_unread, unread_insert, List.length_append, length_unread]

@[simp] theorem avail_advance (b : RxBuf) (n : Nat) (h : n ≤ b.avail) :
    (b.advance n h).avail = b.avail - n := by
  rw [← length_unread, unread_advance, List.length_drop, length_unread]

/-- What is there after a resync that finds no magic. -/
theorem avail_resync_of_false {b : RxBuf} {magic : List UInt8} (h : (b.resync magic).2 = false) :
    (b.resync magic).1.avail =
      if keepTail magic.length < b.buf.length then keepTail magic.length else b.avail := by
  rcases Nat.lt_or_ge (findPattern b.buf (b.pos + 1) magic) b.buf.length with hsome | hnone
  · simp only [resync, dif_neg (Nat.not_le.mpr hsome)] at h
    cases h
  · simp only [resync, dif_pos hnone, avail_compact]
    rw [avail]
    dsimp only
    split_ifs with hlong
    · exact Nat.sub_sub_self (Nat.le_of_lt hlong)
    · rfl

/-- A resync that finds no magic keeps no more than the tail of one. -/
theorem avail_resync_le {b : RxBuf} {magic : List UInt8} (h : (b.resync magic).2 = false) :
    (b.resync magic).1.avail ≤ keepTail magic.length := by
  rw [avail_resync_of_false h]
  split_ifs with hlong
  · exact Nat.le_refl _
  · exact Nat.le_trans (Nat.sub_le _ _) (Nat.le_of_not_lt hlong)

/-- A resync that finds a magic leaves the byte that the position was on. -/
theorem avail_resync_lt {b : RxBuf} {magic : List UInt8} (hm : magic ≠ [])
    (h : (b.resync magic).2 = true) : (b.resync magic).1.avail < b.avail := by
  rcases b.resync_spec hm with ⟨-, n, h0, hn, hun, -⟩ | ⟨hf, -⟩
  · rw [← length_unread, hun, List.length_drop, length_unread]
    have hpos := List.length_pos_iff.mpr hm
    omega
  · rw [hf] at h
    cases h

/-- Without a magic there is nothing to find. -/
theorem resync_nil (b : RxBuf) : (b.resync []).2 = false := by
  have hfound : findPattern b.buf (b.pos + 1) [] = b.buf.length := if_pos (.inl rfl)
  simp only [resync, dif_pos (Nat.le_of_eq hfound.symm)]

section Resync

variable {β : Type} {b : RxBuf} {magic : List UInt8}

theorem resyncPass_done {t : RxBuf} (h : (b.resyncPass magic : Pass RxBuf β) = .done t) :
    (b.resync magic).2 = false ∧ (b.resync magic).1 = t := by
  unfold resyncPass at h
  rcases hspec : b.resync magic with ⟨q, _ | _⟩
  · rw [hspec] at h
    cases h
    exact ⟨rfl, rfl⟩
  · rw [hspec] at h
    cases h

theorem resyncPass_again {t : RxBuf} {out : List β} (h : b.resyncPass magic = .again t out) :
    (b.resync magic).2 = true ∧ (b.resync magic).1 = t := by
  unfold resyncPass at h
  rcases hspec : b.resync magic with ⟨q, _ | _⟩
  · rw [hspec] at h
    cases h
  · rw [hspec] at h
    cases h
    exact ⟨rfl, rfl⟩

/-- Resynchronising keeps at most the tail of a magic when it breaks. -/
theorem avail_le_of_done {t : RxBuf} (h : (b.resyncPass magic : Pass RxBuf β) = .done t) :
    t.avail ≤ keepTail magic.length := by
  obtain ⟨hfail, rfl⟩ := resyncPass_done h
  exact avail_resync_le hfail

/-- Resynchronising takes at least a byte when it goes around. -/
theorem avail_lt_of_again {t : RxBuf} {out : List β} (h : b.resyncPass magic = .again t out) :
    t.avail < b.avail := by
  obtain ⟨hfound, rfl⟩ := resyncPass_again h
  refine avail_resync_lt ?_ hfound
  rintro rfl
  rw [resync_nil] at hfound
  cases hfound

end Resync

end RxBuf

/-! ## FrameParser -/

namespace FrameParser

theorem pass_again {p q : FrameParser} {out : List Frame} (h : pass p = .again q out) :
    q.avail < p.avail := by
  unfold pass at h
  cases hd : decodeHeader p.unread with
  | none =>
      rw [hd] at h
      cases h
  | some hdr =>
      rw [hd] at h
      dsimp only at h
      split_ifs at h with hbad htot
      · exact RxBuf.avail_lt_of_again h
      · cases h
        have hpos : 0 < headerSize := by decide
        rw [RxBuf.avail_compact, RxBuf.avail_advance]
        omega

/-- A loop breaks with less than a frame to be read. -/
theorem pass_done {p q : FrameParser} (h : pass p = .done q) :
    q.avail < headerSize + maxFrameSize := by
  unfold pass at h
  cases hd : decodeHeader p.unread with
  | none =>
      -- the header is still arriving
      rw [hd] at h
      cases h
      have hlt : p.unread.length < headerSize := by
        by_contra hle
        obtain ⟨hdr, hs⟩ := decodeHeader_isSome (Nat.le_of_not_lt hle)
        rw [hd] at hs
        cases hs
      rw [RxBuf.length_unread] at hlt
      exact Nat.lt_of_lt_of_le hlt (Nat.le_add_right _ _)
  | some hdr =>
      rw [hd] at h
      dsimp only at h
      split_ifs at h with hbad htot
      · exact Nat.lt_of_le_of_lt (RxBuf.avail_le_of_done h) (by decide)
      · -- the frame is still arriving
        cases h
        rw [not_or, Nat.not_lt] at hbad
        omega

/-- After a feed in any state the buffer is bounded. -/
theorem feed_bounded (p : FrameParser) (data : List UInt8) :
    (feed p data).1.Bounded ∧ (feed p data).1.avail < headerSize + maxFrameSize := by
  refine ⟨RxBuf.bounded_compact _, ?_⟩
  rw [feed, RxBuf.avail_compact]
  exact loop_post pass_again pass_done (Nat.lt_succ_self _)

end FrameParser

/-! ## StreamAssembler -/

namespace StreamAssembler

variable {a : StreamAssembler}

theorem pass_again {b c : RxBuf} {out : List (List UInt8)} (h : a.pass b = .again c out) :
    c.avail < b.avail := by
  unfold pass at h
  split_ifs at h with h₀ h₁ h₂ h₃ h₄
  · exact RxBuf.avail_lt_of_again h
  · exact RxBuf.avail_lt_of_again h
  · cases h
    have hpos := Nat.pos_of_ne_zero h₂
    rw [RxBuf.avail_compact, RxBuf.avail_advance]
    omega

/-- The tail of a magic is shorter than a draw header. -/
theorem keepTail_lt (a : StreamAssembler) : keepTail a.magic.length < Libgfx.drHeaderSize := by
  have hle := a.magic_le
  have hkeep : keepTail a.magic.length ≤ a.magic.length := by
    unfold keepTail
    split <;> omega
  exact Nat.lt_of_le_of_lt (Nat.le_trans hkeep hle) (by decide)

/-- With `DRRecordSize` a loop breaks with less than a header or a record to be
read. -/
theorem pass_done (hs : a.sizer = some drSize) {b c : RxBuf} (h : a.pass b = .done c) :
    c.avail < max a.maxRecord Libgfx.drHeaderSize := by
  have hsize : ∀ R, a.size R = drSize R := fun R => by rw [size, hs]
  have htail : ∀ {t : RxBuf}, (b.resyncPass a.magic : Pass RxBuf (List UInt8)) = .done t →
      t.avail < max a.maxRecord Libgfx.drHeaderSize := fun ht =>
    Nat.lt_of_lt_of_le (Nat.lt_of_le_of_lt (RxBuf.avail_le_of_done ht) a.keepTail_lt)
      (Nat.le_max_right _ _)
  unfold pass at h
  split_ifs at h with h₀ h₁ h₂ h₃ h₄
  · cases h
    rw [h₀]
    exact Nat.lt_of_lt_of_le (by decide) (Nat.le_max_right _ _)
  · exact htail h
  · -- the header is still arriving
    cases h
    rw [hsize] at h₂
    rcases drSize_cases b.unread with ⟨-, hbad⟩ | ⟨hlt, -⟩ | ⟨-, -, hgood⟩
    · rw [hbad] at h₂
      exact absurd h₂ (by decide)
    · rw [RxBuf.length_unread] at hlt
      exact Nat.lt_of_lt_of_le hlt (Nat.le_max_right _ _)
    · rw [hgood] at h₂
      split_ifs at h₂
      · exact absurd h₂ (by decide)
      · exact absurd h₂ (Nat.ne_of_gt (Nat.add_pos_left (by decide) _))
  · exact htail h
  · -- the record is still arriving
    cases h
    rw [not_or, Nat.not_lt] at h₃
    exact Nat.lt_of_lt_of_le (Nat.lt_of_lt_of_le (Nat.lt_of_not_le h₄) h₃.2) (Nat.le_max_left _ _)

/-- After a feed in any state the buffer is bounded. -/
theorem feed_bounded (hs : a.sizer = some drSize) (b : RxBuf) (data : List UInt8) :
    (a.feed b data).1.Bounded ∧ (a.feed b data).1.avail < max a.maxRecord Libgfx.drHeaderSize := by
  refine ⟨RxBuf.bounded_compact _, ?_⟩
  rw [feed, RxBuf.avail_compact]
  exact loop_post pass_again (pass_done hs) (Nat.lt_succ_self _)

end StreamAssembler

/-- After any sequence of feeds both parsers have a bounded buffer. -/
theorem feeds_bounded :
    (∀ cs : List (List UInt8), (runChunks FrameParser.feed .fresh cs).1.Bounded ∧
      (runChunks FrameParser.feed .fresh cs).1.avail < headerSize + maxFrameSize) ∧
    ∀ (syncMagic : Option (List UInt8)) (syncLen maxRecord : Nat) (cs : List (List UInt8)),
      (runChunks (StreamAssembler.new (some drSize) syncMagic syncLen maxRecord).feed .fresh
        cs).1.Bounded ∧
      (runChunks (StreamAssembler.new (some drSize) syncMagic syncLen maxRecord).feed .fresh
        cs).1.avail < max maxRecord Libgfx.drHeaderSize := by
  constructor
  · intro cs
    exact runChunks_post (P := fun p : RxBuf => p.Bounded ∧ p.avail < headerSize + maxFrameSize)
      FrameParser.feed_bounded ⟨RxBuf.bounded_fresh, by decide⟩ cs
  · intro syncMagic syncLen maxRecord cs
    have hfresh : RxBuf.fresh.avail < max maxRecord Libgfx.drHeaderSize :=
      Nat.lt_of_lt_of_le (by decide) (Nat.le_max_right _ _)
    exact runChunks_post
      (P := fun b : RxBuf => b.Bounded ∧ b.avail < max maxRecord Libgfx.drHeaderSize)
      (StreamAssembler.feed_bounded rfl) ⟨RxBuf.bounded_fresh, hfresh⟩ cs

end MFoES.Usbproto
