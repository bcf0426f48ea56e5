import MFoES.Usbproto.FrameScanner

/-!
# FrameParser

`FrameParser::feed` appends a chunk to its buffer and goes around its loop: it
waits for a header, resynchronises on a bad one, waits for a payload, or emits
a frame and compacts.  The parser has no members but those of `RxBuf`.

One pass of the loop does what `frameScanner` says of the unread bytes, except
that a resync takes many `skip` steps at once (`pass_sound`).  So a run emits
the frames of the concatenated chunks (`runChunks_feed`).  Two consequences:
the cuts do not matter (`feed_chunking`), and frames survive garbage around
them that is free of the magic (`feed_recovers`).
-/

namespace MFoES.Usbproto

open Pattern Incremental

/-- `FrameParser` has the members of `RxBuf` and no other. -/
abbrev FrameParser := RxBuf

namespace FrameParser

/-- One pass of the `for (;;)` of `FrameParser::feed`. -/
def pass (p : FrameParser) : Pass FrameParser Frame :=
  -- `decodeHeader` fails exactly when `avail < HEADER_SIZE`
  match decodeHeader p.unread with
  | none => .done p
  | some hdr =>
      if hdr.magic ≠ frameMagic ∨ maxFrameSize < hdr.length.toNat then p.resyncPass kMagicBytes
      else if h : headerSize + hdr.length.toNat ≤ p.avail then
        .again (p.advance (headerSize + hdr.length.toNat) h).compact
          [⟨hdr.channel, hdr.flags, (p.unread.drop headerSize).take hdr.length.toNat⟩]
      else .done p

/-- `FrameParser::feed`, with the frames handed to `onFrame`. -/
def feed (p : FrameParser) (data : List UInt8) : FrameParser × List Frame :=
  let b := p.insert data
  let r := loop pass (b.avail + 1) b
  (r.1.compact, r.2)

/-! ## The loop follows the scanner -/

/-- A pass does what the scanner says of the unread bytes, and gives nothing
away. -/
theorem pass_sound (p : FrameParser) :
    (pass p).Sound (frameScanner maxFrameSize) RxBuf.unread p ∧
      (pass p).Keeps (frameScanner maxFrameSize) RxBuf.unread p := by
  unfold pass
  cases hd : decodeHeader p.unread with
  | none =>
      refine ⟨frames_of_short ?_, .refl _⟩
      by_contra hle
      obtain ⟨hdr, hs⟩ := decodeHeader_isSome (Nat.le_of_not_lt hle)
      rw [hd] at hs
      cases hs
  | some hdr =>
      have hlen := length_of_decodeHeader hd
      have h12 : 12 ≤ p.avail := by rw [RxBuf.length_unread] at hlen; exact hlen
      by_cases hb : hdr.magic ≠ frameMagic ∨ maxFrameSize < hdr.length.toNat
      · have hskip : (frameScanner maxFrameSize).verdict p.unread = .skip :=
          frameVerdict_eq_skip.mpr ⟨hdr, hd, hb⟩
        have hsync := syncsOn_kMagicBytes maxFrameSize
        simp only
        rw [if_pos hb]
        -- a tail of the magic is shorter than the header that is there
        have hkeep : keepTail kMagicBytes.length ≤ p.avail :=
          Nat.le_trans (by decide : keepTail kMagicBytes.length ≤ 12) h12
        exact ⟨RxBuf.resyncPass_sound hsync kMagicBytes_ne_nil hskip,
          RxBuf.resyncPass_keeps hsync kMagicBytes_ne_nil hskip (RxBuf.not_rewinds_of_le hkeep)⟩
      · simp only
        rw [if_neg hb]
        by_cases htot : headerSize + hdr.length.toNat ≤ p.avail
        · rw [dif_pos htot]
          have hemit : (frameScanner maxFrameSize).verdict p.unread =
              .emit hdr.total (hdr.frame p.unread) :=
            frameVerdict_eq_emit.mpr
              ⟨hdr, hd, hb, by rw [RxBuf.length_unread]; exact htot, rfl, rfl⟩
          refine ⟨⟨?_, ?_⟩, trivial⟩
          · rw [RxBuf.unread_compact, RxBuf.unread_advance]
            exact Scanner.advances_emit hemit
          · have hpos := (frameScanner maxFrameSize).emit_pos hemit
            rw [RxBuf.unread_compact, RxBuf.unread_advance, List.length_drop,
              RxBuf.length_unread]
            rw [FrameHeader.total] at hpos
            omega
        · rw [dif_neg htot]
          refine ⟨(frameScanner maxFrameSize).records_of_wait ?_, .refl _⟩
          have hlt : p.unread.length < hdr.total := by
            rw [RxBuf.length_unread]
            exact Nat.lt_of_not_le htot
          rw [frameScanner_verdict, frameVerdict, hd]
          exact (if_neg hb).trans (if_pos hlt)

/-- A feed advances the unread bytes and leaves no whole frame behind. -/
theorem feed_sound (p : FrameParser) (data : List UInt8) :
    FeedSound (frameScanner maxFrameSize) RxBuf.unread feed p data := by
  have hfuel : (p.insert data).unread.length < (p.insert data).avail + 1 := by
    rw [RxBuf.length_unread]
    exact Nat.lt_succ_self _
  have h := loop_sound (fun q _ => (pass_sound q).1) hfuel fun q _ => (pass_sound q).2
  rw [FeedSound, feed, RxBuf.unread_compact, ← RxBuf.unread_insert]
  exact fun _ => h

/-- A run from a parser with nothing to read emits the frames of the stream. -/
theorem runChunks_feed {p : FrameParser} (hp : p.unread = []) (cs : List (List UInt8)) :
    (runChunks feed p cs).2 = (frameScanner maxFrameSize).records cs.flatten :=
  runChunks_records hp (along_of_forall feed_sound _ cs)

/-! ## Chunking and garbage -/

/-- However a stream is cut, well-formed or not, the parser emits the same
frames. -/
theorem feed_chunking (cs ds : List (List UInt8)) (h : cs.flatten = ds.flatten) :
    (runChunks feed .fresh cs).2 = (runChunks feed .fresh ds).2 := by
  rw [runChunks_feed RxBuf.unread_fresh, runChunks_feed RxBuf.unread_fresh, h]

/-- A bad byte, a frame cut in its header, and the same bytes in one chunk. -/
theorem feed_chunking_cut :
    (runChunks feed .fresh [[7, 0x44, 0x42], [0x55, 0x4D, 3, 0, 0, 0, 1, 0, 0, 0], [9]]).2 =
      (runChunks feed .fresh [[7, 0x44, 0x42, 0x55, 0x4D, 3, 0, 0, 0, 1, 0, 0, 0, 9]]).2 :=
  feed_chunking _ _ rfl

theorem frames_interleaved {tail : List UInt8} (ht : ¬ kMagicBytes <:+: tail)
    (gs : List (List UInt8 × Frame)) (hg : ∀ p ∈ gs, ¬ kMagicBytes <:+: p.1)
    (hf : ∀ p ∈ gs, p.2.payload.length ≤ maxFrameSize) :
    (frameScanner maxFrameSize).records (gs.flatMap (fun p => p.1 ++ p.2.encode) ++ tail) =
      gs.map Prod.snd := by
  induction gs with
  | nil => exact (frames_garbage _ ht).1
  | cons p gs ih =>
      obtain ⟨g, f⟩ := p
      have hlen := hf (g, f) List.mem_cons_self
      have hlt : f.payload.length < 2 ^ 32 :=
        Nat.lt_of_le_of_lt hlen (by decide : maxFrameSize < 2 ^ 32)
      obtain ⟨rest, hrest⟩ := f.encode_eq_kMagicBytes_append
      have hrec := ih (fun p hp => hg p (List.mem_cons_of_mem _ hp))
        (fun p hp => hf p (List.mem_cons_of_mem _ hp))
      have hskip := (frames_garbage maxFrameSize (hg (g, f) List.mem_cons_self)).2
        (rest ++ (gs.flatMap (fun p => p.1 ++ p.2.encode) ++ tail))
      rw [← List.append_assoc kMagicBytes, ← hrest] at hskip
      rw [List.flatMap_cons, List.append_assoc, List.append_assoc, hskip,
        frames_encode hlen hlt, hrec, List.map_cons]

/-- Frames come through unchanged and in order, whatever garbage free of the
magic stands before, between and after them, and however the stream is cut. -/
theorem feed_recovers (gs : List (List UInt8 × Frame)) (tail : List UInt8)
    (hg : ∀ p ∈ gs, ¬ kMagicBytes <:+: p.1) (ht : ¬ kMagicBytes <:+: tail)
    (hf : ∀ p ∈ gs, p.2.payload.length ≤ maxFrameSize) (cs : List (List UInt8))
    (hcs : cs.flatten = gs.flatMap (fun p => p.1 ++ p.2.encode) ++ tail) :
    (runChunks feed .fresh cs).2 = gs.map Prod.snd := by
  rw [runChunks_feed RxBuf.unread_fresh, hcs, frames_interleaved ht gs hg hf]

/-- Garbage that ends like the magic starts, cut in the middle. -/
theorem feed_recovers_split :
    (runChunks feed .fresh
        [[1, 0x44], [0x42, 0x55, 0x44, 0x42, 0x55, 0x4D, 3], [0, 0, 0, 1, 0, 0, 0, 9, 0x44]]).2 =
      [⟨3, 0, [9]⟩] :=
  feed_recovers [([1, 0x44, 0x42, 0x55], ⟨3, 0, [9]⟩)] [0x44] (by decide) (by decide) (by decide)
    _ (by decide)

end FrameParser

end MFoES.Usbproto
