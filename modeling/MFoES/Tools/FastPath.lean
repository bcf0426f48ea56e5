import MFoES.Tools.UsbChannel

/-!
# The fast path of `usb_channel.py`

The completion callback `_on_rx` dispatches a transfer that is one whole frame
without going through the reassembly buffer, and hands any other transfer of at
least a header to `_feed_rx`.

Two transfers are not handled as `_feed_rx` would: one shorter than a header is
dropped, and a whole frame that comes up while bytes are pending overtakes them.
Where nothing overtakes, the frames dispatched are those of the plain path
exactly when no transfer is short, and a frame that overtakes changes them
(`onRx_agrees`).
-/

namespace MFoES.Tools

open LittleEndian Incremental Usbproto

namespace UsbChannelManager

/-! ## The callback -/

/-- A transfer that is one whole frame. -/
def Whole (raw : List UInt8) : Prop :=
  (unpackHeader raw).magic = frameMagic ∧
    raw.length = headerSize + (unpackHeader raw).length.toNat ∧
    (unpackHeader raw).length.toNat ≤ maxFrameSize

instance (raw : List UInt8) : Decidable (Whole raw) := inferInstanceAs (Decidable (_ ∧ _ ∧ _))

/-- `_on_rx`, on a completed transfer that brought `raw`. -/
def onRx (m : UsbChannelManager) (raw : List UInt8) : UsbChannelManager × List Frame :=
  if headerSize ≤ raw.length then
    let hdr := unpackHeader raw
    if Whole raw then (m, [⟨hdr.channel, hdr.flags, raw.drop headerSize⟩])
    -- `n > 0` holds here
    else m.feedRx raw
  else (m, [])

/-- A transfer with fewer bytes than a header. -/
def Short (raw : List UInt8) : Prop := raw ≠ [] ∧ raw.length < headerSize

instance (raw : List UInt8) : Decidable (Short raw) := inferInstanceAs (Decidable (_ ∧ _))

/-- The frame that a transfer is. -/
def wholeFrame (raw : List UInt8) : Frame :=
  ⟨(unpackHeader raw).channel, (unpackHeader raw).flags, raw.drop headerSize⟩

/-- What is pending and what a transfer brought read as the frame that the
transfer is, and what is pending again behind it. -/
def Replays (m : UsbChannelManager) (raw : List UInt8) : Prop :=
  frameVerdict maxFrameSize (m.pending ++ raw) = .emit raw.length (wholeFrame raw) ∧
    (m.pending ++ raw).drop raw.length = m.pending

instance (m : UsbChannelManager) (raw : List UInt8) : Decidable (m.Replays raw) :=
  inferInstanceAs (Decidable (_ ∧ _))

/-- A whole frame comes up that is not the next one of the stream, or does not
leave what was pending. -/
def Overtakes (m : UsbChannelManager) (raw : List UInt8) : Prop :=
  headerSize ≤ raw.length ∧ Whole raw ∧ ¬ m.Replays raw

instance (m : UsbChannelManager) (raw : List UInt8) : Decidable (m.Overtakes raw) :=
  inferInstanceAs (Decidable (_ ∧ _ ∧ _))

/-! ## Well-formed streams -/

theorem verdict_of_givesUp {m : UsbChannelManager} (h : m.GivesUp) :
    (frameScanner maxFrameSize).verdict m.pending = .skip := by
  obtain ⟨hlen, hbad⟩ := h
  refine frameVerdict_eq_skip.mpr ⟨_, decodeHeader_eq_unpackHeader hlen, ?_⟩
  rcases hbad with ⟨hm, -⟩ | ⟨-, hcap⟩
  · exact Or.inl hm
  · exact Or.inr hcap

/-- Where pass ends, what is pending is still followed by whole frames. -/
theorem pass_onFrames {m : UsbChannelManager} {X : List UInt8}
    (h : OnFrames maxFrameSize m.pending X) :
    m.pass = .done m ∨ ∃ t out, m.pass = .again t out ∧
      OnFrames maxFrameSize t.pending X := by
  cases m.passMove with
  | short _ hp | wait _ _ _ hp => exact Or.inl hp
  | giveUp hgive _ _ _ =>
      exact absurd (verdict_of_givesUp hgive) (h.onRecords (by decide)).not_skip
  | resync hlen hm _ _ _ _ _ _ _ =>
      have hskip : (frameScanner maxFrameSize).verdict m.pending = .skip :=
        frameVerdict_eq_skip.mpr ⟨_, decodeHeader_eq_unpackHeader hlen, Or.inl hm⟩
      exact absurd hskip (h.onRecords (by decide)).not_skip
  | emit hlen hgood htot t hp ht =>
      refine Or.inr ⟨t, _, hp, ?_⟩
      rw [ht]
      exact h.emit (by decide) (f := (unpackHeader m.pending).frame m.pending)
        (frameVerdict_eq_emit.mpr ⟨_, decodeHeader_eq_unpackHeader hlen, hgood, htot, rfl, rfl⟩)

/-- In a stream of whole frames a feed loses nothing. -/
theorem feedRx_onFrames {m : UsbChannelManager} {data X : List UInt8}
    (h : OnFrames maxFrameSize (m.pending ++ data) X) :
    m.Careful data ∧ OnFrames maxFrameSize (m.feedRx data).1.pending X := by
  rw [← pending_extend] at h
  obtain ⟨hvisits, hend⟩ :=
    loop_invariant_of_still (fun ht => pass_onFrames ht) ((m.extend data).pending.length + 1) h
  refine ⟨fun t ht hl => ((hvisits t ht).onRecords (by decide)).not_skip (verdict_of_givesUp hl.1), ?_⟩
  rw [feedRx, parseRx, pending_compact]
  exact hend

theorem along_careful {cs : List (List UInt8)} {m : UsbChannelManager}
    (h : OnFrames maxFrameSize m.pending cs.flatten) : Along feedRx Careful m cs := by
  induction cs generalizing m with
  | nil => trivial
  | cons c cs ih =>
      rw [List.flatten_cons] at h
      obtain ⟨hcareful, hrest⟩ := feedRx_onFrames h.append
      exact ⟨hcareful, ih hrest⟩

/-- The plain path on a stream of whole frames. -/
theorem runChunks_feedRx_encode {fs : List Frame} (hfs : ∀ f ∈ fs, f.payload.length ≤ maxFrameSize)
    {cs : List (List UInt8)} (hcs : cs.flatten = fs.flatMap Frame.encode) :
    (runChunks feedRx .fresh cs).2 = fs := by
  rw [runChunks_feedRx (along_careful ⟨fs, hfs, hcs⟩), hcs]
  exact frames_flatMap_encode (by decide) hfs

/-! ## The fast path on well-formed streams -/

/-- A transfer that is not short and overtakes nothing is handled as what it
brings. -/
theorem onRx_sound {m : UsbChannelManager} {raw X : List UInt8}
    (h : OnFrames maxFrameSize m.pending (raw ++ X)) (hs : ¬ Short raw)
    (ho : ¬ m.Overtakes raw) :
    FeedSound (frameScanner maxFrameSize) pending onRx m raw ∧
      OnFrames maxFrameSize (m.onRx raw).1.pending X := by
  by_cases hlen : headerSize ≤ raw.length
  · by_cases hw : Whole raw
    · have hstep : m.onRx raw = (m, [wholeFrame raw]) := by
        rw [onRx, if_pos hlen]
        exact if_pos hw
      obtain ⟨hemit, hdrop⟩ : m.Replays raw :=
        Decidable.byContradiction fun hr => ho ⟨hlen, hw, hr⟩
      have hadv := Scanner.advances_emit (S := frameScanner maxFrameSize) hemit
      have hrest := h.append.emit (by decide) hemit
      rw [hdrop] at hadv hrest
      rw [hstep]
      refine ⟨fun hrec => ?_, hrest⟩
      rw [hstep]
      exact ⟨hadv, hrec⟩
    · have hstep : m.onRx raw = m.feedRx raw := by
        rw [onRx, if_pos hlen]
        exact if_neg hw
      obtain ⟨hcareful, hrest⟩ := feedRx_onFrames h.append
      rw [hstep]
      refine ⟨?_, hrest⟩
      have hsound := feedRx_sound hcareful
      rw [FeedSound] at hsound ⊢
      rw [hstep]
      exact hsound
  · have hnil : raw = [] := Decidable.byContradiction fun hne => hs ⟨hne, Nat.lt_of_not_le hlen⟩
    have hstep : m.onRx raw = (m, []) := if_neg hlen
    rw [hstep]
    refine ⟨fun hrec => ?_, ?_⟩
    · rw [hstep, hnil, List.append_nil]
      exact ⟨.refl _, hrec⟩
    · rw [hnil] at h
      exact h

/-- A run in which no transfer is short or overtakes is sound, and leaves whole
frames to come. -/
theorem run_onRx {ts : List (List UInt8)} {m : UsbChannelManager} {X : List UInt8}
    (h : OnFrames maxFrameSize m.pending (ts.flatten ++ X)) (hs : ∀ raw ∈ ts, ¬ Short raw)
    (ho : Along onRx (fun m raw => ¬ m.Overtakes raw) m ts) :
    Along onRx (FeedSound (frameScanner maxFrameSize) pending onRx) m ts ∧
      OnFrames maxFrameSize (runChunks onRx m ts).1.pending X := by
  induction ts generalizing m with
  | nil => exact ⟨trivial, h⟩
  | cons raw ts ih =>
      rw [List.flatten_cons, List.append_assoc] at h
      obtain ⟨hsound, hrest⟩ := onRx_sound h (hs raw List.mem_cons_self) ho.1
      obtain ⟨halong, hend⟩ := ih hrest (fun r hr => hs r (List.mem_cons_of_mem _ hr)) ho.2
      exact ⟨⟨hsound, halong⟩, hend⟩

/-! ## Counting bytes -/

/-- What frames take on the wire. -/
def wireLength (fs : List Frame) : Nat := (fs.flatMap Frame.encode).length

@[simp] theorem wireLength_nil : wireLength [] = 0 := rfl

@[simp] theorem wireLength_append (fs gs : List Frame) :
    wireLength (fs ++ gs) = wireLength fs + wireLength gs := by
  rw [wireLength, List.flatMap_append, List.length_append]
  rfl

theorem wireLength_singleton (f : Frame) : wireLength [f] = headerSize + f.payload.length := by
  rw [wireLength, List.flatMap_singleton, f.length_encode]
  rfl

/-- A loop dispatches no more than what was pending. -/
theorem wireLength_loop (fuel : Nat) (m : UsbChannelManager) :
    wireLength (loop pass fuel m).2 + (loop pass fuel m).1.pending.length ≤ m.pending.length := by
  induction fuel generalizing m with
  | zero => simp [loop]
  | succ fuel ih =>
      cases m.passMove with
      | short _ hp | wait _ _ _ hp => simp [loop, hp]
      | giveUp _ t hp ht => simp [loop, hp, ht]
      | resync _ _ t n hp ht _ _ _ =>
          have hrest := ih t
          rw [ht, List.length_drop] at hrest
          simp only [loop, hp, List.nil_append]
          omega
      | emit _ _ htot t hp ht =>
          have hrest := ih t
          rw [ht, List.length_drop] at hrest
          have hf := wireLength_singleton ((unpackHeader m.pending).frame m.pending)
          have hpay : ((unpackHeader m.pending).frame m.pending).payload.length ≤
              (unpackHeader m.pending).length.toNat := List.length_take_le _ _
          rw [FrameHeader.total] at htot hrest
          change headerSize + _ ≤ _ at htot
          change _ ≤ m.pending.length - (headerSize + _) at hrest
          simp only [loop, hp, wireLength_append]
          omega

theorem wireLength_feedRx (m : UsbChannelManager) (data : List UInt8) :
    wireLength (m.feedRx data).2 + (m.feedRx data).1.pending.length ≤
      m.pending.length + data.length := by
  have h := wireLength_loop ((m.extend data).pending.length + 1) (m.extend data)
  rw [pending_extend, List.length_append] at h
  rw [feedRx, parseRx, pending_compact, pending_extend, List.length_append]
  exact h

/-- The callback dispatches no more than what it was given, and nothing of a
short transfer. -/
theorem wireLength_onRx (m : UsbChannelManager) (raw : List UInt8) :
    wireLength (m.onRx raw).2 + (m.onRx raw).1.pending.length ≤ m.pending.length + raw.length ∧
      (Short raw → m.onRx raw = (m, [])) := by
  by_cases hlen : headerSize ≤ raw.length
  · refine ⟨?_, fun hs => absurd hs.2 (Nat.not_lt.mpr hlen)⟩
    rw [onRx, if_pos hlen]
    by_cases hw : Whole raw
    · simp only [if_pos hw, wireLength_singleton, List.length_drop]
      omega
    · simp only [if_neg hw]
      exact wireLength_feedRx m raw
  · rw [onRx, if_neg hlen]
    exact ⟨by simp, fun _ => rfl⟩

/-- A run dispatches no more than the stream, and less if some transfer is
short. -/
theorem wireLength_runChunks (ts : List (List UInt8)) (m : UsbChannelManager) :
    wireLength (runChunks onRx m ts).2 ≤ m.pending.length + ts.flatten.length ∧
      ∀ raw ∈ ts, Short raw →
        wireLength (runChunks onRx m ts).2 < m.pending.length + ts.flatten.length := by
  induction ts generalizing m with
  | nil => exact ⟨Nat.zero_le _, fun raw hraw => absurd hraw List.not_mem_nil⟩
  | cons t ts ih =>
      obtain ⟨hstep, hshort⟩ := wireLength_onRx m t
      obtain ⟨hrun, hlost⟩ := ih (m.onRx t).1
      simp only [runChunks, wireLength_append, List.flatten_cons, List.length_append]
      refine ⟨by omega, fun raw hraw hs => ?_⟩
      rcases List.mem_cons.mp hraw with rfl | hraw
      · have hpos := List.length_pos_iff.mpr hs.1
        simp only [hshort hs, wireLength_nil] at hrun ⊢
        omega
      · have hlt := hlost raw hraw hs
        omega

/-! ## Overtaking -/

/-- A feed that dispatches every byte it has starts with a frame. -/
theorem feedRx_head {m : UsbChannelManager} {X : List UInt8} {f : Frame} {fs : List Frame}
    (h : (m.feedRx X).2 = f :: fs) (hall : (m.pending ++ X).length ≤ wireLength (f :: fs)) :
    ∃ hdr, decodeHeader (m.pending ++ X) = some hdr ∧ ¬ hdr.Bad maxFrameSize ∧
      hdr.total ≤ (m.pending ++ X).length ∧ hdr.frame (m.pending ++ X) = f := by
  rw [feedRx, parseRx, loop, pending_extend] at h
  rw [← pending_extend] at hall ⊢
  cases (m.extend X).passMove with
  | short _ hp | giveUp _ _ hp _ | wait _ _ _ hp => simp [hp] at h
  | resync _ _ t n hp ht h0 hn _ =>
      -- bytes were skipped, so some were not dispatched
      simp only [hp, List.nil_append] at h
      have hle := wireLength_loop (m.pending ++ X).length t
      rw [h, ht, List.length_drop] at hle
      omega
  | emit hlen hgood htot t hp _ =>
      simp only [hp, List.cons_append, List.nil_append, List.cons.injEq] at h
      exact ⟨_, decodeHeader_eq_unpackHeader hlen, hgood, htot, h.1⟩

/-- The reserved bytes of an encoded frame. -/
theorem getD_encode (f : Frame) (X : List UInt8) {i : Nat} (hi : i = 6 ∨ i = 7) :
    (f.encode ++ X).getD i 0 = 0 := by
  rw [f.encode_eq, List.append_assoc, List.getD_append _ _ _ _ (by
    rw [length_encodeHeader]
    change i < 12
    omega)]
  rcases hi with rfl | rfl <;> rfl

/-- Two frames with the same number of bytes held of each, and the same bytes to
come: if the first frame of both streams is the same, so is what is held. -/
theorem held_eq {p r X Y Z : List UInt8} {a b : Frame} (hlen : r.length = p.length)
    (hp : p ++ Y = a.encode ++ Z) (hpa : p.length < a.encode.length)
    {W : List UInt8} (hr : r ++ X = b.encode ++ W) {hdr : FrameHeader}
    (ha : a.payload.length ≤ maxFrameSize)
    (hd : decodeHeader (p ++ X) = some hdr) (hgood : ¬ hdr.Bad maxFrameSize)
    (htot : hdr.total ≤ (p ++ X).length) (hf : hdr.frame (p ++ X) = b) : r = p := by
  have hreserved : hdr.reserved = 0 := by
    have hzero : ∀ i, i = 6 ∨ i = 7 → (p ++ X).getD i 0 = 0 := by
      intro i hi
      rcases Nat.lt_or_ge i p.length with hlt | hge
      · rw [List.getD_append _ _ _ _ hlt, ← List.getD_append _ Y _ _ hlt, hp]
        exact getD_encode a Z hi
      · rw [List.getD_append_right _ _ _ _ hge, ← hlen,
          ← List.getD_append_right _ _ _ _ (hlen.symm ▸ hge), hr]
        exact getD_encode b W hi
    have hhdr := hd.symm.trans (decodeHeader_eq_unpackHeader (length_of_decodeHeader hd))
    rw [Option.some.inj hhdr]
    change ofLE16 ((p ++ X).getD 6 0) ((p ++ X).getD 7 0) = 0
    rw [hzero 6 (Or.inl rfl), hzero 7 (Or.inr rfl)]
    rfl
  have htotal : hdr.total = b.encode.length := by
    rw [FrameHeader.total] at htot ⊢
    rw [b.length_encode, ← hf, FrameHeader.frame, List.length_take, List.length_drop]
    omega
  have htake : (p ++ X).take b.encode.length = b.encode := by
    have h := take_total hd hgood htot hreserved
    rw [hf, htotal] at h
    exact h
  have hle : r.length ≤ b.encode.length := by
    by_contra hlt
    -- the header of `a` is held, and `b` has it too
    have hb := b.length_encode
    have h12 : Usbproto.headerSize ≤ p.length := by omega
    have hda : decodeHeader (p ++ X) = some
        ⟨Usbproto.frameMagic, a.channel, a.flags, 0, UInt32.ofNat a.payload.length⟩ := by
      rw [decodeHeader_append X h12, ← decodeHeader_append Y h12, hp, decodeHeader_encode]
    have hlena : hdr.length.toNat = a.payload.length := by
      rw [Option.some.inj (hd.symm.trans hda)]
      exact UInt32.toNat_ofNat_of_lt' (Nat.lt_of_le_of_lt ha (by decide))
    rw [FrameHeader.total, hlena, ← a.length_encode] at htotal
    omega
  have hpb : p = b.encode.take p.length := by
    rw [← htake, List.take_take, Nat.min_eq_left (by omega), List.take_left]
  have hrb : r = b.encode.take r.length := by
    have h := congrArg (List.take r.length) hr
    rw [List.take_left, List.take_append_of_le_length hle] at h
    exact h
  rw [hrb, hlen, ← hpb]

/-- What was pending and a transfer that overtakes it are the transfer's frame, and as
many other bytes behind it. -/
theorem Overtakes.split {m : UsbChannelManager} {raw X : List UInt8} {gs : List Frame}
    (ho : m.Overtakes raw) (hcap : (wholeFrame raw).payload.length ≤ maxFrameSize)
    (hX : m.pending ++ (raw ++ X) = (wholeFrame raw).encode ++ gs.flatMap Frame.encode) :
    ∃ r, m.pending ++ raw = (wholeFrame raw).encode ++ r ∧ r ++ X = gs.flatMap Frame.encode ∧
      r.length = m.pending.length ∧ r ≠ m.pending := by
  obtain ⟨hlen, hw, hr⟩ := ho
  have hraw : (wholeFrame raw).encode.length = raw.length := by
    have hpay : (wholeFrame raw).payload.length = raw.length - headerSize := List.length_drop
    rw [Frame.length_encode, hpay]
    change headerSize + _ = _
    omega
  have htake : (m.pending ++ raw).take raw.length = (wholeFrame raw).encode := by
    have h := congrArg (List.take raw.length) hX
    rw [← List.append_assoc, List.take_append_of_le_length (by rw [List.length_append]; omega),
      List.take_left' hraw] at h
    exact h
  have hsplit : m.pending ++ raw = (wholeFrame raw).encode ++ (m.pending ++ raw).drop raw.length := by
    rw [← htake, List.take_append_drop]
  refine ⟨(m.pending ++ raw).drop raw.length, hsplit, ?_, ?_, fun heq => hr ⟨?_, heq⟩⟩
  · rw [← List.append_assoc, hsplit, List.append_assoc] at hX
    exact List.append_cancel_left hX
  · rw [List.length_drop, List.length_append]
    omega
  · have hv := encodes_encode hcap (Nat.lt_of_le_of_lt hcap (by decide))
      ((m.pending ++ raw).drop raw.length)
    rw [hraw, ← hsplit] at hv
    exact hv

/-- A frame that overtakes, followed by the rest of the stream in one transfer,
changes what is dispatched. -/
theorem overtakes_differs {m : UsbChannelManager} {raw X : List UInt8} {gs : List Frame}
    (hm : (frameScanner maxFrameSize).records m.pending = [])
    (hgs : ∀ g ∈ gs, g.payload.length ≤ maxFrameSize)
    (hX : m.pending ++ (raw ++ X) = gs.flatMap Frame.encode) (ho : m.Overtakes raw) :
    wholeFrame raw :: (m.onRx X).2 ≠ gs := by
  rintro rfl
  have ha := hgs _ List.mem_cons_self
  have ha32 := Nat.lt_of_le_of_lt ha (by decide : maxFrameSize < 2 ^ 32)
  rw [List.flatMap_cons] at hX
  obtain ⟨r, hsplit, hrX, hrlen, hne⟩ := ho.split ha hX
  have hpos : 0 < m.pending.length := by
    rcases Nat.eq_zero_or_pos m.pending.length with h0 | hpos
    · have hr0 := List.eq_nil_of_length_eq_zero (hrlen.trans h0)
      exact absurd (hr0.trans (List.eq_nil_of_length_eq_zero h0).symm) hne
    · exact hpos
  -- so the next transfer has to bring up all that is left
  have hwire : wireLength (m.onRx X).2 = m.pending.length + X.length := by
    rw [wireLength, ← hrX, List.length_append, hrlen]
  by_cases h12 : headerSize ≤ X.length
  · by_cases hwX : Whole X
    · have hstep : m.onRx X = (m, [wholeFrame X]) := by
        rw [onRx, if_pos h12]
        exact if_pos hwX
      have hpay : (wholeFrame X).payload.length = X.length - headerSize := List.length_drop
      rw [hstep, wireLength_singleton, hpay] at hwire
      omega
    · have hstep : m.onRx X = m.feedRx X := by
        rw [onRx, if_pos h12]
        exact if_neg hwX
      rw [hstep] at hwire hrX
      cases hout : (m.feedRx X).2 with
      | nil =>
          rw [hout, wireLength_nil] at hwire
          omega
      | cons b bs =>
          rw [hout] at hwire hrX
          rw [List.flatMap_cons] at hrX
          obtain ⟨hdr, hd, hgood, htot, hf⟩ :=
            feedRx_head hout (by rw [hwire, List.length_append])
          refine hne (held_eq hrlen hsplit ?_ hrX ha hd hgood htot hf)
          by_contra hle
          -- the frame is already there, and would have been dispatched
          obtain ⟨rest, hrest⟩ : (wholeFrame raw).encode <+: m.pending :=
            List.prefix_of_prefix_length_le (hsplit ▸ List.prefix_append _ _)
              (List.prefix_append m.pending raw) (Nat.le_of_not_lt hle)
          rw [← hrest, frames_encode ha ha32] at hm
          cases hm
  · have hstep : m.onRx X = (m, []) := if_neg h12
    rw [hstep, wireLength_nil] at hwire
    omega

/-! ## Agreement -/

/-- On a stream of whole frames in whose transfers no whole frame overtakes
pending bytes, the fast path dispatches what the plain one does exactly when no
transfer is short. -/
theorem onRx_of_no_overtaking {fs : List Frame}
    (hfs : ∀ f ∈ fs, f.payload.length ≤ maxFrameSize)
    {ts : List (List UInt8)} (hts : ts.flatten = fs.flatMap Frame.encode)
    (ho : Along onRx (fun m raw => ¬ m.Overtakes raw) .fresh ts) :
    (runChunks onRx .fresh ts).2 = fs ↔ ∀ raw ∈ ts, ¬ Short raw := by
  constructor
  · intro heq raw hraw hs
    have hlt := (wireLength_runChunks ts .fresh).2 raw hraw hs
    rw [heq, hts, pending_fresh, List.length_nil, Nat.zero_add] at hlt
    exact Nat.lt_irrefl _ hlt
  · intro hs
    have hon : OnFrames maxFrameSize fresh.pending (ts.flatten ++ []) :=
      ⟨fs, hfs, by rw [List.append_nil, pending_fresh, List.nil_append, hts]⟩
    rw [runChunks_records pending_fresh (run_onRx hon hs ho).1, hts]
    exact frames_flatMap_encode (by decide) hfs

/-- After a run without short transfers, a frame that overtakes, with the rest of
the stream in one transfer behind it, is not where the stream has it. -/
theorem onRx_of_overtaking {fs : List Frame} (hfs : ∀ f ∈ fs, f.payload.length ≤ maxFrameSize)
    {ts : List (List UInt8)} {raw X : List UInt8}
    (hts : (ts ++ [raw, X]).flatten = fs.flatMap Frame.encode)
    (hs : ∀ raw ∈ ts, ¬ Short raw)
    (ho : Along onRx (fun m raw => ¬ m.Overtakes raw) .fresh ts)
    (hover : (runChunks onRx .fresh ts).1.Overtakes raw) :
    (runChunks onRx .fresh (ts ++ [raw, X])).2 ≠ fs := by
  have hflat : ts.flatten ++ (raw ++ X) = fs.flatMap Frame.encode := by
    rw [← hts, List.flatten_append, List.flatten_cons, List.flatten_cons, List.flatten_nil,
      List.append_nil]
  have hon : OnFrames maxFrameSize fresh.pending (ts.flatten ++ (raw ++ X)) :=
    ⟨fs, hfs, by rw [pending_fresh, List.nil_append, hflat]⟩
  obtain ⟨halong, gs, hgs, hX⟩ := run_onRx hon hs ho
  obtain ⟨hadv, hm⟩ := runChunks_advances halong (by rw [pending_fresh]; exact Scanner.records_nil _)
  have hrec := (hadv.append (raw ++ X)).records
  rw [pending_fresh, List.nil_append, hflat, hX, frames_flatMap_encode (by decide) hfs,
    frames_flatMap_encode (by decide) hgs] at hrec
  have hstep : (runChunks onRx .fresh ts).1.onRx raw =
      ((runChunks onRx .fresh ts).1, [wholeFrame raw]) := by
    rw [onRx, if_pos hover.1]
    exact if_pos hover.2.1
  intro heq
  refine overtakes_differs hm hgs hX hover ?_
  refine (List.append_right_inj (runChunks onRx .fresh ts).2).mp ?_
  rw [← hrec, ← heq, runChunks_append]
  simp only [runChunks, hstep, List.append_nil, List.singleton_append]

/-- Where no whole frame overtakes pending bytes, the fast path dispatches what
the plain one does exactly when no transfer is short; and a frame that overtakes,
with the rest of the stream in one transfer behind it, makes them differ. -/
theorem onRx_agrees {fs : List Frame} (hfs : ∀ f ∈ fs, f.payload.length ≤ maxFrameSize)
    {ts : List (List UInt8)}
    (ho : Along onRx (fun m raw => ¬ m.Overtakes raw) .fresh ts) :
    (ts.flatten = fs.flatMap Frame.encode →
      ((runChunks onRx .fresh ts).2 = (runChunks feedRx .fresh ts).2 ↔
        ∀ raw ∈ ts, ¬ Short raw)) ∧
      ∀ raw X, (∀ raw ∈ ts, ¬ Short raw) →
        (ts ++ [raw, X]).flatten = fs.flatMap Frame.encode →
        (runChunks onRx .fresh ts).1.Overtakes raw →
          (runChunks onRx .fresh (ts ++ [raw, X])).2 ≠
            (runChunks feedRx .fresh (ts ++ [raw, X])).2 := by
  refine ⟨fun hts => ?_, fun raw X hs hts hover => ?_⟩
  · rw [runChunks_feedRx_encode hfs hts]
    exact onRx_of_no_overtaking hfs hts ho
  · rw [runChunks_feedRx_encode hfs hts]
    exact onRx_of_overtaking hfs hts hs ho hover

/-- A frame in a transfer of its own, and one in two transfers; and two frames of
which the second overtakes the end of the first. -/
theorem onRx_agrees_frames :
    (runChunks onRx .fresh [Frame.encode ⟨3, 0, [9]⟩, encodeHeader 4 0 12,
          List.replicate 12 7]).2 =
        (runChunks feedRx .fresh [Frame.encode ⟨3, 0, [9]⟩, encodeHeader 4 0 12,
          List.replicate 12 7]).2 ∧
      (runChunks onRx .fresh [encodeHeader 3 0 12, Frame.encode ⟨4, 0, []⟩, []]).2 ≠
        (runChunks feedRx .fresh [encodeHeader 3 0 12, Frame.encode ⟨4, 0, []⟩, []]).2 :=
  ⟨((@onRx_agrees [⟨3, 0, [9]⟩, ⟨4, 0, List.replicate 12 7⟩] (by decide) _
      (by decide)).1 (by decide)).mpr (by decide),
    (@onRx_agrees [⟨3, 0, Frame.encode ⟨4, 0, []⟩⟩] (by decide) [encodeHeader 3 0 12]
      (by decide)).2 _ _ (by decide) (by decide) (by decide)⟩

/-- A header and its one byte of payload: the byte is dropped.  A header and a
payload that is a whole frame: the inner frame overtakes the outer one. -/
theorem onRx_agrees_tail :
    (runChunks onRx .fresh [encodeHeader 3 0 1, [9]]).2 ≠
        (runChunks feedRx .fresh [encodeHeader 3 0 1, [9]]).2 ∧
      (runChunks onRx .fresh [encodeHeader 3 0 12, Frame.encode ⟨4, 0, []⟩]).2 ≠
        (runChunks feedRx .fresh [encodeHeader 3 0 12, Frame.encode ⟨4, 0, []⟩]).2 := by
  decide

end UsbChannelManager

end MFoES.Tools
