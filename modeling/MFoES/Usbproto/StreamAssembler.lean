import MFoES.Usbproto.RxBuf

/-!
# StreamAssembler

`StreamAssembler` cuts records out of a byte stream.  Its sizer measures a
record from its first bytes, or asks for more, or rejects them.

`SizerContract` is what the assembler needs of a sizer.  A sizer that keeps it
makes a scanner, and a pass of the assembler's loop does what the scanner says
(`pass_sound`).  One thing is missing for the cuts not to matter.  A resync that
finds no magic keeps the last bytes of the buffer, and these may already have
been delivered.  `Clean` excludes that, and a run that is clean in every feed
delivers the records of the stream (`runChunks_feed`).
-/

namespace MFoES.Usbproto

open Pattern Incremental

/-- `NEED_MORE`. -/
def needMore : Nat := 0

/-- `BAD_RECORD`, which is `(size_t)-1`. -/
def badRecord : Nat := 2 ^ 64 - 1

/-- The members of `StreamAssembler` that its constructor sets.  The others are
an `RxBuf`. -/
structure StreamAssembler where
  /-- An empty `SizerFn` is `none`. -/
  sizer : Option (List UInt8 → Nat)
  /-- The first `m_magicLen` bytes of `m_magic`. -/
  magic : List UInt8
  maxRecord : Nat
  magic_le : magic.length ≤ 8

namespace StreamAssembler

/-- The constructor.  A null `syncMagic` leaves the zeros that `m_magic` is
cleared to. -/
def new (sizer : Option (List UInt8 → Nat)) (syncMagic : Option (List UInt8)) (syncLen : Nat)
    (maxRecord : Nat := maxFrameSize) : StreamAssembler where
  sizer := sizer
  magic := (syncMagic.getD (List.replicate 8 0)).take (if 8 < syncLen then 8 else syncLen)
  maxRecord := maxRecord
  magic_le := by
    refine (List.length_take_le _ _).trans ?_
    split <;> omega

/-- `m_sizer ? m_sizer(..) : BAD_RECORD`. -/
def size (a : StreamAssembler) (R : List UInt8) : Nat :=
  match a.sizer with
  | some f => f R
  | none => badRecord

/-- One pass of the `for (;;)` of `StreamAssembler::feed`. -/
def pass (a : StreamAssembler) (b : RxBuf) : Pass RxBuf (List UInt8) :=
  if b.avail = 0 then .done b
  else if a.magic ≠ [] ∧ a.magic.length ≤ b.avail ∧ b.unread.take a.magic.length ≠ a.magic then
    b.resyncPass a.magic
  else if a.size b.unread = needMore then .done b
  else if a.size b.unread = badRecord ∨ a.maxRecord < a.size b.unread then b.resyncPass a.magic
  else if h : a.size b.unread ≤ b.avail then
    .again (b.advance (a.size b.unread) h).compact [b.unread.take (a.size b.unread)]
  else .done b

/-- `StreamAssembler::feed`, with the records handed to `onRecord`. -/
def feed (a : StreamAssembler) (b : RxBuf) (data : List UInt8) : RxBuf × List (List UInt8) :=
  let b := b.insert data
  let r := loop a.pass (b.avail + 1) b
  (r.1.compact, r.2)

/-! ## Sizers -/

/-- The answers of a sizer hold however the stream goes on, and it rejects bytes
that contradict the magic. -/
structure SizerContract (size : List UInt8 → Nat) (magic : List UInt8) : Prop where
  nil : size [] = needMore
  bad_append : ∀ {R} (X), size R = badRecord → size (R ++ X) = badRecord
  size_append : ∀ {R} (X), size R ≠ needMore → size R ≠ badRecord → size (R ++ X) = size R
  bad_of_mismatch : ∀ {R}, magic.length ≤ R.length → ¬ magic <+: R → size R = badRecord
  length_le : ∀ {R}, size R ≠ needMore → magic.length ≤ size R

/-- What an assembler sees at the front of a stream. -/
def verdict (size : List UInt8 → Nat) (maxRecord : Nat) (R : List UInt8) : Verdict (List UInt8) :=
  if size R = needMore then .wait
  else if size R = badRecord ∨ maxRecord < size R then .skip
  else if R.length < size R then .wait
  else .emit (size R) (R.take (size R))

section Scanner

variable {size : List UInt8 → Nat} {magic : List UInt8} {maxRecord : Nat} {R : List UInt8}

theorem verdict_eq_skip : verdict size maxRecord R = .skip ↔
    size R ≠ needMore ∧ (size R = badRecord ∨ maxRecord < size R) := by
  rw [verdict]
  split_ifs <;> simp_all

theorem verdict_eq_emit {n : Nat} {r : List UInt8} : verdict size maxRecord R = .emit n r ↔
    size R ≠ needMore ∧ ¬ (size R = badRecord ∨ maxRecord < size R) ∧ size R ≤ R.length ∧
      n = size R ∧ r = R.take (size R) := by
  rw [verdict]
  split_ifs with h₁ h₂ h₃
  · simp [h₁]
  · simp [h₂]
  · simp only [false_iff]
    rintro ⟨-, -, hle, -⟩
    omega
  · simp only [Verdict.emit.injEq]
    constructor
    · rintro ⟨rfl, rfl⟩
      exact ⟨h₁, h₂, by omega, rfl, rfl⟩
    · rintro ⟨-, -, -, rfl, rfl⟩
      exact ⟨rfl, rfl⟩

/-- The scanner of a sizer that keeps its contract. -/
def scanner (h : SizerContract size magic) (maxRecord : Nat) : Scanner UInt8 (List UInt8) where
  verdict := verdict size maxRecord
  skip_ne_nil := by
    rintro R hv rfl
    exact (verdict_eq_skip.mp hv).1 h.nil
  emit_pos := by
    intro R n r hv
    obtain ⟨hne, -, -, rfl, -⟩ := verdict_eq_emit.mp hv
    exact Nat.pos_of_ne_zero hne
  emit_le := by
    intro R n r hv
    obtain ⟨-, -, hle, rfl, -⟩ := verdict_eq_emit.mp hv
    exact hle
  skip_append := by
    intro R X hv
    obtain ⟨hne, hbad⟩ := verdict_eq_skip.mp hv
    rw [verdict_eq_skip]
    by_cases hb : size R = badRecord
    · rw [h.bad_append X hb]
      exact ⟨by decide, .inl rfl⟩
    · rw [h.size_append X hne hb]
      exact ⟨hne, hbad⟩
  emit_append := by
    intro R n r X hv
    obtain ⟨hne, hgood, hle, rfl, rfl⟩ := verdict_eq_emit.mp hv
    have hb : size R ≠ badRecord := fun hb => hgood (.inl hb)
    rw [verdict_eq_emit, h.size_append X hne hb]
    refine ⟨hne, hgood, ?_, rfl, (List.take_append_of_le_length hle).symm⟩
    rw [List.length_append]
    omega

@[simp] theorem scanner_verdict (h : SizerContract size magic) (maxRecord : Nat)
    (R : List UInt8) : (scanner h maxRecord).verdict R = verdict size maxRecord R := rfl

/-- A stream shorter than the magic has no record. -/
theorem records_of_short (h : SizerContract size magic) (hR : R.length < magic.length) :
    (scanner h maxRecord).records R = [] := by
  refine (scanner h maxRecord).records_of_short (fun hv => ?_) R hR
  obtain ⟨hne, -, -, rfl, -⟩ := verdict_eq_emit.mp hv
  exact h.length_le hne

/-- No record starts where the magic does not. -/
theorem syncsOn (h : SizerContract size magic) (maxRecord : Nat) :
    (scanner h maxRecord).SyncsOn magic := by
  intro R hR hm
  rcases Nat.lt_or_ge R.length magic.length with hlt | hge
  · rw [records_of_short h hlt, records_of_short h]
    rw [List.length_drop]
    omega
  · refine (scanner h maxRecord).records_of_skip (verdict_eq_skip.mpr ?_)
    rw [h.bad_of_mismatch hge hm]
    exact ⟨by decide, .inl rfl⟩

end Scanner

/-! ## The loop follows the scanner -/

section Sound

variable {a : StreamAssembler} (h : SizerContract a.size a.magic) (hm : a.magic ≠ [])

/-- A pass rejects bytes and rewinds over bytes it has read. -/
def Rewinding (a : StreamAssembler) (b : RxBuf) : Prop :=
  a.size b.unread ≠ needMore ∧ (a.size b.unread = badRecord ∨ a.maxRecord < a.size b.unread) ∧
    b.Rewinds a.magic

instance (a : StreamAssembler) (b : RxBuf) : Decidable (a.Rewinding b) :=
  inferInstanceAs (Decidable (_ ∧ _))

include h hm

/-- A pass does what the scanner says of the unread bytes. -/
theorem pass_sound (b : RxBuf) :
    (a.pass b).Sound (scanner h a.maxRecord) RxBuf.unread b ∧
      (¬ a.Rewinding b → (a.pass b).Keeps (scanner h a.maxRecord) RxBuf.unread b) := by
  have hresync : (scanner h a.maxRecord).verdict b.unread = .skip →
      (b.resyncPass a.magic).Sound (scanner h a.maxRecord) RxBuf.unread b ∧
        (¬ a.Rewinding b →
          (b.resyncPass a.magic).Keeps (scanner h a.maxRecord) RxBuf.unread b) := by
    intro hskip
    obtain ⟨hne, hbad⟩ := verdict_eq_skip.mp hskip
    exact ⟨RxBuf.resyncPass_sound (syncsOn h _) hm hskip, fun hclean =>
      RxBuf.resyncPass_keeps (syncsOn h _) hm hskip fun hrw => hclean ⟨hne, hbad, hrw⟩⟩
  rw [pass]
  split_ifs with h₀ h₁ h₂ h₃ h₄
  · -- nothing to read
    have hnil : b.unread = [] := List.eq_nil_of_length_eq_zero (b.length_unread.trans h₀)
    refine ⟨?_, fun _ => .refl _⟩
    change (scanner h a.maxRecord).records b.unread = []
    rw [hnil]
    exact Scanner.records_nil _
  · -- the magic is contradicted, which the sizer would say too
    obtain ⟨-, hle, hne⟩ := h₁
    have hmis : ¬ a.magic <+: b.unread := fun hpre =>
      hne (List.prefix_iff_eq_take.mp hpre).symm
    refine hresync (verdict_eq_skip.mpr ?_)
    rw [h.bad_of_mismatch (by rw [RxBuf.length_unread]; exact hle) hmis]
    exact ⟨by decide, .inl rfl⟩
  · exact ⟨Scanner.records_of_wait _ (if_pos h₂), fun _ => .refl _⟩
  · exact hresync (verdict_eq_skip.mpr ⟨h₂, h₃⟩)
  · have hemit := verdict_eq_emit.mpr
      ⟨h₂, h₃, by rw [RxBuf.length_unread]; exact h₄, rfl, rfl⟩
    refine ⟨⟨?_, ?_⟩, fun _ => trivial⟩
    · rw [RxBuf.unread_compact, RxBuf.unread_advance]
      exact Scanner.advances_emit (S := scanner h a.maxRecord) hemit
    · have hpos := Nat.pos_of_ne_zero h₂
      rw [RxBuf.unread_compact, RxBuf.unread_advance, List.length_drop, RxBuf.length_unread]
      omega
  · refine ⟨Scanner.records_of_wait _ ?_, fun _ => .refl _⟩
    rw [scanner_verdict, verdict, if_neg h₂, if_neg h₃, if_pos]
    rw [RxBuf.length_unread]
    omega

/-- A pass that rewinds breaks with the tail of the buffer to be read again. -/
theorem pass_of_rewinding {b : RxBuf} (hb : a.Rewinding b) :
    ∃ q, a.pass b = .done q ∧
      q.unread = b.buf.drop (b.buf.length - keepTail a.magic.length) := by
  obtain ⟨hne, hbad, hrw⟩ := hb
  have hpass : a.pass b = b.resyncPass a.magic := by
    have h0 : b.avail ≠ 0 := by
      intro h0
      rw [List.eq_nil_of_length_eq_zero (b.length_unread.trans h0), h.nil] at hne
      exact hne rfl
    rw [pass, if_neg h0]
    split_ifs
    · rfl
    · rfl
  rw [hpass]
  exact RxBuf.resyncPass_of_rewinds hm hrw

/-- No pass of a feed rewinds. -/
def Clean (a : StreamAssembler) (b : RxBuf) (data : List UInt8) : Prop :=
  ∀ t ∈ visits a.pass ((b.insert data).avail + 1) (b.insert data), ¬ a.Rewinding t

omit h hm in
instance (a : StreamAssembler) (b : RxBuf) (data : List UInt8) : Decidable (a.Clean b data) :=
  inferInstanceAs (Decidable (∀ t ∈ _, _))

omit h hm in
theorem fuel_feed (b : RxBuf) (data : List UInt8) :
    (b.insert data).unread.length < (b.insert data).avail + 1 := by
  rw [RxBuf.length_unread]
  exact Nat.lt_succ_self _

/-- A feed delivers the records of what there is to read. -/
theorem feed_records (b : RxBuf) (data : List UInt8) :
    (scanner h a.maxRecord).records (b.unread ++ data) = (a.feed b data).2 := by
  rw [← RxBuf.unread_insert]
  exact loop_records (fun t _ => (pass_sound h hm t).1) (fuel_feed b data)

/-- A clean feed gives nothing away. -/
theorem feed_sound {b : RxBuf} {data : List UInt8} (hclean : a.Clean b data) :
    FeedSound (scanner h a.maxRecord) RxBuf.unread a.feed b data := by
  have hloop := loop_sound (fun t _ => (pass_sound h hm t).1) (fuel_feed b data)
    fun t ht => (pass_sound h hm t).2 (hclean t ht)
  rw [FeedSound, feed, RxBuf.unread_compact, ← RxBuf.unread_insert]
  exact fun _ => hloop

/-- A feed that is not clean delivers what it should, and leaves the tail of a
buffer to be read again. -/
theorem feed_of_not_clean {b : RxBuf} {data : List UInt8} (hclean : ¬ a.Clean b data) :
    ∃ t, a.Rewinding t ∧
      (scanner h a.maxRecord).Advances (b.unread ++ data) t.unread (a.feed b data).2 ∧
      (a.feed b data).1.unread = t.buf.drop (t.buf.length - keepTail a.magic.length) := by
  simp only [Clean, not_forall, not_not] at hclean
  obtain ⟨t, ht, hrw⟩ := hclean
  obtain ⟨q, hq, hun⟩ := pass_of_rewinding h hm hrw
  obtain ⟨hend, hadv⟩ := loop_of_done (fun t _ => (pass_sound h hm t).1.moves) ht hq
  rw [RxBuf.unread_insert] at hadv
  refine ⟨t, hrw, hadv, ?_⟩
  rw [feed, RxBuf.unread_compact]
  exact (congrArg RxBuf.unread hend).trans hun

/-- A clean run of a fresh assembler advances over the stream. -/
theorem runChunks_sound {cs : List (List UInt8)} (hcs : Along a.feed a.Clean .fresh cs) :
    (scanner h a.maxRecord).Advances cs.flatten (runChunks a.feed .fresh cs).1.unread
      (runChunks a.feed .fresh cs).2 :=
  (runChunks_advances (hcs.mono fun _ _ => feed_sound h hm) (Scanner.records_nil _)).1

/-- A run that is clean up to its last feed delivers the records of the stream. -/
theorem runChunks_feed {cs : List (List UInt8)} (hcs : Along a.feed a.Clean .fresh cs)
    (d : List UInt8) :
    (runChunks a.feed .fresh (cs ++ [d])).2 =
      (scanner h a.maxRecord).records (cs.flatten ++ d) := by
  rw [runChunks_append, runChunks_sound h hm hcs d, feed_records h hm]
  simp only [runChunks, List.append_nil]

/-! ## Streams of records -/

omit hm in
/-- Among records a pass rejects nothing. -/
theorem pass_onRecords {b : RxBuf} {X : List UInt8}
    (hb : (scanner h a.maxRecord).OnRecords b.unread X) :
    a.pass b = .done b ∨ ∃ c out, a.pass b = .again c out ∧
      (scanner h a.maxRecord).OnRecords c.unread X := by
  have hskip := hb.not_skip
  rw [scanner_verdict, Ne, verdict_eq_skip] at hskip
  rw [pass]
  split_ifs with h₀ h₁ h₂ h₃ h₄
  · exact .inl rfl
  · obtain ⟨-, hle, hne⟩ := h₁
    have hmis : ¬ a.magic <+: b.unread := fun hpre => hne (List.prefix_iff_eq_take.mp hpre).symm
    rw [h.bad_of_mismatch (by rw [RxBuf.length_unread]; exact hle) hmis] at hskip
    exact absurd ⟨by decide, .inl rfl⟩ hskip
  · exact .inl rfl
  · exact absurd ⟨h₂, h₃⟩ hskip
  · refine .inr ⟨_, _, rfl, ?_⟩
    rw [RxBuf.unread_compact, RxBuf.unread_advance]
    exact hb.emit (verdict_eq_emit.mpr
      ⟨h₂, h₃, by rw [RxBuf.length_unread]; exact h₄, rfl, rfl⟩)
  · exact .inl rfl

omit hm in
/-- Among records a feed is clean. -/
theorem feed_onRecords {b : RxBuf} {data X : List UInt8}
    (hb : (scanner h a.maxRecord).OnRecords (b.unread ++ data) X) :
    a.Clean b data ∧ (scanner h a.maxRecord).OnRecords (a.feed b data).1.unread X := by
  rw [← RxBuf.unread_insert] at hb
  obtain ⟨hvisits, hend⟩ :=
    loop_invariant_of_still (fun ht => pass_onRecords h ht) ((b.insert data).avail + 1) hb
  refine ⟨fun t ht hrw => (hvisits t ht).not_skip (verdict_eq_skip.mpr ⟨hrw.1, hrw.2.1⟩), ?_⟩
  rw [feed, RxBuf.unread_compact]
  exact hend

omit hm in
/-- A run over a stream of records is clean. -/
theorem along_onRecords {cs : List (List UInt8)} {b : RxBuf}
    (hb : (scanner h a.maxRecord).OnRecords b.unread cs.flatten) : Along a.feed a.Clean b cs := by
  induction cs generalizing b with
  | nil => trivial
  | cons c cs ih =>
      rw [List.flatten_cons] at hb
      obtain ⟨hclean, hrest⟩ := feed_onRecords h hb.append
      exact ⟨hclean, ih hrest⟩

/-- A stream of records is delivered record by record, however it is cut. -/
theorem runChunks_flatten {bs cs : List (List UInt8)}
    (hbs : ∀ b ∈ bs, (scanner h a.maxRecord).IsRecord b) (hcs : cs.flatten = bs.flatten) :
    (runChunks a.feed .fresh cs).2 = bs := by
  have hon : (scanner h a.maxRecord).OnRecords RxBuf.fresh.unread cs.flatten :=
    ⟨bs, fun b hb => ⟨b, hbs b hb⟩, hcs⟩
  rw [runChunks_records RxBuf.unread_fresh
    ((along_onRecords h hon).mono fun _ _ => feed_sound h hm), hcs, records_flatten hbs]

end Sound

end StreamAssembler

end MFoES.Usbproto
