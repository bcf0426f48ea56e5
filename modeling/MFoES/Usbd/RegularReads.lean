import MFoES.Usbd.UsbRx

/-!
# Agreement with `FrameParser`

The receive loop of the daemon differs from `FrameParser` in two places.  It does
not check the length of a header against `MAX_FRAME_SIZE`, and when a read does
not fit behind what is buffered, it drops the buffer.

A read is *regular* when neither matters.  A run of regular reads recognises
the frames that `FrameParser` emits.  After a run of regular reads, any other
read can be told apart: one that overflows loses a frame at once
(`overflow_differs`), and one that brings up a header over the cap makes the
daemon deaf to what `FrameParser` goes on to find (`over_differs`).
-/

namespace MFoES.Usbd

open LittleEndian Incremental Usbproto

/-! ## Regular reads -/

/-- The read does not fit behind what is buffered. -/
def Overflows (R data : List UInt8) : Prop := reassemblyMax < R.length + data.length

instance (R data : List UInt8) : Decidable (Overflows R data) :=
  inferInstanceAs (Decidable (_ < _))

/-- The read fits, and the scan comes to no header with the magic and a length
over `MAX_FRAME_SIZE`. -/
def Regular (R data : List UInt8) : Prop :=
  ¬ Overflows R data ∧ ∀ t ∈ Scan.states (R ++ data), ¬ t.Over maxFrameSize

instance (R data : List UInt8) : Decidable (Regular R data) :=
  inferInstanceAs (Decidable (_ ∧ ∀ t ∈ _, _))

theorem usbRxThread_of_fits {R data : List UInt8} (hdata : data ≠ []) (h : ¬ Overflows R data) :
    usbRxThread R data = ((Scan.run (R ++ data)).1.rest, (Scan.run (R ++ data)).2) := by
  rw [Overflows] at h
  rw [usbRxThread, if_neg hdata, accumulate, if_neg h]

theorem usbRxThread_of_overflows {R data : List UInt8} (hdata : data ≠ [])
    (h : Overflows R data) :
    usbRxThread R data = ((Scan.run data).1.rest, (Scan.run data).2) := by
  rw [Overflows] at h
  rw [usbRxThread, if_neg hdata, accumulate, if_pos h]
  rfl

/-- A regular read recognises the frames there are, and leaves none. -/
theorem usbRxThread_sound {R data : List UInt8} (h : Regular R data) :
    FeedSound (frameScanner maxFrameSize) id usbRxThread R data := by
  intro hR
  by_cases hdata : data = []
  · rw [usbRxThread, if_pos hdata, hdata, id, List.append_nil]
    exact ⟨.refl _, hR⟩
  · rw [usbRxThread_of_fits hdata h.1]
    exact loop_sound (fun t ht => (Scan.pass_sound (h.2 t ht)).1) (Scan.fuel_run _)
      fun t ht => (Scan.pass_sound (h.2 t ht)).2

/-- A run of regular reads recognises the frames of the stream. -/
theorem runChunks_usbRxThread {cs : List (List UInt8)} (h : Along usbRxThread Regular [] cs) :
    (runChunks usbRxThread [] cs).2 = (frameScanner maxFrameSize).records cs.flatten :=
  runChunks_records rfl (h.mono fun _ _ => usbRxThread_sound)

/-- After regular reads, what is buffered is nothing the scanner could take. -/
theorem verdict_usbRxThread {R data : List UInt8} (h : Regular R data)
    (hR : (frameScanner maxFrameSize).verdict R = .wait) :
    (frameScanner maxFrameSize).verdict (usbRxThread R data).1 = .wait := by
  by_cases hdata : data = []
  · rw [usbRxThread, if_pos hdata]
    exact hR
  · rw [usbRxThread_of_fits hdata h.1]
    have hmove := fun t ht => (Scan.pass_sound (h.2 t ht)).1.moves
    obtain ⟨t, ht, u, hu⟩ := exists_done _ _ hmove (Scan.fuel_run (R ++ data))
    have hend : (Scan.run (R ++ data)).1 = u := (loop_of_done hmove ht hu).1
    rw [hend, Scan.eq_of_done hu]
    exact Scan.verdict_of_done (h.2 t ht) hu

theorem verdict_runChunks {cs : List (List UInt8)} {R : List UInt8}
    (h : Along usbRxThread Regular R cs) (hR : (frameScanner maxFrameSize).verdict R = .wait) :
    (frameScanner maxFrameSize).verdict (runChunks usbRxThread R cs).1 = .wait := by
  induction cs generalizing R with
  | nil => exact hR
  | cons c cs ih => exact ih h.2 (verdict_usbRxThread h.1 hR)

/-! ## Reads that are not regular -/

/-- A read that does not fit comes behind most of a long frame.  The frame is
complete with this read, and lost. -/
theorem overflow_differs {R data : List UInt8} (hdata : data ≠ [])
    (hchunk : data.length ≤ readChunk) (h : Overflows R data)
    (hR : (frameScanner maxFrameSize).verdict R = .wait) :
    (usbRxThread R data).2 ≠ (frameScanner maxFrameSize).records (R ++ data) := by
  rw [usbRxThread_of_overflows hdata h]
  rw [Overflows, reassemblyMax, maxFrameSize, sizeofFrameHeader] at h
  rw [readChunk] at hchunk
  rcases frameVerdict_eq_wait.mp hR with hlt | ⟨hdr, hd, hgood, hlt⟩
  · rw [headerSize] at hlt
    omega
  · have hcap : hdr.length.toNat ≤ 4 * 1024 * 1024 := Nat.le_of_not_lt fun hc => hgood (Or.inr hc)
    have htot : hdr.total = 12 + hdr.length.toNat := rfl
    have hfits : hdr.total ≤ (R ++ data).length := by
      rw [List.length_append]
      omega
    have hemit : (frameScanner maxFrameSize).verdict (R ++ data) =
        .emit hdr.total (hdr.frame (R ++ data)) :=
      frameVerdict_eq_emit.mpr
        ⟨hdr, (decodeHeader_append data (length_of_decodeHeader hd)).trans hd, hgood, hfits,
          rfl, rfl⟩
    rw [(frameScanner maxFrameSize).records_of_emit hemit]
    intro heq
    have hmem : hdr.frame (R ++ data) ∈ (Scan.run data).2 := by
      rw [heq]
      exact List.mem_cons_self
    have hle := Scan.payload_run_le data _ hmem
    rw [sizeofFrameHeader] at hle
    have hpay : (hdr.frame (R ++ data)).payload.length = hdr.length.toNat := by
      rw [FrameHeader.frame, List.length_take, List.length_drop, headerSize]
      omega
    omega

theorem hdrAt_append {R : List UInt8} (X : List UInt8) (h : sizeofFrameHeader ≤ R.length) :
    hdrAt (R ++ X) = hdrAt R := by
  have hlen : sizeofFrameHeader ≤ (R ++ X).length := by
    rw [List.length_append]
    omega
  have happ := decodeHeader_append X h
  rw [decodeHeader_eq_hdrAt h, decodeHeader_eq_hdrAt hlen] at happ
  exact Option.some.inj happ

/-- A header over the cap stays one when more bytes follow. -/
theorem Scan.Over.append {cap : Nat} {Q : List UInt8} (h : (Scan.start Q).Over cap)
    (X : List UInt8) : (Scan.start (Q ++ X)).Over cap := by
  simp only [Over, rest_start] at h ⊢
  obtain ⟨hlen, hm, hlt⟩ := h
  rw [hdrAt_append X hlen, List.length_append]
  exact ⟨Nat.le_add_right_of_le hlen, hm, hlt⟩

/-- The scan waits at a header over `MAX_FRAME_SIZE`: no buffer can hold what it
announces. -/
theorem Scan.pass_of_over {s : Scan} (h : s.Over maxFrameSize)
    (hs : s.rest.length ≤ reassemblyMax) : s.pass = .done s := by
  obtain ⟨hlen, hm, hlt⟩ := h
  cases s.passMove with
  | short _ hp | wait _ _ _ hp => exact hp
  | skip _ hne _ _ _ => exact absurd hm hne
  | emit _ _ htot _ _ _ =>
      rw [totalNeeded] at htot
      rw [reassemblyMax] at hs
      omega

theorem Scan.run_of_over {Q : List UInt8} (h : (Scan.start Q).Over maxFrameSize)
    (hQ : Q.length ≤ reassemblyMax) : Scan.run Q = (Scan.start Q, []) := by
  rw [Scan.run, loop, Scan.pass_of_over h hQ]

/-- The buffer starts with a header over `MAX_FRAME_SIZE`, or holds zeros only. -/
def Deaf (Q : List UInt8) : Prop :=
  (Scan.start Q).Over maxFrameSize ∨ ∀ b ∈ Q, b = 0

theorem Scan.run_zeros {Z : List UInt8} (hZ : ∀ b ∈ Z, b = 0) : (Scan.run Z).2 = [] := by
  have hrun : (frameScanner (2 ^ 32 - 1)).records Z = (Scan.run Z).2 :=
    loop_records (fun t _ => (Scan.pass_sound t.not_over).1) (Scan.fuel_run Z)
  rw [← hrun]
  refine (frames_garbage _ fun hin => ?_).1
  have h44 : (0x44 : UInt8) ∈ Z := hin.subset (by decide)
  exact absurd (hZ _ h44) (by decide)

/-- A deaf scan recognises nothing in a zero, and stays deaf. -/
theorem Deaf.zero {Q : List UInt8} (h : Deaf Q) :
    (usbRxThread Q [0]).2 = [] ∧ Deaf (usbRxThread Q [0]).1 := by
  have hzeros : ∀ {Z : List UInt8}, (∀ b ∈ Z, b = 0) → ∀ b ∈ (Scan.run Z).1.rest, b = 0 :=
    fun hZ b hb => hZ b ((Scan.run_suffix _).subset hb)
  by_cases ho : Overflows Q [0]
  · rw [usbRxThread_of_overflows (List.cons_ne_nil _ _) ho]
    have hZ : ∀ b ∈ [(0 : UInt8)], b = 0 := by simp
    exact ⟨Scan.run_zeros hZ, Or.inr (hzeros hZ)⟩
  · rw [usbRxThread_of_fits (List.cons_ne_nil _ _) ho]
    cases h with
    | inl hover =>
        have hfit : (Q ++ [0]).length ≤ reassemblyMax := by
          rw [List.length_append]
          exact Nat.le_of_not_lt ho
        rw [Scan.run_of_over (hover.append [0]) hfit]
        exact ⟨rfl, Or.inl (hover.append [0])⟩
    | inr hQ =>
        have hZ : ∀ b ∈ Q ++ [0], b = 0 := by
          intro b hb
          rcases List.mem_append.mp hb with hb | hb
          · exact hQ b hb
          · exact List.mem_singleton.mp hb
        exact ⟨Scan.run_zeros hZ, Or.inr (hzeros hZ)⟩

theorem Deaf.zeros (n : Nat) {Q : List UInt8} (h : Deaf Q) :
    (runChunks usbRxThread Q (List.replicate n [0])).2 = [] := by
  induction n generalizing Q with
  | zero => rfl
  | succ n ih =>
      obtain ⟨hnone, hdeaf⟩ := h.zero
      rw [List.replicate_succ, runChunks, hnone, ih hdeaf]
      rfl

/-- Enough zeros either complete a frame, or flush what is held. -/
theorem zeros_complete_or_flush (Q : List UInt8) :
    (∃ n, (frameScanner maxFrameSize).records
      (Q ++ (List.replicate 12 0 ++ List.replicate n 0)) ≠ []) ∨
    ∀ X, (frameScanner maxFrameSize).records (Q ++ (List.replicate 12 0 ++ X)) =
      (frameScanner maxFrameSize).records (List.replicate 12 0 ++ X) := by
  induction Q with
  | nil => exact Or.inr fun _ => rfl
  | cons b Q ih =>
      have hlen : headerSize ≤ (b :: Q ++ List.replicate 12 0).length := by
        rw [List.length_append, List.length_replicate]
        exact Nat.le_add_left _ _
      obtain ⟨hdr, hd⟩ := decodeHeader_isSome hlen
      have hd' : ∀ X, decodeHeader (b :: Q ++ (List.replicate 12 0 ++ X)) = some hdr := by
        intro X
        rw [← List.append_assoc, decodeHeader_append X hlen]
        exact hd
      by_cases hbad : hdr.Bad maxFrameSize
      · have hskip : ∀ X, (frameScanner maxFrameSize).records
              (b :: Q ++ (List.replicate 12 0 ++ X)) =
            (frameScanner maxFrameSize).records (Q ++ (List.replicate 12 0 ++ X)) :=
          fun X => (frameScanner maxFrameSize).records_of_skip
            (frameVerdict_eq_skip.mpr ⟨hdr, hd' X, hbad⟩)
        rcases ih with ⟨n, hn⟩ | hflush
        · exact Or.inl ⟨n, by rw [hskip]; exact hn⟩
        · exact Or.inr fun X => (hskip X).trans (hflush X)
      · refine Or.inl ⟨hdr.total, ?_⟩
        have hemit := frameVerdict_eq_emit.mpr
          ⟨hdr, hd' (List.replicate hdr.total 0), hbad, by
            simp only [List.length_append, List.length_replicate]
            omega, rfl, rfl⟩
        rw [(frameScanner maxFrameSize).records_of_emit hemit]
        exact List.cons_ne_nil _ _

/-- A header that one read completes lies close to the end of the buffer. -/
theorem length_over_le {R data : List UInt8}
    (hR : (frameScanner maxFrameSize).verdict R = .wait) {t : Scan}
    (ht : t ∈ Scan.states (R ++ data)) (hover : t.Over maxFrameSize) :
    t.rest.length ≤ sizeofFrameHeader + data.length := by
  have hfirst := (Scan.loop_suffix _ _).1 t ht
  have hle := hfirst.length_le
  rw [Scan.rest_start, List.length_append] at hle
  rcases frameVerdict_eq_wait.mp hR with hlt | ⟨hdr, hd, hgood, hlt⟩
  · have h12 : R.length < sizeofFrameHeader := hlt
    omega
  · -- the buffer starts with a frame, so the header comes behind it
    have hlen : sizeofFrameHeader ≤ R.length := length_of_decodeHeader hd
    rw [decodeHeader_eq_hdrAt hlen] at hd
    cases hd
    have hm : (hdrAt R).magic = frameMagic := not_not.mp fun hne => hgood (Or.inl hne)
    have hnot : ¬ (Scan.start (R ++ data)).Over maxFrameSize := by
      rintro ⟨-, -, hc⟩
      rw [Scan.rest_start, hdrAt_append data hlen] at hc
      exact hgood (Or.inr hc)
    rw [Scan.states, visits] at ht
    rcases List.mem_cons.mp ht with rfl | ht
    · exact absurd hover hnot
    · cases (Scan.start (R ++ data)).passMove with
      | short _ hp | wait _ _ _ hp =>
          rw [hp] at ht
          exact absurd ht List.not_mem_nil
      | skip _ hne _ _ _ =>
          rw [Scan.rest_start, hdrAt_append data hlen] at hne
          exact absurd hm hne
      | emit _ _ _ u hp hu =>
          rw [hp] at ht
          have hsuf := ((Scan.loop_suffix _ u).1 t ht).length_le
          rw [hu, Scan.rest_start, hdrAt_append data hlen, List.length_drop,
            List.length_append] at hsuf
          have htot : totalNeeded (hdrAt R) = (hdrAt R).total := rfl
          omega

/-- Once the scan waits at a header over `MAX_FRAME_SIZE`, there are reads in
which `FrameParser` emits a frame and the daemon recognises none. -/
theorem exists_deaf_reads {Q : List UInt8} (hover : (Scan.start Q).Over maxFrameSize)
    (hQ : Q.length ≤ sizeofFrameHeader + readChunk) :
    ∃ ds : List (List UInt8), (∀ d ∈ ds, d ≠ [] ∧ d.length ≤ readChunk) ∧
      (runChunks usbRxThread Q ds).2 = [] ∧
      (frameScanner maxFrameSize).records (Q ++ ds.flatten) ≠ [] := by
  rcases zeros_complete_or_flush Q with ⟨n, hn⟩ | hflush
  · refine ⟨List.replicate (12 + n) [0], ?_, Deaf.zeros _ (Or.inl hover), ?_⟩
    · intro d hd
      rw [List.eq_of_mem_replicate hd]
      exact ⟨List.cons_ne_nil _ _, by decide⟩
    · rw [List.flatten_replicate_singleton, ← List.replicate_append_replicate]
      exact hn
  · -- twelve zeros and a frame without a payload
    obtain ⟨f, hf⟩ : ∃ f : Frame, f = ⟨0, 0, []⟩ := ⟨_, rfl⟩
    obtain ⟨d, hd⟩ : ∃ d, d = List.replicate 12 0 ++ f.encode := ⟨_, rfl⟩
    have hlen : d.length = 24 := by
      rw [hd, hf]
      rfl
    have hne : d ≠ [] := List.ne_nil_of_length_pos (by omega)
    have hroom : sizeofFrameHeader + readChunk + 24 ≤ reassemblyMax := by decide
    have hfit : (Q ++ d).length ≤ reassemblyMax := by
      rw [List.length_append]
      omega
    have hno : ¬ Overflows Q d := by
      rw [List.length_append] at hfit
      exact Nat.not_lt.mpr hfit
    refine ⟨[d], ?_, ?_, ?_⟩
    · intro e he
      rw [List.mem_singleton.mp he, hlen]
      exact ⟨hne, by decide⟩
    · rw [runChunks, usbRxThread_of_fits hne hno, Scan.run_of_over (hover.append _) hfit]
      rfl
    · obtain ⟨rest, hrest⟩ := f.encode_eq_kMagicBytes_append
      have hgarbage := (frames_garbage maxFrameSize (g := List.replicate 12 0) (by decide)).2 rest
      have hframe : (frameScanner maxFrameSize).records (f.encode ++ []) = f :: _ :=
        frames_encode (by rw [hf]; decide) (by rw [hf]; decide) []
      rw [← hrest] at hgarbage
      rw [List.append_nil] at hframe
      rw [List.flatten_cons, List.flatten_nil, List.append_nil, hd, hflush, hgarbage, hframe]
      exact List.cons_ne_nil _ _

/-- A read that brings up a header over `MAX_FRAME_SIZE` can be followed by reads
such that `FrameParser` goes on where the daemon waits. -/
theorem over_differs {R data : List UInt8} (hdata : data ≠ []) (hchunk : data.length ≤ readChunk)
    (hfits : ¬ Overflows R data) (hR : (frameScanner maxFrameSize).verdict R = .wait)
    {t : Scan} (ht : t ∈ Scan.states (R ++ data)) (hover : t.Over maxFrameSize) :
    ∃ ds : List (List UInt8), (∀ d ∈ ds, d ≠ [] ∧ d.length ≤ readChunk) ∧
      (runChunks usbRxThread R (data :: ds)).2 ≠
        (frameScanner maxFrameSize).records (R ++ data ++ ds.flatten) := by
  have hbound : ∀ u ∈ Scan.states (R ++ data), u.rest.length ≤ reassemblyMax := by
    intro u hu
    refine Nat.le_trans ((Scan.loop_suffix _ _).1 u hu).length_le ?_
    rw [Scan.rest_start, List.length_append]
    exact Nat.le_of_not_lt hfits
  have hmove : ∀ u ∈ Scan.states (R ++ data),
      u.pass.Moves (frameScanner maxFrameSize) Scan.rest u := by
    intro u hu
    by_cases ho : u.Over maxFrameSize
    · rw [Scan.pass_of_over ho (hbound u hu)]
      trivial
    · exact (Scan.pass_sound ho).1.moves
  have hloop := loop_of_done hmove ht (Scan.pass_of_over hover (hbound t ht))
  have hend : (Scan.run (R ++ data)).1 = t := hloop.1
  have hadv : (frameScanner maxFrameSize).Advances (R ++ data) t.rest (Scan.run (R ++ data)).2 :=
    hloop.2
  have hlen := length_over_le hR ht hover
  obtain ⟨ds, hds, hnone, hsome⟩ := exists_deaf_reads (Q := t.rest) hover (by omega)
  refine ⟨ds, hds, ?_⟩
  simp only [runChunks, usbRxThread_of_fits hdata hfits, hend, hnone, hadv ds.flatten]
  exact fun heq => hsome (List.append_cancel_left heq).symm

/-- A read that is not regular, after regular ones, can be told apart. -/
theorem differs_of_not_regular {R data : List UInt8} (hdata : data ≠ [])
    (hchunk : data.length ≤ readChunk) (h : ¬ Regular R data)
    (hR : (frameScanner maxFrameSize).verdict R = .wait) :
    ∃ ds : List (List UInt8), (∀ d ∈ ds, d ≠ [] ∧ d.length ≤ readChunk) ∧
      (runChunks usbRxThread R (data :: ds)).2 ≠
        (frameScanner maxFrameSize).records (R ++ data ++ ds.flatten) := by
  by_cases ho : Overflows R data
  · refine ⟨[], fun d hd => absurd hd List.not_mem_nil, ?_⟩
    rw [runChunks, runChunks, List.append_nil, List.flatten_nil, List.append_nil]
    exact overflow_differs hdata hchunk ho hR
  · simp only [Regular, ho, not_false_eq_true, true_and, not_forall, not_not] at h
    obtain ⟨t, ht, hover⟩ := h
    exact over_differs hdata hchunk ho hR ht hover

/-! ## Agreement -/

/-- As long as all reads are regular, the daemon recognises the frames that
`FrameParser` emits.  After them, any read that is not regular can be followed
by reads in which it does not. -/
theorem usbRxThread_agrees {cs : List (List UInt8)} (h : Along usbRxThread Regular [] cs) :
    (runChunks usbRxThread [] cs).2 = (runChunks FrameParser.feed .fresh cs).2 ∧
    ∀ c, c ≠ [] → c.length ≤ readChunk → ¬ Regular (runChunks usbRxThread [] cs).1 c →
      ∃ ds : List (List UInt8), (∀ d ∈ ds, d ≠ [] ∧ d.length ≤ readChunk) ∧
        (runChunks usbRxThread [] (cs ++ c :: ds)).2 ≠
          (runChunks FrameParser.feed .fresh (cs ++ c :: ds)).2 := by
  refine ⟨?_, fun c hne hchunk hc => ?_⟩
  · rw [runChunks_usbRxThread h, FrameParser.runChunks_feed RxBuf.unread_fresh]
    rfl
  · have hadv := (runChunks_advances (h.mono fun _ _ => usbRxThread_sound)
      (Scanner.records_nil _)).1
    obtain ⟨ds, hds, hdiff⟩ := differs_of_not_regular hne hchunk hc (verdict_runChunks h rfl)
    refine ⟨ds, hds, ?_⟩
    have hall := hadv (c :: ds).flatten
    rw [id, List.nil_append, ← List.flatten_append, id, List.flatten_cons,
      ← List.append_assoc] at hall
    have hparser := FrameParser.runChunks_feed RxBuf.unread_fresh (cs ++ c :: ds)
    rw [runChunks_append, hparser]
    exact fun heq => hdiff (List.append_cancel_left (heq.trans hall))

/-- A frame with the beginning of a magic behind it, and the byte after that. -/
theorem usbRxThread_agrees_split :
    (runChunks usbRxThread []
        [Frame.encode ⟨0, flagData, [7]⟩ ++ [0x4d, 0x46], [0x6f]]).2 =
      (runChunks FrameParser.feed .fresh
        [Frame.encode ⟨0, flagData, [7]⟩ ++ [0x4d, 0x46], [0x6f]]).2 :=
  (usbRxThread_agrees (by decide)).1

/-- A header with the magic and a length over `MAX_FRAME_SIZE`, and a frame
behind it. -/
theorem usbRxThread_agrees_oversize :
    (runChunks usbRxThread []
        [encodeHeader 0 flagData 0x400001 ++ Frame.encode ⟨0, flagData, []⟩]).2 ≠
      (runChunks FrameParser.feed .fresh
        [encodeHeader 0 flagData 0x400001 ++ Frame.encode ⟨0, flagData, []⟩]).2 := by
  decide

end MFoES.Usbd
