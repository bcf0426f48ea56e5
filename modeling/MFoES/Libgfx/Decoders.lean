import MFoES.Libgfx.DRRender

/-!
# What the decoders look at

An accessor steps over bytes that are there and looks at no others, and where it succeeds it
would have done the same in a longer body.  These are the three fields of `Accessor`, and they
compose.  A decoder is a case of the renderer's `switch`.  It is put together from accessors, and
it makes its call only if all of them have succeeded (`Decoder`).
-/

namespace MFoES.Libgfx

open LittleEndian Reading DRReader

variable {F α β : Type}

namespace DRReader

/-! ## Accessors -/

/-- A reader may step over bytes that are there, and once it has failed it stays so. -/
structure Steps (r r' : DRReader) : Prop where
  p : r'.p = r.p
  n : r'.n = r.n
  le : r.i ≤ r'.i
  inside : r.i ≤ r.n → r'.i ≤ r.n
  ok : r'.ok = true → r.ok = true

theorem Steps.refl (r : DRReader) : Steps r r := ⟨rfl, rfl, Nat.le_refl _, id, id⟩

theorem Steps.trans {r r' r'' : DRReader} (h : Steps r r') (h' : Steps r' r'') : Steps r r'' where
  p := h'.p.trans h.p
  n := h'.n.trans h.n
  le := Nat.le_trans h.le h'.le
  inside hr := by
    have hr' := h.inside hr
    rw [← h.n] at hr' ⊢
    exact h'.inside hr'
  ok hok := h.ok (h'.ok hok)

/-- A memory agrees with a reader's on what was stepped over. -/
def Agree (r r' : DRReader) (q : List UInt8) : Prop := ∀ j, r.i ≤ j → j < r'.i → q[j]? = r.p[j]?

theorem Agree.split {r r' r'' : DRReader} {q : List UInt8} (h : Agree r r'' q) (hs : Steps r r')
    (hs' : Steps r' r'') : Agree r r' q ∧ Agree r' r'' q := by
  refine ⟨fun j hj hlt => h j hj (Nat.lt_of_lt_of_le hlt hs'.le), fun j hj hlt => ?_⟩
  rw [hs.p]
  exact h j (Nat.le_trans hs.le hj) hlt

/-- `m` looks at what it steps over, and where it succeeds it does the same with more bytes. -/
structure Accessor (m : StateM DRReader α) : Prop where
  steps (r : DRReader) : Steps r (m r).2
  looks (r : DRReader) (q : List UInt8) : Agree r (m r).2 q →
    m { r with p := q } = ((m r).1, { (m r).2 with p := q })
  grows (r : DRReader) (n : Nat) : r.n ≤ n → (m r).2.ok = true →
    m { r with n := n } = ((m r).1, { (m r).2 with n := n })

theorem accessor_pure (v : α) : Accessor (pure v : StateM DRReader α) :=
  ⟨Steps.refl, fun _ _ _ => rfl, fun _ _ _ _ => rfl⟩

theorem Accessor.bind {m : StateM DRReader α} {f : α → StateM DRReader β} (hm : Accessor m)
    (hf : ∀ v, Accessor (f v)) : Accessor (m >>= f) where
  steps r := (hm.steps r).trans ((hf (m r).1).steps (m r).2)
  looks r q hq := by
    obtain ⟨hfirst, hrest⟩ := hq.split (hm.steps r) ((hf (m r).1).steps (m r).2)
    show f (m { r with p := q }).1 (m { r with p := q }).2 = _
    rw [hm.looks r q hfirst]
    exact (hf (m r).1).looks (m r).2 q hrest
  grows r n hn hok := by
    have hfirst := ((hf (m r).1).steps (m r).2).ok hok
    show f (m { r with n := n }).1 (m { r with n := n }).2 = _
    rw [hm.grows r n hn hfirst]
    refine (hf (m r).1).grows (m r).2 n ?_ hok
    rw [(hm.steps r).n]
    exact hn

/-- The bytes are there and an accessor takes them, or it fails. -/
theorem fetch_cases (k : Nat) (dflt : α) (f : List UInt8 → Nat → α) (r : DRReader) :
    (r.ok = true ∧ k ≤ r.n - r.i ∧ fetch k dflt f r = (f r.p r.i, { r with i := r.i + k })) ∨
      ((r.ok = false ∨ r.n - r.i < k) ∧ fetch k dflt f r = (dflt, { r with ok := false })) := by
  by_cases hneed : r.ok = true ∧ k ≤ r.n - r.i
  · refine Or.inl ⟨hneed.1, hneed.2, ?_⟩
    have hrun : need k r = (true, r) := by
      rw [need, if_neg]
      simpa [hneed.1] using hneed.2
    simp only [fetch, bind, StateT.bind, hrun]
    rfl
  · have hfail : r.ok = false ∨ r.n - r.i < k := by
      rw [not_and_or, Bool.not_eq_true, Nat.not_le] at hneed
      exact hneed
    refine Or.inr ⟨hfail, ?_⟩
    have hcond : (!r.ok || decide (r.n - r.i < k)) = true := by simpa using hfail
    simp only [fetch, bind, StateT.bind, need, if_pos hcond]
    rfl

/-- `f` looks at the `k` bytes from its offset on. -/
def LooksAt (k : Nat) (f : List UInt8 → Nat → α) : Prop :=
  ∀ p q i, (∀ j, i ≤ j → j < i + k → q[j]? = p[j]?) → f q i = f p i

theorem accessor_fetch {k : Nat} {dflt : α} {f : List UInt8 → Nat → α} (hf : LooksAt k f) :
    Accessor (fetch k dflt f) where
  steps r := by
    rcases fetch_cases k dflt f r with ⟨hok, hk, heq⟩ | ⟨hfail, heq⟩
    · rw [heq]
      exact ⟨rfl, rfl, Nat.le_add_right _ _, fun hr => by dsimp only; omega, id⟩
    · rw [heq]
      exact ⟨rfl, rfl, Nat.le_refl _, id, fun hok => by cases hok⟩
  looks r q hq := by
    rcases fetch_cases k dflt f r with ⟨hok, hk, heq⟩ | ⟨hfail, heq⟩
    · rcases fetch_cases k dflt f { r with p := q } with ⟨-, -, heq'⟩ | ⟨hfail', -⟩
      · rw [heq] at hq ⊢
        rw [heq', hf r.p q r.i hq]
      · rcases hfail' with hfail' | hfail'
        · rw [hok] at hfail'
          cases hfail'
        · exact absurd hk (Nat.not_le.mpr hfail')
    · rcases fetch_cases k dflt f { r with p := q } with ⟨hok', hk', -⟩ | ⟨-, heq'⟩
      · rcases hfail with hfail | hfail
        · rw [hfail] at hok'
          cases hok'
        · exact absurd hk' (Nat.not_le.mpr hfail)
      · rw [heq, heq']
  grows r n hn hok := by
    rcases fetch_cases k dflt f r with ⟨hok', hk, heq⟩ | ⟨-, heq⟩
    · rcases fetch_cases k dflt f { r with n := n } with ⟨-, -, heq'⟩ | ⟨hfail', -⟩
      · rw [heq, heq']
      · rcases hfail' with hfail' | hfail'
        · rw [hok'] at hfail'
          cases hfail'
        · dsimp only at hfail'
          omega
    · rw [heq] at hok
      cases hok

theorem getD_congr {p q : List UInt8} {i : Nat} (h : q[i]? = p[i]?) : q.getD i 0 = p.getD i 0 := by
  rw [List.getD_eq_getElem?_getD, List.getD_eq_getElem?_getD, h]

theorem accessor_u8 : Accessor u8 :=
  accessor_fetch fun _ _ i h => getD_congr (h i (Nat.le_refl i) (Nat.lt_succ_self i))

theorem accessor_u16 : Accessor u16 :=
  accessor_fetch fun p q i h => by
    rw [get16, get16, getD_congr (h i (by omega) (by omega)),
      getD_congr (h (i + 1) (by omega) (by omega))]

theorem accessor_u32 : Accessor u32 :=
  accessor_fetch fun p q i h => by
    rw [get32, get32, getD_congr (h i (by omega) (by omega)),
      getD_congr (h (i + 1) (by omega) (by omega)), getD_congr (h (i + 2) (by omega) (by omega)),
      getD_congr (h (i + 3) (by omega) (by omega))]

theorem accessor_i16 : Accessor i16 := accessor_u16.bind fun v => accessor_pure v.toInt16

theorem accessor_f32 : Accessor f32 := accessor_u32.bind fun v => accessor_pure (F32.mk v)

theorem accessor_flag : Accessor flag := accessor_u8.bind fun v => accessor_pure (v != 0)

theorem accessor_bytes (k : Nat) : Accessor (bytes k) :=
  accessor_fetch fun p q i h => by
    refine congrArg some (List.ext_getElem? fun j => ?_)
    rw [List.getElem?_take, List.getElem?_take, List.getElem?_drop, List.getElem?_drop]
    split_ifs with hj
    · exact h (i + j) (by omega) (by omega)
    · rfl

theorem accessor_readN {m : StateM DRReader α} (hm : Accessor m) (n : Nat) :
    Accessor (readN m n) := by
  induction n with
  | zero => exact accessor_pure []
  | succ n ih => exact hm.bind fun v => ih.bind fun vs => accessor_pure (v :: vs)

end DRReader

/-! ## Decoders -/

/-- `m` looks at what it steps over, its call is made with everything there, and then it would
also be made in a longer body. -/
structure Decoder (m : StateM DRReader (Decoded F)) : Prop where
  steps (r : DRReader) : Steps r (m r).2
  looks (r : DRReader) (q : List UInt8) : Agree r (m r).2 q →
    m { r with p := q } = ((m r).1, { (m r).2 with p := q })
  grows (r : DRReader) (n : Nat) (c : GfxCall F) : r.n ≤ n → (m r).1 = .ok (some c) →
    m { r with n := n } = ((m r).1, { (m r).2 with n := n })
  issued (r : DRReader) (c : GfxCall F) : (m r).1 = .ok (some c) → (m r).2.ok = true
  cut (r : DRReader) : (m r).1 = .ok none → (m r).2.ok = false
  bad (r : DRReader) (e : DRError) : (m r).1 = .error e → e = .badPayload

/-- Read an argument. -/
theorem Decoder.arg {m : StateM DRReader α} {f : α → StateM DRReader (Decoded F)}
    (hm : Accessor m) (hf : ∀ v, Decoder (f v)) : Decoder (m >>= f) where
  steps r := (hm.steps r).trans ((hf (m r).1).steps (m r).2)
  looks r q hq := by
    obtain ⟨hfirst, hrest⟩ := hq.split (hm.steps r) ((hf (m r).1).steps (m r).2)
    show f (m { r with p := q }).1 (m { r with p := q }).2 = _
    rw [hm.looks r q hfirst]
    exact (hf (m r).1).looks (m r).2 q hrest
  grows r n c hn hcall := by
    have hok := (hf (m r).1).issued (m r).2 c hcall
    have hfirst := ((hf (m r).1).steps (m r).2).ok hok
    show f (m { r with n := n }).1 (m { r with n := n }).2 = _
    rw [hm.grows r n hn hfirst]
    refine (hf (m r).1).grows (m r).2 n c ?_ hcall
    rw [(hm.steps r).n]
    exact hn
  issued r c hcall := (hf (m r).1).issued (m r).2 c hcall
  cut r hnone := (hf (m r).1).cut (m r).2 hnone
  bad r e herror := (hf (m r).1).bad (m r).2 e herror

theorem decoder_issue (c : GfxCall F) : Decoder (issue c) where
  steps := Steps.refl
  looks _ _ _ := rfl
  grows _ _ _ _ _ := rfl
  issued r c' hcall := by
    cases hok : r.ok with
    | true => exact hok
    | false =>
        rw [show (issue c r).1 = .ok (if r.ok then some c else none) from rfl, hok] at hcall
        cases hcall
  cut r hnone := by
    cases hok : r.ok with
    | true =>
        rw [show (issue c r).1 = .ok (if r.ok then some c else none) from rfl, hok] at hnone
        cases hnone
    | false => exact hok
  bad r e herror := by cases herror

/-- What the checks before the pixels come to. -/
theorem guarded_cases (w h : Int16) (need : Nat) (k : StateM DRReader (Decoded F)) (r : DRReader) :
    (r.ok = false ∧ guarded w h need k r = (.ok none, r)) ∨
      (r.ok = true ∧ extentOk w h need r = false ∧
        guarded w h need k r = (.error .badPayload, r)) ∨
      (r.ok = true ∧ extentOk w h need r = true ∧ guarded w h need k r = k r) := by
  have hrun : guarded w h need k r =
      (if !r.ok then pure (.ok none)
        else if !extentOk w h need r then pure (.error .badPayload) else k) r := rfl
  rw [hrun]
  cases hok : r.ok with
  | false => exact Or.inl ⟨rfl, rfl⟩
  | true =>
      cases hext : extentOk w h need r with
      | false => exact Or.inr (Or.inl ⟨rfl, rfl, rfl⟩)
      | true => exact Or.inr (Or.inr ⟨rfl, rfl, rfl⟩)

/-- A bitmap that is accepted is accepted with more bytes. -/
theorem extentOk_grows {w h : Int16} {need : Nat} {r : DRReader} (hext : extentOk w h need r = true)
    (hok : r.ok = true) {n : Nat} (hn : r.n ≤ n) : extentOk w h need { r with n := n } = true := by
  rw [extentOk] at hext ⊢
  split_ifs at hext ⊢ with hwh
  rw [decide_eq_true_eq, DRReader.remaining, hok, if_pos rfl] at hext ⊢
  exact Nat.le_trans hext (Nat.sub_le_sub_right hn r.i)

theorem decoder_guarded {w h : Int16} {need : Nat} {k : StateM DRReader (Decoded F)}
    (hk : Decoder k) : Decoder (guarded w h need k) where
  steps r := by
    rcases guarded_cases w h need k r with ⟨-, heq⟩ | ⟨-, -, heq⟩ | ⟨-, -, heq⟩
    · rw [heq]
      exact Steps.refl r
    · rw [heq]
      exact Steps.refl r
    · rw [heq]
      exact hk.steps r
  looks r q hq := by
    rcases guarded_cases w h need k r with ⟨hok, heq⟩ | ⟨hok, hext, heq⟩ | ⟨hok, hext, heq⟩
    all_goals
      rcases guarded_cases w h need k { r with p := q } with ⟨hok', heq'⟩ | ⟨hok', hext', heq'⟩ |
        ⟨hok', hext', heq'⟩
    all_goals try exact absurd (hok.symm.trans hok') (by decide)
    all_goals try exact absurd (hext.symm.trans hext') (by decide)
    · rw [heq, heq']
    · rw [heq, heq']
    · rw [heq] at hq ⊢
      rw [heq']
      exact hk.looks r q hq
  grows r n c hn hcall := by
    rcases guarded_cases w h need k r with ⟨-, heq⟩ | ⟨-, -, heq⟩ | ⟨hok, hext, heq⟩
    · rw [heq] at hcall
      cases hcall
    · rw [heq] at hcall
      cases hcall
    · have hext' := extentOk_grows hext hok hn
      rcases guarded_cases w h need k { r with n := n } with ⟨hok', -⟩ | ⟨-, hext'', -⟩ |
        ⟨-, -, heq'⟩
      · exact absurd (hok.symm.trans hok') (by decide)
      · exact absurd (hext'.symm.trans hext'') (by decide)
      · rw [heq] at hcall ⊢
        rw [heq']
        exact hk.grows r n c hn hcall
  issued r c hcall := by
    rcases guarded_cases w h need k r with ⟨-, heq⟩ | ⟨-, -, heq⟩ | ⟨-, -, heq⟩
    · rw [heq] at hcall
      cases hcall
    · rw [heq] at hcall
      cases hcall
    · rw [heq] at hcall ⊢
      exact hk.issued r c hcall
  cut r hnone := by
    rcases guarded_cases w h need k r with ⟨hok, heq⟩ | ⟨-, -, heq⟩ | ⟨-, -, heq⟩
    · rw [heq]
      exact hok
    · rw [heq] at hnone
      cases hnone
    · rw [heq] at hnone ⊢
      exact hk.cut r hnone
  bad r e herror := by
    rcases guarded_cases w h need k r with ⟨-, heq⟩ | ⟨-, -, heq⟩ | ⟨-, -, heq⟩
    · rw [heq] at herror
      cases herror
    · rw [heq] at herror
      cases herror
      rfl
    · rw [heq] at herror
      exact hk.bad r e herror

/-- Read bytes that may be missing.  Then the reader has failed, and what follows does nothing. -/
theorem Decoder.argBytes {k : Nat} {f : Option (List UInt8) → StateM DRReader (Decoded F)}
    (hsome : ∀ b, Decoder (f (some b)))
    (hnone : ∀ r : DRReader, r.ok = false → f none r = (.ok none, r)) :
    Decoder (bytes k >>= f) := by
  have hrun : ∀ r : DRReader, (bytes k >>= f) r = f (bytes k r).1 (bytes k r).2 := fun _ => rfl
  have hcases : ∀ r : DRReader, (∃ b, (bytes k r).1 = some b) ∨
      (bytes k r).1 = none ∧ (bytes k r).2.ok = false := by
    intro r
    rcases fetch_cases k none (fun p i => some ((p.drop i).take k)) r with
      ⟨-, -, heq⟩ | ⟨-, heq⟩
    · exact Or.inl ⟨(r.p.drop r.i).take k, congrArg Prod.fst heq⟩
    · exact Or.inr ⟨congrArg Prod.fst heq, congrArg (fun s => s.2.ok) heq⟩
  have hacc := accessor_bytes k
  constructor
  case steps =>
    intro r
    rw [hrun]
    rcases hcases r with ⟨b, hb⟩ | ⟨hb, hok⟩
    · rw [hb]
      exact (hacc.steps r).trans ((hsome b).steps _)
    · rw [hb, hnone _ hok]
      exact hacc.steps r
  case looks =>
    intro r q hq
    rw [hrun] at hq ⊢
    rw [hrun]
    rcases hcases r with ⟨b, hb⟩ | ⟨hb, hok⟩
    · rw [hb] at hq ⊢
      obtain ⟨hfirst, hrest⟩ := hq.split (hacc.steps r) ((hsome b).steps _)
      rw [hacc.looks r q hfirst, hb]
      exact (hsome b).looks _ q hrest
    · rw [hb, hnone _ hok] at hq ⊢
      rw [hacc.looks r q hq, hb]
      exact hnone { (bytes k r).2 with p := q } hok
  case grows =>
    intro r n c hn hcall
    rw [hrun] at hcall ⊢
    rw [hrun]
    rcases hcases r with ⟨b, hb⟩ | ⟨hb, hok⟩
    · rw [hb] at hcall ⊢
      have hok := ((hsome b).steps _).ok ((hsome b).issued _ c hcall)
      rw [hacc.grows r n hn hok, hb]
      refine (hsome b).grows _ n c ?_ hcall
      rw [(hacc.steps r).n]
      exact hn
    · rw [hb, hnone _ hok] at hcall
      cases hcall
  case issued =>
    intro r c hcall
    rw [hrun] at hcall ⊢
    rcases hcases r with ⟨b, hb⟩ | ⟨hb, hok⟩
    · rw [hb] at hcall ⊢
      exact (hsome b).issued _ c hcall
    · rw [hb, hnone _ hok] at hcall
      cases hcall
  case cut =>
    intro r hcall
    rw [hrun] at hcall ⊢
    rcases hcases r with ⟨b, hb⟩ | ⟨hb, hok⟩
    · rw [hb] at hcall ⊢
      exact (hsome b).cut _ hcall
    · rw [hb, hnone _ hok]
      exact hok
  case bad =>
    intro r e herror
    rw [hrun] at herror
    rcases hcases r with ⟨b, hb⟩ | ⟨hb, hok⟩
    · rw [hb] at herror
      exact (hsome b).bad _ e herror
    · rw [hb, hnone _ hok] at herror
      cases herror

/-- A call on bytes that may be missing. -/
theorem decoder_bytes_issue {k : Nat} (c : List UInt8 → GfxCall F) :
    Decoder (bytes k >>= fun b => issueBytes b c) :=
  .argBytes (fun b => decoder_issue (c b)) fun _ _ => rfl

theorem failed_bytes {r : DRReader} (hok : r.ok = false) (k : Nat) : bytes k r = (none, r) := by
  rcases fetch_cases k none (fun p i => some ((p.drop i).take k)) r with
    ⟨hok', -, -⟩ | ⟨-, heq⟩
  · exact absurd (hok.symm.trans hok') (by decide)
  · rw [bytes, heq, ← hok]

/-- Every case of the `switch` is a decoder. -/
theorem decoder_decodeCmd (fonts : Option (DRFontTable F)) :
    ∀ op : DROp, op ≠ .endOp → Decoder (decodeCmd fonts op)
  | .endOp, h => absurd rfl h
  | .drawPixel, _ => .arg accessor_i16 fun _ => .arg accessor_i16 fun _ =>
      .arg accessor_u32 fun _ => decoder_issue _
  | .fastVLine, _ => .arg accessor_i16 fun _ => .arg accessor_i16 fun _ =>
      .arg accessor_i16 fun _ => .arg accessor_u32 fun _ => decoder_issue _
  | .fastHLine, _ => .arg accessor_i16 fun _ => .arg accessor_i16 fun _ =>
      .arg accessor_i16 fun _ => .arg accessor_u32 fun _ => decoder_issue _
  | .line, _ => .arg accessor_i16 fun _ => .arg accessor_i16 fun _ => .arg accessor_i16 fun _ =>
      .arg accessor_i16 fun _ => .arg accessor_u32 fun _ => decoder_issue _
  | .rect, _ => .arg accessor_i16 fun _ => .arg accessor_i16 fun _ => .arg accessor_i16 fun _ =>
      .arg accessor_i16 fun _ => .arg accessor_u32 fun _ => decoder_issue _
  | .fillRect, _ => .arg accessor_i16 fun _ => .arg accessor_i16 fun _ =>
      .arg accessor_i16 fun _ => .arg accessor_i16 fun _ => .arg accessor_u32 fun _ =>
      decoder_issue _
  | .fillScreen, _ => .arg accessor_u32 fun _ => decoder_issue _
  | .circle, _ => .arg accessor_i16 fun _ => .arg accessor_i16 fun _ => .arg accessor_i16 fun _ =>
      .arg accessor_u32 fun _ => decoder_issue _
  | .fillCircle, _ => .arg accessor_i16 fun _ => .arg accessor_i16 fun _ =>
      .arg accessor_i16 fun _ => .arg accessor_u32 fun _ => decoder_issue _
  | .arc, _ => .arg accessor_i16 fun _ => .arg accessor_i16 fun _ => .arg accessor_i16 fun _ =>
      .arg accessor_f32 fun _ => .arg accessor_f32 fun _ => .arg accessor_u32 fun _ =>
      decoder_issue _
  | .roundRect, _ => .arg accessor_i16 fun _ => .arg accessor_i16 fun _ =>
      .arg accessor_i16 fun _ => .arg accessor_i16 fun _ => .arg accessor_i16 fun _ =>
      .arg accessor_u32 fun _ => decoder_issue _
  | .fillRoundRect, _ => .arg accessor_i16 fun _ => .arg accessor_i16 fun _ =>
      .arg accessor_i16 fun _ => .arg accessor_i16 fun _ => .arg accessor_i16 fun _ =>
      .arg accessor_u32 fun _ => decoder_issue _
  | .triangle, _ => .arg accessor_i16 fun _ => .arg accessor_i16 fun _ =>
      .arg accessor_i16 fun _ => .arg accessor_i16 fun _ => .arg accessor_i16 fun _ =>
      .arg accessor_i16 fun _ => .arg accessor_u32 fun _ => decoder_issue _
  | .fillTriangle, _ => .arg accessor_i16 fun _ => .arg accessor_i16 fun _ =>
      .arg accessor_i16 fun _ => .arg accessor_i16 fun _ => .arg accessor_i16 fun _ =>
      .arg accessor_i16 fun _ => .arg accessor_u32 fun _ => decoder_issue _
  | .setDrawStyle, _ => .arg accessor_u8 fun _ => .arg accessor_u8 fun _ =>
      .arg accessor_u8 fun _ => .arg accessor_flag fun _ => decoder_issue _
  | .setRotation, _ => .arg accessor_u8 fun _ => decoder_issue _
  | .invertDisplay, _ => .arg accessor_flag fun _ => decoder_issue _
  | .setCursor, _ => .arg accessor_i16 fun _ => .arg accessor_i16 fun _ => decoder_issue _
  | .setTextColor, _ => .arg accessor_u32 fun _ => .arg accessor_u32 fun _ => decoder_issue _
  | .setTextSize, _ => .arg accessor_u8 fun _ => .arg accessor_u8 fun _ => decoder_issue _
  | .setTextWrap, _ => .arg accessor_flag fun _ => decoder_issue _
  | .setTextRotation, _ => .arg accessor_u8 fun _ => decoder_issue _
  | .setFont, _ => .arg accessor_u8 fun _ => decoder_issue _
  | .writeText, _ => .arg accessor_u16 fun _ => decoder_bytes_issue _
  | .drawChar, _ => .arg accessor_i16 fun _ => .arg accessor_i16 fun _ => .arg accessor_u8 fun _ =>
      .arg accessor_u32 fun _ => .arg accessor_u32 fun _ => .arg accessor_u8 fun _ =>
      .arg accessor_u8 fun _ => decoder_issue _
  | .setText, _ => .arg accessor_i16 fun _ => .arg accessor_i16 fun _ => .arg accessor_u32 fun _ =>
      .arg accessor_u32 fun _ => .arg accessor_u8 fun _ => .arg accessor_u8 fun _ =>
      .arg accessor_u8 fun _ => .arg accessor_u8 fun _ => .arg accessor_u16 fun _ =>
      decoder_bytes_issue _
  | .bitmap1Bit, _ => .arg accessor_i16 fun _ => .arg accessor_i16 fun _ =>
      .arg accessor_i16 fun _ => .arg accessor_i16 fun _ => .arg accessor_u32 fun _ =>
      .arg accessor_u32 fun _ => decoder_guarded <| decoder_bytes_issue _
  | .xBitmap, _ => .arg accessor_i16 fun _ => .arg accessor_i16 fun _ => .arg accessor_i16 fun _ =>
      .arg accessor_i16 fun _ => .arg accessor_u32 fun _ => decoder_guarded <|
      decoder_bytes_issue _
  | .grayBitmap, _ => .arg accessor_i16 fun _ => .arg accessor_i16 fun _ =>
      .arg accessor_i16 fun _ => .arg accessor_i16 fun _ => decoder_guarded <|
      decoder_bytes_issue _
  | .grayBitmapMask, _ => .arg accessor_i16 fun _ => .arg accessor_i16 fun _ =>
      .arg accessor_i16 fun _ => .arg accessor_i16 fun _ => decoder_guarded <|
      .argBytes (fun _ => decoder_bytes_issue _) fun r hok => by
        show (Except.ok none, (bytes _ r).2) = (Except.ok none, r)
        rw [failed_bytes hok]
  | .rgbBitmap, _ => .arg accessor_i16 fun _ => .arg accessor_i16 fun _ =>
      .arg accessor_i16 fun _ => .arg accessor_i16 fun _ => decoder_guarded <|
      .arg (accessor_readN accessor_u32 _) fun _ => decoder_issue _
  | .rgbBitmapMask, _ => .arg accessor_i16 fun _ => .arg accessor_i16 fun _ =>
      .arg accessor_i16 fun _ => .arg accessor_i16 fun _ => decoder_guarded <|
      .arg (accessor_readN accessor_u32 _) fun _ => decoder_bytes_issue _
  | .rgb565Bitmap, _ => .arg accessor_i16 fun _ => .arg accessor_i16 fun _ =>
      .arg accessor_i16 fun _ => .arg accessor_i16 fun _ => decoder_guarded <|
      .arg (accessor_readN accessor_u16 _) fun _ => decoder_issue _
  | .bitmapTriangle, _ => .arg accessor_i16 fun _ => .arg accessor_i16 fun _ =>
      .arg accessor_i16 fun _ => .arg accessor_i16 fun _ => .arg accessor_i16 fun _ =>
      .arg accessor_i16 fun _ => .arg accessor_i16 fun _ => .arg accessor_i16 fun _ =>
      decoder_guarded <| .arg (accessor_readN accessor_u32 _) fun _ => decoder_issue _
  | .swapBuffers, _ => .arg accessor_flag fun _ => decoder_issue _

end MFoES.Libgfx
