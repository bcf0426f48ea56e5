import MFoES.Libgfx.StdFormats

/-!
# The output of the freestanding `vsnprintf`

Two kinds of conversions apart, the code prints what C does (`emitted_eq`).  The one kind prints
less than that, so it is seen in what is returned, and only there can it be.  The other one prints
as much, so it is seen where it begins in front of the end of the buffer.  `likeC_iff` says so for
every format.
-/

namespace MFoES.Libgfx.Freestanding

/-! ## What C prints -/

theorem padded_eq {s : List UInt8} (h : s.length < 2 ^ 31) (width : Int) (left : Bool)
    (padc : UInt8) :
    padded s width left padc =
      if left then s ++ List.replicate (width - s.length).toNat (byte ' ')
      else List.replicate (width - s.length).toNat padc ++ s := by
  have hpad : (if (s.length : Int) < width then width - s.length else 0).toNat =
      (width - s.length).toNat := by
    split
    · rfl
    · omega
  rw [padded, Int32.toInt_ofNat_of_lt h]
  simp only [hpad]

namespace Directive

variable {d : Directive}

theorem length_emitted (h : d.core.length < 2 ^ 31) :
    d.emitted.length = d.core.length + (d.width.value - d.core.length).toNat := by
  rw [emitted, padded_eq h]
  split
  · rw [List.length_append, List.length_replicate]
  · rw [List.length_append, List.length_replicate, Nat.add_comm]

theorem length_expected (d : Directive) :
    d.expected.length = d.core.length + (d.width.value.natAbs - d.core.length) := by
  simp only [expected, core]
  split
  · rw [List.length_append, List.length_replicate]
  · split
    · simp only [List.length_append, List.length_replicate]
      omega
    · simp only [List.length_append, List.length_replicate]
      omega

theorem length_core_le (d : Directive) : d.core.length ≤ d.expected.length := by
  rw [length_expected]
  exact Nat.le_add_right _ _

/-- A width that C can print fits. -/
theorem width_le (d : Directive) : d.width.value ≤ d.expected.length := by
  rw [length_expected]
  omega

theorem length_emitted_le (h : d.core.length < 2 ^ 31) :
    d.emitted.length ≤ d.expected.length := by
  rw [length_emitted h, length_expected]
  omega

/-- A width is missed in what is returned. -/
theorem length_emitted_eq_iff (h : d.core.length < 2 ^ 31) :
    d.emitted.length = d.expected.length ↔ ¬ d.Short := by
  rw [length_emitted h, length_expected, Short]
  omega

theorem expected_left (h : .minus ∈ d.flags ∨ d.width.value < 0) :
    d.expected =
      d.core ++ List.replicate (d.width.value.natAbs - d.core.length) (byte ' ') := if_pos h

theorem expected_zeros (h : ¬ (.minus ∈ d.flags ∨ d.width.value < 0))
    (hz : .zero ∈ d.flags ∧ d.conv.numeric = true) :
    d.expected = d.sign ++ List.replicate (d.width.value.natAbs - d.core.length) (byte '0') ++
      d.conv.body := (if_neg h).trans (if_pos hz)

theorem expected_spaces (h : ¬ (.minus ∈ d.flags ∨ d.width.value < 0))
    (hz : ¬ (.zero ∈ d.flags ∧ d.conv.numeric = true)) :
    d.expected = List.replicate (d.width.value.natAbs - d.core.length) (byte ' ') ++ d.core :=
  (if_neg h).trans (if_neg hz)

theorem emitted_left (h : d.core.length < 2 ^ 31) (hminus : .minus ∈ d.flags) :
    d.emitted =
      d.core ++ List.replicate (d.width.value - d.core.length).toNat (byte ' ') := by
  rw [emitted, padded_eq h, if_pos (decide_eq_true hminus)]

theorem emitted_right (h : d.core.length < 2 ^ 31) (hminus : .minus ∉ d.flags) :
    d.emitted = List.replicate (d.width.value - d.core.length).toNat
      (if .zero ∈ d.flags ∧ d.conv.numeric = true then byte '0' else byte ' ') ++ d.core := by
  rw [emitted, padded_eq h, if_neg (by simpa using hminus)]
  simp [hminus]

/-- Two kinds of conversions apart, the code prints what C does. -/
theorem emitted_eq (h : d.core.length < 2 ^ 31) (hshort : ¬ d.Short) (hsign : ¬ d.SignBehind) :
    d.emitted = d.expected := by
  rw [Short] at hshort
  have hpad : (d.width.value - d.core.length).toNat = d.width.value.natAbs - d.core.length := by
    omega
  by_cases hminus : .minus ∈ d.flags
  · rw [emitted_left h hminus, expected_left (.inl hminus), hpad]
  · rw [emitted_right h hminus, hpad]
    by_cases hneg : d.width.value < 0
    · have hnone : d.width.value.natAbs - d.core.length = 0 := by omega
      rw [expected_left (.inr hneg), hnone, List.replicate_zero, List.replicate_zero,
        List.nil_append, List.append_nil]
    · have hright := not_or_intro hminus hneg
      by_cases hzero : .zero ∈ d.flags ∧ d.conv.numeric = true
      · rw [expected_zeros hright hzero, if_pos hzero]
        by_cases hempty : d.sign = []
        · rw [core, hempty, List.nil_append, List.nil_append]
        · have hle : d.width.value ≤ d.core.length :=
            Int.not_lt.mp fun hlt => hsign ⟨hzero.1, hminus, hempty, hlt⟩
          have hnone : d.width.value.natAbs - d.core.length = 0 := by omega
          rw [hnone, List.replicate_zero, List.nil_append, List.append_nil, core]
      · rw [expected_spaces hright hzero, if_neg hzero]

/-- A sign is one byte, of a number. -/
theorem sign_cases (d : Directive) (h : d.sign ≠ []) :
    d.conv.numeric = true ∧ ∃ c, c ≠ byte '0' ∧ d.sign = [c] := by
  have hsign (v : Int32) (plus : Bool)
      (hne : (if v.toInt < 0 then [byte '-'] else if plus then [byte '+'] else []) ≠ []) :
      ∃ c, c ≠ byte '0' ∧
        (if v.toInt < 0 then [byte '-'] else if plus then [byte '+'] else []) = [c] := by
    split at hne
    · exact ⟨byte '-', by decide, by rw [if_pos ‹_›]⟩
    · split at hne
      · exact ⟨byte '+', by decide, by rw [if_neg ‹_›, if_pos ‹_›]⟩
      · exact absurd rfl hne
  rw [sign] at h ⊢
  cases hconv : d.conv with
  | d v =>
      rw [hconv] at h
      exact ⟨rfl, hsign v _ h⟩
  | i v =>
      rw [hconv] at h
      exact ⟨rfl, hsign v _ h⟩
  | _ =>
      rw [hconv] at h
      exact absurd rfl h

/-- A sign that stands behind the zeros is seen where the conversion begins. -/
theorem getElem_signBehind (h : d.core.length < 2 ^ 31) (hsign : d.SignBehind) :
    d.emitted[0]? ≠ d.expected[0]? ∧ d.expected ≠ [] := by
  obtain ⟨hzero, hminus, hne, hlt⟩ := hsign
  obtain ⟨hnum, c, hc, hsign⟩ := d.sign_cases hne
  obtain ⟨pad, hpad⟩ : ∃ pad, (d.width.value - d.core.length).toNat = pad + 1 :=
    ⟨(d.width.value - d.core.length).toNat - 1, by omega⟩
  have hemitted : d.emitted[0]? = some (byte '0') := by
    rw [emitted_right h hminus, hpad, if_pos ⟨hzero, hnum⟩]
    rfl
  have hexpected : d.expected[0]? = some c := by
    rw [expected_zeros (not_or_intro hminus (by omega)) ⟨hzero, hnum⟩, hsign]
    rfl
  refine ⟨?_, fun hnil => ?_⟩
  · rw [hemitted, hexpected]
    exact fun heq => hc (Option.some.inj heq).symm
  · rw [hnil] at hexpected
    cases hexpected

end Directive

namespace Item

variable {item : Item}

theorem length_emitted_le (h : item.expected.length < 2 ^ 31) :
    item.emitted.length ≤ item.expected.length := by
  cases item with
  | lit c _ _ => exact Nat.le_refl _
  | percent => exact Nat.le_refl _
  | conv d => exact d.length_emitted_le (Nat.lt_of_le_of_lt d.length_core_le h)

theorem length_emitted_eq_iff (h : item.expected.length < 2 ^ 31) :
    item.emitted.length = item.expected.length ↔ ¬ item.Short := by
  cases item with
  | lit c _ _ => exact iff_of_true rfl not_false
  | percent => exact iff_of_true rfl not_false
  | conv d => exact d.length_emitted_eq_iff (Nat.lt_of_le_of_lt d.length_core_le h)

theorem emitted_eq (h : item.expected.length < 2 ^ 31) (hshort : ¬ item.Short)
    (hsign : ¬ item.SignBehind) : item.emitted = item.expected := by
  cases item with
  | lit c _ _ => rfl
  | percent => rfl
  | conv d => exact d.emitted_eq (Nat.lt_of_le_of_lt d.length_core_le h) hshort hsign

theorem getElem_signBehind (h : item.expected.length < 2 ^ 31) (hsign : item.SignBehind) :
    item.emitted[0]? ≠ item.expected[0]? ∧ item.expected ≠ [] := by
  cases item with
  | lit c _ _ => exact hsign.elim
  | percent => exact hsign.elim
  | conv d => exact d.getElem_signBehind (Nat.lt_of_le_of_lt d.length_core_le h) hsign

end Item

/-- No more is printed than C prints, and so much if no width is missed. -/
theorem length_emittedAll {items : List Item} (h : (formatted items).length < 2 ^ 31) :
    (emittedAll items).length ≤ (formatted items).length ∧
      ((emittedAll items).length = (formatted items).length ↔ ∀ item ∈ items, ¬ item.Short) := by
  induction items with
  | nil => exact ⟨Nat.le_refl 0, iff_of_true rfl fun item h => absurd h List.not_mem_nil⟩
  | cons item items ih =>
      rw [formatted, List.flatMap_cons, List.length_append, ← formatted] at h ⊢
      obtain ⟨hle, hiff⟩ := ih (by omega)
      have hitem : item.emitted.length ≤ item.expected.length := Item.length_emitted_le (by omega)
      rw [emittedAll, List.flatMap_cons, List.length_append, ← emittedAll, List.forall_mem_cons,
        ← hiff, ← Item.length_emitted_eq_iff (by omega)]
      omega

/-- Where no width is missed, and no sign that stands behind its zeros begins in front of `n`, the
first `n` bytes are those of C. -/
theorem getElem_emittedAll {items : List Item} {n : Nat} (h : (formatted items).length < 2 ^ 31)
    (hshort : ∀ item ∈ items, ¬ item.Short)
    (hsign : ∀ before item after, items = before ++ item :: after → item.SignBehind →
      n ≤ (formatted before).length) {i : Nat} (hi : i < n) :
    (emittedAll items)[i]? = (formatted items)[i]? := by
  induction items generalizing n i with
  | nil => rfl
  | cons item items ih =>
      rw [formatted, List.flatMap_cons, List.length_append, ← formatted] at h
      have hlen := (Item.length_emitted_eq_iff (by omega)).mpr (hshort item List.mem_cons_self)
      rw [emittedAll, formatted, List.flatMap_cons, List.flatMap_cons, ← emittedAll, ← formatted]
      rcases Nat.lt_or_ge i item.expected.length with hlt | hge
      · have hnot : ¬ item.SignBehind := fun hs => by
          have hle := hsign [] item items rfl hs
          exact absurd hi (Nat.not_lt_of_le (Nat.le_trans hle (Nat.zero_le i)))
        rw [Item.emitted_eq (by omega) (hshort item List.mem_cons_self) hnot,
          List.getElem?_append_left hlt, List.getElem?_append_left hlt]
      · rw [List.getElem?_append_right (by omega), List.getElem?_append_right hge, hlen]
        have hn : i - item.expected.length < n - item.expected.length := by omega
        refine ih (by omega) (fun item' h' => hshort item' (List.mem_cons_of_mem _ h')) ?_ hn
        intro before item' after hitems hs
        have hle := hsign (item :: before) item' after (by rw [hitems]; rfl) hs
        rw [formatted, List.flatMap_cons, List.length_append, ← formatted] at hle
        omega

/-- A sign that stands behind its zeros is seen where the conversion begins. -/
theorem signBehind_differs {before behind : List Item} {item : Item}
    (h : (formatted (before ++ item :: behind)).length < 2 ^ 31)
    (hshort : ∀ item' ∈ before ++ item :: behind, ¬ item'.Short) (hsign : item.SignBehind) :
    (formatted before).length < (formatted (before ++ item :: behind)).length ∧
      (emittedAll (before ++ item :: behind))[(formatted before).length]? ≠
        (formatted (before ++ item :: behind))[(formatted before).length]? := by
  have hexpected : formatted (before ++ item :: behind) =
      formatted before ++ (item.expected ++ formatted behind) := by
    rw [formatted, List.flatMap_append, List.flatMap_cons]
    rfl
  have hemitted : emittedAll (before ++ item :: behind) =
      emittedAll before ++ (item.emitted ++ emittedAll behind) := by
    rw [emittedAll, List.flatMap_append, List.flatMap_cons]
    rfl
  have hshort' := List.forall_mem_append.mp hshort
  rw [hexpected, List.length_append, List.length_append] at h
  obtain ⟨hne, hnil⟩ := Item.getElem_signBehind (by omega) hsign
  have hpos := List.length_pos_iff.mpr hnil
  have hitem : item.emitted.length = item.expected.length :=
    (Item.length_emitted_eq_iff (by omega)).mpr (hshort'.2 item List.mem_cons_self)
  have hbefore : (emittedAll before).length = (formatted before).length :=
    (length_emittedAll (by omega)).2.mpr hshort'.1
  rw [hexpected, hemitted, List.length_append, List.length_append]
  refine ⟨by omega, ?_⟩
  rw [List.getElem?_append_right (Nat.le_of_eq hbefore), List.getElem?_append_right (Nat.le_refl _),
    hbefore, Nat.sub_self, List.getElem?_append_left (by omega), List.getElem?_append_left hpos]
  exact hne

/-! ## `vsnprintf` -/

/-- What `vsnprintf` is to leave and to return, where the output is `out`. -/
structure Printed (buf : Nat → UInt8) (size : UInt32) (out : List UInt8) (after : Nat → UInt8)
    (ret : Int32) : Prop where
  /-- The length is that of all of it. -/
  length : ret.toInt = out.length
  /-- As much as there is room for in front of a NUL. -/
  text : ∀ i, i + 1 < size.toNat → i < out.length → some (after i) = out[i]?
  terminated : size ≠ 0 → after (min out.length (size.toNat - 1)) = 0
  /-- Nothing is written outside of the buffer. -/
  outside : ∀ i, size.toNat ≤ i → after i = buf i

/-- `vsnprintf` prints what C does. -/
def LikeC (buf : Nat → UInt8) (size : UInt32) (items : List Item) : Prop :=
  ∃ (after : Nat → UInt8) (ret : Int32),
    vsnprintf buf size (formatText items) (formatArgs items) = some (after, ret) ∧
      Printed buf size (formatted items) after ret

theorem toInt_toInt32 {n : UInt32} (h : n.toNat < 2 ^ 31) : n.toInt32.toInt = n.toNat :=
  BitVec.toInt_eq_toNat_of_lt (by
    show 2 * n.toNat < 2 ^ 32
    omega)

/-- Output that can be counted is printed. -/
theorem printed_putAll (buf : Nat → UInt8) (size : UInt32) {text : List UInt8}
    (h : text.length < 2 ^ 31) :
    let o := ({ buf, size } : Out).putAll text
    Printed buf size text
      (if size = 0 then o.buf
        else Function.update o.buf (if o.len < size then o.len else size - 1).toNat 0)
      o.len.toInt32 := by
  have hzero : ({ buf, size } : Out).len.toNat = 0 := rfl
  have hcount : ({ buf, size } : Out).len.toNat + text.length < 2 ^ 32 := by omega
  have hlen := Out.putAll_len hcount
  have hbuf := Out.putAll_buf hcount
  rw [hzero, Nat.zero_add] at hlen
  simp only [hzero, Nat.zero_le, true_and, Nat.sub_zero] at hbuf
  intro o
  have hreturned : o.len.toInt32.toInt = text.length := by
    rw [toInt_toInt32 (by rw [hlen]; exact h), hlen]
  by_cases hsize : size = 0
  · have hnone : size.toNat = 0 := by rw [hsize]; rfl
    rw [if_pos hsize]
    refine ⟨hreturned, fun i hi => by omega, fun hne => absurd hsize hne, fun i _ => ?_⟩
    rw [hbuf, if_neg (by omega)]
  · have hpos : 0 < size.toNat := Nat.pos_of_ne_zero fun hn => hsize (UInt32.toNat_inj.mp hn)
    have hindex : (if o.len < size then o.len else size - 1).toNat =
        min text.length (size.toNat - 1) := by
      split
      · rename_i hlt
        rw [UInt32.lt_iff_toNat_lt, hlen] at hlt
        rw [hlen]
        omega
      · rename_i hge
        rw [UInt32.lt_iff_toNat_lt, hlen] at hge
        have hone : (1 : UInt32) ≤ size := UInt32.le_iff_toNat_le.mpr hpos
        rw [UInt32.toNat_sub_of_le _ _ hone, UInt32.toNat_one]
        omega
    rw [if_neg hsize, hindex]
    refine ⟨hreturned, fun i hi hit => ?_, fun _ => Function.update_self _ _ _, fun i hi => ?_⟩
    · rw [Function.update_of_ne (by omega), hbuf, if_pos hi, List.getElem?_eq_getElem hit,
        Option.getD_some]
    · rw [Function.update_of_ne (by omega), hbuf, if_neg (by omega)]

theorem vsnprintf_items {items : List Item} (hfits : ∀ item ∈ items, item.Fits)
    (hlen : (emittedAll items).length < 2 ^ 31) (buf : Nat → UInt8) (size : UInt32) :
    ∃ (after : Nat → UInt8) (ret : Int32),
      vsnprintf buf size (formatText items) (formatArgs items) = some (after, ret) ∧
        Printed buf size (emittedAll items) after ret := by
  refine ⟨_, _, ?_, printed_putAll buf size hlen⟩
  rw [vsnprintf, formatLoop_items (Nat.le_refl _) hfits]
  rfl

theorem vsnprintf_overflow {items : List Item} (hfits : ¬ ∀ item ∈ items, item.Fits)
    (buf : Nat → UInt8) (size : UInt32) :
    vsnprintf buf size (formatText items) (formatArgs items) = none := by
  rw [vsnprintf, formatLoop_overflow (Nat.le_refl _) hfits]
  rfl

/-- Output is as C prints it exactly if all of it can be counted, the digits of every precision are
those of an `int`, no negative width of `*` is to be padded, and a sign that is to stand in front of
zeros is not in the part of the output that the buffer has room for. -/
theorem likeC_iff (buf : Nat → UInt8) (size : UInt32) (items : List Item) :
    LikeC buf size items ↔
      (formatted items).length < 2 ^ 31 ∧ (∀ item ∈ items, item.Fits ∧ ¬ item.Short) ∧
        ∀ before item after, items = before ++ item :: after → item.SignBehind →
          size.toNat ≤ (formatted before).length + 1 := by
  constructor
  · rintro ⟨after, ret, hrun, hprinted⟩
    have hlen : (formatted items).length < 2 ^ 31 := by
      have hret := hprinted.length
      have hlt := ret.toInt_lt
      omega
    have hfits : ∀ item ∈ items, item.Fits := by
      by_contra hfits
      rw [vsnprintf_overflow hfits] at hrun
      cases hrun
    obtain ⟨hle, hiff⟩ := length_emittedAll hlen
    obtain ⟨after', ret', hrun', hemitted⟩ := vsnprintf_items hfits (by omega) buf size
    rw [hrun] at hrun'
    cases hrun'
    have heq : (emittedAll items).length = (formatted items).length := by
      have hret := hprinted.length
      have hret' := hemitted.length
      omega
    have hshort := hiff.mp heq
    refine ⟨hlen, fun item hitem => ⟨hfits item hitem, hshort item hitem⟩, ?_⟩
    rintro before item behind rfl hsign
    by_contra hroom
    obtain ⟨hlt, hne⟩ := signBehind_differs hlen hshort hsign
    rw [← hprinted.text _ (by omega) hlt, ← hemitted.text _ (by omega) (by omega)] at hne
    exact hne rfl
  · rintro ⟨hlen, hitems, hsign⟩
    obtain ⟨hle, hiff⟩ := length_emittedAll hlen
    have hshort : ∀ item ∈ items, ¬ item.Short := fun item h => (hitems item h).2
    have heq := hiff.mpr hshort
    obtain ⟨after, ret, hrun, hemitted⟩ :=
      vsnprintf_items (fun item h => (hitems item h).1) (by omega) buf size
    refine ⟨after, ret, hrun, heq ▸ hemitted.length, fun i hi hit => ?_, ?_, hemitted.outside⟩
    · rw [hemitted.text i hi (by omega)]
      refine getElem_emittedAll hlen hshort (n := size.toNat - 1) ?_ (by omega)
      intro before item behind hsplit hs
      have hle := hsign before item behind hsplit hs
      omega
    · rw [← heq]
      exact hemitted.terminated

/-- `%05d` of -42 gives `00-42`. -/
theorem not_likeC :
    ¬ LikeC (fun _ => 0) 16 [.conv ⟨[.zero], .digits 4 [], .d (-42)⟩] := by
  rintro ⟨after, ret, hrun, hprinted⟩
  have hfirst : (vsnprintf (fun _ => 0) 16
      (formatText [.conv ⟨[.zero], .digits 4 [], .d (-42)⟩])
      (formatArgs [.conv ⟨[.zero], .digits 4 [], .d (-42)⟩])).map (fun left => left.1 0) =
        some (byte '0') := by decide
  have htext := hprinted.text 0 (by decide) (by decide)
  rw [hrun] at hfirst
  exact absurd (hfirst.symm.trans htext) (by decide)

end MFoES.Libgfx.Freestanding
