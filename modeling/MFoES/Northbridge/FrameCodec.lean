import MFoES.Northbridge.Frame

/-!
# The frame codec of host and firmware

What one side builds, the other reads.  Only the firmware passes flags of its own to
its encoder.  It ors the `MORE` bit into them, so a reader cannot tell a `MORE` that
was asked for from one that stood in the flags (`codec_agrees`).
-/

namespace MFoES.Northbridge

/-! ## Agreement -/

theorem ofNat_length_le {payload : List UInt8} (h : payload.length ≤ 58) :
    (UInt8.ofNat payload.length).toNat ≤ 58 := by
  rw [UInt8.toNat_ofNat_of_lt' (Nat.lt_of_le_of_lt h (by decide))]
  exact h

/-- The host's decoder on a frame with the host's magic. -/
theorem Link.parse_putFrame {type flags : UInt8} {payload : List UInt8} (htype : type ≠ kTypeIdle)
    (hlen : payload.length ≤ kPayloadMax) :
    Link.parse (putFrame kMagic type (UInt8.ofNat payload.length) flags payload) =
      .frame (decide (flags &&& kFlagMore ≠ 0)) ⟨type, UInt8.ofNat payload.length, flags,
        payloadOf (putFrame kMagic type (UInt8.ofNat payload.length) flags payload)⟩ := by
  obtain ⟨hmagic, htyp, hl, hflags⟩ :=
    getElem_putFrame kMagic type (UInt8.ofNat payload.length) flags payload
  have hle := ofNat_length_le hlen
  have hok : ¬ (kMagic ≠ kMagic ∨ kPayloadMax < (UInt8.ofNat payload.length).toNat) := by
    rintro (h | h)
    · exact h rfl
    · rw [kPayloadMax] at h
      omega
  rw [Link.parse, hmagic, htyp, hl, hflags, if_neg hok,
    if_neg (not_not.mpr (crc_putFrame _ _ _ _ _))]
  simp only [if_neg htype]

/-- The firmware's decoder on a frame with the firmware's magic. -/
theorem Dspi.validate_putFrame {type flags : UInt8} {payload : List UInt8}
    (htype : type ≠ dspiTypeIdle) (hlen : payload.length ≤ dspiPayloadMax) :
    Dspi.validate (putFrame dspiMagic type (UInt8.ofNat payload.length) flags payload) =
      .message ⟨type, UInt8.ofNat payload.length, flags,
        payloadOf (putFrame dspiMagic type (UInt8.ofNat payload.length) flags payload)⟩ := by
  obtain ⟨hmagic, htyp, hl, hflags⟩ :=
    getElem_putFrame dspiMagic type (UInt8.ofNat payload.length) flags payload
  rw [Dspi.validate, hmagic, htyp, hl, hflags, if_pos ⟨rfl, ofNat_length_le hlen⟩,
    if_pos (crc_putFrame _ _ _ _ _), if_pos htype]

/-- The `MORE` bit of flags that `MORE` was ored into. -/
theorem more_or (flags : UInt8) (more : Bool) :
    ((flags ||| if more then Dspi.dspiFlagMore else 0) &&& Link.kFlagMore ≠ 0) ↔
      more = true ∨ flags &&& Link.kFlagMore ≠ 0 := by
  cases more with
  | false => simp
  | true =>
      have habsorb : (flags ||| Dspi.dspiFlagMore) &&& Link.kFlagMore = Link.kFlagMore := by
        apply UInt8.toBitVec_inj.mp
        simp only [UInt8.toBitVec_and, UInt8.toBitVec_or]
        ext i hi
        simp only [BitVec.getElem_and, BitVec.getElem_or, Link.kFlagMore, Dspi.dspiFlagMore]
        cases (UInt8.toBitVec 1)[i] <;> simp
      rw [if_pos rfl, habsorb]
      exact ⟨fun _ => Or.inl rfl, fun _ => by decide⟩

/-- The payload that a side sent, as the other side reads it. -/
def ReadsBack (payload : List UInt8) (len : UInt8) (read : Vector UInt8 58) : Prop :=
  len.toNat = payload.length ∧ read.toList.take len.toNat = payload

theorem readsBack_payloadOf (magic type flags : UInt8) {payload : List UInt8}
    (h : payload.length ≤ 58) :
    ReadsBack payload (UInt8.ofNat payload.length)
      (payloadOf (putFrame magic type (UInt8.ofNat payload.length) flags payload)) := by
  have hlen : (UInt8.ofNat payload.length).toNat = payload.length :=
    UInt8.toNat_ofNat_of_lt' (Nat.lt_of_le_of_lt h (by decide))
  refine ⟨hlen, ?_⟩
  rw [payloadOf_putFrame magic type flags h, hlen, List.take_left]

/-- Each side reads what the other wrote.  The flags that the host reads are
those of the firmware with the `MORE` bit put in, and `MORE` is read off them. -/
theorem codec_agrees {type : UInt8} {payload : List UInt8} (flags : UInt8) (more : Bool)
    (htype : type ≠ Link.kTypeIdle) (hlen : payload.length ≤ Link.kPayloadMax) :
    (∃ msg, Dspi.validate (Link.buildFrame type payload (UInt8.ofNat payload.length) more) =
        .message msg ∧
      msg.type = type ∧ ReadsBack payload msg.len msg.payload ∧
      (msg.flags &&& Dspi.dspiFlagMore ≠ 0 ↔ more = true)) ∧
    (∃ peerMore f, Link.parse
        (Dspi.buildFrame type payload (UInt8.ofNat payload.length) more flags) =
        .frame peerMore f ∧
      f.type = type ∧ ReadsBack payload f.len f.payload ∧
      f.flags = flags ||| (if more then Dspi.dspiFlagMore else 0) ∧
      (peerMore = true ↔ more = true ∨ flags &&& Link.kFlagMore ≠ 0)) := by
  constructor
  · refine ⟨_, Dspi.validate_putFrame htype hlen, rfl, readsBack_payloadOf _ _ _ hlen, ?_⟩
    change (if more then Link.kFlagMore else 0) &&& Dspi.dspiFlagMore ≠ 0 ↔ more = true
    cases more with
    | false => decide
    | true => decide
  · refine ⟨_, _, Link.parse_putFrame htype hlen, rfl, readsBack_payloadOf _ _ _ hlen, rfl, ?_⟩
    rw [decide_eq_true_eq]
    exact more_or flags more

/-- A reply of one byte. -/
theorem codec_agrees_reply :
    ∃ peerMore f, Link.parse (Dspi.buildFrame 1 [7] 1 true 2) = .frame peerMore f ∧
      f.type = 1 ∧ ReadsBack [7] f.len f.payload ∧ f.flags = 3 ∧ peerMore = true := by
  obtain ⟨-, peerMore, f, hparse, htype, hread, hflags, hmore⟩ :=
    codec_agrees 2 true (show (1 : UInt8) ≠ Link.kTypeIdle by decide)
      (show [(7 : UInt8)].length ≤ Link.kPayloadMax by decide)
  exact ⟨peerMore, f, hparse, htype, hread, hflags, hmore.mpr (Or.inl rfl)⟩

/-- With the `MORE` bit in the flags the host reads `MORE` that was not asked
for. -/
theorem codec_agrees_more :
    ¬ ∃ f, Link.parse (Dspi.buildFrame 1 [] 0 false 1) = .frame false f := by
  rintro ⟨f, hf⟩
  have hparse := @Link.parse_putFrame 1 1 [] (by decide) (by decide)
  have hbuild : Dspi.buildFrame 1 [] 0 false 1 = putFrame Link.kMagic 1 0 1 [] := rfl
  rw [hbuild] at hf
  cases hparse.symm.trans hf

end MFoES.Northbridge
