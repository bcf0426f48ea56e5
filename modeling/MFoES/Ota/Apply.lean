import MFoES.Ota.Session

/-!
# When an update is applied

`apply_update` is meant for a transfer that the host has ended: after OTA_BEGIN and
OTA_END, with as many chunks as were announced and the sum that was announced
(`Ended`).  The receive loop has one exit for OTA_END, for a failed receive and for
a lost connection, so a transfer that breaks off behind its last chunk is applied
too; and the count of the chunks is a word that wraps.

`Safe` excludes just these steps (`run_applies`).
-/

namespace MFoES.Ota

open LittleEndian

namespace Session

/-- The accepted chunks, in the order they were written. -/
def written (acts : List Act) : List (List UInt8) :=
  acts.filterMap fun
    | .wrote bs => some bs
    | _ => none

@[simp] theorem written_append (acts acts' : List Act) :
    written (acts ++ acts') = written acts ++ written acts' := List.filterMap_append

/-- Behind the events `es`, in which the session did `acts`, the event `e` ends the
transfer of `zip`. -/
def Ended (env : Env) (es : List Event) (acts : List Act) (e : Event) (zip : List UInt8) : Prop :=
  ∃ (pb pe : OtaPacket) (rest : List Event),
    es = .packet pb :: rest ∧ pb.type = otaBegin ∧ e = .packet pe ∧ pe.type = otaEnd ∧
      (written acts).length = (get32 pb.payload 0).toNat ∧
        zip = (written acts).flatten ∧ (env.md5 zip).val = (pb.payload.drop 12).take 16

/-- Wherever a run applies an update, it is one that the host has ended. -/
def AppliesEnded (env : Env) (mem : Memory) (es : List Event) : Prop :=
  ∀ es₁ e es₂, es = es₁ ++ e :: es₂ → ∀ zip,
    .applied zip ∈ (((start mem).run env es₁).1.step env e).2 →
      Ended env es₁ ((start mem).run env es₁).2 e zip

/-- The receive loop is not left behind a complete transfer but by OTA_END, and then
fewer than 2³² chunks were accepted. -/
def Safe (env : Env) (s : Session) (e : Event) : Prop :=
  ∀ b n w, s.phase = .receiving b n w → n = b.totalParts → Verified env b w →
    match e with
    | .packet pkt => pkt.type = otaEnd → w.length < 2 ^ 32
    | .recvFailed | .stopped => False

/-! ## The step that applies -/

theorem applied_mem_finish {env : Env} {b : Begin} {n : UInt32} {w : List (List UInt8)}
    {zip : List UInt8} :
    .applied zip ∈ finish env b n w ↔ n = b.totalParts ∧ Verified env b w ∧ zip = w.flatten := by
  rw [finish]
  by_cases hn : n = b.totalParts
  · rw [if_neg (not_not.mpr hn)]
    by_cases hv : Verified env b w
    · rw [if_neg (not_not.mpr hv)]
      cases env.applyUpdate <;> simp [sendAck, hn, hv]
    · rw [if_pos hv]
      simp [sendNak, hv]
  · rw [if_pos hn]
    simp [hn]

/-- Before the loop nothing is written or applied, and the loop is entered with the
fields of OTA_BEGIN. -/
theorem beginStep_spec (env : Env) (pkt : OtaPacket) :
    (∀ a ∈ (beginStep env pkt).2, a = .cleaned ∨ ∃ msg, a = .sent msg) ∧
      ((beginStep env pkt).1 = .returned ∨
        pkt.type = otaBegin ∧ (beginStep env pkt).1 = .receiving (parseBegin pkt.payload) 0 []) := by
  simp only [beginStep]
  by_cases htype : pkt.type = otaBegin
  · rw [if_neg (not_not.mpr htype)]
    split_ifs <;> simp [sendAck, sendNak, htype]
  · rw [if_pos htype]
    exact ⟨fun a ha => absurd ha List.not_mem_nil, Or.inl rfl⟩

/-- A chunk is refused, or written and counted. -/
theorem chunkStep_spec (env : Env) (mem : Memory) (b : Begin) (n : UInt32)
    (w : List (List UInt8)) :
    (∀ zip, .applied zip ∉ (chunkStep env mem b n w).2) ∧
      ((chunkStep env mem b n w).1 = .returned ∨
        ∃ data, (chunkStep env mem b n w).1 = .receiving b (n + 1) (w ++ [data]) ∧
          written (chunkStep env mem b n w).2 = [data]) := by
  simp only [chunkStep]
  by_cases hmd5 : (env.md5 (mem.read 24 (mem.get32 4).toNat)).val ≠ mem.read 8 16
  · rw [if_pos hmd5]
    refine ⟨fun zip => ?_, Or.inl rfl⟩
    simp [sendNak]
  · rw [if_neg hmd5]
    refine ⟨fun zip => ?_, Or.inr ⟨_, rfl, rfl⟩⟩
    simp [sendAck]

theorem applied_mem_loopStep {env : Env} {mem : Memory} {b : Begin} {n : UInt32}
    {w : List (List UInt8)} {type : UInt8} {zip : List UInt8} :
    .applied zip ∈ (loopStep env mem b n w type).2 ↔
      type = otaEnd ∧ .applied zip ∈ finish env b n w := by
  rw [loopStep]
  by_cases habort : type = otaAbort
  · rw [if_pos habort, habort]
    simp [otaAbort, otaEnd]
  · rw [if_neg habort]
    by_cases hend : type = otaEnd
    · rw [if_pos hend]
      exact (and_iff_right hend).symm
    · rw [if_neg hend, iff_false_intro fun h : type = otaEnd ∧ _ => hend h.1, iff_false]
      by_cases hchunk : type ≠ otaChunk
      · rw [if_pos hchunk]
        exact List.not_mem_nil
      · rw [if_neg hchunk]
        exact (chunkStep_spec env mem b n w).1 zip

/-- Whether an event ends the receive loop with the checks behind it. -/
def Leaves : Event → Prop
  | .packet pkt => pkt.type = otaEnd
  | .recvFailed | .stopped => True

/-- An update is applied where the loop is left behind a complete transfer. -/
theorem applied_mem_step {env : Env} {s : Session} {e : Event} {zip : List UInt8} :
    .applied zip ∈ (s.step env e).2 ↔ ∃ b n w, s.phase = .receiving b n w ∧ Leaves e ∧
      n = b.totalParts ∧ Verified env b w ∧ zip = w.flatten := by
  cases hphase : s.phase with
  | waitBegin =>
      have hnot : .applied zip ∉ (s.step env e).2 := by
        cases e with
        | packet pkt =>
            intro hmem
            simp only [step, hphase] at hmem
            rcases (beginStep_spec env pkt).1 _ hmem with h | ⟨msg, h⟩ <;> cases h
        | recvFailed => simp [step, hphase]
        | stopped => simp [step, hphase]
      refine iff_of_false hnot ?_
      rintro ⟨_, _, _, h, -⟩
      cases h
  | receiving b n w =>
      have hacts : .applied zip ∈ (s.step env e).2 ↔
          Leaves e ∧ .applied zip ∈ finish env b n w := by
        cases e with
        | packet pkt =>
            simp only [step, hphase]
            exact applied_mem_loopStep
        | recvFailed => simp [step, hphase, Leaves]
        | stopped => simp [step, hphase, Leaves]
      rw [hacts, applied_mem_finish]
      constructor
      · rintro ⟨hleaves, hn, hv, hzip⟩
        exact ⟨b, n, w, rfl, hleaves, hn, hv, hzip⟩
      · rintro ⟨_, _, _, heq, hleaves, hn, hv, hzip⟩
        cases heq
        exact ⟨hleaves, hn, hv, hzip⟩
  | returned =>
      have hnot : .applied zip ∉ (s.step env e).2 := by
        cases e <;> simp [step, hphase]
      refine iff_of_false hnot ?_
      rintro ⟨_, _, _, h, -⟩
      cases h

/-! ## What the receive loop has -/

/-- What holds behind the events `es`, in which the session did `acts`. -/
def Inv (es : List Event) (acts : List Act) (s : Session) : Prop :=
  match s.phase with
  | .waitBegin => es = [] ∧ acts = []
  | .receiving b n w => ∃ (pb : OtaPacket) (rest : List Event),
      es = .packet pb :: rest ∧ pb.type = otaBegin ∧ b = parseBegin pb.payload ∧
        n = UInt32.ofNat w.length ∧ written acts = w
  | .returned => True

theorem inv_of_returned {es : List Event} {acts : List Act} {s : Session}
    (h : s.phase = .returned) : Inv es acts s := by
  rw [Inv, h]
  trivial

theorem written_of_sent {acts : List Act} (h : ∀ a ∈ acts, a = .cleaned ∨ ∃ msg, a = .sent msg) :
    written acts = [] := by
  refine List.filterMap_eq_nil_iff.mpr fun a ha => ?_
  rcases h a ha with rfl | ⟨msg, rfl⟩ <;> rfl

theorem Inv.step (env : Env) {es : List Event} {acts : List Act} {s : Session} (h : Inv es acts s)
    (e : Event) : Inv (es ++ [e]) (acts ++ (s.step env e).2) (s.step env e).1 := by
  cases hphase : s.phase with
  | waitBegin =>
      rw [Inv, hphase] at h
      obtain ⟨rfl, rfl⟩ := h
      cases e with
      | packet pkt =>
          obtain ⟨hacts, hend | ⟨htype, hnext⟩⟩ := beginStep_spec env pkt
          · refine inv_of_returned ?_
            simp only [Session.step, hphase]
            exact hend
          · rw [Inv, List.nil_append, List.nil_append]
            simp only [Session.step, hphase, hnext]
            exact ⟨pkt, [], rfl, htype, rfl, rfl, written_of_sent hacts⟩
      | recvFailed => exact inv_of_returned (by simp only [Session.step, hphase])
      | stopped => exact inv_of_returned (by simp only [Session.step, hphase])
  | receiving b n w =>
      rw [Inv, hphase] at h
      obtain ⟨pb, rest, rfl, htype, hb, hn, hw⟩ := h
      cases e with
      | packet pkt =>
          by_cases hchunk : pkt.type = otaChunk
          · have hstep : s.step env (.packet pkt) =
                (⟨(chunkStep env (s.mem.write pkt.payload) b n w).1, s.mem.write pkt.payload⟩,
                  (chunkStep env (s.mem.write pkt.payload) b n w).2) := by
              rw [Session.step, hphase, hchunk]
              rfl
            rw [hstep]
            obtain ⟨-, hend | ⟨data, hnext, hdata⟩⟩ :=
              chunkStep_spec env (s.mem.write pkt.payload) b n w
            · exact inv_of_returned hend
            · rw [Inv]
              simp only [hnext]
              refine ⟨pb, rest ++ [.packet pkt], rfl, htype, hb, ?_, ?_⟩
              · rw [hn, List.length_append, List.length_singleton, UInt32.ofNat_add]
                rfl
              · rw [written_append, hw, hdata]
          · have hstep : s.step env (.packet pkt) =
                (⟨(loopStep env (s.mem.write pkt.payload) b n w pkt.type).1,
                  s.mem.write pkt.payload⟩,
                  (loopStep env (s.mem.write pkt.payload) b n w pkt.type).2) := by
              rw [Session.step, hphase]
            rw [hstep]
            by_cases hleave : pkt.type = otaAbort ∨ pkt.type = otaEnd
            · refine inv_of_returned ?_
              rcases hleave with h | h <;> rw [h] <;> rfl
            · have hstay : loopStep env (s.mem.write pkt.payload) b n w pkt.type =
                  (.receiving b n w, []) := by
                rw [loopStep, if_neg fun h => hleave (Or.inl h), if_neg fun h => hleave (Or.inr h),
                  if_pos hchunk]
              rw [hstay, Inv, List.append_nil]
              exact ⟨pb, rest ++ [.packet pkt], rfl, htype, hb, hn, hw⟩
      | recvFailed => exact inv_of_returned (by simp only [Session.step, hphase])
      | stopped => exact inv_of_returned (by simp only [Session.step, hphase])
  | returned =>
      refine inv_of_returned ?_
      cases e <;> simp only [Session.step, hphase]

theorem Inv.run {env : Env} {fs : List Event} : ∀ {es : List Event} {acts : List Act} {s : Session},
    Inv es acts s → Inv (es ++ fs) (acts ++ (s.run env fs).2) (s.run env fs).1 := by
  induction fs with
  | nil =>
      intro es acts s h
      rw [Session.run, List.append_nil, List.append_nil]
      exact h
  | cons e fs ih =>
      intro es acts s h
      have hrest := ih (h.step env e)
      rw [List.append_assoc, List.append_assoc, List.singleton_append] at hrest
      exact hrest

theorem inv_run (env : Env) (mem : Memory) (es : List Event) :
    Inv es ((start mem).run env es).2 ((start mem).run env es).1 :=
  Inv.run (show Inv [] [] (start mem) from ⟨rfl, rfl⟩)

/-! ## The runs that apply only what was ended -/

/-- At one step: it applies only what the host has ended exactly when it is safe. -/
theorem ended_iff_safe {env : Env} {es : List Event} {acts : List Act} {s : Session}
    (h : Inv es acts s) (e : Event) :
    (∀ zip, .applied zip ∈ (s.step env e).2 → Ended env es acts e zip) ↔ Safe env s e := by
  constructor
  · intro happly b n w hphase hn hv
    rw [Inv, hphase] at h
    obtain ⟨pb, rest, hes, htype, hb, hcount, hw⟩ := h
    have hended : Leaves e → Ended env es acts e w.flatten := fun hleaves =>
      happly _ (applied_mem_step.mpr ⟨b, n, w, hphase, hleaves, hn, hv, rfl⟩)
    cases e with
    | packet pkt =>
        intro hend
        obtain ⟨pb', pe, rest', hes', -, -, -, hlen, -⟩ := hended hend
        rw [hes] at hes'
        cases hes'
        rw [hw] at hlen
        rw [hlen]
        exact UInt32.toNat_lt _
    | recvFailed =>
        obtain ⟨-, pe, -, -, -, heq, -⟩ := hended trivial
        cases heq
    | stopped =>
        obtain ⟨-, pe, -, -, -, heq, -⟩ := hended trivial
        cases heq
  · intro hsafe zip happly
    obtain ⟨b, n, w, hphase, hleaves, hn, hv, rfl⟩ := applied_mem_step.mp happly
    have hcond := hsafe b n w hphase hn hv
    rw [Inv, hphase] at h
    obtain ⟨pb, rest, hes, htype, hb, hcount, hw⟩ := h
    cases e with
    | packet pkt =>
        have hlt := hcond hleaves
        refine ⟨pb, pkt, rest, hes, htype, rfl, hleaves, ?_, by rw [hw], ?_⟩
        · have hparts : n = get32 pb.payload 0 := by rw [hn, hb]; rfl
          rw [hw, ← hparts, hcount, UInt32.toNat_ofNat_of_lt' hlt]
        · rw [hv.2, hb]
          rfl
    | recvFailed => exact hcond.elim
    | stopped => exact hcond.elim

/-- A run applies an update only after OTA_BEGIN and OTA_END, with the announced count
of chunks and the announced sum, exactly when all its steps are safe. -/
theorem run_applies (env : Env) (mem : Memory) (es : List Event) :
    AppliesEnded env mem es ↔
      ∀ es₁ e es₂, es = es₁ ++ e :: es₂ → Safe env ((start mem).run env es₁).1 e := by
  constructor
  · intro h es₁ e es₂ hes
    exact (ended_iff_safe (inv_run env mem es₁) e).mp (h es₁ e es₂ hes)
  · intro h es₁ e es₂ hes
    exact (ended_iff_safe (inv_run env mem es₁) e).mpr (h es₁ e es₂ hes)

/-- The connection is lost behind the only chunk. -/
theorem run_applies_lost :
    ¬ AppliesEnded ⟨fun _ => ⟨List.replicate 16 7, rfl⟩, true, true, true, true, true⟩ (fun _ => 0)
      [.packet ⟨otaBegin, le32 1 ++ le32 1 ++ le32 0 ++ List.replicate 16 7 ++ [0]⟩,
        .packet ⟨otaChunk, le32 1 ++ le32 1 ++ List.replicate 16 7 ++ [9]⟩, .recvFailed] := by
  intro h
  obtain ⟨-, pe, -, -, -, heq, -⟩ := h
    [.packet ⟨otaBegin, le32 1 ++ le32 1 ++ le32 0 ++ List.replicate 16 7 ++ [0]⟩,
      .packet ⟨otaChunk, le32 1 ++ le32 1 ++ List.replicate 16 7 ++ [9]⟩] .recvFailed [] rfl [9]
    (by decide)
  cases heq

end Session

end MFoES.Ota
