import MFoES.Libgfx.Decoders
import MFoES.Libgfx.Recorder

/-!
# The renderer on untrusted bytes

`drRenderAt` is `DRRender` on a memory and a length.  It looks at no byte from the length on
(`drRenderAt_congr`).  A `Pass` is an iteration of the loop that makes a call, and a run is
passes until the loop `Stops`.  Every pass steps over its command, which is there to its end.

A recorder's blob that is cut anywhere renders to a beginning of its calls, and never to `Ok`
(`drRender_cutBlob`).
-/

namespace MFoES.Libgfx

open LittleEndian Reading DRReader DrawReplay

variable {F : Type}

/-! ## Memory -/

/-- `DRPeek` on `len` bytes of a memory. -/
def drPeekAt (mem : List UInt8) (len : Nat) : Except DRError DRHeader :=
  if len < drHeaderSize then .error .truncated
  else if mem.take 4 ≠ drSyncMagic then .error .badMagic
  else
    let ((version, hdr), rd) := readHeader (DRReader.new (mem.drop 4) (drHeaderSize - 4))
    if drVersion < version then .error .badVersion
    else if !rd.ok then .error .truncated
    else if len - drHeaderSize < hdr.bodyBytes.toNat then .error .truncated
    else .ok hdr

/-- The reader of a body. -/
def bodyReader (mem : List UInt8) (hdr : DRHeader) : DRReader :=
  DRReader.new (mem.drop drHeaderSize) hdr.bodyBytes.toNat

/-- `DRRender` on `len` bytes of a memory. -/
def drRenderAt (mem : List UInt8) (len : Nat) (fonts : Option (DRFontTable F)) :
    DRError × List (GfxCall F) :=
  match drPeekAt mem len with
  | .error e => (e, [])
  | .ok hdr => renderLoop fonts (hdr.bodyBytes.toNat + 1) (bodyReader mem hdr)

/-- A buffer is a memory of its own length. -/
theorem drRenderAt_length (data : List UInt8) (fonts : Option (DRFontTable F)) :
    drRenderAt data data.length fonts = drRender (some data) fonts := by
  have hpeek : drPeekAt data data.length = drPeek (some data) := rfl
  rw [drRenderAt, hpeek]
  unfold drRender
  cases drPeek (some data) with
  | error e => rfl
  | ok hdr => rfl

theorem accessor_readHeader : Accessor readHeader :=
  accessor_u16.bind fun _ => accessor_u16.bind fun _ => accessor_i16.bind fun _ =>
    accessor_i16.bind fun _ => accessor_u32.bind fun _ => accessor_u32.bind fun _ =>
    accessor_pure _

theorem getElem?_of_take {mem mem' : List UInt8} {len j : Nat} (h : mem'.take len = mem.take len)
    (hj : j < len) : mem'[j]? = mem[j]? := by
  rw [← List.getElem?_take_of_lt hj, h, List.getElem?_take_of_lt hj]

/-- Memories that agree below `len` agree on a reader of these bytes. -/
theorem agree_drop {mem mem' : List UInt8} {len k n : Nat} (h : mem'.take len = mem.take len)
    (hk : k + n ≤ len) {r : DRReader} (hr : Steps (DRReader.new (mem.drop k) n) r) :
    Agree (DRReader.new (mem.drop k) n) r (mem'.drop k) := by
  intro j _ hj
  have hn : r.i ≤ n := hr.inside (Nat.zero_le n)
  show (mem'.drop k)[j]? = (mem.drop k)[j]?
  rw [List.getElem?_drop, List.getElem?_drop]
  exact getElem?_of_take h (by omega)

theorem drPeekAt_congr {mem mem' : List UInt8} {len : Nat} (h : mem'.take len = mem.take len) :
    drPeekAt mem' len = drPeekAt mem len := by
  by_cases hlen : len < drHeaderSize
  · rw [drPeekAt, drPeekAt, if_pos hlen, if_pos hlen]
  · have hle : drHeaderSize ≤ len := Nat.not_lt.mp hlen
    have hmagic : mem'.take 4 = mem.take 4 := by
      have hmin : min 4 len = 4 := Nat.min_eq_left (Nat.le_trans (by decide) hle)
      rw [← hmin, ← List.take_take, ← List.take_take, h]
    have hagree := agree_drop h (k := 4) (n := drHeaderSize - 4) hle
      (accessor_readHeader.steps (DRReader.new (mem.drop 4) (drHeaderSize - 4)))
    have hread' := accessor_readHeader.looks _ _ hagree
    rcases hread : readHeader (DRReader.new (mem.drop 4) (drHeaderSize - 4)) with
      ⟨⟨version, hdr⟩, rd⟩
    rw [hread] at hread'
    have hrun : readHeader (DRReader.new (mem'.drop 4) (drHeaderSize - 4)) =
        ((version, hdr), { rd with p := mem'.drop 4 }) := hread'
    simp only [drPeekAt, hmagic, hread, hrun]

/-! ## Passes -/

/-- An iteration of the loop that decodes a command to its end and makes its call. -/
structure Pass (fonts : Option (DRFontTable F)) (rd rd' : DRReader) (c : GfxCall F) : Prop where
  opcode : (u8 rd).2.ok = true
  command : ∃ op, op ≠ .endOp ∧ DROp.ofByte (u8 rd).1 = some op ∧
    decodeCmd fonts op (u8 rd).2 = (.ok (some c), rd')

/-- The passes of a run, with the calls they make. -/
inductive Passes (fonts : Option (DRFontTable F)) : DRReader → List (GfxCall F) → DRReader → Prop
  | nil (rd : DRReader) : Passes fonts rd [] rd
  | cons {rd rd' rd'' : DRReader} {c : GfxCall F} {cs : List (GfxCall F)}
      (pass : Pass fonts rd rd' c) (rest : Passes fonts rd' cs rd'') : Passes fonts rd (c :: cs) rd''

/-- How the loop stops. -/
inductive Stops (fonts : Option (DRFontTable F)) (rd : DRReader) : DRError → Prop
  /-- No opcode is left. -/
  | empty (opcode : (u8 rd).2.ok = false) : Stops fonts rd .truncated
  | finished (opcode : (u8 rd).2.ok = true) (command : DROp.ofByte (u8 rd).1 = some .endOp) :
      Stops fonts rd .ok
  | unknown (opcode : (u8 rd).2.ok = true) (command : DROp.ofByte (u8 rd).1 = none) :
      Stops fonts rd .unknownOpcode
  /-- The command is not all there. -/
  | cut (op : DROp) (rd' : DRReader) (opcode : (u8 rd).2.ok = true) (other : op ≠ .endOp)
      (command : DROp.ofByte (u8 rd).1 = some op)
      (payload : decodeCmd fonts op (u8 rd).2 = (.ok none, rd')) : Stops fonts rd .truncated
  | bad (op : DROp) (rd' : DRReader) (opcode : (u8 rd).2.ok = true) (other : op ≠ .endOp)
      (command : DROp.ofByte (u8 rd).1 = some op)
      (payload : decodeCmd fonts op (u8 rd).2 = (.error .badPayload, rd')) :
      Stops fonts rd .badPayload

variable {fonts : Option (DRFontTable F)} {rd rd' rd'' : DRReader}

/-- An opcode takes a byte. -/
theorem u8_steps (h : (u8 rd).2.ok = true) :
    (u8 rd).2.i = rd.i + 1 ∧ (rd.i ≤ rd.n → rd.i + 1 ≤ rd.n) := by
  rcases fetch_cases 1 (0 : UInt8) (fun p i => p.getD i 0) rd with
    ⟨-, hk, heq⟩ | ⟨-, heq⟩
  · rw [u8, heq]
    exact ⟨rfl, fun _ => by omega⟩
  · rw [u8, heq] at h
    cases h

/-- A pass steps over its opcode at least, and stays inside. -/
theorem Pass.steps {c : GfxCall F} (h : Pass fonts rd rd' c) :
    Steps rd rd' ∧ rd.i < rd'.i ∧ rd'.ok = true := by
  obtain ⟨hok, op, hne, -, hdecode⟩ := h
  have hdec := decoder_decodeCmd fonts op hne
  have hfirst := accessor_u8.steps rd
  have hrest := hdec.steps (u8 rd).2
  have hissued := hdec.issued (u8 rd).2 c (by rw [hdecode])
  rw [hdecode] at hrest hissued
  refine ⟨hfirst.trans hrest, ?_, hissued⟩
  have hi := (u8_steps hok).1
  have hle : (u8 rd).2.i ≤ rd'.i := hrest.le
  omega

/-- A pass depends on the bytes of its command only. -/
theorem Pass.looks {c : GfxCall F} (h : Pass fonts rd rd' c) {q : List UInt8}
    (hq : Agree rd rd' q) : Pass fonts { rd with p := q } { rd' with p := q } c := by
  obtain ⟨hok, op, hne, hop, hdecode⟩ := h
  have hdec := decoder_decodeCmd fonts op hne
  have hrest := hdec.steps (u8 rd).2
  rw [hdecode] at hrest
  obtain ⟨hq₁, hq₂⟩ := hq.split (accessor_u8.steps rd) hrest
  have hbyte := accessor_u8.looks rd q hq₁
  have hcall := hdec.looks (u8 rd).2 q (by rw [hdecode]; exact hq₂)
  rw [hdecode] at hcall
  refine ⟨by rw [hbyte]; exact hok, op, hne, by rw [hbyte]; exact hop, ?_⟩
  rw [hbyte]
  exact hcall

theorem Passes.steps {cs : List (GfxCall F)} (h : Passes fonts rd cs rd') :
    Steps rd rd' ∧ rd.i + cs.length ≤ rd'.i := by
  induction h with
  | nil rd => exact ⟨.refl rd, Nat.le_refl _⟩
  | cons pass rest ih =>
      obtain ⟨hsteps, hlt, -⟩ := pass.steps
      obtain ⟨hrest, hle⟩ := ih
      refine ⟨hsteps.trans hrest, ?_⟩
      rw [List.length_cons]
      omega

/-- The body of the loop. -/
theorem renderLoop_succ (fuel : Nat) (rd : DRReader) : renderLoop fonts (fuel + 1) rd =
    if !(u8 rd).2.ok then (.truncated, [])
    else match DROp.ofByte (u8 rd).1 with
      | none => (.unknownOpcode, [])
      | some op =>
          if op = .endOp then (.ok, [])
          else match decodeCmd fonts op (u8 rd).2 with
            | (.error e, _) => (e, [])
            | (.ok call, rd) =>
                if !rd.ok then (.truncated, call.toList)
                else ((renderLoop fonts fuel rd).1, call.toList ++ (renderLoop fonts fuel rd).2) :=
  rfl

/-- An iteration that makes no call is the last. -/
theorem Stops.run {e : DRError} (h : Stops fonts rd e) (fuel : Nat) :
    renderLoop fonts (fuel + 1) rd = (e, []) := by
  rw [renderLoop_succ]
  cases h with
  | empty opcode => simp [opcode]
  | finished opcode command => simp [opcode, command]
  | unknown opcode command => simp [opcode, command]
  | cut op rd' opcode other command payload =>
      have hcut := (decoder_decodeCmd fonts op other).cut (u8 rd).2 (by rw [payload])
      rw [payload] at hcut
      have hcut' : rd'.ok = false := hcut
      simp [opcode, command, other, payload, hcut']
  | bad op rd' opcode other command payload => simp [opcode, command, other, payload]

theorem Pass.run {c : GfxCall F} (h : Pass fonts rd rd' c) (fuel : Nat) :
    renderLoop fonts (fuel + 1) rd =
      ((renderLoop fonts fuel rd').1, c :: (renderLoop fonts fuel rd').2) := by
  obtain ⟨-, -, hok'⟩ := h.steps
  obtain ⟨hok, op, hne, hop, hdecode⟩ := h
  rw [renderLoop_succ]
  simp [hok, hop, hne, hdecode, hok']

/-- An iteration makes its call, or it is the last. -/
theorem pass_or_stops (fonts : Option (DRFontTable F)) (rd : DRReader) :
    (∃ rd' c, Pass fonts rd rd' c) ∨ ∃ e, Stops fonts rd e := by
  cases hok : (u8 rd).2.ok with
  | false => exact Or.inr ⟨_, .empty hok⟩
  | true =>
      cases hop : DROp.ofByte (u8 rd).1 with
      | none => exact Or.inr ⟨_, .unknown hok hop⟩
      | some op =>
          by_cases hend : op = .endOp
          · subst hend
            exact Or.inr ⟨_, .finished hok hop⟩
          · rcases hdecode : decodeCmd fonts op (u8 rd).2 with ⟨e | _ | c, rd'⟩
            · obtain rfl := (decoder_decodeCmd fonts op hend).bad (u8 rd).2 e (by rw [hdecode])
              exact Or.inr ⟨_, .bad op rd' hok hend hop hdecode⟩
            · exact Or.inr ⟨_, .cut op rd' hok hend hop hdecode⟩
            · exact Or.inl ⟨rd', c, hok, op, hend, hop, hdecode⟩

/-- A run is passes until the loop stops.  What is left of the body is fuel enough. -/
theorem renderLoop_passes (fuel : Nat) (hin : rd.i ≤ rd.n) (hfuel : rd.n - rd.i < fuel) :
    ∃ rd', Passes fonts rd (renderLoop fonts fuel rd).2 rd' ∧
      Stops fonts rd' (renderLoop fonts fuel rd).1 := by
  induction fuel generalizing rd with
  | zero => exact absurd hfuel (Nat.not_lt_zero _)
  | succ fuel ih =>
      rcases pass_or_stops fonts rd with ⟨rd', c, hpass⟩ | ⟨e, hstops⟩
      · obtain ⟨hsteps, hlt, -⟩ := hpass.steps
        have hin' := hsteps.inside hin
        have hn := hsteps.n
        obtain ⟨rd'', hpasses, hstops⟩ := ih (by omega : rd'.i ≤ rd'.n) (by omega)
        rw [hpass.run]
        exact ⟨rd'', .cons hpass hpasses, hstops⟩
      · rw [hstops.run]
        exact ⟨rd, .nil rd, hstops⟩

/-! ## Inside the buffer -/

/-- How the loop stops depends on the body only. -/
theorem Stops.looks {e : DRError} (h : Stops fonts rd e) {q : List UInt8} (hin : rd.i ≤ rd.n)
    (hq : ∀ j, rd.i ≤ j → j < rd.n → q[j]? = rd.p[j]?) : Stops fonts { rd with p := q } e := by
  have hagree : ∀ r, Steps rd r → Agree rd r q := fun r hr j hj hlt =>
    hq j hj (Nat.lt_of_lt_of_le hlt (hr.inside hin))
  have hfirst := accessor_u8.steps rd
  have hbyte := accessor_u8.looks rd q (hagree _ hfirst)
  have hpayload : ∀ op, op ≠ .endOp → decodeCmd fonts op { (u8 rd).2 with p := q } =
      ((decodeCmd fonts op (u8 rd).2).1, { (decodeCmd fonts op (u8 rd).2).2 with p := q }) := by
    intro op hne
    have hdec := decoder_decodeCmd fonts op hne
    have hrest := hdec.steps (u8 rd).2
    exact hdec.looks (u8 rd).2 q ((hagree _ (hfirst.trans hrest)).split hfirst hrest).2
  cases h with
  | empty opcode => exact .empty (by rw [hbyte]; exact opcode)
  | finished opcode command =>
      exact .finished (by rw [hbyte]; exact opcode) (by rw [hbyte]; exact command)
  | unknown opcode command =>
      exact .unknown (by rw [hbyte]; exact opcode) (by rw [hbyte]; exact command)
  | cut op rd' opcode other command payload =>
      exact .cut op { rd' with p := q } (by rw [hbyte]; exact opcode) other
        (by rw [hbyte]; exact command) (by rw [hbyte, hpayload op other, payload])
  | bad op rd' opcode other command payload =>
      exact .bad op { rd' with p := q } (by rw [hbyte]; exact opcode) other
        (by rw [hbyte]; exact command) (by rw [hbyte, hpayload op other, payload])

/-- A run depends on the body only. -/
theorem renderLoop_congr (fuel : Nat) {q : List UInt8} (hin : rd.i ≤ rd.n)
    (hq : ∀ j, rd.i ≤ j → j < rd.n → q[j]? = rd.p[j]?) :
    renderLoop fonts fuel { rd with p := q } = renderLoop fonts fuel rd := by
  induction fuel generalizing rd with
  | zero => rfl
  | succ fuel ih =>
      rcases pass_or_stops fonts rd with ⟨rd', c, hpass⟩ | ⟨e, hstops⟩
      · obtain ⟨hsteps, hlt, -⟩ := hpass.steps
        have hin' := hsteps.inside hin
        have hpass' : Pass fonts { rd with p := q } { rd' with p := q } c :=
          hpass.looks fun j hj hlt' => hq j hj (Nat.lt_of_lt_of_le hlt' hin')
        have hrest := @ih rd' (by rw [hsteps.n]; exact hin') (by
          intro j hj hjn
          rw [hsteps.p]
          rw [hsteps.n] at hjn
          exact hq j (Nat.le_trans hsteps.le hj) hjn)
        rw [hpass.run, hpass'.run, hrest]
      · rw [hstops.run, (hstops.looks hin hq).run]

/-- A header that is accepted declares a body inside the buffer. -/
theorem drPeekAt_ok {mem : List UInt8} {len : Nat} {hdr : DRHeader}
    (h : drPeekAt mem len = .ok hdr) : drHeaderSize + hdr.bodyBytes.toNat ≤ len := by
  rcases hread : readHeader (DRReader.new (mem.drop 4) (drHeaderSize - 4)) with
    ⟨⟨version, hdr'⟩, rd⟩
  unfold drPeekAt at h
  rw [hread] at h
  dsimp only at h
  split_ifs at h with hlen hmagic hversion hok hbody
  cases h
  omega

/-- The renderer looks at nothing outside of the buffer. -/
theorem drRenderAt_congr {mem mem' : List UInt8} {len : Nat} (h : mem'.take len = mem.take len) :
    drRenderAt mem' len fonts = drRenderAt mem len fonts := by
  rw [drRenderAt, drRenderAt, drPeekAt_congr h]
  cases hpeek : drPeekAt mem len with
  | error e => rfl
  | ok hdr =>
      have hbody := drPeekAt_ok hpeek
      refine @renderLoop_congr F fonts (bodyReader mem hdr) _ _ (Nat.zero_le _) fun j _ hj => ?_
      have hlt : j < hdr.bodyBytes.toNat := hj
      show (mem'.drop drHeaderSize)[j]? = (mem.drop drHeaderSize)[j]?
      rw [List.getElem?_drop, List.getElem?_drop]
      exact getElem?_of_take h (by omega)

/-! ## Scratch copies -/

/-- `str.assign(s, s + n)`, and the NUL behind it. -/
def copied (n : Nat) : StateM DRReader Nat := do
  let _ ← bytes n
  let rd ← get
  pure (if rd.ok then n + 1 else 0)

/-- `resize` of `argb` or `rgb565` to `n` bytes, behind the checks. -/
def resized (w h : Int16) (need n : Nat) : StateM DRReader Nat := do
  let rd ← get
  pure (if !rd.ok then 0 else if !extentOk w h need rd then 0 else n)

/-- The bytes of the scratch copy that a case of the `switch` makes. -/
def scratchBytes : DROp → StateM DRReader Nat
  | .writeText => do
      let n ← u16
      copied n.toNat
  | .setText => do
      let _ ← i16; let _ ← i16; let _ ← u32; let _ ← u32; let _ ← u8; let _ ← u8
      let _ ← u8; let _ ← u8; let n ← u16
      copied n.toNat
  | .rgbBitmap => do
      let _ ← i16; let _ ← i16; let w ← i16; let h ← i16
      resized w h (pixelCount w h * 4) (pixelCount w h * 4)
  | .rgbBitmapMask => do
      let _ ← i16; let _ ← i16; let w ← i16; let h ← i16
      resized w h (pixelCount w h * 4 + monoPlaneBytes w h) (pixelCount w h * 4)
  | .rgb565Bitmap => do
      let _ ← i16; let _ ← i16; let w ← i16; let h ← i16
      resized w h (pixelCount w h * 2) (pixelCount w h * 2)
  | .bitmapTriangle => do
      let _ ← i16; let _ ← i16; let _ ← i16; let _ ← i16; let _ ← i16; let _ ← i16
      let tw ← i16; let th ← i16
      resized tw th (pixelCount tw th * 4) (pixelCount tw th * 4)
  | _ => pure 0

/-- A number of bytes that are all still to come. -/
def Covered (m : StateM DRReader Nat) : Prop := ∀ r : DRReader, r.i ≤ r.n → (m r).1 ≤ r.n - r.i

theorem Covered.arg {α : Type} {m : StateM DRReader α} {f : α → StateM DRReader Nat}
    (hm : Accessor m) (hf : ∀ v, Covered (f v)) : Covered (m >>= f) := by
  intro r hin
  have hsteps := hm.steps r
  have hin' := hsteps.inside hin
  have hle := hsteps.le
  have hn := hsteps.n
  have hrest : (f (m r).1 (m r).2).1 ≤ (m r).2.n - (m r).2.i := hf (m r).1 (m r).2 (by omega)
  show (f (m r).1 (m r).2).1 ≤ r.n - r.i
  omega

theorem covered_resized {w h : Int16} {need n : Nat} (hn : n ≤ need) :
    Covered (resized w h need n) := by
  intro r hin
  show (if !r.ok then 0 else if !extentOk w h need r then 0 else n) ≤ r.n - r.i
  cases hok : r.ok with
  | false => exact Nat.zero_le _
  | true =>
      cases hext : extentOk w h need r with
      | false => exact Nat.zero_le _
      | true =>
          rw [extentOk] at hext
          split_ifs at hext
          rw [decide_eq_true_eq, DRReader.remaining, hok, if_pos rfl] at hext
          exact Nat.le_trans hn hext

/-- The length before the text leaves room for the NUL. -/
theorem covered_copied : Covered (u16 >>= fun n => copied n.toNat) := by
  intro r hin
  have hrun : ∀ s : DRReader, ∀ n, (copied n s).1 = if (bytes n s).2.ok then n + 1 else 0 :=
    fun _ _ => rfl
  show (copied (u16 r).1.toNat (u16 r).2).1 ≤ r.n - r.i
  rw [hrun]
  rcases fetch_cases 2 (0 : UInt16) get16 r with ⟨-, hk, heq⟩ | ⟨-, heq⟩
  · rw [u16, heq]
    rcases fetch_cases (get16 r.p r.i).toNat none
      (fun p i => some ((p.drop i).take (get16 r.p r.i).toNat)) { r with i := r.i + 2 } with
      ⟨hok, hlen, heq'⟩ | ⟨-, heq'⟩
    · rw [bytes, heq']
      dsimp only at hok hlen ⊢
      rw [if_pos hok]
      omega
    · rw [bytes, heq']
      exact Nat.zero_le _
  · rw [u16, heq, failed_bytes rfl]
    exact Nat.zero_le _

/-- No scratch copy is longer than what is left of the body. -/
theorem covered_scratchBytes (op : DROp) : Covered (scratchBytes op) := by
  cases op with
  | writeText => exact covered_copied
  | setText =>
      exact .arg accessor_i16 fun _ => .arg accessor_i16 fun _ => .arg accessor_u32 fun _ =>
        .arg accessor_u32 fun _ => .arg accessor_u8 fun _ => .arg accessor_u8 fun _ =>
        .arg accessor_u8 fun _ => .arg accessor_u8 fun _ => covered_copied
  | rgbBitmap =>
      exact .arg accessor_i16 fun _ => .arg accessor_i16 fun _ => .arg accessor_i16 fun _ =>
        .arg accessor_i16 fun _ => covered_resized (Nat.le_refl _)
  | rgbBitmapMask =>
      exact .arg accessor_i16 fun _ => .arg accessor_i16 fun _ => .arg accessor_i16 fun _ =>
        .arg accessor_i16 fun _ => covered_resized (Nat.le_add_right _ _)
  | rgb565Bitmap =>
      exact .arg accessor_i16 fun _ => .arg accessor_i16 fun _ => .arg accessor_i16 fun _ =>
        .arg accessor_i16 fun _ => covered_resized (Nat.le_refl _)
  | bitmapTriangle =>
      exact .arg accessor_i16 fun _ => .arg accessor_i16 fun _ => .arg accessor_i16 fun _ =>
        .arg accessor_i16 fun _ => .arg accessor_i16 fun _ => .arg accessor_i16 fun _ =>
        .arg accessor_i16 fun _ => .arg accessor_i16 fun _ => covered_resized (Nat.le_refl _)
  | _ => exact fun _ _ => Nat.zero_le _

/-! ## Any buffer -/

/-- `DRRender` on `len` bytes of a memory is safe. -/
structure SafeOn (fonts : Option (DRFontTable F)) (mem : List UInt8) (len : Nat) : Prop where
  /-- It looks at no byte from `len` on. -/
  inside (mem' : List UInt8) : mem'.take len = mem.take len →
    drRenderAt mem' len fonts = drRenderAt mem len fonts
  /-- Without a header it makes no call. -/
  header (e : DRError) : drPeekAt mem len = .error e → drRenderAt mem len fonts = (e, [])
  /-- The body is inside the buffer, and the calls are those of passes over it. -/
  body (hdr : DRHeader) : drPeekAt mem len = .ok hdr → drHeaderSize + hdr.bodyBytes.toNat ≤ len ∧
    (drRenderAt mem len fonts).2.length ≤ hdr.bodyBytes.toNat ∧
    ∃ rd, Passes fonts (bodyReader mem hdr) (drRenderAt mem len fonts).2 rd ∧
      Stops fonts rd (drRenderAt mem len fonts).1
  /-- A pass takes a byte at least, its command is all there, and nothing else matters to it. -/
  pass (hdr : DRHeader) (cs : List (GfxCall F)) (rd rd' : DRReader) (c : GfxCall F) :
    Passes fonts (bodyReader mem hdr) cs rd → Pass fonts rd rd' c →
      rd.i < rd'.i ∧ rd'.i ≤ hdr.bodyBytes.toNat ∧ rd'.ok = true ∧
      ∀ q, Agree rd rd' q → Pass fonts { rd with p := q } { rd' with p := q } c
  /-- A scratch copy is not longer than what is left of the body. -/
  scratch (hdr : DRHeader) (cs : List (GfxCall F)) (rd : DRReader) (op : DROp) :
    Passes fonts (bodyReader mem hdr) cs rd → (u8 rd).2.ok = true →
      (scratchBytes op (u8 rd).2).1 ≤ hdr.bodyBytes.toNat - (u8 rd).2.i

theorem safeOn (fonts : Option (DRFontTable F)) (mem : List UInt8) (len : Nat) :
    SafeOn fonts mem len where
  inside mem' h := drRenderAt_congr h
  header e h := by rw [drRenderAt, h]
  body hdr h := by
    have hrun : drRenderAt mem len fonts =
        renderLoop fonts (hdr.bodyBytes.toNat + 1) (bodyReader mem hdr) := by rw [drRenderAt, h]
    rw [hrun]
    obtain ⟨rd, hpasses, hstops⟩ := @renderLoop_passes F fonts (bodyReader mem hdr)
      (hdr.bodyBytes.toNat + 1) (Nat.zero_le _) (Nat.lt_succ_self _)
    obtain ⟨hsteps, hle⟩ := hpasses.steps
    have hin : rd.i ≤ hdr.bodyBytes.toNat := hsteps.inside (Nat.zero_le _)
    have hzero : (bodyReader mem hdr).i = 0 := rfl
    exact ⟨drPeekAt_ok h, by omega, rd, hpasses, hstops⟩
  pass hdr cs rd rd' c hpasses hpass := by
    obtain ⟨hsteps, hlt, hok⟩ := hpass.steps
    have hrun := hpasses.steps.1.trans hsteps
    exact ⟨hlt, hrun.inside (Nat.zero_le _), hok, fun q hq => hpass.looks hq⟩
  scratch hdr cs rd op hpasses hok := by
    have hrun := hpasses.steps.1.trans (accessor_u8.steps rd)
    have hcovered := covered_scratchBytes op (u8 rd).2 (by
      rw [hrun.n]
      exact hrun.inside (Nat.zero_le _))
    rw [hrun.n] at hcovered
    exact hcovered

/-! ## Blobs that are cut -/

/-- A pass would be the same in a longer body. -/
theorem Pass.grows {c : GfxCall F} (h : Pass fonts rd rd' c) {n : Nat} (hn : rd.n ≤ n) :
    Pass fonts { rd with n := n } { rd' with n := n } c := by
  obtain ⟨hok, op, hne, hop, hdecode⟩ := h
  have hbyte := accessor_u8.grows rd n hn hok
  have hcall := (decoder_decodeCmd fonts op hne).grows (u8 rd).2 n c
    (by rw [(accessor_u8.steps rd).n]; exact hn) (by rw [hdecode])
  rw [hdecode] at hcall
  refine ⟨by rw [hbyte]; exact hok, op, hne, by rw [hbyte]; exact hop, ?_⟩
  rw [hbyte]
  exact hcall

/-- A reader that holds the beginning of something, when the rest is put behind. -/
theorem holds_extend {L M : List UInt8} (h : rd.Holds L) (hin : rd.i ≤ rd.n) :
    ({ rd with p := rd.p.take rd.n ++ M, n := rd.n + M.length } : DRReader).Holds (L ++ M) := by
  have hlen : (rd.p.take rd.n).length = rd.n := by
    rw [List.length_take, Nat.min_eq_left h.n_le]
  refine ⟨h.ok, Nat.le_trans hin (Nat.le_add_right _ _), ?_, ?_⟩
  · dsimp only
    rw [List.length_append, hlen]
  · dsimp only
    rw [List.take_of_length_le (by rw [List.length_append, hlen]),
      List.drop_append_of_le_length (by rw [hlen]; exact hin), h.left]

/-- The command of a call is a pass. -/
theorem pass_encode {c : GfxCall F} {fontId : Option F → UInt8}
    (hc : c.Fits fontId (DRFontTable.lookup fonts)) {L : List UInt8}
    (h : rd.Holds (c.encode fontId ++ L)) : ∃ rd', Pass fonts rd rd' c ∧ rd'.Holds L := by
  rw [GfxCall.encode, List.append_assoc] at h
  obtain ⟨rd₁, hbyte, h₁⟩ := (reads_u8 c.op.toByte).run h
  obtain ⟨rd₂, hcall, h₂⟩ := (reads_decodeCmd fonts fontId c hc).run h₁
  refine ⟨rd₂, ⟨by rw [hbyte]; exact h₁.ok, c.op, c.op_ne_endOp, ?_, ?_⟩, h₂⟩
  · rw [hbyte]
    exact DROp.ofByte_toByte c.op
  · rw [hbyte]
    exact hcall

/-- A pass is determined by its reader. -/
theorem Pass.unique {c c' : GfxCall F} (h : Pass fonts rd rd' c) (h' : Pass fonts rd rd'' c') :
    c = c' ∧ rd' = rd'' := by
  obtain ⟨-, op, -, hop, hdecode⟩ := h
  obtain ⟨-, op', -, hop', hdecode'⟩ := h'
  rw [hop] at hop'
  cases hop'
  rw [hdecode] at hdecode'
  obtain ⟨hcall, hrd⟩ := Prod.mk.inj hdecode'
  exact ⟨Option.some.inj (Except.ok.inj hcall), hrd⟩

/-- A command that is cut makes no call. -/
theorem not_pass_of_cut {c : GfxCall F} {fontId : Option F → UInt8}
    (hc : c.Fits fontId (DRFontTable.lookup fonts)) {k : Nat} (hk : k < (c.encode fontId).length)
    (h : rd.Holds ((c.encode fontId).take k)) (c' : GfxCall F) : ¬ Pass fonts rd rd' c' := by
  intro hpass
  have hin := h.i_le
  obtain ⟨hsteps, -, -⟩ := hpass.steps
  have hin' := hsteps.inside hin
  -- with the rest of the command behind it, the reader would stop short of the command's end
  have hfull := holds_extend (M := (c.encode fontId).drop k) h hin
  rw [List.take_append_drop, ← List.append_nil (c.encode fontId)] at hfull
  obtain ⟨rd'', hwhole, hend⟩ := pass_encode hc hfull
  have hlooks : Agree rd rd' (rd.p.take rd.n ++ (c.encode fontId).drop k) := by
    intro j _ hj
    have hjn : j < rd.n := Nat.lt_of_lt_of_le hj hin'
    rw [List.getElem?_append_left (by rw [List.length_take, Nat.min_eq_left h.n_le]; exact hjn),
      List.getElem?_take_of_lt hjn]
  have hsame := (hpass.looks hlooks).grows (n := rd.n + ((c.encode fontId).drop k).length)
    (Nat.le_add_right _ _)
  rw [List.append_nil] at hwhole
  obtain ⟨-, heq⟩ := hwhole.unique hsame
  have hleft := hend.length
  have hdrop : ((c.encode fontId).drop k).length = (c.encode fontId).length - k :=
    List.length_drop
  rw [heq] at hleft
  dsimp only [List.length_nil] at hleft
  omega

/-- The loop does not end well in a command that is cut. -/
theorem stops_of_cut {c : GfxCall F} {fontId : Option F → UInt8}
    (hc : c.Fits fontId (DRFontTable.lookup fonts)) {k : Nat} (hk : k < (c.encode fontId).length)
    (h : rd.Holds ((c.encode fontId).take k)) : ∃ e, e ≠ .ok ∧ Stops fonts rd e := by
  rcases pass_or_stops fonts rd with ⟨rd', c', hpass⟩ | ⟨e, hstops⟩
  · exact absurd hpass (not_pass_of_cut hc hk h c')
  · refine ⟨e, ?_, hstops⟩
    rintro rfl
    cases hstops with
    | finished opcode command =>
        cases k with
        | zero =>
            have hlen := h.length
            have hroom := (u8_steps opcode).2 h.i_le
            rw [List.take_zero, List.length_nil] at hlen
            omega
        | succ k =>
            have hcons : (c.encode fontId).take (k + 1) =
                putU8 c.op.toByte ++ ((c.payload fontId).flatten).take k := rfl
            rw [hcons] at h
            obtain ⟨rd₁, hbyte, -⟩ := (reads_u8 c.op.toByte).run h
            rw [hbyte, DROp.ofByte_toByte] at command
            exact c.op_ne_endOp (Option.some.inj command)

/-- A stream that is cut renders to a beginning of its calls. -/
theorem renderLoop_cut {b : List UInt8} {cs : List (GfxCall F)} (h : Commands fonts b cs) :
    ∀ {k fuel : Nat} {rd : DRReader}, k ≤ b.length → k < fuel → rd.Holds (b.take k) →
      (renderLoop fonts fuel rd).2 <+: cs ∧ (renderLoop fonts fuel rd).1 ≠ .ok := by
  induction h with
  | nil =>
      intro k fuel rd hk hfuel hrd
      obtain ⟨fuel, rfl⟩ := Nat.exists_eq_succ_of_ne_zero (Nat.ne_of_gt (Nat.zero_lt_of_lt hfuel))
      rw [List.take_nil] at hrd
      have hempty : (u8 rd).2.ok = false := by
        rw [Bool.eq_false_iff]
        intro hok
        have hroom := (u8_steps hok).2 hrd.i_le
        have hlen := hrd.length
        rw [List.length_nil] at hlen
        omega
      have hstops : Stops fonts rd .truncated := .empty hempty
      rw [hstops.run]
      refine And.intro List.nil_prefix ?_
      intro hok
      cases hok
  | @cons c fontId b cs fits rest ih =>
      intro k fuel rd hk hfuel hrd
      obtain ⟨fuel, rfl⟩ := Nat.exists_eq_succ_of_ne_zero (Nat.ne_of_gt (Nat.zero_lt_of_lt hfuel))
      by_cases hwhole : (c.encode fontId).length ≤ k
      · rw [List.take_append, List.take_of_length_le hwhole] at hrd
        obtain ⟨rd', hpass, hrd'⟩ := pass_encode fits hrd
        have hpos : 0 < (c.encode fontId).length := Nat.succ_pos _
        rw [List.length_append] at hk
        obtain ⟨hcalls, hne⟩ := @ih (k - (c.encode fontId).length) fuel rd'
          (by omega) (by omega) hrd'
        rw [hpass.run]
        exact And.intro ((List.prefix_cons_inj c).mpr hcalls) hne
      · have hshort : k < (c.encode fontId).length := Nat.not_le.mp hwhole
        rw [List.take_append_of_le_length (Nat.le_of_lt hshort)] at hrd
        obtain ⟨e, hne, hstops⟩ := stops_of_cut fits hshort hrd
        rw [hstops.run]
        exact And.intro List.nil_prefix hne

/-- A blob whose body is cut, with its header adjusted to the cut or not. -/
def DrawReplay.cutBlob (r : DrawReplay F) (k : Nat) (adjusted : Bool) : List UInt8 :=
  let hdr := r.exportHeader
  DRHeader.bytes { hdr with bodyBytes := if adjusted then UInt32.ofNat k else hdr.bodyBytes } ++
    (r.stream ++ [DROp.endOp.toByte]).take k

/-- A cut blob issues a beginning of the blob's calls, and fails. -/
def CutFails (fonts : Option (DRFontTable F)) (r : DrawReplay F) (k : Nat) (adjusted : Bool) :
    Prop :=
  (drRender (some (r.cutBlob k adjusted)) fonts).2 <+: (drRender (some r.drExport) fonts).2 ∧
    (drRender (some (r.cutBlob k adjusted)) fonts).1 ≠ .ok

theorem drRender_header (hdr : DRHeader) {body : List UInt8}
    (h : hdr.bodyBytes.toNat ≤ body.length) : drRender (some (hdr.bytes ++ body)) fonts =
      renderLoop fonts (hdr.bodyBytes.toNat + 1) (DRReader.new body hdr.bodyBytes.toNat) := by
  have hdrop : (hdr.bytes ++ body).drop drHeaderSize = body := List.drop_left' hdr.length_bytes
  simp only [drRender, drPeek_bytes hdr h, hdrop]

/-- A cut of a well-formed stream. -/
theorem cutFails_of_wellFormed {r : DrawReplay F} (h : WellFormed fonts r)
    (hlen : r.stream.length < 2 ^ 32 - 1) {k : Nat} (hk : k ≤ r.stream.length) (adjusted : Bool) :
    CutFails fonts r k adjusted := by
  obtain ⟨cs, hcs, -⟩ := h.body
  rw [CutFails, WellFormed.drRender hcs hlen]
  have htake : (r.stream ++ [DROp.endOp.toByte]).take k = r.stream.take k :=
    List.take_append_of_le_length hk
  have hcut : (r.stream.take k).length = k := by
    rw [List.length_take, Nat.min_eq_left hk]
  rw [DrawReplay.cutBlob, htake]
  cases adjusted with
  | true =>
      have hbody : (UInt32.ofNat k).toNat = k := UInt32.toNat_ofNat_of_lt' (by
        have hfits : k < 2 ^ 32 := by omega
        exact hfits)
      rw [if_pos rfl, drRender_header _ (by rw [hbody, hcut])]
      have hnew := @holds_new (r.stream.take k) k (Nat.le_of_eq hcut.symm)
      rw [List.take_take, Nat.min_self] at hnew
      rw [hbody]
      exact renderLoop_cut hcs hk (Nat.lt_succ_self k) hnew
  | false =>
      have hbody := bodyBytes_exportHeader hlen
      rw [if_neg Bool.false_ne_true, drRender_short _ (by
        rw [hcut]
        show k < r.exportHeader.bodyBytes.toNat
        omega)]
      refine And.intro List.nil_prefix ?_
      intro hok
      cases hok

/-! ## Every buffer and every recorder -/

section Recorders

variable [DecidableEq F]

/-- Any buffer is rendered safely, and so is what is left of a recorder's blob. -/
theorem drRender_safe (fonts : Option (DRFontTable F)) :
    (∀ mem len, SafeOn fonts mem len) ∧
      ∀ (face : F → GFXfont) (impl : BaseText F) (w h : Int16) (actions : List (Action F)),
        (Action.runAll face impl (DrawReplay.new w h) actions).stream.length < 2 ^ 32 - 1 →
        ∀ k ≤ (Action.runAll face impl (DrawReplay.new w h) actions).stream.length,
        ∀ adjusted, CutFails fonts (Action.runAll face impl (DrawReplay.new w h) actions) k
          adjusted := by
  refine ⟨safeOn fonts, fun face impl w h actions hlen k hk adjusted => ?_⟩
  exact cutFails_of_wellFormed ((wellFormed_new w h).runAll face impl actions) hlen hk adjusted

/-- The stream of cursor moves begins with one. -/
theorem stream_moveCursors (face : F → GFXfont) (impl : BaseText F) (w h : Int16) {n : Nat}
    (hn : 0 < n) :
    ∃ b, (Action.runAll face impl (DrawReplay.new w h)
      (List.replicate n (.direct moveCursor backed_moveCursor))).stream =
        (GfxCall.setCursor 1 1 : GfxCall F).encode (fun _ => 0) ++ b := by
  obtain ⟨n, rfl⟩ := Nat.exists_eq_succ_of_ne_zero (Nat.ne_of_gt hn)
  have hfirst := records_run (recording_new none w h) face moveCursor trivial
  have hrest := records_runAll face (List.replicate n moveCursor) hfirst.recording
    fun c hc => by
      obtain rfl := List.eq_of_mem_replicate hc
      trivial
  obtain ⟨b, hb, -⟩ := hrest.stream
  refine ⟨b, ?_⟩
  rw [runAll_direct face impl _ _ fun _ => rfl, List.replicate_succ]
  have hone : (moveCursor.run face (DrawReplay.new w h)).stream =
      (GfxCall.setCursor 1 1 : GfxCall F).encode fun _ => 0 := by
    show ((DrawReplay.new w h : DrawReplay F).record drRecText .setCursor
      [putI16 1, putI16 1]).stream = _
    rw [record_eq (recording_new none w h) (by decide)]
    rfl
  rw [← hone]
  exact hb

/-- A blob too long for its header makes fewer calls than its first command alone. -/
theorem not_cutFails_wrapped :
    ¬ ∀ (face : Nat → GFXfont) (impl : BaseText Nat) (w h : Int16) (actions : List (Action Nat)),
      impl.Faithful face →
        ∀ k ≤ (Action.runAll face impl (DrawReplay.new w h) actions).stream.length, ∀ adjusted,
          CutFails none (Action.runAll face impl (DrawReplay.new w h) actions) k adjusted := by
  intro h
  have face : Nat → GFXfont := fun _ => ⟨fun _ => ⟨6⟩, 32, 8⟩
  obtain ⟨n, hn⟩ : ∃ n, 5 * n = 2 ^ 32 - 1 := ⟨858993459, by decide⟩
  have hlen := length_wrapped face (.blank face) 0 0 hn
  obtain ⟨b, hb⟩ := stream_moveCursors face (.blank face) 0 0 (n := n) (by omega)
  obtain ⟨hcalls, -⟩ := h face (.blank face) 0 0
    (List.replicate n (.direct moveCursor backed_moveCursor)) (BaseText.faithful_blank face) 5
    (by rw [hlen]; decide) true
  rw [drRender_wrapped hlen, List.prefix_nil, DrawReplay.cutBlob, hb, List.append_assoc,
    List.take_left' (by rfl), if_pos rfl, drRender_header _ (Nat.le_of_eq rfl)] at hcalls
  have hnew := @holds_new ((GfxCall.setCursor 1 1 : GfxCall Nat).encode fun _ => 0) 5 (by decide)
  have hwhole : ((GfxCall.setCursor 1 1 : GfxCall Nat).encode fun _ => 0).take 5 =
      ((GfxCall.setCursor 1 1 : GfxCall Nat).encode fun _ => 0) ++ [] := rfl
  rw [hwhole] at hnew
  have hfits : (GfxCall.setCursor 1 1 : GfxCall Nat).Fits (fun _ => 0)
      (DRFontTable.lookup none) := trivial
  obtain ⟨rd, hpass, -⟩ := pass_encode (c := GfxCall.setCursor 1 1) hfits hnew
  have hrun := hpass.run 5
  rw [show (UInt32.ofNat 5).toNat = 5 from rfl, hrun] at hcalls
  cases hcalls

end Recorders

end MFoES.Libgfx
