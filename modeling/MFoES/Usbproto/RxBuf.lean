import MFoES.Usbproto.Wire
import MFoES.Lib.Resync

/-!
# The receive buffer of the parsers

`FrameParser` and `StreamAssembler` keep the same three members, `m_buf`,
`m_pos` and `m_resyncs`, and have the same `compact` and `resync` up to the
magic they look for.  `RxBuf` is those members, with the invariant that the
read position is inside the buffer.

What matters of a buffer is what is still to be read, `RxBuf.unread`.
Compaction does not change it (`unread_compact`).  A resync that finds a magic
drops the bytes before it, and one that finds none keeps the last bytes of the
*buffer*, which may reach back over bytes already read (`resync_spec`).
-/

namespace MFoES.Usbproto

open Pattern Incremental

/-- The members `m_buf`, `m_pos` and `m_resyncs`. -/
structure RxBuf where
  buf : List UInt8
  /-- Read offset into `buf`. -/
  pos : Nat
  resyncs : Nat
  pos_le : pos ≤ buf.length

namespace RxBuf

/-- The buffer of a newly constructed parser. -/
def fresh : RxBuf := ⟨[], 0, 0, Nat.le_refl 0⟩

/-- The bytes still to be read, `m_buf.data() + m_pos`. -/
def unread (b : RxBuf) : List UInt8 := b.buf.drop b.pos

/-- `m_buf.size() - m_pos`. -/
def avail (b : RxBuf) : Nat := b.buf.length - b.pos

/-- `m_buf.insert(m_buf.end(), data, data + len)`. -/
def insert (b : RxBuf) (data : List UInt8) : RxBuf :=
  { b with
    buf := b.buf ++ data
    pos_le := by rw [List.length_append]; exact Nat.le_add_right_of_le b.pos_le }

/-- `m_pos += n`. -/
def advance (b : RxBuf) (n : Nat) (h : n ≤ b.avail) : RxBuf :=
  { b with
    pos := b.pos + n
    pos_le := by have := b.pos_le; rw [avail] at h; omega }

/-- `reset()`. -/
def reset (b : RxBuf) : RxBuf := ⟨[], 0, b.resyncs, Nat.le_refl 0⟩

/-- `compact()`: reclaim the dead prefix once it is worth a move. -/
def compact (b : RxBuf) : RxBuf :=
  if b.pos = 0 then b
  else if b.buf.length ≤ b.pos then { b with buf := [], pos := 0, pos_le := Nat.le_refl 0 }
  else if usbBufSize ≤ b.pos then
    { b with buf := b.buf.drop b.pos, pos := 0, pos_le := Nat.zero_le _ }
  else b

/-- `resync()`: skip the byte the position is on and look for the next magic.
When there is none, keep only what could be a split magic. -/
def resync (b : RxBuf) (magic : List UInt8) : RxBuf × Bool :=
  let found := findPattern b.buf (b.pos + 1) magic
  if h : b.buf.length ≤ found then
    let keep := keepTail magic.length
    (compact
      { b with
        resyncs := b.resyncs + 1
        pos := if keep < b.buf.length then b.buf.length - keep else b.pos
        pos_le := by have := b.pos_le; split <;> omega }, false)
  else
    ({ b with resyncs := b.resyncs + 1, pos := found, pos_le := by omega }, true)

@[simp] theorem unread_fresh : fresh.unread = [] := rfl

@[simp] theorem length_unread (b : RxBuf) : b.unread.length = b.avail := List.length_drop

@[simp] theorem unread_insert (b : RxBuf) (data : List UInt8) :
    (b.insert data).unread = b.unread ++ data :=
  List.drop_append_of_le_length b.pos_le

@[simp] theorem unread_advance (b : RxBuf) (n : Nat) (h : n ≤ b.avail) :
    (b.advance n h).unread = b.unread.drop n :=
  List.drop_drop.symm

/-- Compaction does not change what is still to be read. -/
@[simp] theorem unread_compact (b : RxBuf) : b.compact.unread = b.unread := by
  unfold compact
  split
  · rfl
  · split
    next h => exact (List.drop_eq_nil_of_le h).symm
    next => split <;> rfl

theorem occurs_unread {b : RxBuf} {magic : List UInt8} {i : Nat} :
    Occurs magic b.unread i ↔ Occurs magic b.buf (b.pos + i) := occurs_drop

/-- What a resync leaves to be read.  Either it found a magic and drops the
bytes before it, or there is none after the first byte. -/
theorem resync_spec (b : RxBuf) {magic : List UInt8} (hm : magic ≠ []) :
    ((b.resync magic).2 = true ∧ ∃ n, 0 < n ∧ n + magic.length ≤ b.avail ∧
        (b.resync magic).1.unread = b.unread.drop n ∧
        ∀ i, 0 < i → i < n → ¬ Occurs magic b.unread i) ∨
      ((b.resync magic).2 = false ∧ (∀ i, 0 < i → ¬ Occurs magic b.unread i) ∧
        (b.resync magic).1.unread =
          b.buf.drop (if keepTail magic.length < b.buf.length
            then b.buf.length - keepTail magic.length else b.pos)) := by
  rcases findPattern_spec b.buf (b.pos + 1) hm with ⟨hle, hocc, hbefore⟩ | ⟨heq, hnone⟩
  · have hfit := hocc.add_length_le hm
    have hpos := List.length_pos_iff.mpr hm
    rw [resync, dif_neg (by omega)]
    refine Or.inl ⟨rfl, findPattern b.buf (b.pos + 1) magic - b.pos, by omega, by
      rw [avail]; omega, ?_, fun i h0 hi => ?_⟩
    · rw [unread, unread, List.drop_drop]
      congr 1
      change findPattern b.buf (b.pos + 1) magic = _
      omega
    · rw [occurs_unread]
      exact hbefore _ (by omega) (by omega)
  · rw [resync, dif_pos (by omega)]
    refine Or.inr ⟨rfl, fun i h0 => ?_, by rw [unread_compact]; rfl⟩
    rw [occurs_unread]
    exact hnone _ (by omega)

/-! ## Resynchronising in a loop -/

/-- `if (!resync()) break; continue;` -/
def resyncPass {β : Type} (b : RxBuf) (magic : List UInt8) : Pass RxBuf β :=
  match b.resync magic with
  | (q, false) => .done q
  | (q, true) => .again q []

/-- The tail that a failed resync keeps starts before the read position, at
bytes that could be the beginning of a magic. -/
def Rewinds (b : RxBuf) (magic : List UInt8) : Prop :=
  keepTail magic.length < b.buf.length ∧
    ∃ j < b.pos, b.buf.length - keepTail magic.length ≤ j ∧ b.buf.drop j <+: magic

instance (b : RxBuf) (magic : List UInt8) : Decidable (b.Rewinds magic) := by
  unfold Rewinds
  infer_instance

/-- A long enough rest holds the whole tail. -/
theorem not_rewinds_of_le {b : RxBuf} {magic : List UInt8} (h : keepTail magic.length ≤ b.avail) :
    ¬ b.Rewinds magic := by
  rintro ⟨-, j, hlt, hle, -⟩
  rw [avail] at h
  have := b.pos_le
  omega

section Sync

variable {β : Type} {S : Scanner UInt8 β} {magic : List UInt8}

/-- A resync finds the next magic, or there is no record to be found. -/
theorem resyncPass_sound (hS : S.SyncsOn magic) (hm : magic ≠ []) {b : RxBuf}
    (hskip : S.verdict b.unread = .skip) : (b.resyncPass magic).Sound S unread b := by
  rcases hspec : b.resync magic with ⟨q, _ | _⟩
  · rw [resyncPass, hspec]
    rcases b.resync_spec hm with ⟨hf, -⟩ | ⟨-, hnone, -⟩
    · rw [hspec] at hf
      cases hf
    · change S.records b.unread = []
      rw [S.records_of_skip hskip]
      refine hS.records_eq_nil fun i => ?_
      rw [occurs_drop]
      exact hnone (1 + i) (by omega)
  · rw [resyncPass, hspec]
    rcases b.resync_spec hm with ⟨-, n, h0, hn, hun, hbefore⟩ | ⟨hf, -⟩
    · rw [hspec] at hun
      change S.Advances b.unread q.unread [] ∧ q.unread.length < b.unread.length
      rw [hun]
      refine ⟨hS.advances_resync hskip (by rw [length_unread]; omega) hbefore, ?_⟩
      rw [List.length_drop, length_unread]
      omega
    · rw [hspec] at hf
      cases hf

/-- A tail kept from the unread bytes gives nothing away. -/
theorem advances_tail (hS : S.SyncsOn magic) {b : RxBuf} (hskip : S.verdict b.unread = .skip)
    (hnone : ∀ i, 0 < i → ¬ Occurs magic b.unread i) (hm : magic ≠ [])
    (hkeep : keepTail magic.length ≤ b.avail) :
    S.Advances b.unread (b.buf.drop (b.buf.length - keepTail magic.length)) [] := by
  have hpos := List.length_pos_iff.mpr hm
  have hk : keepTail magic.length = magic.length - 1 := if_pos hpos
  have hle := b.pos_le
  have hne := List.length_pos_iff.mpr (S.skip_ne_nil hskip)
  rw [length_unread] at hne
  have hdrop : b.buf.drop (b.buf.length - keepTail magic.length) =
      b.unread.drop (b.avail - keepTail magic.length) := by
    rw [unread, List.drop_drop]
    congr 1
    rw [avail] at hkeep ⊢
    omega
  rw [hdrop]
  refine hS.advances_resync hskip ?_ fun i h0 _ => hnone i h0
  rw [length_unread]
  omega

/-- A tail kept from bytes already read gives nothing away, if no magic can
start in these. -/
theorem advances_rewound (hS : S.SyncsOn magic) {b : RxBuf} (hm : magic ≠ [])
    (hlong : keepTail magic.length < b.buf.length) (hclean : ¬ b.Rewinds magic)
    (hkeep : b.avail < keepTail magic.length) :
    S.Advances b.unread (b.buf.drop (b.buf.length - keepTail magic.length)) [] := by
  have hpos := List.length_pos_iff.mpr hm
  have hk : keepTail magic.length = magic.length - 1 := if_pos hpos
  have hle := b.pos_le
  rw [avail] at hkeep
  have hdrop : b.unread = (b.buf.drop (b.buf.length - keepTail magic.length)).drop
      (b.pos - (b.buf.length - keepTail magic.length)) := by
    rw [unread, List.drop_drop]
    congr 1
    omega
  rw [hdrop]
  refine (hS.advances_apart fun i hi => ?_).symm
  rw [List.drop_drop]
  refine ⟨fun hpre => hclean ⟨hlong, _, by omega, Nat.le_add_right _ i, hpre⟩, fun hpre => ?_⟩
  have hlen := hpre.length_le
  rw [List.length_drop] at hlen
  omega

omit S in
/-- A resync that rewinds finds no magic, and leaves the tail. -/
theorem resyncPass_of_rewinds {b : RxBuf} (hm : magic ≠ []) (h : b.Rewinds magic) :
    ∃ q, (b.resyncPass magic : Pass RxBuf β) = .done q ∧
      q.unread = b.buf.drop (b.buf.length - keepTail magic.length) := by
  obtain ⟨hlong, j, hlt, hle, -⟩ := h
  have hpos := List.length_pos_iff.mpr hm
  have hk : keepTail magic.length = magic.length - 1 := if_pos hpos
  rcases hspec : b.resync magic with ⟨q, found⟩
  rcases b.resync_spec hm with ⟨-, n, h0, hn, -⟩ | ⟨hf, -, hun⟩
  · rw [avail] at hn
    omega
  · rw [hspec] at hf hun
    subst hf
    rw [if_pos hlong] at hun
    exact ⟨q, by rw [resyncPass, hspec], hun⟩

/-- A resync that does not rewind gives nothing away. -/
theorem resyncPass_keeps (hS : S.SyncsOn magic) (hm : magic ≠ []) {b : RxBuf}
    (hskip : S.verdict b.unread = .skip) (hclean : ¬ b.Rewinds magic) :
    (b.resyncPass magic).Keeps S unread b := by
  rcases hspec : b.resync magic with ⟨q, _ | _⟩
  · rw [resyncPass, hspec]
    rcases b.resync_spec hm with ⟨hf, -⟩ | ⟨-, hnone, hun⟩
    · rw [hspec] at hf
      cases hf
    · rw [hspec] at hun
      change S.Advances b.unread q.unread []
      rw [hun]
      split
      next hlong =>
        rcases Nat.lt_or_ge b.avail (keepTail magic.length) with hlt | hge
        · exact advances_rewound hS hm hlong hclean hlt
        · exact advances_tail hS hskip hnone hm hge
      next => exact .refl _
  · rw [resyncPass, hspec]
    exact trivial

end Sync

end RxBuf

end MFoES.Usbproto
