import MFoES.Lib.Quadrature

/-!
# The rotary encoder

The interrupt handler reads the two quadrature lines, looks the transition up
in a table and counts whole detents out of an accumulator of one byte.

The counters are 32 bits wide and wrap.  A detent counts for three readers: the
position, the reports of the task and `encoder_take_delta`.
-/

namespace MFoES.Northbridge

open Quadrature

/-- What `encoder.h` sets: `ENCODER_STEPS_PER_DETENT`, which has to leave the accumulator room in
a byte, and `ENCODER_CW_POSITIVE`. -/
structure EncoderConfig where
  stepsPerDetent : Nat
  pos : 0 < stepsPerDetent
  le : stepsPerDetent ≤ 127
  cwPositive : Bool

/-- The values of `encoder.h`. -/
def encoderConfig : EncoderConfig := ⟨4, by decide, by decide, true⟩

/-- `kSign`. -/
def EncoderConfig.kSign (c : EncoderConfig) : Int8 := if c.cwPositive then 1 else -1

/-- `kQuadTable`. -/
def kQuadTable : List Int8 := [0, -1, 1, 0, 1, 0, 0, -1, -1, 0, 0, 1, 0, 1, -1, 0]

/-- `kBothEdges`: `GPIO_IRQ_EDGE_RISE` and `GPIO_IRQ_EDGE_FALL`. -/
def kBothEdges : UInt32 := 0x8 ||| 0x4

/-- `read_state`. -/
def readState (lines : Lines) : UInt8 := (if lines.a then 2 else 0) ||| (if lines.b then 1 else 0)

/-- What an interrupt finds: `gpio_get_irq_event_mask` of the three pins, and the lines. -/
structure Interrupt where
  eventsA : UInt32
  eventsB : UInt32
  eventsBtn : UInt32
  lines : Lines
deriving DecidableEq

/-- `quad`: an edge of a quadrature line is pending. -/
def Interrupt.quad (i : Interrupt) : Bool :=
  i.eventsA &&& kBothEdges != 0 || i.eventsB &&& kBothEdges != 0

/-- `any`: so is one of the three pins. -/
def Interrupt.any (i : Interrupt) : Bool := i.quad || i.eventsBtn &&& kBothEdges != 0

/-- The variables of the handler. -/
structure Encoder where
  /-- `g_state`. -/
  state : UInt8 := 0
  /-- `g_sub`. -/
  sub : Int8 := 0
  /-- `g_position`. -/
  position : Int32 := 0
  /-- `g_queue_delta`. -/
  queueDelta : Int32 := 0
  /-- `g_poll_delta`. -/
  pollDelta : Int32 := 0
  /-- `g_errors`. -/
  errors : UInt32 := 0
deriving DecidableEq

/-! ## The handler -/

theorem toInt_ofNat_of_le {n : Nat} (hn : n ≤ 127) : (Int8.ofNat n).toInt = n := by
  rw [← Int8.ofInt_eq_ofNat, Int8.toInt_ofInt_of_le] <;> omega

theorem toInt_sub_ofNat {a : Int8} {n : Nat} (hn : n ≤ 127) (h : (n : Int) ≤ a.toInt) :
    (a - Int8.ofNat n).toInt = a.toInt - n := by
  have hlt := a.toInt_lt
  rw [Int8.toInt_sub, toInt_ofNat_of_le hn, Int.bmod_eq_of_le] <;> omega

theorem toInt_add_ofNat {a : Int8} {n : Nat} (hn : n ≤ 127) (h : a.toInt ≤ -(n : Int)) :
    (a + Int8.ofNat n).toInt = a.toInt + n := by
  have hle := a.le_toInt
  rw [Int8.toInt_add, toInt_ofNat_of_le hn, Int.bmod_eq_of_le] <;> omega

namespace Encoder

variable (c : EncoderConfig)

/-- The first `while` loop: whole detents forward leave the accumulator. -/
def carryUp (s : Encoder) : Encoder :=
  if _h : (c.stepsPerDetent : Int) ≤ s.sub.toInt then
    carryUp { s with
      sub := s.sub - Int8.ofNat c.stepsPerDetent
      position := s.position + 1
      queueDelta := s.queueDelta + 1
      pollDelta := s.pollDelta + 1 }
  else s
termination_by s.sub.toInt.toNat
decreasing_by
  have hpos := c.pos
  rw [toInt_sub_ofNat c.le _h]
  omega

/-- The second `while` loop: whole detents backward leave it. -/
def carryDown (s : Encoder) : Encoder :=
  if _h : s.sub.toInt ≤ -(c.stepsPerDetent : Int) then
    carryDown { s with
      sub := s.sub + Int8.ofNat c.stepsPerDetent
      position := s.position - 1
      queueDelta := s.queueDelta - 1
      pollDelta := s.pollDelta - 1 }
  else s
termination_by (-s.sub.toInt).toNat
decreasing_by
  have hpos := c.pos
  rw [toInt_add_ofNat c.le _h]
  omega

/-- What `encoder_isr` does with a state of the lines that it has not seen last. -/
def turn (s : Encoder) (state : UInt8) : Encoder :=
  let dir := kQuadTable.getD (s.state.toNat <<< 2 ||| state.toNat) 0
  carryDown c (carryUp c { s with
    errors := if dir = 0 then s.errors + 1 else s.errors
    state
    sub := s.sub + dir * c.kSign })

/-- `encoder_isr`.  It notifies the task where an edge belongs to one of the pins. -/
def isr (s : Encoder) (i : Interrupt) : Encoder :=
  if i.quad ∧ readState i.lines ≠ s.state then s.turn c (readState i.lines) else s

/-- `encoder_init`, with the lines as they are then. -/
def init (lines : Lines) : Encoder := { state := readState lines }

/-! ## What the handler keeps -/

variable {c} {s t u : Encoder}

/-- `k` detents left the accumulator, for each of the counters. -/
structure Carried (c : EncoderConfig) (k : Int) (s t : Encoder) : Prop where
  sub : c.stepsPerDetent * k + t.sub.toInt = s.sub.toInt
  position : t.position = s.position + Int32.ofInt k
  queueDelta : t.queueDelta = s.queueDelta + Int32.ofInt k
  state : t.state = s.state
  errors : t.errors = s.errors

theorem Carried.refl (c : EncoderConfig) (s : Encoder) : Carried c 0 s s where
  sub := by rw [Int.mul_zero, Int.zero_add]
  position := (Int32.add_zero _).symm
  queueDelta := (Int32.add_zero _).symm
  state := rfl
  errors := rfl

theorem Carried.trans {k l : Int} (h : Carried c k s t) (h' : Carried c l t u) :
    Carried c (k + l) s u where
  sub := by
    have hsum := h.sub
    rw [← h'.sub] at hsum
    rw [Int.mul_add]
    omega
  position := by rw [h'.position, h.position, Int32.ofInt_add, Int32.add_assoc]
  queueDelta := by rw [h'.queueDelta, h.queueDelta, Int32.ofInt_add, Int32.add_assoc]
  state := h'.state.trans h.state
  errors := h'.errors.trans h.errors

/-- The first loop ends below a detent. -/
theorem carryUp_spec (c : EncoderConfig) (s : Encoder) :
    ∃ k, Carried c k s (carryUp c s) ∧ (carryUp c s).sub.toInt < c.stepsPerDetent := by
  induction s using carryUp.induct (c := c) with
  | case1 s h ih =>
      obtain ⟨k, hcarried, hlt⟩ := ih
      have hone : Carried c 1 s { s with
          sub := s.sub - Int8.ofNat c.stepsPerDetent
          position := s.position + 1
          queueDelta := s.queueDelta + 1
          pollDelta := s.pollDelta + 1 } :=
        ⟨by rw [toInt_sub_ofNat c.le h]; omega, rfl, rfl, rfl, rfl⟩
      rw [carryUp, dif_pos h]
      exact ⟨1 + k, hone.trans hcarried, hlt⟩
  | case2 s h =>
      rw [carryUp, dif_neg h]
      exact ⟨0, .refl c s, Int.not_le.mp h⟩

/-- The second loop ends above a detent backward, and does not go above 0 for it. -/
theorem carryDown_spec (c : EncoderConfig) (s : Encoder) :
    ∃ k, Carried c k s (carryDown c s) ∧ -(c.stepsPerDetent : Int) < (carryDown c s).sub.toInt ∧
      ((carryDown c s).sub.toInt ≤ 0 ∨ carryDown c s = s) := by
  induction s using carryDown.induct (c := c) with
  | case1 s h ih =>
      obtain ⟨k, hcarried, hlt, hsub⟩ := ih
      have hone : Carried c (-1) s { s with
          sub := s.sub + Int8.ofNat c.stepsPerDetent
          position := s.position - 1
          queueDelta := s.queueDelta - 1
          pollDelta := s.pollDelta - 1 } :=
        ⟨by rw [toInt_add_ofNat c.le h]; omega, Int32.sub_eq_add_neg _ _,
          Int32.sub_eq_add_neg _ _, rfl, rfl⟩
      rw [carryDown, dif_pos h]
      refine ⟨-1 + k, hone.trans hcarried, hlt, .inl ?_⟩
      rcases hsub with hsub | hsub
      · exact hsub
      · rw [hsub, toInt_add_ofNat c.le h]
        omega
  | case2 s h =>
      rw [carryDown, dif_neg h]
      exact ⟨0, .refl c s, Int.not_le.mp h, .inr rfl⟩

/-- The two loops leave less than a detent. -/
theorem carry_spec (c : EncoderConfig) (s : Encoder) :
    ∃ k, Carried c k s (carryDown c (carryUp c s)) ∧
      -(c.stepsPerDetent : Int) < (carryDown c (carryUp c s)).sub.toInt ∧
      (carryDown c (carryUp c s)).sub.toInt < c.stepsPerDetent := by
  obtain ⟨k, hup, hlt⟩ := carryUp_spec c s
  obtain ⟨l, hdown, hgt, hsub⟩ := carryDown_spec c (carryUp c s)
  refine ⟨k + l, hup.trans hdown, hgt, ?_⟩
  rcases hsub with hsub | hsub
  · have hpos := c.pos
    omega
  · rw [hsub]
    exact hlt

/-- The table has the move of every legal transition, and a change of the lines is a move. -/
theorem kQuadTable_move {old new : Lines} (h : Legal old new)
    (hne : readState new ≠ readState old) :
    (kQuadTable.getD ((readState old).toNat <<< 2 ||| (readState new).toNat) 0).toInt =
        move old new ∧
      kQuadTable.getD ((readState old).toNat <<< 2 ||| (readState new).toNat) 0 ≠ 0 := by
  obtain ⟨a, b⟩ := old
  obtain ⟨a', b'⟩ := new
  revert a b a' b'
  decide

theorem move_of_readState_eq {old new : Lines} (h : readState new = readState old) :
    move old new = 0 := by
  obtain ⟨a, b⟩ := old
  obtain ⟨a', b'⟩ := new
  revert a b a' b'
  decide

theorem move_bounds (old new : Lines) : -1 ≤ move old new ∧ move old new ≤ 1 := by
  rw [move]
  split <;> [decide; split <;> decide]

/-- A move is added to the accumulator without a wrap. -/
theorem toInt_sub_add (c : EncoderConfig) {a dir : Int8} (hdir : -1 ≤ dir.toInt ∧ dir.toInt ≤ 1)
    (ha : -(c.stepsPerDetent : Int) < a.toInt ∧ a.toInt < c.stepsPerDetent) :
    (a + dir * c.kSign).toInt = a.toInt + c.kSign.toInt * dir.toInt := by
  have hle := c.le
  have hprod : (dir * c.kSign).toInt = c.kSign.toInt * dir.toInt := by
    rw [EncoderConfig.kSign]
    split
    · rw [Int8.mul_one, show (1 : Int8).toInt = 1 from rfl, Int.one_mul]
    · rw [Int8.toInt_mul, show (-1 : Int8).toInt = -1 from rfl, Int.mul_comm, Int.bmod_eq_of_le] <;>
        omega
  have hsign : c.kSign.toInt = 1 ∨ c.kSign.toInt = -1 := by
    rw [EncoderConfig.kSign]
    split
    · exact .inl rfl
    · exact .inr rfl
  rw [Int8.toInt_add, hprod]
  rcases hsign with hsign | hsign <;> rw [hsign, Int.bmod_eq_of_le] <;> omega

/-- The lines as they were seen last and the moves so far are what the handler has. -/
structure Counted (c : EncoderConfig) (lines : Lines) (moves : Int) (s : Encoder) : Prop where
  state : s.state = readState lines
  split : ∃ p, s.position = Int32.ofInt p ∧
    Splits c.stepsPerDetent (c.kSign.toInt * moves) p s.sub.toInt
  errors : s.errors = 0

theorem Counted.init (c : EncoderConfig) (lines : Lines) : Counted c lines 0 (init lines) where
  state := rfl
  split := by
    refine ⟨0, rfl, ⟨?_, ?_, ?_⟩⟩
    · rw [Int.mul_zero, Int.mul_zero]
      rfl
    · exact Int.neg_neg_of_pos (Int.natCast_pos.mpr c.pos)
    · exact Int.natCast_pos.mpr c.pos
  errors := rfl

/-- An interrupt counts a legal move. -/
theorem Counted.isr {lines : Lines} {moves : Int} (h : Counted c lines moves s) {i : Interrupt}
    (hquad : i.quad) (hlegal : Legal lines i.lines) :
    Counted c i.lines (moves + move lines i.lines) (s.isr c i) := by
  by_cases hne : readState i.lines ≠ s.state
  · rw [Encoder.isr, if_pos ⟨hquad, hne⟩, turn]
    rw [h.state] at hne ⊢
    obtain ⟨hmove, hdir⟩ := kQuadTable_move hlegal hne
    obtain ⟨p, hp, hsplit⟩ := h.split
    obtain ⟨k, hcarried, hlower, hupper⟩ := carry_spec c { s with
      errors := _, state := readState i.lines, sub := s.sub + _ * c.kSign }
    refine ⟨hcarried.state, ⟨p + k, ?_, ?_, hlower, hupper⟩, ?_⟩
    · rw [hcarried.position, hp, Int32.ofInt_add]
    · have hsub := hcarried.sub
      rw [toInt_sub_add c (by rw [hmove]; exact move_bounds _ _) ⟨hsplit.lower, hsplit.upper⟩,
        hmove] at hsub
      have hsum := hsplit.sum
      rw [Int.mul_add, Int.mul_add]
      omega
    · rw [hcarried.errors, if_neg hdir]
      exact h.errors
  · rw [Encoder.isr, if_neg fun hquad => hne hquad.2]
    rw [not_not, h.state] at hne
    rw [move_of_readState_eq hne, Int.add_zero]
    exact ⟨h.state.trans hne.symm, h.split, h.errors⟩

/-! ## Runs of interrupts -/

/-- The states of the lines that the interrupts read. -/
def seen (is : List Interrupt) : List Lines := (is.filter (·.quad)).map (·.lines)

/-- Interrupts one after the other. -/
def isrs (c : EncoderConfig) (s : Encoder) (is : List Interrupt) : Encoder := is.foldl (isr c) s

theorem isr_of_not_quad {i : Interrupt} (h : ¬ i.quad) : s.isr c i = s :=
  if_neg fun hquad => h hquad.1

/-- A run on a legal path counts its net moves. -/
theorem Counted.isrs {lines : Lines} {moves : Int} (h : Counted c lines moves s)
    {is : List Interrupt} (hpath : Path lines (seen is)) :
    Counted c (last lines (seen is)) (moves + net lines (seen is)) (s.isrs c is) := by
  induction is generalizing lines moves s with
  | nil =>
      rw [show net lines (seen []) = 0 from rfl, Int.add_zero]
      exact h
  | cons i is ih =>
      rw [Encoder.isrs, List.foldl_cons]
      by_cases hquad : i.quad
      · rw [seen, List.filter_cons_of_pos hquad, List.map_cons] at hpath ⊢
        rw [net_cons, last_cons, ← Int.add_assoc]
        exact ih (h.isr hquad hpath.1) hpath.2
      · rw [seen, List.filter_cons_of_neg hquad] at hpath ⊢
        rw [isr_of_not_quad hquad]
        exact ih h hpath

/-- On every legal path from power-on the detents and the rest make up the net moves, and no error
is counted.  A path on from there without net moves leaves their sum as it is.  It leaves the
position and the rest as they are where the rest is 0, and elsewhere moves at most one detent from
one to the other. -/
theorem position_counts_moves (c : EncoderConfig) {lines : Lines} {is : List Interrupt}
    (h : Path lines (seen is)) :
    (∃ p, ((init lines).isrs c is).position = Int32.ofInt p ∧
      Splits c.stepsPerDetent (c.kSign.toInt * net lines (seen is)) p
        ((init lines).isrs c is).sub.toInt) ∧
    ((init lines).isrs c is).errors = 0 ∧
    ∀ js, Path (last lines (seen is)) (seen js) → net (last lines (seen is)) (seen js) = 0 →
      ∃ k : Int, (k = -1 ∨ k = 0 ∨ k = 1) ∧
        (((init lines).isrs c is).sub = 0 → k = 0) ∧
        (((init lines).isrs c is).isrs c js).position =
          ((init lines).isrs c is).position + Int32.ofInt k ∧
        c.stepsPerDetent * k + (((init lines).isrs c is).isrs c js).sub.toInt =
          ((init lines).isrs c is).sub.toInt ∧
        (((init lines).isrs c is).isrs c js).errors = 0 := by
  have hcounted := (Counted.init c lines).isrs h
  rw [Int.zero_add] at hcounted
  refine ⟨hcounted.split, hcounted.errors, fun js hpath hnet => ?_⟩
  have hback := hcounted.isrs hpath
  rw [hnet, Int.add_zero] at hback
  obtain ⟨p, hp, hsplit⟩ := hcounted.split
  obtain ⟨p', hp', hsplit'⟩ := hback.split
  refine ⟨p' - p, hsplit.near hsplit', fun hsub => ?_, ?_, ?_, hback.errors⟩
  · rw [hsub] at hsplit
    rw [(hsplit.eq_of_rest hsplit').1, Int.sub_self]
  · rw [hp, hp', ← Int32.ofInt_add]
    congr 1
    omega
  · have hsum := hsplit.sum
    have hsum' := hsplit'.sum
    rw [Int.mul_sub]
    omega

/-- An interrupt for an edge of a quadrature line. -/
def edge (a b : Bool) : Interrupt := ⟨kBothEdges, 0, 0, ⟨a, b⟩⟩

/-- Two moves forward. -/
def halfTurn : List Interrupt := [edge true false, edge true true]

/-- Two moves forward and two back. -/
def bounce : List Interrupt := [edge false true, edge false false, edge false true, edge true true]

theorem position_counts_moves_halfTurn :
    ∃ p, ((init ⟨false, false⟩).isrs encoderConfig halfTurn).position = Int32.ofInt p ∧
      Splits 4 2 p ((init ⟨false, false⟩).isrs encoderConfig halfTurn).sub.toInt :=
  (position_counts_moves encoderConfig (show Path ⟨false, false⟩ (seen halfTurn) by decide)).1

/-- From the middle of a detent, a path that ends where it began without net moves has a detent
counted and a negative rest. -/
theorem position_bounced :
    Path ⟨false, false⟩ (seen halfTurn) ∧ Path ⟨true, true⟩ (seen bounce) ∧
      last ⟨true, true⟩ (seen bounce) = ⟨true, true⟩ ∧ net ⟨true, true⟩ (seen bounce) = 0 ∧
      ((init ⟨false, false⟩).isrs encoderConfig halfTurn).position = 0 ∧
      ((init ⟨false, false⟩).isrs encoderConfig halfTurn).sub = 2 ∧
      (((init ⟨false, false⟩).isrs encoderConfig halfTurn).isrs encoderConfig bounce).position = 1 ∧
      (((init ⟨false, false⟩).isrs encoderConfig halfTurn).isrs encoderConfig bounce).sub = -2 := by
  decide +kernel

end Encoder

end MFoES.Northbridge
