import Mathlib.Data.List.FinRange
import MFoES.Lib.LittleEndian

/-!
# The panel expanders

Two expanders of 16 pins have 24 buttons, 4 toggles and 4 LEDs.  A pin is low while its switch is
closed, and an LED lights while its pin is driven low.
-/

namespace MFoES.Northbridge

open LittleEndian

/-- The two chips. -/
inductive Chip where
  | zero
  | one
deriving DecidableEq

/-- The index of a chip, below `PCF8575_CHIP_COUNT`. -/
def Chip.index : Chip → UInt8
  | .zero => 0
  | .one => 1

/-- A pin of a chip, P0 first. -/
abbrev Pin := Fin 16

/-- `PCF8575_BTN_MASK`. -/
def pcf8575BtnMask : UInt16 := 0x00ff

/-- `PCF8575_TOGGLE_MASK`. -/
def pcf8575ToggleMask : UInt16 := 0x0f00

/-- `PCF8575_LED_MASK`. -/
def pcf8575LedMask : UInt16 := 0xf000

/-- `PCF8575_LED_CHIP`. -/
def pcf8575LedChip : Chip := .one

/-- `PCF8575_LED_ACTIVE_LOW`. -/
def pcf8575LedActiveLow : Bool := true

/-! ## The LEDs -/

/-- The word that `pcf8575_set_leds` writes. -/
def setLedsWord (state : UInt16) : UInt16 :=
  let lit := state &&& pcf8575LedMask
  let drive := if pcf8575LedActiveLow then ~~~lit &&& pcf8575LedMask else lit
  (0xffff &&& ~~~pcf8575LedMask) ||| drive

/-- The LED state of a `NB_CMD_SET_LEDS` frame. -/
def ledNibble (b : UInt8) : UInt16 := (b &&& 0x0f).toUInt16

/-- The word that lights the LEDs of `g_led_state`. -/
def ledStateWord (ledState : UInt16) : UInt16 := setLedsWord (ledState <<< 12)

/-- The LEDs can be read off the word. -/
theorem ledStateWord_ledNibble (b : UInt8) :
    ~~~(ledStateWord (ledNibble b)) >>> 12 = ledNibble b := by
  revert b
  exact forall_uint8 (by decide +kernel)

/-- Different LEDs take different words. -/
theorem ledStateWord_inj {b c : UInt8}
    (h : ledStateWord (ledNibble b) = ledStateWord (ledNibble c)) : ledNibble b = ledNibble c := by
  rw [← ledStateWord_ledNibble b, h, ledStateWord_ledNibble]

/-! ## Pins -/

/-- `1u << pin`. -/
def pinBit (pin : Pin) : UInt16 := 1 <<< UInt16.ofNat pin

/-- The pins of a chip whose bits are set. -/
def changedPins (diff : UInt16) : List Pin :=
  (List.finRange 16).filter fun pin => diff &&& pinBit pin ≠ 0

/-- A debounced word, with the bits accepted on which two samples agree. -/
def acceptBits (old raw agreed : UInt16) : UInt16 := (old &&& ~~~agreed) ||| (raw &&& agreed)

theorem pinBit_toBitVec (pin : Pin) : (pinBit pin).toBitVec = .twoPow 16 pin := by
  revert pin
  decide

theorem and_eq_zero_iff_bits (x y : UInt16) :
    x &&& y = 0 ↔ ∀ i < 16, (x.toBitVec.getLsbD i && y.toBitVec.getLsbD i) = false := by
  rw [← UInt16.toBitVec_inj, UInt16.toBitVec_and]
  constructor
  · intro h i _
    have hbit := congrArg (fun v => v.getLsbD i) h
    simpa using hbit
  · intro h
    apply BitVec.eq_of_getLsbD_eq
    intro i hi
    simpa using h i hi

theorem mem_changedPins {diff : UInt16} {pin : Pin} :
    pin ∈ changedPins diff ↔ diff.toBitVec.getLsbD pin = true := by
  rw [changedPins, List.mem_filter, and_iff_right (List.mem_finRange pin), decide_eq_true_iff,
    Ne, ← UInt16.toBitVec_inj, UInt16.toBitVec_and, pinBit_toBitVec, BitVec.and_twoPow]
  cases diff.toBitVec.getLsbD pin with
  | false => simp
  | true =>
      revert pin
      decide

/-- No pin of a mask changed. -/
theorem and_eq_zero_of_changedPins {diff mask : UInt16}
    (h : ∀ pin ∈ changedPins diff, pinBit pin &&& mask = 0) : diff &&& mask = 0 := by
  rw [and_eq_zero_iff_bits]
  intro i hi
  cases hbit : diff.toBitVec.getLsbD i with
  | false => rfl
  | true =>
      have hpin := (and_eq_zero_iff_bits _ _).mp (h ⟨i, hi⟩ (mem_changedPins.mpr hbit)) i hi
      rw [pinBit_toBitVec, BitVec.getLsbD_twoPow] at hpin
      simpa [hi] using hpin

theorem acceptBits_and {old raw agreed mask : UInt16}
    (h : (old ^^^ raw) &&& agreed &&& mask = 0) :
    ~~~acceptBits old raw agreed &&& mask = ~~~old &&& mask := by
  rw [and_eq_zero_iff_bits] at h
  rw [← UInt16.toBitVec_inj]
  apply BitVec.eq_of_getLsbD_eq
  intro i hi
  have hbit := h i hi
  simp only [acceptBits, UInt16.toBitVec_and, UInt16.toBitVec_not, UInt16.toBitVec_or,
    UInt16.toBitVec_xor, BitVec.getLsbD_and, BitVec.getLsbD_not, BitVec.getLsbD_or,
    BitVec.getLsbD_xor, hi, decide_true, Bool.true_and] at hbit ⊢
  revert hbit
  cases old.toBitVec.getLsbD i <;> cases raw.toBitVec.getLsbD i <;>
    cases agreed.toBitVec.getLsbD i <;> simp

/-! ## The inputs -/

/-- The buttons of a word of each chip. -/
def buttonsOf (w₀ w₁ : UInt16) : UInt32 :=
  (~~~w₀).toUInt32 ||| (~~~w₁ &&& pcf8575BtnMask).toUInt32 <<< 16

/-- The toggles of a word of the LED chip. -/
def togglesOf (w₁ : UInt16) : UInt16 := (~~~w₁ &&& pcf8575ToggleMask) >>> 8

/-- `pcf8575_buttons`. -/
def pcf8575Buttons (stable : Chip → UInt16) : UInt32 :=
  buttonsOf (stable .zero) (stable pcf8575LedChip)

/-- `pcf8575_toggles`. -/
def pcf8575Toggles (stable : Chip → UInt16) : UInt16 := togglesOf (stable pcf8575LedChip)

theorem buttonsOf_toNat (w₀ w₁ : UInt16) :
    (buttonsOf w₀ w₁).toNat = (~~~w₀).toNat + 2 ^ 16 * ((~~~w₁).toNat % 2 ^ 8) := by
  have hmask : (~~~w₁ &&& pcf8575BtnMask).toNat = (~~~w₁).toNat % 2 ^ 8 := by
    rw [UInt16.toNat_and, show pcf8575BtnMask.toNat = 2 ^ 8 - 1 from rfl,
      Nat.and_two_pow_sub_one_eq_mod]
  have hshift : ((~~~w₁).toNat % 2 ^ 8) <<< 16 % 2 ^ 32 = ((~~~w₁).toNat % 2 ^ 8) <<< 16 := by
    rw [Nat.shiftLeft_eq]
    omega
  rw [buttonsOf, UInt32.toNat_or, UInt32.toNat_shiftLeft, UInt16.toNat_toUInt32,
    UInt16.toNat_toUInt32, hmask, show (16 : UInt32).toNat % 32 = 16 from rfl, hshift,
    or_shiftLeft (~~~w₀).toNat_lt]

/-- The buttons take three bytes. -/
theorem buttonsOf_lt (w₀ w₁ : UInt16) : (buttonsOf w₀ w₁).toNat < 2 ^ 24 := by
  have hlt := (~~~w₀).toNat_lt
  rw [buttonsOf_toNat]
  omega

theorem buttonsOf_inj {w₀ v₀ w₁ : UInt16} (h : buttonsOf w₀ w₁ = buttonsOf v₀ w₁) : w₀ = v₀ := by
  have hnat := congrArg UInt32.toNat h
  rw [buttonsOf_toNat, buttonsOf_toNat, Nat.add_right_cancel_iff, UInt16.toNat_inj] at hnat
  have hnot := congrArg (~~~·) hnat
  simpa using hnot

theorem togglesOf_lt (w₁ : UInt16) : (togglesOf w₁).toNat < 2 ^ 4 := by
  have hle : (~~~w₁ &&& pcf8575ToggleMask).toNat ≤ 0x0f00 := by
    rw [UInt16.toNat_and]
    exact Nat.and_le_right
  rw [togglesOf, UInt16.toNat_shiftRight, show (8 : UInt16).toNat % 16 = 8 from rfl,
    Nat.shiftRight_eq_div_pow]
  omega

end MFoES.Northbridge
