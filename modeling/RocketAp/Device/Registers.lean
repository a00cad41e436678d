import Mathlib.Data.UInt
import Mathlib.Tactic.IntervalCases

/-!
# The registers of the associative processor

The enumerations of `ap_hal.h` with the numbers the source gives them, and the
words `set_mode_reg` and `set_control_reg` build from them. `MODE` holds, from its
high byte down, the internal column, the column, the direction and the command;
`CONTROL` holds `ap_if_state` (bit 24), the target (bit 16), the trigger (bit 8)
and the resets (the low byte).

`RIGHT` is `0b111` and not `1`: byte 3 of `MODE` is a mask with a bit for each of
the columns `A`, `B` and `C`, and `0b011` selects the right side of `A` and `B` and
the left side of `C`.
-/

namespace RocketAp.Device

/-! ### Enumerations -/

/-- `APOperations`. -/
inductive APOperations where
  | or | xor | and | not | add | sub | mult | set | search | addD
  deriving DecidableEq, Repr

/-- `APCollunm`. -/
inductive APCollunm where
  | camA | camB | camC
  deriving DecidableEq, Repr

/-- `APInternalCollunm`. -/
inductive APInternalCollunm where
  | left | right
  deriving DecidableEq, Repr

/-- `APOpDirection`. -/
inductive APOpDirection where
  | horizontal | vertical
  deriving DecidableEq, Repr

/-- `OpTarget`. -/
inductive OpTarget where
  | targetC | targetA
  deriving DecidableEq, Repr

/-- `BitState`. -/
inductive BitState where
  | false | true
  deriving DecidableEq, Repr

/-- `OR = 0, XOR = 1, …, ADD_D = 9`. -/
def APOperations.val : APOperations → UInt32
  | .or => 0 | .xor => 1 | .and => 2 | .not => 3 | .add => 4
  | .sub => 5 | .mult => 6 | .set => 7 | .search => 8 | .addD => 9

/-- `CAM_A = 0, CAM_B = 1, CAM_C = 2`. -/
def APCollunm.val : APCollunm → UInt32
  | .camA => 0 | .camB => 1 | .camC => 2

/-- `LEFT = 0, RIGHT = 7`. -/
def APInternalCollunm.val : APInternalCollunm → UInt32
  | .left => 0 | .right => 7

/-- `HORIZONTAL = 0, VERTICAL = 1`. -/
def APOpDirection.val : APOpDirection → UInt32
  | .horizontal => 0 | .vertical => 1

/-- `TARGET_C = 0, TARGET_A = 1`. -/
def OpTarget.val : OpTarget → UInt32
  | .targetC => 0 | .targetA => 1

/-! Every number fits in a byte of `MODE`. -/

@[simp] theorem APOperations.val_mod (op : APOperations) : op.val % 256 = op.val := by
  cases op <;> rfl

@[simp] theorem APCollunm.val_mod (col : APCollunm) : col.val % 256 = col.val := by
  cases col <;> rfl

@[simp] theorem APInternalCollunm.val_mod (internalCol : APInternalCollunm) :
    internalCol.val % 256 = internalCol.val := by
  cases internalCol <;> rfl

@[simp] theorem APOpDirection.val_mod (opDirection : APOpDirection) :
    opDirection.val % 256 = opDirection.val := by
  cases opDirection <;> rfl

/-- The operations `OR..MULT`, which work row by row on `A` and `B`. -/
def APOperations.rowwise : APOperations → Bool
  | .set | .search | .addD => false
  | _ => true

/-- `ap_unit_test_sw`: what the CPU computes for a row. -/
def apUnitTestSw (op : APOperations) (x y : UInt8) : UInt8 :=
  match op with
  | .or => x ||| y
  | .xor => x ^^^ y
  | .and => x &&& y
  | .not => ~~~x
  | .add => x + y
  | .sub => x - y
  | .mult => x * y
  | _ => 0

/-! ### Words -/

/-- Bit `k` of a word. -/
def bit (k : ℕ) (w : UInt32) : Bool := w.toBitVec.getLsbD k

/-- Byte `k` of a word, byte `0` the lowest. -/
def byte (k : ℕ) (w : UInt32) : UInt8 := ⟨w.toBitVec.extractLsb' (8 * k) 8⟩

/-- The word `set_mode_reg` writes. -/
def modeWord (selInternalCol selCol opDirection cmd : UInt32) : UInt32 :=
  (selInternalCol <<< 24) ||| (selCol <<< 16) ||| (opDirection <<< 8) ||| cmd

/-- The word `set_control_reg` writes. -/
def controlWord (apIfState apOpTarget apTriggerAp apRst : UInt32) : UInt32 :=
  (apIfState <<< 24) ||| (apOpTarget <<< 16) ||| (apTriggerAp <<< 8) ||| apRst

/-- `CONTROL` bit 24: the interface is locked. -/
def ifState (w : UInt32) : Bool := bit 24 w

/-- `CONTROL` bit 16: the result goes to `A` instead of `C`. -/
def opTargetA (w : UInt32) : Bool := bit 16 w

/-- `CONTROL` bit 8: the trigger. -/
def trigger (w : UInt32) : Bool := bit 8 w

/-- `CONTROL` bits 0, 1, 2: reset column `A`, `B`, `C`. -/
def resetBit (c : APCollunm) (w : UInt32) : Bool := bit c.val.toNat w

/-- No column reset is asked for. -/
def noReset (w : UInt32) : Prop := ∀ c, resetBit c w = false

instance (w : UInt32) : Decidable (noReset w) :=
  decidable_of_iff (resetBit .camA w = false ∧ resetBit .camB w = false ∧ resetBit .camC w = false)
    ⟨fun ⟨ha, hb, hc⟩ c => by cases c <;> assumption, fun h => ⟨h _, h _, h _⟩⟩

/-- The side of column `c` that a `MODE` word selects: bit 0, 1, 2 of byte 3. -/
def sideOf (mode : UInt32) (c : APCollunm) : Bool := bit (24 + c.val.toNat) mode

/-- The lock that precedes a start does not trigger, whatever the target. -/
theorem trigger_lock (target : OpTarget) : trigger (controlWord 1 target.val 0 0) = false := by
  cases target <;> decide

/-- The start does. -/
theorem trigger_start (target : OpTarget) : trigger (controlWord 1 target.val 1 0) = true := by
  cases target <;> decide

/-- The reset of a column is of no other column. -/
theorem resetBit_controlWord (col c : APCollunm) :
    resetBit c (controlWord 1 0 0 (1 <<< col.val)) = true ↔ c = col := by
  cases col <;> cases c <;> decide

/-- The side of a column is a bit of the mask. -/
theorem sideOf_eq (mode : UInt32) (c : APCollunm) :
    sideOf mode c = (byte 3 mode).toBitVec.getLsbD c.val.toNat := by
  cases c <;> simp [sideOf, bit, byte, APCollunm.val]

/-- The bytes of a `MODE` word are the bytes it was built from. -/
theorem byte_modeWord (a b c d : UInt8) :
    byte 3 (modeWord a.toUInt32 b.toUInt32 c.toUInt32 d.toUInt32) = a ∧
      byte 2 (modeWord a.toUInt32 b.toUInt32 c.toUInt32 d.toUInt32) = b ∧
      byte 1 (modeWord a.toUInt32 b.toUInt32 c.toUInt32 d.toUInt32) = c ∧
      byte 0 (modeWord a.toUInt32 b.toUInt32 c.toUInt32 d.toUInt32) = d := by
  refine ⟨?_, ?_, ?_, ?_⟩ <;>
  · apply UInt8.eq_of_toBitVec_eq
    ext i hi
    simp only [byte, modeWord]
    interval_cases i <;> simp

/-- The bytes of the word for an operation. -/
theorem byte_modeWord_val (internalCol : APInternalCollunm) (col : APCollunm)
    (opDirection : APOpDirection) (op : APOperations) :
    byte 3 (modeWord internalCol.val col.val opDirection.val op.val) = internalCol.val.toUInt8 ∧
      byte 2 (modeWord internalCol.val col.val opDirection.val op.val) = col.val.toUInt8 ∧
      byte 1 (modeWord internalCol.val col.val opDirection.val op.val) = opDirection.val.toUInt8 ∧
      byte 0 (modeWord internalCol.val col.val opDirection.val op.val) = op.val.toUInt8 := by
  have h := byte_modeWord internalCol.val.toUInt8 col.val.toUInt8 opDirection.val.toUInt8
    op.val.toUInt8
  simp only [UInt32.toUInt32_toUInt8, APInternalCollunm.val_mod, APCollunm.val_mod,
    APOpDirection.val_mod, APOperations.val_mod] at h
  exact h

end RocketAp.Device
