import RocketAp.Device.Platform

/-!
# The hardware abstraction layer

The functions of `ap_hal.c`, statement by statement, under their own names, and those
of `ap_funcs.S`, instruction by instruction. The monitor calls are left out: `AP_MONITOR`
is not defined.

A `while (ap_irq_check() == 0) {}` is `waitIrq`. It polls as often as the operation
that is running takes, which is as often as the loop goes round (`Hal.Waiting` proves
it: a loop given more polls does the same, and with no operation running no number of
polls ends it).
-/

namespace RocketAp.Hal

open ProgramLogic Device

variable (p : Platform)

/-! ### Waiting -/

/-- `tiny_delay`. -/
def tinyDelay (delayInNops : ℕ) : Prog Unit := forUpTo delayInNops fun _ => pure ()

/-- `while (ap_irq_check() == 0) {}`, given up after `n` polls. -/
def spin : ℕ → Prog Unit
  | 0 => throw .hang
  | n + 1 => do
    let v ← apIrqCheck
    if v = 0 then spin n else pure ()

/-- How many polls read `0` before one reads `1`, if one does. -/
def pollsLeft : Irq → ℕ
  | .busy n => n
  | _ => 0

/-- `while (ap_irq_check() == 0) {}`. -/
def waitIrq : Prog Unit := fun s => spin (pollsLeft s.irq + 1) s

/-- `ap_waiting_for_computing`. -/
def apWaitingForComputing : (loops : ℕ) → Prog BitState
  | 0 => pure .false
  | loops + 1 => do
    let v ← apIrqCheck
    if v = 1 then
      p.writeControl 0x0
      p.writeMode 0x0
      return .true
    else
      apWaitingForComputing loops

/-- `release_ap_if`. -/
def releaseApIf : Prog Unit := p.setControlReg 0 0 0 0

/-! ### Resets -/

/-- `warmup_ap`. -/
def warmupAp : Prog Unit := do
  p.writeControl 0
  p.writeMode 0
  -- lock the interface
  p.writeControl 0x1000000
  -- reset the three columns
  p.writeControl 0x1000007
  p.writeControl 0x1000000
  -- reset the engine
  p.writeControl 0x1000008
  p.writeControl 0x1000000
  -- the other side
  p.writeMode 0x7000000
  p.writeControl 0x1000007
  p.writeControl 0x1000000
  -- release the interface
  p.writeControl 0x0
  p.writeMode 0x0

/-- `reset_ap_engine`. -/
def resetApEngine : Prog Unit := do
  p.writeControl 0x1000008
  p.writeControl 0x1000000
  p.writeControl 0x0
  p.writeMode 0x0

/-- `reset_ap_regs`. -/
def resetApRegs : Prog Unit := pure ()

/-- `ap_flush_a_1`. -/
def apFlushA1 : Prog Unit := do
  p.writeControl 0x1000000
  p.writeMode 0x7000000
  p.writeControl 0x1000001
  p.writeControl 0x0
  p.writeMode 0x0

/-- `ap_flush_b_0`. -/
def apFlushB0 : Prog Unit := do
  p.writeControl 0x1000000
  p.writeMode 0x0
  p.writeControl 0x1000002
  p.writeControl 0x0
  p.writeMode 0x0

/-- `ap_flush_c_0`, which sets `MODE` before it locks and leaves it set. -/
def apFlushC0 : Prog Unit := do
  p.writeMode 0x0
  p.writeControl 0x1000000
  p.writeControl 0x1000004
  p.writeControl 0x0

/-- `ap_flush_c_1`. -/
def apFlushC1 : Prog Unit := do
  p.writeControl 0x1000000
  p.writeMode 0x7000000
  p.writeControl 0x1000004
  p.writeControl 0x0
  p.writeMode 0x0

/-- `ap_flush_b_1`. -/
def apFlushB1 : Prog Unit := do
  p.writeControl 0x1000000
  p.writeMode 0x7000000
  p.writeControl 0x1000002
  p.writeControl 0x0
  p.writeMode 0x0

/-- `ap_flush_col`. -/
def apFlushCol (col : APCollunm) (internalCol : APInternalCollunm) : Prog Unit := do
  p.setControlReg 1 0 0 0
  p.setModeReg internalCol.val col.val 0 0
  p.setControlReg 1 0 0 (1 <<< col.val)
  p.setControlReg 1 0 0 0
  p.setControlReg 0 0 0 0

/-! ### Vectors -/

/-- `final_addr` of `ap_write_vector` and `ap_read_vector`, a `uint32_t`. -/
def finalAddr (col : APCollunm) (internalCol : APInternalCollunm) : ℕ :=
  (camABaseAddr + apColSize * 2 * col.val.toUInt8.toNat +
    internalCol.val.toUInt8.toNat * apColSize) % 2 ^ 32

/-- `ap_write_vector`. -/
def apWriteVector (col : APCollunm) (internalCol : APInternalCollunm) (V size : ℕ) : Prog Unit :=
  if size > apColSize then pure ()
  else
    forUpTo size fun i => do
      let v ← load (V + i)
      store (finalAddr col internalCol + i) v

/-- `ap_read_vector`. -/
def apReadVector (col : APCollunm) (internalCol : APInternalCollunm) (V size : ℕ) : Prog Unit :=
  if size > apColSize then pure ()
  else
    forUpTo size fun i => do
      let v ← load (finalAddr col internalCol + i)
      store (V + i) v

/-- `ap_read_result_vector`. -/
def apReadResultVector (internalCol : APInternalCollunm) (V size : ℕ) : Prog Unit :=
  apReadVector .camC internalCol V size

/-- `ap_memcpy`. -/
def apMemcpy (target src bytes : ℕ) : Prog Unit := memcpy target src bytes

/-! ### Assembly -/

/-- Byte `i` of the word at `a`: addresses are words and wrap. -/
def wordByte (a i : ℕ) : ℕ := (a + i) % 2 ^ 32

/-- `lw`: the four bytes from `a`, the lowest first. -/
def lw (a : ℕ) : Prog UInt32 := do
  let b₀ ← load (wordByte a 0)
  let b₁ ← load (wordByte a 1)
  let b₂ ← load (wordByte a 2)
  let b₃ ← load (wordByte a 3)
  return b₀.toUInt32 ||| b₁.toUInt32 <<< 8 ||| b₂.toUInt32 <<< 16 ||| b₃.toUInt32 <<< 24

/-- `sw`. -/
def sw (a : ℕ) (w : UInt32) : Prog Unit := do
  store (wordByte a 0) (byte 0 w)
  store (wordByte a 1) (byte 1 w)
  store (wordByte a 2) (byte 2 w)
  store (wordByte a 3) (byte 3 w)

/-- `sb`: the low byte of a register. -/
def sb (a : ℕ) (w : UInt32) : Prog Unit := store a (byte 0 w)

/-- `ap_store_data`, with `data` in a register. -/
def apStoreData (addr : ℕ) (data : UInt8) : Prog Unit := sw addr data.toUInt32

/-- `ap_get_data`: what it leaves in `a0`. -/
def apGetData (addr : ℕ) : Prog UInt32 := lw addr

/-- `ap_get_data_to`. -/
def apGetDataTo (dest src : ℕ) : Prog Unit := do
  let w ← lw src
  sb dest w

/-! ### Computing -/

/-- `ap_trigger_computing_w_wait`. -/
def apTriggerComputingWWait (op : APOperations) (opDirection : APOpDirection)
    (internalCol : APInternalCollunm) : Prog Unit := do
  p.setControlReg 1 0 0 0
  p.setModeReg internalCol.val 0 opDirection.val op.val
  p.setControlReg 1 0 1 0
  waitIrq
  p.writeControl 0x0

/-- `ap_trigger_computing_w_wait_target_a`. -/
def apTriggerComputingWWaitTargetA (op : APOperations) (opDirection : APOpDirection)
    (internalColBits : UInt8) : Prog Unit := do
  p.setControlReg 1 0 0 0
  p.setModeReg internalColBits.toUInt32 0 opDirection.val op.val
  p.setControlReg 1 1 1 0
  waitIrq
  p.writeControl 0x0

/-- `ap_computing`. -/
def apComputing (op : APOperations) (internalCol : APInternalCollunm)
    (opDirection : APOpDirection) (A B size : ℕ) : Prog Unit := do
  apWriteVector .camA internalCol A size
  apWriteVector .camB internalCol B size
  p.setControlReg 1 0 0 0
  p.setModeReg internalCol.val 0 opDirection.val op.val
  p.setControlReg 1 0 1 0
  return ()

/-- `ap_trigger_computing`, which drops what the wait reports. -/
def apTriggerComputing (op : APOperations) (col : APCollunm) (internalCol : APInternalCollunm)
    (opDirection : APOpDirection) (opTarget : OpTarget) : Prog Unit := do
  p.setControlReg 1 opTarget.val 0 0
  p.setModeReg internalCol.val col.val opDirection.val op.val
  p.setControlReg 1 opTarget.val 1 0
  let _ ← apWaitingForComputing p 5

/-- `ap_vertical_computing`. -/
def apVerticalComputing (op : APOperations) (col : APCollunm) (internalCol : APInternalCollunm)
    (V size : ℕ) : Prog Unit := do
  apWriteVector col internalCol V size
  p.writeControl 0x10000
  p.setModeReg internalCol.val col.val 1 op.val
  p.writeControl ((0x10000 : UInt32) ||| (1 : UInt32) <<< 8)

/-- `ap_trigger_vertical_computing_w_wait`. -/
def apTriggerVerticalComputingWWait (op : APOperations) (col : APCollunm)
    (internalCol : APInternalCollunm) : Prog Unit := do
  p.writeControl 0x10000
  p.setModeReg internalCol.val col.val 1 op.val
  p.writeControl ((0x10000 : UInt32) ||| (1 : UInt32) <<< 8)
  waitIrq
  p.writeControl 0x0
  tinyDelay 1

/-- `ap_trigger_vertical_computing_target`. -/
def apTriggerVerticalComputingTarget (op : APOperations) (col : APCollunm)
    (internalCol : APInternalCollunm) (target : OpTarget) : Prog Unit := do
  p.writeControl 0x10000
  p.setModeReg internalCol.val col.val 1 op.val
  p.setControlReg 1 target.val 1 0
  waitIrq
  p.writeControl 0x0
  tinyDelay 1

/-- `ap_set_value`. -/
def apSetValue (col : APCollunm) (internalCol : APInternalCollunm) (value : UInt8) :
    Prog Unit := do
  let addr := (Cam.a0.base + apColSize * 2 * col.val.toUInt8.toNat +
    apColSize * internalCol.val.toUInt8.toNat) % 2 ^ 32
  store addr value
  p.setControlReg 1 0 0 0
  p.setModeReg internalCol.val col.val 0 APOperations.set.val
  p.setControlReg 1 0 1 0
  p.startComputeCycles
  waitIrq
  p.endComputeCycles
  p.writeControl 0x0

/-- `ap_set_value_cam_a_left`. -/
def apSetValueCamALeft (factor : UInt8) : Prog Unit := do
  store Cam.a0.base factor
  p.setControlReg 1 0 0 0
  p.setModeReg APInternalCollunm.left.val APCollunm.camA.val 0 APOperations.set.val
  p.setControlReg 1 0 1 0
  waitIrq
  p.writeControl 0x0

/-- `ap_search`, which does not release the interface. -/
def apSearch (key : UInt8) (internalCol : APInternalCollunm) (target : OpTarget) :
    Prog Unit := do
  let keyAddr := if internalCol.val = 1 then Cam.b1.base else Cam.b0.base
  store keyAddr key
  p.setControlReg 1 target.val 0 0
  p.setModeReg internalCol.val 0 0 APOperations.search.val
  p.setControlReg 1 target.val 1 0
  p.startComputeCycles
  waitIrq
  p.endComputeCycles

end RocketAp.Hal
