import RocketAp.Hal.Effects
import RocketAp.Hal.Vectors

/-!
# Flushing a column

A column is zeroed by a `CONTROL` write with its reset bit, on the side `MODE` selects at
that moment. `ap_flush_col` computes the two words from its arguments; five more functions
have them written out, for one column each (`Flush`), and `warmup_ap` resets the three
columns of one side and then of the other.

They do not write the registers in the same order: `ap_flush_c_0` alone sets `MODE` before
it locks. What they leave is the same, from every `MODE` and from every `CONTROL` with no
reset on (`flushes_agree`).
-/

namespace RocketAp.Hal

open ProgramLogic Device

/-- The five functions that flush one column. -/
inductive Flush where
  | a1 | b0 | b1 | c0 | c1
  deriving DecidableEq, Repr

namespace Flush

/-- The function. -/
def exec (p : Platform) : Flush → Prog Unit
  | a1 => apFlushA1 p
  | b0 => apFlushB0 p
  | b1 => apFlushB1 p
  | c0 => apFlushC0 p
  | c1 => apFlushC1 p

/-- The column its name says. -/
def col : Flush → APCollunm
  | a1 => .camA
  | b0 | b1 => .camB
  | c0 | c1 => .camC

/-- The side its name says. -/
def internalCol : Flush → APInternalCollunm
  | b0 | c0 => .left
  | a1 | b1 | c1 => .right

end Flush

variable {p : Platform}

/-! ### The column that is named -/

theorem apFlushCol_ran (hr : p.Resets) (col : APCollunm) (internalCol : APInternalCollunm)
    (s : St) : Ensures (apFlushCol p col internalCol) s fun _ u =>
      Ran s u (Function.update s.cams (namedCam col internalCol) fun _ => 0) := by
  refine .step rfl (.step rfl (.step rfl (.step rfl (.of_run rfl ?_))))
  have hw : trigger (controlWord 1 0 0 (1 <<< col.val)) = false := by cases col <;> decide
  have hif : ifState (controlWord 1 0 0 (1 <<< col.val)) := by cases col <;> decide
  have hlock := (Changed.refl s).control_quiet hr (w := controlWord 1 0 0 0) rfl noReset_lock
  have hmode := hlock.mode_quiet hr noReset_lock (modeWord internalCol.val col.val 0 0)
  have hreset := hmode.control_reset hr hw
  have hside : selected (modeWord internalCol.val col.val 0 0) col = namedCam col internalCol :=
    selected_modeWord .or .horizontal col internalCol col
  rw [← hside, ← resetCams_single hif (resetBit_controlWord col)]
  have hrelock := hreset.control_quiet hr (w := controlWord 1 0 0 0) rfl noReset_lock
  exact ⟨hrelock.control_quiet hr (w := controlWord 0 0 0 0) rfl noReset_zero, rfl, rfl⟩

theorem apFlushB0_ran (hr : p.Resets) (s : St) : Ensures (apFlushB0 p) s fun _ u =>
    Ran s u (Function.update s.cams .b0 fun _ => 0) :=
  flush_ran hr rfl rfl (resetBit_controlWord .camB) s

theorem apFlushB1_ran (hr : p.Resets) (s : St) : Ensures (apFlushB1 p) s fun _ u =>
    Ran s u (Function.update s.cams .b1 fun _ => 0) :=
  flush_ran hr rfl rfl (resetBit_controlWord .camB) s

/-- A flush zeroes the column its name says. -/
theorem Flush.exec_ran (hr : p.Resets) (f : Flush) {s : St} (hs : noReset s.control) :
    Ensures (f.exec p) s fun _ u =>
      Ran s u (Function.update s.cams (namedCam f.col f.internalCol) fun _ => 0) := by
  cases f with
  | a1 => exact apFlushA1_ran hr s
  | b0 => exact apFlushB0_ran hr s
  | b1 => exact apFlushB1_ran hr s
  | c0 => exact apFlushC0_ran hr hs
  | c1 => exact apFlushC1_ran hr s

/-- `warmup_ap` releases `MODE` last. -/
theorem warmupAp_mode (s : St) : Ensures (warmupAp p) s fun _ u => u.mode = 0 :=
  ⟨(), _, rfl, rfl⟩

/-- **The flushes.** From any registers with no reset on, `ap_flush_col` zeroes the column it
names and no other, each of the five leaves the columns and `CONTROL` as `ap_flush_col` does,
and `warmup_ap` leaves every column and both registers zero. -/
theorem flushes_agree (hr : p.Resets) {s : St} (hs : noReset s.control) :
    (∀ col internalCol, Ensures (apFlushCol p col internalCol) s fun _ t =>
      (t.cams = Function.update s.cams (namedCam col internalCol) fun _ => 0) ∧ t.control = 0) ∧
    (∀ f : Flush, Ensures (f.exec p) s fun _ t =>
      Ensures (apFlushCol p f.col f.internalCol) s fun _ u =>
        t.cams = u.cams ∧ t.control = u.control) ∧
    Ensures (warmupAp p) s fun _ t => (t.cams = fun _ _ => 0) ∧ t.control = 0 ∧ t.mode = 0 := by
  refine ⟨fun col internalCol => ?_, fun f => ?_, ?_⟩
  · apply (apFlushCol_ran hr col internalCol s).mono
    intro _ t ht
    exact ⟨ht.cams, ht.control⟩
  · apply (f.exec_ran hr hs).mono
    intro _ t ht
    apply (apFlushCol_ran hr f.col f.internalCol s).mono
    intro _ u hu
    exact ⟨ht.cams.trans hu.cams.symm, ht.control.trans hu.control.symm⟩
  · apply ((warmupAp_ran hr s).and (warmupAp_mode s)).mono
    rintro _ t ⟨ht, hmode⟩
    exact ⟨ht.cams, ht.control, hmode⟩

/-- The right sides are selected, and the interface is locked. -/
def lockedRight : St :=
  { St.rest (fun a => a.toUInt8) with control := 0x1000000, mode := 0x7000000 }

/-- `ap_flush_c_0` selects the left side under the lock that it finds. -/
theorem flushes_agree_locked :
    (Ensures (apFlushC0 (.reference 2)) lockedRight fun _ t =>
      Ensures (apFlushCol (.reference 2) .camC .left) lockedRight fun _ u =>
        t.cams = u.cams ∧ t.control = u.control) ∧
    Ensures (warmupAp (.reference 2)) lockedRight fun _ t =>
      (t.cams = fun _ _ => 0) ∧ t.control = 0 ∧ t.mode = 0 := by
  have hall := flushes_agree (Platform.reference_resets 2) (s := lockedRight) noReset_lock
  exact ⟨hall.2.1 .c0, hall.2.2⟩

end RocketAp.Hal
