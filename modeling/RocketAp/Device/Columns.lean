import RocketAp.Device.Registers
import RocketAp.ProgramLogic.Bytes

/-!
# The columns and where they are

The processor has six columns of 512 bytes: `A`, `B` and `C`, each with a left and
a right side. They lie one after the other from `AP_BASE_ADDR`, then come the three
registers. `Cam.base` is the table of the `CAM_x_y_BASE_ADDR` macros; `locate` finds
the column and the row of an address.

The columns are bytes of memory like any other to the firmware, and a `Cams` to the
processor. `camsOf` and `setCams` go between the two, and `camsOf_setCams` and
`setCams_of_not_mem` are all a proof needs of the address map.
-/

namespace RocketAp.Device

open ProgramLogic

/-! ### Addresses -/

/-- `AP_COL_SIZE`. -/
abbrev apColSize : ℕ := 512

/-- `COL_QUANT`. -/
abbrev colQuant : ℕ := 6

/-- `AP_BASE_ADDR`. -/
abbrev apBaseAddr : ℕ := 0x80004000

/-- `CAM_A_BASE_ADDR`. -/
abbrev camABaseAddr : ℕ := apBaseAddr

/-- `CAM_B_BASE_ADDR`. -/
abbrev camBBaseAddr : ℕ := apBaseAddr + apColSize * 2

/-- `CAM_C_BASE_ADDR`. -/
abbrev camCBaseAddr : ℕ := apBaseAddr + apColSize * 4

/-- `AP_CONTROL_REGISTERS_BASE_ADDR`: the three registers follow the columns. -/
abbrev apControlRegistersBaseAddr : ℕ := apBaseAddr + apColSize * colQuant

/-- The first address past the registers: `AP_IRQ_ADDR` and its four bytes. -/
abbrev apEndAddr : ℕ := apControlRegistersBaseAddr + 8 + 4

/-- The window in numbers: the columns, and the registers after them. -/
theorem apWindow : apColSize = 512 ∧ apBaseAddr = 0x80004000 ∧
    apControlRegistersBaseAddr = 0x80004c00 ∧ apEndAddr = 0x80004c0c := ⟨rfl, rfl, rfl, rfl⟩

theorem apColSize_pos : 0 < apColSize := by decide

/-- A column on one of its sides. -/
structure Cam where
  /-- Which column. -/
  col : APCollunm
  /-- The right side, or the left. -/
  right : Bool
  deriving DecidableEq, Repr

namespace Cam

abbrev a0 : Cam := ⟨.camA, false⟩
abbrev a1 : Cam := ⟨.camA, true⟩
abbrev b0 : Cam := ⟨.camB, false⟩
abbrev b1 : Cam := ⟨.camB, true⟩
abbrev c0 : Cam := ⟨.camC, false⟩
abbrev c1 : Cam := ⟨.camC, true⟩

/-- `CAM_A_0_BASE_ADDR`, `CAM_A_1_BASE_ADDR`, …, `CAM_C_1_BASE_ADDR`. -/
def base : Cam → ℕ
  | ⟨.camA, false⟩ => camABaseAddr
  | ⟨.camA, true⟩ => camABaseAddr + apColSize
  | ⟨.camB, false⟩ => camBBaseAddr
  | ⟨.camB, true⟩ => camBBaseAddr + apColSize
  | ⟨.camC, false⟩ => camCBaseAddr
  | ⟨.camC, true⟩ => camCBaseAddr + apColSize

/-- The columns in the order of their addresses. -/
def ofIndex : ℕ → Cam
  | 0 => a0 | 1 => a1 | 2 => b0 | 3 => b1 | 4 => c0 | _ => c1

/-- The place of a column in that order. -/
def index : Cam → ℕ
  | ⟨.camA, false⟩ => 0 | ⟨.camA, true⟩ => 1 | ⟨.camB, false⟩ => 2
  | ⟨.camB, true⟩ => 3 | ⟨.camC, false⟩ => 4 | ⟨.camC, true⟩ => 5

theorem ofIndex_index : ∀ c : Cam, ofIndex c.index = c
  | ⟨.camA, false⟩ | ⟨.camA, true⟩ | ⟨.camB, false⟩ | ⟨.camB, true⟩ | ⟨.camC, false⟩
  | ⟨.camC, true⟩ => rfl

theorem index_lt : ∀ c : Cam, c.index < colQuant
  | ⟨.camA, false⟩ | ⟨.camA, true⟩ | ⟨.camB, false⟩ | ⟨.camB, true⟩ | ⟨.camC, false⟩
  | ⟨.camC, true⟩ => by decide

/-- The columns lie one after the other. -/
theorem base_eq : ∀ c : Cam, c.base = apBaseAddr + apColSize * c.index
  | ⟨.camA, false⟩ | ⟨.camA, true⟩ | ⟨.camB, false⟩ | ⟨.camB, true⟩ | ⟨.camC, false⟩
  | ⟨.camC, true⟩ => rfl

theorem index_injective {c d : Cam} (h : c.index = d.index) : c = d := by
  rw [← ofIndex_index c, h, ofIndex_index d]

/-- Two columns have no address in common. -/
theorem base_apart {c d : Cam} (h : c ≠ d) :
    c.base + apColSize ≤ d.base ∨ d.base + apColSize ≤ c.base := by
  have hi : c.index ≠ d.index := fun e => h (index_injective e)
  have hw := apWindow
  rw [base_eq, base_eq, hw.1]
  omega

theorem base_ge (c : Cam) : apBaseAddr ≤ c.base := by
  rw [base_eq]
  exact Nat.le_add_right _ _

/-- The columns end where the registers begin. -/
theorem base_le (c : Cam) : c.base + apColSize ≤ apControlRegistersBaseAddr := by
  have hi : c.index < 6 := c.index_lt
  have hw := apWindow
  rw [base_eq, hw.1]
  omega

end Cam

/-- An address in one of the columns. -/
def InColumns (a : ℕ) : Prop := apBaseAddr ≤ a ∧ a < apControlRegistersBaseAddr

instance (a : ℕ) : Decidable (InColumns a) := inferInstanceAs (Decidable (_ ∧ _))

theorem inColumns_base (c : Cam) {r : ℕ} (h : r < apColSize) : InColumns (c.base + r) := by
  have h₁ := c.base_ge
  have h₂ := c.base_le
  exact ⟨by omega, by omega⟩

/-- The column and the row of an address. -/
def locate (a : ℕ) : Option (Cam × Fin apColSize) :=
  if InColumns a then
    some (Cam.ofIndex ((a - apBaseAddr) / apColSize),
      ⟨(a - apBaseAddr) % apColSize, Nat.mod_lt _ (by decide)⟩)
  else none

theorem locate_base (c : Cam) (r : Fin apColSize) : locate (c.base + r) = some (c, r) := by
  have hr : (r : ℕ) < 512 := r.isLt
  have hsub : c.base + r - apBaseAddr = apColSize * c.index + r := by rw [Cam.base_eq]; omega
  have hdiv : (apColSize * c.index + r) / apColSize = c.index := by
    simp only [apColSize]; omega
  have hmod : (apColSize * c.index + r) % apColSize = r := by
    simp only [apColSize]; omega
  rw [locate, if_pos (inColumns_base c r.isLt)]
  simp only [hsub, hdiv, hmod, Cam.ofIndex_index]

theorem Cam.index_ofIndex {i : ℕ} (h : i < colQuant) : (Cam.ofIndex i).index = i := by
  have h : i < 6 := h
  interval_cases i <;> rfl

/-- An address is located where it is. -/
theorem eq_of_locate {a : ℕ} {c : Cam} {r : Fin apColSize} (h : locate a = some (c, r)) :
    a = c.base + r := by
  unfold locate at h
  split at h
  · next ha =>
    obtain ⟨h₁, h₂⟩ := ha
    have hw := apWindow
    rw [Option.some.injEq, Prod.mk.injEq] at h
    obtain ⟨rfl, rfl⟩ := h
    have hidx : (a - apBaseAddr) / 512 < 6 :=
      Nat.div_lt_of_lt_mul (show a - apBaseAddr < 512 * 6 by omega)
    rw [Cam.base_eq, Cam.index_ofIndex hidx]
    show a = apBaseAddr + apColSize * ((a - apBaseAddr) / apColSize) +
      (a - apBaseAddr) % apColSize
    have := Nat.div_add_mod (a - apBaseAddr) apColSize
    omega
  · cases h

theorem not_inColumns_of_locate {a : ℕ} (h : locate a = none) : ¬ InColumns a := by
  intro ha
  rw [locate, if_pos ha] at h
  cases h

/-! ### Contents -/

/-- The contents of a column. -/
abbrev Column := Fin apColSize → UInt8

/-- The contents of the six columns. -/
abbrev Cams := Cam → Column

/-- The columns as memory holds them. -/
def camsOf (m : Mem) : Cams := fun c r => m (c.base + r)

/-- Memory with the columns set. -/
def setCams (m : Mem) (cs : Cams) : Mem := fun a =>
  match locate a with
  | some (c, r) => cs c r
  | none => m a

@[simp] theorem camsOf_setCams (m : Mem) (cs : Cams) : camsOf (setCams m cs) = cs := by
  funext c r
  simp [camsOf, setCams, locate_base]

/-- Setting the columns changes nothing else. -/
theorem setCams_of_not_mem (m : Mem) (cs : Cams) {a : ℕ} (h : ¬ InColumns a) :
    setCams m cs a = m a := by
  simp [setCams, locate, h]

end RocketAp.Device
