import RocketAp.Device.Assumptions
import RocketAp.Kernels.Tests
import RocketAp.ProgramLogic.Faults
import RocketAp.ProgramLogic.RowMajor

/-!
# How far the column loops may go

The functions that fill or read the columns through raw addresses check no bound. Past the six
columns are the control registers, and the loops count on into them: each reaches them exactly
from the size on at which its last byte is no longer before them (`columnLoops_iff`). From `B`
that is past four columns and from `C` past two, so `fill_a_b_cols` allows less than
`fill_a_col`.
-/

namespace RocketAp.Kernels

open ProgramLogic Device Hal

variable {p : Platform}

/-- The program stores a byte into the control registers. -/
def HitsRegisters {α : Type} (m : Prog α) (s : St) : Prop :=
  ∃ t, m s = .error .registerAccess t

/-- From everywhere the program stays off the control registers, and returns, exactly when `P`. -/
abbrev Within {α : Type} (P : Prop) (m : Prog α) : Prop := FaultsUnless Stuck.registerAccess P m

theorem Within.hits_iff {α : Type} {m : Prog α} {size bound : ℕ} (h : Within (size ≤ bound) m)
    (s : St) : HitsRegisters m s ↔ bound < size := (h.error_iff s).trans not_le

/-! ### Accesses -/

theorem load_within (a : ℕ) : Within True (load a) := .always fun _ => ⟨_, _, rfl⟩

theorem readVec_within (v : RvVec) (i : ℕ) : Within True (p.readVec v i) :=
  .always fun _ => ⟨_, _, rfl⟩

theorem setModeReg_within (ic col dir cmd : UInt32) :
    Within True (p.setModeReg ic col dir cmd) := .always fun _ => ⟨_, _, rfl⟩

theorem startComputeCycles_within : Within True p.startComputeCycles :=
  .always fun _ => ⟨_, _, rfl⟩

theorem endComputeCycles_within : Within True p.endComputeCycles :=
  .always fun _ => ⟨_, _, rfl⟩

theorem store_within (a : ℕ) (v : UInt8) : Within (OffRegisters a 1) (store a v) :=
  fun s => ⟨fun h => ⟨_, _, store_run h v s⟩, fun h => ⟨s, if_neg h⟩⟩

theorem storeFixed_within (a : ℕ) (v : UInt8) :
    Within (OffRegisters a 1) (storeFixed a v) :=
  (store_within a v).before fun _ => .always fun _ => ⟨_, _, rfl⟩

/-! ### Blocks -/

/-- A block that starts before the registers is off them when it ends before them. -/
theorem offRegisters_block {a n : ℕ} (ha : a ≤ apControlRegistersBaseAddr) :
    (∀ i < n, OffRegisters (a + i) 1) ↔ a + n ≤ apControlRegistersBaseAddr := by
  have hw := apWindow
  unfold OffRegisters
  constructor
  · intro h
    by_contra hlt
    have := h (apControlRegistersBaseAddr - a) (by omega)
    omega
  · intro h i hi
    omega

/-- A loop that stores a block, byte by byte. -/
theorem blockLoop_within {a n : ℕ} {body : ℕ → Prog Unit}
    (ha : a ≤ apControlRegistersBaseAddr)
    (h : ∀ i, Within (OffRegisters (a + i) 1) (body i)) :
    Within (a + n ≤ apControlRegistersBaseAddr) (forUpTo n body) :=
  (FaultsUnless.forUpTo h).congr (offRegisters_block ha)

/-! ### The functions -/

theorem fillACol_within (factor : UInt8) (size : ℕ) :
    Within (size ≤ 6 * apColSize) (fillACol factor size) := by
  refine (blockLoop_within (by decide) fun i => store_within _ _).congr ?_
  have hbase : Cam.a0.base + 6 * apColSize = apControlRegistersBaseAddr := rfl
  omega

theorem fillABCols_within (A B size : ℕ) :
    Within (size ≤ 4 * apColSize) (fillABCols A B size) := by
  have hA := blockLoop_within (a := Cam.a0.base) (n := size) (by decide) fun i =>
    (load_within (A + i)).after fun v => store_within _ v
  have hB := blockLoop_within (a := Cam.b0.base) (n := size) (by decide) fun i =>
    (load_within (B + i)).after fun v => store_within _ v
  refine (hA.bind fun _ => hB).congr ?_
  have hbaseA : Cam.a0.base + 6 * apColSize = apControlRegistersBaseAddr := rfl
  have hbaseB : Cam.b0.base + 4 * apColSize = apControlRegistersBaseAddr := rfl
  omega

theorem offload_within (size : ℕ) :
    Within (size ≤ 0x4b00) (offload p size) := by
  refine ((setModeReg_within _ _ _ _).after fun _ =>
    blockLoop_within (a := 0x80000100) (by decide) fun i =>
      (load_within _).after fun v => storeFixed_within _ v).congr ?_
  have hw := apWindow
  omega

theorem testOffload_within (size : ℤ) {v : ℕ} (hv : OffRegisters v size.toNat) :
    Within (size.toNat ≤ 2 * apColSize) (testOffload p size v) := by
  have hstart := startComputeCycles_within (p := p)
  have hend := endComputeCycles_within (p := p)
  have hfixed := blockLoop_within (a := 0x80000200) (n := size.toNat) (by decide) fun i =>
    storeFixed_within _ 0
  have hcolumn := blockLoop_within (a := Cam.c0.base) (n := size.toNat) (by decide) fun i =>
    store_within _ i.toUInt8
  have hback := blockLoop_within (a := 0x80000200) (n := size.toNat) (by decide) fun i =>
    (load_within (Cam.c0.base + i)).after fun x => storeFixed_within _ x
  have hbuffer := FaultsUnless.forUpTo (n := size.toNat) fun i =>
    (load_within (Cam.c0.base + i)).after fun x => store_within (v + i) x
  refine (hfixed.bind fun _ => hstart.after fun _ => hcolumn.bind fun _ => hend.after fun _ =>
    hstart.after fun _ => hback.bind fun _ => hend.after fun _ => hstart.after fun _ =>
      hbuffer.before fun _ => hend).congr ?_
  have hw := apWindow
  have hbase : Cam.c0.base + 2 * apColSize = apControlRegistersBaseAddr := rfl
  constructor
  · rintro ⟨-, h, -⟩
    omega
  · intro h
    exact ⟨by omega, by omega, by omega, fun i hi => hv.at hi⟩

/-- The last of `m * n` rows. -/
theorem offRegisters_rows {a m n : ℕ} (ha : a ≤ apControlRegistersBaseAddr) :
    (∀ i < m, ∀ j < n, OffRegisters (a + (i * n + j)) 1) ↔
      a + m * n ≤ apControlRegistersBaseAddr := by
  rw [← offRegisters_block ha]
  constructor
  · intro h x hx
    obtain ⟨hi, hj, hx'⟩ := exists_rowMajor hx
    rw [← hx']
    exact h _ hi _ hj
  · intro h i hi j hj
    exact h _ (rowMajor_lt hi hj)

theorem mmColsSetup_within (m n index : ℕ) :
    Within (m * n ≤ 4 * apColSize) (mmColsSetup p m n index) := by
  have hrows : Within (∀ i < m, ∀ j < n, OffRegisters (Cam.a0.base + (i * n + j)) 1 ∧
      OffRegisters (Cam.b0.base + (i * n + j)) 1) (mmColsSetup p m n index) :=
    .forUpTo fun i => .forUpTo fun j => (readVec_within _ _).after fun x =>
      (store_within _ x).bind fun _ => (readVec_within _ _).after fun y =>
        store_within _ y
  refine hrows.congr ?_
  have hA := offRegisters_rows (a := Cam.a0.base) (m := m) (n := n) (by decide)
  have hB := offRegisters_rows (a := Cam.b0.base) (m := m) (n := n) (by decide)
  have hbaseA : Cam.a0.base + 6 * apColSize = apControlRegistersBaseAddr := rfl
  have hbaseB : Cam.b0.base + 4 * apColSize = apControlRegistersBaseAddr := rfl
  constructor
  · intro h
    have := hB.mp fun i hi j hj => (h i hi j hj).2
    omega
  · intro h i hi j hj
    exact ⟨hA.mpr (by omega) i hi j hj, hB.mpr (by omega) i hi j hj⟩

theorem mmColsSetup2_within (cSize m n k index : ℕ) :
    Within (cSize ≤ 4 * apColSize) (mmColsSetup2 p cSize m n k index) := by
  have hnext : ∀ i a, Within True
      (if i % n = n - 1 then return a + k else return a : Prog ℕ) := fun i a =>
    .always fun s => by split <;> exact ⟨_, s, rfl⟩
  have hrows : Within (∀ i < cSize, OffRegisters (Cam.a0.base + i) 1 ∧
      OffRegisters (Cam.b0.base + i) 1) (mmColsSetup2 p cSize m n k index) := by
    refine FaultsUnless.before (.forAcc fun i a => ?_) fun _ => .always fun _ => ⟨_, _, rfl⟩
    exact (readVec_within _ _).after fun x => (store_within _ x).bind fun _ =>
      (readVec_within _ _).after fun y => (store_within _ y).before fun _ => hnext i a
  refine hrows.congr ?_
  have hA := offRegisters_block (a := Cam.a0.base) (n := cSize) (by decide)
  have hB := offRegisters_block (a := Cam.b0.base) (n := cSize) (by decide)
  have hbaseA : Cam.a0.base + 6 * apColSize = apControlRegistersBaseAddr := rfl
  have hbaseB : Cam.b0.base + 4 * apColSize = apControlRegistersBaseAddr := rfl
  constructor
  · intro h
    have := hB.mp fun i hi => (h i hi).2
    omega
  · intro h i hi
    exact ⟨hA.mpr (by omega) i hi, hB.mpr (by omega) i hi⟩

/-- **How far the loops go.** From every state, on any processor, the functions that access the
columns through raw addresses store into the control registers exactly past these sizes. -/
theorem columnLoops_iff (s : St) :
    (∀ factor size, HitsRegisters (fillACol factor size) s ↔ 6 * apColSize < size) ∧
    (∀ A B size, HitsRegisters (fillABCols A B size) s ↔ 4 * apColSize < size) ∧
    (∀ size, HitsRegisters (offload p size) s ↔ 0x4b00 < size) ∧
    (∀ (size : ℤ) (v : ℕ), OffRegisters v size.toNat →
      (HitsRegisters (testOffload p size v) s ↔ 2 * apColSize < size.toNat)) ∧
    (∀ m n index, HitsRegisters (mmColsSetup p m n index) s ↔ 4 * apColSize < m * n) ∧
    ∀ cSize m n k index, HitsRegisters (mmColsSetup2 p cSize m n k index) s ↔
      4 * apColSize < cSize :=
  ⟨fun factor size => (fillACol_within factor size).hits_iff s,
    fun A B size => (fillABCols_within A B size).hits_iff s,
    fun size => (offload_within size).hits_iff s,
    fun size _ hv => (testOffload_within size hv).hits_iff s,
    fun m n index => (mmColsSetup_within m n index).hits_iff s,
    fun cSize m n k index => (mmColsSetup2_within cSize m n k index).hits_iff s⟩

/-- The size of both columns of `C`, with a buffer in the CPU's memory. -/
theorem columnLoops_iff_offload :
    ¬HitsRegisters (testOffload (.reference 1) 1024 0x80001000) (.rest fun _ => 0) := by
  have h := (columnLoops_iff (p := .reference 1) (.rest fun _ => 0)).2.2.2.1 1024 0x80001000
    (by decide)
  exact fun hits => absurd (h.mp hits) (by decide)

end RocketAp.Kernels
