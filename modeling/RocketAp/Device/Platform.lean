import RocketAp.Device.Columns
import RocketAp.ProgramLogic.Ensures

/-!
# The machine the firmware runs on

The associative processor is hardware: nothing under `src/` says what it does with
a word written to its registers. A `Platform` is therefore a parameter. It says what
the columns hold after a `CONTROL` or a `MODE` write, which `CONTROL` writes start an
operation and how many polls each operation takes, what the cycle counter reads, and
where the linker put `r_v_mgmt`. What the firmware relies on is stated of it by name
(`Platform.Locks`, `Platform.RunsRowwise`, …), and each result assumes only what it
needs.

The state `St` is the byte memory (the columns are part of it), the two registers,
the interrupt line, the cycle record, and three logs that no program reads: the
register accesses `bus`, the reads `reads` of buffers and of `r_v_mgmt`, and the
addresses `fixedStores` of stores to literal addresses of the CPU's memory.

The columns of a triggered operation are in place from the trigger on; what takes
time is the interrupt. Results on what a run leaves in memory are therefore about calls
that wait for it, from states with no operation running (`St.Settled`). A program that
waits for an interrupt that never comes stops with `Stuck.hang`.

The registers are words that the firmware writes, and an interrupt that it polls. A byte
store into them is not modelled: it stops with `Stuck.registerAccess`, so a program shown
to return makes none. Nor is a read of them through a pointer: `load` finds there the
bytes that `mem` has at their addresses, which mean nothing, and results that compare runs
are about pointers off the `registers`.
-/

namespace RocketAp.Device

open ProgramLogic

/-! ### The platform -/

/-- What `src/` does not fix. -/
structure Platform where
  /-- `onControl mode w cs`: the columns after `w` is written to `CONTROL`, with `mode` in
  `MODE`. -/
  onControl : UInt32 → UInt32 → Cams → Cams
  /-- `onMode control w cs`: the columns after `w` is written to `MODE`, with `control` in
  `CONTROL`. -/
  onMode : UInt32 → UInt32 → Cams → Cams
  /-- Whether a word written to `CONTROL` starts an operation. -/
  starts : UInt32 → Bool
  /-- How many polls read `0` before the interrupt of the `k`th operation is seen. -/
  latency : ℕ → ℕ
  /-- The cycle counter at the `k`th call of `get_cycles`. -/
  cycles : ℕ → UInt64
  /-- The address of `r_v_mgmt`. -/
  rvMgmt : ℕ
  /-- `r_v_mgmt` is not in the processor's window. -/
  rvMgmt_apart : rvMgmt + 3 * 512 ≤ apBaseAddr ∨ apEndAddr ≤ rvMgmt

/-- The interrupt line: no operation, an operation that takes `n` more polls, or an
operation that has completed. -/
inductive Irq where
  | idle
  | busy (n : ℕ)
  | raised
  deriving DecidableEq, Repr

/-- An access to a register. -/
inductive RegOp where
  /-- `*AP_CONTROL = w`. -/
  | control (w : UInt32)
  /-- `*AP_MODE = w`. -/
  | mode (w : UInt32)
  /-- `ap_irq_check()` returned `v`. -/
  | irq (v : UInt8)
  deriving DecidableEq, Repr

/-- The vectors of `r_v_mgmt`. -/
inductive RvVec where
  | a | b | c
  deriving DecidableEq, Repr

/-- A read that is logged. -/
inductive Access where
  /-- Element `i` of a vector of `r_v_mgmt`, by its name. -/
  | elem (v : RvVec) (i : ℕ)
  /-- The byte at an address, through a pointer. -/
  | byte (a : ℕ)
  deriving DecidableEq, Repr

/-- `RANDOM_VECTORS_SIZE`. -/
abbrev randomVectorsSize : ℕ := 512

/-- `struct record_cycles_t`. -/
structure RecordCycles where
  start : UInt64
  final : UInt64
  result : UInt64
  results : ℕ → UInt64
  resultsSize : ℕ

/-- The state of the machine. -/
structure St where
  /-- Memory, the columns included. -/
  mem : Mem
  /-- `AP_CONTROL`. -/
  control : UInt32
  /-- `AP_MODE`. -/
  mode : UInt32
  /-- `AP_IRQ`. -/
  irq : Irq
  /-- How many operations have started. -/
  started : ℕ
  /-- How many times the cycle counter has been read. -/
  cycleReads : ℕ
  /-- `record`. -/
  record : RecordCycles
  /-- The register accesses so far. -/
  bus : List RegOp
  /-- The logged reads so far. -/
  reads : List Access
  /-- Where bytes were stored at literal addresses of the CPU's memory so far. -/
  fixedStores : List ℕ

/-- Why a program does not return. -/
inductive Stuck where
  /-- It waits for an interrupt that never comes. -/
  | hang
  /-- It stores bytes into a register. -/
  | registerAccess
  deriving DecidableEq, Repr

/-- A program of the firmware. -/
abbrev Prog := EStateM Stuck St

namespace St

/-- The columns. -/
def cams (s : St) : Cams := camsOf s.mem

/-- No operation is running. -/
def Settled (s : St) : Prop := ∀ n, s.irq ≠ .busy n

/-- The machine at rest, with the given memory. -/
def rest (m : Mem) : St where
  mem := m
  control := 0
  mode := 0
  irq := .idle
  started := 0
  cycleReads := 0
  record := ⟨0, 0, 0, fun _ => 0, 0⟩
  bus := []
  reads := []
  fixedStores := []

end St

/-! ### Registers -/

namespace Platform

variable (p : Platform)

/-- The state after `*AP_CONTROL = w`. The interrupt is `0` from a start until the
operation completes, and `1` from then until the trigger bit is cleared. -/
def afterControl (w : UInt32) (s : St) : St :=
  { s with
    mem := setCams s.mem (p.onControl s.mode w s.cams)
    control := w
    irq := if p.starts w then .busy (p.latency s.started) else if trigger w then s.irq else .idle
    started := if p.starts w then s.started + 1 else s.started
    bus := s.bus ++ [.control w] }

/-- The state after `*AP_MODE = w`. -/
def afterMode (w : UInt32) (s : St) : St :=
  { s with
    mem := setCams s.mem (p.onMode s.control w s.cams)
    mode := w
    bus := s.bus ++ [.mode w] }

/-- `*AP_CONTROL = w`. -/
def writeControl (w : UInt32) : Prog Unit := fun s => .ok () (p.afterControl w s)

/-- `*AP_MODE = w`. -/
def writeMode (w : UInt32) : Prog Unit := fun s => .ok () (p.afterMode w s)

/-- `set_control_reg`. -/
def setControlReg (apIfState apOpTarget apTriggerAp apRst : UInt32) : Prog Unit :=
  p.writeControl (controlWord apIfState apOpTarget apTriggerAp apRst)

/-- `set_mode_reg`. -/
def setModeReg (selInternalCol selCol opDirection cmd : UInt32) : Prog Unit :=
  p.writeMode (modeWord selInternalCol selCol opDirection cmd)

end Platform

/-- The interrupt line after a poll, and what the poll read. -/
def Irq.poll : Irq → UInt8 × Irq
  | .idle => (0, .idle)
  | .busy 0 => (1, .raised)
  | .busy (n + 1) => (0, .busy n)
  | .raised => (1, .raised)

/-- `ap_irq_check`. -/
def apIrqCheck : Prog UInt8 := fun s =>
  .ok s.irq.poll.1 { s with irq := s.irq.poll.2, bus := s.bus ++ [.irq s.irq.poll.1] }

/-! ### Memory -/

/-- The `n` bytes from `a` are not the registers'. -/
def OffRegisters (a n : ℕ) : Prop :=
  n = 0 ∨ a + n ≤ apControlRegistersBaseAddr ∨ apEndAddr ≤ a

instance (a n : ℕ) : Decidable (OffRegisters a n) := inferInstanceAs (Decidable (_ ∨ _ ∨ _))

/-- The addresses of the registers. -/
def registers : Set ℕ := {a | apControlRegistersBaseAddr ≤ a ∧ a < apEndAddr}

theorem OffRegisters.notMem {a n i : ℕ} (h : OffRegisters a n) (hi : i < n) :
    a + i ∉ registers := by
  rintro ⟨hlo, hhi⟩
  unfold OffRegisters at h
  omega

theorem OffRegisters.mono {a n k : ℕ} (h : OffRegisters a n) (hk : k ≤ n) : OffRegisters a k := by
  unfold OffRegisters at *
  omega

theorem OffRegisters.at {a n i : ℕ} (h : OffRegisters a n) (hi : i < n) :
    OffRegisters (a + i) 1 := by
  unfold OffRegisters at *
  omega

/-- Read the byte at `a` through a pointer. At a register's address it is not the register's. -/
def load (a : ℕ) : Prog UInt8 := fun s =>
  .ok (s.mem a) { s with reads := s.reads ++ [.byte a] }

/-- Store a byte at `a` through a pointer. -/
def store (a : ℕ) (v : UInt8) : Prog Unit := fun s =>
  if OffRegisters a 1 then .ok () { s with mem := s.mem.store a v } else .error .registerAccess s

/-- Store a byte at a literal address of the CPU's memory. -/
def storeFixed (a : ℕ) (v : UInt8) : Prog Unit := do
  store a v
  modify fun s => { s with fixedStores := s.fixedStores ++ [a] }

/-- `memcpy`. -/
def memcpy (target src bytes : ℕ) : Prog Unit := fun s =>
  if OffRegisters target bytes then .ok () { s with mem := s.mem.copy target src bytes }
  else .error .registerAccess s

/-- `memset`. -/
def memset (target : ℕ) (v : UInt8) (bytes : ℕ) : Prog Unit := fun s =>
  if OffRegisters target bytes then .ok () { s with mem := s.mem.fill target v bytes }
  else .error .registerAccess s

theorem store_run {a : ℕ} (h : OffRegisters a 1) (v : UInt8) (s : St) :
    store a v s = .ok () { s with mem := s.mem.store a v } := if_pos h

theorem storeFixed_run {a : ℕ} (h : OffRegisters a 1) (v : UInt8) (s : St) :
    storeFixed a v s = .ok () { s with
      mem := s.mem.store a v
      fixedStores := s.fixedStores ++ [a] } := bind_run (store_run h v s)

theorem memcpy_run {target bytes : ℕ} (h : OffRegisters target bytes) (src : ℕ) (s : St) :
    memcpy target src bytes s = .ok () { s with mem := s.mem.copy target src bytes } := if_pos h

theorem memset_run {target bytes : ℕ} (h : OffRegisters target bytes) (v : UInt8) (s : St) :
    memset target v bytes s = .ok () { s with mem := s.mem.fill target v bytes } := if_pos h

/-! ### `r_v_mgmt` -/

namespace Platform

variable (p : Platform)

/-- The address of a vector of `r_v_mgmt`. -/
def rvAddr : RvVec → ℕ
  | .a => p.rvMgmt
  | .b => p.rvMgmt + randomVectorsSize
  | .c => p.rvMgmt + 2 * randomVectorsSize

/-- Element `i` of a vector of `r_v_mgmt`, in a state. -/
def vec (s : St) (v : RvVec) (i : ℕ) : UInt8 := s.mem (p.rvAddr v + i)

/-- Read element `i` of a vector of `r_v_mgmt`. -/
def readVec (v : RvVec) (i : ℕ) : Prog UInt8 := fun s =>
  .ok (p.vec s v i) { s with reads := s.reads ++ [.elem v i] }

/-- Write element `i` of a vector of `r_v_mgmt`. -/
def writeVec (v : RvVec) (i : ℕ) (x : UInt8) : Prog Unit := store (p.rvAddr v + i) x

/-- No element of `r_v_mgmt` is in the processor's window. -/
theorem rvAddr_apart (v : RvVec) :
    p.rvAddr v + randomVectorsSize ≤ apBaseAddr ∨ apEndAddr ≤ p.rvAddr v := by
  have := p.rvMgmt_apart
  cases v <;> simp only [rvAddr, randomVectorsSize] <;> omega

end Platform

/-! ### The cycle record -/

namespace Platform

variable (p : Platform)

/-- `get_cycles`. -/
def getCycles : Prog UInt64 := fun s =>
  .ok (p.cycles s.cycleReads) { s with cycleReads := s.cycleReads + 1 }

/-- `start_compute_cycles`. -/
def startComputeCycles : Prog Unit := do
  let now ← p.getCycles
  modify fun s => { s with record := { s.record with start := now } }

/-- `MAX_RESULTS`. -/
abbrev maxResults : ℕ := 10

/-- What `end_compute_cycles` does to the record, the counter reading `now`. -/
def endRecord (now : UInt64) (r : RecordCycles) : RecordCycles :=
  let r := { r with final := now, result := now - r.start }
  if r.resultsSize = maxResults then r
  else
    { r with
      results := Function.update r.results r.resultsSize r.result
      resultsSize := r.resultsSize + 1 }

theorem endRecord_start (now : UInt64) (r : RecordCycles) :
    (endRecord now r).start = r.start := by
  simp only [endRecord]
  split <;> rfl

theorem endRecord_result (now : UInt64) (r : RecordCycles) :
    (endRecord now r).result = now - r.start := by
  simp only [endRecord]
  split <;> rfl

/-- The log with an entry more, or full. -/
theorem endRecord_results (now : UInt64) (r : RecordCycles) :
    (endRecord now r).results = if r.resultsSize = maxResults then r.results
      else Function.update r.results r.resultsSize (now - r.start) := by
  simp only [endRecord]
  split <;> rfl

theorem endRecord_size (now : UInt64) (r : RecordCycles) :
    (endRecord now r).resultsSize =
      if r.resultsSize = maxResults then r.resultsSize else r.resultsSize + 1 := by
  simp only [endRecord]
  split <;> rfl

/-- `end_compute_cycles`. -/
def endComputeCycles : Prog Unit := do
  let now ← p.getCycles
  modify fun s => { s with record := endRecord now s.record }

end Platform

end RocketAp.Device
