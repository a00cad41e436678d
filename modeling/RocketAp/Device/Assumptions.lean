import RocketAp.Device.Platform

/-!
# What the firmware relies on

The processor's documented behaviour, one named property of the platform for each
part of it: which writes start an operation, what the resets do, and what each
command computes. A result assumes those its functions use and no others, and about
a word the source never writes (a trigger with a reset, a trigger without
`ap_if_state`) nothing is said.

`Platform.reference` is a processor that behaves as documented. The results are about
every such platform; the reference shows there is one, and runs.
-/

namespace RocketAp.Device

/-! ### Selection -/

/-- The column `c`, on the side `MODE` selects. -/
def selected (mode : UInt32) (c : APCollunm) : Cam := ⟨c, sideOf mode c⟩

/-- The column that takes the result of an operation. -/
def resultCam (mode control : UInt32) : Cam :=
  selected mode (if opTargetA control then .camA else .camC)

/-- The columns after a reset: those whose bit is set, on the side `MODE` selects, are
zero. -/
def resetCams (mode control : UInt32) (cs : Cams) : Cams := fun c =>
  if ifState control ∧ resetBit c.col control ∧ c = selected mode c.col then fun _ => 0 else cs c

/-- With no reset asked for, nothing is reset. -/
theorem resetCams_noReset (mode : UInt32) {w : UInt32} (cs : Cams)
    (h : noReset w) : resetCams mode w cs = cs := by
  funext c
  simp [resetCams, h c.col]

/-- A `CONTROL` write that triggers the horizontal command `op`. -/
structure Triggered (op : APOperations) (mode control : UInt32) : Prop where
  ifState : ifState control
  trigger : trigger control
  noReset : noReset control
  horizontal : byte 1 mode = 0
  cmd : byte 0 mode = op.val.toUInt8

instance (op : APOperations) (mode control : UInt32) : Decidable (Triggered op mode control) :=
  decidable_of_iff (Device.ifState control ∧ Device.trigger control ∧ Device.noReset control ∧
      byte 1 mode = 0 ∧ byte 0 mode = op.val.toUInt8)
    ⟨fun ⟨h₁, h₂, h₃, h₄, h₅⟩ => ⟨h₁, h₂, h₃, h₄, h₅⟩,
      fun ⟨h₁, h₂, h₃, h₄, h₅⟩ => ⟨h₁, h₂, h₃, h₄, h₅⟩⟩

/-! ### Commands -/

/-- `OR..MULT`: every row of `A` and `B`. -/
def rowwiseCams (op : APOperations) (mode control : UInt32) (cs : Cams) : Cams :=
  Function.update cs (resultCam mode control) fun r =>
    apUnitTestSw op (cs (selected mode .camA) r) (cs (selected mode .camB) r)

/-- `ADD_D`: every row of `A` and `C`. -/
def addDCams (mode control : UInt32) (cs : Cams) : Cams :=
  Function.update cs (resultCam mode control) fun r =>
    cs (selected mode .camA) r + cs (selected mode .camC) r

/-- `SET`: row `0` of a column, in all its rows. -/
def setRowsCams (col : APCollunm) (mode : UInt32) (cs : Cams) : Cams :=
  Function.update cs (selected mode col) fun _ => cs (selected mode col) ⟨0, by decide⟩

/-- `SEARCH`: which rows of `A` hold row `0` of `B`. -/
def searchCams (mode control : UInt32) (cs : Cams) : Cams :=
  Function.update cs (resultCam mode control) fun r =>
    if cs (selected mode .camA) r = cs (selected mode .camB) ⟨0, by decide⟩ then 1 else 0

/-! ### Assumptions -/

namespace Platform

/-- A locked write with the trigger starts an operation, and one without it starts none. -/
structure Triggers (p : Platform) : Prop where
  starts : ∀ w, ifState w → trigger w → p.starts w = true
  quiet : ∀ w, trigger w = false → p.starts w = false

/-- A `CONTROL` write without the trigger does the resets it asks for and no more, and a
`MODE` write changes no column when no reset is on. -/
structure Resets (p : Platform) : Prop where
  control : ∀ mode w cs, trigger w = false → p.onControl mode w cs = resetCams mode w cs
  mode : ∀ control w cs, noReset control → p.onMode control w cs = cs

/-- The processor computes `op` on every row of `A` and `B`. -/
def RunsRowwise (p : Platform) (op : APOperations) : Prop :=
  ∀ mode w cs, Triggered op mode w → p.onControl mode w cs = rowwiseCams op mode w cs

/-- The processor adds every row of `A` and `C`. -/
def RunsAddD (p : Platform) : Prop :=
  ∀ mode w cs, Triggered .addD mode w → p.onControl mode w cs = addDCams mode w cs

/-- The processor fills a column with its row `0`. -/
def RunsSet (p : Platform) : Prop :=
  ∀ col mode w cs, Triggered .set mode w → byte 2 mode = col.val.toUInt8 →
    p.onControl mode w cs = setRowsCams col mode cs

/-- The processor compares every row of `A` with row `0` of `B`. -/
def RunsSearch (p : Platform) : Prop :=
  ∀ mode w cs, Triggered .search mode w → p.onControl mode w cs = searchCams mode w cs

/-- What a kernel relies on that multiplies and adds columns. -/
structure MultiplyAdd (p : Platform) : Prop where
  triggers : p.Triggers
  resets : p.Resets
  mult : p.RunsRowwise .mult
  addD : p.RunsAddD

/-- What a kernel relies on that besides fills a column with a factor. -/
structure ScaleAdd (p : Platform) : Prop extends MultiplyAdd p where
  set : p.RunsSet

/-! ### A platform that meets them -/

/-- The operation a command byte names. -/
def opOf (cmd : UInt8) : Option APOperations :=
  [.or, .xor, .and, .not, .add, .sub, .mult, .set, .search, .addD].find? (·.val.toUInt8 = cmd)

/-- The column a `MODE` word names. -/
def colOf (mode : UInt32) : APCollunm :=
  if byte 2 mode = 0 then .camA else if byte 2 mode = 1 then .camB else .camC

/-- The columns after a command. -/
def runCams (op : APOperations) (mode control : UInt32) (cs : Cams) : Cams :=
  match op with
  | .set => setRowsCams (colOf mode) mode cs
  | .search => searchCams mode control cs
  | .addD => addDCams mode control cs
  | op => rowwiseCams op mode control cs

/-- A processor that does what is documented, with every operation taking `latency`
polls. -/
def reference (latency : ℕ) : Platform where
  onControl mode w cs :=
    if trigger w then
      match opOf (byte 0 mode) with
      | some op => if Triggered op mode w then runCams op mode w cs else cs
      | none => cs
    else resetCams mode w cs
  onMode control w cs := resetCams w control cs
  starts := trigger
  latency _ := latency
  cycles k := k.toUInt64
  rvMgmt := 0x80001000
  rvMgmt_apart := by decide

variable (n : ℕ)

theorem reference_triggers : (reference n).Triggers where
  starts _ _ h := h
  quiet _ h := h

theorem reference_resets : (reference n).Resets where
  control mode w cs h := by simp [reference, h]
  mode control w cs h := resetCams_noReset w cs h

/-- What the reference does on a trigger. -/
theorem reference_run {op : APOperations} {mode w : UInt32} (cs : Cams)
    (h : Triggered op mode w) : (reference n).onControl mode w cs = runCams op mode w cs := by
  have hop : opOf (byte 0 mode) = some op := by rw [h.cmd]; cases op <;> decide
  simp [reference, h.trigger, hop, h]

theorem reference_runsRowwise {op : APOperations} (h : op.rowwise) :
    (reference n).RunsRowwise op := by
  intro mode w cs ht
  rw [reference_run n cs ht]
  cases op <;> first | rfl | cases h

theorem reference_runsAddD : (reference n).RunsAddD := fun _ _ cs ht => reference_run n cs ht

theorem reference_runsSet : (reference n).RunsSet := by
  intro col mode w cs ht hcol
  rw [reference_run n cs ht]
  have : colOf mode = col := by
    rw [colOf, hcol]
    cases col <;> decide
  simp [runCams, this]

theorem reference_runsSearch : (reference n).RunsSearch := fun _ _ cs ht => reference_run n cs ht

theorem reference_multiplyAdd : (reference n).MultiplyAdd :=
  ⟨reference_triggers n, reference_resets n, reference_runsRowwise n rfl, reference_runsAddD n⟩

theorem reference_scaleAdd : (reference n).ScaleAdd :=
  ⟨reference_multiplyAdd n, reference_runsSet n⟩

end Platform

end RocketAp.Device
