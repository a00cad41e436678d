import RocketAp.Hal.Waiting
import RocketAp.ProgramLogic.Simulation

/-!
# Two processors on which the firmware does the same

What a function above the layer needs in order to do the same on `p` and on `q`, in three
strengths. `MemoryAgreement` is about memory and the cycle record alone, and is all that a
function needs that leaves the processor alone. `Agreement` has the calls of the layer that
wait for what they start, and `MODE`. `RegisterAgreement` has every register write and the
wait without a bound, and gives the calls (`RegisterAgreement.agreement`).

The relation may be one between two processors, or a property of the runs of one.
-/

namespace RocketAp.Hal

open ProgramLogic Device

/-- The calls whose operation is documented: none is vertical. -/
def HalCall.Horizontal : HalCall → Prop
  | .start (.triggerComputingWWait _ dir _) | .start (.triggerComputingWWaitTargetA _ dir _)
  | .start (.computing _ _ dir _ _ _) | .start (.triggerComputing _ _ _ dir _) => dir = .horizontal
  | .start op => op.isVertical = false
  | _ => True

/-- The calls that start no operation, or one that is documented and that they wait for. -/
def HalCall.Waits : HalCall → Prop
  | .apIrqCheck | .apWaitingForComputing _ => False
  | .start (.computing ..) | .start (.triggerComputing ..) => False
  | c => c.Horizontal

/-- The calls that start no operation, or one that they wait for, in whatever direction. -/
def HalCall.Awaits : HalCall → Prop
  | .apIrqCheck | .apWaitingForComputing _ => False
  | .start (.computing ..) | .start (.verticalComputing ..) | .start (.triggerComputing ..) => False
  | _ => True

/-- The calls that access memory alone. -/
def HalCall.Memory : HalCall → Prop
  | .resetApRegs | .tinyDelay _ | .apWriteVector .. | .apReadVector .. | .apReadResultVector ..
  | .apMemcpy .. | .apStoreData .. | .apGetData _ | .apGetDataTo .. => True
  | _ => False

/-- The calls that count no polls. -/
def HalCall.Unpolled : HalCall → Prop
  | .apIrqCheck | .apWaitingForComputing _ | .start (.triggerComputing ..) => False
  | _ => True

theorem HalCall.Waits.horizontal {c : HalCall} (h : c.Waits) : c.Horizontal := by
  cases c with
  | start op =>
    cases op with
    | triggerComputing | computing => exact h.elim
    | _ => exact h
  | _ => trivial

theorem HalCall.Waits.awaits {c : HalCall} (h : c.Waits) : c.Awaits := by
  cases c with
  | apIrqCheck | apWaitingForComputing => exact h.elim
  | start op =>
    cases op with
    | triggerComputing | computing => exact h.elim
    | verticalComputing => cases h
    | _ => trivial
  | _ => trivial

theorem HalCall.Awaits.unpolled {c : HalCall} (h : c.Awaits) : c.Unpolled := by
  cases c with
  | apIrqCheck | apWaitingForComputing => exact h.elim
  | start op =>
    cases op with
    | triggerComputing => exact h.elim
    | _ => trivial
  | _ => trivial

theorem HalCall.Waits.unpolled {c : HalCall} (h : c.Waits) : c.Unpolled := h.awaits.unpolled

/-- `ap_computing`, and what its caller does about the operation. -/
def computeTimed (p : Platform) (op : APOperations) (internalCol : APInternalCollunm)
    (A B size : ℕ) : Prog Unit := do
  apComputing p op internalCol .horizontal A B size
  p.startComputeCycles
  waitIrq
  p.endComputeCycles
  p.writeControl 0x0

/-! ### The outcomes of a wait -/

/-- With no operation running the loop reads `0` for ever. -/
theorem waitIrq_idle_run {s : St} (h : s.irq = .idle) :
    waitIrq s = .error .hang { s with irq := .idle, bus := s.bus ++ [.irq 0] } := by
  have hp : apIrqCheck s = .ok 0 { s with irq := .idle, bus := s.bus ++ [.irq 0] } := by
    simp [apIrqCheck, h, Irq.poll]
  have hspin : waitIrq s = spin 1 s := by simp only [waitIrq, h, pollsLeft]
  exact hspin.trans (bind_run hp)

/-- After the interrupt the loop reads `1` at once. -/
theorem waitIrq_raised_run {s : St} (h : s.irq = .raised) : waitIrq s = .ok () (afterWait 0 s) := by
  have hp : apIrqCheck s = .ok 1 (afterWait 0 s) := by
    simp [apIrqCheck, h, Irq.poll, afterWait]
  have hspin : waitIrq s = spin 1 s := by simp only [waitIrq, h, pollsLeft]
  exact hspin.trans (bind_run hp)

/-! ### Memory -/

/-- Memory and the cycle record do the same on `p` and on `q`. -/
structure MemoryAgreement (R : St → St → Prop) (E : Stuck → St → St → Prop) (p q : Platform) :
    Prop where
  rvMgmt : q.rvMgmt = p.rvMgmt
  load : ∀ a, Matches R R E (load a) (load a)
  store : ∀ a v, Matches R R E (store a v) (store a v)
  storeFixed : ∀ a v, Matches R R E (storeFixed a v) (storeFixed a v)
  memcpy : ∀ target src bytes, Matches R R E (memcpy target src bytes) (memcpy target src bytes)
  memset : ∀ target v bytes, Matches R R E (memset target v bytes) (memset target v bytes)
  readVec : ∀ v i, Matches R R E (p.readVec v i) (q.readVec v i)
  startComputeCycles : Matches R R E p.startComputeCycles q.startComputeCycles
  endComputeCycles : Matches R R E p.endComputeCycles q.endComputeCycles

variable {p q : Platform} {R : St → St → Prop} {E : Stuck → St → St → Prop}

namespace MemoryAgreement

theorem rvAddr (h : MemoryAgreement R E p q) (v : RvVec) : q.rvAddr v = p.rvAddr v := by
  cases v <;> simp only [Platform.rvAddr, h.rvMgmt]

theorem writeVec (h : MemoryAgreement R E p q) (v : RvVec) (i : ℕ) (x : UInt8) :
    Matches R R E (p.writeVec v i x) (q.writeVec v i x) := by
  rw [Platform.writeVec, Platform.writeVec, h.rvAddr]
  exact h.store _ x

variable (h : MemoryAgreement R E p q)
include h

/-- Bytes copied one by one. -/
theorem copyLoop (dst src n : ℕ) :
    Matches R R E (forUpTo n fun i => do
      let v ← Device.load (src + i)
      Device.store (dst + i) v) (forUpTo n fun i => do
      let v ← Device.load (src + i)
      Device.store (dst + i) v) :=
  .forUpTo fun _ => (h.load _).bind fun v => h.store _ v

/-- A vector, unless it is too long. -/
theorem vector (dst src n : ℕ) : Matches R R E
    (if n > apColSize then pure () else forUpTo n fun i => do
      let v ← Device.load (src + i)
      Device.store (dst + i) v)
    (if n > apColSize then pure () else forUpTo n fun i => do
      let v ← Device.load (src + i)
      Device.store (dst + i) v) :=
  .ite (fun _ => .pure ()) fun _ => h.copyLoop dst src n

theorem lw (a : ℕ) : Matches R R E (lw a) (lw a) :=
  (h.load _).bind fun _ => (h.load _).bind fun _ => (h.load _).bind fun _ =>
    (h.load _).bind fun _ => .pure _

theorem sw (a : ℕ) (w : UInt32) : Matches R R E (sw a w) (sw a w) :=
  (h.store _ _).bind fun _ => (h.store _ _).bind fun _ => (h.store _ _).bind fun _ => h.store _ _

/-- A call. -/
theorem call {c : HalCall} (hc : c.Memory) : Matches R R E (c.exec p) (c.exec q) := by
  cases c with
  | resetApRegs => exact .pure ()
  | tinyDelay => exact .forUpTo fun _ => .pure ()
  | apWriteVector | apReadVector | apReadResultVector => exact h.vector _ _ _
  | apMemcpy => exact h.memcpy _ _ _
  | apStoreData => exact h.sw _ _
  | apGetData => exact (h.lw _).bind fun _ => .pure ()
  | apGetDataTo => exact (h.lw _).bind fun w => h.store _ _
  | _ => exact hc.elim

/-- And its value. -/
theorem value {c : HalCall} (hc : c.Memory) : Matches R R E (c.value p) (c.value q) := by
  cases c with
  | apGetData => exact (h.lw _).bind fun _ => .pure _
  | apIrqCheck | apWaitingForComputing => exact hc.elim
  | _ => exact (h.call hc).bind fun _ => .pure 0

end MemoryAgreement

/-! ### Properties of the registers -/

/-- Two states that differ in memory, the cycle record and the logs of memory at most. -/
structure SameRegisters (s t : St) : Prop where
  control : t.control = s.control
  mode : t.mode = s.mode
  irq : t.irq = s.irq
  started : t.started = s.started
  bus : t.bus = s.bus

/-- A program that leaves the registers alone keeps what is a property of the registers. -/
theorem leads_of_sameRegisters {I : St → Prop} {F : Stuck → St → Prop} {α : Type} {m : Prog α}
    (hI : ∀ s t, SameRegisters s t → I s → I t) (hF : ∀ s, I s → F .registerAccess s)
    (hm : ∀ s, (∃ a t, m s = .ok a t ∧ SameRegisters s t) ∨ m s = .error .registerAccess s) :
    Leads I I F m := by
  rintro s _ ⟨rfl, hs⟩
  rcases hm s with ⟨a, t, hr, ht⟩ | hr
  · rw [hr]
    exact .ok a ⟨rfl, hI s t ht hs⟩
  · rw [hr]
    exact .error _ ⟨rfl, hF s hs⟩

/-- What a call leads to does not depend on whether its value is kept. -/
theorem HalCall.value_leads {I J : St → Prop} {F : Stuck → St → Prop} {c : HalCall}
    (h : Leads I J F (c.exec p)) : Leads I J F (c.value p) := .of_dropped (c.value_dropped ▸ h)

/-- Memory and the cycle record are no registers. -/
theorem registers_memory {I : St → Prop} {F : Stuck → St → Prop} (p : Platform)
    (hI : ∀ s t, SameRegisters s t → I s → I t) (hF : ∀ s, I s → F .registerAccess s) :
    MemoryAgreement (Diagonal I) (fun e => Diagonal (F e)) p p := by
  have hkeep {α : Type} {m : Prog α} (hm : ∀ s, ∃ a t, m s = .ok a t ∧ SameRegisters s t) :
      Leads I I F m := leads_of_sameRegisters hI hF fun s => .inl (hm s)
  have hwrite (C : Prop) [Decidable C] (f : Mem → Mem) : Leads I I F (fun s =>
      if C then .ok () { s with mem := f s.mem } else .error .registerAccess s : Prog Unit) := by
    refine leads_of_sameRegisters hI hF fun s => ?_
    split
    · exact .inl ⟨(), _, rfl, rfl, rfl, rfl, rfl, rfl⟩
    · exact .inr rfl
  exact {
    rvMgmt := rfl
    load := fun a => hkeep fun s => ⟨_, _, rfl, rfl, rfl, rfl, rfl, rfl⟩
    store := fun a v => hwrite (OffRegisters a 1) (·.store a v)
    storeFixed := fun a v => (hwrite (OffRegisters a 1) (·.store a v)).bind fun _ =>
      hkeep fun s => ⟨_, _, rfl, rfl, rfl, rfl, rfl, rfl⟩
    memcpy := fun target src bytes =>
      hwrite (OffRegisters target bytes) (·.copy target src bytes)
    memset := fun target v bytes => hwrite (OffRegisters target bytes) (·.fill target v bytes)
    readVec := fun v i => hkeep fun s => ⟨_, _, rfl, rfl, rfl, rfl, rfl, rfl⟩
    startComputeCycles := hkeep fun s => ⟨_, _, rfl, rfl, rfl, rfl, rfl, rfl⟩
    endComputeCycles := hkeep fun s => ⟨_, _, rfl, rfl, rfl, rfl, rfl, rfl⟩ }

/-! ### The calls that wait -/

/-- What the firmware is made of does the same on `p` and on `q`. -/
structure Agreement (R : St → St → Prop) (E : Stuck → St → St → Prop) (p q : Platform) : Prop
    extends MemoryAgreement R E p q where
  writeMode : ∀ w, Matches R R E (p.writeMode w) (q.writeMode w)
  call : ∀ c : HalCall, c.Waits → Matches R R E (c.exec p) (c.exec q)
  computeTimed : ∀ op internalCol A B size, Matches R R E (computeTimed p op internalCol A B size)
    (computeTimed q op internalCol A B size)

namespace Agreement

variable (h : Agreement R E p q)
include h

/-- A call, with its value. -/
theorem value {c : HalCall} (hc : c.Waits) : Matches R R E (c.value p) (c.value q) := by
  cases c with
  | apGetData => exact h.toMemoryAgreement.value trivial
  | apIrqCheck | apWaitingForComputing => exact hc.elim
  | _ => exact (h.call _ hc).bind fun _ => .pure 0

theorem wWait (op : APOperations) (internalCol : APInternalCollunm) :
    Matches R R E (apTriggerComputingWWait p op .horizontal internalCol)
      (apTriggerComputingWWait q op .horizontal internalCol) :=
  h.call (.start (.triggerComputingWWait op .horizontal internalCol)) rfl

theorem wWaitTargetA (op : APOperations) (bits : UInt8) :
    Matches R R E (apTriggerComputingWWaitTargetA p op .horizontal bits)
      (apTriggerComputingWWaitTargetA q op .horizontal bits) :=
  h.call (.start (.triggerComputingWWaitTargetA op .horizontal bits)) rfl

theorem setValueCamALeft (factor : UInt8) :
    Matches R R E (apSetValueCamALeft p factor) (apSetValueCamALeft q factor) :=
  h.call (.start (.setValueCamALeft factor)) rfl

end Agreement

/-! ### Every register write -/

/-- Every register write, and the wait without a bound, do the same on `p` and on `q`. -/
structure RegisterAgreement (R : St → St → Prop) (E : Stuck → St → St → Prop) (p q : Platform) :
    Prop extends MemoryAgreement R E p q where
  writeControl : ∀ w, Matches R R E (p.writeControl w) (q.writeControl w)
  writeMode : ∀ w, Matches R R E (p.writeMode w) (q.writeMode w)
  waitIrq : Matches R R E waitIrq waitIrq

namespace RegisterAgreement

variable (h : RegisterAgreement R E p q) {α : Type}
include h

/-- A `CONTROL` write and what follows it. -/
theorem control_then (w : UInt32) {m m' : Prog α} (hm : Matches R R E m m') :
    Matches R R E (do p.writeControl w; m) (do q.writeControl w; m') :=
  (h.writeControl w).bind fun _ => hm

/-- A `MODE` write and what follows it. -/
theorem mode_then (w : UInt32) {m m' : Prog α} (hm : Matches R R E m m') :
    Matches R R E (do p.writeMode w; m) (do q.writeMode w; m') :=
  (h.writeMode w).bind fun _ => hm

/-- A start and what follows it. -/
theorem start_then (l m w : UInt32) {n n' : Prog α} (hn : Matches R R E n n') :
    Matches R R E (do p.writeControl l; p.writeMode m; p.writeControl w; n)
      (do q.writeControl l; q.writeMode m; q.writeControl w; n') :=
  h.control_then l <| h.mode_then m <| h.control_then w hn

/-- A wait and what follows it. -/
theorem wait_then {n n' : Prog α} (hn : Matches R R E n n') :
    Matches R R E (do Hal.waitIrq; n) (do Hal.waitIrq; n') := h.waitIrq.bind fun _ => hn

/-- A wait with the record running. -/
theorem timedWait_then {n n' : Prog Unit} (hn : Matches R R E n n') :
    Matches R R E (do p.startComputeCycles; Hal.waitIrq; n)
      (do q.startComputeCycles; Hal.waitIrq; n') :=
  h.startComputeCycles.bind fun _ => h.wait_then hn

theorem warmupAp : Matches R R E (warmupAp p) (warmupAp q) :=
  h.control_then _ <| h.mode_then _ <| h.control_then _ <| h.control_then _ <| h.control_then _ <|
    h.control_then _ <| h.control_then _ <| h.mode_then _ <| h.control_then _ <| h.control_then _ <|
      h.control_then _ <| h.writeMode _

/-- Lock, choose the side, reset, release. -/
theorem flush (m w : UInt32) : Matches R R E
    (do p.writeControl 0x1000000; p.writeMode m; p.writeControl w; p.writeControl 0; p.writeMode 0)
    (do q.writeControl 0x1000000; q.writeMode m; q.writeControl w; q.writeControl 0
        q.writeMode 0) :=
  h.start_then _ _ _ <| h.control_then _ <| h.writeMode _

/-- A start. -/
theorem startOp (op : StartOp) (hop : (HalCall.start op).Unpolled) :
    Matches R R E (op.exec p) (op.exec q) := by
  cases op with
  | triggerComputingWWait | triggerComputingWWaitTargetA =>
    exact h.start_then _ _ _ <| h.wait_then <| h.writeControl 0
  | triggerVerticalComputingWWait | triggerVerticalComputingTarget =>
    refine h.start_then _ _ _ <| h.wait_then <| h.control_then 0 ?_
    exact .forUpTo fun _ => .pure ()
  | computing =>
    refine (h.vector _ _ _).bind fun _ => (h.vector _ _ _).bind fun _ => ?_
    exact h.start_then _ _ _ <| .pure ()
  | verticalComputing =>
    refine (h.vector _ _ _).bind fun _ => ?_
    exact h.control_then _ <| h.mode_then _ <| h.writeControl _
  | triggerComputing => exact hop.elim
  | setValue =>
    refine (h.store _ _).bind fun _ => h.start_then _ _ _ <| h.timedWait_then ?_
    exact h.endComputeCycles.bind fun _ => h.writeControl 0
  | setValueCamALeft =>
    exact (h.store _ _).bind fun _ => h.start_then _ _ _ <| h.wait_then <| h.writeControl 0
  | search =>
    exact (h.store _ _).bind fun _ => h.start_then _ _ _ <| h.timedWait_then h.endComputeCycles

/-- A call. -/
theorem call {c : HalCall} (hc : c.Unpolled) : Matches R R E (c.exec p) (c.exec q) := by
  have hmemory := h.toMemoryAgreement
  cases c with
  | warmupAp => exact h.warmupAp
  | resetApEngine =>
    exact h.control_then _ <| h.control_then _ <| h.control_then _ <| h.writeMode _
  | releaseApIf => exact h.writeControl _
  | apFlushA1 | apFlushB0 | apFlushB1 | apFlushC1 => exact h.flush _ _
  | apFlushC0 => exact h.mode_then _ <| h.control_then _ <| h.control_then _ <| h.writeControl _
  | apFlushCol => exact h.start_then _ _ _ <| h.control_then _ <| h.writeControl _
  | apIrqCheck | apWaitingForComputing => exact hc.elim
  | start op => exact h.startOp op hc
  | _ => exact hmemory.call trivial

/-- A call, with its value. -/
theorem value {c : HalCall} (hc : c.Awaits) : Matches R R E (c.value p) (c.value q) := by
  cases c with
  | apGetData => exact h.toMemoryAgreement.value trivial
  | apIrqCheck | apWaitingForComputing => exact hc.elim
  | _ => exact (h.call hc.unpolled).bind fun _ => .pure 0

theorem agreement : Agreement R E p q where
  toMemoryAgreement := h.toMemoryAgreement
  writeMode := h.writeMode
  call _ hc := h.call hc.unpolled
  computeTimed op internalCol A B size :=
    (h.startOp (.computing op internalCol .horizontal A B size) trivial).bind fun _ =>
      h.timedWait_then <| h.endComputeCycles.bind fun _ => h.writeControl 0

end RegisterAgreement

end RocketAp.Hal
