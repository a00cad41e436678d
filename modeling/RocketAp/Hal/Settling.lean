import RocketAp.Hal.Agreement

/-!
# What a call leaves running

Where every `CONTROL` write with the trigger starts an operation and no other does, a call that
waits for what it starts leaves no operation running, whether it returns or stops
(`call_settles`): either the interrupt has been seen since the last trigger, or no trigger was
written. So a run of such calls never finds an operation of another running.
-/

namespace RocketAp.Hal

open ProgramLogic Device

variable {p : Platform} {s t : St} {I : St → Prop}

/-- From a state with `I` the program leaves no operation running. -/
abbrev Settles (I : St → Prop) {α : Type} (m : Prog α) : Prop :=
  Leads I St.Settled (fun _ => St.Settled) m

theorem settled_sameRegisters (h : SameRegisters s t) (hs : s.Settled) : t.Settled := fun n => by
  rw [h.irq]
  exact hs n

/-- Memory and the cycle record start nothing. -/
theorem settles_memory (p : Platform) :
    MemoryAgreement (Diagonal St.Settled) (fun _ => Diagonal St.Settled) p p :=
  registers_memory p (fun _ _ => settled_sameRegisters) fun _ h => h

/-! ### Registers -/

/-- A `CONTROL` write may start an operation. -/
theorem control_any {F : Stuck → St → Prop} (w : UInt32) :
    Leads I (fun _ => True) F (p.writeControl w) := .of_run fun _ _ => ⟨(), _, rfl, trivial⟩

theorem mode_any {F : Stuck → St → Prop} (w : UInt32) :
    Leads I (fun _ => True) F (p.writeMode w) := .of_run fun _ _ => ⟨(), _, rfl, trivial⟩

theorem startCycles_any {F : Stuck → St → Prop} :
    Leads I (fun _ => True) F p.startComputeCycles := .of_run fun _ _ => ⟨(), _, rfl, trivial⟩

/-- One without the trigger ends every operation. -/
theorem control_settles (hp : p.Triggers) {w : UInt32} (hw : trigger w = false) :
    Settles I (p.writeControl w) := by
  refine .of_run fun s _ => ⟨(), _, rfl, fun n => ?_⟩
  simp [Platform.afterControl, hp.quiet w hw, hw]

theorem mode_settles (w : UInt32) : Settles St.Settled (p.writeMode w) :=
  .of_run fun _ hs => ⟨(), _, rfl, hs⟩

/-- A wait that returns has seen the interrupt, and one that does not finds nothing running. -/
theorem waitIrq_settles : Settles I waitIrq := by
  rintro s _ ⟨rfl, -⟩
  cases hs : s.irq with
  | idle =>
    rw [waitIrq_idle_run hs]
    exact .error _ ⟨rfl, fun n => by simp⟩
  | busy n =>
    rw [waitIrq_busy hs]
    exact .ok () ⟨rfl, fun n => by simp [afterWait]⟩
  | raised =>
    rw [waitIrq_raised_run hs]
    exact .ok () ⟨rfl, fun n => by simp [afterWait]⟩

/-- A start, and a program that waits. -/
theorem start_then_settles (l m w : UInt32) {α : Type} {n : Prog α}
    (h : Settles (fun _ => True) n) :
    Settles I (do p.writeControl l; p.writeMode m; p.writeControl w; n) :=
  (control_any l).bind fun _ => (mode_any m).bind fun _ => (control_any w).bind fun _ => h

/-- A wait, and a program that starts nothing. -/
theorem wait_then_settles {α : Type} {n : Prog α} (h : Settles St.Settled n) :
    Settles I (do waitIrq; n) := waitIrq_settles.bind fun _ => h

/-- A wait with the record running. -/
theorem timedWait_then_settles {n : Prog Unit} (h : Settles St.Settled n) :
    Settles I (do p.startComputeCycles; waitIrq; n) :=
  startCycles_any.bind fun _ => wait_then_settles h

/-! ### Calls -/

section Calls

variable (hp : p.Triggers)
include hp

/-- Lock, choose the side, reset, release. -/
theorem flush_settles (m w : UInt32) : Settles St.Settled (do
    p.writeControl 0x1000000; p.writeMode m; p.writeControl w; p.writeControl 0; p.writeMode 0) :=
  start_then_settles _ _ _ <| (control_settles hp rfl).bind fun _ => mode_settles 0

theorem startOp_settles (op : StartOp) (hop : (HalCall.start op).Awaits) :
    Settles St.Settled (op.exec p) := by
  have hmem := settles_memory p
  cases op with
  | triggerComputingWWait | triggerComputingWWaitTargetA =>
    exact start_then_settles _ _ _ <| wait_then_settles <| control_settles hp rfl
  | triggerVerticalComputingWWait | triggerVerticalComputingTarget =>
    refine start_then_settles _ _ _ <| wait_then_settles ?_
    exact (control_settles hp rfl).bind fun _ => .forUpTo fun _ => .pure ()
  | computing | verticalComputing | triggerComputing => exact hop.elim
  | setValue =>
    refine (hmem.store _ _).bind fun _ => start_then_settles _ _ _ <| timedWait_then_settles ?_
    exact hmem.endComputeCycles.bind fun _ => control_settles hp rfl
  | setValueCamALeft =>
    refine (hmem.store _ _).bind fun _ => start_then_settles _ _ _ <| wait_then_settles ?_
    exact control_settles hp rfl
  | search =>
    exact (hmem.store _ _).bind fun _ => start_then_settles _ _ _ <|
      timedWait_then_settles hmem.endComputeCycles

/-- **A call that waits for what it starts leaves nothing running.** -/
theorem call_settles {c : HalCall} (hc : c.Awaits) : Settles St.Settled (c.exec p) := by
  have hmem := settles_memory p
  cases c with
  | warmupAp =>
    refine (control_any _).bind fun _ => (mode_any _).bind fun _ => (control_any _).bind fun _ =>
      (control_any _).bind fun _ => (control_any _).bind fun _ => (control_any _).bind fun _ =>
        (control_any _).bind fun _ => (mode_any _).bind fun _ => (control_any _).bind fun _ =>
          (control_any _).bind fun _ => ?_
    exact (control_settles hp rfl).bind fun _ => mode_settles 0
  | resetApEngine =>
    refine (control_any _).bind fun _ => (control_any _).bind fun _ => ?_
    exact (control_settles hp rfl).bind fun _ => mode_settles 0
  | releaseApIf => exact control_settles hp rfl
  | apFlushA1 | apFlushB0 | apFlushB1 | apFlushC1 => exact flush_settles hp _ _
  | apFlushC0 =>
    exact (mode_any _).bind fun _ => (control_any _).bind fun _ => (control_any _).bind fun _ =>
      control_settles hp rfl
  | apFlushCol =>
    exact start_then_settles _ _ _ <| (control_any _).bind fun _ => control_settles hp rfl
  | apIrqCheck | apWaitingForComputing => exact hc.elim
  | start op => exact startOp_settles hp op hc
  | _ => exact hmem.call trivial

/-- Functions that are made of such calls leave nothing running either. -/
theorem settles_agreement : Agreement (Diagonal St.Settled) (fun _ => Diagonal St.Settled) p p where
  toMemoryAgreement := settles_memory p
  writeMode := mode_settles
  call _ hc := call_settles hp hc.awaits
  computeTimed op internalCol A B size := by
    have hmem := settles_memory p
    rw [computeTimed, apComputing]
    simp only [bind_assoc]
    refine (hmem.vector _ _ _).bind fun _ => (hmem.vector _ _ _).bind fun _ => ?_
    refine start_then_settles _ _ _ <| timedWait_then_settles ?_
    exact hmem.endComputeCycles.bind fun _ => control_settles hp rfl

end Calls

end RocketAp.Hal
