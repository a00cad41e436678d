import RocketAp.Hal.Conformance
import RocketAp.Hal.Timing
import RocketAp.Kernels.Unread

/-!
# One processor and another

What a run of the firmware does on one processor it does on another: on one of another speed,
whatever it computes (`firmware_blind`), on any that does what is documented
(`firmware_conforms`), and there, after a warm-up, whatever the columns held
(`firmware_reproducible`).

The calls are those that wait for what they start and load nothing from the registers, and they
start with nothing running: a result is in its column when the interrupt has been seen, and not
before. So the functions that give up after some polls are left out, and the calls that return
while their operation runs. A run stops where it waits for an interrupt that never comes, or
stores bytes into a register.
-/

namespace RocketAp.Kernels

open ProgramLogic Device Hal

variable {p q : Platform} {s t : St}

/-! ### Functions that leave nothing running -/

section Settling

variable (hp : p.Triggers)
include hp

theorem accum_settles : Settles St.Settled (accum p) := by
  have h := settles_agreement hp
  have hadd := startOp_settles hp (.triggerVerticalComputingWWait .add .camA .left) trivial
  exact (fillLoop_agrees h.toMemoryAgreement _ _ _).bind fun _ => hadd.bind fun _ =>
    apMonitorBreakpoint_agrees h

/-- What `ap_vertical_computing` starts is waited for. -/
theorem apComputingVerticalTest_settles (op : APOperations) (internalCol : APInternalCollunm)
    (seed : UInt8) (A C : ℕ) :
    Settles St.Settled (apComputingVerticalTest p op internalCol seed A C) := by
  have h := settles_memory p
  rw [apComputingVerticalTest, apVerticalComputing]
  simp only [bind_assoc]
  refine (fillLoop_agrees h _ _ _).bind fun _ => (h.vector _ _ _).bind fun _ => ?_
  refine start_then_settles _ _ _ <| wait_then_settles ?_
  exact (control_settles hp rfl).bind fun _ => (h.vector _ _ _).bind fun _ => .pure 1

theorem functionalTest_settles (a b c : ℕ) (r : CheckResults) :
    Settles St.Settled (functionalTest p a b c r) := by
  have h := settles_memory p
  refine (fillLoop_agrees h _ _ _).bind fun _ => (fillLoop_agrees h _ _ _).bind fun _ =>
    (fillLoop_agrees h _ _ _).bind fun _ => (h.copyLoop _ _ _).bind fun _ =>
      (h.copyLoop _ _ _).bind fun _ => ?_
  refine start_then_settles _ _ _ <| wait_then_settles <| (control_settles hp rfl).bind fun _ =>
    (mode_settles _).bind fun _ => ?_
  exact .forAcc fun _ _ => (h.load _).bind fun _ => (h.store _ _).bind fun _ =>
    (h.call (c := .tinyDelay 1) trivial).bind fun _ => (h.load _).bind fun _ => .pure _

theorem kernel_settles {k : Kernel} (hk : k.polls = none) : Settles St.Settled (k.exec p) := by
  cases k with
  | accum => exact void_agrees (accum_settles hp)
  | apComputingVerticalTest op ic seed A C =>
    exact apComputingVerticalTest_settles hp op ic seed A C
  | functionalTest a b c r i => exact (functionalTest_settles hp a b c r).bind fun _ => .pure _
  | opTargetSetup | apAccum => cases hk
  | _ => exact kernel_agrees (settles_agreement hp) not_false rfl

/-- A call that waits for what it starts leaves nothing running. -/
theorem exec_settles {c : Call} (hc : c.Awaits) : Settles St.Settled (c.exec p) := by
  cases c with
  | hal c => exact HalCall.value_leads (call_settles hp hc)
  | kernel k => exact kernel_settles hp hc

end Settling

/-! ### One processor at two speeds -/

/-- A call that waits for an operation that it starts, of any kind, and loads nothing from the
registers. -/
structure Call.Patient (p : Platform) (c : Call) : Prop where
  awaits : c.Awaits
  loaded : ∀ b ∈ c.loaded p, OffRegisters b.1 b.2

/-- Two states with no operation running, the same but for the memory at the registers' addresses,
the times in the cycle record and the polls that read `0`. -/
structure AlikeButTiming (s t : St) : Prop where
  mem : ∀ a ∉ registers, t.mem a = s.mem a
  control : t.control = s.control
  mode : t.mode = s.mode
  irq : t.irq = s.irq
  settled : s.Settled
  started : t.started = s.started
  cycleReads : t.cycleReads = s.cycleReads
  resultsSize : t.record.resultsSize = s.record.resultsSize
  bus : answered t.bus = answered s.bus

/-- A call that waits does the same at the two speeds. -/
theorem call_blind (hpq : SameProcessor p q) (hp : p.Triggers) {c : Call} (hc : c.Patient p) :
    Simulates AlikeButTiming (c.exec p) (c.exec q) := by
  intro s t h
  let u : St := { s with mem := t.mem, reads := t.reads, fixedStores := t.fixedStores }
  have hs : Beside registers s u := { Beside.of_mem h.mem with }
  have ht : SameButTiming u t :=
    { mem := rfl, control := h.control, mode := h.mode, irq := h.irq ▸ .refl _
      started := h.started, cycleReads := h.cycleReads, resultsSize := h.resultsSize
      bus := h.bus, reads := rfl, fixedStores := rfl }
  have hrun := (call_overlooks (notMem_registers hc.loaded) s u hs).trans
    (call_registers (sameProcessor_registers hpq) hc.awaits u t ht)
  have hend := exec_settles hp hc.awaits
  have halike : ∀ s' t' : St,
      (∃ u', Beside registers s' u' ∧ SameButTiming u' t') ∧ s'.Settled ∧ True →
        AlikeButTiming s' t' := by
    rintro s' t' ⟨⟨u', hu, ht'⟩, hs', -⟩
    exact
      { mem := fun a ha => by rw [ht'.mem, hu.outside a ha]
        control := ht'.control.trans hu.control
        mode := ht'.mode.trans hu.mode
        irq := (ht'.irq.eq fun n => hu.irq ▸ hs' n).trans hu.irq
        settled := hs'
        started := ht'.started.trans hu.started
        cycleReads := ht'.cycleReads.trans hu.cycleReads
        resultsSize := ht'.resultsSize.trans (by rw [hu.record])
        bus := ht'.bus.trans (by rw [hu.bus]) }
  exact (hrun.guard hend h.settled .any trivial).mono halike fun _ => halike

/-- **The firmware does not see how fast the processor is.** On one processor at two speeds,
whatever it computes, from states with nothing running every run of calls that wait for what they
start and load nothing from the registers returns the same values or stops for the same reason,
leaves the same memory, and makes the same register accesses but for the polls that read `0`. -/
theorem firmware_blind (hpq : SameProcessor p q) (hp : p.Triggers) {calls : List Call}
    (hc : ∀ c ∈ calls, c.Patient p) :
    Simulates AlikeButTiming (calls.mapM (Call.exec p)) (calls.mapM (Call.exec q)) :=
  .mapM fun c hmem => call_blind hpq hp (hc c hmem)

theorem reference_sameProcessor (n k : ℕ) : SameProcessor (.reference n) (.reference k) :=
  ⟨rfl, rfl, rfl, rfl⟩

theorem firmware_blind_two_forty : Simulates AlikeButTiming
    (someCalls.mapM (Call.exec (.reference 2))) (someCalls.mapM (Call.exec (.reference 40))) := by
  have hpatient : ∀ c ∈ someCalls, c.Patient (.reference 2) := by
    simp only [someCalls, List.forall_mem_cons]
    exact ⟨⟨trivial, by decide⟩, ⟨rfl, by decide⟩, ⟨rfl, by decide⟩, ⟨rfl, by decide⟩, nofun⟩
  exact firmware_blind (reference_sameProcessor 2 40) (Platform.reference_triggers 2) hpatient

/-! ### Two documented processors -/

/-- A call that waits for a documented operation that it starts, and loads nothing from the
registers. -/
structure Call.Proper (p : Platform) (c : Call) : Prop where
  waits : c.Waits
  loaded : ∀ b ∈ c.loaded p, OffRegisters b.1 b.2

/-- A call does the same on the two. -/
theorem call_alike (hp : Documented p) (hq : Documented q) (hrv : q.rvMgmt = p.rvMgmt) {c : Call}
    (hc : c.Proper p) : Simulates Alike (c.exec p) (c.exec q) := by
  intro s t h
  let u : St := { s with mem := t.mem }
  have hs : Beside registers s u := .of_mem h.mem
  have ht : SameMemory u t := ⟨t.mem, ⟨rfl, h.left.noReset⟩, ⟨rfl, h.right.noReset⟩⟩
  have hrun := (call_overlooks (notMem_registers hc.loaded) s u hs).trans
    (call_agrees (documented_agreement hp hq hrv) hc.waits u t ht)
  have hendp := exec_settles hp.triggers hc.waits.awaits
  have hendq := exec_settles hq.triggers hc.waits.awaits
  have halike : ∀ s' t' : St,
      (∃ u', Beside registers s' u' ∧ SameMemory u' t') ∧ s'.Settled ∧ t'.Settled →
        Alike s' t' := by
    rintro s' t' ⟨⟨u', hu, m, hum, htm⟩, hs', ht'⟩
    refine ⟨fun a ha => ?_, ⟨hu.control ▸ hum.noReset, hs'⟩, ⟨htm.noReset, ht'⟩⟩
    rw [htm.mem, ← hum.mem, hu.outside a ha]
  exact (hrun.guard hendp h.left.settled hendq h.right.settled).mono halike fun _ => halike

/-- **Any documented processor is as good as any other.** On two processors that do what is
documented, from states at rest with the same memory, and whatever is in the other registers,
every run of calls that wait for documented operations and load nothing from the registers
returns the same values or stops for the same reason, leaves the same memory, and leaves both
at rest. -/
theorem firmware_conforms (hp : Documented p) (hq : Documented q) (hrv : q.rvMgmt = p.rvMgmt)
    {calls : List Call} (hc : ∀ c ∈ calls, c.Proper p) :
    Simulates Alike (calls.mapM (Call.exec p)) (calls.mapM (Call.exec q)) :=
  .mapM fun c hmem => call_alike hp hq hrv (hc c hmem)

/-- A word of a column, sums that nobody clears, and `main`. -/
theorem firmware_conforms_two_forty : Simulates Alike
    ([.hal (.apGetData Cam.c0.base), .kernel .accumulateHorizontal, .kernel .main].mapM
      (Call.exec (.reference 2)))
    ([.hal (.apGetData Cam.c0.base), .kernel .accumulateHorizontal, .kernel .main].mapM
      (Call.exec (.reference 40))) := by
  have hproper : ∀ c ∈ [Call.hal (.apGetData Cam.c0.base), .kernel .accumulateHorizontal,
      .kernel .main], c.Proper (.reference 2) := by
    simp only [List.forall_mem_cons]
    exact ⟨⟨trivial, by decide⟩, ⟨⟨not_false, rfl⟩, by decide⟩, ⟨⟨not_false, rfl⟩, by decide⟩,
      nofun⟩
  exact firmware_conforms (reference_documented 2) (reference_documented 40) rfl hproper

/-! ### After a warm-up -/

/-- Two states with no operation running that differ in the columns and in the registers at
most. -/
structure SameOutside (s t : St) : Prop where
  mem : ∀ a ∉ registers, ¬ InColumns a → t.mem a = s.mem a
  left : s.Settled
  right : t.Settled

/-- A warm-up forgets what it finds. -/
theorem warmupAp_forgets (hp : Documented p) (hq : Documented q) :
    Matches SameOutside Alike (fun _ => Alike) (warmupAp p) (warmupAp q) := by
  intro s t hst
  have hendp : Settles St.Settled (warmupAp p) :=
    call_settles (c := .warmupAp) hp.triggers trivial
  have hendq : Settles St.Settled (warmupAp q) :=
    call_settles (c := .warmupAp) hq.triggers trivial
  obtain ⟨_, s', hs, hs'⟩ := warmupAp_ran hp.resets s
  obtain ⟨_, t', ht, ht'⟩ := warmupAp_ran hq.resets t
  have hmem : ∀ a ∉ registers, t'.mem a = s'.mem a := by
    intro a hreg
    rw [hs'.toChanged.mem_eq, ht'.toChanged.mem_eq]
    by_cases ha : InColumns a
    · simp only [setCams, locate, if_pos ha]
    · rw [setCams_of_not_mem _ _ ha, setCams_of_not_mem _ _ ha, hst.mem a hreg ha]
  have hleft : AtRest s' := ⟨hs'.control ▸ noReset_zero, hendp.ok hst.left hs⟩
  have hright : AtRest t' := ⟨ht'.control ▸ noReset_zero, hendq.ok hst.right ht⟩
  rw [hs, ht]
  exact .ok () ⟨hmem, hleft, hright⟩

/-- **A warm-up makes runs reproducible.** From states with no operation running and the same
memory outside the columns, whatever is in the columns and the registers, with a reset on too, a
run that starts with a warm-up and goes on with calls that wait for documented operations and load
nothing from the registers returns the same values or stops for the same reason, leaves the same
memory, and leaves the processor at rest, on any two processors that do what is documented. -/
theorem firmware_reproducible (hp : Documented p) (hq : Documented q) (hrv : q.rvMgmt = p.rvMgmt)
    {calls : List Call} (hc : ∀ c ∈ calls, c.Proper p) :
    Matches SameOutside Alike (fun _ => Alike)
      (do warmupAp p; calls.mapM (Call.exec p)) (do warmupAp q; calls.mapM (Call.exec q)) :=
  (warmupAp_forgets hp hq).bind fun _ => .mapM fun c hmem => call_alike hp hq hrv (hc c hmem)

/-- Sums that nobody clears, and a product that is added to them. -/
theorem firmware_reproducible_sums : Matches SameOutside Alike (fun _ => Alike)
    (do warmupAp (.reference 2)
        [.kernel (.apMmV2 2 3 4), .kernel (.matmulEvaluation 5)].mapM (Call.exec (.reference 2)))
    (do warmupAp (.reference 9)
        [.kernel (.apMmV2 2 3 4), .kernel (.matmulEvaluation 5)].mapM
          (Call.exec (.reference 9))) := by
  have hproper : ∀ c ∈ [Call.kernel (.apMmV2 2 3 4), .kernel (.matmulEvaluation 5)],
      c.Proper (.reference 2) := by
    simp only [List.forall_mem_cons]
    exact ⟨⟨⟨not_false, rfl⟩, by decide⟩, ⟨⟨not_false, rfl⟩, by decide⟩, nofun⟩
  exact firmware_reproducible (reference_documented 2) (reference_documented 9) rfl hproper

end RocketAp.Kernels
