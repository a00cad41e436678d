import RocketAp.Hal.Discipline
import RocketAp.Kernels.Firmware

/-!
# The firmware keeps to the order

Every function above the layer makes its register accesses in order, on any processor, and
leaves none of its operations running: what the two calls that return early start, their
callers wait for. The two functions that count their polls do so where the processor answers in
time.
-/

namespace RocketAp.Kernels

open ProgramLogic Device Hal

variable {p : Platform} {b : List RegOp} {P₀ : Port}

/-- The polls a function makes are enough. -/
def Kernel.Orderly (p : Platform) (k : Kernel) : Prop :=
  ∀ n ∈ k.polls, p.Triggers ∧ ∀ i, p.latency i < n

/-- The call leaves no operation running. -/
def Call.Orderly (p : Platform) : Call → Prop
  | .hal c => c.Orderly p
  | .kernel k => k.Orderly p

theorem accum_obeys : Obeys b P₀ Port.Quiet Port.Quiet (accum p) := by
  have h := obeys_agreement p b P₀
  have hop : HalCall.Orderly p (.start (.triggerVerticalComputingWWait .add .camA .left)) := trivial
  exact (fillLoop_agrees h.toMemoryAgreement _ _ _).bind fun _ =>
    (startOp_obeys _ hop).bind fun _ => apMonitorBreakpoint_agrees h

/-- What `ap_vertical_computing` starts is waited for. -/
theorem apComputingVerticalTest_obeys (op : APOperations) (internalCol : APInternalCollunm)
    (seed : UInt8) (A C : ℕ) :
    Obeys b P₀ Port.Quiet Port.Quiet (apComputingVerticalTest p op internalCol seed A C) := by
  have h := obeys_memory p b P₀ Port.Quiet
  rw [apComputingVerticalTest, apVerticalComputing]
  simp only [bind_assoc]
  refine (fillLoop_agrees h _ _ _).bind fun _ => (h.vector _ _ _).bind fun _ => ?_
  exact started_obeys rfl rfl rfl rfl <| wait_then <| release_obeys.bind fun _ =>
    (h.vector _ _ _).bind fun _ => .pure 1

theorem functionalTest_obeys (a₀ b₀ c₀ : ℕ) (r : CheckResults) :
    Obeys b P₀ Port.Quiet Port.Quiet (functionalTest p a₀ b₀ c₀ r) := by
  have h := obeys_memory p b P₀ Port.Quiet
  refine (fillLoop_agrees h _ _ _).bind fun _ => (fillLoop_agrees h _ _ _).bind fun _ =>
    (fillLoop_agrees h _ _ _).bind fun _ => (h.copyLoop _ _ _).bind fun _ =>
      (h.copyLoop _ _ _).bind fun _ => ?_
  refine started_obeys rfl rfl rfl rfl <| wait_then <| release_obeys.bind fun _ =>
    (mode_obeys _).bind fun _ => ?_
  exact .forAcc fun _ _ => (h.load _).bind fun _ => (h.store _ _).bind fun _ =>
    (h.call (c := .tinyDelay 1) trivial).bind fun _ => (h.load _).bind fun _ => .pure _

theorem kernel_obeys {k : Kernel} (hk : k.Orderly p) :
    Obeys b P₀ Port.Quiet Port.Quiet (k.exec p) := by
  cases k with
  | accum => exact void_agrees accum_obeys
  | apComputingVerticalTest op ic seed A C => exact apComputingVerticalTest_obeys op ic seed A C
  | functionalTest a b c r i => exact (functionalTest_obeys a b c r).bind fun _ => .pure _
  | opTargetSetup =>
    obtain ⟨hp, hthree⟩ := hk 3 rfl
    exact void_agrees (opTargetSetup_agrees (obeys_memory p b P₀ Port.Quiet)
      (countedHandshake_obeys hp hthree rfl rfl rfl rfl rfl))
  | apAccum =>
    obtain ⟨hp, hfive⟩ := hk 5 rfl
    exact void_agrees (apAccum_agrees (obeys_memory p b P₀ Port.Quiet) (startOp_obeys
      (.triggerComputing .add .camA .left .horizontal .targetC) ⟨hp, hfive⟩))
  | _ => exact kernel_agrees (obeys_agreement p b P₀) not_false rfl

theorem calls_obey {calls : List Call} (hc : ∀ c ∈ calls, c.Orderly p) :
    Obeys b P₀ Port.Quiet Port.Quiet (calls.mapM (Call.exec p)) := by
  refine .mapM fun c hmem => ?_
  have horderly := hc c hmem
  cases c with
  | hal c => exact HalCall.value_leads (call_obeys horderly)
  | kernel k => exact kernel_obeys horderly

/-- **The registers are accessed in order.** Whatever the processor does and whatever is in
its registers, a run of calls that leave no operation running makes register accesses that
are all in order, also when it stops before its end, and a run that returns ends with no
operation running and no reset asked for. The accesses are those of the registers as words: a
store of bytes into them ends the run and is not judged. -/
theorem firmware_orderly {calls : List Call} (hc : ∀ c ∈ calls, c.Orderly p) (hP₀ : P₀.Quiet)
    (s : St) :
    (∀ vs t, calls.mapM (Call.exec p) s = .ok vs t →
      ∃ ops P, t.bus = s.bus ++ ops ∧ P₀.run ops = some P ∧ P.Quiet) ∧
    ∀ e t, calls.mapM (Call.exec p) s = .error e t →
      ∃ ops P, t.bus = s.bus ++ ops ∧ P₀.run ops = some P := by
  have hobeys : Obeys s.bus P₀ Port.Quiet Port.Quiet (calls.mapM (Call.exec p)) := calls_obey hc
  refine ⟨fun vs t hr => hobeys.ok (.start hP₀) hr, fun e t hr => ?_⟩
  obtain ⟨ops, P, hbus, hrun, -⟩ := hobeys.error (.start hP₀) hr
  exact ⟨ops, P, hbus, hrun⟩

/-- Calls of every kind, two of which count their polls. -/
def countedCalls : List Call :=
  [.hal .warmupAp, .kernel .apAccum, .kernel .opTargetSetup, .kernel .accum, .kernel .main]

theorem firmware_orderly_two :
    (∀ vs t, countedCalls.mapM (Call.exec (.reference 2)) (.rest fun _ => 0) = .ok vs t →
      ∃ ops P, t.bus = (St.rest fun _ => 0).bus ++ ops ∧ Port.rest.run ops = some P ∧ P.Quiet) ∧
    ∀ e t, countedCalls.mapM (Call.exec (.reference 2)) (.rest fun _ => 0) = .error e t →
      ∃ ops P, t.bus = (St.rest fun _ => 0).bus ++ ops ∧ Port.rest.run ops = some P := by
  refine firmware_orderly (fun c hc => ?_) .rest _
  have hp := Platform.reference_triggers 2
  have hthree : ∀ i, (Platform.reference 2).latency i < 3 := fun _ => show 2 < 3 by decide
  have hfive : ∀ i, (Platform.reference 2).latency i < 5 := fun _ => show 2 < 5 by decide
  simp only [countedCalls, List.mem_cons, List.not_mem_nil, or_false] at hc
  obtain rfl | rfl | rfl | rfl | rfl := hc
  · trivial
  · rintro n ⟨⟩
    exact ⟨hp, hfive⟩
  · rintro n ⟨⟩
    exact ⟨hp, hthree⟩
  · nofun
  · nofun

end RocketAp.Kernels
