import RocketAp.Hal.Agreement

/-!
# The order of the register accesses

Which register access is in order depends on those before it. A `Port` is what they amount
to, and `Port.step` is the rule:

- from a trigger on nothing is written until the interrupt has been seen;
- a reset is asked for with the interface locked, and is withdrawn before anything else
  is written;
- a trigger comes after a `CONTROL` write that asks for nothing and a `MODE` write, and with
  no reset.

The processor is any: what is in order is the program. Every call of the layer keeps to the
rule (`call_obeys`), but for two that return while their operation runs, and
`ap_trigger_computing` where it gives up.
-/

namespace RocketAp.Hal

open ProgramLogic Device

/-- What the register accesses so far amount to. -/
inductive Port where
  /-- Nothing has been written that counts. -/
  | rest
  /-- The last write to `CONTROL` asked for nothing. -/
  | opened
  /-- And `MODE` has been written since. -/
  | ready
  /-- An operation was started and its interrupt has not been seen. -/
  | running
  /-- A reset is asked for. -/
  | resetting
  deriving DecidableEq, Repr

/-- A word that asks for a reset, of a column or of the engine. -/
def resets (w : UInt32) : Bool := byte 0 w ≠ 0

/-- The access is in order, and this is what it leads to. -/
def Port.step : Port → RegOp → Option Port
  | .running, .irq v => some (if v = 0 then .running else .rest)
  | .running, _ => none
  | P, .irq _ => some P
  | .resetting, .mode _ => none
  | .rest, .mode _ => some .rest
  | _, .mode _ => some .ready
  | P, .control w =>
    if trigger w then if P = .ready ∧ resets w = false then some .running else none
    else if resets w then if P ≠ .resetting ∧ ifState w then some .resetting else none
    else some .opened

/-- What a sequence of accesses leads to, if all are in order. -/
def Port.run (P : Port) (ops : List RegOp) : Option Port := ops.foldlM Port.step P

/-- No operation is running, and no reset is asked for. -/
inductive Port.Quiet : Port → Prop where
  | rest : Quiet .rest
  | opened : Quiet .opened
  | ready : Quiet .ready

namespace Port

variable {P Q : Port} {w : UInt32}

theorem Quiet.not_running (h : P.Quiet) : P ≠ .running := by cases h <;> decide

theorem step_irq (h : P.Quiet) (v : UInt8) : P.step (.irq v) = some P := by cases h <;> rfl

theorem step_mode (h : P.Quiet) (w : UInt32) : ∃ Q, P.step (.mode w) = some Q ∧ Q.Quiet := by
  cases h with
  | rest => exact ⟨.rest, rfl, .rest⟩
  | opened | ready => exact ⟨.ready, rfl, .ready⟩

/-- A word that asks for nothing. -/
theorem step_plain (hP : P ≠ .running) (ht : trigger w = false) (hr : resets w = false) :
    P.step (.control w) = some .opened := by
  cases P with
  | running => exact absurd rfl hP
  | _ => simp [step, ht, hr]

theorem step_start (ht : trigger w) (hr : resets w = false) :
    ready.step (.control w) = some .running := by simp [step, ht, hr]

theorem step_reset (hP : P.Quiet) (ht : trigger w = false) (hr : resets w) (hi : ifState w) :
    P.step (.control w) = some .resetting := by cases hP <;> simp [step, ht, hr, hi]

theorem run_append (P : Port) (ops ops' : List RegOp) :
    P.run (ops ++ ops') = P.run ops >>= fun Q => Q.run ops' := List.foldlM_append

theorem run_snoc {ops : List RegOp} {op : RegOp} (h : P.run ops = some Q) :
    P.run (ops ++ [op]) = Q.step op := by
  rw [run_append, h]
  show Q.run [op] = Q.step op
  rw [run, List.foldlM_cons]
  exact bind_pure (Q.step op)

theorem run_append_eq_some {ops ops' : List RegOp} :
    P.run (ops ++ ops') = some Q ↔ ∃ R, P.run ops = some R ∧ R.run ops' = some Q := by
  rw [run_append]
  exact Option.bind_eq_some_iff

theorem run_cons_eq_some {op : RegOp} {ops : List RegOp} :
    P.run (op :: ops) = some Q ↔ ∃ R, P.step op = some R ∧ R.run ops = some Q := by
  rw [run, List.foldlM_cons]
  exact Option.bind_eq_some_iff

theorem run_polls (n : ℕ) : running.run (List.replicate n (.irq 0)) = some .running := by
  induction n with
  | zero => rfl
  | succ n ih => exact ih

/-- The polls of a wait. -/
theorem run_wait (n : ℕ) :
    running.run (List.replicate n (.irq 0) ++ [.irq 1]) = some .rest := run_snoc (run_polls n)

/-- After a trigger that is in order the interrupt is read, and nothing else happens, until it
has been seen. -/
theorem run_trigger {pre mid post : List RegOp} {op : RegOp} (hw : trigger w)
    (hmid : ∀ x ∈ mid, x = .irq 0)
    (h : P.run (pre ++ .control w :: (mid ++ op :: post)) = some Q) : ∃ v, op = .irq v := by
  obtain ⟨P₁, -, h⟩ := run_append_eq_some.mp h
  obtain ⟨P₂, hstep, h⟩ := run_cons_eq_some.mp h
  obtain ⟨P₃, hpolls, h⟩ := run_append_eq_some.mp h
  obtain ⟨P₄, hop, -⟩ := run_cons_eq_some.mp h
  have h₂ : P₂ = .running := by
    cases P₁ <;> simp_all [step]
  have h₃ : P₃ = .running := by
    rw [h₂, List.eq_replicate_of_mem hmid, run_polls, Option.some.injEq] at hpolls
    exact hpolls.symm
  rw [h₃] at hop
  cases op with
  | irq v => exact ⟨v, rfl⟩
  | control | mode => cases hop

end Port

/-! ### States -/

/-- Since `b` every access was in order, and they lead from `P₀` to a port with `I`. -/
def Reached (b : List RegOp) (P₀ : Port) (I : Port → Prop) (s : St) : Prop :=
  ∃ ops P, s.bus = b ++ ops ∧ P₀.run ops = some P ∧ I P

variable {p : Platform} {b : List RegOp} {P₀ : Port} {I J : Port → Prop} {s t : St}

namespace Reached

theorem start (hI : I P₀) : Reached s.bus P₀ I s := ⟨[], P₀, (List.append_nil _).symm, rfl, hI⟩

theorem mono (h : Reached b P₀ I s) (hIJ : ∀ P, I P → J P) : Reached b P₀ J s := by
  obtain ⟨ops, P, hbus, hrun, hP⟩ := h
  exact ⟨ops, P, hbus, hrun, hIJ P hP⟩

theorem silent (h : Reached b P₀ I s) (hbus : t.bus = s.bus) : Reached b P₀ I t := by
  obtain ⟨ops, P, hs, hrun, hP⟩ := h
  exact ⟨ops, P, hbus.trans hs, hrun, hP⟩

/-- One access more. -/
theorem access {op : RegOp} (h : Reached b P₀ I s) (hbus : t.bus = s.bus ++ [op])
    (hstep : ∀ P, I P → ∃ Q, P.step op = some Q ∧ J Q) : Reached b P₀ J t := by
  obtain ⟨ops, P, hs, hrun, hP⟩ := h
  obtain ⟨Q, hQ, hJ⟩ := hstep P hP
  exact ⟨ops ++ [op], Q, by rw [hbus, hs, List.append_assoc], (Port.run_snoc hrun).trans hQ, hJ⟩

/-- A start. -/
theorem handshake {l m w : UInt32} (h : Reached b P₀ Port.Quiet s) (hl : trigger l = false)
    (hlr : resets l = false) (hw : trigger w) (hwr : resets w = false) :
    Reached b P₀ (· = .running) (afterHandshake p l m w s) := by
  have hlock : Reached b P₀ (· = .opened) (p.afterControl l s) :=
    h.access rfl fun P hP => ⟨_, Port.step_plain hP.not_running hl hlr, rfl⟩
  have hmode : Reached b P₀ (· = .ready) (p.afterMode m (p.afterControl l s)) :=
    hlock.access rfl fun P hP => ⟨.ready, by rw [hP]; rfl, rfl⟩
  exact hmode.access rfl fun P hP => ⟨.running, by rw [hP, Port.step_start hw hwr], rfl⟩

/-- The end of a wait. -/
theorem afterWait (h : Reached b P₀ (· = .running) s) (n : ℕ) :
    Reached b P₀ Port.Quiet (afterWait n s) := by
  obtain ⟨ops, P, hs, hrun, rfl⟩ := h
  refine ⟨ops ++ (List.replicate n (.irq 0) ++ [.irq 1]), .rest, ?_, ?_, .rest⟩
  · rw [← List.append_assoc, ← hs]
    rfl
  · rw [Port.run_append, hrun]
    exact Port.run_wait n

end Reached

/-! ### Programs -/

/-- From a port with `I` the program leads to one with `J`, and where it stops instead it was
in order until then. -/
abbrev Obeys (b : List RegOp) (P₀ : Port) (I J : Port → Prop) {α : Type} (m : Prog α) : Prop :=
  Leads (Reached b P₀ I) (Reached b P₀ J) (fun _ => Reached b P₀ fun _ => True) m

theorem control_obeys {w : UInt32} (h : ∀ P, I P → ∃ Q, P.step (.control w) = some Q ∧ J Q) :
    Obeys b P₀ I J (p.writeControl w) := .of_run fun _ hs => ⟨(), _, rfl, hs.access rfl h⟩

/-- A write that asks for nothing. -/
theorem plain_obeys {w : UInt32} (ht : trigger w = false) (hr : resets w = false)
    (hI : ∀ P, I P → P ≠ .running) : Obeys b P₀ I Port.Quiet (p.writeControl w) :=
  control_obeys fun P hP => ⟨_, Port.step_plain (hI P hP) ht hr, .opened⟩

theorem release_obeys : Obeys b P₀ Port.Quiet Port.Quiet (p.writeControl 0) :=
  plain_obeys rfl rfl fun _ h => h.not_running

theorem mode_obeys (w : UInt32) : Obeys b P₀ Port.Quiet Port.Quiet (p.writeMode w) :=
  .of_run fun _ hs => ⟨(), _, rfl, hs.access rfl fun _ hP => Port.step_mode hP w⟩

/-- A reset, and what withdraws it. -/
theorem reset_obeys {r w : UInt32} (ht : trigger r = false) (hr : resets r) (hi : ifState r)
    (hw : trigger w = false) (hwr : resets w = false) :
    Obeys b P₀ Port.Quiet Port.Quiet (do p.writeControl r; p.writeControl w) :=
  Matches.bind (control_obeys (J := (· = .resetting)) fun P hP =>
    ⟨.resetting, Port.step_reset hP ht hr hi, rfl⟩) fun _ =>
      plain_obeys hw hwr fun P hP => by rw [hP]; decide

theorem irq_obeys : Obeys b P₀ Port.Quiet Port.Quiet apIrqCheck :=
  .of_run fun _ hs => ⟨_, _, rfl, hs.access rfl fun P hP => ⟨P, Port.step_irq hP _, hP⟩⟩

/-- The loop without a bound: it ends when the interrupt is seen. -/
theorem waitIrq_obeys : Obeys b P₀ (· = .running) Port.Quiet waitIrq := by
  rintro s _ ⟨rfl, hs⟩
  cases hirq : s.irq with
  | idle =>
    rw [waitIrq_idle_run hirq]
    exact .error _ ⟨rfl, hs.access rfl fun P hP => ⟨.running, by rw [hP]; rfl, trivial⟩⟩
  | busy n =>
    rw [waitIrq_busy hirq]
    exact .ok _ ⟨rfl, hs.afterWait n⟩
  | raised =>
    rw [waitIrq_raised_run hirq]
    exact .ok _ ⟨rfl, hs.afterWait 0⟩

/-- The loop with a bound, with no operation running. -/
theorem apWaitingForComputing_obeys (loops : ℕ) :
    Obeys b P₀ Port.Quiet Port.Quiet (apWaitingForComputing p loops) := by
  induction loops with
  | zero => exact .pure BitState.false
  | succ n ih =>
    refine irq_obeys.bind fun v => .ite (fun _ => ?_) fun _ => ih
    exact release_obeys.bind fun _ => (mode_obeys 0).bind fun _ => .pure BitState.true

/-- A start, and what waits for it. -/
theorem started_obeys {l m w : UInt32} {α : Type} {c : Prog α} (hl : trigger l = false)
    (hlr : resets l = false) (hw : trigger w) (hwr : resets w = false)
    (h : Obeys b P₀ (· = .running) Port.Quiet c) :
    Obeys b P₀ Port.Quiet Port.Quiet
      (do p.writeControl l; p.writeMode m; p.writeControl w; c) := by
  rintro s _ ⟨rfl, hs⟩
  exact h _ _ ⟨rfl, hs.handshake hl hlr hw hwr⟩

/-- A start, and a loop that does not give up on it. -/
theorem countedHandshake_obeys (hp : p.Triggers) {l m w : UInt32} {loops : ℕ}
    (hloops : ∀ k, p.latency k < loops) (hl : trigger l = false) (hlr : resets l = false)
    (hw : trigger w) (hwr : resets w = false) (hi : ifState w) :
    Obeys b P₀ Port.Quiet Port.Quiet (do
      p.writeControl l; p.writeMode m; p.writeControl w
      let _ ← apWaitingForComputing p loops) := by
  rintro s _ ⟨rfl, hs⟩
  have hirq := afterHandshake_irq (m := m) hp hl hw s
  rw [if_pos (hp.starts w hi hw)] at hirq
  have hwait := (hs.handshake (p := p) (m := m) hl hlr hw hwr).afterWait (p.latency s.started)
  have hrun := apWaitingForComputing_lt p hirq (hloops s.started)
  have hend : Obeys b P₀ Port.Quiet Port.Quiet (do p.writeControl 0; p.writeMode 0) :=
    release_obeys.bind fun _ => mode_obeys 0
  have hout : (do
      p.writeControl l; p.writeMode m; p.writeControl w
      let _ ← apWaitingForComputing p loops) s = .ok () _ := bind_run hrun
  rw [hout]
  exact .ok () ⟨rfl, hend.ok hwait rfl⟩

theorem obeys_memory (p : Platform) (b : List RegOp) (P₀ : Port) (I : Port → Prop) :
    MemoryAgreement (Diagonal (Reached b P₀ I)) (fun _ => Diagonal (Reached b P₀ fun _ => True))
      p p :=
  registers_memory p (fun _ _ hst hs => hs.silent hst.bus) fun _ hs => hs.mono fun _ _ => trivial

/-! ### The calls of the layer -/

theorem wait_then {α : Type} {c : Prog α} (h : Obeys b P₀ Port.Quiet Port.Quiet c) :
    Obeys b P₀ (· = .running) Port.Quiet (do waitIrq; c) := waitIrq_obeys.bind fun _ => h

theorem timedWait_then {c : Prog Unit} (h : Obeys b P₀ Port.Quiet Port.Quiet c) :
    Obeys b P₀ (· = .running) Port.Quiet (do p.startComputeCycles; waitIrq; c) :=
  (obeys_memory p b P₀ (· = .running)).startComputeCycles.bind fun _ => wait_then h

/-- The calls that leave no operation running. -/
def HalCall.Orderly (p : Platform) : HalCall → Prop
  | .start (.computing ..) | .start (.verticalComputing ..) => False
  | .start (.triggerComputing ..) => p.Triggers ∧ ∀ k, p.latency k < 5
  | _ => True

/-- Lock, choose the side, reset, release. -/
theorem flush_obeys (m : UInt32) {r : UInt32} (ht : trigger r = false) (hr : resets r)
    (hi : ifState r) : Obeys b P₀ Port.Quiet Port.Quiet
      (do p.writeControl 0x1000000; p.writeMode m; p.writeControl r; p.writeControl 0
          p.writeMode 0) := by
  refine (plain_obeys rfl rfl fun _ h => h.not_running).bind fun _ =>
    (mode_obeys m).bind fun _ => ?_
  exact (reset_obeys (w := 0) ht hr hi rfl rfl).bind fun _ => mode_obeys 0

theorem warmupAp_obeys : Obeys b P₀ Port.Quiet Port.Quiet (warmupAp p) := by
  have hlock : Obeys b P₀ Port.Quiet Port.Quiet (p.writeControl 0x1000000) :=
    plain_obeys rfl rfl fun _ h => h.not_running
  have hcolumns : Obeys b P₀ Port.Quiet Port.Quiet
      (do p.writeControl 0x1000007; p.writeControl 0x1000000) :=
    reset_obeys rfl rfl rfl rfl rfl
  have hengine : Obeys b P₀ Port.Quiet Port.Quiet
      (do p.writeControl 0x1000008; p.writeControl 0x1000000) :=
    reset_obeys rfl rfl rfl rfl rfl
  exact release_obeys.bind fun _ => (mode_obeys 0).bind fun _ => hlock.bind fun _ =>
    hcolumns.bind fun _ => hengine.bind fun _ => (mode_obeys _).bind fun _ =>
      hcolumns.bind fun _ => release_obeys.bind fun _ => mode_obeys 0

theorem resets_col (col : APCollunm) : trigger (controlWord 1 0 0 (1 <<< col.val)) = false ∧
    resets (controlWord 1 0 0 (1 <<< col.val)) ∧ ifState (controlWord 1 0 0 (1 <<< col.val)) := by
  cases col <;> decide

theorem resets_target (target : OpTarget) : resets (controlWord 1 target.val 0 0) = false ∧
    resets (controlWord 1 target.val 1 0) = false ∧ ifState (controlWord 1 target.val 1 0) := by
  cases target <;> decide

/-- A start. -/
theorem startOp_obeys (op : StartOp) (hop : HalCall.Orderly p (.start op)) :
    Obeys b P₀ Port.Quiet Port.Quiet (op.exec p) := by
  have hmemory := obeys_memory p b P₀ Port.Quiet
  cases op with
  | triggerComputingWWait | triggerComputingWWaitTargetA =>
    exact started_obeys rfl rfl rfl rfl (wait_then release_obeys)
  | triggerVerticalComputingWWait =>
    refine started_obeys rfl rfl rfl rfl (wait_then (release_obeys.bind fun _ => ?_))
    exact .forUpTo fun _ => .pure ()
  | triggerVerticalComputingTarget op col ic target =>
    refine started_obeys rfl rfl (trigger_start target) (resets_target target).2.1
      (wait_then (release_obeys.bind fun _ => ?_))
    exact .forUpTo fun _ => .pure ()
  | computing | verticalComputing => exact hop.elim
  | triggerComputing op col ic dir target =>
    have ht := resets_target target
    exact countedHandshake_obeys hop.1 hop.2 (trigger_lock target) ht.1 (trigger_start target)
      ht.2.1 ht.2.2
  | setValue =>
    exact (hmemory.store _ _).bind fun _ => started_obeys rfl rfl rfl rfl (timedWait_then
      (hmemory.endComputeCycles.bind fun _ => release_obeys))
  | setValueCamALeft =>
    exact (hmemory.store _ _).bind fun _ =>
      started_obeys rfl rfl rfl rfl (wait_then release_obeys)
  | search key ic target =>
    have ht := resets_target target
    exact (hmemory.store _ _).bind fun _ => started_obeys (trigger_lock target) ht.1
      (trigger_start target) ht.2.1 (timedWait_then hmemory.endComputeCycles)

/-- A call. -/
theorem call_obeys {c : HalCall} (hc : c.Orderly p) :
    Obeys b P₀ Port.Quiet Port.Quiet (c.exec p) := by
  have hlock : Obeys b P₀ Port.Quiet Port.Quiet (p.writeControl 0x1000000) :=
    plain_obeys rfl rfl fun _ h => h.not_running
  cases c with
  | warmupAp => exact warmupAp_obeys
  | resetApEngine =>
    exact (reset_obeys (r := 0x1000008) (w := 0x1000000) rfl rfl rfl rfl rfl).bind fun _ =>
      release_obeys.bind fun _ => mode_obeys 0
  | releaseApIf => exact release_obeys
  | apFlushA1 | apFlushB0 | apFlushB1 | apFlushC1 => exact flush_obeys _ rfl rfl rfl
  | apFlushC0 =>
    exact (mode_obeys 0).bind fun _ => hlock.bind fun _ => reset_obeys rfl rfl rfl rfl rfl
  | apFlushCol col ic =>
    obtain ⟨ht, hr, hi⟩ := resets_col col
    exact hlock.bind fun _ => (mode_obeys _).bind fun _ =>
      (reset_obeys (w := 0x1000000) ht hr hi rfl rfl).bind fun _ => release_obeys
  | apIrqCheck => exact irq_obeys.bind fun _ => .pure ()
  | apWaitingForComputing loops =>
    exact (apWaitingForComputing_obeys loops).bind fun _ => .pure ()
  | start op => exact startOp_obeys op hc
  | _ => exact (obeys_memory p b P₀ Port.Quiet).call trivial

theorem HalCall.Waits.orderly {c : HalCall} (h : c.Waits) : c.Orderly p := by
  cases c with
  | apIrqCheck | apWaitingForComputing => exact h.elim
  | start op =>
    cases op with
    | triggerComputing | computing | verticalComputing => exact absurd h nofun
    | _ => trivial
  | _ => trivial

theorem computeTimed_obeys (op : APOperations) (internalCol : APInternalCollunm) (A B size : ℕ) :
    Obeys b P₀ Port.Quiet Port.Quiet (computeTimed p op internalCol A B size) := by
  rw [computeTimed, apComputing]
  simp only [bind_assoc, pure_bind]
  have hmemory := obeys_memory p b P₀ Port.Quiet
  refine (hmemory.vector _ _ _).bind fun _ => (hmemory.vector _ _ _).bind fun _ => ?_
  exact started_obeys rfl (by decide) rfl (by decide) <| timedWait_then <|
    hmemory.endComputeCycles.bind fun _ => release_obeys

/-- What the firmware is made of is in order. -/
theorem obeys_agreement (p : Platform) (b : List RegOp) (P₀ : Port) :
    Agreement (Diagonal (Reached b P₀ Port.Quiet))
      (fun _ => Diagonal (Reached b P₀ fun _ => True)) p p where
  toMemoryAgreement := obeys_memory p b P₀ Port.Quiet
  writeMode := mode_obeys
  call _ hc := call_obeys hc.orderly
  computeTimed := computeTimed_obeys

end RocketAp.Hal
