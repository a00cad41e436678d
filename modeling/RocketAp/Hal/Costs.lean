import RocketAp.Hal.Agreement
import RocketAp.ProgramLogic.Costs

/-!
# What a call of the layer costs

A call that waits for what it starts has a cost of its own: so many operations, so many
writes to `CONTROL` and `MODE` (`HalCall.cost`). On a processor that answers every trigger it
never hangs, whatever it computes and however long that takes, and the polls it makes are those
of its operations, one more than each of them takes (`call_costs`).
-/

namespace RocketAp.Hal

open ProgramLogic Device

/-! ### What is counted -/

/-- The writes among the register accesses. -/
def written (ops : List RegOp) : ℕ := ops.countP fun
  | .irq _ => false
  | _ => true

/-- The polls. -/
def polled (ops : List RegOp) : ℕ := ops.countP fun
  | .irq _ => true
  | _ => false

/-- The polls of the first `n` operations. -/
def pollsOf (p : Platform) (n : ℕ) : ℕ := ∑ k ∈ Finset.range n, (p.latency k + 1)

/-- The operations started, and the writes. -/
def effort (s : St) : ℕ × ℕ := (s.started, written s.bus)

/-- All polls but `b` were for the operations that were started. -/
def PollsBalance (p : Platform) (b : ℤ) (s : St) : Prop :=
  polled s.bus = pollsOf p s.started + b

/-- The program starts so many operations, makes so many writes, waits for each operation and
polls for nothing else; it stops only where it stores bytes into a register. -/
abbrev Costs (p : Platform) (b : ℤ) (c : ℕ × ℕ) {α : Type} (m : Prog α) : Prop :=
  Spends (PollsBalance p b) effort (· = Stuck.registerAccess) c m

variable {p : Platform} {b : ℤ} {c d : ℕ × ℕ} {s t : St} {α : Type}

/-- Memory and the cycle record are free. -/
theorem costs_memory (p : Platform) (b : ℤ) (k : ℕ × ℕ) :
    MemoryAgreement (Diagonal fun s => PollsBalance p b s ∧ effort s = k)
      (fun e => Diagonal fun _ => e = Stuck.registerAccess) p p := by
  refine registers_memory p (fun s t hst hs => ?_) fun _ _ => rfl
  rw [PollsBalance, effort, hst.started, hst.bus]
  exact hs

/-! ### Registers -/

theorem written_append (ops ops' : List RegOp) :
    written (ops ++ ops') = written ops + written ops' := List.countP_append

theorem polled_append (ops ops' : List RegOp) : polled (ops ++ ops') = polled ops + polled ops' :=
  List.countP_append

/-- A wait writes nothing. -/
theorem written_wait (n : ℕ) : written (List.replicate n (.irq 0) ++ [.irq 1]) = 0 := by
  rw [written_append, written, List.countP_replicate]
  rfl

/-- It polls once more than the operation takes. -/
theorem polled_wait (n : ℕ) : polled (List.replicate n (.irq 0) ++ [.irq 1]) = n + 1 := by
  rw [polled_append, polled, List.countP_replicate]
  rfl

theorem control_costs (hp : p.Triggers) {w : UInt32} (hw : trigger w = false) :
    Costs p b (0, 1) (p.writeControl w) := by
  refine fun k => .of_run fun s ⟨hs, hk⟩ => ⟨(), _, rfl, ?_, ?_⟩
  · simp only [PollsBalance, Platform.afterControl, hp.quiet w hw, polled_append]
    exact hs
  · rw [← hk, effort, Platform.afterControl]
    simp only [hp.quiet w hw, written_append]
    rfl

theorem mode_costs (w : UInt32) : Costs p b (0, 1) (p.writeMode w) := by
  refine fun k => .of_run fun s ⟨hs, hk⟩ => ⟨(), _, rfl, ?_, ?_⟩
  · simp only [PollsBalance, Platform.afterMode, polled_append]
    exact hs
  · rw [← hk, effort, Platform.afterMode]
    simp only [written_append]
    rfl

/-- The state after a start and its wait: one operation, three writes, and the polls that the
operation took. -/
theorem PollsBalance.waited (hp : p.Triggers) {l m w : UInt32} (hl : trigger l = false)
    (hi : ifState w) (hw : trigger w) (hs : PollsBalance p b s) {t : St}
    (hstarted : t.started = (afterHandshake p l m w s).started)
    (hbus : t.bus = (afterHandshake p l m w s).bus ++
      (List.replicate (p.latency s.started) (.irq 0) ++ [.irq 1])) :
    PollsBalance p b t ∧ effort t = effort s + (1, 3) := by
  rw [afterHandshake_started hp hl (hp.starts w hi hw)] at hstarted
  rw [afterHandshake_bus] at hbus
  constructor
  · rw [PollsBalance, hstarted, hbus, polled_append, polled_append, polled_wait, pollsOf,
      Finset.sum_range_succ, ← pollsOf]
    have hthree : polled [.control l, .mode m, .control w] = 0 := rfl
    rw [PollsBalance] at hs
    omega
  · rw [effort, effort, hstarted, hbus, written_append, written_append, written_wait]
    rfl

section Starts

variable (hp : p.Triggers) {l m w : UInt32} (hl : trigger l = false) (hi : ifState w)
  (hw : trigger w)
include hp hl hi hw

/-- A start, its wait, and what follows them. -/
theorem waited_costs {c : Prog α} (hc : Costs p b d c) :
    Costs p b ((1, 3) + d) (do p.writeControl l; p.writeMode m; p.writeControl w; waitIrq; c) := by
  rintro k s _ ⟨rfl, hs, rfl⟩
  have hirq := afterHandshake_irq (m := m) hp hl hw s
  rw [if_pos (hp.starts w hi hw)] at hirq
  have hrun : (do p.writeControl l; p.writeMode m; p.writeControl w; waitIrq; c) s =
    c (afterWait (p.latency s.started) (afterHandshake p l m w s)) := bind_run (waitIrq_busy hirq)
  obtain ⟨ht, he⟩ := hs.waited hp hl hi hw (m := m)
    (t := afterWait (p.latency s.started) (afterHandshake p l m w s)) rfl rfl
  rw [hrun, ← add_assoc, ← he]
  exact hc _ _ _ ⟨rfl, ht, rfl⟩

/-- The same with the record running. -/
theorem timedWaited_costs {c : Prog Unit} (hc : Costs p b d c) : Costs p b ((1, 3) + d)
    (do p.writeControl l; p.writeMode m; p.writeControl w; p.startComputeCycles; waitIrq; c) := by
  rintro k s _ ⟨rfl, hs, rfl⟩
  have hirq := afterHandshake_irq (m := m) hp hl hw s
  rw [if_pos (hp.starts w hi hw)] at hirq
  have hwait : waitIrq (afterStart p (afterHandshake p l m w s)) =
    .ok () (afterWait (p.latency s.started) (afterStart p (afterHandshake p l m w s))) :=
    waitIrq_busy hirq
  have hrun : (do p.writeControl l; p.writeMode m; p.writeControl w; p.startComputeCycles
                  waitIrq; c) s =
    c (afterWait (p.latency s.started) (afterStart p (afterHandshake p l m w s))) :=
    bind_run hwait
  obtain ⟨ht, he⟩ := hs.waited hp hl hi hw (m := m)
    (t := afterWait (p.latency s.started) (afterStart p (afterHandshake p l m w s))) rfl rfl
  rw [hrun, ← add_assoc, ← he]
  exact hc _ _ _ ⟨rfl, ht, rfl⟩

end Starts

/-! ### The calls of the layer -/

/-- The operations a call starts and the writes it makes, where it waits. -/
def HalCall.cost : HalCall → ℕ × ℕ
  | .warmupAp => (0, 12)
  | .resetApEngine | .apFlushC0 => (0, 4)
  | .releaseApIf => (0, 1)
  | .apFlushA1 | .apFlushB0 | .apFlushB1 | .apFlushC1 | .apFlushCol .. => (0, 5)
  -- `ap_search` does not release the interface
  | .start (.search ..) => (1, 3)
  | .start _ => (1, 4)
  | _ => (0, 0)

section Calls

variable (hp : p.Triggers)
include hp

/-- A `CONTROL` write that starts nothing, and what follows it. -/
theorem control_cost_then {w : UInt32} (hw : trigger w = false) {c : Prog α} (hc : Costs p b d c) :
    Costs p b ((0, 1) + d) (do p.writeControl w; c) := (control_costs hp hw).bind fun _ => hc

omit hp in
/-- A `MODE` write and what follows it. -/
theorem mode_cost_then (w : UInt32) {c : Prog α} (hc : Costs p b d c) :
    Costs p b ((0, 1) + d) (do p.writeMode w; c) := (mode_costs w).bind fun _ => hc

theorem warmupAp_costs : Costs p b (0, 12) (warmupAp p) :=
  control_cost_then hp rfl <| mode_cost_then _ <| control_cost_then hp rfl <|
    control_cost_then hp rfl <| control_cost_then hp rfl <| control_cost_then hp rfl <|
    control_cost_then hp rfl <| mode_cost_then _ <| control_cost_then hp rfl <|
    control_cost_then hp rfl <| control_cost_then hp rfl <| mode_costs _

/-- Lock, choose the side, reset, release. -/
theorem flush_costs (m : UInt32) {r : UInt32} (hr : trigger r = false) : Costs p b (0, 5)
    (do p.writeControl 0x1000000; p.writeMode m; p.writeControl r; p.writeControl 0
        p.writeMode 0) :=
  control_cost_then hp rfl <| mode_cost_then _ <| control_cost_then hp hr <|
    control_cost_then hp rfl <| mode_costs _

/-- A start. -/
theorem startOp_costs (op : StartOp) (hop : (HalCall.start op).Waits) :
    Costs p b (HalCall.start op).cost (op.exec p) := by
  have hmemory := costs_memory p b
  have hrelease : Costs p b (0, 1) (p.writeControl 0) := control_costs hp rfl
  have hend : Costs p b (0, 0) p.endComputeCycles := .free fun k => (hmemory k).endComputeCycles
  have hstore : ∀ a v, Costs p b (0, 0) (store a v) :=
    fun a v => .free fun k => (hmemory k).store a v
  cases op with
  | triggerComputingWWait | triggerComputingWWaitTargetA =>
    exact waited_costs hp rfl rfl rfl hrelease
  | setValue =>
    exact (hstore _ _).free_then fun _ => timedWaited_costs hp rfl rfl rfl <|
      hend.free_then fun _ => hrelease
  | setValueCamALeft =>
    exact (hstore _ _).free_then fun _ => waited_costs hp rfl rfl rfl hrelease
  | search key ic target =>
    have hi : ifState (controlWord 1 target.val 1 0) = true := by cases target <;> decide
    exact (hstore _ _).free_then fun _ =>
      timedWaited_costs hp (trigger_lock target) hi (trigger_start target) hend
  | triggerComputing | computing | verticalComputing | triggerVerticalComputingWWait
  | triggerVerticalComputingTarget => exact absurd hop nofun

/-- **What a call costs.** -/
theorem call_costs {c : HalCall} (hc : c.Waits) : Costs p b c.cost (c.exec p) := by
  cases c with
  | warmupAp => exact warmupAp_costs hp
  | resetApEngine =>
    exact control_cost_then hp rfl <| control_cost_then hp rfl <| control_cost_then hp rfl <|
      mode_costs _
  | releaseApIf => exact control_costs hp rfl
  | apFlushA1 | apFlushB0 | apFlushB1 | apFlushC1 => exact flush_costs hp _ rfl
  | apFlushC0 =>
    exact mode_cost_then _ <| control_cost_then hp rfl <| control_cost_then hp rfl <|
      control_costs hp rfl
  | apFlushCol col ic =>
    have hr : trigger (controlWord 1 0 0 (1 <<< col.val)) = false := by cases col <;> decide
    exact control_cost_then hp rfl <| mode_cost_then _ <| control_cost_then hp hr <|
      control_cost_then hp rfl <| control_costs hp rfl
  | start op => exact startOp_costs hp op hc
  | apIrqCheck | apWaitingForComputing => exact hc.elim
  | _ => exact .free fun k => (costs_memory p b k).call trivial

/-- `ap_computing`, and the wait of its caller. -/
theorem computeTimed_costs (op : APOperations) (internalCol : APInternalCollunm) (A B size : ℕ) :
    Costs p b (1, 4) (computeTimed p op internalCol A B size) := by
  have hmemory := costs_memory p b
  rw [computeTimed, apComputing]
  simp only [bind_assoc, pure_bind]
  refine Spends.free_then (.free fun k => (hmemory k).vector _ _ _) fun _ => ?_
  refine Spends.free_then (.free fun k => (hmemory k).vector _ _ _) fun _ => ?_
  have hend : Costs p b (0, 1) (do p.endComputeCycles; p.writeControl 0) :=
    Spends.free_then (.free fun k => (hmemory k).endComputeCycles) fun _ => control_costs hp rfl
  exact timedWaited_costs hp rfl rfl rfl hend

end Calls

end RocketAp.Hal
