import RocketAp.Device.Assumptions
import RocketAp.Hal.Protocol
import RocketAp.ProgramLogic.Calls

/-!
# Waiting for an operation

Eight functions start an operation, wait for it and return. `Completed s t` says that
the operation a call started has completed: the call started one, it is no longer
running, and after the trigger the call read its interrupt as `1`.

A call that polls without a bound returns only when the interrupt is seen, whatever
the operation takes. `ap_trigger_computing` polls five times and returns anyway, and
drops the report that it gave up; `ap_search` sees the interrupt and returns without
releasing the interface. These are the two exceptions, and the only ones:
`calls_complete_iff` is about every sequence of calls.
-/

namespace RocketAp.Hal

open ProgramLogic Device

variable (p : Platform)

/-! ### The wait loops -/

/-- With no operation running, the loop goes round for ever. -/
theorem spin_idle : ∀ (n : ℕ) (s : St), s.irq = .idle → ∃ t, spin n s = .error .hang t
  | 0, s, _ => ⟨s, rfl⟩
  | n + 1, s, h => by
    have hp : apIrqCheck s = .ok 0 { s with irq := .idle, bus := s.bus ++ [.irq 0] } := by
      simp [apIrqCheck, h, Irq.poll]
    obtain ⟨t, ht⟩ := spin_idle n { s with irq := .idle, bus := s.bus ++ [.irq 0] } rfl
    exact ⟨t, (bind_run hp).trans ht⟩

/-- A poll of an operation that takes `n + 1` more. -/
theorem spin_busy_succ {n k : ℕ} {s : St} (h : s.irq = .busy (n + 1)) :
    spin (k + 1) s = spin k { s with irq := .busy n, bus := s.bus ++ [.irq 0] } := by
  have hp : apIrqCheck s = .ok 0 { s with irq := .busy n, bus := s.bus ++ [.irq 0] } := by
    simp [apIrqCheck, h, Irq.poll]
  exact bind_run hp

/-- The poll that sees the operation complete. -/
theorem spin_busy_zero {k : ℕ} {s : St} (h : s.irq = .busy 0) :
    spin (k + 1) s = .ok () { s with irq := .raised, bus := s.bus ++ [.irq 1] } := by
  have hp : apIrqCheck s = .ok 1 { s with irq := .raised, bus := s.bus ++ [.irq 1] } := by
    simp [apIrqCheck, h, Irq.poll]
  exact bind_run hp

/-- The state in which the loop leaves an operation that took `n` polls. -/
def afterWait (n : ℕ) (s : St) : St :=
  { s with irq := .raised, bus := s.bus ++ (List.replicate n (.irq 0) ++ [.irq 1]) }

/-- The loop reads `0` as long as the operation takes, then `1`. -/
theorem spin_busy (n k : ℕ) (s : St) (h : s.irq = .busy n) :
    spin (n + k + 1) s = .ok () (afterWait n s) := by
  induction n generalizing s with
  | zero => exact spin_busy_zero h
  | succ n ih =>
    rw [Nat.add_right_comm n 1 k, spin_busy_succ h, ih _ rfl]
    simp [afterWait, List.replicate_succ]

theorem waitIrq_busy {n : ℕ} {s : St} (h : s.irq = .busy n) :
    waitIrq s = .ok () (afterWait n s) := by
  have := spin_busy n 0 s h
  simpa only [waitIrq, h, pollsLeft] using this

theorem waitIrq_idle {s : St} (h : s.irq = .idle) : ∃ t, waitIrq s = .error .hang t := by
  simpa only [waitIrq, h, pollsLeft] using spin_idle 1 s h

/-- The loop is the loop with any larger number of polls allowed. -/
theorem waitIrq_eq_spin {n k : ℕ} {s : St} (h : s.irq = .busy n) (hk : n < k) :
    waitIrq s = spin k s := by
  obtain ⟨j, rfl⟩ : ∃ j, k = n + j + 1 := ⟨k - n - 1, by omega⟩
  rw [waitIrq_busy h, spin_busy n j s h]

/-- The bounded loop sees an operation that completes within its polls. -/
theorem apWaitingForComputing_lt {n loops : ℕ} {s : St} (h : s.irq = .busy n) (hn : n < loops) :
    apWaitingForComputing p loops s =
      .ok .true (p.afterMode 0 (p.afterControl 0 (afterWait n s))) := by
  induction n generalizing s loops with
  | zero =>
    obtain ⟨k, rfl⟩ : ∃ k, loops = k + 1 := ⟨loops - 1, by omega⟩
    have hp : apIrqCheck s = .ok 1 (afterWait 0 s) := by simp [apIrqCheck, h, Irq.poll, afterWait]
    exact bind_run hp
  | succ n ih =>
    obtain ⟨k, rfl⟩ : ∃ k, loops = k + 1 := ⟨loops - 1, by omega⟩
    have hp : apIrqCheck s = .ok 0 { s with irq := .busy n, bus := s.bus ++ [.irq 0] } := by
      simp [apIrqCheck, h, Irq.poll]
    refine (bind_run hp).trans ((ih rfl (by omega)).trans ?_)
    simp [afterWait, List.replicate_succ]

/-- It gives up on one that takes longer, and leaves it running. -/
theorem apWaitingForComputing_ge {n loops : ℕ} {s : St} (h : s.irq = .busy n) (hn : loops ≤ n) :
    apWaitingForComputing p loops s = .ok .false
      { s with irq := .busy (n - loops), bus := s.bus ++ List.replicate loops (.irq 0) } := by
  induction loops generalizing s n with
  | zero => simp [apWaitingForComputing, pure_run, ← h]
  | succ k ih =>
    obtain ⟨m, rfl⟩ : ∃ m, n = m + 1 := ⟨n - 1, by omega⟩
    have hp : apIrqCheck s = .ok 0 { s with irq := .busy m, bus := s.bus ++ [.irq 0] } := by
      simp [apIrqCheck, h, Irq.poll]
    refine (bind_run hp).trans ((ih rfl (by omega)).trans ?_)
    simp [List.replicate_succ]

/-! ### A handshake and a wait -/

/-- The state after the three writes of a handshake. -/
def afterHandshake (l m t : UInt32) (s : St) : St :=
  p.afterControl t (p.afterMode m (p.afterControl l s))

variable {p}

/-- The interrupt after a handshake is that of the operation it started, if it started
one. -/
theorem afterHandshake_irq (hp : p.Triggers) {l m t : UInt32} (hl : trigger l = false)
    (ht : trigger t) (s : St) : (afterHandshake p l m t s).irq =
      if p.starts t then .busy (p.latency s.started) else .idle := by
  simp [afterHandshake, Platform.afterControl, Platform.afterMode, hl, ht, hp.quiet l hl]

theorem afterHandshake_started (hp : p.Triggers) {l m t : UInt32} (hl : trigger l = false)
    (ht : p.starts t = true) (s : St) : (afterHandshake p l m t s).started = s.started + 1 := by
  simp [afterHandshake, Platform.afterControl, Platform.afterMode, hp.quiet l hl, ht]

theorem afterHandshake_bus (l m t : UInt32) (s : St) : (afterHandshake p l m t s).bus =
    s.bus ++ [.control l, .mode m, .control t] := by
  simp [afterHandshake, Platform.afterControl, Platform.afterMode]

/-- A handshake that triggers, the wait and the release. -/
theorem handshake_run (hp : p.Triggers) {l m w : UInt32} (hl : trigger l = false)
    (hif : ifState w) (hw : trigger w) (s : St) :
    (do p.writeControl l; p.writeMode m; p.writeControl w; waitIrq; p.writeControl 0) s =
      .ok () (p.afterControl 0 (afterWait (p.latency s.started) (afterHandshake p l m w s))) := by
  have hirq := afterHandshake_irq (m := m) hp hl hw s
  rw [if_pos (hp.starts w hif hw)] at hirq
  exact bind_run (waitIrq_busy hirq)

/-- A wait that returns was for an operation that was started, and took as long as it. -/
theorem wait_of_returns (hp : p.Triggers) {l m t : UInt32} (hl : trigger l = false)
    (ht : trigger t) {s u v : St} {f : Unit → Prog Unit}
    (hu : u.irq = (afterHandshake p l m t s).irq) (h : (waitIrq >>= f) u = .ok () v) :
    p.starts t = true ∧ f () (afterWait (p.latency s.started) u) = .ok () v := by
  rw [afterHandshake_irq hp hl ht s] at hu
  cases hs : p.starts t with
  | true =>
    rw [if_pos hs] at hu
    rw [bind_run (waitIrq_busy hu)] at h
    exact ⟨rfl, h⟩
  | false =>
    rw [if_neg (by simp [hs])] at hu
    obtain ⟨w, hw⟩ := waitIrq_idle hu
    rw [bind_error hw] at h
    cases h

/-! ### Completion -/

/-- After the last trigger the interrupt was read as `1`. -/
def SawIrq (ops : List RegOp) : Prop :=
  ∃ pre w post, ops = pre ++ .control w :: post ∧ trigger w ∧ Quiet post ∧ .irq 1 ∈ post

/-- The operation that was started between `s` and `t` has completed. -/
structure Completed (s t : St) : Prop where
  /-- One was started. -/
  started : t.started = s.started + 1
  /-- It is not running. -/
  stopped : ∀ n, t.irq ≠ .busy n
  /-- Its interrupt was seen. -/
  seen : ∃ ops, t.bus = s.bus ++ ops ∧ SawIrq ops

/-- Started, waited for, and nothing started since. -/
theorem completed_of_wait {s v : St} (l m : UInt32) {t : UInt32} (n : ℕ) (rest : List RegOp)
    (ht : trigger t) (hstarted : v.started = s.started + 1) (hirq : ∀ n, v.irq ≠ .busy n)
    (hbus : v.bus = s.bus ++ [.control l, .mode m, .control t] ++
      (List.replicate n (.irq 0) ++ [.irq 1]) ++ rest)
    (hrest : Quiet rest) : Completed s v := by
  refine ⟨hstarted, hirq, .control l :: .mode m :: .control t ::
    (List.replicate n (.irq 0) ++ [.irq 1] ++ rest), by simp [hbus], ?_⟩
  refine ⟨[.control l, .mode m], t, _, rfl, ht, ?_, by simp⟩
  intro w hw
  simp only [List.mem_append, List.mem_replicate, List.mem_singleton, reduceCtorEq, and_false,
    or_self, false_or] at hw
  exact hrest w hw

/-- The release of the interface after a wait. -/
theorem completed_release (hp : p.Triggers) {l m t : UInt32} (hl : trigger l = false)
    (ht : trigger t) (hst : p.starts t = true) {s u : St}
    (hstarted : u.started = (afterHandshake p l m t s).started)
    (hbus : u.bus = (afterHandshake p l m t s).bus) (n : ℕ) :
    Completed s (p.afterControl 0 (afterWait n u)) ∧
      (p.afterControl 0 (afterWait n u)).control = 0 := by
  have h₀ : p.starts 0 = false := hp.quiet 0 rfl
  have h₁ : trigger 0 = false := rfl
  refine ⟨completed_of_wait l m n [.control 0] ht ?_ ?_ ?_ ?_, rfl⟩
  · simp [Platform.afterControl, afterWait, h₀, hstarted, afterHandshake_started hp hl hst]
  · simp [Platform.afterControl, h₀, h₁]
  · simp [Platform.afterControl, afterWait, hbus, afterHandshake_bus]
  · intro w hw
    simp only [List.mem_singleton, RegOp.control.injEq] at hw
    rw [hw, h₁]

/-- A handshake, a wait, and a release. -/
theorem handshake_completes (hp : p.Triggers) {l m t : UInt32} (hl : trigger l = false)
    (ht : trigger t) {s u v : St} {tail : Unit → Prog Unit}
    (hirq : u.irq = (afterHandshake p l m t s).irq)
    (hstarted : u.started = (afterHandshake p l m t s).started)
    (hbus : u.bus = (afterHandshake p l m t s).bus)
    (htail : ∀ w, tail () w = .ok () (p.afterControl 0 w))
    (h : (waitIrq >>= tail) u = .ok () v) : Completed s v ∧ v.control = 0 := by
  obtain ⟨hst, hv⟩ := wait_of_returns hp hl ht hirq h
  rw [htail] at hv
  cases hv
  exact completed_release hp hl ht hst hstarted hbus _

/-! ### The eight functions -/

/-- The functions that wait for the operation they start. -/
def StartOp.selfWaiting : StartOp → Bool
  | .computing .. | .verticalComputing .. => false
  | _ => true

/-- When a call leaves its operation completed and the interface released: never for
`ap_search`, and for `ap_trigger_computing` when the operation takes fewer polls than
it makes. -/
def StartOp.Releases (p : Platform) (s : St) : StartOp → Prop
  | .search .. => False
  | .triggerComputing .. => p.latency s.started < 5
  | _ => True

/-- Whether an operation has completed is seen in the count of operations, the interrupt
and the bus. -/
theorem Completed.congr {s s' t t' : St} (h : Completed s t) (hs : s'.started = s.started)
    (hsb : s'.bus = s.bus) (ht : t'.started = t.started) (hti : t'.irq = t.irq)
    (htb : t'.bus = t.bus) : Completed s' t' := by
  obtain ⟨ops, hops, hsaw⟩ := h.seen
  refine ⟨by rw [ht, hs, h.started], fun n => by rw [hti]; exact h.stopped n, ops, ?_, hsaw⟩
  rw [htb, hsb, hops]

/-- Between its handshake and its wait a function may start the cycle record. -/
def afterStart (p : Platform) (s : St) : St :=
  { s with
    cycleReads := s.cycleReads + 1
    record := { s.record with start := p.cycles s.cycleReads } }

theorem afterStart_irq (s : St) : (afterStart p s).irq = s.irq := rfl

/-- `ap_search` leaves its trigger in `CONTROL`. -/
theorem apSearch_control (hp : p.Triggers) {key : UInt8} {ic : APInternalCollunm}
    {target : OpTarget} {s v : St} (h : apSearch p key ic target s = .ok () v) :
    v.control = controlWord 1 target.val 1 0 := by
  have hoff := offRegisters_searchKey ic
  have hl := trigger_lock target
  have ht := trigger_start target
  rw [apSearch, bind_run (store_run hoff key s)] at h
  replace h : (waitIrq >>= fun _ => p.endComputeCycles) (afterStart p (afterHandshake p
    (controlWord 1 target.val 0 0) (modeWord ic.val 0 0 APOperations.search.val)
    (controlWord 1 target.val 1 0) { s with mem := _ })) = .ok () v := h
  obtain ⟨-, h⟩ := wait_of_returns hp hl ht (afterStart_irq _) h
  cases h
  rfl

/-- `ap_trigger_computing` polls five times. -/
theorem apTriggerComputing_completes_iff (hp : p.Triggers) {op : APOperations} {col : APCollunm}
    {ic : APInternalCollunm} {dir : APOpDirection} {target : OpTarget} {s v : St}
    (h : apTriggerComputing p op col ic dir target s = .ok () v) :
    Completed s v ∧ v.control = 0 ↔ p.latency s.started < 5 := by
  have hl := trigger_lock target
  have ht := trigger_start target
  have hst : p.starts (controlWord 1 target.val 1 0) = true :=
    hp.starts _ (by cases target <;> decide) ht
  have hirq := afterHandshake_irq (m := modeWord ic.val col.val dir.val op.val) hp hl ht s
  have hstarted := afterHandshake_started (m := modeWord ic.val col.val dir.val op.val) hp hl hst s
  rw [if_pos hst] at hirq
  replace h : (apWaitingForComputing p 5 >>= fun _ => pure ()) (afterHandshake p
    (controlWord 1 target.val 0 0) (modeWord ic.val col.val dir.val op.val)
    (controlWord 1 target.val 1 0) s) = .ok () v := h
  rcases Nat.lt_or_ge (p.latency s.started) 5 with hlt | hge
  · rw [bind_run (apWaitingForComputing_lt p hirq hlt)] at h
    cases h
    have h₀ : p.starts 0 = false := hp.quiet 0 rfl
    have h₁ : trigger 0 = false := rfl
    refine iff_of_true ⟨completed_of_wait (controlWord 1 target.val 0 0)
      (modeWord ic.val col.val dir.val op.val) (p.latency s.started) [.control 0, .mode 0] ht
      ?_ ?_ ?_ ?_, rfl⟩ hlt
    · simp [Platform.afterMode, Platform.afterControl, afterWait, h₀, hstarted]
    · simp [Platform.afterMode, Platform.afterControl, h₀, h₁]
    · simp [Platform.afterMode, Platform.afterControl, afterWait, afterHandshake]
    · intro w hw
      simp only [List.mem_cons, RegOp.control.injEq, reduceCtorEq, List.not_mem_nil, or_false] at hw
      rw [hw, h₁]
  · rw [bind_run (apWaitingForComputing_ge p hirq hge)] at h
    cases h
    exact iff_of_false (fun hc => hc.1.stopped _ rfl) (Nat.not_lt.mpr hge)

/-- The eight functions, one call at a time. -/
theorem startOp_completes_iff (hp : p.Triggers) {op : StartOp} (hw : op.selfWaiting = true)
    {s v : St} (h : op.exec p s = .ok () v) :
    Completed s v ∧ v.control = 0 ↔ op.Releases p s := by
  cases op with
  | triggerComputingWWait op dir ic =>
    have hdone := handshake_completes (l := controlWord 1 0 0 0)
      (m := modeWord ic.val 0 dir.val op.val) (t := controlWord 1 0 1 0) (s := s)
      hp rfl rfl rfl rfl rfl (fun _ => rfl) h
    exact iff_of_true hdone trivial
  | triggerComputingWWaitTargetA op dir bits =>
    have hdone := handshake_completes (l := controlWord 1 0 0 0)
      (m := modeWord bits.toUInt32 0 dir.val op.val) (t := controlWord 1 1 1 0) (s := s)
      hp rfl rfl rfl rfl rfl (fun _ => rfl) h
    exact iff_of_true hdone trivial
  | triggerComputing op col ic dir target => exact apTriggerComputing_completes_iff hp h
  | triggerVerticalComputingWWait op col ic =>
    have hdone := handshake_completes (l := 0x10000) (m := modeWord ic.val col.val 1 op.val)
      (t := (0x10000 : UInt32) ||| (1 : UInt32) <<< 8) (s := s)
      hp rfl rfl rfl rfl rfl (fun _ => rfl) h
    exact iff_of_true hdone trivial
  | triggerVerticalComputingTarget op col ic target =>
    have ht := trigger_start target
    have hdone := handshake_completes (l := 0x10000) (m := modeWord ic.val col.val 1 op.val)
      (t := controlWord 1 target.val 1 0) (s := s) hp rfl ht rfl rfl rfl (fun _ => rfl) h
    exact iff_of_true hdone trivial
  | setValue col ic value =>
    have hoff := offRegisters_setValue col ic
    replace h : (store _ value >>= fun _ => _) s = .ok () v := h
    rw [bind_run (store_run hoff value s)] at h
    -- the wait is followed by the end of the cycle record, and then by the release
    replace h : (waitIrq >>= fun _ => do p.endComputeCycles; p.writeControl 0)
      (afterStart p (afterHandshake p (controlWord 1 0 0 0)
        (modeWord ic.val col.val 0 APOperations.set.val) (controlWord 1 0 1 0)
        { s with mem := _ })) = .ok () v := h
    obtain ⟨hst, h⟩ := wait_of_returns hp rfl rfl (afterStart_irq _) h
    cases h
    have hc := completed_release hp (l := controlWord 1 0 0 0)
      (m := modeWord ic.val col.val 0 APOperations.set.val) rfl rfl hst (s := s) rfl rfl
    exact iff_of_true ⟨(hc (p.latency s.started)).1.congr rfl rfl rfl rfl rfl, rfl⟩ trivial
  | setValueCamALeft factor =>
    replace h : (store Cam.a0.base factor >>= fun _ => _) s = .ok () v := h
    rw [bind_run (store_run (by decide) factor s)] at h
    have hdone := handshake_completes (l := controlWord 1 0 0 0)
      (m := modeWord APInternalCollunm.left.val APCollunm.camA.val 0 APOperations.set.val)
      (t := controlWord 1 0 1 0) (s := s)
      (u := afterHandshake p _ _ _ { s with mem := s.mem.store Cam.a0.base factor })
      hp rfl rfl rfl rfl rfl (fun _ => rfl) h
    exact iff_of_true hdone trivial
  | search key ic target =>
    refine iff_of_false (fun hc => ?_) not_false
    have := apSearch_control hp h
    rw [hc.2] at this
    cases target <;> exact absurd this (by decide)
  | computing | verticalComputing => cases hw

/-! ### Sequences of calls -/

/-- A call of the layer. -/
inductive HalCall where
  | warmupAp | resetApEngine | resetApRegs | releaseApIf
  | apFlushA1 | apFlushB0 | apFlushB1 | apFlushC0 | apFlushC1
  | apFlushCol (col : APCollunm) (internalCol : APInternalCollunm)
  | tinyDelay (delayInNops : ℕ)
  | apIrqCheck
  | apWaitingForComputing (loops : ℕ)
  | apWriteVector (col : APCollunm) (internalCol : APInternalCollunm) (V size : ℕ)
  | apReadVector (col : APCollunm) (internalCol : APInternalCollunm) (V size : ℕ)
  | apReadResultVector (internalCol : APInternalCollunm) (V size : ℕ)
  | apMemcpy (target src bytes : ℕ)
  | apStoreData (addr : ℕ) (data : UInt8)
  | apGetData (addr : ℕ)
  | apGetDataTo (dest src : ℕ)
  | start (op : StartOp)

/-- The call, its value dropped. -/
def HalCall.exec (p : Platform) : HalCall → Prog Unit
  | .warmupAp => Hal.warmupAp p
  | .resetApEngine => Hal.resetApEngine p
  | .resetApRegs => Hal.resetApRegs
  | .releaseApIf => Hal.releaseApIf p
  | .apFlushA1 => Hal.apFlushA1 p
  | .apFlushB0 => Hal.apFlushB0 p
  | .apFlushB1 => Hal.apFlushB1 p
  | .apFlushC0 => Hal.apFlushC0 p
  | .apFlushC1 => Hal.apFlushC1 p
  | .apFlushCol col internalCol => Hal.apFlushCol p col internalCol
  | .tinyDelay delayInNops => Hal.tinyDelay delayInNops
  | .apIrqCheck => do let _ ← Device.apIrqCheck
  | .apWaitingForComputing loops => do let _ ← Hal.apWaitingForComputing p loops
  | .apWriteVector col internalCol V size => Hal.apWriteVector col internalCol V size
  | .apReadVector col internalCol V size => Hal.apReadVector col internalCol V size
  | .apReadResultVector internalCol V size => Hal.apReadResultVector internalCol V size
  | .apMemcpy target src bytes => Hal.apMemcpy target src bytes
  | .apStoreData addr data => Hal.apStoreData addr data
  | .apGetData addr => do let _ ← Hal.apGetData addr
  | .apGetDataTo dest src => Hal.apGetDataTo dest src
  | .start op => op.exec p

/-- The call, with its value as a number; a call without one has `0`. -/
def HalCall.value (p : Platform) : HalCall → Prog ℤ
  | .apIrqCheck => do return (← Device.apIrqCheck).toNat
  | .apWaitingForComputing loops => do
    let done ← Hal.apWaitingForComputing p loops
    return if done = .true then 1 else 0
  | .apGetData addr => do return (← Hal.apGetData addr).toNat
  | c => do
    c.exec p
    return 0

theorem HalCall.value_dropped (c : HalCall) : (c.value p >>= fun _ => pure ()) = c.exec p := by
  cases c <;> simp only [HalCall.value, HalCall.exec, bind_assoc, pure_bind, bind_pure_unit]

/-- A call that waits for its own operation leaves it completed and `CONTROL` zero. -/
def LeavesCompleted : HalCall → St → Unit → St → Prop
  | .start op, s, _, t => op.selfWaiting → Completed s t ∧ t.control = 0
  | _, _, _, _ => True

/-- A call that waits for its own operation is one that releases. -/
def CallReleases (p : Platform) : HalCall → St → Unit → St → Prop
  | .start op, s, _, _ => op.selfWaiting → op.Releases p s
  | _, _, _, _ => True

/-- **Waiting.** In every sequence of calls, every one that waits for its own operation and
returns leaves it completed and the interface released, exactly when none is `ap_search`
and none is an `ap_trigger_computing` of an operation that takes five polls or more. -/
theorem calls_complete_iff (hp : p.Triggers) (calls : List HalCall) (s : St) :
    EachReturn (HalCall.exec p) LeavesCompleted calls s ↔
      EachReturn (HalCall.exec p) (CallReleases p) calls s := by
  refine eachReturn_congr (fun c s a t hr => ?_) calls s
  cases c with
  | start op => exact imp_congr_right fun hw => startOp_completes_iff hp hw hr
  | _ => exact Iff.rfl

/-- An `ADD` that takes four polls, and then a `SET`. -/
theorem calls_complete_four :
    EachReturn (HalCall.exec (.reference 4)) LeavesCompleted
      [.warmupAp, .start (.triggerComputing .add .camA .left .horizontal .targetC),
        .start (.setValue .camB .right 7)] (.rest fun _ => 0) := by
  refine (calls_complete_iff (Platform.reference_triggers 4) _ _).mpr ?_
  intro _ s _
  refine ⟨trivial, fun _ t _ => ⟨fun _ => ?_, fun _ u _ => ⟨fun _ => trivial, trivial⟩⟩⟩
  show 4 < 5
  decide

/-- `ap_search_test` on a processor that answers at once: the search returns with its
trigger still in `CONTROL`. -/
theorem apSearch_not_released :
    ¬ EachReturn (HalCall.exec (.reference 0)) LeavesCompleted
      [.start (.search 10 .left .targetC)] (.rest fun _ => 0) := by
  intro h
  have hr : ∃ v, apSearch (.reference 0) 10 .left .targetC (.rest fun _ => 0) = .ok () v :=
    ⟨_, rfl⟩
  obtain ⟨v, hv⟩ := hr
  have hcontrol := apSearch_control (Platform.reference_triggers 0) hv
  rw [((h () v hv).1 rfl).2] at hcontrol
  exact absurd hcontrol (by decide)

end RocketAp.Hal
