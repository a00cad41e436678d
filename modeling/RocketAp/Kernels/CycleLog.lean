import RocketAp.Device.Measurements
import RocketAp.Kernels.Firmware

/-!
# The cycle record over a run

`record` is a variable of its own: what a run leaves of it, whether it returns or stops, is
what some calls of `start_compute_cycles` and `end_compute_cycles` leave of it (`Timed`), on
any processor. So its log is a log: at most ten measurements, the first ones, and what has been
logged is never written again (`firmware_logged`).
-/

namespace RocketAp.Kernels

open ProgramLogic Device Hal DyckStep

variable {p : Platform} {s t u : St}

/-! ### The log -/

/-- What has been logged, the oldest first. -/
def cycleLog (r : RecordCycles) : List UInt64 := (List.range r.resultsSize).map r.results

/-- What calls of the timers measure, the counter having been read `n` times before: each time
since the last start. -/
def measured (p : Platform) : List DyckStep → ℕ → UInt64 → List UInt64
  | [], _, _ => []
  | U :: w, n, _ => measured p w (n + 1) (p.cycles n)
  | D :: w, n, start => (p.cycles n - start) :: measured p w (n + 1) start

theorem length_cycleLog (r : RecordCycles) : (cycleLog r).length = r.resultsSize := by
  rw [cycleLog, List.length_map, List.length_range]

/-- One entry more, or a full log. -/
theorem cycleLog_endRecord (now : UInt64) (r : RecordCycles) :
    cycleLog (Platform.endRecord now r) =
      if r.resultsSize = Platform.maxResults then cycleLog r
      else cycleLog r ++ [now - r.start] := by
  rw [cycleLog, Platform.endRecord_size, Platform.endRecord_results]
  split
  · rfl
  · rw [List.range_succ, List.map_append, List.map_singleton, Function.update_self, cycleLog]
    congr 1
    refine List.map_congr_left fun i hi => Function.update_of_ne ?_ _ _
    exact (List.mem_range.mp hi).ne

/-- What a run leaves of a log: the first measurements of `w` have been appended while there was
room, and nothing else has been written. -/
structure Grown (p : Platform) (w : List DyckStep) (s t : St) : Prop where
  reads : t.cycleReads = s.cycleReads + w.length
  log : cycleLog t.record = (cycleLog s.record ++ measured p w s.cycleReads s.record.start).take
    Platform.maxResults
  kept : ∀ i, i < s.record.resultsSize ∨ t.record.resultsSize ≤ i →
    t.record.results i = s.record.results i

theorem Grown.size_ge {w : List DyckStep} (h : Grown p w s t)
    (hs : s.record.resultsSize ≤ Platform.maxResults) :
    s.record.resultsSize ≤ t.record.resultsSize := by
  rw [← length_cycleLog t.record, h.log, List.length_take, List.length_append, length_cycleLog]
  omega

/-- A start first. -/
theorem Grown.start {w : List DyckStep} (ht : timerCall p U s = .ok () t) (h : Grown p w t u) :
    Grown p (U :: w) s u := by
  rw [timerCall_run, EStateM.Result.ok.injEq] at ht
  obtain ⟨-, rfl⟩ := ht
  refine ⟨?_, h.log, h.kept⟩
  rw [h.reads, List.length_cons, Nat.add_right_comm, Nat.add_assoc]

/-- An end first. -/
theorem Grown.end {w : List DyckStep} (ht : timerCall p D s = .ok () t) (h : Grown p w t u)
    (hs : t.record.resultsSize ≤ Platform.maxResults) : Grown p (D :: w) s u := by
  have hge := h.size_ge hs
  rw [timerCall_run, EStateM.Result.ok.injEq] at ht
  obtain ⟨-, rfl⟩ := ht
  have hlen := length_cycleLog s.record
  have hsize := Platform.endRecord_size (p.cycles s.cycleReads) s.record
  constructor
  · rw [h.reads, List.length_cons, Nat.add_right_comm, Nat.add_assoc]
  · rw [h.log, timerRecord, cycleLog_endRecord, Platform.endRecord_start, measured]
    split
    · rw [List.take_append_of_le_length (by omega), List.take_append_of_le_length (by omega)]
    · rw [List.append_assoc, List.singleton_append]
  · intro i hi
    rw [timerRecord, hsize] at hge hs
    rw [h.kept i ?_, timerRecord, Platform.endRecord_results]
    · split
      · rfl
      · next hne =>
        rw [if_neg hne] at hge
        exact Function.update_of_ne (by omega) _ _
    · rw [timerRecord, hsize]
      split <;> omega

/-- Calls of the timers append what they measure. -/
theorem timerCalls_grown (w : List DyckStep) (hs : s.record.resultsSize ≤ Platform.maxResults) :
    Ensures (timerCalls p w) s fun _ t => Grown p w s t := by
  induction w generalizing s with
  | nil =>
    refine .pure ⟨rfl, ?_, fun _ _ => rfl⟩
    rw [measured, List.append_nil, List.take_of_length_le (by rwa [length_cycleLog])]
  | cons x w ih =>
    obtain ⟨t, hrun, hrec⟩ : ∃ t, timerCall p x s = .ok () t ∧
        t.record = timerRecord (p.cycles s.cycleReads) s.record x := ⟨_, timerCall_run x s, rfl⟩
    have ht : t.record.resultsSize ≤ Platform.maxResults := by
      rw [hrec]
      cases x with
      | U => exact hs
      | D =>
        rw [timerRecord, Platform.endRecord_size]
        split <;> omega
    refine .step hrun ((ih ht).mono fun _ u hu => ?_)
    cases x with
    | U => exact hu.start hrun
    | D => exact hu.end hrun ht

/-! ### What keeps to the timers -/

/-- The record is what calls of the timers would have left. -/
def Timed (p : Platform) (s t : St) : Prop :=
  ∃ w u, timerCalls p w s = .ok () u ∧ t.cycleReads = u.cycleReads ∧ t.record = u.record

/-- The record and the counter are as they were. -/
def SameTimers (s t : St) : Prop := t.cycleReads = s.cycleReads ∧ t.record = s.record

theorem Timed.refl (s : St) : Timed p s s := ⟨[], s, rfl, rfl, rfl⟩

theorem Timed.trans_same (h : Timed p s t) (hu : SameTimers t u) : Timed p s u := by
  obtain ⟨w, v, hrun, hreads, hrec⟩ := h
  exact ⟨w, v, hrun, hu.1.trans hreads, hu.2.trans hrec⟩

/-- One call more. -/
theorem Timed.call (h : Timed p s t) (x : DyckStep) (hrun : timerCall p x t = .ok () u) :
    Timed p s u := by
  obtain ⟨w, v, hv, hreads, hrec⟩ := h
  have hsnoc : timerCalls p (w ++ [x]) s = .ok () { v with
      cycleReads := v.cycleReads + 1
      record := timerRecord (p.cycles v.cycleReads) v.record x } := by
    rw [timerCalls_append, bind_run hv, timerCalls, bind_run (timerCall_run x v)]
    rfl
  rw [timerCall_run, EStateM.Result.ok.injEq] at hrun
  obtain ⟨-, rfl⟩ := hrun
  exact ⟨w ++ [x], _, hsnoc, by rw [hreads], by rw [hreads, hrec]⟩

/-- The program keeps to the timers. -/
abbrev KeepsTimed (p : Platform) (s : St) {α : Type} (m : Prog α) : Prop :=
  Leads (Timed p s) (Timed p s) (fun _ => Timed p s) m

/-- A program that leaves them alone. -/
theorem keepsTimed_of_same {α : Type} {m : Prog α}
    (h : ∀ t, (∃ a u, m t = .ok a u ∧ SameTimers t u) ∨ ∃ e u, m t = .error e u ∧ SameTimers t u) :
    KeepsTimed p s m := by
  rintro t _ ⟨rfl, ht⟩
  rcases h t with ⟨a, u, hr, hu⟩ | ⟨e, u, hr, hu⟩
  · rw [hr]
    exact .ok a ⟨rfl, ht.trans_same hu⟩
  · rw [hr]
    exact .error e ⟨rfl, ht.trans_same hu⟩

theorem timerCall_keepsTimed (x : DyckStep) : KeepsTimed p s (timerCall p x) :=
  .of_run fun _ ht => ⟨(), _, timerCall_run x _, ht.call x (timerCall_run x _)⟩

/-- A program that always returns and leaves them alone. -/
theorem keepsTimed_of_run {α : Type} {m : Prog α} (h : ∀ t, ∃ a u, m t = .ok a u ∧ SameTimers t u) :
    KeepsTimed p s m := keepsTimed_of_same fun t => .inl (h t)

/-- A store that may be refused. -/
theorem write_keepsTimed (C : Prop) [Decidable C] (f : Mem → Mem) :
    KeepsTimed p s (fun t => if C then .ok () { t with mem := f t.mem }
      else .error .registerAccess t : Prog Unit) := by
  refine keepsTimed_of_same fun t => ?_
  split
  · exact .inl ⟨(), _, rfl, rfl, rfl⟩
  · exact .inr ⟨_, _, rfl, rfl, rfl⟩

theorem waitIrq_keepsTimed : KeepsTimed p s waitIrq := by
  refine keepsTimed_of_same fun t => ?_
  cases h : t.irq with
  | idle => exact .inr ⟨_, _, waitIrq_idle_run h, rfl, rfl⟩
  | busy n => exact .inl ⟨_, _, waitIrq_busy h, rfl, rfl⟩
  | raised => exact .inl ⟨_, _, waitIrq_raised_run h, rfl, rfl⟩

theorem timed_registers (p : Platform) (s : St) :
    RegisterAgreement (Diagonal (Timed p s)) (fun _ => Diagonal (Timed p s)) p p where
  rvMgmt := rfl
  load _ := keepsTimed_of_run fun _ => ⟨_, _, rfl, rfl, rfl⟩
  store a v := write_keepsTimed (OffRegisters a 1) (·.store a v)
  storeFixed a v := (write_keepsTimed (OffRegisters a 1) (·.store a v)).bind fun _ =>
    keepsTimed_of_run fun _ => ⟨_, _, rfl, rfl, rfl⟩
  memcpy target src bytes := write_keepsTimed (OffRegisters target bytes) (·.copy target src bytes)
  memset target v bytes := write_keepsTimed (OffRegisters target bytes) (·.fill target v bytes)
  readVec _ _ := keepsTimed_of_run fun _ => ⟨_, _, rfl, rfl, rfl⟩
  startComputeCycles := timerCall_keepsTimed U
  endComputeCycles := timerCall_keepsTimed D
  writeControl _ := keepsTimed_of_run fun _ => ⟨_, _, rfl, rfl, rfl⟩
  writeMode _ := keepsTimed_of_run fun _ => ⟨_, _, rfl, rfl, rfl⟩
  waitIrq := waitIrq_keepsTimed

/-! ### The calls that count their polls -/

theorem apIrqCheck_keepsTimed : KeepsTimed p s apIrqCheck :=
  keepsTimed_of_run fun _ => ⟨_, _, rfl, rfl, rfl⟩

theorem apWaitingForComputing_keepsTimed (loops : ℕ) :
    KeepsTimed p s (apWaitingForComputing p loops) := by
  have h := timed_registers p s
  induction loops with
  | zero => exact .pure BitState.false
  | succ n ih =>
    refine apIrqCheck_keepsTimed.bind fun v => .ite (fun _ => ?_) fun _ => ih
    exact h.control_then _ <| h.mode_then _ <| .pure BitState.true

/-- A start, and a wait that may give up. -/
theorem countedHandshake_keepsTimed (l m w : UInt32) (loops : ℕ) :
    KeepsTimed p s (do p.writeControl l; p.writeMode m; p.writeControl w
                       let _ ← apWaitingForComputing p loops) :=
  (timed_registers p s).start_then l m w <|
    (apWaitingForComputing_keepsTimed loops).bind fun _ => .pure ()

theorem halCall_keepsTimed (c : HalCall) : KeepsTimed p s (c.exec p) := by
  have h := timed_registers p s
  cases c with
  | apIrqCheck => exact apIrqCheck_keepsTimed.bind fun _ => .pure ()
  | apWaitingForComputing loops =>
    exact (apWaitingForComputing_keepsTimed loops).bind fun _ => .pure ()
  | start op =>
    cases op with
    | triggerComputing => exact countedHandshake_keepsTimed _ _ _ 5
    | _ => exact h.call trivial
  | _ => exact h.call trivial

theorem kernel_keepsTimed (k : Kernel) : KeepsTimed p s (k.exec p) := by
  have h := timed_registers p s
  cases k with
  | opTargetSetup =>
    exact void_agrees (opTargetSetup_agrees h.toMemoryAgreement
      (countedHandshake_keepsTimed _ _ _ 3))
  | apAccum =>
    exact void_agrees (apAccum_agrees h.toMemoryAgreement (countedHandshake_keepsTimed _ _ _ 5))
  | _ => exact kernel_registers h rfl

theorem calls_keepTimed (calls : List Call) : KeepsTimed p s (calls.mapM (Call.exec p)) := by
  refine .mapM fun c _ => ?_
  cases c with
  | hal c => exact HalCall.value_leads (halCall_keepsTimed c)
  | kernel k => exact kernel_keepsTimed k

/-! ### The log of a run -/

/-- A record that calls of the timers would have left has grown. -/
theorem Timed.grown (h : Timed p s t) (hs : s.record.resultsSize ≤ Platform.maxResults) :
    ∃ w, Grown p w s t := by
  obtain ⟨w, u, hrun, hreads, hrec⟩ := h
  have hu := (timerCalls_grown w hs).holds hrun
  exact ⟨w, hreads ▸ hu.reads, hrec ▸ hu.log, hrec ▸ hu.kept⟩

/-- **The cycle log.** On any processor and from any state whose log is not over full, a run of
the firmware, of calls of every kind, leaves the log that some calls of the two timers leave,
also when it stops before its end: what was logged is kept, the first of their measurements are
appended until there are ten, and no other entry is written. The record is apart from the memory
of the state: a store through a pointer that reaches it is not modelled. -/
theorem firmware_logged (calls : List Call) (hs : s.record.resultsSize ≤ Platform.maxResults) :
    (∀ vs t, calls.mapM (Call.exec p) s = .ok vs t → ∃ w, Grown p w s t) ∧
    ∀ e t, calls.mapM (Call.exec p) s = .error e t → ∃ w, Grown p w s t := by
  have hkeeps : KeepsTimed p s (calls.mapM (Call.exec p)) := calls_keepTimed calls
  exact ⟨fun vs t hr => (hkeeps.ok (.refl s) hr).grown hs,
    fun e t hr => (hkeeps.error (.refl s) hr).grown hs⟩

/-- From the empty log. -/
theorem firmware_logged_rest :
    (∀ vs t, someCalls.mapM (Call.exec (.reference 2)) (.rest fun _ => 0) = .ok vs t →
      ∃ w, Grown (.reference 2) w (.rest fun _ => 0) t) ∧
    ∀ e t, someCalls.mapM (Call.exec (.reference 2)) (.rest fun _ => 0) = .error e t →
      ∃ w, Grown (.reference 2) w (.rest fun _ => 0) t :=
  firmware_logged someCalls (Nat.zero_le _)

end RocketAp.Kernels
