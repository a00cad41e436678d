import RocketAp.Hal.Agreement

/-!
# The speed of the processor

How long an operation takes shows in how many polls of the interrupt read `0` and in what the
cycle counter reads. `SameButTiming s t` says that two states differ in these alone.

A register write, and a wait that goes on until the interrupt comes, cannot see the difference,
whatever the processor computes (`sameProcessor_registers`): on two processors that differ in
speed they do the same. A call that counts its polls can, and one that returns before its
operation has completed leaves it to chance what the next call finds: neither is here.
-/

namespace RocketAp.Hal

open ProgramLogic Device

/-- The same processor at another speed, with another cycle counter. -/
structure SameProcessor (p q : Platform) : Prop where
  onControl : q.onControl = p.onControl
  onMode : q.onMode = p.onMode
  starts : q.starts = p.starts
  rvMgmt : q.rvMgmt = p.rvMgmt

/-- An operation is running on both, however many polls it still takes, or on neither. -/
inductive SameIrq : Irq → Irq → Prop where
  | idle : SameIrq .idle .idle
  | busy (n k : ℕ) : SameIrq (.busy n) (.busy k)
  | raised : SameIrq .raised .raised

/-- The register accesses without the polls that read `0`. -/
def answered (ops : List RegOp) : List RegOp := ops.filter (· ≠ .irq 0)

/-- What two runs at two speeds have in common. -/
structure SameButTiming (s t : St) : Prop where
  mem : t.mem = s.mem
  control : t.control = s.control
  mode : t.mode = s.mode
  irq : SameIrq s.irq t.irq
  started : t.started = s.started
  cycleReads : t.cycleReads = s.cycleReads
  resultsSize : t.record.resultsSize = s.record.resultsSize
  bus : answered t.bus = answered s.bus
  reads : t.reads = s.reads
  fixedStores : t.fixedStores = s.fixedStores

theorem answered_append (ops ops' : List RegOp) :
    answered (ops ++ ops') = answered ops ++ answered ops' := List.filter_append ..

/-- The polls of a wait, in whatever number. -/
theorem answered_wait (n : ℕ) : answered (List.replicate n (.irq 0) ++ [.irq 1]) = [.irq 1] := by
  rw [answered_append, answered, List.filter_replicate]
  rfl

theorem SameIrq.refl : ∀ i : Irq, SameIrq i i
  | .idle => .idle
  | .busy n => .busy n n
  | .raised => .raised

/-- With nothing running the interrupt is the same. -/
theorem SameIrq.eq {i j : Irq} (h : SameIrq i j) (hi : ∀ n, i ≠ .busy n) : j = i := by
  cases h with
  | busy n k => exact absurd rfl (hi n)
  | _ => rfl

variable {p q : Platform} {s t : St}

/-! ### Registers -/

theorem SameButTiming.afterControl (hpq : SameProcessor p q) (h : SameButTiming s t)
    (w : UInt32) : SameButTiming (p.afterControl w s) (q.afterControl w t) := by
  refine { h with
    mem := ?mem, control := rfl, irq := ?irq, started := ?started, bus := ?bus }
  case mem => simp only [Platform.afterControl, St.cams, hpq.onControl, h.mem, h.mode]
  case irq =>
    simp only [Platform.afterControl, hpq.starts]
    split
    · exact .busy _ _
    · split
      · exact h.irq
      · exact .idle
  case started => simp only [Platform.afterControl, hpq.starts, h.started]
  case bus => simp only [Platform.afterControl, answered_append, h.bus]

theorem SameButTiming.afterMode (hpq : SameProcessor p q) (h : SameButTiming s t)
    (w : UInt32) : SameButTiming (p.afterMode w s) (q.afterMode w t) := by
  refine { h with mem := ?mem, mode := rfl, bus := ?bus }
  case mem => simp only [Platform.afterMode, St.cams, hpq.onMode, h.mem, h.control]
  case bus => simp only [Platform.afterMode, answered_append, h.bus]

theorem writeControl_blind (hpq : SameProcessor p q) (w : UInt32) :
    Simulates SameButTiming (p.writeControl w) (q.writeControl w) :=
  fun _ _ h => .ok () (h.afterControl hpq w)

theorem writeMode_blind (hpq : SameProcessor p q) (w : UInt32) :
    Simulates SameButTiming (p.writeMode w) (q.writeMode w) :=
  fun _ _ h => .ok () (h.afterMode hpq w)

theorem answered_afterWait (n : ℕ) (s : St) :
    answered (afterWait n s).bus = answered s.bus ++ [.irq 1] := by
  rw [← answered_wait n]
  exact answered_append _ _

/-- After a wait the two are the same again, whatever it took. -/
theorem SameButTiming.afterWait (h : SameButTiming s t) (n k : ℕ) :
    SameButTiming (afterWait n s) (afterWait k t) := by
  refine { h with irq := .raised, bus := ?_ }
  rw [answered_afterWait, answered_afterWait, h.bus]

/-- A loop without a bound sees the interrupt on both, or on neither. -/
theorem waitIrq_blind : Simulates SameButTiming waitIrq waitIrq := by
  intro s t h
  have hirq := h.irq
  generalize hs : s.irq = i, ht : t.irq = j at hirq
  cases hirq with
  | idle =>
    rw [waitIrq_idle_run hs, waitIrq_idle_run ht]
    refine .error _ { h with irq := .idle, bus := ?_ }
    rw [answered_append, answered_append, h.bus]
  | busy n k =>
    rw [waitIrq_busy hs, waitIrq_busy ht]
    exact .ok () (h.afterWait n k)
  | raised =>
    rw [waitIrq_raised_run hs, waitIrq_raised_run ht]
    exact .ok () (h.afterWait 0 0)

/-! ### Memory -/

/-- A read that is logged. -/
theorem SameButTiming.read (h : SameButTiming s t) (x : Access) :
    SameButTiming { s with reads := s.reads ++ [x] } { t with reads := t.reads ++ [x] } :=
  { h with reads := by rw [h.reads] }

theorem SameButTiming.setMem (h : SameButTiming s t) (f : Mem → Mem) :
    SameButTiming { s with mem := f s.mem } { t with mem := f t.mem } :=
  { h with mem := by rw [h.mem] }

theorem load_blind (a : ℕ) : Simulates SameButTiming (load a) (load a) := by
  intro s t h
  have ht : load a t = .ok (s.mem a) { t with reads := t.reads ++ [.byte a] } := by
    rw [← h.mem]
    rfl
  rw [ht]
  exact .ok _ (h.read _)

theorem store_blind (a : ℕ) (v : UInt8) : Simulates SameButTiming (store a v) (store a v) := by
  intro s t h
  by_cases ha : OffRegisters a 1
  · rw [store_run ha, store_run ha]
    exact .ok () (h.setMem fun m => m.store a v)
  · rw [store, store, if_neg ha, if_neg ha]
    exact .error _ h

theorem storeFixed_blind (a : ℕ) (v : UInt8) :
    Simulates SameButTiming (storeFixed a v) (storeFixed a v) :=
  (store_blind a v).bind fun _ _ _ h =>
    .ok () { h with fixedStores := congrArg (· ++ [a]) h.fixedStores }

theorem memcpy_blind (target src bytes : ℕ) :
    Simulates SameButTiming (memcpy target src bytes) (memcpy target src bytes) := by
  intro s t h
  by_cases ha : OffRegisters target bytes
  · rw [memcpy_run ha, memcpy_run ha]
    exact .ok () (h.setMem fun m => m.copy target src bytes)
  · rw [memcpy, memcpy, if_neg ha, if_neg ha]
    exact .error _ h

theorem memset_blind (target : ℕ) (v : UInt8) (bytes : ℕ) :
    Simulates SameButTiming (memset target v bytes) (memset target v bytes) := by
  intro s t h
  by_cases ha : OffRegisters target bytes
  · rw [memset_run ha, memset_run ha]
    exact .ok () (h.setMem fun m => m.fill target v bytes)
  · rw [memset, memset, if_neg ha, if_neg ha]
    exact .error _ h

theorem readVec_blind (hpq : SameProcessor p q) (v : RvVec) (i : ℕ) :
    Simulates SameButTiming (p.readVec v i) (q.readVec v i) := by
  intro s t h
  have ht : q.readVec v i t = .ok (p.vec s v i) { t with reads := t.reads ++ [.elem v i] } := by
    have haddr : q.rvAddr v = p.rvAddr v := by cases v <;> simp only [Platform.rvAddr, hpq.rvMgmt]
    simp only [Platform.readVec, Platform.vec, haddr, h.mem]
  rw [ht]
  exact .ok _ (h.read _)

/-- The record holds other times, and as many of them. -/
theorem startComputeCycles_blind :
    Simulates SameButTiming p.startComputeCycles q.startComputeCycles :=
  fun _ _ h => .ok () { h with cycleReads := congrArg (· + 1) h.cycleReads }

theorem endComputeCycles_blind :
    Simulates SameButTiming p.endComputeCycles q.endComputeCycles := by
  intro s t h
  refine .ok () { h with cycleReads := congrArg (· + 1) h.cycleReads, resultsSize := ?_ }
  rw [Platform.endRecord_size, Platform.endRecord_size, h.resultsSize]

/-- Every access does the same at the two speeds. -/
theorem sameProcessor_registers (hpq : SameProcessor p q) :
    RegisterAgreement SameButTiming (fun _ => SameButTiming) p q where
  rvMgmt := hpq.rvMgmt
  load := load_blind
  store := store_blind
  storeFixed := storeFixed_blind
  memcpy := memcpy_blind
  memset := memset_blind
  readVec := readVec_blind hpq
  startComputeCycles := startComputeCycles_blind
  endComputeCycles := endComputeCycles_blind
  writeControl := writeControl_blind hpq
  writeMode := writeMode_blind hpq
  waitIrq := waitIrq_blind

end RocketAp.Hal
