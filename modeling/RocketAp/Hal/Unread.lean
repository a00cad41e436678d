import RocketAp.Hal.Frames

/-!
# What a call does not read

A call reads the registers, the columns and what its arguments point to (`HalCall.loaded`). So
from two states that differ elsewhere in memory it does the same, on any processor, and they
differ there alone when it returns or stops (`halCall_beside`).
-/

namespace RocketAp.Hal

open ProgramLogic Device

variable {p : Platform} {W : Set ℕ} {s t : St}

/-- What a call reads through pointers. -/
def HalCall.loaded : HalCall → List Block
  | .start (.verticalComputing _ _ _ V size) => vectorBlocks V size
  | .start op => op.sources
  | c => c.reads

/-! ### Memory that a run does not read -/

/-- Two states that differ in `W` and in the logs of memory at most. -/
structure Beside (W : Set ℕ) (s t : St) : Prop extends SameRegisters s t where
  outside : ∀ a ∉ W, t.mem a = s.mem a
  cycleReads : t.cycleReads = s.cycleReads
  record : t.record = s.record

/-- The state with another memory. -/
theorem Beside.of_mem {m : Mem} (h : ∀ a ∉ W, m a = s.mem a) : Beside W s { s with mem := m } where
  control := rfl
  mode := rfl
  irq := rfl
  started := rfl
  bus := rfl
  outside := h
  cycleReads := rfl
  record := rfl

/-- Memory that is written alike outside `W`, or refused on both. -/
theorem write_beside (C : Prop) [Decidable C] (f : Mem → Mem)
    (hf : ∀ m m' : Mem, (∀ a ∉ W, m' a = m a) → ∀ a ∉ W, f m' a = f m a) :
    Simulates (Beside W) (fun s => if C then .ok () { s with mem := f s.mem }
      else .error .registerAccess s : Prog Unit) fun s =>
        if C then .ok () { s with mem := f s.mem } else .error .registerAccess s := by
  intro s t h
  by_cases hC : C
  · simp only [hC, if_true]
    exact .ok () { h with outside := hf _ _ h.outside }
  · simp only [hC, if_false]
    exact .error _ h

theorem store_beside (a : ℕ) (v : UInt8) : Simulates (Beside W) (store a v) (store a v) := by
  refine write_beside _ (·.store a v) fun m m' hm b hb => ?_
  by_cases hba : b = a
  · rw [hba, Mem.store_self, Mem.store_self]
  · rw [Mem.store_of_ne m' v hba, Mem.store_of_ne m v hba, hm b hb]

theorem load_beside {a : ℕ} (ha : a ∉ W) : Simulates (Beside W) (load a) (load a) := by
  intro s t h
  rw [load, load, h.outside a ha]
  exact .ok _ { h with }

theorem memcpy_beside {src bytes : ℕ} (h : ∀ i < bytes, src + i ∉ W) (target : ℕ) :
    Simulates (Beside W) (memcpy target src bytes) (memcpy target src bytes) := by
  refine write_beside _ (·.copy target src bytes) fun m m' hm a ha => ?_
  by_cases hin : target ≤ a ∧ a < target + bytes
  · obtain ⟨i, rfl⟩ := Nat.exists_eq_add_of_le hin.1
    have hi : i < bytes := by omega
    rw [Mem.copy_at m' target src hi, Mem.copy_at m target src hi, hm _ (h i hi)]
  · rw [Mem.copy_of_not_mem m' hin, Mem.copy_of_not_mem m hin, hm a ha]

theorem memset_beside (target : ℕ) (v : UInt8) (bytes : ℕ) :
    Simulates (Beside W) (memset target v bytes) (memset target v bytes) := by
  refine write_beside _ (·.fill target v bytes) fun m m' hm a ha => ?_
  by_cases hin : target ≤ a ∧ a < target + bytes
  · obtain ⟨i, rfl⟩ := Nat.exists_eq_add_of_le hin.1
    have hi : i < bytes := by omega
    rw [Mem.fill, Mem.fill, Mem.write_at m' target _ hi, Mem.write_at m target _ hi]
  · rw [Mem.fill, Mem.fill, Mem.write_of_not_mem m' _ hin, Mem.write_of_not_mem m _ hin, hm a ha]

theorem storeFixed_beside (a : ℕ) (v : UInt8) :
    Simulates (Beside W) (storeFixed a v) (storeFixed a v) :=
  (store_beside a v).bind fun _ _ _ h => .ok () { h with }

theorem readVec_beside {v : RvVec} {i : ℕ} (h : p.rvAddr v + i ∉ W) :
    Simulates (Beside W) (p.readVec v i) (p.readVec v i) := by
  intro s t hst
  rw [Platform.readVec, Platform.readVec, Platform.vec, Platform.vec, hst.outside _ h]
  exact .ok _ { hst with }

/-- Bytes copied one by one. -/
theorem copyBytes_beside {src n : ℕ} (h : ∀ i < n, src + i ∉ W) (dst : ℕ) :
    Simulates (Beside W) (forUpTo n fun i => do
      let v ← load (src + i)
      store (dst + i) v : Prog Unit) (forUpTo n fun i => do
      let v ← load (src + i)
      store (dst + i) v) :=
  .forUpToLt fun i hi => (load_beside (h i hi)).bind fun v => store_beside _ v

theorem vector_beside {src size : ℕ} (h : ∀ a ∈ covered (vectorBlocks src size), a ∉ W) (dst : ℕ) :
    Simulates (Beside W)
      (if size > apColSize then pure () else forUpTo size fun i => do
        let v ← load (src + i)
        store (dst + i) v : Prog Unit)
      (if size > apColSize then pure () else forUpTo size fun i => do
        let v ← load (src + i)
        store (dst + i) v) := by
  refine .ite (fun _ => .pure ()) fun hsize => copyBytes_beside (fun i hi => h _ ?_) dst
  rw [vectorBlocks, if_neg hsize]
  exact mem_covered_at 0 rfl hi

theorem lw_beside {a : ℕ} (h : ∀ x ∈ covered (wordBlocks a), x ∉ W) :
    Simulates (Beside W) (lw a) (lw a) :=
  (load_beside (h _ (wordByte_mem a 0 (by decide)))).bind fun _ =>
    (load_beside (h _ (wordByte_mem a 1 (by decide)))).bind fun _ =>
      (load_beside (h _ (wordByte_mem a 2 (by decide)))).bind fun _ =>
        (load_beside (h _ (wordByte_mem a 3 (by decide)))).bind fun _ => .pure _

theorem sw_beside (a : ℕ) (w : UInt32) : Simulates (Beside W) (sw a w) (sw a w) :=
  (store_beside _ _).bind fun _ => (store_beside _ _).bind fun _ =>
    (store_beside _ _).bind fun _ => store_beside _ _

/-! ### Registers -/

theorem startComputeCycles_beside :
    Simulates (Beside W) p.startComputeCycles p.startComputeCycles := fun s t h =>
  .ok () { h with
    cycleReads := congrArg (· + 1) h.cycleReads
    record := by rw [h.record, h.cycleReads] }

theorem endComputeCycles_beside : Simulates (Beside W) p.endComputeCycles p.endComputeCycles :=
  fun s t h => .ok () { h with
    cycleReads := congrArg (· + 1) h.cycleReads
    record := by rw [h.record, h.cycleReads] }

theorem apIrqCheck_beside : Simulates (Beside W) apIrqCheck apIrqCheck := by
  intro s t h
  rw [apIrqCheck, apIrqCheck, h.irq, h.bus]
  exact .ok _ { h with irq := rfl, bus := rfl }

theorem waitIrq_beside : Simulates (Beside W) waitIrq waitIrq := by
  have hspin : ∀ n, Simulates (Beside W) (spin n) (spin n) := by
    intro n
    induction n with
    | zero => exact fun _ _ h => .error _ h
    | succ n ih => exact apIrqCheck_beside.bind fun v => .ite (fun _ => ih) fun _ => .pure ()
  intro s t h
  rw [waitIrq, waitIrq, h.irq]
  exact hspin _ s t h

/-- The columns are not in `W`. -/
theorem Beside.setCams {m m' : Mem} (h : ∀ a ∉ W, m' a = m a) (cs : Cams) :
    ∀ a ∉ W, Device.setCams m' cs a = Device.setCams m cs a := by
  intro a ha
  rw [Device.setCams, Device.setCams]
  split
  · rfl
  · exact h a ha

section Columns

variable (hW : ∀ a ∈ W, ¬ InColumns a)
include hW

theorem Beside.cams (h : Beside W s t) : t.cams = s.cams := by
  funext c r
  exact h.outside _ fun hin => hW _ hin (inColumns_base c r.2)

theorem writeControl_beside (w : UInt32) :
    Simulates (Beside W) (p.writeControl w) (p.writeControl w) := by
  intro s t h
  refine .ok () { h with control := rfl, irq := ?_, started := ?_, bus := ?_, outside := ?_ }
  · simp only [Platform.afterControl, h.irq, h.started]
  · simp only [Platform.afterControl, h.started]
  · simp only [Platform.afterControl, h.bus]
  · simp only [Platform.afterControl, h.mode, h.cams hW]
    exact Beside.setCams h.outside _

theorem writeMode_beside (w : UInt32) : Simulates (Beside W) (p.writeMode w) (p.writeMode w) := by
  intro s t h
  refine .ok () { h with mode := rfl, bus := ?_, outside := ?_ }
  · simp only [Platform.afterMode, h.bus]
  · simp only [Platform.afterMode, h.control, h.cams hW]
    exact Beside.setCams h.outside _

/-- A `CONTROL` write and what follows it. -/
theorem control_then_beside (w : UInt32) {α : Type} {m : Prog α} (h : Simulates (Beside W) m m) :
    Simulates (Beside W) (do p.writeControl w; m) (do p.writeControl w; m) :=
  (writeControl_beside hW w).bind fun _ => h

/-- A `MODE` write and what follows it. -/
theorem mode_then_beside (w : UInt32) {α : Type} {m : Prog α} (h : Simulates (Beside W) m m) :
    Simulates (Beside W) (do p.writeMode w; m) (do p.writeMode w; m) :=
  (writeMode_beside hW w).bind fun _ => h

/-- A start and what follows it. -/
theorem start_then_beside (l m w : UInt32) {α : Type} {n : Prog α}
    (h : Simulates (Beside W) n n) :
    Simulates (Beside W) (do p.writeControl l; p.writeMode m; p.writeControl w; n)
      (do p.writeControl l; p.writeMode m; p.writeControl w; n) :=
  control_then_beside hW l (mode_then_beside hW m (control_then_beside hW w h))

/-- A wait and the release. -/
theorem wait_release_beside : Simulates (Beside W) (do waitIrq; p.writeControl 0)
    (do waitIrq; p.writeControl 0) := waitIrq_beside.bind fun _ => writeControl_beside hW 0

theorem apWaitingForComputing_beside (loops : ℕ) :
    Simulates (Beside W) (apWaitingForComputing p loops) (apWaitingForComputing p loops) := by
  induction loops with
  | zero => exact .pure BitState.false
  | succ n ih =>
    refine apIrqCheck_beside.bind fun v => .ite (fun _ => ?_) fun _ => ih
    exact control_then_beside hW _ (mode_then_beside hW _ (.pure BitState.true))

theorem startOp_beside (op : StartOp) (h : ∀ a ∈ covered (HalCall.start op).loaded, a ∉ W) :
    Simulates (Beside W) (op.exec p) (op.exec p) := by
  cases op with
  | triggerComputingWWait | triggerComputingWWaitTargetA =>
    exact start_then_beside hW _ _ _ (wait_release_beside hW)
  | triggerVerticalComputingWWait | triggerVerticalComputingTarget =>
    refine start_then_beside hW _ _ _ (waitIrq_beside.bind fun _ => ?_)
    exact control_then_beside hW 0 (.forUpTo fun _ => .pure ())
  | computing op ic dir A B size =>
    have hA : ∀ a ∈ covered (vectorBlocks A size), a ∉ W := fun a ha =>
      h a (covered_mono (List.subset_append_left _ _) ha)
    have hB : ∀ a ∈ covered (vectorBlocks B size), a ∉ W := fun a ha =>
      h a (covered_mono (List.subset_append_right _ _) ha)
    refine (vector_beside hA _).bind fun _ => (vector_beside hB _).bind fun _ => ?_
    exact start_then_beside hW _ _ _ (.pure ())
  | verticalComputing =>
    refine (vector_beside h _).bind fun _ => control_then_beside hW _ ?_
    exact mode_then_beside hW _ (writeControl_beside hW _)
  | triggerComputing =>
    refine start_then_beside hW _ _ _ ((apWaitingForComputing_beside hW 5).bind fun _ => .pure ())
  | setValue =>
    refine (store_beside _ _).bind fun _ => start_then_beside hW _ _ _ ?_
    exact startComputeCycles_beside.bind fun _ => waitIrq_beside.bind fun _ =>
      endComputeCycles_beside.bind fun _ => writeControl_beside hW 0
  | setValueCamALeft =>
    exact (store_beside _ _).bind fun _ => start_then_beside hW _ _ _ (wait_release_beside hW)
  | search =>
    refine (store_beside _ _).bind fun _ => start_then_beside hW _ _ _ ?_
    exact startComputeCycles_beside.bind fun _ => waitIrq_beside.bind fun _ =>
      endComputeCycles_beside

/-- **What a call does not read it does not depend on**, on any processor. -/
theorem halCall_beside (c : HalCall) (h : ∀ a ∈ covered c.loaded, a ∉ W) :
    Simulates (Beside W) (c.exec p) (c.exec p) := by
  cases c with
  | warmupAp =>
    exact start_then_beside hW _ _ _ <| control_then_beside hW _ <| control_then_beside hW _ <|
      control_then_beside hW _ <| control_then_beside hW _ <| mode_then_beside hW _ <|
        control_then_beside hW _ <| control_then_beside hW _ <| control_then_beside hW _ <|
          writeMode_beside hW _
  | resetApEngine =>
    exact control_then_beside hW _ <| control_then_beside hW _ <| control_then_beside hW _ <|
      writeMode_beside hW _
  | resetApRegs => exact .pure ()
  | releaseApIf => exact writeControl_beside hW _
  | apFlushA1 | apFlushB0 | apFlushB1 | apFlushC1 =>
    exact start_then_beside hW _ _ _ (control_then_beside hW _ (writeMode_beside hW _))
  | apFlushC0 =>
    exact mode_then_beside hW _ <| control_then_beside hW _ <| control_then_beside hW _ <|
      writeControl_beside hW _
  | apFlushCol =>
    exact start_then_beside hW _ _ _ (control_then_beside hW _ (writeControl_beside hW _))
  | tinyDelay => exact .forUpTo fun _ => .pure ()
  | apIrqCheck => exact apIrqCheck_beside.bind fun _ => .pure ()
  | apWaitingForComputing loops =>
    exact (apWaitingForComputing_beside hW loops).bind fun _ => .pure ()
  | apWriteVector | apReadVector | apReadResultVector => exact vector_beside h _
  | apMemcpy => exact memcpy_beside (fun i hi => h _ (mem_covered_at 0 rfl hi)) _
  | apStoreData => exact sw_beside _ _
  | apGetData => exact (lw_beside h).bind fun _ => .pure ()
  | apGetDataTo => exact (lw_beside h).bind fun w => store_beside _ _
  | start op => exact startOp_beside hW op h

end Columns

end RocketAp.Hal
