import RocketAp.Hal.Effects
import RocketAp.Hal.Footprints
import RocketAp.ProgramLogic.Frames

/-!
# What a call may write, on any processor

The registers are written to have the columns change; everything else that a call of the layer
writes it stores itself, and where follows from its arguments (`HalCall.stored`). So whatever
the processor does, and whether the call returns or waits for ever, the rest of memory is as it
was (`halCall_confined`). On the right the vector functions and `ap_set_value` store past the
registers, which is why their blocks are listed.
-/

namespace RocketAp.Hal

open ProgramLogic Device

/-! ### Where -/

/-- The columns, and the blocks. -/
def writable (bs : List Block) : Set ℕ := { a | InColumns a } ∪ covered bs

/-- Nothing but the columns and the blocks is written. -/
abbrev ConfinedTo (bs : List Block) {α : Type} (m : Prog α) : Prop :=
  Confined St.mem (writable bs) m

theorem ConfinedTo.mono {bs cs : List Block} {α : Type} {m : Prog α} (h : ConfinedTo bs m)
    (hbs : bs ⊆ cs) : ConfinedTo cs m :=
  Confined.mono h (Set.union_subset_union_right _ (covered_mono hbs))

variable {p : Platform} {bs : List Block}

/-- A row of the columns, which are one block. -/
theorem writable_columns {c : Cam} {i : ℕ} (h : c.base + i < apControlRegistersBaseAddr) :
    c.base + i ∈ writable bs :=
  .inl ⟨Nat.le_trans c.base_ge (Nat.le_add_right _ _), h⟩

theorem writable_cam (c : Cam) {r : ℕ} (h : r < apColSize) : c.base + r ∈ writable bs :=
  .inl (inColumns_base c h)

/-- A byte of the `k`th block. -/
theorem writable_at (k : ℕ) {a n i : ℕ} (hk : bs[k]? = some (a, n)) (hi : i < n) :
    a + i ∈ writable bs := .inr (mem_covered_at k hk hi)

/-! ### Accesses -/

theorem confined_of_keeps {α : Type} {m : Prog α} (h : Keeps Undisturbed m) : ConfinedTo bs m :=
  Keeps.mono h fun _ _ hst a ha => hst.outside a fun hin => ha (.inl hin)

theorem load_confined (a : ℕ) : ConfinedTo bs (load a) := .of_same fun _ => ⟨_, _, rfl, rfl⟩

theorem readVec_confined (v : RvVec) (i : ℕ) : ConfinedTo bs (p.readVec v i) :=
  .of_same fun _ => ⟨_, _, rfl, rfl⟩

theorem startComputeCycles_confined : ConfinedTo bs p.startComputeCycles :=
  .of_same fun _ => ⟨_, _, rfl, rfl⟩

theorem endComputeCycles_confined : ConfinedTo bs p.endComputeCycles :=
  .of_same fun _ => ⟨_, _, rfl, rfl⟩

theorem writeControl_confined (w : UInt32) : ConfinedTo bs (p.writeControl w) :=
  confined_of_keeps (writeControl_keeps w)

theorem writeMode_confined (w : UInt32) : ConfinedTo bs (p.writeMode w) :=
  confined_of_keeps (writeMode_keeps w)

theorem waitIrq_confined : ConfinedTo bs waitIrq := confined_of_keeps waitIrq_keeps

theorem apIrqCheck_confined : ConfinedTo bs apIrqCheck := .of_same fun _ => ⟨_, _, rfl, rfl⟩

/-- Memory that is written in the blocks, or is refused. -/
theorem write_confined (C : Prop) [Decidable C] (f : Mem → Mem)
    (h : ∀ m, ∀ a ∉ writable bs, f m a = m a) :
    ConfinedTo bs (fun s => if C then .ok () { s with mem := f s.mem }
      else .error .registerAccess s : Prog Unit) := by
  intro s a ha
  by_cases hC : C
  · simp only [finalState, hC, if_true]
    exact h s.mem a ha
  · simp only [finalState, hC, if_false]

theorem store_confined {a : ℕ} (ha : a ∈ writable bs) (v : UInt8) : ConfinedTo bs (store a v) :=
  write_confined _ (·.store a v) fun m _ hb => Mem.store_of_ne m v fun h => hb (h ▸ ha)

theorem storeFixed_confined {a : ℕ} (ha : a ∈ writable bs) (v : UInt8) :
    ConfinedTo bs (storeFixed a v) :=
  (store_confined ha v).bind fun _ => Confined.of_same fun _ => ⟨_, _, rfl, rfl⟩

theorem block_confined {target bytes : ℕ} (h : ∀ i < bytes, target + i ∈ writable bs)
    (f : Mem → ℕ → UInt8) : ConfinedTo bs (fun s => if OffRegisters target bytes then
      .ok () { s with mem := s.mem.write target bytes (f s.mem) }
      else .error .registerAccess s : Prog Unit) := by
  refine write_confined _ (fun m => m.write target bytes (f m)) fun m a ha => ?_
  refine Mem.write_of_not_mem m _ fun ⟨hlo, hhi⟩ => ha ?_
  obtain ⟨i, rfl⟩ := Nat.exists_eq_add_of_le hlo
  exact h i (by omega)

theorem memcpy_confined {target bytes : ℕ} (h : ∀ i < bytes, target + i ∈ writable bs)
    (src : ℕ) : ConfinedTo bs (memcpy target src bytes) := block_confined h fun m i => m (src + i)

theorem memset_confined {target bytes : ℕ} (h : ∀ i < bytes, target + i ∈ writable bs)
    (v : UInt8) : ConfinedTo bs (memset target v bytes) := block_confined h fun _ _ => v

/-- Bytes stored one by one. -/
theorem fillLoop_confined {dst n : ℕ} (h : ∀ i < n, dst + i ∈ writable bs) (f : ℕ → UInt8) :
    ConfinedTo bs (forUpTo n fun i => store (dst + i) (f i)) :=
  Keeps.forUpTo fun i hi => store_confined (h i hi) _

/-- Bytes copied one by one. -/
theorem copyLoop_confined {dst n : ℕ} (h : ∀ i < n, dst + i ∈ writable bs) (src : ℕ) :
    ConfinedTo bs (forUpTo n fun i => do
      let v ← load (src + i)
      store (dst + i) v) :=
  Keeps.forUpTo fun i hi => (load_confined _).bind fun v => store_confined (h i hi) v

theorem vector_confined (dst src size : ℕ) : ConfinedTo (vectorBlocks dst size)
    (if size > apColSize then pure () else forUpTo size fun i => do
      let v ← load (src + i)
      store (dst + i) v) := by
  rw [vectorBlocks]
  exact .ite (fun _ => .pure ()) fun hsize =>
    copyLoop_confined (fun i hi => by rw [if_neg hsize]; exact writable_at 0 rfl hi) src

theorem lw_confined (a : ℕ) : ConfinedTo bs (lw a) :=
  (load_confined _).bind fun _ => (load_confined _).bind fun _ => (load_confined _).bind fun _ =>
    (load_confined _).bind fun _ => .pure _

theorem sw_confined {a : ℕ} (h : ∀ k < 4, wordByte a k ∈ writable bs) (w : UInt32) :
    ConfinedTo bs (sw a w) :=
  (store_confined (h 0 (by decide)) _).bind fun _ =>
    (store_confined (h 1 (by decide)) _).bind fun _ =>
      (store_confined (h 2 (by decide)) _).bind fun _ => store_confined (h 3 (by decide)) _

/-- A byte of a word. -/
theorem wordByte_writable (a : ℕ) : ∀ k < 4, wordByte a k ∈ writable (wordBlocks a) :=
  fun k hk => .inr (wordByte_mem a k hk)

/-! ### Calls -/

/-- What a call stores itself before it starts its operation, in whatever direction. -/
def StartOp.stored : StartOp → List Block
  | .verticalComputing _ col ic _ size => vectorBlocks (finalAddr col ic) size
  | op => op.stores

/-- What a call stores itself. -/
def HalCall.stored : HalCall → List Block
  | .apWriteVector col ic _ size => vectorBlocks (finalAddr col ic) size
  | .apReadVector _ _ V size => vectorBlocks V size
  | .apReadResultVector _ V size => vectorBlocks V size
  | .apMemcpy target _ bytes => [(target, bytes)]
  | .apStoreData addr _ => wordBlocks addr
  | .apGetDataTo dest _ => [(dest, 1)]
  | .start op => op.stored
  | _ => []

/-- A `CONTROL` write and what follows it. -/
theorem control_then_confined (w : UInt32) {α : Type} {m : Prog α} (h : ConfinedTo bs m) :
    ConfinedTo bs (do p.writeControl w; m) := (writeControl_confined w).bind fun _ => h

/-- A `MODE` write and what follows it. -/
theorem mode_then_confined (w : UInt32) {α : Type} {m : Prog α} (h : ConfinedTo bs m) :
    ConfinedTo bs (do p.writeMode w; m) := (writeMode_confined w).bind fun _ => h

/-- A start and what follows it. -/
theorem start_then_confined (l m w : UInt32) {α : Type} {n : Prog α} (h : ConfinedTo bs n) :
    ConfinedTo bs (do p.writeControl l; p.writeMode m; p.writeControl w; n) :=
  control_then_confined l (mode_then_confined m (control_then_confined w h))

/-- A wait and what follows it. -/
theorem wait_then_confined {α : Type} {n : Prog α} (h : ConfinedTo bs n) :
    ConfinedTo bs (do waitIrq; n) := waitIrq_confined.bind fun _ => h

theorem tinyDelay_confined (n : ℕ) : ConfinedTo bs (tinyDelay n) :=
  Keeps.forUpTo fun _ _ => .pure ()

theorem apWaitingForComputing_confined (loops : ℕ) :
    ConfinedTo bs (apWaitingForComputing p loops) := by
  induction loops with
  | zero => exact .pure BitState.false
  | succ n ih =>
    refine apIrqCheck_confined.bind fun v => .ite (fun _ => ?_) fun _ => ih
    exact control_then_confined _ (mode_then_confined _ (.pure BitState.true))

/-- A wait for what was started, and the release. -/
theorem wait_release_confined : ConfinedTo bs (do waitIrq; p.writeControl 0) :=
  wait_then_confined (writeControl_confined 0)

/-- A wait with the record running, and what follows it. -/
theorem timedWait_then_confined {n : Prog Unit} (h : ConfinedTo bs n) :
    ConfinedTo bs (do p.startComputeCycles; waitIrq; n) :=
  startComputeCycles_confined.bind fun _ => wait_then_confined h

theorem apSetValue_confined {col : APCollunm} {ic : APInternalCollunm}
    (h : finalAddr col ic + 0 ∈ writable bs) (value : UInt8) :
    ConfinedTo bs (apSetValue p col ic value) := by
  rw [apSetValue]
  simp only [setValueAddr]
  refine (store_confined h value).bind fun _ => start_then_confined _ _ _ ?_
  exact timedWait_then_confined (endComputeCycles_confined.bind fun _ => writeControl_confined 0)

theorem apSetValueCamALeft_confined (h : Cam.a0.base + 0 ∈ writable bs) (factor : UInt8) :
    ConfinedTo bs (apSetValueCamALeft p factor) :=
  (store_confined h factor).bind fun _ => start_then_confined _ _ _ wait_release_confined

theorem apSearch_confined (h : Cam.b0.base + 0 ∈ writable bs) (key : UInt8)
    (ic : APInternalCollunm) (target : OpTarget) : ConfinedTo bs (apSearch p key ic target) := by
  rw [apSearch]
  simp only [searchKeyAddr]
  refine (store_confined h key).bind fun _ => start_then_confined _ _ _ ?_
  exact timedWait_then_confined endComputeCycles_confined

theorem startOp_confined (op : StartOp) : ConfinedTo op.stored (op.exec p) := by
  cases op with
  | triggerComputingWWait | triggerComputingWWaitTargetA =>
    exact start_then_confined _ _ _ wait_release_confined
  | triggerVerticalComputingWWait | triggerVerticalComputingTarget =>
    refine start_then_confined _ _ _ (wait_then_confined (control_then_confined 0 ?_))
    exact tinyDelay_confined 1
  | computing op ic dir A B size =>
    refine ((vector_confined _ A size).mono (List.subset_append_left _ _)).bind fun _ => ?_
    refine ((vector_confined _ B size).mono (List.subset_append_right _ _)).bind fun _ => ?_
    exact start_then_confined _ _ _ (.pure ())
  | verticalComputing op col ic V size =>
    refine (vector_confined _ V size).bind fun _ => ?_
    exact control_then_confined _ (mode_then_confined _ (writeControl_confined _))
  | triggerComputing =>
    exact start_then_confined _ _ _ ((apWaitingForComputing_confined 5).bind fun _ => .pure ())
  | setValue col ic value => exact apSetValue_confined (writable_at 0 rfl (by decide)) value
  | setValueCamALeft factor =>
    exact apSetValueCamALeft_confined (writable_at 0 rfl (by decide)) factor
  | search key ic target => exact apSearch_confined (writable_at 0 rfl (by decide)) key ic target

/-- A call. -/
theorem halCall_confined (c : HalCall) : ConfinedTo c.stored (c.exec p) := by
  cases c with
  | warmupAp =>
    exact start_then_confined _ _ _ (control_then_confined _ (control_then_confined _
      (control_then_confined _ (control_then_confined _ (mode_then_confined _
        (control_then_confined _ (control_then_confined _ (control_then_confined _
          (writeMode_confined _)))))))))
  | resetApEngine =>
    exact control_then_confined _ (control_then_confined _ (control_then_confined _
      (writeMode_confined _)))
  | resetApRegs => exact .pure ()
  | releaseApIf => exact writeControl_confined _
  | apFlushA1 | apFlushB0 | apFlushB1 | apFlushC1 =>
    exact start_then_confined _ _ _ (control_then_confined _ (writeMode_confined _))
  | apFlushC0 =>
    exact mode_then_confined _ (control_then_confined _ (control_then_confined _
      (writeControl_confined _)))
  | apFlushCol =>
    exact start_then_confined _ _ _ (control_then_confined _ (writeControl_confined _))
  | tinyDelay n => exact tinyDelay_confined n
  | apIrqCheck => exact apIrqCheck_confined.bind fun _ => .pure ()
  | apWaitingForComputing loops =>
    exact (apWaitingForComputing_confined loops).bind fun _ => .pure ()
  | apWriteVector | apReadVector | apReadResultVector => exact vector_confined _ _ _
  | apMemcpy target src bytes => exact memcpy_confined (fun _ hi => writable_at 0 rfl hi) src
  | apStoreData addr data => exact sw_confined (wordByte_writable addr) _
  | apGetData addr => exact (lw_confined addr).bind fun _ => .pure ()
  | apGetDataTo dest src =>
    exact (lw_confined src).bind fun w =>
      store_confined (writable_at (i := 0) 0 rfl (by decide)) _
  | start op => exact startOp_confined op

/-- A call, with its value. -/
theorem value_confined (c : HalCall) : ConfinedTo c.stored (c.value p) :=
  Keeps.of_dropped (c.value_dropped ▸ halCall_confined c)

end RocketAp.Hal
