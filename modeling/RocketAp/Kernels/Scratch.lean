import RocketAp.Device.Image
import RocketAp.Kernels.Reduction
import RocketAp.Kernels.ColumnRuns

/-!
# Scratch memory in the firmware

`offload` copies `C_0` to `0x80000100` and `test_offload` uses the bytes from `0x80000200`.
Under `metal.default.lds` the first is where the region `ram` starts, and the second is in an
image that is longer than 256 bytes: both are multiples of `256`, so neither is in a gap
between two sections (`Image.owns_of_dvd`).

`ap_monitor_breakpoint` always offloads ten bytes, so `vector_ap_op_horizontal` stores into the
firmware for every size, and `accumulate_horizontal` does before its first operation; and
`test_offload` does unless its loops make no round (`scratch_iff`).
-/

namespace RocketAp.Kernels

open ProgramLogic Device Hal

variable {p : Platform} {α β : Type}

/-! ### The log of the fixed stores -/

/-- The log has been extended. -/
def Extends (s t : St) : Prop := s.fixedStores <+: t.fixedStores

instance : IsPreorder St Extends where
  refl _ := List.prefix_refl _
  trans _ _ _ h₁ h₂ := h₁.trans h₂

/-- What changes only columns stores nothing at a literal address. -/
theorem extends_of_undisturbed (s t : St) (h : Undisturbed s t) : Extends s t := by
  rw [Extends, h.fixedStores]

/-- Between `s` and the end of the program, returned from or stopped, a byte was stored at the
literal address `a`. -/
def StoresAt (m : Prog α) (s : St) (a : ℕ) : Prop :=
  ∃ l, (finalState m s).fixedStores = s.fixedStores ++ l ∧ a ∈ l

section StoresAt

variable {m : Prog α} {f : α → Prog β} {s : St} {a : ℕ}

/-- What the first part stores is stored, whatever comes after it. -/
theorem StoresAt.bind (h : StoresAt m s a) (hf : ∀ x, Keeps Extends (f x)) :
    StoresAt (m >>= f) s a := by
  obtain ⟨l, hl, ha⟩ := h
  cases hr : m s with
  | ok x t =>
    obtain ⟨l', hl'⟩ := hf x t
    have hrun : finalState (m >>= f) s = finalState (f x) t := by
      simp only [finalState, bind_run hr]
    rw [finalState_ok hr] at hl
    refine ⟨l ++ l', ?_, List.mem_append_left _ ha⟩
    rw [hrun, ← hl', hl, List.append_assoc]
  | error e t =>
    rw [finalState_error hr] at hl
    exact ⟨l, by rw [finalState_error (bind_error hr), hl], ha⟩

/-- And what comes after a first part that returns. -/
theorem StoresAt.after (hm : Returns Extends m) (hf : ∀ x t, StoresAt (f x) t a) :
    StoresAt (m >>= f) s a := by
  obtain ⟨x, t, hr, l, hl⟩ := hm s
  obtain ⟨l', hl', ha⟩ := hf x t
  have hrun : finalState (m >>= f) s = finalState (f x) t := by
    simp only [finalState, bind_run hr]
  refine ⟨l ++ l', ?_, List.mem_append_right _ ha⟩
  rw [hrun, hl', ← hl, List.append_assoc]

theorem storeFixed_stores (h : OffRegisters a 1) (v : UInt8) (s : St) :
    StoresAt (storeFixed a v) s a := by
  rw [StoresAt, finalState_ok (storeFixed_run h v s)]
  exact ⟨[a], rfl, List.mem_singleton_self a⟩

end StoresAt

/-! ### What the programs log -/

theorem load_returns (a : ℕ) : Returns Extends (load a) := fun s =>
  .of_run (load_run a s) (List.prefix_refl _)

theorem store_extends (a : ℕ) (v : UInt8) : Keeps Extends (store a v) := by
  intro s
  by_cases h : OffRegisters a 1
  · rw [finalState_ok (store_run h v s)]
    exact List.prefix_refl _
  · have hrun : store a v s = .error .registerAccess s := if_neg h
    rw [finalState_error hrun]
    exact List.prefix_refl _

theorem storeFixed_extends (a : ℕ) (v : UInt8) : Keeps Extends (storeFixed a v) :=
  (store_extends a v).bind fun _ => .of_ensures fun _ => .of_run rfl (List.prefix_append _ _)

theorem lw_extends (a : ℕ) : Keeps Extends (lw a) :=
  (load_returns _).keeps.bind fun _ => (load_returns _).keeps.bind fun _ =>
    (load_returns _).keeps.bind fun _ => (load_returns _).keeps.bind fun _ => .pure _

theorem sw_extends (a : ℕ) (w : UInt32) : Keeps Extends (sw a w) :=
  (store_extends _ _).bind fun _ => (store_extends _ _).bind fun _ =>
    (store_extends _ _).bind fun _ => store_extends _ _

theorem setModeReg_returns (w₃ w₂ w₁ w₀ : UInt32) :
    Returns Extends (p.setModeReg w₃ w₂ w₁ w₀) := fun _ => .of_run rfl (List.prefix_refl _)

theorem startComputeCycles_returns : Returns Extends p.startComputeCycles := fun _ =>
  .of_run rfl (List.prefix_refl _)

theorem endComputeCycles_returns : Returns Extends p.endComputeCycles := fun _ =>
  .of_run rfl (List.prefix_refl _)

theorem warmupAp_returns : Returns Extends (warmupAp p) := fun _ =>
  .of_run rfl (List.prefix_refl _)

/-- An operation, on a processor that completes what it starts. -/
theorem apTriggerComputingWWait_returns (hp : p.Triggers) (op : APOperations)
    (internalCol : APInternalCollunm) :
    Returns Extends (apTriggerComputingWWait p op .horizontal internalCol) :=
  .of_keeps ((apTriggerComputingWWait_keeps op .horizontal internalCol).mono extends_of_undisturbed)
    fun s => .of_run (handshake_run hp rfl rfl rfl s) trivial

theorem fillRandomVectors_returns (op : APOperations) (seed : ℤ) :
    Returns Extends (fillRandomVectors p op seed) := by
  refine .of_keeps (.forUpTo fun i _ => ?_) fun s =>
    (fillRandomVectors_filled op seed s).mono fun _ _ _ => trivial
  exact (store_extends _ _).bind fun _ => (store_extends _ _).bind fun _ => store_extends _ _

/-- The two loops stay below the registers. -/
theorem fillABCols_returns (A B : ℕ) {size : ℕ} (h : size ≤ 2 * apColSize) :
    Returns Extends (fillABCols A B size) := by
  have hw := apWindow
  have ha : Cam.a0.base = apBaseAddr := rfl
  have hb : Cam.b0.base = apBaseAddr + 2 * apColSize := rfl
  have hc : apControlRegistersBaseAddr = apBaseAddr + 6 * apColSize := rfl
  refine .bind (fun s => ?_) fun _ s => ?_
  · exact .of_run (copyBytes_run (Or.inr (Or.inl (by omega))) A s) (List.prefix_refl _)
  · exact .of_run (copyBytes_run (Or.inr (Or.inl (by omega))) B s) (List.prefix_refl _)

/-! ### The scratch bytes -/

theorem offload_extends (size : ℕ) : Keeps Extends (offload p size) :=
  (setModeReg_returns _ _ _ _).keeps.bind fun _ => .forUpTo fun _ _ =>
    (load_returns _).keeps.bind fun _ => storeFixed_extends _ _

theorem offload_returns {size : ℕ} (h : size ≤ 1024) : Returns Extends (offload p size) := by
  have hw := apWindow
  refine (setModeReg_returns _ _ _ _).bind fun _ s => ?_
  exact .of_run (copyFixed_run (Or.inr (Or.inl (by omega))) Cam.c0.base s) (List.prefix_append _ _)

/-- A loop stores what its first round does. -/
theorem forUpTo_stores {n a : ℕ} {body : ℕ → Prog Unit} (hn : 0 < n)
    (h₀ : ∀ s, StoresAt (body 0) s a) (hbody : ∀ i, Keeps Extends (body i)) (s : St) :
    StoresAt (forUpTo n body) s a := by
  induction n with
  | zero => exact absurd hn (Nat.lt_irrefl 0)
  | succ n ih =>
    rcases Nat.eq_zero_or_pos n with rfl | hpos
    · exact h₀ s
    · exact (ih hpos).bind fun _ => hbody n

theorem offload_stores {size : ℕ} (h : 0 < size) (s : St) :
    StoresAt (offload p size) s 0x80000100 := by
  refine StoresAt.after (setModeReg_returns _ _ _ _) fun _ t => ?_
  refine forUpTo_stores h (fun u => ?_) (fun _ => ?_) t
  · exact StoresAt.after (load_returns _) fun v w => storeFixed_stores (by decide) v w
  · exact (load_returns _).keeps.bind fun _ => storeFixed_extends _ _

theorem apMonitorBreakpoint_extends : Keeps Extends (apMonitorBreakpoint p) :=
  have hmode : ∀ w₃ w₂ w₁ w₀, Keeps Extends (p.setModeReg w₃ w₂ w₁ w₀) := fun _ _ _ _ =>
    (setModeReg_returns _ _ _ _).keeps
  (hmode _ _ _ _).bind fun _ => (hmode _ _ _ _).bind fun _ => (hmode _ _ _ _).bind fun _ =>
    (hmode _ _ _ _).bind fun _ => (hmode _ _ _ _).bind fun _ => (hmode _ _ _ _).bind fun _ =>
      offload_extends 10

/-- The monitor offloads. -/
theorem apMonitorBreakpoint_stores (s : St) : StoresAt (apMonitorBreakpoint p) s 0x80000100 :=
  .after (setModeReg_returns _ _ _ _) fun _ _ => .after (setModeReg_returns _ _ _ _) fun _ _ =>
    .after (setModeReg_returns _ _ _ _) fun _ _ => .after (setModeReg_returns _ _ _ _) fun _ _ =>
      .after (setModeReg_returns _ _ _ _) fun _ _ => .after (setModeReg_returns _ _ _ _) fun _ _ =>
        offload_stores (by decide) _

/-! ### The three functions -/

/-- The operation on the left, and then on the right. -/
def bothSides (p : Platform) (op : APOperations) : Prog Unit := do
  apTriggerComputingWWait p op .horizontal .left
  apTriggerComputingWWait p op .horizontal .right

/-- `vector_ap_op_horizontal` between the fill and the monitor. -/
def sizedOperations (p : Platform) (op : APOperations) (size : ℤ) : Prog Unit := do
  (if size ≤ apColSize then do
    fillABCols (p.rvAddr .a) (p.rvAddr .b) size.toNat
    p.startComputeCycles
    apTriggerComputingWWait p op .horizontal .left
    p.endComputeCycles
  else pure ())
  (if apColSize < size ∧ size ≤ apColSize * 2 then do
    fillABCols (p.rvAddr .a) (p.rvAddr .b) size.toNat
    p.startComputeCycles
    bothSides p op
    p.endComputeCycles
  else pure ())
  (if size = 2048 then do
    fillABCols (p.rvAddr .a) (p.rvAddr .b) 1024
    p.startComputeCycles
    bothSides p op
    offload p 1024
    bothSides p op
    p.endComputeCycles
  else pure ())
  (if size = 4096 then do
    fillABCols (p.rvAddr .a) (p.rvAddr .b) 1024
    p.startComputeCycles
    bothSides p op
    offload p 1024
    bothSides p op
    offload p 1024
    bothSides p op
    offload p 1024
    bothSides p op
    p.endComputeCycles
  else pure ())

theorem vectorApOpHorizontal_eq (op : APOperations) (size seed : ℤ) :
    vectorApOpHorizontal p op size seed = (do
      fillRandomVectors p op size
      sizedOperations p op size
      apMonitorBreakpoint p
      warmupAp p) := by
  unfold vectorApOpHorizontal sizedOperations
  split_ifs <;> simp only [bothSides, bind_assoc, pure_bind]

theorem bothSides_returns (hp : p.Triggers) (op : APOperations) :
    Returns Extends (bothSides p op) :=
  (apTriggerComputingWWait_returns hp op .left).bind fun _ =>
    apTriggerComputingWWait_returns hp op .right

/-- For every size: the branches fill at most the two sides of a column. -/
theorem sizedOperations_returns (hp : p.Triggers) (op : APOperations) (size : ℤ) :
    Returns Extends (sizedOperations p op size) := by
  have hsize : apColSize = 512 := rfl
  have hif : ∀ {c : Prop} [Decidable c] {m : Prog Unit}, (c → Returns Extends m) →
      Returns Extends (if c then m else pure ()) := by
    intro c _ m hm
    split
    · next hc => exact hm hc
    · exact .pure ()
  have hstart := startComputeCycles_returns (p := p)
  have hend := endComputeCycles_returns (p := p)
  have hboth := bothSides_returns hp op
  have hoffload := offload_returns (p := p) (Nat.le_refl 1024)
  have hfill : ∀ n ≤ 2 * apColSize, Returns Extends (fillABCols (p.rvAddr .a) (p.rvAddr .b) n) :=
    fun n hn => fillABCols_returns _ _ hn
  refine (hif fun hc => ?_).bind fun _ => (hif fun hc => ?_).bind fun _ =>
    (hif fun _ => ?_).bind fun _ => hif fun _ => ?_
  · exact (hfill _ (by omega)).bind fun _ => hstart.bind fun _ =>
      (apTriggerComputingWWait_returns hp op .left).bind fun _ => hend
  · exact (hfill _ (by omega)).bind fun _ => hstart.bind fun _ => hboth.bind fun _ => hend
  · exact (hfill _ (by omega)).bind fun _ => hstart.bind fun _ => hboth.bind fun _ =>
      hoffload.bind fun _ => hboth.bind fun _ => hend
  · exact (hfill _ (by omega)).bind fun _ => hstart.bind fun _ => hboth.bind fun _ =>
      hoffload.bind fun _ => hboth.bind fun _ => hoffload.bind fun _ => hboth.bind fun _ =>
        hoffload.bind fun _ => hboth.bind fun _ => hend

theorem vectorApOpHorizontal_stores (hp : p.Triggers) (op : APOperations) (size seed : ℤ)
    (s : St) : StoresAt (vectorApOpHorizontal p op size seed) s 0x80000100 := by
  rw [vectorApOpHorizontal_eq]
  refine .after (fillRandomVectors_returns op size) fun _ _ => ?_
  refine .after (sizedOperations_returns hp op size) fun _ t => ?_
  exact (apMonitorBreakpoint_stores t).bind fun _ => warmupAp_returns.keeps

/-- Before the first operation: nothing is asked of the processor. -/
theorem accumulateHorizontal_stores (s : St) :
    StoresAt (accumulateHorizontal p) s 0x80000100 := by
  have hones : Returns Extends (forUpTo apColSize fun i => do
      apStoreData (Cam.a0.base + i) 1
      apStoreData (Cam.b0.base + i) 1) := by
    refine .of_keeps (.forUpTo fun i _ => ?_) fun t => (storeOnes t).mono fun _ _ _ => trivial
    exact (sw_extends _ _).bind fun _ => sw_extends _ _
  refine .after hones fun _ t => (apMonitorBreakpoint_stores t).bind fun _ => ?_
  refine startComputeCycles_returns.keeps.bind fun _ => .bind (.forHalving fun i => ?_) fun _ =>
    endComputeCycles_returns.keeps
  have hmove : ∀ dest src, Keeps Extends (apGetDataTo dest src) := fun _ _ =>
    (lw_extends _).bind fun _ => store_extends _ _
  exact ((apTriggerComputingWWait_keeps _ _ _).mono extends_of_undisturbed).bind fun _ =>
    apMonitorBreakpoint_extends.bind fun _ => .forUpTo fun _ _ =>
      (hmove _ _).bind fun _ => hmove _ _

/-- Whatever becomes of the later loops. -/
theorem testOffload_stores {size : ℤ} (h : 0 < size) (v : ℕ) (s : St) :
    StoresAt (testOffload p size v) s 0x80000200 := by
  have hn : 0 < size.toNat := by omega
  refine StoresAt.bind (forUpTo_stores hn (fun t => ?_) (fun _ => storeFixed_extends _ _) s)
    fun _ => ?_
  · exact storeFixed_stores (by decide) _ t
  · have hstart := (startComputeCycles_returns (p := p)).keeps
    have hend := (endComputeCycles_returns (p := p)).keeps
    refine hstart.bind fun _ => .bind (.forUpTo fun _ _ => ?_) fun _ => hend.bind fun _ =>
      hstart.bind fun _ => .bind (.forUpTo fun _ _ => ?_) fun _ => hend.bind fun _ =>
        hstart.bind fun _ => .bind (.forUpTo fun _ _ => ?_) fun _ => hend
    · exact store_extends _ _
    · exact (load_returns _).keeps.bind fun _ => storeFixed_extends _ _
    · exact (load_returns _).keeps.bind fun _ => store_extends _ _

/-! ### When the firmware is left alone -/

/-- A call of one of the three functions. -/
inductive ScratchCall where
  | vectorApOpHorizontal (op : APOperations) (size seed : ℤ)
  | accumulateHorizontal
  | testOffload (size : ℤ) (v : ℕ)

def ScratchCall.exec (p : Platform) : ScratchCall → Prog Unit
  | .vectorApOpHorizontal op size seed => Kernels.vectorApOpHorizontal p op size seed
  | .accumulateHorizontal => Kernels.accumulateHorizontal p
  | .testOffload size v => Kernels.testOffload p size v

/-- No byte that the call stores at a literal address is the firmware's. -/
def LeavesFirmware (p : Platform) (img : Image) (c : ScratchCall) (s : St) : Prop :=
  ∀ a, StoresAt (c.exec p) s a → ¬ img.Owns a

/-- Without a round the loops store nothing. -/
theorem testOffload_nothing {size : ℤ} (h : size ≤ 0) (v : ℕ) (s : St) (a : ℕ) :
    ¬ StoresAt (testOffload p size v) s a := by
  have hsame : (finalState (testOffload p size v) s).fixedStores = s.fixedStores := by
    rw [testOffload, Int.toNat_of_nonpos h]
    rfl
  rintro ⟨l, hl, ha⟩
  rw [hsame] at hl
  rw [List.self_eq_append_right.mp hl] at ha
  exact List.not_mem_nil ha

/-- **The scratch memory**, in an image longer than 256 bytes. The three functions leave the
firmware alone in one case: a `test_offload` whose loops make no round. -/
theorem scratch_iff (hp : p.Triggers) (img : Image) (himg : ramOrigin + 256 < img.finish)
    (c : ScratchCall) (s : St) :
    LeavesFirmware p img c s ↔ ∃ size v, c = .testOffload size v ∧ size ≤ 0 := by
  have hfirst : img.Owns 0x80000100 :=
    img.owns_of_dvd (by decide) (by decide) (Nat.lt_of_le_of_lt (by decide) himg)
  have hsecond : img.Owns 0x80000200 := img.owns_of_dvd (by decide) (by decide) himg
  constructor
  · intro h
    cases c with
    | vectorApOpHorizontal op size seed =>
      exact absurd hfirst (h 0x80000100 (vectorApOpHorizontal_stores hp op size seed s))
    | accumulateHorizontal => exact absurd hfirst (h 0x80000100 (accumulateHorizontal_stores s))
    | testOffload size v =>
      refine ⟨size, v, rfl, ?_⟩
      by_contra hneg
      have hpos : 0 < size := Int.not_le.mp hneg
      exact h 0x80000200 (testOffload_stores hpos v s) hsecond
  · rintro ⟨size, v, rfl, hsize⟩ a ha
    exact absurd ha (testOffload_nothing hsize v s a)

/-- Four kilobytes of code, and the default stack and heap. -/
def smallImage : Image where
  size
    | .text => 0x1000
    | .stack => 0x400
    | .heap => 0x800
    | _ => 0
  align _ := 4
  align_dvd _ := by decide

theorem smallImage_long : ramOrigin + 256 < smallImage.finish := by decide

theorem scratch_empty :
    LeavesFirmware (.reference 2) smallImage (.testOffload 0 0) (.rest someMem) :=
  (scratch_iff (Platform.reference_triggers 2) smallImage smallImage_long _ _).mpr
    ⟨0, 0, rfl, Int.le_refl 0⟩

/-- The first size of `test_vector_ap_op_horizontal`: the first instructions are lost. -/
theorem scratch_vector :
    ramOrigin + 256 < smallImage.finish ∧
      ¬ LeavesFirmware (.reference 2) smallImage (.vectorApOpHorizontal .not 32 14)
        (.rest someMem) := by
  refine ⟨smallImage_long, fun h => ?_⟩
  refine h 0x80000100 (vectorApOpHorizontal_stores (Platform.reference_triggers 2) .not 32 14 _) ?_
  exact smallImage.owns_of_dvd (by decide) (by decide) (by decide)

end RocketAp.Kernels
