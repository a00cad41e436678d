import RocketAp.Kernels.Chunks
import RocketAp.Kernels.ColumnRuns
import RocketAp.Kernels.Frames
import RocketAp.Kernels.Reduction
import RocketAp.Kernels.Tests

/-!
# Vectors on the processor and on the CPU

`cpu_tests.h` has a kernel for each of the seven operations, `ap_tests.h` one for all of them.
For a column of elements they agree: from whatever states they start, `r_v_mgmt` is the same
after both, and what `vector_ap_op_horizontal` offloads are the first of its results
(`vectorKernels_agree`). `vector_cpu_op` is none of them: whatever it is given it multiplies a
column of elements (`vectorCpuOp_done`).
-/

namespace RocketAp.Kernels

open ProgramLogic Device Hal

variable {p : Platform} {op : APOperations} {s t u : St}

/-! ### On the CPU -/

/-- The kernel of `cpu_tests.h` for an operation, if it has one. -/
def cpuKernel (p : Platform) : APOperations → Prog Unit
  | .or => vectorCpuOpKernelOr p
  | .xor => vectorCpuOpKernelXor p
  | .and => vectorCpuOpKernelAnd p
  | .not => vectorCpuOpKernelNot p
  | .add => vectorCpuOpKernelAdd p
  | .sub => vectorCpuOpKernelSub p
  | .mult => vectorCpuOpKernelMult p
  | _ => pure ()

/-- The result for element `i` of the generated vectors. -/
def generatedResult (op : APOperations) (seed : ℤ) (i : ℕ) : UInt8 :=
  apUnitTestSw op (randomA op seed i) (randomB op seed i)

/-- `A` and `B` are the generated vectors. -/
structure Generated (p : Platform) (op : APOperations) (seed : ℤ) (s : St) : Prop where
  a : ∀ i < randomVectorsSize, p.vec s .a i = randomA op seed i
  b : ∀ i < randomVectorsSize, p.vec s .b i = randomB op seed i

/-- And `C` their results. -/
structure Computed (p : Platform) (op : APOperations) (seed : ℤ) (s : St) : Prop
    extends Generated p op seed s where
  c : ∀ i < randomVectorsSize, p.vec s .c i = generatedResult op seed i

theorem Generated.result {seed : ℤ} (h : Generated p op seed s) {i : ℕ}
    (hi : i < randomVectorsSize) :
    apUnitTestSw op (p.vec s .a i) (p.vec s .b i) = generatedResult op seed i := by
  rw [h.a i hi, h.b i hi, generatedResult]

theorem Generated.congr {seed : ℤ} (h : Generated p op seed s)
    (ht : ∀ v ≠ .c, ∀ i < randomVectorsSize, p.vec t v i = p.vec s v i) :
    Generated p op seed t :=
  ⟨fun i hi => (ht .a nofun i hi).trans (h.a i hi), fun i hi => (ht .b nofun i hi).trans (h.b i hi)⟩

/-- A program that computes the result for element `i`, and writes nothing. -/
def ComputesElement (p : Platform) (op : APOperations) (f : ℕ → Prog UInt8) : Prop :=
  ∀ i s, Ensures (f i) s fun v t =>
    v = apUnitTestSw op (p.vec s .a i) (p.vec s .b i) ∧ t.mem = s.mem

/-- A loop of a kernel: it may be repeated. -/
theorem vectorCpuOpLoop_done {seed : ℤ} {f : ℕ → Prog UInt8} (hf : ComputesElement p op f)
    (hs : Generated p op seed s) :
    Ensures (vectorCpuOpLoop p f) s fun _ t => Computed p op seed t := by
  have hloop : Ensures (vectorCpuOpLoop p f) s fun _ t => Generated p op seed t ∧
      ∀ i < randomVectorsSize, p.vec t .c i = generatedResult op seed i := by
    refine Ensures.forUpTo (fun j t => Generated p op seed t ∧
      ∀ i < j, p.vec t .c i = generatedResult op seed i) ⟨hs, nofun⟩ ?_
    rintro j hj t ⟨ht, hc⟩
    refine .bind (hf j t) fun v w h => ?_
    obtain ⟨hv, hw⟩ := h
    have hvec : ∀ v i, p.vec w v i = p.vec t v i := fun v i => by
      rw [Platform.vec, hw, Platform.vec]
    apply (p.writeVec_ensures .c v hj w).mono
    rintro _ x ⟨-, hx⟩
    refine ⟨ht.congr fun v hvc i hi => ?_, ?_⟩
    · rw [hx v i hi, if_neg fun h => hvc h.1, hvec]
    · refine filled_succ hj hc fun i hi => ?_
      rw [hx .c i hi, hvec, hv, ht.result hj]
      simp
  exact hloop.mono fun _ _ h => ⟨h.1, h.2⟩

theorem fillRandomVectors_generated (op : APOperations) (seed : ℤ) (s : St) :
    Ensures (fillRandomVectors p op seed) s fun _ t => Generated p op seed t :=
  (fillRandomVectors_filled op seed s).mono fun _ _ h => ⟨h.a, h.b⟩

/-- The cycle record is not in memory. -/
theorem startComputeCycles_mem (s : St) :
    Ensures p.startComputeCycles s fun _ t => t.mem = s.mem := .of_run rfl rfl

theorem endComputeCycles_mem (s : St) :
    Ensures p.endComputeCycles s fun _ t => t.mem = s.mem ∧ t.control = s.control :=
  .of_run rfl ⟨rfl, rfl⟩

theorem Generated.of_mem {seed : ℤ} (h : Generated p op seed s) (ht : t.mem = s.mem) :
    Generated p op seed t := h.congr fun v _ i _ => by rw [Platform.vec, ht, Platform.vec]

theorem Computed.of_mem {seed : ℤ} (h : Computed p op seed s) (ht : t.mem = s.mem) :
    Computed p op seed t :=
  ⟨h.toGenerated.of_mem ht, fun i hi => by rw [Platform.vec, ht]; exact h.c i hi⟩

theorem vectorCpuOpKernel_done {f : ℕ → Prog UInt8} (hf : ComputesElement p op f) (s : St) :
    Ensures (vectorCpuOpKernel p op f) s fun _ t => Computed p op randomVectorsSize t := by
  refine .bind (fillRandomVectors_generated op _ s) fun _ t₀ h₀ => ?_
  refine .bind (startComputeCycles_mem t₀) fun _ t ht => ?_
  refine .bind (vectorCpuOpLoop_done hf (h₀.of_mem ht)) fun _ t₁ h₁ => ?_
  refine .bind (vectorCpuOpLoop_done hf h₁.toGenerated) fun _ t₂ h₂ => ?_
  refine .bind (vectorCpuOpLoop_done hf h₂.toGenerated) fun _ t₃ h₃ => ?_
  refine .bind (vectorCpuOpLoop_done hf h₃.toGenerated) fun _ t₄ h₄ => ?_
  exact (endComputeCycles_mem t₄).mono fun _ _ hu => h₄.of_mem hu.1

/-- An element from one of `A` and one of `B`. -/
theorem elements_compute {f : UInt8 → UInt8 → UInt8} (hf : f = apUnitTestSw op) :
    ComputesElement p op fun i => do return f (← p.readVec .a i) (← p.readVec .b i) :=
  fun _ _ => .of_run rfl ⟨congrFun (congrFun hf _) _, rfl⟩

theorem cpuKernel_done (hrow : op.rowwise) (s : St) :
    Ensures (cpuKernel p op) s fun _ t => Computed p op randomVectorsSize t := by
  cases op with
  | set | search | addD => cases hrow
  | or => exact vectorCpuOpKernel_done (elements_compute (f := (· ||| ·)) rfl) s
  | xor => exact vectorCpuOpKernel_done (elements_compute (f := (· ^^^ ·)) rfl) s
  | and => exact vectorCpuOpKernel_done (elements_compute (f := (· &&& ·)) rfl) s
  | add => exact vectorCpuOpKernel_done (elements_compute (f := (· + ·)) rfl) s
  | sub => exact vectorCpuOpKernel_done (elements_compute (f := (· - ·)) rfl) s
  | mult => exact vectorCpuOpKernel_done (elements_compute (f := (· * ·)) rfl) s
  | not =>
    have hnot : ComputesElement p .not fun i => do return ~~~(← p.readVec .a i) := fun _ _ =>
      .of_run rfl ⟨rfl, rfl⟩
    exact vectorCpuOpKernel_done hnot s

/-- What `vector_cpu_op` is given does not matter. -/
theorem vectorCpuOp_done (seed : Int8) (size : ℕ) (s : St) :
    Ensures (vectorCpuOp p seed size) s fun _ t => Computed p .mult randomVectorsSize t := by
  refine .bind (fillRandomVectors_generated .add size s) fun _ t _ => ?_
  refine .bind (startComputeCycles_mem t) fun _ t₁ _ => ?_
  have hmult : APOperations.mult.rowwise := rfl
  refine .bind (cpuKernel_done hmult t₁) fun _ t₂ h₂ => ?_
  exact (endComputeCycles_mem t₂).mono fun _ _ hu => h₂.of_mem hu.1

/-! ### On the processor -/

theorem rvAddr_fits (hfits : p.rvMgmt + 3 * randomVectorsSize ≤ 2 ^ 32) (v : RvVec) :
    p.rvAddr v + randomVectorsSize ≤ 2 ^ 32 := by
  cases v <;> simp only [Platform.rvAddr] <;> omega

/-- `A` and `B` are before `C`. -/
theorem rvAddr_before_c {v : RvVec} (hv : v ≠ .c) : p.rvAddr .c + randomVectorsSize ≤ p.rvAddr v ∨
    p.rvAddr v + randomVectorsSize ≤ p.rvAddr .c := by
  cases v with
  | c => exact absurd rfl hv
  | _ =>
    simp only [Platform.rvAddr]
    omega

theorem randomVectors_isInt : randomVectorsSize + apColSize < 2 ^ 31 := by decide

/-- The vectors of `r_v_mgmt` as the buffers of the kernel. -/
def rvArgs (p : Platform) (hfits : p.rvMgmt + 3 * randomVectorsSize ≤ 2 ^ 32) :
    Args randomVectorsSize randomVectorsSize randomVectorsSize randomVectorsSize where
  A := ⟨p.rvAddr .a, rvAddr_fits hfits .a, p.rvAddr_apart .a⟩
  B := ⟨p.rvAddr .b, rvAddr_fits hfits .b, p.rvAddr_apart .b⟩
  C := ⟨p.rvAddr .c, rvAddr_fits hfits .c, p.rvAddr_apart .c⟩
  fitsA := Nat.le_refl randomVectorsSize
  fitsB := Nat.le_refl randomVectorsSize
  fitsC := Nat.le_refl randomVectorsSize
  apartA := rvAddr_before_c (v := .a) nofun
  apartB := rvAddr_before_c (v := .b) nofun
  isInt := randomVectors_isInt

/-- An element of `A` or `B` is not in the columns and not in `C`. -/
theorem vec_not_writable {v : RvVec} (hv : v ≠ .c) {i : ℕ} (hi : i < randomVectorsSize) :
    p.rvAddr v + i ∉ writable [(p.rvAddr .c, randomVectorsSize)] := by
  have hap := p.rvAddr_apart v
  have hw := apWindow
  rintro (⟨hlo, hhi⟩ | hin)
  · omega
  · rw [mem_covered_singleton] at hin
    cases v with
    | c => exact hv rfl
    | _ =>
      simp only [Platform.rvAddr] at hin
      omega

theorem vectorApOpKernelHorizontal_computed (hp : p.Triggers) (hr : p.Resets)
    (hop : p.RunsRowwise op) (hfits : p.rvMgmt + 3 * randomVectorsSize ≤ 2 ^ 32) {seed : ℤ}
    (hs : Generated p op seed s) :
    Ensures (vectorApOpKernelHorizontal p op (p.rvAddr .a) (p.rvAddr .b) (p.rvAddr .c)
      randomVectorsSize) s fun _ t => Computed p op seed t := by
  have hcomputes := (computes_iff (x := rvArgs p hfits) hp hr hop s).mpr
    (chunksAgree_of_le (Nat.le_refl _) s)
  obtain ⟨_, t, hrun, hc, -, -⟩ := hcomputes
  have hframe := (vectorApOpKernelHorizontal_confined op (p.rvAddr .a) (p.rvAddr .b) (p.rvAddr .c)
    randomVectorsSize).ifReturns s _ t hrun
  refine .of_run hrun ⟨hs.congr fun v hv i hi => hframe _ (vec_not_writable hv hi), fun i hi => ?_⟩
  exact (hc i hi).trans (hs.result hi)

/-- A `MODE` write with no reset on, and what follows it. -/
theorem mode_then_quiet (hr : p.Resets) (hs : noReset s.control) {m : Prog Unit}
    {Q : Unit → St → Prop} (h : ∀ u, noReset u.control → u.cams = s.cams → Ensures m u Q)
    (w : UInt32) : Ensures (do p.writeMode w; m) s Q :=
  .step rfl (h _ hs ((Changed.refl s).mode_quiet hr hs w).cams)

/-- What is offloaded are the rows of `C_0`. -/
theorem offload_rows (hr : p.Resets) (hs : noReset s.control) {size : ℕ}
    (hsize : size ≤ apColSize) :
    Ensures (offload p size) s fun _ t => ∀ i < size, t.mem (0x80000100 + i) = s.row .c0 i := by
  have hw := apWindow
  have hbase := Cam.c0.base_ge
  refine mode_then_quiet hr hs (fun u _ hu => ?_) _
  refine .of_run (copyFixed_run (Or.inr (Or.inl (by omega))) Cam.c0.base u) fun i hi => ?_
  refine (copyLoop_at _ (by omega) hi).trans ?_
  exact congrFun (congrFun hu .c0) ⟨i, by omega⟩

/-- The monitor offloads the first of them. -/
theorem apMonitorBreakpoint_rows (hr : p.Resets) (hs : noReset s.control) :
    Ensures (apMonitorBreakpoint p) s fun _ t =>
      ∀ i < 10, t.mem (0x80000100 + i) = s.row .c0 i := by
  have hsize : 10 ≤ apColSize := by decide
  refine mode_then_quiet hr hs (fun u₁ h₁ e₁ => ?_) _
  refine mode_then_quiet hr h₁ (fun u₂ h₂ e₂ => ?_) _
  refine mode_then_quiet hr h₂ (fun u₃ h₃ e₃ => ?_) _
  refine mode_then_quiet hr h₃ (fun u₄ h₄ e₄ => ?_) _
  refine mode_then_quiet hr h₄ (fun u₅ h₅ e₅ => ?_) _
  refine mode_then_quiet hr h₅ (fun u₆ h₆ e₆ => ?_) _
  have hcams : u₆.cams = s.cams := by rw [e₆, e₅, e₄, e₃, e₂, e₁]
  apply (offload_rows hr h₆ hsize).mono
  intro _ t ht i hi
  rw [ht i hi]
  exact congrFun (congrFun hcams .c0) ⟨i, by omega⟩

/-- `vector_ap_op_horizontal` for sizes up to a column: it offloads the first results. -/
theorem vectorApOpHorizontal_offloads (hp : p.Triggers) (hr : p.Resets)
    (hop : p.RunsRowwise op) {size : ℕ} (hsize : size ≤ apColSize) (seed : ℤ) (s : St) :
    Ensures (vectorApOpHorizontal p op size seed) s fun _ t =>
      ∀ i < 10, i < size → t.mem (0x80000100 + i) = generatedResult op size i := by
  have hw := apWindow
  have hcol : apColSize = 512 := rfl
  have hvec : randomVectorsSize = 512 := rfl
  have hap := p.rvMgmt_apart
  have hbaseA : (namedCam .camA .left).base = apBaseAddr := rfl
  have hbaseB : (namedCam .camB .left).base = apBaseAddr + 2 * apColSize := rfl
  have hfill : fillSize size = size := Nat.min_eq_left (by omega)
  rw [vectorApOpHorizontal_phases op (.inl (by omega)) seed, hfill]
  refine .bind (fillRandomVectors_generated op size s) fun _ s₁ h₁ => ?_
  refine .bind (fillCol_filled .camA (v := .a) nofun (by omega) s₁) fun _ s₂ hA => ?_
  refine .bind (fillCol_filled .camB (v := .b) nofun (by omega) s₂) fun _ s₃ hB => ?_
  have ha : ∀ i < size, s₃.row .a0 i = p.vec s₁ .a i := fun i hi =>
    (hB.only ((namedCam .camA .left).base + i) (by omega)).trans (hA.bytes i hi)
  have hb : ∀ i < size, s₃.row .b0 i = p.vec s₁ .b i := fun i hi => by
    refine (hB.bytes i hi).trans (hA.only _ ?_)
    simp only [Platform.rvAddr, randomVectorsSize]
    omega
  have hphase : computePhase p op size = (do
      p.startComputeCycles
      apTriggerComputingWWait p op .horizontal .left
      p.endComputeCycles) := by
    rw [computePhase, if_pos (by omega)]
  simp only [hphase, bind_assoc]
  refine .bind (startComputeCycles_changed (Changed.refl s₃)) fun _ s₄ h₄ => ?_
  refine .bind (rowwise_left_ran hp hr hop s₄) fun _ s₅ h₅ => ?_
  refine .bind (endComputeCycles_mem s₅) fun _ s₆ h₆ => ?_
  obtain ⟨hmem, hcontrol⟩ := h₆
  have hquiet : noReset s₆.control := by
    rw [hcontrol, h₅.control]
    exact noReset_zero
  refine .bind (apMonitorBreakpoint_rows hr hquiet) fun _ s₇ h₇ => ?_
  refine (warmupAp_ran hr s₇).mono fun _ t ht i hi hlt => ?_
  have hrow : s₆.row .c0 i = apUnitTestSw op (s₃.row .a0 i) (s₃.row .b0 i) := by
    have hi' : i < apColSize := by omega
    have hcams : s₆.cams = s₅.cams := congrArg camsOf hmem
    rw [St.row_eq s₆ .c0 hi', hcams, h₅.cams, Function.update_self, h₄.cams]
    rfl
  rw [ht.outside _ fun hin => by
    have hlo := hin.1
    omega, h₇ i hi, hrow, ha i hlt, hb i hlt]
  exact h₁.result (by omega)

/-- **Vectors on the processor and on the CPU.** For a column of elements, whatever the states
they start from, the kernel of the CPU and the kernel of the processor leave one `A`, one `B` and
one `C`, and what `vector_ap_op_horizontal` offloads are the first ten elements of that `C`. -/
theorem vectorKernels_agree (hp : p.Triggers) (hr : p.Resets) (hop : p.RunsRowwise op)
    (hrow : op.rowwise) (hfits : p.rvMgmt + 3 * randomVectorsSize ≤ 2 ^ 32) (seed : ℤ)
    (s t u : St) :
    Ensures (cpuKernel p op) s fun _ s' =>
      (∀ i < randomVectorsSize, p.vec s' .c i = generatedResult op randomVectorsSize i) ∧
      Ensures (do fillRandomVectors p op randomVectorsSize
                  vectorApOpKernelHorizontal p op (p.rvAddr .a) (p.rvAddr .b) (p.rvAddr .c)
                    randomVectorsSize) t
        (fun _ t' => ∀ v, ∀ i < randomVectorsSize, p.vec t' v i = p.vec s' v i) ∧
      Ensures (vectorApOpHorizontal p op randomVectorsSize seed) u
        fun _ u' => ∀ i < 10, u'.mem (0x80000100 + i) = p.vec s' .c i := by
  refine (cpuKernel_done hrow s).mono fun _ s' hs => ⟨hs.c, ?_, ?_⟩
  · refine .bind (fillRandomVectors_generated op _ t) fun _ t₁ h₁ => ?_
    refine (vectorApOpKernelHorizontal_computed hp hr hop hfits h₁).mono fun _ t' ht v i hi => ?_
    cases v with
    | a => rw [ht.a i hi, hs.a i hi]
    | b => rw [ht.b i hi, hs.b i hi]
    | c => rw [ht.c i hi, hs.c i hi]
  · apply (vectorApOpHorizontal_offloads hp hr hop (Nat.le_refl _) seed u).mono
    intro _ u' hu i hi
    have hlt : i < randomVectorsSize := Nat.lt_trans hi (by decide)
    rw [hs.c i hlt]
    exact hu i hi hlt

/-- Products, with different contents of memory to start from. -/
theorem vectorKernels_agree_mult :
    Ensures (cpuKernel (.reference 2) .mult) (.rest someMem) fun _ s' =>
      (∀ i < randomVectorsSize, (Platform.reference 2).vec s' .c i =
        generatedResult .mult randomVectorsSize i) ∧
      Ensures (do fillRandomVectors (.reference 2) .mult randomVectorsSize
                  vectorApOpKernelHorizontal (.reference 2) .mult
                    ((Platform.reference 2).rvAddr .a) ((Platform.reference 2).rvAddr .b)
                    ((Platform.reference 2).rvAddr .c) randomVectorsSize) (.rest fun _ => 0)
        (fun _ t' => ∀ v, ∀ i < randomVectorsSize,
          (Platform.reference 2).vec t' v i = (Platform.reference 2).vec s' v i) ∧
      Ensures (vectorApOpHorizontal (.reference 2) .mult randomVectorsSize 14)
        (.rest fun a => a.toUInt8)
        fun _ u' => ∀ i < 10, u'.mem (0x80000100 + i) = (Platform.reference 2).vec s' .c i :=
  vectorKernels_agree (Platform.reference_triggers 2) (Platform.reference_resets 2)
    (Platform.reference_runsRowwise 2 rfl) rfl (by decide) 14 _ _ _

end RocketAp.Kernels
