import RocketAp.Hal.Agreement
import RocketAp.Kernels.Tests

/-!
# Two runs of the firmware

Where the layer does the same on two processors, every function above it does: each is made
of accesses to memory and calls of the layer, by sequencing, tests and loops, and so is the
proof. The functions that leave the processor alone come first: all they need is that memory
does the same. The functions that run a vertical operation, write registers themselves or
count polls are apart (`Kernel.Vertical`, `Kernel.polls`): they need more than an `Agreement`.
-/

namespace RocketAp.Kernels

open ProgramLogic Device Hal

variable {p q : Platform} {R : St → St → Prop} {E : Stuck → St → St → Prop}

/-! ### Functions that leave the processor alone -/

section Memory

variable (h : MemoryAgreement R E p q)
include h

theorem fillLoop_agrees (dst n : ℕ) (f : ℕ → UInt8) :
    Matches R R E (forUpTo n fun i => store (dst + i) (f i))
      (forUpTo n fun i => store (dst + i) (f i)) :=
  .forUpTo fun _ => h.store _ _

theorem fillRandomVectors_agrees (op : APOperations) (seed : ℤ) :
    Matches R R E (fillRandomVectors p op seed) (fillRandomVectors q op seed) :=
  .forUpTo fun _ => (h.writeVec _ _ _).bind fun _ => (h.writeVec _ _ _).bind fun _ =>
    h.writeVec _ _ _

theorem checksum_agrees (arr size : ℕ) : Matches R R E (checksum arr size) (checksum arr size) :=
  .forAcc fun _ _ => (h.load _).bind fun _ => .pure _

theorem apMonitor_agrees (mon elements : ℕ) :
    Matches R R E (apMonitor mon elements) (apMonitor mon elements) :=
  .ite (fun _ => .pure ()) fun _ =>
    (h.copyLoop _ _ _).bind fun _ => (h.copyLoop _ _ _).bind fun _ =>
      (h.copyLoop _ _ _).bind fun _ => (h.copyLoop _ _ _).bind fun _ =>
        (h.copyLoop _ _ _).bind fun _ => h.copyLoop _ _ _

theorem accumKernel_agrees (sum A size : ℕ) :
    Matches R R E (accumKernel sum A size) (accumKernel sum A size) :=
  (Matches.forUpTo fun _ => (h.load _).bind fun _ => (h.load _).bind fun _ => h.store _ _).bind
    fun _ => h.load _

theorem fillABCols_agrees (A B size : ℕ) :
    Matches R R E (fillABCols A B size) (fillABCols A B size) :=
  (h.copyLoop _ _ _).bind fun _ => h.copyLoop _ _ _

theorem accumDataManipulation_agrees (size : ℕ) :
    Matches R R E (accumDataManipulation size) (accumDataManipulation size) :=
  .forUpTo fun _ => (h.call (c := .apGetDataTo _ _) trivial).bind fun _ =>
    h.call (c := .apGetDataTo _ _) trivial

theorem testOffload_agrees (size : ℤ) (v : ℕ) :
    Matches R R E (testOffload p size v) (testOffload q size v) :=
  (Matches.forUpTo fun _ => h.storeFixed _ _).bind fun _ =>
    h.startComputeCycles.bind fun _ => (fillLoop_agrees h _ _ _).bind fun _ =>
      h.endComputeCycles.bind fun _ => h.startComputeCycles.bind fun _ =>
        (Matches.forUpTo fun _ => (h.load _).bind fun _ => h.storeFixed _ _).bind fun _ =>
          h.endComputeCycles.bind fun _ => h.startComputeCycles.bind fun _ =>
            (h.copyLoop _ _ _).bind fun _ => h.endComputeCycles

theorem mmColsSetup_agrees (m n index : ℕ) :
    Matches R R E (mmColsSetup p m n index) (mmColsSetup q m n index) :=
  .forUpTo fun _ => .forUpTo fun _ => (h.readVec _ _).bind fun _ => (h.store _ _).bind fun _ =>
    (h.readVec _ _).bind fun _ => h.store _ _

theorem mmColsSetup2_agrees (cSize m n k index : ℕ) :
    Matches R R E (mmColsSetup2 p cSize m n k index) (mmColsSetup2 q cSize m n k index) :=
  (Matches.forAcc fun _ _ => (h.readVec _ _).bind fun _ => (h.store _ _).bind fun _ =>
    (h.readVec _ _).bind fun _ => (h.store _ _).bind fun _ =>
      .ite (fun _ => .pure _) fun _ => .pure _).bind fun _ => .pure ()

theorem matmulCpu_agrees (m k n : ℕ) : Matches R R E (matmulCpu p m k n) (matmulCpu q m k n) :=
  .forUpTo fun _ => .forUpTo fun _ =>
    (Matches.forAcc fun _ _ => (h.readVec _ _).bind fun _ => (h.readVec _ _).bind fun _ =>
      .pure _).bind fun _ => h.writeVec _ _ _

theorem sgemmGolden_agrees (m k n a b c : ℕ) :
    Matches R R E (sgemmGolden m k n a b c) (sgemmGolden m k n a b c) :=
  .forUpTo fun _ => .forUpTo fun _ => .forUpTo fun _ => (h.load _).bind fun _ =>
    (h.load _).bind fun _ => (h.load _).bind fun _ => h.store _ _

theorem element_agrees (a i k : ℕ) : Matches R R E (element a i k) (element a i k) :=
  (h.lw _).bind fun _ => h.load _

theorem matmulGolden_agrees (a b c n m o : ℕ) :
    Matches R R E (matmulGolden a b c n m o) (matmulGolden a b c n m o) :=
  .forUpTo fun _ => .forUpTo fun _ => (h.lw _).bind fun _ => (h.store _ _).bind fun _ =>
    .forUpTo fun _ => (element_agrees h _ _ _).bind fun _ => (element_agrees h _ _ _).bind fun _ =>
      (element_agrees h _ _ _).bind fun _ => (h.lw _).bind fun _ => h.store _ _

theorem pointerApRwTest_agrees : Matches R R E pointerApRwTest pointerApRwTest := by
  have hdelay := h.call (c := .tinyDelay 1) trivial
  exact (Matches.forUpTo fun _ => (h.store _ _).bind fun _ => hdelay).bind fun _ =>
    (Matches.forUpTo fun _ => (h.load _).bind fun _ => (h.storeFixed _ _).bind fun _ =>
      hdelay).bind fun _ => .forUpTo fun _ => (h.load _).bind fun _ =>
        (h.storeFixed _ _).bind fun _ => hdelay

theorem testingInternalCols_agrees (result : ℕ) :
    Matches R R E (testingInternalCols result) (testingInternalCols result) := by
  have hdelay := h.call (c := .tinyDelay 1) trivial
  exact (Matches.forUpTo fun _ => (h.store _ _).bind fun _ => hdelay).bind fun _ =>
    .forUpTo fun _ => (h.load _).bind fun _ => (h.store _ _).bind fun _ => hdelay

theorem apiRWRound_agrees (buffer bufferRead : ℕ) (col : APCollunm) (ic : APInternalCollunm)
    (off : ℕ) : Matches R R E (apiRWRound buffer bufferRead col ic off)
      (apiRWRound buffer bufferRead col ic off) :=
  (fillLoop_agrees h _ _ _).bind fun _ => (h.call (c := .apWriteVector ..) trivial).bind fun _ =>
    h.call (c := .apReadVector ..) trivial

theorem apiRWApTest_agrees (buffer bufferRead : ℕ) :
    Matches R R E (apiRWApTest buffer bufferRead) (apiRWApTest buffer bufferRead) :=
  (apiRWRound_agrees h _ _ _ _ _).bind fun _ => (apiRWRound_agrees h _ _ _ _ _).bind fun _ =>
    (apiRWRound_agrees h _ _ _ _ _).bind fun _ => (apiRWRound_agrees h _ _ _ _ _).bind fun _ =>
      (apiRWRound_agrees h _ _ _ _ _).bind fun _ => apiRWRound_agrees h _ _ _ _ _

theorem apMemcpyTest_agrees : Matches R R E (apMemcpyTest p) (apMemcpyTest q) := by
  rw [apMemcpyTest, apMemcpyTest]
  simp only [h.rvAddr]
  exact h.startComputeCycles.bind fun _ => (h.memcpy _ _ _).bind fun _ => h.endComputeCycles

theorem saxpyGolden_agrees (n : ℕ) (a : UInt8) (x y : ℕ) :
    Matches R R E (saxpyGolden n a x y) (saxpyGolden n a x y) :=
  .forUpTo fun _ => (h.load _).bind fun _ => (h.load _).bind fun _ => h.store _ _

theorem reduceGolden_agrees (a b resultSum resultCount n : ℕ) :
    Matches R R E (reduceGolden a b resultSum resultCount n)
      (reduceGolden a b resultSum resultCount n) := by
  refine Matches.bind (.forAcc fun _ _ => (h.load _).bind fun _ => .ite (fun _ =>
    (h.load _).bind fun _ => (h.load _).bind fun _ => .pure _) fun _ => .pure _) fun _ => ?_
  exact (h.store _ _).bind fun _ => h.store _ _

theorem indexGolden_agrees (a b c n : ℕ) :
    Matches R R E (indexGolden a b c n) (indexGolden a b c n) :=
  .forUpTo fun _ => (h.load _).bind fun _ => (h.load _).bind fun _ => h.store _ _

theorem vectorCpuOpKernel_agrees (op : APOperations) {f f' : ℕ → Prog UInt8}
    (hf : ∀ i, Matches R R E (f i) (f' i)) :
    Matches R R E (vectorCpuOpKernel p op f) (vectorCpuOpKernel q op f') := by
  have hloop : Matches R R E (vectorCpuOpLoop p f) (vectorCpuOpLoop q f') :=
    .forUpTo fun i => (hf i).bind fun _ => h.writeVec _ _ _
  exact (fillRandomVectors_agrees h _ _).bind fun _ => h.startComputeCycles.bind fun _ =>
    hloop.bind fun _ => hloop.bind fun _ => hloop.bind fun _ => hloop.bind fun _ =>
      h.endComputeCycles

/-- An element that is computed from one of `A` and one of `B`. -/
theorem elements_agrees (f : UInt8 → UInt8 → UInt8) (i : ℕ) :
    Matches R R E (do return f (← p.readVec .a i) (← p.readVec .b i))
      (do return f (← q.readVec .a i) (← q.readVec .b i)) :=
  (h.readVec _ _).bind fun _ => (h.readVec _ _).bind fun _ => .pure _

theorem vectorCpuOp_agrees (seed : Int8) (size : ℕ) :
    Matches R R E (vectorCpuOp p seed size) (vectorCpuOp q seed size) :=
  (fillRandomVectors_agrees h _ _).bind fun _ => h.startComputeCycles.bind fun _ =>
    (vectorCpuOpKernel_agrees h _ (elements_agrees h (· * ·))).bind fun _ => h.endComputeCycles

theorem testVectorCpuOp_agrees : Matches R R E (testVectorCpuOp p) (testVectorCpuOp q) :=
  (Matches.mapM fun _ _ => vectorCpuOp_agrees h _ _).bind fun _ => .pure ()

theorem testAccum_agrees (sum : ℕ) : Matches R R E (testAccum p sum) (testAccum q sum) := by
  rw [testAccum, testAccum]
  simp only [h.rvAddr]
  exact (Matches.forUpTo fun _ => h.writeVec _ _ _).bind fun _ =>
    h.startComputeCycles.bind fun _ => (accumKernel_agrees h _ _ _).bind fun _ =>
      h.endComputeCycles.bind fun _ => .pure _

theorem cpuSearchTest_agrees : Matches R R E (cpuSearchTest p) (cpuSearchTest q) :=
  (Matches.forUpTo fun _ => h.writeVec _ _ _).bind fun _ => (h.writeVec _ _ _).bind fun _ =>
    h.startComputeCycles.bind fun _ => (Matches.forUpTo fun _ => (h.readVec _ _).bind fun _ =>
      .ite (fun _ => h.writeVec _ _ _) fun _ => h.writeVec _ _ _).bind fun _ => h.endComputeCycles

theorem sgemmGoldenCpuTest_agrees :
    Matches R R E (sgemmGoldenCpuTest p) (sgemmGoldenCpuTest q) := by
  have w := h.writeVec
  refine (w _ _ _).bind fun _ => (w _ _ _).bind fun _ => (w _ _ _).bind fun _ =>
    (w _ _ _).bind fun _ => (w _ _ _).bind fun _ => (w _ _ _).bind fun _ =>
    (w _ _ _).bind fun _ => (w _ _ _).bind fun _ => (w _ _ _).bind fun _ =>
    (w _ _ _).bind fun _ => (w _ _ _).bind fun _ => (w _ _ _).bind fun _ =>
    (w _ _ _).bind fun _ => (w _ _ _).bind fun _ => (w _ _ _).bind fun _ =>
    (w _ _ _).bind fun _ => (w _ _ _).bind fun _ => (w _ _ _).bind fun _ =>
    (w _ _ _).bind fun _ => (w _ _ _).bind fun _ => (w _ _ _).bind fun _ => ?_
  exact h.startComputeCycles.bind fun _ => (Matches.forUpTo fun _ => .forUpTo fun _ =>
    .forUpTo fun _ => (h.readVec _ _).bind fun _ => (h.readVec _ _).bind fun _ =>
      (h.readVec _ _).bind fun _ => w _ _ _).bind fun _ => h.endComputeCycles

end Memory

/-! ### Functions that use it -/

/-- In `ap_computing_horizontal_test` the operation of `ap_computing` and the wait for it are one
piece. -/
theorem apComputingHorizontalTest_eq (p : Platform) (op : APOperations)
    (internalCol : APInternalCollunm) (seed : UInt8) (A B : ℕ) :
    apComputingHorizontalTest p op internalCol seed A B = (do
      forUpTo apColSize fun i => do
        store (A + i) (testA op seed i)
        store (B + i) (testB op seed i)
      computeTimed p op internalCol A B apColSize
      let equal ← allUpTo apColSize fun i => do
        let a ← load (A + i)
        let b ← load (B + i)
        let apOp ← load (Cam.c0.base + i)
        return apOp = apUnitTestSw op a b
      if equal then return 1
      return 0) := by
  simp only [apComputingHorizontalTest, computeTimed, bind_assoc]

section Columns

variable (h : Agreement R E p q)
include h

theorem offload_agrees (size : ℕ) : Matches R R E (offload p size) (offload q size) :=
  (h.writeMode _).bind fun _ =>
    .forUpTo fun _ => (h.load _).bind fun v => h.storeFixed _ v

theorem apMonitorBreakpoint_agrees :
    Matches R R E (apMonitorBreakpoint p) (apMonitorBreakpoint q) :=
  (h.writeMode _).bind fun _ => (h.writeMode _).bind fun _ => (h.writeMode _).bind fun _ =>
    (h.writeMode _).bind fun _ => (h.writeMode _).bind fun _ => (h.writeMode _).bind fun _ =>
      offload_agrees h 10

theorem apComputingHorizontalTest_agrees (op : APOperations) (internalCol : APInternalCollunm)
    (seed : UInt8) (A B : ℕ) : Matches R R E (apComputingHorizontalTest p op internalCol seed A B)
      (apComputingHorizontalTest q op internalCol seed A B) := by
  rw [apComputingHorizontalTest_eq, apComputingHorizontalTest_eq]
  refine Matches.bind (.forUpTo fun _ => (h.store _ _).bind fun _ => h.store _ _) fun _ => ?_
  refine (h.computeTimed op internalCol A B apColSize).bind fun _ => ?_
  refine Matches.bind (.allUpTo fun _ => (h.load _).bind fun _ => (h.load _).bind fun _ =>
    (h.load _).bind fun _ => .pure _) fun _ => ?_
  exact .ite (fun _ => .pure _) fun _ => .pure _

theorem vectorApOpKernelHorizontal_agrees (op : APOperations) (A B C size : ℕ) :
    Matches R R E (vectorApOpKernelHorizontal p op A B C size)
      (vectorApOpKernelHorizontal q op A B C size) :=
  .forUpTo fun _ => (h.call (.apWriteVector ..) trivial).bind fun _ =>
    (h.call (.apWriteVector ..) trivial).bind fun _ => (h.wWait op .left).bind fun _ =>
      h.call (.apReadVector ..) trivial

theorem vectorApOpHorizontal_agrees (op : APOperations) (size seed : ℤ) :
    Matches R R E (vectorApOpHorizontal p op size seed) (vectorApOpHorizontal q op size seed) := by
  have hstart := h.startComputeCycles
  have hend := h.endComputeCycles
  have hl := h.wWait op .left
  have hr := h.wWait op .right
  have hoff := offload_agrees h 1024
  have hfill := fillABCols_agrees h.toMemoryAgreement (p.rvAddr .a) (p.rvAddr .b)
  rw [vectorApOpHorizontal, vectorApOpHorizontal]
  simp only [h.rvAddr]
  refine (fillRandomVectors_agrees h.toMemoryAgreement op size).bind fun _ => ?_
  -- each test goes on with what follows it, whichever way it goes
  refine .iteThen ?_ fun _ hrest => (hfill _).bind fun _ => hstart.bind fun _ => hl.bind fun _ =>
    hend.bind fun _ => hrest
  refine .iteThen ?_ fun _ hrest => (hfill _).bind fun _ => hstart.bind fun _ => hl.bind fun _ =>
    hr.bind fun _ => hend.bind fun _ => hrest
  refine .iteThen ?_ fun _ hrest => (hfill _).bind fun _ => hstart.bind fun _ => hl.bind fun _ =>
    hr.bind fun _ => hoff.bind fun _ => hl.bind fun _ => hr.bind fun _ => hend.bind fun _ => hrest
  refine .iteThen ?_ fun _ hrest => (hfill _).bind fun _ => hstart.bind fun _ => hl.bind fun _ =>
    hr.bind fun _ => hoff.bind fun _ => hl.bind fun _ => hr.bind fun _ => hoff.bind fun _ =>
      hl.bind fun _ => hr.bind fun _ => hoff.bind fun _ => hl.bind fun _ => hr.bind fun _ =>
        hend.bind fun _ => hrest
  exact (apMonitorBreakpoint_agrees h).bind fun _ => h.call .warmupAp trivial

theorem accumulateHorizontal_agrees :
    Matches R R E (accumulateHorizontal p) (accumulateHorizontal q) :=
  (Matches.forUpTo fun _ => (h.call (.apStoreData ..) trivial).bind fun _ =>
    h.call (.apStoreData ..) trivial).bind fun _ => (apMonitorBreakpoint_agrees h).bind fun _ =>
      h.startComputeCycles.bind fun _ => (Matches.forHalving fun i =>
        (h.wWait .add .left).bind fun _ => (apMonitorBreakpoint_agrees h).bind fun _ =>
          accumDataManipulation_agrees h.toMemoryAgreement i).bind fun _ => h.endComputeCycles

theorem apMatrixColMm_agrees (factor : UInt8) (bytes iterator : ℕ) :
    Matches R R E (apMatrixColMm p factor bytes iterator) (apMatrixColMm q factor bytes iterator) :=
  (h.setValueCamALeft factor).bind fun _ => (h.wWait .mult .left).bind fun _ =>
    (h.memcpy _ _ _).bind fun _ => (h.wWait .addD .right).bind fun _ => h.call .apFlushC0 trivial

theorem apMatrixColMmWindow_agrees (factor : UInt8) (bytes : ℕ) :
    Matches R R E (apMatrixColMmWindow p factor bytes) (apMatrixColMmWindow q factor bytes) :=
  (h.setValueCamALeft factor).bind fun _ => (h.wWait .mult .left).bind fun _ =>
    (h.wWaitTargetA .addD 0b011).bind fun _ => h.call .apFlushC0 trivial

theorem apMm_agrees (m k n : ℕ) : Matches R R E (apMm p m k n) (apMm q m k n) := by
  rw [apMm, apMm]
  simp only [h.rvAddr]
  refine .forUpTo fun i => Matches.bind (.forUpTo fun j => ?_) fun _ => ?_
  · exact (h.memcpy _ _ _).bind fun _ => (h.readVec _ _).bind fun x =>
      apMatrixColMm_agrees h x n j
  · exact (h.memcpy _ _ _).bind fun _ => h.call .apFlushC1 trivial

theorem apMmV2_agrees (m k n : ℕ) : Matches R R E (apMmV2 p m k n) (apMmV2 q m k n) := by
  rw [apMmV2, apMmV2]
  simp only [h.rvAddr]
  refine .forUpTo fun i => Matches.bind (.forUpTo fun j => ?_) fun _ => ?_
  · exact (h.memcpy _ _ _).bind fun _ => (h.readVec _ _).bind fun x =>
      apMatrixColMmWindow_agrees h x n
  · exact (h.memcpy _ _ _).bind fun _ => h.call .apFlushA1 trivial

theorem apMmV3_agrees (m k n : ℕ) : Matches R R E (apMmV3 p m k n) (apMmV3 q m k n) := by
  rw [apMmV3, apMmV3]
  simp only [h.rvAddr]
  exact .forUpTo fun i => .forUpTo fun j => (h.memcpy _ _ _).bind fun _ =>
    (h.readVec _ _).bind fun x => apMatrixColMmWindow_agrees h x n

theorem apMmV4_agrees (m k n : ℕ) : Matches R R E (apMmV4 p m k n) (apMmV4 q m k n) :=
  .forUpTo fun _ => (mmColsSetup_agrees h.toMemoryAgreement _ _ _).bind fun _ =>
    (h.wWait .mult .left).bind fun _ => (h.wWaitTargetA .addD 0b011).bind fun _ =>
      h.call .apFlushC0 trivial

theorem matmulEvaluation_agrees (dimension : ℕ) :
    Matches R R E (matmulEvaluation p dimension) (matmulEvaluation q dimension) := by
  have hmem := h.toMemoryAgreement
  rw [matmulEvaluation, matmulEvaluation]
  simp only [h.rvAddr]
  exact (fillRandomVectors_agrees hmem _ _).bind fun _ => h.startComputeCycles.bind fun _ =>
    (apMmV4_agrees h _ _ _).bind fun _ => h.endComputeCycles.bind fun _ =>
      (h.memcpy _ _ _).bind fun _ => (checksum_agrees hmem _ _).bind fun _ =>
        (h.memset _ _ _).bind fun _ => h.startComputeCycles.bind fun _ =>
          (matmulCpu_agrees hmem _ _ _).bind fun _ => h.endComputeCycles.bind fun _ =>
            (checksum_agrees hmem _ _).bind fun _ => .ite (fun _ => .pure _) fun _ => .pure _

theorem flushTest_agrees : Matches R R E (flushTest p) (flushTest q) := by
  have hflush := fun col ic => h.call (.apFlushCol col ic) trivial
  exact (fillLoop_agrees h.toMemoryAgreement _ _ _).bind fun _ => (hflush _ _).bind fun _ =>
    (hflush _ _).bind fun _ => (hflush _ _).bind fun _ => (hflush _ _).bind fun _ =>
      (hflush _ _).bind fun _ => hflush _ _

theorem setValueTest_agrees : Matches R R E (setValueTest p) (setValueTest q) :=
  (h.call (.start (.setValue ..)) rfl).bind fun _ =>
    (h.call (.start (.setValue ..)) rfl).bind fun _ =>
      (h.call (.start (.setValue ..)) rfl).bind fun _ =>
        (h.call (.start (.setValue ..)) rfl).bind fun _ =>
          (h.call (.start (.setValue ..)) rfl).bind fun _ => h.call (.start (.setValue ..)) rfl

theorem testVectorApOpHorizontal_agrees :
    Matches R R E (testVectorApOpHorizontal p) (testVectorApOpHorizontal q) :=
  (vectorApOpHorizontal_agrees h _ _ _).bind fun _ =>
    (vectorApOpHorizontal_agrees h _ _ _).bind fun _ =>
      (vectorApOpHorizontal_agrees h _ _ _).bind fun _ =>
        (vectorApOpHorizontal_agrees h _ _ _).bind fun _ =>
          (vectorApOpHorizontal_agrees h _ _ _).bind fun _ =>
            (vectorApOpHorizontal_agrees h _ _ _).bind fun _ =>
              (vectorApOpHorizontal_agrees h _ _ _).bind fun _ =>
                vectorApOpHorizontal_agrees h _ _ _

theorem apReduce_agrees (a b resultSum resultCount n : ℕ) :
    Matches R R E (apReduce p a b resultSum resultCount n)
      (apReduce q a b resultSum resultCount n) :=
  (h.call (.apFlushCol ..) trivial).bind fun _ => (h.copyLoop _ _ _).bind fun _ =>
    (h.call (.start (.search ..)) rfl).bind fun _ => (h.call (.apFlushCol ..) trivial).bind fun _ =>
      (h.call (.start (.search ..)) rfl).bind fun _ =>
        (h.call (.apFlushCol ..) trivial).bind fun _ => h.copyLoop _ _ _

theorem apSearchTest_agrees : Matches R R E (apSearchTest p) (apSearchTest q) :=
  (fillLoop_agrees h.toMemoryAgreement _ _ _).bind fun _ => (h.store _ _).bind fun _ =>
    h.startComputeCycles.bind fun _ => (h.call (.start (.search ..)) rfl).bind fun _ =>
      h.endComputeCycles.bind fun _ => .forUpTo fun _ => (h.load _).bind fun _ =>
        h.writeVec _ _ _

theorem apSetTest_agrees : Matches R R E (apSetTest p) (apSetTest q) := by
  rw [apSetTest, apSetTest]
  simp only [h.rvAddr]
  exact (h.call (.start (.setValue ..)) rfl).bind fun _ => h.startComputeCycles.bind fun _ =>
    (h.memset _ _ _).bind fun _ => (h.memset _ _ _).bind fun _ => h.endComputeCycles

theorem apTestAddD_agrees : Matches R R E (apTestAddD p) (apTestAddD q) :=
  (h.store _ _).bind fun _ => (h.store _ _).bind fun _ => (h.store _ _).bind fun _ =>
    (h.wWait .addD .right).bind fun _ => (h.store _ _).bind fun _ => (h.store _ _).bind fun _ =>
      (h.store _ _).bind fun _ => h.wWait .addD .right

theorem main_agrees : Matches R R E (main p) (main q) :=
  (h.call .warmupAp trivial).bind fun _ => matmulEvaluation_agrees h 10

end Columns

/-! ### Functions that count their polls -/

/-- `op_target_setup`, where its wait does the same. -/
theorem opTargetSetup_agrees (h : MemoryAgreement R E p q) (hwait : Matches R R E
      (do p.writeControl (controlWord 1 1 0 0); p.writeMode (modeWord 1 0 0 APOperations.add.val)
          p.writeControl (controlWord 1 1 1 0); let _ ← apWaitingForComputing p 3)
      (do q.writeControl (controlWord 1 1 0 0); q.writeMode (modeWord 1 0 0 APOperations.add.val)
          q.writeControl (controlWord 1 1 1 0); let _ ← apWaitingForComputing q 3)) :
    Matches R R E (opTargetSetup p) (opTargetSetup q) :=
  Matches.bind (.forUpTo fun _ => (h.store _ _).bind fun _ => h.store _ _) fun _ => hwait

/-- `ap_accum`, where `ap_trigger_computing` does the same. -/
theorem apAccum_agrees (h : MemoryAgreement R E p q) (hadd : Matches R R E
      (apTriggerComputing p .add .camA .left .horizontal .targetC)
      (apTriggerComputing q .add .camA .left .horizontal .targetC)) :
    Matches R R E (apAccum p) (apAccum q) :=
  Matches.bind (.forUpTo fun _ => (h.store _ _).bind fun _ =>
    (h.call (c := .tinyDelay 1) trivial).bind fun _ => h.store _ _) fun _ =>
      hadd.bind fun _ => hadd.bind fun _ => hadd

/-! ### Functions that run a vertical operation -/

section Vertical

variable (h : RegisterAgreement R E p q)
include h

theorem accum_agrees : Matches R R E (accum p) (accum q) :=
  (fillLoop_agrees h.toMemoryAgreement _ _ _).bind fun _ =>
    (h.startOp (.triggerVerticalComputingWWait .add .camA .left) trivial).bind fun _ =>
      apMonitorBreakpoint_agrees h.agreement

theorem apComputingVerticalTest_agrees (op : APOperations) (internalCol : APInternalCollunm)
    (seed : UInt8) (A C : ℕ) : Matches R R E (apComputingVerticalTest p op internalCol seed A C)
      (apComputingVerticalTest q op internalCol seed A C) :=
  (fillLoop_agrees h.toMemoryAgreement _ _ _).bind fun _ =>
    (h.startOp (.verticalComputing op .camB internalCol A 10) trivial).bind fun _ =>
      h.wait_then <| h.control_then 0 <| (h.vector _ _ _).bind fun _ => .pure 1

theorem functionalTest_agrees (a b c : ℕ) (r : CheckResults) :
    Matches R R E (functionalTest p a b c r) (functionalTest q a b c r) := by
  have hmem := h.toMemoryAgreement
  refine (fillLoop_agrees hmem _ _ _).bind fun _ => (fillLoop_agrees hmem _ _ _).bind fun _ =>
    (fillLoop_agrees hmem _ _ _).bind fun _ => (h.copyLoop _ _ _).bind fun _ =>
      (h.copyLoop _ _ _).bind fun _ => ?_
  refine h.start_then _ _ _ <| h.wait_then <| h.control_then _ <| h.mode_then _ ?_
  exact .forAcc fun _ _ => (h.load _).bind fun _ => (h.store _ _).bind fun _ =>
    (hmem.call (c := .tinyDelay 1) trivial).bind fun _ => (h.load _).bind fun _ => .pure _

end Vertical

end RocketAp.Kernels
