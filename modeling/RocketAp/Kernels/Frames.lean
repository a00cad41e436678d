import RocketAp.Hal.Frames
import RocketAp.Kernels.Firmware
import RocketAp.ProgramLogic.RowMajor

/-!
# What the firmware may write

Every function above the layer writes the columns, and blocks that its arguments give: its
buffers, vectors of `r_v_mgmt` and the literal addresses of the tests (`Kernel.stored`). No run,
on any processor, returned or stopped, changes another byte of memory (`firmware_confined`). The
blocks are as long as the loops: a function whose dimensions are too large is listed with what
it then overwrites.
-/

namespace RocketAp.Kernels

open ProgramLogic Device Hal

variable {p : Platform} {bs : List Block}

/-! ### Where -/

/-- `r_v_mgmt`. -/
def rvBlock (p : Platform) : Block := (p.rvMgmt, 3 * randomVectorsSize)

/-- The places of the vectors of the right sides, past the registers. -/
def rightBlocks (size : ℕ) : List Block :=
  [(finalAddr .camA .right, size), (finalAddr .camB .right, size), (finalAddr .camC .right, size)]

/-- How much `vector_ap_op_horizontal` offloads. -/
def offloaded (size : ℤ) : ℕ := if size = 2048 ∨ size = 4096 then 1024 else 10

/-- Where a function stores, outside the columns at least. -/
def Kernel.stored (p : Platform) : Kernel → List Block
  | .simBreak | .basicMemTest | .asmMemoryFunTests => [(simBreakAddr, 1)]
  | .basicTests => [(0x80003fec, 1)]
  | .pointerApRwTest => [(0x80000000, 4 * (apColSize * 6))]
  | .basicMemTest2 | .flushTest | .opTargetSetup | .apAccum | .apMemcpyTest | .apTestAddD
  | .checksum .. | .apMatrixColMmWindow .. | .apMatrixColMmWindow2 .. => []
  | .setValueTest => rightBlocks 1
  | .accum | .apMonitorBreakpoint | .accumulateHorizontal => [(0x80000100, 10)]
  | .apSearchTest => [(p.rvAddr .a, randomVectorsSize)]
  | .apSetTest => [(p.rvAddr .a, randomVectorsSize), (p.rvAddr .b, randomVectorsSize)]
  | .testVectorApOpHorizontal => [rvBlock p, (0x80000100, 1024)]
  | .sgemmGoldenCpuTest | .testVectorCpuOp | .cpuSearchTest | .main | .vectorCpuOpKernelOr
  | .vectorCpuOpKernelXor | .vectorCpuOpKernelAnd | .vectorCpuOpKernelNot
  | .vectorCpuOpKernelAdd | .vectorCpuOpKernelSub | .vectorCpuOpKernelMult
  | .fillRandomVectors .. | .vectorCpuOp .. => [rvBlock p]
  | .apMonitor mon elements =>
    if elements > monitorVectorsSize then [] else [(mon, 6 * monitorVectorsSize)]
  | .apComputingVerticalTest _ ic _ A C =>
    [(A, 10), (C, apColSize)] ++ vectorBlocks (finalAddr .camB ic) 10
  | .apComputingHorizontalTest op ic _ A B =>
    [(A, apColSize), (B, apColSize)] ++ (StartOp.computing op ic .horizontal A B apColSize).stored
  | .testingInternalCols result => [(result, 10)]
  | .apiRWApTest buffer bufferRead =>
    [(buffer, apColSize), (bufferRead, apColSize)] ++ rightBlocks apColSize
  | .functionalTest a b c _ _ => [(a, 5), (b, 5), (c, 5)]
  | .vectorApOpKernelHorizontal _ _ _ C _ => [(C, apColSize)]
  | .fillACol _ size => [(Cam.a0.base, size)]
  | .fillABCols _ _ size => [(Cam.a0.base, size), (Cam.b0.base, size)]
  | .offload size => [(0x80000100, size)]
  | .vectorApOpHorizontal _ size _ => [rvBlock p, (0x80000100, offloaded size)]
  | .testOffload size v =>
    [(0x80000200, size.toNat), (Cam.c0.base, size.toNat), (v, size.toNat)]
  | .accumDataManipulation size => [(Cam.a0.base, size / 2), (Cam.b0.base, size / 2)]
  | .apReduce _ _ _ _ n => [(Cam.a0.base, n), (Cam.b0.base, n)]
  | .apMatrixColMm _ bytes _ => [(Cam.a1.base, bytes)]
  | .apMm m _ n => [(Cam.b0.base, n), (Cam.a1.base, n), (p.rvAddr .c, m * n)]
  | .apMmV2 m _ n => [(Cam.b0.base, n), (p.rvAddr .c, m * n)]
  | .apMmV3 m _ n => [(Cam.b0.base, m * n)]
  | .apMmV4 m _ n => [(Cam.a0.base, m * n), (Cam.b0.base, m * n)]
  | .mmColsSetup m n _ => [(Cam.a0.base, m * n), (Cam.b0.base, m * n)]
  | .mmColsSetup2 cSize _ _ _ _ => [(Cam.a0.base, cSize), (Cam.b0.base, cSize)]
  | .matmulCpu m _ n => [(p.rvAddr .c, m * n)]
  | .sgemmGolden m _ n _ _ c => [(c, m * n)]
  -- its rows are wherever the pointers it reads say
  | .matmulGolden _ _ _ _ m _ => [(0, 2 ^ 32 + m)]
  | .saxpyGolden n _ _ y => [(y, n)]
  | .reduceGolden _ _ resultSum resultCount _ => [(resultSum, 1), (resultCount, 1)]
  | .indexGolden a _ _ n => [(a, n)]
  | .accumKernel sum _ _ => [(sum, 1)]
  | .testAccum sum => [(sum, 1), (p.rvAddr .a, 1024)]
  | .matmulEvaluation d =>
    [rvBlock p, (Cam.a0.base, d * d), (Cam.b0.base, d * d), (p.rvAddr .c, d * d)]

/-- Where a call stores. -/
def Call.stored (p : Platform) : Call → List Block
  | .hal c => c.stored
  | .kernel k => k.stored p

/-! ### Functions that leave the processor alone -/

theorem writable_vec (k : ℕ) (hk : bs[k]? = some (rvBlock p)) (v : RvVec) {i : ℕ}
    (hi : i < randomVectorsSize) : p.rvAddr v + i ∈ writable bs := by
  cases v with
  | a => exact writable_at k hk (by omega)
  | b =>
    rw [Platform.rvAddr, Nat.add_assoc]
    exact writable_at k hk (by omega)
  | c =>
    rw [Platform.rvAddr, Nat.add_assoc]
    exact writable_at k hk (by omega)

/-- `r_v_mgmt` can be written. -/
def VecsIn (p : Platform) (bs : List Block) : Prop :=
  ∀ v, ∀ i < randomVectorsSize, p.rvAddr v + i ∈ writable bs

theorem fillRandomVectors_confined (h : VecsIn p bs) (op : APOperations) (seed : ℤ) :
    ConfinedTo bs (fillRandomVectors p op seed) :=
  Keeps.forUpTo fun i hi => (store_confined (h .a i hi) _).bind fun _ =>
    (store_confined (h .b i hi) _).bind fun _ => store_confined (h .c i hi) _

theorem checksum_confined (arr size : ℕ) : ConfinedTo bs (checksum arr size) :=
  Keeps.forAcc fun _ _ _ => (load_confined _).bind fun _ => .pure _

theorem apMonitor_confined (mon elements : ℕ) :
    ConfinedTo (Kernel.stored p (.apMonitor mon elements)) (apMonitor mon elements) := by
  rw [Kernel.stored, apMonitor]
  split
  · exact .pure ()
  · next hle =>
    have hloop : ∀ (c : Cam) (j : ℕ), j < 6 →
        ConfinedTo [(mon, 6 * monitorVectorsSize)]
          (apMonitorLoop c (mon + j * monitorVectorsSize) elements) := fun c j hj =>
      copyLoop_confined (fun i hi => by
        rw [Nat.add_assoc]
        exact writable_at 0 rfl (rowMajor_lt hj (by omega))) _
    exact ((hloop .a0 0 (by decide)).bind fun _ => (hloop .b0 1 (by decide)).bind fun _ =>
      (hloop .c0 2 (by decide)).bind fun _ => (hloop .a1 3 (by decide)).bind fun _ =>
        (hloop .b1 4 (by decide)).bind fun _ => hloop .c1 5 (by decide))

theorem accumKernel_confined {sum : ℕ} (h : sum ∈ writable bs) (A size : ℕ) :
    ConfinedTo bs (accumKernel sum A size) :=
  (Keeps.forUpTo fun _ _ => (load_confined _).bind fun _ => (load_confined _).bind fun _ =>
    store_confined h _).bind fun _ => load_confined _

theorem fillABCols_confined (A B : ℕ) {size : ℕ}
    (hA : ∀ i < size, Cam.a0.base + i ∈ writable bs)
    (hB : ∀ i < size, Cam.b0.base + i ∈ writable bs) : ConfinedTo bs (fillABCols A B size) :=
  (copyLoop_confined hA A).bind fun _ => copyLoop_confined hB B

theorem accumDataManipulation_confined {size : ℕ}
    (hA : ∀ i < size / 2, Cam.a0.base + i ∈ writable bs)
    (hB : ∀ i < size / 2, Cam.b0.base + i ∈ writable bs) :
    ConfinedTo bs (accumDataManipulation size) :=
  Keeps.forUpTo fun i hi =>
    ((lw_confined _).bind fun _ => store_confined (hA i hi) _).bind fun _ =>
      (lw_confined _).bind fun _ => store_confined (hB i hi) _

theorem mmColsSetup_confined {m n : ℕ} (hA : ∀ i < m * n, Cam.a0.base + i ∈ writable bs)
    (hB : ∀ i < m * n, Cam.b0.base + i ∈ writable bs) (index : ℕ) :
    ConfinedTo bs (mmColsSetup p m n index) :=
  Keeps.forUpTo fun _ hi => Keeps.forUpTo fun _ hj => (readVec_confined _ _).bind fun _ =>
    (store_confined (hA _ (rowMajor_lt hi hj)) _).bind fun _ => (readVec_confined _ _).bind fun _ =>
      store_confined (hB _ (rowMajor_lt hi hj)) _

theorem matmulCpu_confined {m n : ℕ} (h : ∀ i < m * n, p.rvAddr .c + i ∈ writable bs) (k : ℕ) :
    ConfinedTo bs (matmulCpu p m k n) :=
  Keeps.forUpTo fun _ hi => Keeps.forUpTo fun _ hj =>
    (Keeps.forAcc fun _ _ _ => (readVec_confined _ _).bind fun _ =>
      (readVec_confined _ _).bind fun _ => .pure _).bind fun _ =>
        store_confined (h _ (rowMajor_lt hi hj)) _

theorem sgemmGolden_confined {m n c : ℕ} (h : ∀ i < m * n, c + i ∈ writable bs) (k a b : ℕ) :
    ConfinedTo bs (sgemmGolden m k n a b c) :=
  Keeps.forUpTo fun _ hi => Keeps.forUpTo fun _ hj => Keeps.forUpTo fun _ _ =>
    (load_confined _).bind fun _ => (load_confined _).bind fun _ => (load_confined _).bind fun _ =>
      store_confined (h _ (rowMajor_lt hi hj)) _

/-- `matmul_golden` stores within `m` bytes of a pointer. -/
theorem matmulGolden_confined {m : ℕ} (h : ∀ i < 2 ^ 32 + m, 0 + i ∈ writable bs)
    (a b c n o : ℕ) : ConfinedTo bs (matmulGolden a b c n m o) := by
  have hrow : ∀ (row : UInt32), ∀ j < m, row.toNat + j ∈ writable bs := fun row j hj => by
    have hlt := row.toNat_lt
    have hmem := h (row.toNat + j) (by omega)
    rwa [Nat.zero_add] at hmem
  have helement : ∀ a i k, ConfinedTo bs (element a i k) := fun _ _ _ =>
    (lw_confined _).bind fun _ => load_confined _
  refine Keeps.forUpTo fun i _ => Keeps.forUpTo fun j hj => ?_
  refine (lw_confined _).bind fun row => (store_confined (hrow row j hj) _).bind fun _ => ?_
  exact Keeps.forUpTo fun k _ => (helement _ _ _).bind fun _ => (helement _ _ _).bind fun _ =>
    (helement _ _ _).bind fun _ => (lw_confined _).bind fun row =>
      store_confined (hrow row j hj) _

theorem vectorCpuOpKernel_confined (h : VecsIn p bs) (op : APOperations) {f : ℕ → Prog UInt8}
    (hf : ∀ i, ConfinedTo bs (f i)) : ConfinedTo bs (vectorCpuOpKernel p op f) := by
  have hloop : ConfinedTo bs (vectorCpuOpLoop p f) :=
    Keeps.forUpTo fun i hi => (hf i).bind fun _ => store_confined (h .c i hi) _
  exact (fillRandomVectors_confined h _ _).bind fun _ => startComputeCycles_confined.bind fun _ =>
    hloop.bind fun _ => hloop.bind fun _ => hloop.bind fun _ => hloop.bind fun _ =>
      endComputeCycles_confined

/-- An element that is computed from one of `A` and one of `B`. -/
theorem elements_confined (f : UInt8 → UInt8 → UInt8) (i : ℕ) :
    ConfinedTo bs (do return f (← p.readVec .a i) (← p.readVec .b i)) :=
  (readVec_confined _ _).bind fun _ => (readVec_confined _ _).bind fun _ => .pure _

theorem vectorCpuOp_confined (h : VecsIn p bs) (seed : Int8) (size : ℕ) :
    ConfinedTo bs (vectorCpuOp p seed size) :=
  (fillRandomVectors_confined h _ _).bind fun _ => startComputeCycles_confined.bind fun _ =>
    (vectorCpuOpKernel_confined h _ (elements_confined (· * ·))).bind fun _ =>
      endComputeCycles_confined

theorem cpuSearchTest_confined : ConfinedTo [rvBlock p] (cpuSearchTest p) := by
  have hsize : randomVectorsSize = 512 := rfl
  have ha : ∀ i < 1024, p.rvAddr .a + i ∈ writable [rvBlock p] := fun i hi =>
    writable_at 0 rfl (by omega)
  have hb : ∀ i < 1024, p.rvAddr .b + i ∈ writable [rvBlock p] := fun i hi => by
    rw [Platform.rvAddr, Nat.add_assoc]
    exact writable_at 0 rfl (by omega)
  refine (Keeps.forUpTo fun i hi => store_confined (ha i hi) _).bind fun _ => ?_
  refine (store_confined (ha 10 (by decide)) _).bind fun _ => ?_
  refine startComputeCycles_confined.bind fun _ => Keeps.bind ?_ fun _ => endComputeCycles_confined
  exact Keeps.forUpTo fun i hi => (readVec_confined _ _).bind fun _ =>
    .ite (fun _ => store_confined (hb i hi) _) fun _ => store_confined (hb i hi) _

theorem sgemmGoldenCpuTest_confined : ConfinedTo [rvBlock p] (sgemmGoldenCpuTest p) := by
  have hsize : randomVectorsSize = 512 := rfl
  have w : ∀ v i x, i < randomVectorsSize → ConfinedTo [rvBlock p] (p.writeVec v i x) :=
    fun v i x hi => store_confined (writable_vec 0 rfl v hi) x
  refine (w _ 0 _ (by decide)).bind fun _ => (w _ 1 _ (by decide)).bind fun _ =>
    (w _ 2 _ (by decide)).bind fun _ => (w _ 3 _ (by decide)).bind fun _ =>
    (w _ 4 _ (by decide)).bind fun _ => (w _ 5 _ (by decide)).bind fun _ =>
    (w _ 6 _ (by decide)).bind fun _ => (w _ 7 _ (by decide)).bind fun _ =>
    (w _ 8 _ (by decide)).bind fun _ => (w _ 0 _ (by decide)).bind fun _ =>
    (w _ 1 _ (by decide)).bind fun _ => (w _ 2 _ (by decide)).bind fun _ =>
    (w _ 3 _ (by decide)).bind fun _ => (w _ 4 _ (by decide)).bind fun _ =>
    (w _ 5 _ (by decide)).bind fun _ => (w _ 0 _ (by decide)).bind fun _ =>
    (w _ 1 _ (by decide)).bind fun _ => (w _ 2 _ (by decide)).bind fun _ =>
    (w _ 3 _ (by decide)).bind fun _ => (w _ 4 _ (by decide)).bind fun _ =>
    (w _ 5 _ (by decide)).bind fun _ => ?_
  refine startComputeCycles_confined.bind fun _ => Keeps.bind ?_ fun _ => endComputeCycles_confined
  exact Keeps.forUpTo fun i hi => Keeps.forUpTo fun j hj => Keeps.forUpTo fun k _ =>
    (readVec_confined _ _).bind fun _ => (readVec_confined _ _).bind fun _ =>
      (readVec_confined _ _).bind fun _ => w _ _ _ (by omega)

theorem pointerApRwTest_confined :
    ConfinedTo [(0x80000000, 4 * (apColSize * 6))] pointerApRwTest := by
  have hdelay : ConfinedTo [(0x80000000, 4 * (apColSize * 6))] (tinyDelay 1) :=
    tinyDelay_confined 1
  have hcol : ∀ i < apColSize * 6,
      Cam.a0.base + i ∈ writable [(0x80000000, 4 * (apColSize * 6))] := fun i hi =>
    writable_columns (by
      have hbase : Cam.a0.base + apColSize * 6 = apControlRegistersBaseAddr := rfl
      omega)
  have hword : ∀ i < apColSize * 6,
      0x80000000 + i * 4 ∈ writable [(0x80000000, 4 * (apColSize * 6))] := fun i hi =>
    writable_at 0 rfl (by omega)
  refine (Keeps.forUpTo fun i hi => (store_confined (hcol i hi) _).bind fun _ =>
    hdelay).bind fun _ => ?_
  refine (Keeps.forUpTo fun i hi => (load_confined _).bind fun _ =>
    (storeFixed_confined (hword i hi) _).bind fun _ => hdelay).bind fun _ => ?_
  exact Keeps.forUpTo fun i hi => (load_confined _).bind fun _ =>
    (storeFixed_confined (hword i hi) _).bind fun _ => hdelay

theorem mmColsSetup2_confined {cSize : ℕ} (hA : ∀ i < cSize, Cam.a0.base + i ∈ writable bs)
    (hB : ∀ i < cSize, Cam.b0.base + i ∈ writable bs) (m n k index : ℕ) :
    ConfinedTo bs (mmColsSetup2 p cSize m n k index) :=
  (Keeps.forAcc fun i hi _ => (readVec_confined _ _).bind fun _ =>
    (store_confined (hA i hi) _).bind fun _ => (readVec_confined _ _).bind fun _ =>
      (store_confined (hB i hi) _).bind fun _ =>
        .ite (fun _ => .pure _) fun _ => .pure _).bind fun _ => .pure ()

theorem testOffload_confined (size : ℤ) (v : ℕ) :
    ConfinedTo [(0x80000200, size.toNat), (Cam.c0.base, size.toNat), (v, size.toNat)]
      (testOffload p size v) :=
  (Keeps.forUpTo fun _ hi => storeFixed_confined (writable_at 0 rfl hi) _).bind fun _ =>
    startComputeCycles_confined.bind fun _ =>
      (fillLoop_confined (fun _ hi => writable_at 1 rfl hi) _).bind fun _ =>
        endComputeCycles_confined.bind fun _ => startComputeCycles_confined.bind fun _ =>
          (Keeps.forUpTo fun _ hi => (load_confined _).bind fun _ =>
            storeFixed_confined (writable_at 0 rfl hi) _).bind fun _ =>
              endComputeCycles_confined.bind fun _ => startComputeCycles_confined.bind fun _ =>
                (copyLoop_confined (fun _ hi => writable_at 2 rfl hi) _).bind fun _ =>
                  endComputeCycles_confined

theorem testingInternalCols_confined (result : ℕ) :
    ConfinedTo [(result, 10)] (testingInternalCols result) := by
  have hcol : ∀ i < 10, Cam.a0.base + i ∈ writable [(result, 10)] := fun i hi =>
    writable_cam .a0 (Nat.lt_trans hi (by decide))
  exact (Keeps.forUpTo fun i hi => (store_confined (hcol i hi) _).bind fun _ =>
    tinyDelay_confined 1).bind fun _ => Keeps.forUpTo fun i hi => (load_confined _).bind fun _ =>
      (store_confined (writable_at 0 rfl hi) _).bind fun _ => tinyDelay_confined 1

theorem apiRWRound_confined {buffer bufferRead : ℕ}
    (hbuffer : ∀ i < apColSize, buffer + i ∈ writable bs)
    (hread : ∀ i < apColSize, bufferRead + i ∈ writable bs) {col : APCollunm}
    {ic : APInternalCollunm} (hcol : ∀ i < apColSize, finalAddr col ic + i ∈ writable bs)
    (off : ℕ) : ConfinedTo bs (apiRWRound buffer bufferRead col ic off) := by
  refine (fillLoop_confined hbuffer _).bind fun _ => Keeps.bind ?_ fun _ => ?_
  · exact .ite (fun _ => .pure ()) fun _ => copyLoop_confined hcol _
  · exact .ite (fun _ => .pure ()) fun _ => copyLoop_confined hread _

theorem apiRWApTest_confined (buffer bufferRead : ℕ) :
    ConfinedTo ([(buffer, apColSize), (bufferRead, apColSize)] ++ rightBlocks apColSize)
      (apiRWApTest buffer bufferRead) := by
  have hleft : ∀ col, ∀ i < apColSize, finalAddr col .left + i ∈
      writable ([(buffer, apColSize), (bufferRead, apColSize)] ++ rightBlocks apColSize) :=
    fun col i hi => by
      rw [finalAddr_left]
      exact writable_cam _ hi
  have hround : ∀ col ic, (∀ i < apColSize, finalAddr col ic + i ∈
      writable ([(buffer, apColSize), (bufferRead, apColSize)] ++ rightBlocks apColSize)) →
      ∀ off, ConfinedTo ([(buffer, apColSize), (bufferRead, apColSize)] ++ rightBlocks apColSize)
        (apiRWRound buffer bufferRead col ic off) := fun _ _ hcol off =>
    apiRWRound_confined (fun _ hi => writable_at 0 rfl hi) (fun _ hi => writable_at 1 rfl hi)
      hcol off
  exact (hround _ _ (hleft .camA) 0).bind fun _ =>
    (hround _ _ (fun _ hi => writable_at 2 rfl hi) 1).bind fun _ =>
      (hround _ _ (hleft .camB) 2).bind fun _ =>
        (hround _ _ (fun _ hi => writable_at 3 rfl hi) 3).bind fun _ =>
          (hround _ _ (hleft .camC) 4).bind fun _ =>
            hround _ _ (fun _ hi => writable_at 4 rfl hi) 5

theorem saxpyGolden_confined (n : ℕ) (a : UInt8) (x y : ℕ) :
    ConfinedTo [(y, n)] (saxpyGolden n a x y) :=
  Keeps.forUpTo fun _ hi => (load_confined _).bind fun _ => (load_confined _).bind fun _ =>
    store_confined (writable_at 0 rfl hi) _

theorem reduceGolden_confined (a b resultSum resultCount n : ℕ) :
    ConfinedTo [(resultSum, 1), (resultCount, 1)] (reduceGolden a b resultSum resultCount n) := by
  refine Keeps.bind (.forAcc fun _ _ _ => (load_confined _).bind fun _ => .ite (fun _ =>
    (load_confined _).bind fun _ => (load_confined _).bind fun _ => .pure _)
      fun _ => .pure _) fun _ => ?_
  exact (store_confined (writable_at (i := 0) 0 rfl (by decide)) _).bind fun _ =>
    store_confined (writable_at (i := 0) 1 rfl (by decide)) _

theorem indexGolden_confined (a b c n : ℕ) : ConfinedTo [(a, n)] (indexGolden a b c n) :=
  Keeps.forUpTo fun _ hi => (load_confined _).bind fun _ => (load_confined _).bind fun _ =>
    store_confined (writable_at 0 rfl hi) _

theorem testAccum_confined (sum : ℕ) :
    ConfinedTo [(sum, 1), (p.rvAddr .a, 1024)] (testAccum p sum) :=
  (Keeps.forUpTo fun _ hi => store_confined (writable_at 1 rfl hi) _).bind fun _ =>
    startComputeCycles_confined.bind fun _ =>
      (accumKernel_confined (writable_at (i := 0) 0 rfl (by decide)) _ _).bind fun _ =>
        endComputeCycles_confined.bind fun _ => .pure _

/-! ### Functions that use it -/

theorem wWait_confined (op : APOperations) (ic : APInternalCollunm) :
    ConfinedTo bs (apTriggerComputingWWait p op .horizontal ic) :=
  confined_of_keeps (apTriggerComputingWWait_keeps op .horizontal ic)

theorem wWaitTargetA_confined (op : APOperations) (bits : UInt8) :
    ConfinedTo bs (apTriggerComputingWWaitTargetA p op .horizontal bits) :=
  confined_of_keeps (apTriggerComputingWWaitTargetA_keeps op .horizontal bits)

/-- A call that stores nothing itself. -/
theorem call_confined (c : HalCall) (hc : c.stored ⊆ bs) : ConfinedTo bs (c.exec p) :=
  (halCall_confined c).mono hc

theorem offload_confined {size : ℕ} (h : ∀ i < size, 0x80000100 + i ∈ writable bs) :
    ConfinedTo bs (offload p size) :=
  mode_then_confined _ (Keeps.forUpTo fun i hi => (load_confined _).bind fun v =>
    storeFixed_confined (h i hi) v)

theorem apMonitorBreakpoint_confined (h : ∀ i < 10, 0x80000100 + i ∈ writable bs) :
    ConfinedTo bs (apMonitorBreakpoint p) :=
  mode_then_confined _ <| mode_then_confined _ <| mode_then_confined _ <| mode_then_confined _ <|
    mode_then_confined _ <| mode_then_confined _ <| offload_confined h

theorem vectorApOpHorizontal_confined (op : APOperations) (size seed : ℤ) :
    ConfinedTo [rvBlock p, (0x80000100, offloaded size)] (vectorApOpHorizontal p op size seed) := by
  set bs := [rvBlock p, (0x80000100, offloaded size)] with hbs
  have hcol : apColSize = 512 := rfl
  have hcols : ∀ n ≤ 1024, ConfinedTo bs (fillABCols (p.rvAddr .a) (p.rvAddr .b) n) := by
    have hA : Cam.a0.base + 6 * apColSize = apControlRegistersBaseAddr := rfl
    have hB : Cam.b0.base + 4 * apColSize = apControlRegistersBaseAddr := rfl
    exact fun n hn => fillABCols_confined _ _ (fun i hi => writable_columns (by omega))
      fun i hi => writable_columns (by omega)
  have hoff : size = 2048 ∨ size = 4096 → ConfinedTo bs (offload p 1024) := fun h =>
    offload_confined fun i hi => writable_at 1 rfl (by rwa [offloaded, if_pos h])
  have hmonitor : ConfinedTo bs (apMonitorBreakpoint p) :=
    apMonitorBreakpoint_confined fun i hi => writable_at 1 rfl (by
      rw [offloaded]
      split <;> omega)
  have hstart : ConfinedTo bs p.startComputeCycles := startComputeCycles_confined
  have hend : ConfinedTo bs p.endComputeCycles := endComputeCycles_confined
  have hl : ConfinedTo bs (apTriggerComputingWWait p op .horizontal .left) :=
    wWait_confined op .left
  have hr : ConfinedTo bs (apTriggerComputingWWait p op .horizontal .right) :=
    wWait_confined op .right
  refine (fillRandomVectors_confined (fun v _ hi => writable_vec 0 rfl v hi) op size).bind
    fun _ => ?_
  -- each test goes on with what follows it, whichever way it goes
  refine .iteThen ?_ fun hsize hrest => (hcols _ (by omega)).bind fun _ => hstart.bind fun _ =>
    hl.bind fun _ => hend.bind fun _ => hrest
  refine .iteThen ?_ fun hsize hrest => (hcols _ (by omega)).bind fun _ => hstart.bind fun _ =>
    hl.bind fun _ => hr.bind fun _ => hend.bind fun _ => hrest
  refine .iteThen ?_ fun hsize hrest => (hcols _ (by decide)).bind fun _ => hstart.bind fun _ =>
    hl.bind fun _ => hr.bind fun _ => (hoff (.inl hsize)).bind fun _ => hl.bind fun _ =>
      hr.bind fun _ => hend.bind fun _ => hrest
  refine .iteThen ?_ fun hsize hrest => (hcols _ (by decide)).bind fun _ => hstart.bind fun _ =>
    hl.bind fun _ => hr.bind fun _ => (hoff (.inr hsize)).bind fun _ => hl.bind fun _ =>
      hr.bind fun _ => (hoff (.inr hsize)).bind fun _ => hl.bind fun _ => hr.bind fun _ =>
        (hoff (.inr hsize)).bind fun _ => hl.bind fun _ => hr.bind fun _ => hend.bind fun _ =>
          hrest
  exact hmonitor.bind fun _ => call_confined .warmupAp (List.nil_subset _)

/-- What is offloaded is in the largest block of it. -/
theorem offloaded_le (size : ℤ) : offloaded size ≤ 1024 := by
  rw [offloaded]
  split <;> decide

theorem writable_mono_length {a n k : ℕ} (b : Block) (h : k ≤ n) :
    writable [b, (a, k)] ⊆ writable [b, (a, n)] := by
  refine Set.union_subset_union_right _ ?_
  rintro x ⟨c, hc, hlo, hhi⟩
  rw [List.mem_pair] at hc
  rcases hc with rfl | rfl
  · exact ⟨c, List.mem_cons_self, hlo, hhi⟩
  · exact ⟨(a, n), by simp, hlo, Nat.lt_of_lt_of_le hhi (Nat.add_le_add_left h a)⟩

theorem testVectorApOpHorizontal_confined :
    ConfinedTo [rvBlock p, (0x80000100, 1024)] (testVectorApOpHorizontal p) := by
  have h : ∀ size, ConfinedTo [rvBlock p, (0x80000100, 1024)]
      (vectorApOpHorizontal p .not size 14) := fun size =>
    Confined.mono (vectorApOpHorizontal_confined .not size 14)
      (writable_mono_length _ (offloaded_le size))
  exact (h 32).bind fun _ => (h 64).bind fun _ => (h 128).bind fun _ => (h 256).bind fun _ =>
    (h 512).bind fun _ => (h 1024).bind fun _ => (h 2048).bind fun _ => h 4096

/-- A word from a row of the columns with three more rows after it. -/
theorem wordByte_columns {c : Cam} {i : ℕ} (h : c.base + i + 3 < apControlRegistersBaseAddr) :
    ∀ k < 4, wordByte (c.base + i) k ∈ writable bs := by
  intro k hk
  have hw := apWindow
  rw [wordByte, Nat.mod_eq_of_lt (by omega), Nat.add_assoc]
  exact writable_columns (by omega)

theorem accumulateHorizontal_confined :
    ConfinedTo [(0x80000100, 10)] (accumulateHorizontal p) := by
  have hA : Cam.a0.base + 6 * apColSize = apControlRegistersBaseAddr := rfl
  have hB : Cam.b0.base + 4 * apColSize = apControlRegistersBaseAddr := rfl
  have hcol : apColSize = 512 := rfl
  have hmonitor : ConfinedTo [(0x80000100, 10)] (apMonitorBreakpoint p) :=
    apMonitorBreakpoint_confined fun _ hi => writable_at 0 rfl hi
  refine (Keeps.forUpTo fun i hi => (sw_confined (wordByte_columns (by omega)) _).bind fun _ =>
    sw_confined (wordByte_columns (by omega)) _).bind fun _ => ?_
  refine hmonitor.bind fun _ => startComputeCycles_confined.bind fun _ =>
    Keeps.bind (.forHalvingUpTo fun i hi => ?_) fun _ => endComputeCycles_confined
  exact (wWait_confined .add .left).bind fun _ => hmonitor.bind fun _ =>
    accumDataManipulation_confined (fun j hj => writable_columns (by omega))
      fun j hj => writable_columns (by omega)

theorem apMatrixColMm_confined {bytes : ℕ} (h : ∀ i < bytes, Cam.a1.base + i ∈ writable bs)
    (factor : UInt8) (iterator : ℕ) : ConfinedTo bs (apMatrixColMm p factor bytes iterator) := by
  refine Keeps.bind ?_ fun _ => (wWait_confined _ _).bind fun _ =>
    (memcpy_confined h _).bind fun _ => (wWait_confined _ _).bind fun _ =>
      confined_of_keeps apFlushC0_keeps
  exact apSetValueCamALeft_confined (writable_cam .a0 (by decide)) factor

theorem apMatrixColMmWindow_confined (factor : UInt8) (bytes : ℕ) :
    ConfinedTo bs (apMatrixColMmWindow p factor bytes) := by
  refine Keeps.bind ?_ fun _ => (wWait_confined _ _).bind fun _ =>
    (wWaitTargetA_confined _ _).bind fun _ => confined_of_keeps apFlushC0_keeps
  exact apSetValueCamALeft_confined (writable_cam .a0 (by decide)) factor

/-- A row of the result. -/
theorem writable_row {a m n i : ℕ} (k : ℕ) (hk : bs[k]? = some (a, m * n)) (hi : i < m) :
    ∀ j < n, a + i * n + j ∈ writable bs := fun j hj => by
  rw [Nat.add_assoc]
  exact writable_at k hk (rowMajor_lt hi hj)

theorem apMm_confined (m k n : ℕ) :
    ConfinedTo (Kernel.stored p (.apMm m k n)) (apMm p m k n) := by
  refine Keeps.forUpTo fun i hi => Keeps.bind (.forUpTo fun j _ => ?_) fun _ => ?_
  · exact (memcpy_confined (fun _ hi => writable_at 0 rfl hi) _).bind fun _ =>
      (readVec_confined _ _).bind fun x =>
        apMatrixColMm_confined (fun _ hi => writable_at 1 rfl hi) x j
  · exact (memcpy_confined (writable_row 2 rfl hi) _).bind fun _ =>
      call_confined .apFlushC1 (List.nil_subset _)

theorem apMmV2_confined (m k n : ℕ) :
    ConfinedTo (Kernel.stored p (.apMmV2 m k n)) (apMmV2 p m k n) := by
  refine Keeps.forUpTo fun i hi => Keeps.bind (.forUpTo fun j _ => ?_) fun _ => ?_
  · exact (memcpy_confined (fun _ hi => writable_at 0 rfl hi) _).bind fun _ =>
      (readVec_confined _ _).bind fun x => apMatrixColMmWindow_confined x n
  · exact (memcpy_confined (writable_row 1 rfl hi) _).bind fun _ =>
      call_confined .apFlushA1 (List.nil_subset _)

theorem apMmV3_confined (m k n : ℕ) :
    ConfinedTo (Kernel.stored p (.apMmV3 m k n)) (apMmV3 p m k n) :=
  Keeps.forUpTo fun _ hi => Keeps.forUpTo fun _ _ =>
    (memcpy_confined (writable_row 0 rfl hi) _).bind fun _ => (readVec_confined _ _).bind fun x =>
      apMatrixColMmWindow_confined x n

theorem apMmV4_confined {m n : ℕ} (hA : ∀ i < m * n, Cam.a0.base + i ∈ writable bs)
    (hB : ∀ i < m * n, Cam.b0.base + i ∈ writable bs) (k : ℕ) :
    ConfinedTo bs (apMmV4 p m k n) :=
  Keeps.forUpTo fun i _ => (mmColsSetup_confined hA hB i).bind fun _ =>
    (wWait_confined _ _).bind fun _ => (wWaitTargetA_confined _ _).bind fun _ =>
      confined_of_keeps apFlushC0_keeps

theorem matmulEvaluation_confined {d : ℕ} (hrv : VecsIn p bs)
    (hA : ∀ i < d * d, Cam.a0.base + i ∈ writable bs)
    (hB : ∀ i < d * d, Cam.b0.base + i ∈ writable bs)
    (hC : ∀ i < d * d, p.rvAddr .c + i ∈ writable bs) :
    ConfinedTo bs (matmulEvaluation p d) :=
  (fillRandomVectors_confined hrv _ _).bind fun _ => startComputeCycles_confined.bind fun _ =>
    (apMmV4_confined hA hB d).bind fun _ => endComputeCycles_confined.bind fun _ =>
      (memcpy_confined (hrv .c) _).bind fun _ => (checksum_confined _ _).bind fun _ =>
        (memset_confined (hrv .c) _).bind fun _ => startComputeCycles_confined.bind fun _ =>
          (matmulCpu_confined hC d).bind fun _ => endComputeCycles_confined.bind fun _ =>
            (checksum_confined _ _).bind fun _ => .ite (fun _ => .pure _) fun _ => .pure _

theorem apComputingHorizontalTest_confined (op : APOperations) (ic : APInternalCollunm)
    (seed : UInt8) (A B : ℕ) :
    ConfinedTo (Kernel.stored p (.apComputingHorizontalTest op ic seed A B))
      (apComputingHorizontalTest p op ic seed A B) := by
  refine Keeps.bind (.forUpTo fun i hi => (store_confined (writable_at 0 rfl hi) _).bind fun _ =>
    store_confined (writable_at 1 rfl hi) _) fun _ => ?_
  refine Keeps.bind (call_confined (.start (.computing op ic .horizontal A B apColSize))
    (List.subset_append_right _ _)) fun _ => ?_
  refine startComputeCycles_confined.bind fun _ => wait_then_confined ?_
  refine endComputeCycles_confined.bind fun _ => control_then_confined _ ?_
  refine Keeps.bind (.allUpTo fun i _ => (load_confined _).bind fun _ =>
    (load_confined _).bind fun _ => (load_confined _).bind fun _ => .pure _) fun _ => ?_
  exact .ite (fun _ => .pure _) fun _ => .pure _

theorem apComputingVerticalTest_confined (op : APOperations) (ic : APInternalCollunm)
    (seed : UInt8) (A C : ℕ) :
    ConfinedTo (Kernel.stored p (.apComputingVerticalTest op ic seed A C))
      (apComputingVerticalTest p op ic seed A C) := by
  refine (fillLoop_confined (fun _ hi => writable_at 0 rfl hi) _).bind fun _ => ?_
  refine Keeps.bind (call_confined (.start (.verticalComputing op .camB ic A 10))
    (List.subset_append_right _ _)) fun _ => wait_then_confined (control_then_confined _ ?_)
  refine Keeps.bind (.ite (fun _ => .pure ()) fun _ => ?_) fun _ => .pure 1
  exact copyLoop_confined (fun _ hi => writable_at 1 rfl hi) _

theorem vectorApOpKernelHorizontal_confined (op : APOperations) (A B C size : ℕ) :
    ConfinedTo [(C, apColSize)] (vectorApOpKernelHorizontal p op A B C size) := by
  have hwrite : ∀ col V n, ConfinedTo [(C, apColSize)] (apWriteVector col .left V n) := by
    intro col V n
    refine .ite (fun _ => .pure ()) fun hn => copyLoop_confined (fun i hi => ?_) _
    rw [finalAddr_left]
    exact writable_cam _ (by omega)
  refine Keeps.forUpTo fun i _ => (hwrite _ _ _).bind fun _ => (hwrite _ _ _).bind fun _ => ?_
  refine (wWait_confined op .left).bind fun _ => .ite (fun _ => .pure ()) fun hn => ?_
  exact copyLoop_confined (fun j hj => writable_at 0 rfl (by omega)) _

theorem apReduce_confined (a b resultSum resultCount n : ℕ) :
    ConfinedTo (Kernel.stored p (.apReduce a b resultSum resultCount n))
      (apReduce p a b resultSum resultCount n) := by
  have hflush : ∀ col ic, ConfinedTo (Kernel.stored p (.apReduce a b resultSum resultCount n))
      (apFlushCol p col ic) := fun col ic => call_confined (.apFlushCol col ic) (List.nil_subset _)
  have hsearch : ∀ key, ConfinedTo (Kernel.stored p (.apReduce a b resultSum resultCount n))
      (apSearch p key .left .targetC) := fun key =>
    apSearch_confined (writable_cam .b0 (by decide)) key .left .targetC
  exact (hflush _ _).bind fun _ =>
    (copyLoop_confined (fun _ hi => writable_at 0 rfl hi) a).bind fun _ =>
      (hsearch 3).bind fun _ => (hflush _ _).bind fun _ => (hsearch 0).bind fun _ =>
        (hflush _ _).bind fun _ => copyLoop_confined (fun _ hi => writable_at 1 rfl hi) a

theorem apSearchTest_confined :
    ConfinedTo [(p.rvAddr .a, randomVectorsSize)] (apSearchTest p) := by
  refine (fillLoop_confined (fun _ hi => writable_cam .a0 hi) _).bind fun _ => ?_
  refine (store_confined (writable_cam .a0 (r := 10) (by decide)) 10).bind fun _ => ?_
  refine startComputeCycles_confined.bind fun _ => Keeps.bind ?_ fun _ =>
    endComputeCycles_confined.bind fun _ => ?_
  · exact apSearch_confined (writable_cam .b0 (by decide)) 10 .left .targetC
  · exact Keeps.forUpTo fun _ hi => (load_confined _).bind fun v =>
      store_confined (writable_at 0 rfl hi) v

/-- `ap_set_value`. On the left it is in the columns. -/
theorem setValue_left_confined (col : APCollunm) (value : UInt8) :
    ConfinedTo bs (apSetValue p col .left value) :=
  apSetValue_confined (by
    rw [finalAddr_left]
    exact writable_cam _ (by decide)) value

theorem setValueTest_confined : ConfinedTo (rightBlocks 1) (setValueTest p) :=
  (setValue_left_confined .camA 1).bind fun _ =>
    (apSetValue_confined (writable_at 0 rfl (by decide)) 2).bind fun _ =>
      (setValue_left_confined .camB 3).bind fun _ =>
        (apSetValue_confined (writable_at 1 rfl (by decide)) 4).bind fun _ =>
          (setValue_left_confined .camC 5).bind fun _ =>
            apSetValue_confined (writable_at 2 rfl (by decide)) 6

theorem functionalTest_confined (a b c : ℕ) (r : CheckResults) (i : ℕ) :
    ConfinedTo (Kernel.stored p (.functionalTest a b c r i)) (functionalTest p a b c r) := by
  have hcol : ∀ (col : Cam), ∀ j < 5,
      col.base + j ∈ writable (Kernel.stored p (.functionalTest a b c r i)) := fun col j hj =>
    writable_cam col (Nat.lt_trans hj (by decide))
  refine (fillLoop_confined (fun _ hj => writable_at 0 rfl hj) _).bind fun _ => ?_
  refine (fillLoop_confined (fun _ hj => writable_at 1 rfl hj) _).bind fun _ => ?_
  refine (fillLoop_confined (fun _ hj => writable_at 2 rfl hj) _).bind fun _ => ?_
  refine (copyLoop_confined (hcol .a0) a).bind fun _ => (copyLoop_confined (hcol .b0) b).bind
    fun _ => ?_
  refine start_then_confined _ _ _ <| wait_then_confined <| control_then_confined _ <|
    mode_then_confined _ ?_
  exact Keeps.forAcc fun _ hj _ => (load_confined _).bind fun v =>
    (store_confined (writable_at 2 rfl hj) v).bind fun _ => (tinyDelay_confined 1).bind fun _ =>
      (load_confined _).bind fun _ => .pure _

/-- All six columns, as one block. -/
theorem columns_confined (f : ℕ → UInt8) :
    ConfinedTo bs (forUpTo (apColSize * 6) fun i => store (Cam.a0.base + i) (f i)) := by
  have hbase : Cam.a0.base + apColSize * 6 = apControlRegistersBaseAddr := rfl
  exact fillLoop_confined (fun _ hi => writable_columns (by omega)) f

theorem flushTest_confined : ConfinedTo bs (flushTest p) := by
  have hflush : ∀ col ic, ConfinedTo bs (apFlushCol p col ic) := fun col ic =>
    call_confined (.apFlushCol col ic) (List.nil_subset _)
  refine (columns_confined _).bind fun _ => ?_
  exact (hflush _ _).bind fun _ => (hflush _ _).bind fun _ => (hflush _ _).bind fun _ =>
    (hflush _ _).bind fun _ => (hflush _ _).bind fun _ => hflush _ _

theorem opTargetSetup_confined : ConfinedTo bs (opTargetSetup p) :=
  (Keeps.forUpTo fun _ hi => (store_confined (writable_cam .b1 hi) _).bind fun _ =>
    store_confined (writable_cam .c1 hi) _).bind fun _ =>
      start_then_confined _ _ _ ((apWaitingForComputing_confined 3).bind fun _ => .pure ())

theorem apAccum_confined : ConfinedTo bs (apAccum p) := by
  have hcol : ∀ (c : Cam), ∀ i < 10, c.base + i ∈ writable bs := fun c i hi =>
    writable_cam c (Nat.lt_trans hi (by decide))
  have hadd : ConfinedTo bs (apTriggerComputing p .add .camA .left .horizontal .targetC) :=
    call_confined (.start (.triggerComputing .add .camA .left .horizontal .targetC))
      (List.nil_subset _)
  exact (Keeps.forUpTo fun i hi => (store_confined (hcol .b0 i hi) _).bind fun _ =>
    (tinyDelay_confined 1).bind fun _ => store_confined (hcol .c0 i hi) _).bind fun _ =>
      hadd.bind fun _ => hadd.bind fun _ => hadd

theorem apTestAddD_confined : ConfinedTo bs (apTestAddD p) := by
  have w : ∀ i x, i < apColSize → ConfinedTo bs (store (Cam.a1.base + i) x) := fun i x hi =>
    store_confined (writable_cam .a1 hi) x
  exact (w 0 _ (by decide)).bind fun _ => (w 1 _ (by decide)).bind fun _ =>
    (w 2 _ (by decide)).bind fun _ => (wWait_confined .addD .right).bind fun _ =>
      (w 0 _ (by decide)).bind fun _ => (w 1 _ (by decide)).bind fun _ =>
        (w 2 _ (by decide)).bind fun _ => wWait_confined .addD .right

/-! ### Runs -/

theorem void_confined {m : Prog Unit} (h : ConfinedTo bs m) : ConfinedTo bs (void m) :=
  h.bind fun _ => .pure 0

theorem valued_confined {m : Prog UInt8} (h : ConfinedTo bs m) : ConfinedTo bs (valued m) :=
  h.bind fun _ => .pure _

/-- A function. -/
theorem kernel_confined (k : Kernel) : ConfinedTo (k.stored p) (k.exec p) := by
  have hrv : VecsIn p [rvBlock p] := fun v _ hi => writable_vec 0 rfl v hi
  have hflag : simBreakAddr + 0 ∈ writable [(simBreakAddr, 1)] := writable_at 0 rfl (by decide)
  cases k with
  | simBreak => exact void_confined (storeFixed_confined hflag _)
  | basicMemTest =>
    exact void_confined ((storeFixed_confined hflag _).bind fun _ => (load_confined _).bind fun _ =>
      store_confined (writable_cam .a0 (r := 4) (by decide)) _)
  | basicMemTest2 => exact void_confined (columns_confined _)
  | flushTest => exact void_confined flushTest_confined
  | basicTests =>
    have h : 0x80003fec + 0 ∈ writable [(0x80003fec, 1)] := writable_at 0 rfl (by decide)
    exact void_confined ((storeFixed_confined h _).bind fun _ => storeFixed_confined h _)
  | setValueTest => exact void_confined setValueTest_confined
  | opTargetSetup => exact void_confined opTargetSetup_confined
  | pointerApRwTest => exact void_confined pointerApRwTest_confined
  | asmMemoryFunTests =>
    have hword : ConfinedTo [(simBreakAddr, 1)] (apStoreData Cam.b0.base 10) :=
      sw_confined (wordByte_columns (c := .b0) (i := 0) (by decide)) _
    exact void_confined (hword.bind fun _ => (storeFixed_confined hflag _).bind fun _ =>
      (lw_confined _).bind fun _ => store_confined hflag _)
  | accum =>
    have hcol : ∀ i < 10, Cam.a0.base + i ∈ writable [(0x80000100, 10)] := fun i hi =>
      writable_cam .a0 (Nat.lt_trans hi (by decide))
    exact void_confined ((fillLoop_confined hcol _).bind fun _ =>
      (call_confined (.start (.triggerVerticalComputingWWait .add .camA .left))
        (List.nil_subset _)).bind fun _ =>
          apMonitorBreakpoint_confined fun _ hi => writable_at 0 rfl hi)
  | apAccum => exact void_confined apAccum_confined
  | apSearchTest => exact void_confined apSearchTest_confined
  | apSetTest =>
    exact void_confined ((setValue_left_confined .camA 10).bind fun _ =>
      startComputeCycles_confined.bind fun _ =>
        (memset_confined (fun _ hi => writable_at 0 rfl hi) _).bind fun _ =>
          (memset_confined (fun _ hi => writable_at 1 rfl hi) _).bind fun _ =>
            endComputeCycles_confined)
  | apMemcpyTest =>
    exact void_confined (startComputeCycles_confined.bind fun _ =>
      (memcpy_confined (fun _ hi => writable_cam .a0 hi) _).bind fun _ =>
        endComputeCycles_confined)
  | apTestAddD => exact void_confined apTestAddD_confined
  | apMonitorBreakpoint =>
    exact void_confined (apMonitorBreakpoint_confined fun _ hi => writable_at 0 rfl hi)
  | accumulateHorizontal => exact void_confined accumulateHorizontal_confined
  | testVectorApOpHorizontal => exact void_confined testVectorApOpHorizontal_confined
  | sgemmGoldenCpuTest => exact void_confined sgemmGoldenCpuTest_confined
  | testVectorCpuOp =>
    exact void_confined (Keeps.bind (.mapM fun _ _ => vectorCpuOp_confined hrv _ _) fun _ =>
      .pure ())
  | cpuSearchTest => exact void_confined cpuSearchTest_confined
  | main =>
    have hA : Cam.a0.base + 6 * apColSize = apControlRegistersBaseAddr := rfl
    have hB : Cam.b0.base + 4 * apColSize = apControlRegistersBaseAddr := rfl
    have hcol : apColSize = 512 := rfl
    have hsize : randomVectorsSize = 512 := rfl
    exact valued_confined ((call_confined .warmupAp (List.nil_subset _)).bind fun _ =>
      matmulEvaluation_confined hrv (fun _ hi => writable_columns (by omega))
        (fun _ hi => writable_columns (by omega)) fun _ hi => hrv .c _ (by omega))
  | vectorCpuOpKernelOr =>
    exact void_confined (vectorCpuOpKernel_confined hrv _ (elements_confined (· ||| ·)))
  | vectorCpuOpKernelXor =>
    exact void_confined (vectorCpuOpKernel_confined hrv _ (elements_confined (· ^^^ ·)))
  | vectorCpuOpKernelAnd =>
    exact void_confined (vectorCpuOpKernel_confined hrv _ (elements_confined (· &&& ·)))
  | vectorCpuOpKernelNot =>
    exact void_confined (vectorCpuOpKernel_confined hrv _ fun _ =>
      (readVec_confined _ _).bind fun _ => .pure _)
  | vectorCpuOpKernelAdd =>
    exact void_confined (vectorCpuOpKernel_confined hrv _ (elements_confined (· + ·)))
  | vectorCpuOpKernelSub =>
    exact void_confined (vectorCpuOpKernel_confined hrv _ (elements_confined (· - ·)))
  | vectorCpuOpKernelMult =>
    exact void_confined (vectorCpuOpKernel_confined hrv _ (elements_confined (· * ·)))
  | fillRandomVectors op seed => exact void_confined (fillRandomVectors_confined hrv op seed)
  | checksum arr size => exact valued_confined (checksum_confined arr size)
  | apMonitor mon elements => exact void_confined (apMonitor_confined mon elements)
  | apComputingVerticalTest op ic seed A C => exact apComputingVerticalTest_confined op ic seed A C
  | apComputingHorizontalTest op ic seed A B =>
    exact apComputingHorizontalTest_confined op ic seed A B
  | testingInternalCols result => exact void_confined (testingInternalCols_confined result)
  | apiRWApTest buffer bufferRead => exact void_confined (apiRWApTest_confined buffer bufferRead)
  | functionalTest a b c r i => exact (functionalTest_confined a b c r i).bind fun _ => .pure _
  | vectorApOpKernelHorizontal op A B C size =>
    exact void_confined (vectorApOpKernelHorizontal_confined op A B C size)
  | fillACol factor size =>
    exact void_confined (fillLoop_confined (fun _ hi => writable_at 0 rfl hi) _)
  | fillABCols A B size =>
    exact void_confined (fillABCols_confined A B (fun _ hi => writable_at 0 rfl hi)
      fun _ hi => writable_at 1 rfl hi)
  | offload size => exact void_confined (offload_confined fun _ hi => writable_at 0 rfl hi)
  | vectorApOpHorizontal op size seed =>
    exact void_confined (vectorApOpHorizontal_confined op size seed)
  | testOffload size v => exact void_confined (testOffload_confined size v)
  | accumDataManipulation size =>
    exact void_confined (accumDataManipulation_confined (fun _ hi => writable_at 0 rfl hi)
      fun _ hi => writable_at 1 rfl hi)
  | apReduce a b rs rc n => exact void_confined (apReduce_confined a b rs rc n)
  | apMatrixColMm factor bytes iterator =>
    exact void_confined (apMatrixColMm_confined (fun _ hi => writable_at 0 rfl hi) factor iterator)
  | apMatrixColMmWindow factor bytes =>
    exact void_confined (apMatrixColMmWindow_confined factor bytes)
  | apMatrixColMmWindow2 factor bytes =>
    exact void_confined (apMatrixColMmWindow_confined factor bytes)
  | apMm m k n => exact void_confined (apMm_confined m k n)
  | apMmV2 m k n => exact void_confined (apMmV2_confined m k n)
  | apMmV3 m k n => exact void_confined (apMmV3_confined m k n)
  | apMmV4 m k n =>
    exact void_confined (apMmV4_confined (fun _ hi => writable_at 0 rfl hi)
      (fun _ hi => writable_at 1 rfl hi) k)
  | mmColsSetup m n index =>
    exact void_confined (mmColsSetup_confined (fun _ hi => writable_at 0 rfl hi)
      (fun _ hi => writable_at 1 rfl hi) index)
  | mmColsSetup2 cSize m n k index =>
    exact void_confined (mmColsSetup2_confined (fun _ hi => writable_at 0 rfl hi)
      (fun _ hi => writable_at 1 rfl hi) m n k index)
  | matmulCpu m k n => exact void_confined (matmulCpu_confined (fun _ hi => writable_at 0 rfl hi) k)
  | sgemmGolden m k n a b c =>
    exact void_confined (sgemmGolden_confined (fun _ hi => writable_at 0 rfl hi) k a b)
  | matmulGolden a b c n m o =>
    exact void_confined (matmulGolden_confined (fun _ hi => writable_at 0 rfl hi) a b c n o)
  | saxpyGolden n a x y => exact void_confined (saxpyGolden_confined n a x y)
  | reduceGolden a b rs rc n => exact void_confined (reduceGolden_confined a b rs rc n)
  | indexGolden a b c n => exact void_confined (indexGolden_confined a b c n)
  | accumKernel sum A size =>
    exact valued_confined (accumKernel_confined (writable_at (i := 0) 0 rfl (by decide)) A size)
  | vectorCpuOp seed size => exact void_confined (vectorCpuOp_confined hrv seed size)
  | testAccum sum => exact valued_confined (testAccum_confined sum)
  | matmulEvaluation d =>
    exact valued_confined (matmulEvaluation_confined (fun v _ hi => writable_vec 0 rfl v hi)
      (fun _ hi => writable_at 1 rfl hi) (fun _ hi => writable_at 2 rfl hi)
      fun _ hi => writable_at 3 rfl hi)

/-- Calls, one after the other. -/
theorem calls_confined (calls : List Call) :
    ConfinedTo (calls.flatMap (Call.stored p)) (calls.mapM (Call.exec p)) := by
  refine Keeps.mapM fun c hc => ?_
  have hsub : c.stored p ⊆ calls.flatMap (Call.stored p) := fun _ hb =>
    List.mem_flatMap.mpr ⟨c, hc, hb⟩
  cases c with
  | hal c => exact (value_confined c).mono hsub
  | kernel k => exact (kernel_confined k).mono hsub

/-- **What the firmware never writes.** On any processor and from every state, a run of the
firmware, of calls of every kind, changes no byte of memory but those of the columns and of the
blocks that its calls store, whether it returns, waits for ever or stops in the registers. The
cycle record and `check_results` are apart from that memory. -/
theorem firmware_confined (calls : List Call) (s : St) {a : ℕ} (hcol : ¬ InColumns a)
    (ha : a ∉ covered (calls.flatMap (Call.stored p))) :
    (finalState (calls.mapM (Call.exec p)) s).mem a = s.mem a :=
  calls_confined calls s a fun hin => hin.elim hcol ha

/-- A vector for the right side is stored past the registers, and a product is computed. -/
theorem firmware_confined_main :
    (finalState ([.hal (.apWriteVector .camC .right 0x80001000 512), .kernel .main].mapM
      (Call.exec (.reference 2))) (.rest someMem)).mem 0x80002000 = someMem 0x80002000 := by
  have hout : ∀ b ∈ [Call.hal (.apWriteVector .camC .right 0x80001000 512), .kernel .main].flatMap
      (Call.stored (.reference 2)), ¬(b.1 ≤ 0x80002000 ∧ 0x80002000 < b.1 + b.2) := by decide
  exact firmware_confined (s := .rest someMem) _ (by decide) fun ⟨b, hb, hin⟩ => hout b hb hin

end RocketAp.Kernels
