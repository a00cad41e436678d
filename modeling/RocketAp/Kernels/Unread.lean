import RocketAp.Hal.Refinement
import RocketAp.Kernels.Firmware
import RocketAp.ProgramLogic.RowMajor

/-!
# What the firmware loads

Every function above the layer reads the columns, `r_v_mgmt` and the literal addresses of the
tests, and besides these the blocks that its arguments give (`Kernel.loaded`): a buffer, or what
lies past a column or a vector where a dimension is too large. Where none of them is the
registers', it does not matter what memory holds at the registers' addresses (`call_overlooks`).
-/

namespace RocketAp.Kernels

open ProgramLogic Device Hal

variable {p : Platform} {α : Type}

/-! ### Where -/

/-- The blocks of `vector_ap_op_kernel_horizontal`, one of each vector for each chunk. -/
def chunkBlocks (A B size : ℕ) : List Block :=
  (List.range (size / apColSize + 1)).flatMap fun i =>
    [(A + apColSize * i, chunkSize size (apColSize * i)),
      (B + apColSize * i, chunkSize size (apColSize * i))]

/-- The words of `accum_data_manipulation`. -/
def halvesBlocks (size : ℕ) : List Block :=
  (List.range (size / 2)).flatMap fun i =>
    wordBlocks (Cam.c0.base + i) ++ wordBlocks (Cam.c0.base + size / 2 + i)

/-- What a function reads through pointers. A column and a vector of `r_v_mgmt` are left out where
the function stays inside, and a matrix is taken whole, its elements visited or not. -/
def Kernel.loaded (p : Platform) : Kernel → List Block
  | .checksum arr size => [(arr, size)]
  | .apComputingVerticalTest _ _ _ A _ => [(A, 10)]
  | .apComputingHorizontalTest _ _ _ A B => [(A, apColSize), (B, apColSize)]
  | .apiRWApTest buffer _ => [(buffer, apColSize)]
  | .functionalTest a b c _ _ => [(a, 5), (b, 5), (c, 5)]
  | .vectorApOpKernelHorizontal _ A B _ size => chunkBlocks A B size
  | .fillABCols A B size => [(A, size), (B, size)]
  | .offload size => [(Cam.c0.base, size)]
  | .testOffload size _ => [(Cam.c0.base, size.toNat)]
  | .accumDataManipulation size => halvesBlocks size
  | .apReduce a _ _ _ n => [(a, n)]
  | .apMatrixColMm _ bytes _ => [(Cam.c0.base, bytes)]
  | .apMm m k n =>
    [(p.rvAddr .a, m * k), (p.rvAddr .b, k * n), (Cam.c0.base, n), (Cam.c1.base, n)]
  | .apMmV2 m k n => [(p.rvAddr .a, m * k), (p.rvAddr .b, k * n), (Cam.a1.base, n)]
  | .apMmV3 m k n => [(p.rvAddr .a, m * k), (p.rvAddr .b, k * n)]
  | .apMmV4 m _ n => [(p.rvAddr .a, m * m), (p.rvAddr .b, m * n)]
  | .mmColsSetup m n index => [(p.rvAddr .a + index, m * m), (p.rvAddr .b + index * n, n)]
  | .mmColsSetup2 cSize _ n k index =>
    [(p.rvAddr .a + index, k * (cSize / n + 1) + 1), (p.rvAddr .b + index * n, cSize)]
  | .matmulCpu m k n => [(p.rvAddr .a, m * k), (p.rvAddr .b, k * n)]
  | .sgemmGolden m k n a b c => [(c, m * n), (a, m * k), (b, k * n)]
  -- its rows are wherever the pointers it reads say
  | .matmulGolden _ _ _ _ m o => [(0, 2 ^ 32 + m + o)]
  | .saxpyGolden n _ x y => [(x, n), (y, n)]
  | .reduceGolden a b _ _ n => [(a, n), (b, n)]
  | .indexGolden _ b c n => [(b, n), (c, n)]
  | .accumKernel sum A size => [(sum, 1), (A, size)]
  | .testAccum sum => [(sum, 1)]
  | .matmulEvaluation d => [(p.rvAddr .a, d * d), (p.rvAddr .b, d * d)]
  | _ => []

/-- What a call reads through pointers. -/
def Call.loaded (p : Platform) : Call → List Block
  | .hal c => c.loaded
  | .kernel k => k.loaded p

/-- What memory holds at the registers' addresses does not matter. -/
abbrev Overlooks (m : Prog α) : Prop := Simulates (Beside registers) m m

/-! ### Addresses that are not the registers' -/

theorem column_off {c : Cam} {i : ℕ} (h : c.base + i < apControlRegistersBaseAddr) :
    c.base + i ∉ registers := fun hin => Nat.not_lt.mpr hin.1 h

theorem cam_off (c : Cam) {i : ℕ} (h : i < apColSize) : c.base + i ∉ registers :=
  column_off (inColumns_base c h).2

/-- A byte of `r_v_mgmt`. -/
theorem rvMgmt_off {i : ℕ} (h : i < 3 * randomVectorsSize) : p.rvMgmt + i ∉ registers := by
  rintro ⟨hlo, hhi⟩
  have hap := p.rvMgmt_apart
  have hw := apWindow
  have hsize : randomVectorsSize = 512 := rfl
  omega

theorem rvA_off {i : ℕ} (h : i < 3 * randomVectorsSize) : p.rvAddr .a + i ∉ registers :=
  rvMgmt_off h

theorem rvB_off {i : ℕ} (h : i < 2 * randomVectorsSize) : p.rvAddr .b + i ∉ registers := by
  rw [Platform.rvAddr, Nat.add_assoc]
  exact rvMgmt_off (by omega)

theorem rv_off (v : RvVec) {i : ℕ} (h : i < randomVectorsSize) : p.rvAddr v + i ∉ registers := by
  cases v with
  | a => exact rvA_off (by omega)
  | b => exact rvB_off (by omega)
  | c =>
    rw [Platform.rvAddr, Nat.add_assoc]
    exact rvMgmt_off (by omega)

/-- None of the blocks is the registers'. -/
abbrev BlocksOff (bs : List Block) : Prop := ∀ a ∈ covered bs, a ∉ registers

theorem BlocksOff.sub {bs cs : List Block} (h : BlocksOff cs) (hsub : bs ⊆ cs) : BlocksOff bs :=
  fun a ha => h a (covered_mono hsub ha)

theorem BlocksOff.at {bs : List Block} (h : BlocksOff bs) (k : ℕ) {a n : ℕ}
    (hk : bs[k]? = some (a, n)) : ∀ i < n, a + i ∉ registers :=
  fun _ hi => h _ (mem_covered_at k hk hi)

/-! ### Accesses -/

theorem halCall_overlooks (c : HalCall) (h : BlocksOff c.loaded) : Overlooks (c.exec p) :=
  halCall_beside registers_not_columns c h

theorem writeMode_overlooks (w : UInt32) : Overlooks (p.writeMode w) :=
  writeMode_beside registers_not_columns w

theorem fillLoop_overlooks (dst n : ℕ) (f : ℕ → UInt8) :
    Overlooks (forUpTo n fun i => store (dst + i) (f i)) := .forUpTo fun _ => store_beside _ _

theorem tinyDelay_overlooks (n : ℕ) : Overlooks (tinyDelay n) := .forUpTo fun _ => .pure ()

/-- A call that reads no memory but the columns. -/
theorem noLoad_overlooks {c : HalCall} (h : c.loaded = []) : Overlooks (c.exec p) :=
  halCall_overlooks c fun a ⟨b, hb, _⟩ => by
    rw [h] at hb
    cases hb

theorem wWait_overlooks (op : APOperations) (internalCol : APInternalCollunm) :
    Overlooks (apTriggerComputingWWait p op .horizontal internalCol) :=
  noLoad_overlooks (c := .start (.triggerComputingWWait op .horizontal internalCol)) rfl

theorem wWaitTargetA_overlooks (op : APOperations) (internalCol : UInt8) :
    Overlooks (apTriggerComputingWWaitTargetA p op .horizontal internalCol) :=
  noLoad_overlooks (c := .start (.triggerComputingWWaitTargetA op .horizontal internalCol)) rfl

theorem vectorRead_overlooks (col : APCollunm) (internalCol : APInternalCollunm) (V size : ℕ) :
    Overlooks (apReadVector col internalCol V size) :=
  .ite (fun _ => .pure ()) fun hsize => copyBytes_beside
    (fun _ hi => (offRegisters_finalAddr col internalCol (Nat.not_lt.mp hsize)).notMem hi) _

theorem vectorWrite_overlooks {V size : ℕ} (h : ∀ i < size, V + i ∉ registers) (col : APCollunm)
    (internalCol : APInternalCollunm) : Overlooks (apWriteVector col internalCol V size) :=
  .ite (fun _ => .pure ()) fun _ => copyBytes_beside h _

theorem word_overlooks {dest src : ℕ} (h : BlocksOff (wordBlocks src)) :
    Overlooks (apGetDataTo dest src) :=
  (lw_beside h).bind fun _ => store_beside _ _

/-! ### Functions that leave the processor alone -/

theorem fillRandomVectors_overlooks (op : APOperations) (seed : ℤ) :
    Overlooks (fillRandomVectors p op seed) :=
  .forUpTo fun _ => (store_beside _ _).bind fun _ => (store_beside _ _).bind fun _ =>
    store_beside _ _

theorem checksum_overlooks {arr size : ℕ} (h : ∀ i < size, arr + i ∉ registers) :
    Overlooks (checksum arr size) :=
  .forAccLt fun i hi _ => (load_beside (h i hi)).bind fun _ => .pure _

theorem apMonitor_overlooks (mon elements : ℕ) : Overlooks (apMonitor mon elements) := by
  refine .ite (fun _ => .pure ()) fun hle => ?_
  have hcol : apColSize = 512 := rfl
  have hmon : monitorVectorsSize = 10 := rfl
  have hloop : ∀ c vec, Overlooks (apMonitorLoop c vec elements) := fun c vec =>
    copyBytes_beside (fun i hi => cam_off c (by omega)) vec
  exact (hloop _ _).bind fun _ => (hloop _ _).bind fun _ => (hloop _ _).bind fun _ =>
    (hloop _ _).bind fun _ => (hloop _ _).bind fun _ => hloop _ _

theorem accumKernel_overlooks {sum A size : ℕ} (hsum : sum ∉ registers)
    (hA : ∀ i < size, A + i ∉ registers) : Overlooks (accumKernel sum A size) :=
  (Matches.forUpToLt fun i hi => (load_beside hsum).bind fun _ => (load_beside (hA i hi)).bind
    fun _ => store_beside _ _).bind fun _ => load_beside hsum

theorem fillABCols_overlooks {A B size : ℕ} (hA : ∀ i < size, A + i ∉ registers)
    (hB : ∀ i < size, B + i ∉ registers) : Overlooks (fillABCols A B size) :=
  (copyBytes_beside hA _).bind fun _ => copyBytes_beside hB _

theorem accumDataManipulation_overlooks {size : ℕ} (h : BlocksOff (halvesBlocks size)) :
    Overlooks (accumDataManipulation size) := by
  have hsub : ∀ i < size / 2, wordBlocks (Cam.c0.base + i) ++
      wordBlocks (Cam.c0.base + size / 2 + i) ⊆ halvesBlocks size := fun i hi _ hb =>
    List.mem_flatMap.mpr ⟨i, List.mem_range.mpr hi, hb⟩
  refine .forUpToLt fun i hi => (word_overlooks ?_).bind fun _ => word_overlooks ?_
  · exact h.sub (List.Subset.trans (List.subset_append_left _ _) (hsub i hi))
  · exact h.sub (List.Subset.trans (List.subset_append_right _ _) (hsub i hi))

theorem testOffload_overlooks {size : ℤ} (h : ∀ i < size.toNat, Cam.c0.base + i ∉ registers)
    (v : ℕ) : Overlooks (testOffload p size v) :=
  (Matches.forUpTo fun _ => storeFixed_beside _ _).bind fun _ =>
    startComputeCycles_beside.bind fun _ => (fillLoop_overlooks _ _ _).bind fun _ =>
      endComputeCycles_beside.bind fun _ => startComputeCycles_beside.bind fun _ =>
        (Matches.forUpToLt fun i hi => (load_beside (h i hi)).bind fun _ =>
          storeFixed_beside _ _).bind fun _ =>
            endComputeCycles_beside.bind fun _ => startComputeCycles_beside.bind fun _ =>
              (copyBytes_beside h _).bind fun _ => endComputeCycles_beside

theorem mmColsSetup_overlooks {m n index : ℕ}
    (hA : ∀ i < m, p.rvAddr .a + (i * m + index) ∉ registers)
    (hB : ∀ j < n, p.rvAddr .b + (index * n + j) ∉ registers) :
    Overlooks (mmColsSetup p m n index) :=
  .forUpToLt fun i hi => .forUpToLt fun j hj => (readVec_beside (hA i hi)).bind fun _ =>
    (store_beside _ _).bind fun _ => (readVec_beside (hB j hj)).bind fun _ => store_beside _ _

/-- How many rows of `A` the index of `mm_cols_setup_2` has gone down at element `i`. With rows of
no elements it goes down once. -/
def rowsDown (n i : ℕ) : ℕ := if n = 0 then min i 1 else i / n

theorem rowsDown_succ (n i : ℕ) :
    rowsDown n (i + 1) = if i % n = n - 1 then rowsDown n i + 1 else rowsDown n i := by
  unfold rowsDown
  by_cases hn : n = 0
  · subst hn
    simp only [if_true, Nat.mod_zero]
    split <;> omega
  · simp only [if_neg hn]
    exact rowMajor_div_succ (Nat.pos_of_ne_zero hn)

theorem rowsDown_le {n i size : ℕ} (hi : i ≤ size) : rowsDown n i ≤ size / n + 1 := by
  unfold rowsDown
  split
  · exact Nat.le_add_left_of_le (Nat.min_le_right i 1)
  · exact Nat.le_succ_of_le (Nat.div_le_div_right hi)

theorem mmColsSetup2_overlooks {cSize n k index : ℕ} (m : ℕ)
    (hA : ∀ i < k * (cSize / n + 1) + 1, p.rvAddr .a + index + i ∉ registers)
    (hB : ∀ i < cSize, p.rvAddr .b + index * n + i ∉ registers) :
    Overlooks (mmColsSetup2 p cSize m n k index) := by
  refine Matches.bind (.forAccKeeping (I := fun i aIndex => aIndex = index + k * rowsDown n i)
    ?_ (fun i hi aIndex hI => ?_) fun i aIndex s hI => ?_) fun _ => .pure ()
  · unfold rowsDown
    split <;> simp
  · have hrow : k * rowsDown n i ≤ k * (cSize / n + 1) :=
      Nat.mul_le_mul_left k (rowsDown_le (Nat.le_of_lt hi))
    have hcol : i % n < cSize := Nat.lt_of_le_of_lt (Nat.mod_le i n) hi
    refine (readVec_beside ?_).bind fun _ => (store_beside _ _).bind fun _ =>
      (readVec_beside ?_).bind fun _ => (store_beside _ _).bind fun _ =>
        .ite (fun _ => .pure _) fun _ => .pure _
    · rw [hI, ← Nat.add_assoc]
      exact hA _ (Nat.lt_succ_of_le hrow)
    · rw [← Nat.add_assoc]
      exact hB _ hcol
  · refine .after fun _ _ => .after fun _ _ => .after fun _ _ => .after fun _ _ => ?_
    rintro a t hr
    rw [rowsDown_succ]
    split at hr
    · next hlast =>
      cases hr
      rw [if_pos hlast, hI]
      ring
    · next hnot =>
      cases hr
      rw [if_neg hnot, hI]

theorem matmulCpu_overlooks {m k n : ℕ} (hA : ∀ i < m * k, p.rvAddr .a + i ∉ registers)
    (hB : ∀ i < k * n, p.rvAddr .b + i ∉ registers) : Overlooks (matmulCpu p m k n) :=
  .forUpToLt fun _ hi => .forUpToLt fun _ hj =>
    (Matches.forAccLt fun _ hl _ => (readVec_beside (hA _ (rowMajor_lt hi hl))).bind fun _ =>
      (readVec_beside (hB _ (rowMajor_lt hl hj))).bind fun _ => .pure _).bind fun _ =>
        store_beside _ _

theorem sgemmGolden_overlooks {m k n a b c : ℕ} (hc : ∀ i < m * n, c + i ∉ registers)
    (ha : ∀ i < m * k, a + i ∉ registers) (hb : ∀ i < k * n, b + i ∉ registers) :
    Overlooks (sgemmGolden m k n a b c) :=
  .forUpToLt fun i hi => .forUpToLt fun j hj => .forUpToLt fun l hl =>
    (load_beside (hc _ (rowMajor_lt hi hj))).bind fun _ =>
      (load_beside (ha _ (rowMajor_lt hi hl))).bind fun _ =>
        (load_beside (by rw [Nat.add_comm j]; exact hb _ (rowMajor_lt hl hj))).bind fun _ =>
          store_beside _ _

theorem pointerApRwTest_overlooks : Overlooks pointerApRwTest := by
  have hcol : ∀ i < apColSize * 6, 0x80004000 + i ∉ registers := fun i hi =>
    column_off (c := .a0) (Nat.add_lt_add_left hi _)
  have hdelay := tinyDelay_overlooks 1
  exact (Matches.forUpTo fun _ => (store_beside _ _).bind fun _ => hdelay).bind fun _ =>
    (Matches.forUpToLt fun i hi => (load_beside (hcol i hi)).bind fun _ =>
      (storeFixed_beside _ _).bind fun _ => hdelay).bind fun _ =>
        .forUpToLt fun i hi => (load_beside (hcol i hi)).bind fun _ =>
          (storeFixed_beside _ _).bind fun _ => hdelay

theorem testingInternalCols_overlooks (result : ℕ) : Overlooks (testingInternalCols result) := by
  have hdelay := tinyDelay_overlooks 1
  exact (Matches.forUpTo fun _ => (store_beside _ _).bind fun _ => hdelay).bind fun _ =>
    .forUpToLt fun i hi => (load_beside (cam_off .a0 (Nat.lt_trans hi (by decide)))).bind fun _ =>
      (store_beside _ _).bind fun _ => hdelay

theorem apiRWApTest_overlooks {buffer : ℕ} (h : ∀ i < apColSize, buffer + i ∉ registers)
    (bufferRead : ℕ) : Overlooks (apiRWApTest buffer bufferRead) := by
  have hround : ∀ col ic off, Overlooks (apiRWRound buffer bufferRead col ic off) :=
    fun _ _ _ => (fillLoop_overlooks _ _ _).bind fun _ => (vectorWrite_overlooks h _ _).bind
      fun _ => vectorRead_overlooks _ _ _ _
  exact (hround _ _ _).bind fun _ => (hround _ _ _).bind fun _ => (hround _ _ _).bind fun _ =>
    (hround _ _ _).bind fun _ => (hround _ _ _).bind fun _ => hround _ _ _

theorem saxpyGolden_overlooks {n x y : ℕ} (hx : ∀ i < n, x + i ∉ registers)
    (hy : ∀ i < n, y + i ∉ registers) (a : UInt8) : Overlooks (saxpyGolden n a x y) :=
  .forUpToLt fun i hi => (load_beside (hx i hi)).bind fun _ => (load_beside (hy i hi)).bind
    fun _ => store_beside _ _

theorem reduceGolden_overlooks {a b n : ℕ} (ha : ∀ i < n, a + i ∉ registers)
    (hb : ∀ i < n, b + i ∉ registers) (resultSum resultCount : ℕ) :
    Overlooks (reduceGolden a b resultSum resultCount n) := by
  refine Matches.bind (.forAccLt fun i hi _ => (load_beside (ha i hi)).bind fun _ => .ite
    (fun _ => (load_beside (ha i hi)).bind fun _ => (load_beside (hb i hi)).bind fun _ => .pure _)
    fun _ => .pure _) fun _ => ?_
  exact (store_beside _ _).bind fun _ => store_beside _ _

theorem indexGolden_overlooks {b c n : ℕ} (hb : ∀ i < n, b + i ∉ registers)
    (hc : ∀ i < n, c + i ∉ registers) (a : ℕ) : Overlooks (indexGolden a b c n) :=
  .forUpToLt fun i hi => (load_beside (hb i hi)).bind fun _ => (load_beside (hc i hi)).bind
    fun _ => store_beside _ _

theorem vectorCpuOpKernel_overlooks (op : APOperations) {f : ℕ → Prog UInt8}
    (hf : ∀ i < randomVectorsSize, Overlooks (f i)) : Overlooks (vectorCpuOpKernel p op f) := by
  have hloop : Overlooks (vectorCpuOpLoop p f) :=
    .forUpToLt fun i hi => (hf i hi).bind fun _ => store_beside _ _
  exact (fillRandomVectors_overlooks _ _).bind fun _ => startComputeCycles_beside.bind fun _ =>
    hloop.bind fun _ => hloop.bind fun _ => hloop.bind fun _ => hloop.bind fun _ =>
      endComputeCycles_beside

/-- An element that is computed from one of `A` and one of `B`. -/
theorem elements_overlook (f : UInt8 → UInt8 → UInt8) : ∀ i < randomVectorsSize,
    Overlooks (do return f (← p.readVec .a i) (← p.readVec .b i)) := fun _ hi =>
  (readVec_beside (rv_off .a hi)).bind fun _ => (readVec_beside (rv_off .b hi)).bind fun _ =>
    .pure _

theorem vectorCpuOp_overlooks (seed : Int8) (size : ℕ) : Overlooks (vectorCpuOp p seed size) :=
  (fillRandomVectors_overlooks _ _).bind fun _ => startComputeCycles_beside.bind fun _ =>
    (vectorCpuOpKernel_overlooks _ (elements_overlook (· * ·))).bind fun _ =>
      endComputeCycles_beside

theorem testAccum_overlooks {sum : ℕ} (hsum : sum ∉ registers) : Overlooks (testAccum p sum) :=
  (Matches.forUpTo fun _ => store_beside _ _).bind fun _ =>
    startComputeCycles_beside.bind fun _ =>
      (accumKernel_overlooks hsum fun _ hi => rvA_off (Nat.lt_trans hi (by decide))).bind fun _ =>
        endComputeCycles_beside.bind fun _ => .pure _

theorem cpuSearchTest_overlooks : Overlooks (cpuSearchTest p) :=
  (Matches.forUpTo fun _ => store_beside _ _).bind fun _ => (store_beside _ _).bind fun _ =>
    startComputeCycles_beside.bind fun _ => (Matches.forUpToLt fun _ hi =>
      (readVec_beside (rvA_off (Nat.lt_trans hi (by decide)))).bind fun _ =>
        .ite (fun _ => store_beside _ _) fun _ => store_beside _ _).bind fun _ =>
          endComputeCycles_beside

theorem sgemmGoldenCpuTest_overlooks : Overlooks (sgemmGoldenCpuTest p) := by
  have hsize : randomVectorsSize = 512 := rfl
  have w : ∀ v i x, Overlooks (p.writeVec v i x) := fun _ _ x => store_beside _ x
  refine (w _ _ _).bind fun _ => (w _ _ _).bind fun _ => (w _ _ _).bind fun _ =>
    (w _ _ _).bind fun _ => (w _ _ _).bind fun _ => (w _ _ _).bind fun _ =>
    (w _ _ _).bind fun _ => (w _ _ _).bind fun _ => (w _ _ _).bind fun _ =>
    (w _ _ _).bind fun _ => (w _ _ _).bind fun _ => (w _ _ _).bind fun _ =>
    (w _ _ _).bind fun _ => (w _ _ _).bind fun _ => (w _ _ _).bind fun _ =>
    (w _ _ _).bind fun _ => (w _ _ _).bind fun _ => (w _ _ _).bind fun _ =>
    (w _ _ _).bind fun _ => (w _ _ _).bind fun _ => (w _ _ _).bind fun _ => ?_
  refine startComputeCycles_beside.bind fun _ => Matches.bind ?_ fun _ => endComputeCycles_beside
  exact .forUpToLt fun i hi => .forUpToLt fun j hj => .forUpToLt fun k hk =>
    (readVec_beside (rv_off .c (by omega))).bind fun _ =>
      (readVec_beside (rv_off .a (by omega))).bind fun _ =>
        (readVec_beside (rv_off .b (by omega))).bind fun _ => w _ _ _

/-! ### Functions that use it -/

theorem offload_overlooks {size : ℕ} (h : ∀ i < size, Cam.c0.base + i ∉ registers) :
    Overlooks (offload p size) :=
  (writeMode_overlooks _).bind fun _ =>
    .forUpToLt fun i hi => (load_beside (h i hi)).bind fun v => storeFixed_beside _ v

/-- `C_0` and the column after it. -/
theorem offload_columns {size : ℕ} (h : size ≤ 2 * apColSize) : Overlooks (offload p size) := by
  have hend : Cam.c0.base + 2 * apColSize = apControlRegistersBaseAddr := rfl
  exact offload_overlooks fun i hi => column_off (by omega)

theorem apMonitorBreakpoint_overlooks : Overlooks (apMonitorBreakpoint p) :=
  (writeMode_overlooks _).bind fun _ => (writeMode_overlooks _).bind fun _ =>
    (writeMode_overlooks _).bind fun _ => (writeMode_overlooks _).bind fun _ =>
      (writeMode_overlooks _).bind fun _ => (writeMode_overlooks _).bind fun _ =>
        offload_columns (by decide)

theorem apComputingHorizontalTest_overlooks {A B : ℕ}
    (h : BlocksOff [(A, apColSize), (B, apColSize)]) (op : APOperations)
    (internalCol : APInternalCollunm) (seed : UInt8) :
    Overlooks (apComputingHorizontalTest p op internalCol seed A B) := by
  refine Matches.bind (.forUpTo fun _ => (store_beside _ _).bind fun _ => store_beside _ _)
    fun _ => ?_
  refine (halCall_overlooks (.start (.computing op internalCol .horizontal A B apColSize)) h).bind
    fun _ => startComputeCycles_beside.bind fun _ => waitIrq_beside.bind fun _ =>
      endComputeCycles_beside.bind fun _ =>
        (writeControl_beside registers_not_columns _).bind fun _ => ?_
  refine Matches.bind (.allUpToLt fun i hi => (load_beside (h.at 0 rfl i hi)).bind fun _ =>
    (load_beside (h.at 1 rfl i hi)).bind fun _ => (load_beside (cam_off .c0 hi)).bind fun _ =>
      .pure _) fun _ => ?_
  exact .ite (fun _ => .pure _) fun _ => .pure _

theorem vectorApOpKernelHorizontal_overlooks {A B size : ℕ} (h : BlocksOff (chunkBlocks A B size))
    (op : APOperations) (C : ℕ) : Overlooks (vectorApOpKernelHorizontal p op A B C size) := by
  refine .forUpToLt fun i hi => ?_
  have hchunk : BlocksOff [(A + apColSize * i, chunkSize size (apColSize * i)),
      (B + apColSize * i, chunkSize size (apColSize * i))] :=
    h.sub fun _ hb => List.mem_flatMap.mpr ⟨i, List.mem_range.mpr hi, hb⟩
  exact (vectorWrite_overlooks (hchunk.at 0 rfl) _ _).bind fun _ =>
    (vectorWrite_overlooks (hchunk.at 1 rfl) _ _).bind fun _ => (wWait_overlooks op .left).bind
      fun _ => vectorRead_overlooks _ _ _ _

theorem vectorApOpHorizontal_overlooks (op : APOperations) (size seed : ℤ) :
    Overlooks (vectorApOpHorizontal p op size seed) := by
  have hstart := startComputeCycles_beside (p := p) (W := registers)
  have hend := endComputeCycles_beside (p := p) (W := registers)
  have hl := wWait_overlooks (p := p) op .left
  have hr := wWait_overlooks (p := p) op .right
  have hoff : Overlooks (offload p 1024) := offload_columns (by decide)
  have hcol : apColSize = 512 := rfl
  have hsize : randomVectorsSize = 512 := rfl
  have hfill : ∀ n ≤ 1024, Overlooks (fillABCols (p.rvAddr .a) (p.rvAddr .b) n) := fun n hn =>
    fillABCols_overlooks (fun i hi => rvA_off (by omega)) fun i hi => rvB_off (by omega)
  refine (fillRandomVectors_overlooks op size).bind fun _ => ?_
  -- each test goes on with what follows it, whichever way it goes
  refine .iteThen ?_ fun hle hrest => (hfill _ (by omega)).bind fun _ => hstart.bind fun _ =>
    hl.bind fun _ => hend.bind fun _ => hrest
  refine .iteThen ?_ fun hle hrest => (hfill _ (by omega)).bind fun _ => hstart.bind fun _ =>
    hl.bind fun _ => hr.bind fun _ => hend.bind fun _ => hrest
  refine .iteThen ?_ fun _ hrest => (hfill _ (Nat.le_refl _)).bind fun _ => hstart.bind fun _ =>
    hl.bind fun _ => hr.bind fun _ => hoff.bind fun _ => hl.bind fun _ => hr.bind fun _ =>
      hend.bind fun _ => hrest
  refine .iteThen ?_ fun _ hrest => (hfill _ (Nat.le_refl _)).bind fun _ => hstart.bind fun _ =>
    hl.bind fun _ => hr.bind fun _ => hoff.bind fun _ => hl.bind fun _ => hr.bind fun _ =>
      hoff.bind fun _ => hl.bind fun _ => hr.bind fun _ => hoff.bind fun _ => hl.bind fun _ =>
        hr.bind fun _ => hend.bind fun _ => hrest
  exact apMonitorBreakpoint_overlooks.bind fun _ => noLoad_overlooks (c := .warmupAp) rfl

theorem testVectorApOpHorizontal_overlooks : Overlooks (testVectorApOpHorizontal p) := by
  have h := vectorApOpHorizontal_overlooks (p := p) .not
  exact (h _ _).bind fun _ => (h _ _).bind fun _ => (h _ _).bind fun _ => (h _ _).bind fun _ =>
    (h _ _).bind fun _ => (h _ _).bind fun _ => (h _ _).bind fun _ => h _ _

theorem word_columns {c : Cam} {i : ℕ} (h : c.base + i + 3 < apControlRegistersBaseAddr) :
    BlocksOff (wordBlocks (c.base + i)) := by
  have hw := apWindow
  have hoff : ∀ k < 4, wordByte (c.base + i) k ∉ registers := by
    rintro k hk ⟨hlo, -⟩
    rw [wordByte, Nat.mod_eq_of_lt (by omega)] at hlo
    omega
  rintro a ⟨b, hb, hlo, hhi⟩
  simp only [wordBlocks, List.mem_cons, List.not_mem_nil, or_false] at hb
  obtain rfl | rfl | rfl | rfl := hb
  all_goals
    rw [Nat.le_antisymm (Nat.le_of_lt_succ hhi) hlo]
    exact hoff _ (by decide)

/-- Up to the size of a column the words are in `C_0` and the column after it. -/
theorem halves_columns {size : ℕ} (h : size ≤ apColSize) : BlocksOff (halvesBlocks size) := by
  have hend : Cam.c0.base + 2 * apColSize = apControlRegistersBaseAddr := rfl
  have hcol : apColSize = 512 := rfl
  rintro a ⟨b, hb, hab⟩
  obtain ⟨i, hi, hb⟩ := List.mem_flatMap.mp hb
  rw [List.mem_range] at hi
  obtain hb | hb := List.mem_append.mp hb
  · exact word_columns (c := .c0) (i := i) (by omega) a ⟨b, hb, hab⟩
  · rw [Nat.add_assoc] at hb
    exact word_columns (c := .c0) (i := size / 2 + i) (by omega) a ⟨b, hb, hab⟩

theorem accumulateHorizontal_overlooks : Overlooks (accumulateHorizontal p) :=
  (Matches.forUpTo fun _ => (sw_beside _ _).bind fun _ => sw_beside _ _).bind fun _ =>
    apMonitorBreakpoint_overlooks.bind fun _ => startComputeCycles_beside.bind fun _ =>
      (Matches.forHalvingUpTo fun _ hi => (wWait_overlooks .add .left).bind fun _ =>
        apMonitorBreakpoint_overlooks.bind fun _ =>
          accumDataManipulation_overlooks (halves_columns hi)).bind fun _ =>
            endComputeCycles_beside

theorem setCamALeft_overlooks (factor : UInt8) : Overlooks (apSetValueCamALeft p factor) :=
  noLoad_overlooks (c := .start (.setValueCamALeft factor)) rfl

theorem flushC0_overlooks : Overlooks (apFlushC0 p) := noLoad_overlooks (c := .apFlushC0) rfl

theorem apMatrixColMm_overlooks {bytes : ℕ} (h : ∀ i < bytes, Cam.c0.base + i ∉ registers)
    (factor : UInt8) (iterator : ℕ) : Overlooks (apMatrixColMm p factor bytes iterator) :=
  (setCamALeft_overlooks factor).bind fun _ => (wWait_overlooks .mult .left).bind fun _ =>
    (memcpy_beside h _).bind fun _ => (wWait_overlooks .addD .right).bind fun _ =>
      flushC0_overlooks

theorem apMatrixColMmWindow_overlooks (factor : UInt8) (bytes : ℕ) :
    Overlooks (apMatrixColMmWindow p factor bytes) :=
  (setCamALeft_overlooks factor).bind fun _ => (wWait_overlooks .mult .left).bind fun _ =>
    (wWaitTargetA_overlooks .addD 0b011).bind fun _ => flushC0_overlooks

/-- A row of `B`. -/
theorem rowB_overlooks {n k j : ℕ} (h : ∀ i < k * n, p.rvAddr .b + i ∉ registers) (hj : j < k)
    (target : ℕ) : Overlooks (apMemcpy target (p.rvAddr .b + j * n) n) := by
  refine memcpy_beside (fun i hi => ?_) target
  rw [Nat.add_assoc]
  exact h _ (rowMajor_lt hj hi)

theorem apMm_overlooks {m k n : ℕ} (h : BlocksOff ((Kernel.apMm m k n).loaded p)) :
    Overlooks (apMm p m k n) :=
  .forUpToLt fun _ hi => (Matches.forUpToLt fun j hj => (rowB_overlooks (h.at 1 rfl) hj _).bind
    fun _ => (readVec_beside (h.at 0 rfl _ (rowMajor_lt hi hj))).bind fun x =>
      apMatrixColMm_overlooks (h.at 2 rfl) x j).bind fun _ =>
        (memcpy_beside (h.at 3 rfl) _).bind fun _ => noLoad_overlooks (c := .apFlushC1) rfl

theorem apMmV2_overlooks {m k n : ℕ} (h : BlocksOff ((Kernel.apMmV2 m k n).loaded p)) :
    Overlooks (apMmV2 p m k n) :=
  .forUpToLt fun _ hi => (Matches.forUpToLt fun _ hj => (rowB_overlooks (h.at 1 rfl) hj _).bind
    fun _ => (readVec_beside (h.at 0 rfl _ (rowMajor_lt hi hj))).bind fun x =>
      apMatrixColMmWindow_overlooks x n).bind fun _ =>
        (memcpy_beside (h.at 2 rfl) _).bind fun _ => noLoad_overlooks (c := .apFlushA1) rfl

theorem apMmV3_overlooks {m k n : ℕ} (h : BlocksOff ((Kernel.apMmV3 m k n).loaded p)) :
    Overlooks (apMmV3 p m k n) :=
  .forUpToLt fun _ hi => .forUpToLt fun _ hj => (rowB_overlooks (h.at 1 rfl) hj _).bind fun _ =>
    (readVec_beside (h.at 0 rfl _ (rowMajor_lt hi hj))).bind fun x =>
      apMatrixColMmWindow_overlooks x n

theorem apMmV4_overlooks {m n : ℕ} (hA : ∀ i < m * m, p.rvAddr .a + i ∉ registers)
    (hB : ∀ i < m * n, p.rvAddr .b + i ∉ registers) (k : ℕ) : Overlooks (apMmV4 p m k n) :=
  .forUpToLt fun _ hi => (mmColsSetup_overlooks (fun _ hj => hA _ (rowMajor_lt hj hi))
    fun _ hj => hB _ (rowMajor_lt hi hj)).bind fun _ => (wWait_overlooks .mult .left).bind fun _ =>
      (wWaitTargetA_overlooks .addD 0b011).bind fun _ => flushC0_overlooks

theorem matmulEvaluation_overlooks {d : ℕ} (hA : ∀ i < d * d, p.rvAddr .a + i ∉ registers)
    (hB : ∀ i < d * d, p.rvAddr .b + i ∉ registers) : Overlooks (matmulEvaluation p d) := by
  have hsum := checksum_overlooks fun _ hi => rv_off (p := p) .c hi
  exact (fillRandomVectors_overlooks _ _).bind fun _ => startComputeCycles_beside.bind fun _ =>
    (apMmV4_overlooks hA hB d).bind fun _ => endComputeCycles_beside.bind fun _ =>
      (memcpy_beside (fun _ hi => cam_off .a1 hi) _).bind fun _ => hsum.bind fun _ =>
        (memset_beside _ _ _).bind fun _ => startComputeCycles_beside.bind fun _ =>
          (matmulCpu_overlooks hA hB).bind fun _ => endComputeCycles_beside.bind fun _ =>
            hsum.bind fun _ => .ite (fun _ => .pure _) fun _ => .pure _

theorem main_overlooks : Overlooks (main p) := by
  have hsize : randomVectorsSize = 512 := rfl
  exact (noLoad_overlooks (c := .warmupAp) rfl).bind fun _ =>
    matmulEvaluation_overlooks (fun _ hi => rv_off .a (by omega)) fun _ hi => rv_off .b (by omega)

theorem flushCol_overlooks (col : APCollunm) (internalCol : APInternalCollunm) :
    Overlooks (apFlushCol p col internalCol) := noLoad_overlooks (c := .apFlushCol ..) rfl

theorem search_overlooks (key : UInt8) (internalCol : APInternalCollunm) (target : OpTarget) :
    Overlooks (apSearch p key internalCol target) :=
  noLoad_overlooks (c := .start (.search ..)) rfl

theorem flushTest_overlooks : Overlooks (flushTest p) :=
  (fillLoop_overlooks _ _ _).bind fun _ => (flushCol_overlooks _ _).bind fun _ =>
    (flushCol_overlooks _ _).bind fun _ => (flushCol_overlooks _ _).bind fun _ =>
      (flushCol_overlooks _ _).bind fun _ => (flushCol_overlooks _ _).bind fun _ =>
        flushCol_overlooks _ _

theorem setValueTest_overlooks : Overlooks (setValueTest p) := by
  have h := fun col ic v => noLoad_overlooks (p := p) (c := .start (.setValue col ic v)) rfl
  exact (h _ _ _).bind fun _ => (h _ _ _).bind fun _ => (h _ _ _).bind fun _ =>
    (h _ _ _).bind fun _ => (h _ _ _).bind fun _ => h _ _ _

theorem apReduce_overlooks {a n : ℕ} (h : ∀ i < n, a + i ∉ registers)
    (b resultSum resultCount : ℕ) : Overlooks (apReduce p a b resultSum resultCount n) :=
  (flushCol_overlooks _ _).bind fun _ => (copyBytes_beside h _).bind fun _ =>
    (search_overlooks _ _ _).bind fun _ => (flushCol_overlooks _ _).bind fun _ =>
      (search_overlooks _ _ _).bind fun _ => (flushCol_overlooks _ _).bind fun _ =>
        copyBytes_beside h _

theorem apSearchTest_overlooks : Overlooks (apSearchTest p) :=
  (fillLoop_overlooks _ _ _).bind fun _ => (store_beside _ _).bind fun _ =>
    startComputeCycles_beside.bind fun _ => (search_overlooks _ _ _).bind fun _ =>
      endComputeCycles_beside.bind fun _ => .forUpToLt fun _ hi =>
        (load_beside (cam_off .c0 hi)).bind fun _ => store_beside _ _

theorem apSetTest_overlooks : Overlooks (apSetTest p) :=
  (noLoad_overlooks (c := .start (.setValue ..)) rfl).bind fun _ =>
    startComputeCycles_beside.bind fun _ => (memset_beside _ _ _).bind fun _ =>
      (memset_beside _ _ _).bind fun _ => endComputeCycles_beside

theorem apTestAddD_overlooks : Overlooks (apTestAddD p) :=
  (store_beside _ _).bind fun _ => (store_beside _ _).bind fun _ => (store_beside _ _).bind fun _ =>
    (wWait_overlooks .addD .right).bind fun _ => (store_beside _ _).bind fun _ =>
      (store_beside _ _).bind fun _ => (store_beside _ _).bind fun _ => wWait_overlooks .addD .right

theorem apMemcpyTest_overlooks : Overlooks (apMemcpyTest p) :=
  startComputeCycles_beside.bind fun _ =>
    (memcpy_beside (fun _ hi => rv_off (p := p) .a hi) _).bind fun _ => endComputeCycles_beside

theorem opTargetSetup_overlooks : Overlooks (opTargetSetup p) := by
  refine Matches.bind (.forUpTo fun _ => (store_beside _ _).bind fun _ => store_beside _ _)
    fun _ => ?_
  exact start_then_beside registers_not_columns _ _ _
    ((apWaitingForComputing_beside registers_not_columns 3).bind fun _ => .pure ())

theorem apAccum_overlooks : Overlooks (apAccum p) := by
  have hadd : Overlooks (apTriggerComputing p .add .camA .left .horizontal .targetC) :=
    noLoad_overlooks (c := .start (.triggerComputing .add .camA .left .horizontal .targetC)) rfl
  refine Matches.bind (.forUpTo fun _ => (store_beside _ _).bind fun _ =>
    (tinyDelay_overlooks 1).bind fun _ => store_beside _ _) fun _ => ?_
  exact hadd.bind fun _ => hadd.bind fun _ => hadd

theorem accum_overlooks : Overlooks (accum p) :=
  (fillLoop_overlooks _ _ _).bind fun _ =>
    (noLoad_overlooks (c := .start (.triggerVerticalComputingWWait .add .camA .left)) rfl).bind
      fun _ => apMonitorBreakpoint_overlooks

theorem apComputingVerticalTest_overlooks {A : ℕ} (h : BlocksOff [(A, 10)]) (op : APOperations)
    (internalCol : APInternalCollunm) (seed : UInt8) (C : ℕ) :
    Overlooks (apComputingVerticalTest p op internalCol seed A C) :=
  (fillLoop_overlooks _ _ _).bind fun _ =>
    (halCall_overlooks (.start (.verticalComputing op .camB internalCol A 10)) h).bind fun _ =>
      waitIrq_beside.bind fun _ => (writeControl_beside registers_not_columns _).bind fun _ =>
        (vectorRead_overlooks _ _ _ _).bind fun _ => .pure 1

theorem functionalTest_overlooks {a b c : ℕ} (h : BlocksOff [(a, 5), (b, 5), (c, 5)])
    (r : CheckResults) : Overlooks (functionalTest p a b c r) := by
  refine (fillLoop_overlooks _ _ _).bind fun _ => (fillLoop_overlooks _ _ _).bind fun _ =>
    (fillLoop_overlooks _ _ _).bind fun _ => (copyBytes_beside (h.at 0 rfl) _).bind fun _ =>
      (copyBytes_beside (h.at 1 rfl) _).bind fun _ => ?_
  refine start_then_beside registers_not_columns _ _ _ <| waitIrq_beside.bind fun _ =>
    control_then_beside registers_not_columns _ <| mode_then_beside registers_not_columns _ ?_
  exact .forAccLt fun i hi _ => (load_beside (cam_off .c0 (Nat.lt_trans hi (by decide)))).bind
    fun _ => (store_beside _ _).bind fun _ => (tinyDelay_overlooks 1).bind fun _ =>
      (load_beside (h.at 2 rfl i hi)).bind fun _ => .pure _

/-! ### All of them -/

theorem void_overlooks {c : Prog Unit} (h : Overlooks c) : Overlooks (void c) :=
  h.bind fun _ => .pure 0

theorem valued_overlooks {c : Prog UInt8} (h : Overlooks c) : Overlooks (valued c) :=
  h.bind fun _ => .pure _

theorem kernel_overlooks {k : Kernel} (h : BlocksOff (k.loaded p)) : Overlooks (k.exec p) := by
  cases k with
  | simBreak => exact void_overlooks (storeFixed_beside _ _)
  | basicMemTest => exact void_overlooks ((storeFixed_beside _ _).bind fun _ =>
      (load_beside fun hin => absurd hin.1 (by decide)).bind fun _ => store_beside _ _)
  | basicMemTest2 => exact void_overlooks (fillLoop_overlooks _ _ _)
  | flushTest => exact void_overlooks flushTest_overlooks
  | basicTests => exact void_overlooks ((storeFixed_beside _ _).bind fun _ => storeFixed_beside _ _)
  | setValueTest => exact void_overlooks setValueTest_overlooks
  | opTargetSetup => exact void_overlooks opTargetSetup_overlooks
  | pointerApRwTest => exact void_overlooks pointerApRwTest_overlooks
  | asmMemoryFunTests => exact void_overlooks ((sw_beside _ _).bind fun _ =>
      (storeFixed_beside _ _).bind fun _ =>
        word_overlooks (word_columns (c := .b0) (i := 0) (by decide)))
  | accum => exact void_overlooks accum_overlooks
  | apAccum => exact void_overlooks apAccum_overlooks
  | apSearchTest => exact void_overlooks apSearchTest_overlooks
  | apSetTest => exact void_overlooks apSetTest_overlooks
  | apMemcpyTest => exact void_overlooks apMemcpyTest_overlooks
  | apTestAddD => exact void_overlooks apTestAddD_overlooks
  | apMonitorBreakpoint => exact void_overlooks apMonitorBreakpoint_overlooks
  | accumulateHorizontal => exact void_overlooks accumulateHorizontal_overlooks
  | testVectorApOpHorizontal => exact void_overlooks testVectorApOpHorizontal_overlooks
  | sgemmGoldenCpuTest => exact void_overlooks sgemmGoldenCpuTest_overlooks
  | testVectorCpuOp =>
    exact void_overlooks ((Matches.mapM fun _ _ => vectorCpuOp_overlooks _ _).bind fun _ =>
      .pure ())
  | cpuSearchTest => exact void_overlooks cpuSearchTest_overlooks
  | main => exact valued_overlooks main_overlooks
  | vectorCpuOpKernelOr =>
    exact void_overlooks (vectorCpuOpKernel_overlooks _ (elements_overlook (· ||| ·)))
  | vectorCpuOpKernelXor =>
    exact void_overlooks (vectorCpuOpKernel_overlooks _ (elements_overlook (· ^^^ ·)))
  | vectorCpuOpKernelAnd =>
    exact void_overlooks (vectorCpuOpKernel_overlooks _ (elements_overlook (· &&& ·)))
  | vectorCpuOpKernelNot => exact void_overlooks (vectorCpuOpKernel_overlooks _ fun _ hi =>
      (readVec_beside (rv_off .a hi)).bind fun _ => .pure _)
  | vectorCpuOpKernelAdd =>
    exact void_overlooks (vectorCpuOpKernel_overlooks _ (elements_overlook (· + ·)))
  | vectorCpuOpKernelSub =>
    exact void_overlooks (vectorCpuOpKernel_overlooks _ (elements_overlook (· - ·)))
  | vectorCpuOpKernelMult =>
    exact void_overlooks (vectorCpuOpKernel_overlooks _ (elements_overlook (· * ·)))
  | fillRandomVectors op seed => exact void_overlooks (fillRandomVectors_overlooks op seed)
  | checksum => exact valued_overlooks (checksum_overlooks (h.at 0 rfl))
  | apMonitor mon elements => exact void_overlooks (apMonitor_overlooks mon elements)
  | apComputingVerticalTest op ic seed => exact apComputingVerticalTest_overlooks h op ic seed _
  | apComputingHorizontalTest => exact apComputingHorizontalTest_overlooks h _ _ _
  | testingInternalCols result => exact void_overlooks (testingInternalCols_overlooks result)
  | apiRWApTest => exact void_overlooks (apiRWApTest_overlooks (h.at 0 rfl) _)
  | functionalTest => exact (functionalTest_overlooks h _).bind fun _ => .pure _
  | vectorApOpKernelHorizontal => exact void_overlooks (vectorApOpKernelHorizontal_overlooks h _ _)
  | fillACol => exact void_overlooks (fillLoop_overlooks _ _ _)
  | fillABCols => exact void_overlooks (fillABCols_overlooks (h.at 0 rfl) (h.at 1 rfl))
  | offload => exact void_overlooks (offload_overlooks (h.at 0 rfl))
  | vectorApOpHorizontal => exact void_overlooks (vectorApOpHorizontal_overlooks _ _ _)
  | testOffload => exact void_overlooks (testOffload_overlooks (h.at 0 rfl) _)
  | accumDataManipulation => exact void_overlooks (accumDataManipulation_overlooks h)
  | apReduce => exact void_overlooks (apReduce_overlooks (h.at 0 rfl) _ _ _)
  | apMatrixColMm => exact void_overlooks (apMatrixColMm_overlooks (h.at 0 rfl) _ _)
  | apMatrixColMmWindow => exact void_overlooks (apMatrixColMmWindow_overlooks _ _)
  | apMatrixColMmWindow2 factor bytes =>
    exact void_overlooks (apMatrixColMmWindow_overlooks factor bytes)
  | apMm => exact void_overlooks (apMm_overlooks h)
  | apMmV2 => exact void_overlooks (apMmV2_overlooks h)
  | apMmV3 => exact void_overlooks (apMmV3_overlooks h)
  | apMmV4 => exact void_overlooks (apMmV4_overlooks (h.at 0 rfl) (h.at 1 rfl) _)
  | mmColsSetup m n index =>
    refine void_overlooks (mmColsSetup_overlooks (fun i hi => ?_) fun j hj => ?_)
    · rw [Nat.add_comm (i * m), ← Nat.add_assoc]
      exact h.at 0 rfl _ (Nat.mul_lt_mul_of_pos_right hi (Nat.zero_lt_of_lt hi))
    · rw [← Nat.add_assoc]
      exact h.at 1 rfl j hj
  | mmColsSetup2 => exact void_overlooks (mmColsSetup2_overlooks _ (h.at 0 rfl) (h.at 1 rfl))
  | matmulCpu => exact void_overlooks (matmulCpu_overlooks (h.at 0 rfl) (h.at 1 rfl))
  | sgemmGolden =>
    exact void_overlooks (sgemmGolden_overlooks (h.at 0 rfl) (h.at 1 rfl) (h.at 2 rfl))
  | matmulGolden a b c n m o =>
    have hreg : apControlRegistersBaseAddr ∈ registers := ⟨Nat.le_refl _, by decide⟩
    have hw := apWindow
    refine absurd hreg ?_
    rw [← Nat.zero_add apControlRegistersBaseAddr]
    exact h.at 0 rfl _ (by omega)
  | saxpyGolden => exact void_overlooks (saxpyGolden_overlooks (h.at 0 rfl) (h.at 1 rfl) _)
  | reduceGolden => exact void_overlooks (reduceGolden_overlooks (h.at 0 rfl) (h.at 1 rfl) _ _)
  | indexGolden => exact void_overlooks (indexGolden_overlooks (h.at 0 rfl) (h.at 1 rfl) _)
  | accumKernel =>
    refine valued_overlooks (accumKernel_overlooks ?_ (h.at 1 rfl))
    exact h.at 0 rfl 0 (by decide)
  | vectorCpuOp seed size => exact void_overlooks (vectorCpuOp_overlooks seed size)
  | testAccum =>
    refine valued_overlooks (testAccum_overlooks ?_)
    exact h.at 0 rfl 0 (by decide)
  | matmulEvaluation =>
    exact valued_overlooks (matmulEvaluation_overlooks (h.at 0 rfl) (h.at 1 rfl))

/-- **What memory holds at the registers' addresses does not matter** to a call that loads nothing
from there. -/
theorem call_overlooks {c : Call} (h : BlocksOff (c.loaded p)) : Overlooks (c.exec p) := by
  cases c with
  | hal c =>
    have hc := halCall_overlooks (p := p) c h
    cases c with
    | apIrqCheck => exact apIrqCheck_beside.bind fun _ => .pure _
    | apWaitingForComputing loops =>
      exact (apWaitingForComputing_beside registers_not_columns loops).bind fun _ => .pure _
    | apGetData => exact (lw_beside h).bind fun _ => .pure _
    | _ => exact hc.bind fun _ => .pure 0
  | kernel k => exact kernel_overlooks h

end RocketAp.Kernels
