import RocketAp.Hal.Functions
import RocketAp.ProgramLogic.Halving

/-!
# The kernels

The functions of `ap_tests.h`, `cpu_tests.h`, `util.h` and `evaluation.h` that compute on
the vectors of `r_v_mgmt`, statement by statement, under their own names. A loop counter
is a natural number: no counter is negative, and none overflows where the indexes it
makes are used.

`AP_CAM_A[i] = …` is a store into the column, and `r_v_mgmt.A[i]` a logged read.
-/

namespace RocketAp.Kernels

open ProgramLogic Device Hal

variable (p : Platform)

/-! ### `util.h` -/

/-- What `fill_random_vectors` keeps of a number: `0x3` of it for `ADD` and what follows,
and `0xff` for the rest. -/
def randomMask (op : APOperations) : UInt32 := if op.val > 3 then 0x3 else 0xff

/-- `(seed - i * 1234 + i + 4321) & mask`, in an element of `A`. -/
def randomA (op : APOperations) (seed : ℤ) (i : ℕ) : UInt8 :=
  (UInt32.ofInt (seed - i * 1234 + i + 4321) &&& randomMask op).toUInt8

/-- `(seed + i * 4321 + i - 1234) & mask`, in an element of `B`. -/
def randomB (op : APOperations) (seed : ℤ) (i : ℕ) : UInt8 :=
  (UInt32.ofInt (seed + i * 4321 + i - 1234) &&& randomMask op).toUInt8

/-- `fill_random_vectors`. -/
def fillRandomVectors (op : APOperations) (seed : ℤ) : Prog Unit :=
  forUpTo randomVectorsSize fun i => do
    p.writeVec .a i (randomA op seed i)
    p.writeVec .b i (randomB op seed i)
    p.writeVec .c i 0

/-- `checksum`. -/
def checksum (arr size : ℕ) : Prog UInt8 :=
  forAcc size 0 fun i sum => do
    let v ← load (arr + i)
    return sum + v

/-! ### The unit test -/

/-- `mask` of `ap_computing_horizontal_test`. -/
def testMask (op : APOperations) : UInt32 := if op.val > 3 then 0xf else 0xff

/-- `(seed - i * 1234 + i + 4321) & mask`, in an element of `A`; `seed` is promoted. -/
def testA (op : APOperations) (seed : UInt8) (i : ℕ) : UInt8 :=
  (UInt32.ofInt (seed.toNat - i * 1234 + i + 4321) &&& testMask op).toUInt8

/-- `(seed + i * 4321 + i - 1234) & mask`, in an element of `B`. -/
def testB (op : APOperations) (seed : UInt8) (i : ℕ) : UInt8 :=
  (UInt32.ofInt (seed.toNat + i * 4321 + i - 1234) &&& testMask op).toUInt8

/-- `ap_computing_horizontal_test`, with `A` and `B` where `malloc` put them. -/
def apComputingHorizontalTest (op : APOperations) (internalCol : APInternalCollunm)
    (seed : UInt8) (A B : ℕ) : Prog ℤ := do
  forUpTo apColSize fun i => do
    store (A + i) (testA op seed i)
    store (B + i) (testB op seed i)
  apComputing p op internalCol .horizontal A B apColSize
  p.startComputeCycles
  waitIrq
  p.endComputeCycles
  p.writeControl 0x0
  let equal ← allUpTo apColSize fun i => do
    let a ← load (A + i)
    let b ← load (B + i)
    let apOp ← load (Cam.c0.base + i)
    return apOp = apUnitTestSw op a b
  if equal then return 1
  return 0

/-! ### One vector -/

/-- `chunk_size` of `vector_ap_op_kernel_horizontal`: the comparison is of a `uint32_t` with
an `int`, which is converted. -/
def chunkSize (size startIndex : ℕ) : ℕ :=
  if size < (startIndex + apColSize) % 2 ^ 32 then size % apColSize else apColSize

/-- `vector_ap_op_kernel_horizontal`. -/
def vectorApOpKernelHorizontal (op : APOperations) (A B C size : ℕ) : Prog Unit :=
  forUpTo (size / apColSize + 1) fun i => do
    let startIndex := apColSize * i
    apWriteVector .camA .left (A + startIndex) (chunkSize size startIndex)
    apWriteVector .camB .left (B + startIndex) (chunkSize size startIndex)
    apTriggerComputingWWait p op .horizontal .left
    apReadVector .camC .left C (chunkSize size startIndex)

/-- `accum_kernel`, whose `sum` is the byte of its frame at `sum`: it is volatile, and it is
not initialised. -/
def accumKernel (sum A size : ℕ) : Prog UInt8 := do
  forUpTo size fun i => do
    let v ← load sum
    let x ← load (A + i)
    store sum (v + x)
  load sum

/-! ### Columns as one run of bytes -/

/-- `fill_a_b_cols`. -/
def fillABCols (A B size : ℕ) : Prog Unit := do
  forUpTo size fun i => do
    let x ← load (A + i)
    store (Cam.a0.base + i) x
  forUpTo size fun i => do
    let y ← load (B + i)
    store (Cam.b0.base + i) y

/-- `offload`. -/
def offload (size : ℕ) : Prog Unit := do
  p.setModeReg APInternalCollunm.left.val APCollunm.camC.val 0 0
  forUpTo size fun i => do
    let v ← load (Cam.c0.base + i)
    storeFixed (0x80000100 + i) v

/-- `ap_monitor_breakpoint`. -/
def apMonitorBreakpoint : Prog Unit := do
  p.setModeReg APInternalCollunm.left.val APCollunm.camA.val 0 0
  p.setModeReg APInternalCollunm.right.val APCollunm.camA.val 0 0
  p.setModeReg APInternalCollunm.left.val APCollunm.camB.val 0 0
  p.setModeReg APInternalCollunm.right.val APCollunm.camB.val 0 0
  p.setModeReg APInternalCollunm.left.val APCollunm.camC.val 0 0
  p.setModeReg APInternalCollunm.right.val APCollunm.camC.val 0 0
  offload p 10

/-- `vector_ap_op_horizontal`, which does not use its last argument: the seed of the vectors
is their size. -/
def vectorApOpHorizontal (op : APOperations) (size : ℤ) (_seed : ℤ) : Prog Unit := do
  fillRandomVectors p op size
  let A := p.rvAddr .a
  let B := p.rvAddr .b
  if size ≤ apColSize then
    fillABCols A B size.toNat
    p.startComputeCycles
    apTriggerComputingWWait p op .horizontal .left
    p.endComputeCycles
  if apColSize < size ∧ size ≤ apColSize * 2 then
    fillABCols A B size.toNat
    p.startComputeCycles
    apTriggerComputingWWait p op .horizontal .left
    apTriggerComputingWWait p op .horizontal .right
    p.endComputeCycles
  if size = 2048 then
    fillABCols A B 1024
    p.startComputeCycles
    apTriggerComputingWWait p op .horizontal .left
    apTriggerComputingWWait p op .horizontal .right
    offload p 1024
    apTriggerComputingWWait p op .horizontal .left
    apTriggerComputingWWait p op .horizontal .right
    p.endComputeCycles
  if size = 4096 then
    fillABCols A B 1024
    p.startComputeCycles
    apTriggerComputingWWait p op .horizontal .left
    apTriggerComputingWWait p op .horizontal .right
    offload p 1024
    apTriggerComputingWWait p op .horizontal .left
    apTriggerComputingWWait p op .horizontal .right
    offload p 1024
    apTriggerComputingWWait p op .horizontal .left
    apTriggerComputingWWait p op .horizontal .right
    offload p 1024
    apTriggerComputingWWait p op .horizontal .left
    apTriggerComputingWWait p op .horizontal .right
    p.endComputeCycles
  apMonitorBreakpoint p
  warmupAp p

/-- `test_offload`, with `v` where `malloc` put it. -/
def testOffload (size : ℤ) (v : ℕ) : Prog Unit := do
  forUpTo size.toNat fun i => storeFixed (0x80000200 + i) 0
  p.startComputeCycles
  forUpTo size.toNat fun i => store (Cam.c0.base + i) i.toUInt8
  p.endComputeCycles
  p.startComputeCycles
  forUpTo size.toNat fun i => do
    let x ← load (Cam.c0.base + i)
    storeFixed (0x80000200 + i) x
  p.endComputeCycles
  p.startComputeCycles
  forUpTo size.toNat fun i => do
    let x ← load (Cam.c0.base + i)
    store (v + i) x
  p.endComputeCycles

/-- `accum_data_manipulation`. -/
def accumDataManipulation (size : ℕ) : Prog Unit :=
  let half := size / 2
  let srcHalf := Cam.c0.base + half
  let src := Cam.c0.base
  forUpTo half fun i => do
    apGetDataTo (Cam.a0.base + i) (src + i)
    apGetDataTo (Cam.b0.base + i) (srcHalf + i)

/-- The body of the loop of `accumulate_horizontal`. -/
def accumulateBody (i : ℕ) : Prog Unit := do
  apTriggerComputingWWait p .add .horizontal .left
  apMonitorBreakpoint p
  accumDataManipulation i

/-- `accumulate_horizontal`. -/
def accumulateHorizontal : Prog Unit := do
  forUpTo apColSize fun i => do
    apStoreData (Cam.a0.base + i) 1
    apStoreData (Cam.b0.base + i) 1
  apMonitorBreakpoint p
  p.startComputeCycles
  forHalving 512 (accumulateBody p)
  p.endComputeCycles

/-! ### Matrix products -/

/-- `ap_matrix_col_mm`, which does not use its last argument. -/
def apMatrixColMm (factor : UInt8) (bytes _iterator : ℕ) : Prog Unit := do
  apSetValueCamALeft p factor
  apTriggerComputingWWait p .mult .horizontal .left
  apMemcpy Cam.a1.base Cam.c0.base bytes
  apTriggerComputingWWait p .addD .horizontal .right
  apFlushC0 p

/-- `ap_mm`. -/
def apMm (mLen kLen nLen : ℕ) : Prog Unit :=
  forUpTo mLen fun i => do
    forUpTo kLen fun j => do
      apMemcpy Cam.b0.base (p.rvAddr .b + j * nLen) nLen
      let factor ← p.readVec .a (i * kLen + j)
      apMatrixColMm p factor nLen j
    apMemcpy (p.rvAddr .c + i * nLen) Cam.c1.base nLen
    apFlushC1 p

/-- `ap_matrix_col_mm_window`, which does not use its last argument. -/
def apMatrixColMmWindow (factor : UInt8) (_bytes : ℕ) : Prog Unit := do
  apSetValueCamALeft p factor
  apTriggerComputingWWait p .mult .horizontal .left
  apTriggerComputingWWaitTargetA p .addD .horizontal 0b011
  apFlushC0 p

/-- `ap_matrix_col_mm_window_2`, which has the same body. -/
def apMatrixColMmWindow2 (factor : UInt8) (_bytes : ℕ) : Prog Unit := do
  apSetValueCamALeft p factor
  apTriggerComputingWWait p .mult .horizontal .left
  apTriggerComputingWWaitTargetA p .addD .horizontal 0b011
  apFlushC0 p

/-- `ap_mm_v2`. -/
def apMmV2 (mLen kLen nLen : ℕ) : Prog Unit :=
  forUpTo mLen fun i => do
    forUpTo kLen fun j => do
      apMemcpy Cam.b0.base (p.rvAddr .b + j * nLen) nLen
      let factor ← p.readVec .a (i * kLen + j)
      apMatrixColMmWindow p factor nLen
    apMemcpy (p.rvAddr .c + i * nLen) Cam.a1.base nLen
    apFlushA1 p

/-- `ap_mm_v3`. -/
def apMmV3 (mLen kLen nLen : ℕ) : Prog Unit :=
  forUpTo mLen fun i =>
    forUpTo kLen fun j => do
      apMemcpy (Cam.b0.base + i * nLen) (p.rvAddr .b + j * nLen) nLen
      let factor ← p.readVec .a (i * kLen + j)
      apMatrixColMmWindow2 p factor nLen

/-- `mm_cols_setup`. -/
def mmColsSetup (mLen nLen colAIndex : ℕ) : Prog Unit :=
  let rowB := colAIndex * nLen
  forUpTo mLen fun i =>
    let indexBase := i * nLen
    let colBase := i * mLen
    forUpTo nLen fun j => do
      let x ← p.readVec .a (colBase + colAIndex)
      store (Cam.a0.base + (indexBase + j)) x
      let y ← p.readVec .b (rowB + j)
      store (Cam.b0.base + (indexBase + j)) y

/-- `mm_cols_setup_2`, which does not use `m_len`; `a_index` is its local variable. -/
def mmColsSetup2 (cSize _mLen nLen kLen mmIndex : ℕ) : Prog Unit := do
  let bBase := mmIndex * nLen
  let _ ← forAcc cSize mmIndex fun i aIndex => do
    let col := i % nLen
    let x ← p.readVec .a aIndex
    store (Cam.a0.base + i) x
    let y ← p.readVec .b (bBase + col)
    store (Cam.b0.base + i) y
    if col = nLen - 1 then return aIndex + kLen
    return aIndex

/-- `ap_mm_v4`: the loop goes to `m_len`, and `k_len` is not used. -/
def apMmV4 (mLen _kLen nLen : ℕ) : Prog Unit :=
  forUpTo mLen fun i => do
    mmColsSetup p mLen nLen i
    apTriggerComputingWWait p .mult .horizontal .left
    apTriggerComputingWWaitTargetA p .addD .horizontal 0b011
    apFlushC0 p

/-- `matmul_cpu`. -/
def matmulCpu (mLen kLen nLen : ℕ) : Prog Unit :=
  forUpTo mLen fun i =>
    forUpTo nLen fun j => do
      let sum ← forAcc kLen 0 fun k sum => do
        let x ← p.readVec .a (i * kLen + k)
        let y ← p.readVec .b (k * nLen + j)
        return sum + x * y
      p.writeVec .c (i * nLen + j) sum

/-- `sgemm_golden`. -/
def sgemmGolden (mLen kLen nLen a b c : ℕ) : Prog Unit :=
  forUpTo mLen fun i =>
    forUpTo nLen fun j =>
      forUpTo kLen fun k => do
        let z ← load (c + (i * nLen + j))
        let x ← load (a + (i * kLen + k))
        let y ← load (b + (j + k * nLen))
        store (c + (i * nLen + j)) (z + x * y)

/-- `a[i][k]` of a `uint8_t **`: the pointer is read first. -/
def element (a i k : ℕ) : Prog UInt8 := do
  let row ← lw (a + 4 * i)
  load (row.toNat + k)

/-- `matmul_golden`. -/
def matmulGolden (a b c n m o : ℕ) : Prog Unit :=
  forUpTo n fun i =>
    forUpTo m fun j => do
      let row ← lw (c + 4 * i)
      store (row.toNat + j) 0
      forUpTo o fun k => do
        let z ← element c i j
        let x ← element a i k
        let y ← element b j k
        let row ← lw (c + 4 * i)
        store (row.toNat + j) (z + x * y)

/-! ### `evaluation.h` -/

/-- `matmul_evaluation`. -/
def matmulEvaluation (dimension : ℕ) : Prog UInt8 := do
  fillRandomVectors p .mult 11
  p.startComputeCycles
  apMmV4 p dimension dimension dimension
  p.endComputeCycles
  memcpy (p.rvAddr .c) Cam.a1.base randomVectorsSize
  let apResult ← checksum (p.rvAddr .c) randomVectorsSize
  memset (p.rvAddr .c) 0 randomVectorsSize
  p.startComputeCycles
  matmulCpu p dimension dimension dimension
  p.endComputeCycles
  let cpuResult ← checksum (p.rvAddr .c) randomVectorsSize
  if apResult = cpuResult then return 1
  return 0

end RocketAp.Kernels
