import RocketAp.Kernels.Functions

/-!
# The other tests

The functions of `util.h`, `env_tests.h`, `ap_tests.h`, `cpu_tests.h` and `hello.c` that
`Kernels.Functions` does not have, statement by statement, under their own names. A buffer
that `malloc` or the stack provides is the address it is at.

The arrays of `r_v_mgmt` lie one after the other, and an index past the end of one of them
is an element of the next: `test_accum` and `cpu_search_test` count to `1024`.
-/

namespace RocketAp.Kernels

open ProgramLogic Device Hal

variable (p : Platform)

/-! ### `util.h` -/

/-- `SIM_BREAK`, which is also where the tests keep a flag. -/
abbrev simBreakAddr : ℕ := 0x80000000

/-- `sim_break`. -/
def simBreak : Prog Unit := storeFixed simBreakAddr 0xff

/-- `MAX_CHECK_RESULTS`. -/
abbrev maxCheckResults : ℕ := 15

/-- `struct check_results_t`. -/
structure CheckResults where
  results : ℕ → UInt8
  resultsSize : ℕ

/-- `save_result`. -/
def saveResult (result : UInt8) (r : CheckResults) : CheckResults :=
  if r.resultsSize = maxCheckResults then r
  else
    { results := Function.update r.results r.resultsSize result
      resultsSize := r.resultsSize + 1 }

/-- `MONITOR_VECTORS_SIZE`. -/
abbrev monitorVectorsSize : ℕ := 10

/-- The columns in the order of `struct monitor_vectors_t`. -/
def monitored : List Cam := [.a0, .b0, .c0, .a1, .b1, .c1]

/-- One loop of `ap_monitor`: the rows of a column, to its vector of `monitor_vectors`. -/
def apMonitorLoop (c : Cam) (vec elements : ℕ) : Prog Unit :=
  forUpTo elements fun i => do
    let v ← load (c.base + i)
    store (vec + i) v

/-- `ap_monitor`, with `monitor_vectors` at `mon`. -/
def apMonitor (mon elements : ℕ) : Prog Unit :=
  if elements > monitorVectorsSize then pure ()
  else do
    apMonitorLoop .a0 mon elements
    apMonitorLoop .b0 (mon + monitorVectorsSize) elements
    apMonitorLoop .c0 (mon + 2 * monitorVectorsSize) elements
    apMonitorLoop .a1 (mon + 3 * monitorVectorsSize) elements
    apMonitorLoop .b1 (mon + 4 * monitorVectorsSize) elements
    apMonitorLoop .c1 (mon + 5 * monitorVectorsSize) elements

/-! ### `env_tests.h` -/

/-- `basic_mem_test`. -/
def basicMemTest : Prog Unit := do
  storeFixed simBreakAddr 1
  let _ ← load simBreakAddr
  store 0x80004004 10

/-- `basic_mem_test_2`. -/
def basicMemTest2 : Prog Unit :=
  forUpTo (apColSize * 6) fun i => store (0x80004000 + i) (i + 1).toUInt8

/-- `flush_test`. -/
def flushTest : Prog Unit := do
  basicMemTest2
  apFlushCol p .camA .left
  apFlushCol p .camA .right
  apFlushCol p .camB .left
  apFlushCol p .camB .right
  apFlushCol p .camC .left
  apFlushCol p .camC .right

/-- `basic_tests`. -/
def basicTests : Prog Unit := do
  storeFixed 0x80003fec 1
  storeFixed 0x80003fec 0

/-- `set_value_test`. -/
def setValueTest : Prog Unit := do
  apSetValue p .camA .left 1
  apSetValue p .camA .right 2
  apSetValue p .camB .left 3
  apSetValue p .camB .right 4
  apSetValue p .camC .left 5
  apSetValue p .camC .right 6

/-- `op_target_setup`. -/
def opTargetSetup : Prog Unit := do
  forUpTo apColSize fun i => do
    store (Cam.b1.base + i) (i % 10).toUInt8
    store (Cam.c1.base + i) (i % 10).toUInt8
  p.setControlReg 1 1 0 0
  p.setModeReg 1 0 0 APOperations.add.val
  p.setControlReg 1 1 1 0
  let _ ← apWaitingForComputing p 3

/-! ### `ap_tests.h` -/

/-- `ap_computing_vertical_test`, with `A` and `C` where `malloc` put them. -/
def apComputingVerticalTest (op : APOperations) (internalCol : APInternalCollunm)
    (_seed : UInt8) (A C : ℕ) : Prog ℤ := do
  forUpTo 10 fun i => store (A + i) i.toUInt8
  apVerticalComputing p op .camB internalCol A 10
  waitIrq
  p.writeControl 0x0
  apReadVector .camC internalCol C apColSize
  return 1

/-- `pointer_ap_rw_test`. -/
def pointerApRwTest : Prog Unit := do
  forUpTo (apColSize * 6) fun i => do
    store (0x80004000 + i) (i % 128).toUInt8
    tinyDelay 1
  forUpTo (apColSize * 6) fun i => do
    let v ← load (0x80004000 + i)
    storeFixed (0x80000000 + i * 4) v
    tinyDelay 1
  forUpTo (apColSize * 6) fun i => do
    let tmp ← load (0x80004000 + i)
    storeFixed (0x80000000 + i * 4) (tmp + 1)
    tinyDelay 1

/-- `testing_internal_cols`, with `result` on the stack. -/
def testingInternalCols (result : ℕ) : Prog Unit := do
  forUpTo 10 fun i => do
    store (0x80004000 + i) (i + 1).toUInt8
    tinyDelay 1
  forUpTo 10 fun i => do
    let v ← load (0x80004000 + i)
    store (result + i) v
    tinyDelay 1

/-- One round of `api_r_w_ap_test`: a pattern that is written to a column and read back. -/
def apiRWRound (buffer bufferRead : ℕ) (col : APCollunm) (internalCol : APInternalCollunm)
    (off : ℕ) : Prog Unit := do
  forUpTo apColSize fun i => store (buffer + i) (i + off).toUInt8
  apWriteVector col internalCol buffer apColSize
  apReadVector col internalCol bufferRead apColSize

/-- `api_r_w_ap_test`, with its two buffers on the stack. -/
def apiRWApTest (buffer bufferRead : ℕ) : Prog Unit := do
  apiRWRound buffer bufferRead .camA .left 0
  apiRWRound buffer bufferRead .camA .right 1
  apiRWRound buffer bufferRead .camB .left 2
  apiRWRound buffer bufferRead .camB .right 3
  apiRWRound buffer bufferRead .camC .left 4
  apiRWRound buffer bufferRead .camC .right 5

/-- `asm_memory_fun_tests`. -/
def asmMemoryFunTests : Prog Unit := do
  apStoreData Cam.b0.base 10
  storeFixed 0x80000000 0xf
  apGetDataTo 0x80000000 Cam.b0.base

/-- `functional_test`, with `a` and `b` where `malloc` put them and `c` on the stack. -/
def functionalTest (a b c : ℕ) (r : CheckResults) : Prog CheckResults := do
  forUpTo 5 fun i => store (a + i) (i + 1).toUInt8
  forUpTo 5 fun i => store (b + i) (5 - i).toUInt8
  forUpTo 5 fun i => store (c + i) 0
  forUpTo 5 fun i => do
    let v ← load (a + i)
    store (Cam.a0.base + i) v
  forUpTo 5 fun i => do
    let v ← load (b + i)
    store (Cam.b0.base + i) v
  p.writeControl 0x10000
  p.setModeReg 0 0 0 APOperations.xor.val
  p.writeControl ((0x10000 : UInt32) ||| (1 : UInt32) <<< 8)
  waitIrq
  p.writeControl 0x0
  p.setModeReg 0 APCollunm.camC.val 0 0
  forAcc 5 r fun i r => do
    let v ← load (Cam.c0.base + i)
    store (c + i) v
    tinyDelay 1
    let v ← load (c + i)
    return saveResult v r

/-- `fill_a_col`, which does not use `factor`. -/
def fillACol (_factor : UInt8) (size : ℕ) : Prog Unit :=
  forUpTo size fun i => store (Cam.a0.base + i) i.toUInt8

/-- `accum`. -/
def accum : Prog Unit := do
  fillACol 1 10
  apTriggerVerticalComputingWWait p .add .camA .left
  apMonitorBreakpoint p

/-- `sizes` of `test_vector_ap_op_horizontal` and of `test_vector_cpu_op`. -/
def testSizes : List ℕ := [32, 64, 128, 256, 512, 1024, 2048, 4096]

/-- `test_vector_ap_op_horizontal`. -/
def testVectorApOpHorizontal : Prog Unit := do
  vectorApOpHorizontal p .not 32 14
  vectorApOpHorizontal p .not 64 14
  vectorApOpHorizontal p .not 128 14
  vectorApOpHorizontal p .not 256 14
  vectorApOpHorizontal p .not 512 14
  vectorApOpHorizontal p .not 1024 14
  vectorApOpHorizontal p .not 2048 14
  vectorApOpHorizontal p .not 4096 14

/-- `ap_accum`. -/
def apAccum : Prog Unit := do
  forUpTo 10 fun i => do
    store (Cam.b0.base + i) 1
    tinyDelay 1
    store (Cam.c0.base + i) 1
  apTriggerComputing p .add .camA .left .horizontal .targetC
  apTriggerComputing p .add .camA .left .horizontal .targetC
  apTriggerComputing p .add .camA .left .horizontal .targetC

/-- `ap_reduce`, which uses neither `b` nor its two results. -/
def apReduce (a _b _resultSum _resultCount n : ℕ) : Prog Unit := do
  apFlushCol p .camC .left
  forUpTo n fun i => do
    let v ← load (a + i)
    store (Cam.a0.base + i) v
  apSearch p 3 .left .targetC
  apFlushCol p .camA .left
  apSearch p 0 .left .targetC
  apFlushCol p .camC .left
  forUpTo n fun i => do
    let v ← load (a + i)
    store (Cam.b0.base + i) v

/-- `ap_search_test`. -/
def apSearchTest : Prog Unit := do
  forUpTo apColSize fun i => store (Cam.a0.base + i) 5
  store (Cam.a0.base + 10) 10
  p.startComputeCycles
  apSearch p 10 .left .targetC
  p.endComputeCycles
  forUpTo apColSize fun i => do
    let v ← load (Cam.c0.base + i)
    p.writeVec .a i v

/-- `ap_set_test`. -/
def apSetTest : Prog Unit := do
  apSetValue p .camA .left 10
  p.startComputeCycles
  memset (p.rvAddr .a) 'A'.toUInt8 randomVectorsSize
  memset (p.rvAddr .b) 'B'.toUInt8 randomVectorsSize
  p.endComputeCycles

/-- `ap_memcpy_test`. -/
def apMemcpyTest : Prog Unit := do
  p.startComputeCycles
  memcpy Cam.a0.base (p.rvAddr .a) randomVectorsSize
  p.endComputeCycles

/-- `ap_test_add_d`. -/
def apTestAddD : Prog Unit := do
  store Cam.a1.base 2
  store (Cam.a1.base + 1) 6
  store (Cam.a1.base + 2) 2
  apTriggerComputingWWait p .addD .horizontal .right
  store Cam.a1.base 3
  store (Cam.a1.base + 1) 9
  store (Cam.a1.base + 2) 3
  apTriggerComputingWWait p .addD .horizontal .right

/-! ### `cpu_tests.h` -/

/-- `sgemm_golden_cpu_test`. -/
def sgemmGoldenCpuTest : Prog Unit := do
  p.writeVec .a 0 2
  p.writeVec .a 1 3
  p.writeVec .a 2 1
  p.writeVec .a 3 1
  p.writeVec .a 4 3
  p.writeVec .a 5 2
  p.writeVec .a 6 3
  p.writeVec .a 7 1
  p.writeVec .a 8 3
  p.writeVec .b 0 1
  p.writeVec .b 1 2
  p.writeVec .b 2 3
  p.writeVec .b 3 2
  p.writeVec .b 4 1
  p.writeVec .b 5 3
  p.writeVec .c 0 1
  p.writeVec .c 1 2
  p.writeVec .c 2 1
  p.writeVec .c 3 2
  p.writeVec .c 4 1
  p.writeVec .c 5 2
  p.startComputeCycles
  forUpTo 3 fun i =>
    forUpTo 2 fun j =>
      forUpTo 3 fun k => do
        let z ← p.readVec .c (i * 2 + j)
        let x ← p.readVec .a (i * 3 + k)
        let y ← p.readVec .b (j + k * 2)
        p.writeVec .c (i * 2 + j) (z + x * y)
  p.endComputeCycles

/-- `saxpy_golden`. -/
def saxpyGolden (n : ℕ) (a : UInt8) (x y : ℕ) : Prog Unit :=
  forUpTo n fun i => do
    let v ← load (x + i)
    let w ← load (y + i)
    store (y + i) (a * v + w)

/-- `reduce_golden`. -/
def reduceGolden (a b resultSum resultCount n : ℕ) : Prog Unit := do
  let (s, count) ← forAcc n ((0 : UInt8), 0) fun i (s, count) => do
    let x ← load (a + i)
    if x ≠ 3 then
      let x ← load (a + i)
      let y ← load (b + i)
      return (s + x * y, count + 1)
    return (s, count)
  store resultSum s
  store resultCount (Nat.toUInt8 count)

/-- `index_golden`. -/
def indexGolden (a b c n : ℕ) : Prog Unit :=
  forUpTo n fun i => do
    let v ← load (b + i)
    let w ← load (c + i)
    store (a + i) (v + i.toUInt8 * w)

/-- One of the four loops of a `vector_cpu_op_kernel`, which computes an element from `A` and
`B` by `element`. -/
def vectorCpuOpLoop (element : ℕ → Prog UInt8) : Prog Unit :=
  forUpTo randomVectorsSize fun i => do
    let z ← element i
    p.writeVec .c i z

/-- What the seven kernels do with their operation. -/
def vectorCpuOpKernel (op : APOperations) (element : ℕ → Prog UInt8) : Prog Unit := do
  fillRandomVectors p op randomVectorsSize
  p.startComputeCycles
  vectorCpuOpLoop p element
  vectorCpuOpLoop p element
  vectorCpuOpLoop p element
  vectorCpuOpLoop p element
  p.endComputeCycles

/-- `vector_cpu_op_kernel_or`. -/
def vectorCpuOpKernelOr : Prog Unit :=
  vectorCpuOpKernel p .or fun i => do return (← p.readVec .a i) ||| (← p.readVec .b i)

/-- `vector_cpu_op_kernel_xor`. -/
def vectorCpuOpKernelXor : Prog Unit :=
  vectorCpuOpKernel p .xor fun i => do return (← p.readVec .a i) ^^^ (← p.readVec .b i)

/-- `vector_cpu_op_kernel_and`. -/
def vectorCpuOpKernelAnd : Prog Unit :=
  vectorCpuOpKernel p .and fun i => do return (← p.readVec .a i) &&& (← p.readVec .b i)

/-- `vector_cpu_op_kernel_not`, which reads no element of `B`. -/
def vectorCpuOpKernelNot : Prog Unit :=
  vectorCpuOpKernel p .not fun i => do return ~~~(← p.readVec .a i)

/-- `vector_cpu_op_kernel_add`. -/
def vectorCpuOpKernelAdd : Prog Unit :=
  vectorCpuOpKernel p .add fun i => do return (← p.readVec .a i) + (← p.readVec .b i)

/-- `vector_cpu_op_kernel_sub`. -/
def vectorCpuOpKernelSub : Prog Unit :=
  vectorCpuOpKernel p .sub fun i => do return (← p.readVec .a i) - (← p.readVec .b i)

/-- `vector_cpu_op_kernel_mult`. -/
def vectorCpuOpKernelMult : Prog Unit :=
  vectorCpuOpKernel p .mult fun i => do return (← p.readVec .a i) * (← p.readVec .b i)

/-- `vector_cpu_op`, whose kernel takes no argument. -/
def vectorCpuOp (_seed : Int8) (size : ℕ) : Prog Unit := do
  fillRandomVectors p .add size
  p.startComputeCycles
  vectorCpuOpKernelMult p
  p.endComputeCycles

/-- `test_vector_cpu_op`. -/
def testVectorCpuOp : Prog Unit := do
  let _ ← testSizes.mapM fun size => vectorCpuOp p 15 size

/-- `test_accum`, with the frame of `accum_kernel` at `sum`. -/
def testAccum (sum : ℕ) : Prog UInt8 := do
  forUpTo 1024 fun i => p.writeVec .a i 1
  p.startComputeCycles
  let y ← accumKernel sum (p.rvAddr .a) 1024
  p.endComputeCycles
  return y

/-- `cpu_search_test`. -/
def cpuSearchTest : Prog Unit := do
  forUpTo 1024 fun i => p.writeVec .a i 5
  p.writeVec .a 10 10
  p.startComputeCycles
  forUpTo 1024 fun i => do
    let v ← p.readVec .a i
    if v = 10 then p.writeVec .b i 1 else p.writeVec .b i 0
  p.endComputeCycles

/-! ### `hello.c` -/

/-- `main`, with what it keeps in `comparison`. -/
def main : Prog UInt8 := do
  warmupAp p
  matmulEvaluation p 10

end RocketAp.Kernels
