import RocketAp.Kernels.Agreement

/-!
# The firmware

A `Call` is a call of the layer or of any function above it, and a run of the firmware is a
list of calls with the values they return. Where the layer does the same on two processors a
run does: the calls that wait for documented operations need an `Agreement` (`call_agrees`), and
those that wait for an operation of any kind a `RegisterAgreement` (`call_registers`). The two
functions that give up after some polls are apart (`Kernel.polls`).
-/

namespace RocketAp.Kernels

open ProgramLogic Device Hal

/-- A function above the layer, with its arguments, and the addresses of the buffers it has
from `malloc` or on its stack. -/
inductive Kernel where
  | simBreak | basicMemTest | basicMemTest2 | flushTest | basicTests | setValueTest
  | opTargetSetup | pointerApRwTest | asmMemoryFunTests | accum | apAccum | apSearchTest
  | apSetTest | apMemcpyTest | apTestAddD | apMonitorBreakpoint | accumulateHorizontal
  | testVectorApOpHorizontal | sgemmGoldenCpuTest | testVectorCpuOp | cpuSearchTest | main
  | vectorCpuOpKernelOr | vectorCpuOpKernelXor | vectorCpuOpKernelAnd | vectorCpuOpKernelNot
  | vectorCpuOpKernelAdd | vectorCpuOpKernelSub | vectorCpuOpKernelMult
  | fillRandomVectors (op : APOperations) (seed : ℤ)
  | checksum (arr size : ℕ)
  | apMonitor (mon elements : ℕ)
  | apComputingVerticalTest (op : APOperations) (internalCol : APInternalCollunm) (seed : UInt8)
      (A C : ℕ)
  | apComputingHorizontalTest (op : APOperations) (internalCol : APInternalCollunm)
      (seed : UInt8) (A B : ℕ)
  | testingInternalCols (result : ℕ)
  | apiRWApTest (buffer bufferRead : ℕ)
  /-- The `i`th of the results it has checked. -/
  | functionalTest (a b c : ℕ) (r : CheckResults) (i : ℕ)
  | vectorApOpKernelHorizontal (op : APOperations) (A B C size : ℕ)
  | fillACol (factor : UInt8) (size : ℕ)
  | fillABCols (A B size : ℕ)
  | offload (size : ℕ)
  | vectorApOpHorizontal (op : APOperations) (size seed : ℤ)
  | testOffload (size : ℤ) (v : ℕ)
  | accumDataManipulation (size : ℕ)
  | apReduce (a b resultSum resultCount n : ℕ)
  | apMatrixColMm (factor : UInt8) (bytes iterator : ℕ)
  | apMatrixColMmWindow (factor : UInt8) (bytes : ℕ)
  | apMatrixColMmWindow2 (factor : UInt8) (bytes : ℕ)
  | apMm (mLen kLen nLen : ℕ)
  | apMmV2 (mLen kLen nLen : ℕ)
  | apMmV3 (mLen kLen nLen : ℕ)
  | apMmV4 (mLen kLen nLen : ℕ)
  | mmColsSetup (mLen nLen colAIndex : ℕ)
  | mmColsSetup2 (cSize mLen nLen kLen mmIndex : ℕ)
  | matmulCpu (mLen kLen nLen : ℕ)
  | sgemmGolden (mLen kLen nLen a b c : ℕ)
  | matmulGolden (a b c n m o : ℕ)
  | saxpyGolden (n : ℕ) (a : UInt8) (x y : ℕ)
  | reduceGolden (a b resultSum resultCount n : ℕ)
  | indexGolden (a b c n : ℕ)
  | accumKernel (sum A size : ℕ)
  | vectorCpuOp (seed : Int8) (size : ℕ)
  | testAccum (sum : ℕ)
  | matmulEvaluation (dimension : ℕ)

/-- A value, as a number. -/
def valued (c : Prog UInt8) : Prog ℤ := do return (← c).toNat

/-- No value. -/
def void (c : Prog Unit) : Prog ℤ := do
  c
  return 0

/-- The function. -/
def Kernel.exec (p : Platform) : Kernel → Prog ℤ
  | .simBreak => void Kernels.simBreak
  | .basicMemTest => void Kernels.basicMemTest
  | .basicMemTest2 => void Kernels.basicMemTest2
  | .flushTest => void (Kernels.flushTest p)
  | .basicTests => void Kernels.basicTests
  | .setValueTest => void (Kernels.setValueTest p)
  | .opTargetSetup => void (Kernels.opTargetSetup p)
  | .pointerApRwTest => void Kernels.pointerApRwTest
  | .asmMemoryFunTests => void Kernels.asmMemoryFunTests
  | .accum => void (Kernels.accum p)
  | .apAccum => void (Kernels.apAccum p)
  | .apSearchTest => void (Kernels.apSearchTest p)
  | .apSetTest => void (Kernels.apSetTest p)
  | .apMemcpyTest => void (Kernels.apMemcpyTest p)
  | .apTestAddD => void (Kernels.apTestAddD p)
  | .apMonitorBreakpoint => void (Kernels.apMonitorBreakpoint p)
  | .accumulateHorizontal => void (Kernels.accumulateHorizontal p)
  | .testVectorApOpHorizontal => void (Kernels.testVectorApOpHorizontal p)
  | .sgemmGoldenCpuTest => void (Kernels.sgemmGoldenCpuTest p)
  | .testVectorCpuOp => void (Kernels.testVectorCpuOp p)
  | .cpuSearchTest => void (Kernels.cpuSearchTest p)
  | .main => valued (Kernels.main p)
  | .vectorCpuOpKernelOr => void (Kernels.vectorCpuOpKernelOr p)
  | .vectorCpuOpKernelXor => void (Kernels.vectorCpuOpKernelXor p)
  | .vectorCpuOpKernelAnd => void (Kernels.vectorCpuOpKernelAnd p)
  | .vectorCpuOpKernelNot => void (Kernels.vectorCpuOpKernelNot p)
  | .vectorCpuOpKernelAdd => void (Kernels.vectorCpuOpKernelAdd p)
  | .vectorCpuOpKernelSub => void (Kernels.vectorCpuOpKernelSub p)
  | .vectorCpuOpKernelMult => void (Kernels.vectorCpuOpKernelMult p)
  | .fillRandomVectors op seed => void (Kernels.fillRandomVectors p op seed)
  | .checksum arr size => valued (Kernels.checksum arr size)
  | .apMonitor mon elements => void (Kernels.apMonitor mon elements)
  | .apComputingVerticalTest op ic seed A C => Kernels.apComputingVerticalTest p op ic seed A C
  | .apComputingHorizontalTest op ic seed A B => Kernels.apComputingHorizontalTest p op ic seed A B
  | .testingInternalCols result => void (Kernels.testingInternalCols result)
  | .apiRWApTest buffer bufferRead => void (Kernels.apiRWApTest buffer bufferRead)
  | .functionalTest a b c r i => do return ((← Kernels.functionalTest p a b c r).results i).toNat
  | .vectorApOpKernelHorizontal op A B C size =>
    void (Kernels.vectorApOpKernelHorizontal p op A B C size)
  | .fillACol factor size => void (Kernels.fillACol factor size)
  | .fillABCols A B size => void (Kernels.fillABCols A B size)
  | .offload size => void (Kernels.offload p size)
  | .vectorApOpHorizontal op size seed => void (Kernels.vectorApOpHorizontal p op size seed)
  | .testOffload size v => void (Kernels.testOffload p size v)
  | .accumDataManipulation size => void (Kernels.accumDataManipulation size)
  | .apReduce a b rs rc n => void (Kernels.apReduce p a b rs rc n)
  | .apMatrixColMm factor bytes iterator => void (Kernels.apMatrixColMm p factor bytes iterator)
  | .apMatrixColMmWindow factor bytes => void (Kernels.apMatrixColMmWindow p factor bytes)
  | .apMatrixColMmWindow2 factor bytes => void (Kernels.apMatrixColMmWindow2 p factor bytes)
  | .apMm m k n => void (Kernels.apMm p m k n)
  | .apMmV2 m k n => void (Kernels.apMmV2 p m k n)
  | .apMmV3 m k n => void (Kernels.apMmV3 p m k n)
  | .apMmV4 m k n => void (Kernels.apMmV4 p m k n)
  | .mmColsSetup m n index => void (Kernels.mmColsSetup p m n index)
  | .mmColsSetup2 cSize m n k index => void (Kernels.mmColsSetup2 p cSize m n k index)
  | .matmulCpu m k n => void (Kernels.matmulCpu p m k n)
  | .sgemmGolden m k n a b c => void (Kernels.sgemmGolden m k n a b c)
  | .matmulGolden a b c n m o => void (Kernels.matmulGolden a b c n m o)
  | .saxpyGolden n a x y => void (Kernels.saxpyGolden n a x y)
  | .reduceGolden a b rs rc n => void (Kernels.reduceGolden a b rs rc n)
  | .indexGolden a b c n => void (Kernels.indexGolden a b c n)
  | .accumKernel sum A size => valued (Kernels.accumKernel sum A size)
  | .vectorCpuOp seed size => void (Kernels.vectorCpuOp p seed size)
  | .testAccum sum => valued (Kernels.testAccum p sum)
  | .matmulEvaluation d => valued (Kernels.matmulEvaluation p d)

/-- The functions that run a vertical operation, or lock as the vertical ones do. -/
def Kernel.Vertical : Kernel → Prop
  | .accum | .apComputingVerticalTest .. | .functionalTest .. => True
  | _ => False

/-- How many polls a function makes before it gives up, if it does. -/
def Kernel.polls : Kernel → Option ℕ
  | .opTargetSetup => some 3
  | .apAccum => some 5
  | _ => none

/-- A call of the layer, or of a function above it. -/
inductive Call where
  | hal (c : HalCall)
  | kernel (k : Kernel)

/-- The call, with its value. -/
def Call.exec (p : Platform) : Call → Prog ℤ
  | .hal c => c.value p
  | .kernel k => k.exec p

/-- The call starts no operation, or one that it waits for without a bound. -/
def Call.Awaits : Call → Prop
  | .hal c => c.Awaits
  | .kernel k => k.polls = none

/-- And none is vertical. -/
def Call.Waits : Call → Prop
  | .hal c => c.Waits
  | .kernel k => ¬ k.Vertical ∧ k.polls = none

theorem Call.Waits.awaits {c : Call} (h : c.Waits) : c.Awaits := by
  cases c with
  | hal c => exact HalCall.Waits.awaits h
  | kernel k => exact h.2

variable {p q : Platform} {R : St → St → Prop} {E : Stuck → St → St → Prop}

/-! ### What an agreement gives -/

theorem void_agrees {c c' : Prog Unit} (h : Matches R R E c c') :
    Matches R R E (void c) (void c') := h.bind fun _ => .pure 0

theorem valued_agrees {c c' : Prog UInt8} (h : Matches R R E c c') :
    Matches R R E (valued c) (valued c') := h.bind fun _ => .pure _

/-- The functions that leave the processor alone. -/
def Kernel.Memory : Kernel → Prop
  | .simBreak | .basicMemTest | .basicMemTest2 | .basicTests | .pointerApRwTest
  | .asmMemoryFunTests | .apMemcpyTest | .sgemmGoldenCpuTest | .testVectorCpuOp | .cpuSearchTest
  | .vectorCpuOpKernelOr | .vectorCpuOpKernelXor | .vectorCpuOpKernelAnd | .vectorCpuOpKernelNot
  | .vectorCpuOpKernelAdd | .vectorCpuOpKernelSub | .vectorCpuOpKernelMult
  | .fillRandomVectors .. | .checksum .. | .apMonitor .. | .testingInternalCols _
  | .apiRWApTest .. | .fillACol .. | .fillABCols .. | .testOffload .. | .accumDataManipulation _
  | .mmColsSetup .. | .mmColsSetup2 .. | .matmulCpu .. | .sgemmGolden .. | .matmulGolden ..
  | .saxpyGolden .. | .reduceGolden .. | .indexGolden .. | .accumKernel .. | .vectorCpuOp ..
  | .testAccum _ => True
  | _ => False

/-- A function that needs no more than memory. -/
theorem kernel_memory (h : MemoryAgreement R E p q) {k : Kernel} (hk : k.Memory) :
    Matches R R E (k.exec p) (k.exec q) := by
  have hor := elements_agrees h (· ||| ·)
  have hxor := elements_agrees h (· ^^^ ·)
  have hand := elements_agrees h (· &&& ·)
  have hadd := elements_agrees h (· + ·)
  have hsub := elements_agrees h (· - ·)
  have hmult := elements_agrees h (· * ·)
  cases k with
  | simBreak => exact void_agrees (h.storeFixed _ _)
  | basicMemTest => exact void_agrees ((h.storeFixed _ _).bind fun _ => (h.load _).bind fun _ =>
      h.store _ _)
  | basicMemTest2 => exact void_agrees (fillLoop_agrees h _ _ _)
  | basicTests => exact void_agrees ((h.storeFixed _ _).bind fun _ => h.storeFixed _ _)
  | pointerApRwTest => exact void_agrees (pointerApRwTest_agrees h)
  | asmMemoryFunTests => exact void_agrees ((h.call (c := .apStoreData ..) trivial).bind fun _ =>
      (h.storeFixed _ _).bind fun _ => h.call (c := .apGetDataTo ..) trivial)
  | apMemcpyTest => exact void_agrees (apMemcpyTest_agrees h)
  | sgemmGoldenCpuTest => exact void_agrees (sgemmGoldenCpuTest_agrees h)
  | testVectorCpuOp => exact void_agrees (testVectorCpuOp_agrees h)
  | cpuSearchTest => exact void_agrees (cpuSearchTest_agrees h)
  | vectorCpuOpKernelOr => exact void_agrees (vectorCpuOpKernel_agrees h _ hor)
  | vectorCpuOpKernelXor => exact void_agrees (vectorCpuOpKernel_agrees h _ hxor)
  | vectorCpuOpKernelAnd => exact void_agrees (vectorCpuOpKernel_agrees h _ hand)
  | vectorCpuOpKernelNot =>
    exact void_agrees (vectorCpuOpKernel_agrees h _ fun _ => (h.readVec _ _).bind fun _ => .pure _)
  | vectorCpuOpKernelAdd => exact void_agrees (vectorCpuOpKernel_agrees h _ hadd)
  | vectorCpuOpKernelSub => exact void_agrees (vectorCpuOpKernel_agrees h _ hsub)
  | vectorCpuOpKernelMult => exact void_agrees (vectorCpuOpKernel_agrees h _ hmult)
  | fillRandomVectors op seed => exact void_agrees (fillRandomVectors_agrees h op seed)
  | checksum arr size => exact valued_agrees (checksum_agrees h arr size)
  | apMonitor mon elements => exact void_agrees (apMonitor_agrees h mon elements)
  | testingInternalCols result => exact void_agrees (testingInternalCols_agrees h result)
  | apiRWApTest buffer bufferRead => exact void_agrees (apiRWApTest_agrees h buffer bufferRead)
  | fillACol factor size => exact void_agrees (fillLoop_agrees h _ _ _)
  | fillABCols A B size => exact void_agrees (fillABCols_agrees h A B size)
  | testOffload size v => exact void_agrees (testOffload_agrees h size v)
  | accumDataManipulation size => exact void_agrees (accumDataManipulation_agrees h size)
  | mmColsSetup m n index => exact void_agrees (mmColsSetup_agrees h m n index)
  | mmColsSetup2 cSize m n k index => exact void_agrees (mmColsSetup2_agrees h cSize m n k index)
  | matmulCpu m k n => exact void_agrees (matmulCpu_agrees h m k n)
  | sgemmGolden m k n a b c => exact void_agrees (sgemmGolden_agrees h m k n a b c)
  | matmulGolden a b c n m o => exact void_agrees (matmulGolden_agrees h a b c n m o)
  | saxpyGolden n a x y => exact void_agrees (saxpyGolden_agrees h n a x y)
  | reduceGolden a b rs rc n => exact void_agrees (reduceGolden_agrees h a b rs rc n)
  | indexGolden a b c n => exact void_agrees (indexGolden_agrees h a b c n)
  | accumKernel sum A size => exact valued_agrees (accumKernel_agrees h sum A size)
  | vectorCpuOp seed size => exact void_agrees (vectorCpuOp_agrees h seed size)
  | testAccum sum => exact valued_agrees (testAccum_agrees h sum)
  | _ => exact hk.elim

/-- A function that needs no more than an agreement. -/
theorem kernel_agrees (h : Agreement R E p q) {k : Kernel} (hv : ¬ k.Vertical)
    (hpolls : k.polls = none) : Matches R R E (k.exec p) (k.exec q) := by
  cases k with
  | accum | apComputingVerticalTest | functionalTest => exact absurd trivial hv
  | opTargetSetup | apAccum => cases hpolls
  | flushTest => exact void_agrees (flushTest_agrees h)
  | setValueTest => exact void_agrees (setValueTest_agrees h)
  | apSearchTest => exact void_agrees (apSearchTest_agrees h)
  | apSetTest => exact void_agrees (apSetTest_agrees h)
  | apTestAddD => exact void_agrees (apTestAddD_agrees h)
  | apMonitorBreakpoint => exact void_agrees (apMonitorBreakpoint_agrees h)
  | accumulateHorizontal => exact void_agrees (accumulateHorizontal_agrees h)
  | testVectorApOpHorizontal => exact void_agrees (testVectorApOpHorizontal_agrees h)
  | main => exact valued_agrees (main_agrees h)
  | apComputingHorizontalTest op ic seed A B =>
    exact apComputingHorizontalTest_agrees h op ic seed A B
  | vectorApOpKernelHorizontal op A B C size =>
    exact void_agrees (vectorApOpKernelHorizontal_agrees h op A B C size)
  | offload size => exact void_agrees (offload_agrees h size)
  | vectorApOpHorizontal op size seed =>
    exact void_agrees (vectorApOpHorizontal_agrees h op size seed)
  | apReduce a b rs rc n => exact void_agrees (apReduce_agrees h a b rs rc n)
  | apMatrixColMm factor bytes iterator =>
    exact void_agrees (apMatrixColMm_agrees h factor bytes iterator)
  | apMatrixColMmWindow factor bytes =>
    exact void_agrees (apMatrixColMmWindow_agrees h factor bytes)
  | apMatrixColMmWindow2 factor bytes =>
    exact void_agrees (apMatrixColMmWindow_agrees h factor bytes)
  | apMm m k n => exact void_agrees (apMm_agrees h m k n)
  | apMmV2 m k n => exact void_agrees (apMmV2_agrees h m k n)
  | apMmV3 m k n => exact void_agrees (apMmV3_agrees h m k n)
  | apMmV4 m k n => exact void_agrees (apMmV4_agrees h m k n)
  | matmulEvaluation d => exact valued_agrees (matmulEvaluation_agrees h d)
  | _ => exact kernel_memory h.toMemoryAgreement trivial

/-- A function that waits without a bound. -/
theorem kernel_registers (h : RegisterAgreement R E p q) {k : Kernel} (hpolls : k.polls = none) :
    Matches R R E (k.exec p) (k.exec q) := by
  cases k with
  | accum => exact void_agrees (accum_agrees h)
  | apComputingVerticalTest op ic seed A C => exact apComputingVerticalTest_agrees h op ic seed A C
  | functionalTest a b c r i => exact (functionalTest_agrees h a b c r).bind fun _ => .pure _
  | opTargetSetup | apAccum => cases hpolls
  | _ => exact kernel_agrees h.agreement not_false rfl

/-- A call that waits for what it starts. -/
theorem call_agrees (h : Agreement R E p q) {c : Call} (hc : c.Waits) :
    Matches R R E (c.exec p) (c.exec q) := by
  cases c with
  | hal c => exact h.value hc
  | kernel k => exact kernel_agrees h hc.1 hc.2

/-- A call that waits for an operation of any kind. -/
theorem call_registers (h : RegisterAgreement R E p q) {c : Call} (hc : c.Awaits) :
    Matches R R E (c.exec p) (c.exec q) := by
  cases c with
  | hal c => exact h.value hc
  | kernel k => exact kernel_registers h hc

/-- A unit test, a vertical operation and the evaluation. -/
def someCalls : List Call :=
  [.hal .warmupAp, .kernel (.apComputingHorizontalTest .sub .left 7 0x1000 0x2000),
    .kernel .accum, .kernel .main]

end RocketAp.Kernels
