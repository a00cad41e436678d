import Mathlib.Algebra.Group.Action.Defs
import Mathlib.Tactic.Ring
import RocketAp.Hal.Costs
import RocketAp.Kernels.Firmware

/-!
# What the firmware costs

Every function above the layer that runs no vertical operation and counts no polls has a
cost, read off its arguments (`Kernel.cost`): the four products of an `m × k` matrix differ in
nothing so much as in that three of them start three operations for each of its elements,
and `ap_mm_v4` two for each of its rows. A run never hangs and costs the sum of its calls
(`firmware_costs`).
-/

namespace RocketAp.Kernels

open ProgramLogic Device Hal

/-- The operations and writes of `vector_ap_op_horizontal`: its four cases, and the breakpoint
and the reset at its end. -/
def chunksCost (size : ℤ) : ℕ × ℕ :=
  (if size ≤ apColSize then (1, 4) else 0) +
    ((if apColSize < size ∧ size ≤ apColSize * 2 then (2, 8) else 0) +
      ((if size = 2048 then (4, 17) else 0) + ((if size = 4096 then (8, 35) else 0) + (0, 19))))

/-- The operations a function starts and the writes it makes. -/
def Kernel.cost : Kernel → ℕ × ℕ
  | .flushTest => (0, 30)
  | .setValueTest => (6, 24)
  | .apSearchTest => (1, 3)
  | .apSetTest => (1, 4)
  | .apTestAddD => (2, 8)
  | .apMonitorBreakpoint => (0, 7)
  | .offload _ => (0, 1)
  | .accumulateHorizontal => (10, 117)
  | .apComputingHorizontalTest .. => (1, 4)
  | .apReduce .. => (2, 21)
  | .vectorApOpKernelHorizontal _ _ _ _ size => (size / apColSize + 1, 4 * (size / apColSize + 1))
  | .vectorApOpHorizontal _ size _ => chunksCost size
  | .testVectorApOpHorizontal => (19, 232)
  | .apMatrixColMm .. | .apMatrixColMmWindow .. | .apMatrixColMmWindow2 .. => (3, 16)
  | .apMm m k _ | .apMmV2 m k _ => (3 * (m * k), 16 * (m * k) + 5 * m)
  | .apMmV3 m k _ => (3 * (m * k), 16 * (m * k))
  | .apMmV4 m _ _ => (2 * m, 12 * m)
  | .matmulEvaluation d => (2 * d, 12 * d)
  | .main => (20, 132)
  | _ => (0, 0)

/-- The operations a call starts and the writes it makes. -/
def Call.cost : Call → ℕ × ℕ
  | .hal c => c.cost
  | .kernel k => k.cost

variable {p : Platform} {b : ℤ}

/-- What accesses memory alone is free. -/
theorem memory_costs {α : Type} {m : Prog α}
    (h : ∀ {R E}, MemoryAgreement R E p p → Matches R R E m m) : Costs p b 0 m :=
  .free fun k => h (costs_memory p b k)

theorem setModeReg_costs (a c d e : UInt32) : Costs p b (0, 1) (p.setModeReg a c d e) :=
  mode_costs _

theorem offload_costs (size : ℕ) : Costs p b (0, 1) (offload p size) :=
  (setModeReg_costs _ _ _ _).bind fun _ => memory_costs fun h =>
    .forUpTo fun _ => (h.load _).bind fun v => h.storeFixed _ v

theorem apMonitorBreakpoint_costs : Costs p b (0, 7) (apMonitorBreakpoint p) :=
  mode_cost_then _ <| mode_cost_then _ <| mode_cost_then _ <| mode_cost_then _ <|
    mode_cost_then _ <| mode_cost_then _ <| offload_costs 10

section Columns

variable (hp : p.Triggers)
include hp

theorem wWait_costs (op : APOperations) (internalCol : APInternalCollunm) :
    Costs p b (1, 4) (apTriggerComputingWWait p op .horizontal internalCol) :=
  call_costs hp (c := .start (.triggerComputingWWait op .horizontal internalCol)) rfl

theorem wWaitTargetA_costs (op : APOperations) (bits : UInt8) :
    Costs p b (1, 4) (apTriggerComputingWWaitTargetA p op .horizontal bits) :=
  call_costs hp (c := .start (.triggerComputingWWaitTargetA op .horizontal bits)) rfl

theorem search_costs (key : UInt8) (internalCol : APInternalCollunm) (target : OpTarget) :
    Costs p b (1, 3) (apSearch p key internalCol target) :=
  call_costs hp (c := .start (.search key internalCol target)) rfl

theorem setValue_costs (col : APCollunm) (internalCol : APInternalCollunm) (value : UInt8) :
    Costs p b (1, 4) (apSetValue p col internalCol value) :=
  call_costs hp (c := .start (.setValue col internalCol value)) rfl

theorem flushCol_costs (col : APCollunm) (internalCol : APInternalCollunm) :
    Costs p b (0, 5) (apFlushCol p col internalCol) :=
  call_costs hp (c := .apFlushCol col internalCol) trivial

/-! ### Vectors -/

theorem vectorApOpKernelHorizontal_costs (op : APOperations) (A B C size : ℕ) :
    Costs p b (size / apColSize + 1, 4 * (size / apColSize + 1))
      (vectorApOpKernelHorizontal p op A B C size) := by
  have hround : ∀ i, Costs p b (1, 4) (do
      let startIndex := apColSize * i
      apWriteVector .camA .left (A + startIndex) (chunkSize size startIndex)
      apWriteVector .camB .left (B + startIndex) (chunkSize size startIndex)
      apTriggerComputingWWait p op .horizontal .left
      apReadVector .camC .left C (chunkSize size startIndex)) := fun i =>
    (memory_costs fun h => h.vector _ _ _).free_then fun _ =>
      (memory_costs fun h => h.vector _ _ _).free_then fun _ =>
        (wWait_costs hp op .left).then_free fun _ => memory_costs fun h => h.vector _ _ _
  have hloop := Spends.repeated (n := size / apColSize + 1) hround
  have hsum : (size / apColSize + 1) • ((1, 4) : ℕ × ℕ) =
      (size / apColSize + 1, 4 * (size / apColSize + 1)) :=
    Prod.ext (Nat.mul_one _) (Nat.mul_comm _ _)
  rw [← hsum]
  exact hloop

theorem apComputingHorizontalTest_costs (op : APOperations) (internalCol : APInternalCollunm)
    (seed : UInt8) (A B : ℕ) :
    Costs p b (1, 4) (apComputingHorizontalTest p op internalCol seed A B) := by
  rw [apComputingHorizontalTest_eq]
  refine (memory_costs fun h => .forUpTo fun _ => (h.store _ _).bind fun _ =>
    h.store _ _).free_then fun _ => ?_
  refine (computeTimed_costs hp op internalCol A B apColSize).then_free fun _ => ?_
  refine memory_costs fun h => Matches.bind (.allUpTo fun _ => (h.load _).bind fun _ =>
    (h.load _).bind fun _ => (h.load _).bind fun _ => .pure _) fun _ => ?_
  exact .ite (fun _ => .pure _) fun _ => .pure _

theorem vectorApOpHorizontal_costs (op : APOperations) (size seed : ℤ) :
    Costs p b (chunksCost size) (vectorApOpHorizontal p op size seed) := by
  have hstart : Costs p b 0 p.startComputeCycles := memory_costs fun h => h.startComputeCycles
  have hend : Costs p b 0 p.endComputeCycles := memory_costs fun h => h.endComputeCycles
  have hfill : ∀ n, Costs p b 0 (fillABCols (p.rvAddr .a) (p.rvAddr .b) n) := fun n =>
    memory_costs fun h => fillABCols_agrees h _ _ n
  have hl := wWait_costs (b := b) hp op .left
  -- both sides of the columns, and what follows them
  have hboth {d : ℕ × ℕ} {m : Prog Unit} (hm : Costs p b d m) : Costs p b ((2, 8) + d) (do
      apTriggerComputingWWait p op .horizontal .left
      apTriggerComputingWWait p op .horizontal .right
      m) :=
    (hl.bind fun _ => (wWait_costs hp op .right).bind fun _ => hm).of_eq (add_assoc _ _ _).symm
  have hround {d : ℕ × ℕ} {m : Prog Unit} (hm : Costs p b d m) : Costs p b ((2, 9) + d) (do
      apTriggerComputingWWait p op .horizontal .left
      apTriggerComputingWWait p op .horizontal .right
      offload p 1024
      m) :=
    (hboth ((offload_costs 1024).bind fun _ => hm)).of_eq (add_assoc _ _ _).symm
  rw [vectorApOpHorizontal]
  refine (memory_costs fun h => fillRandomVectors_agrees h op size).free_then fun _ => ?_
  refine .iteThen ?_ fun hrest => (hfill _).free_then fun _ => hstart.free_then fun _ =>
    hl.bind fun _ => hend.free_then fun _ => hrest
  refine .iteThen ?_ fun hrest => (hfill _).free_then fun _ => hstart.free_then fun _ =>
    hboth (hend.free_then fun _ => hrest)
  refine .iteThen ?_ fun hrest => (hfill _).free_then fun _ => hstart.free_then fun _ => ?_
  · refine .iteThen ?_ fun hrest => (hfill _).free_then fun _ => hstart.free_then fun _ => ?_
    · exact apMonitorBreakpoint_costs.bind fun _ => warmupAp_costs hp
    · refine (hround (hround (hround (hboth (hend.free_then fun _ => hrest))))).of_eq ?_
      simp only [← add_assoc]
      rfl
  · refine (hround (hboth (hend.free_then fun _ => hrest))).of_eq ?_
    rw [← add_assoc]
    rfl

theorem testVectorApOpHorizontal_costs : Costs p b (19, 232) (testVectorApOpHorizontal p) := by
  have hsize := fun size => vectorApOpHorizontal_costs (b := b) hp .not size 14
  exact (hsize 32).bind fun _ => (hsize 64).bind fun _ => (hsize 128).bind fun _ =>
    (hsize 256).bind fun _ => (hsize 512).bind fun _ => (hsize 1024).bind fun _ =>
      (hsize 2048).bind fun _ => hsize 4096

theorem accumulateHorizontal_costs : Costs p b (10, 117) (accumulateHorizontal p) := by
  have hround : ∀ i, Costs p b (1, 11) (accumulateBody p i) := fun i =>
    (wWait_costs hp .add .left).bind fun _ => apMonitorBreakpoint_costs.then_free fun _ =>
      memory_costs fun h => accumDataManipulation_agrees h i
  have hloop := Spends.forHalving (n := 512) hround
  have hsize : (512 : ℕ).size = 10 := Nat.size_pow (n := 9)
  rw [hsize] at hloop
  refine (memory_costs fun h => .forUpTo fun _ => (h.call (c := .apStoreData ..) trivial).bind
    fun _ => h.call (c := .apStoreData ..) trivial).free_then fun _ => ?_
  refine Spends.bind (c := (0, 7)) (d := (10, 110)) apMonitorBreakpoint_costs fun _ => ?_
  refine (memory_costs fun h => h.startComputeCycles).free_then fun _ => ?_
  exact hloop.then_free fun _ => memory_costs fun h => h.endComputeCycles

/-! ### Matrix products -/

theorem apMatrixColMm_costs (factor : UInt8) (bytes iterator : ℕ) :
    Costs p b (3, 16) (apMatrixColMm p factor bytes iterator) :=
  (call_costs hp (c := .start (.setValueCamALeft factor)) rfl).bind fun _ =>
    (wWait_costs hp .mult .left).bind fun _ =>
      (memory_costs fun h => h.memcpy _ _ _).free_then fun _ =>
        (wWait_costs hp .addD .right).bind fun _ => call_costs hp (c := .apFlushC0) trivial

theorem apMatrixColMmWindow_costs (factor : UInt8) (bytes : ℕ) :
    Costs p b (3, 16) (apMatrixColMmWindow p factor bytes) :=
  (call_costs hp (c := .start (.setValueCamALeft factor)) rfl).bind fun _ =>
    (wWait_costs hp .mult .left).bind fun _ => (wWaitTargetA_costs hp .addD 0b011).bind fun _ =>
      call_costs hp (c := .apFlushC0) trivial

omit hp in
/-- A product that starts three operations for each element of `A`, and copies out each row. -/
theorem rows_costs {m k : ℕ} {round : ℕ → ℕ → Prog Unit} {out : ℕ → Prog Unit}
    (hround : ∀ i j, Costs p b (3, 16) (round i j)) (hout : ∀ i, Costs p b (0, 5) (out i)) :
    Costs p b (3 * (m * k), 16 * (m * k) + 5 * m) (forUpTo m fun i => do
      forUpTo k fun j => round i j
      out i) := by
  have hsum : m • (k • ((3, 16) : ℕ × ℕ) + (0, 5)) = (3 * (m * k), 16 * (m * k) + 5 * m) := by
    simp only [Prod.smul_mk, Prod.mk_add_mk, smul_eq_mul, Prod.mk.injEq]
    exact ⟨by ring, by ring⟩
  rw [← hsum]
  exact .repeated fun i => (Spends.repeated (hround i)).bind fun _ => hout i

theorem apMm_costs (m k n : ℕ) :
    Costs p b (3 * (m * k), 16 * (m * k) + 5 * m) (apMm p m k n) :=
  rows_costs (fun _ _ => (memory_costs fun h => h.memcpy _ _ _).free_then fun _ =>
    (memory_costs fun h => h.readVec _ _).free_then fun _ => apMatrixColMm_costs hp _ _ _) fun _ =>
      (memory_costs fun h => h.memcpy _ _ _).free_then fun _ =>
        call_costs hp (c := .apFlushC1) trivial

theorem apMmV2_costs (m k n : ℕ) :
    Costs p b (3 * (m * k), 16 * (m * k) + 5 * m) (apMmV2 p m k n) :=
  rows_costs (fun _ _ => (memory_costs fun h => h.memcpy _ _ _).free_then fun _ =>
    (memory_costs fun h => h.readVec _ _).free_then fun _ => apMatrixColMmWindow_costs hp _ _)
      fun _ => (memory_costs fun h => h.memcpy _ _ _).free_then fun _ =>
        call_costs hp (c := .apFlushA1) trivial

theorem apMmV3_costs (m k n : ℕ) : Costs p b (3 * (m * k), 16 * (m * k)) (apMmV3 p m k n) := by
  have hsum : m • (k • ((3, 16) : ℕ × ℕ)) = (3 * (m * k), 16 * (m * k)) := by
    simp only [Prod.smul_mk, smul_eq_mul, Prod.mk.injEq]
    exact ⟨by ring, by ring⟩
  rw [← hsum]
  exact .repeated fun _ => .repeated fun _ =>
    (memory_costs fun h => h.memcpy _ _ _).free_then fun _ =>
      (memory_costs fun h => h.readVec _ _).free_then fun _ => apMatrixColMmWindow_costs hp _ n

theorem apMmV4_costs (m k n : ℕ) : Costs p b (2 * m, 12 * m) (apMmV4 p m k n) := by
  have hsum : m • ((2, 12) : ℕ × ℕ) = (2 * m, 12 * m) :=
    Prod.ext (Nat.mul_comm _ _) (Nat.mul_comm _ _)
  rw [← hsum]
  exact .repeated fun i => (memory_costs fun h => mmColsSetup_agrees h _ _ i).free_then fun _ =>
    (wWait_costs hp .mult .left).bind fun _ => (wWaitTargetA_costs hp .addD 0b011).bind fun _ =>
      call_costs hp (c := .apFlushC0) trivial

theorem matmulEvaluation_costs (d : ℕ) : Costs p b (2 * d, 12 * d) (matmulEvaluation p d) := by
  refine (memory_costs fun h => fillRandomVectors_agrees h _ _).free_then fun _ =>
    (memory_costs fun h => h.startComputeCycles).free_then fun _ =>
      (apMmV4_costs hp d d d).then_free fun _ => memory_costs fun h => ?_
  exact h.endComputeCycles.bind fun _ => (h.memcpy _ _ _).bind fun _ =>
    (checksum_agrees h _ _).bind fun _ => (h.memset _ _ _).bind fun _ =>
      h.startComputeCycles.bind fun _ => (matmulCpu_agrees h _ _ _).bind fun _ =>
        h.endComputeCycles.bind fun _ => (checksum_agrees h _ _).bind fun _ =>
          .ite (fun _ => .pure _) fun _ => .pure _

/-! ### The other functions -/

theorem flushTest_costs : Costs p b (0, 30) (flushTest p) :=
  (memory_costs fun h => fillLoop_agrees h _ _ _).free_then fun _ =>
    (flushCol_costs hp _ _).bind fun _ => (flushCol_costs hp _ _).bind fun _ =>
      (flushCol_costs hp _ _).bind fun _ => (flushCol_costs hp _ _).bind fun _ =>
        (flushCol_costs hp _ _).bind fun _ => flushCol_costs hp _ _

theorem setValueTest_costs : Costs p b (6, 24) (setValueTest p) :=
  (setValue_costs hp _ _ _).bind fun _ => (setValue_costs hp _ _ _).bind fun _ =>
    (setValue_costs hp _ _ _).bind fun _ => (setValue_costs hp _ _ _).bind fun _ =>
      (setValue_costs hp _ _ _).bind fun _ => setValue_costs hp _ _ _

theorem apSearchTest_costs : Costs p b (1, 3) (apSearchTest p) :=
  (memory_costs fun h => fillLoop_agrees h _ _ _).free_then fun _ =>
    (memory_costs fun h => h.store _ _).free_then fun _ =>
      (memory_costs fun h => h.startComputeCycles).free_then fun _ =>
        (search_costs hp _ _ _).then_free fun _ => memory_costs fun h =>
          h.endComputeCycles.bind fun _ => .forUpTo fun _ => (h.load _).bind fun _ =>
            h.writeVec _ _ _

theorem apSetTest_costs : Costs p b (1, 4) (apSetTest p) :=
  (setValue_costs hp _ _ _).then_free fun _ => memory_costs fun h =>
    h.startComputeCycles.bind fun _ => (h.memset _ _ _).bind fun _ => (h.memset _ _ _).bind fun _ =>
      h.endComputeCycles

theorem apTestAddD_costs : Costs p b (2, 8) (apTestAddD p) := by
  have hstore : ∀ a v, Costs p b 0 (store a v) := fun a v => memory_costs fun h => h.store a v
  have hadd := wWait_costs (b := b) hp .addD .right
  exact (hstore _ _).free_then fun _ => (hstore _ _).free_then fun _ =>
    (hstore _ _).free_then fun _ => hadd.bind fun _ => (hstore _ _).free_then fun _ =>
      (hstore _ _).free_then fun _ => (hstore _ _).free_then fun _ => hadd

theorem apReduce_costs (a b' resultSum resultCount n : ℕ) :
    Costs p b (2, 21) (apReduce p a b' resultSum resultCount n) :=
  (flushCol_costs hp _ _).bind fun _ => (memory_costs fun h => h.copyLoop _ _ _).free_then fun _ =>
    (search_costs hp _ _ _).bind fun _ => (flushCol_costs hp _ _).bind fun _ =>
      (search_costs hp _ _ _).bind fun _ => (flushCol_costs hp _ _).then_free fun _ =>
        memory_costs fun h => h.copyLoop _ _ _

/-! ### Runs -/

omit hp in
theorem void_costs {c : ℕ × ℕ} {m : Prog Unit} (h : Costs p b c m) : Costs p b c (void m) :=
  h.then_free fun _ => .pure 0

theorem kernel_costs {k : Kernel} (hv : ¬ k.Vertical) (hpolls : k.polls = none) :
    Costs p b k.cost (k.exec p) := by
  cases k with
  | accum | apComputingVerticalTest | functionalTest => exact absurd trivial hv
  | opTargetSetup | apAccum => cases hpolls
  | flushTest => exact void_costs (flushTest_costs hp)
  | setValueTest => exact void_costs (setValueTest_costs hp)
  | apSearchTest => exact void_costs (apSearchTest_costs hp)
  | apSetTest => exact void_costs (apSetTest_costs hp)
  | apTestAddD => exact void_costs (apTestAddD_costs hp)
  | apMonitorBreakpoint => exact void_costs apMonitorBreakpoint_costs
  | offload size => exact void_costs (offload_costs size)
  | accumulateHorizontal => exact void_costs (accumulateHorizontal_costs hp)
  | apComputingHorizontalTest op ic seed A B =>
    exact apComputingHorizontalTest_costs hp op ic seed A B
  | apReduce a b rs rc n => exact void_costs (apReduce_costs hp a b rs rc n)
  | vectorApOpKernelHorizontal op A B C size =>
    exact void_costs (vectorApOpKernelHorizontal_costs hp op A B C size)
  | vectorApOpHorizontal op size seed =>
    exact void_costs (vectorApOpHorizontal_costs hp op size seed)
  | testVectorApOpHorizontal => exact void_costs (testVectorApOpHorizontal_costs hp)
  | apMatrixColMm factor bytes iterator =>
    exact void_costs (apMatrixColMm_costs hp factor bytes iterator)
  | apMatrixColMmWindow factor bytes =>
    exact void_costs (apMatrixColMmWindow_costs hp factor bytes)
  | apMatrixColMmWindow2 factor bytes =>
    exact void_costs (apMatrixColMmWindow_costs hp factor bytes)
  | apMm m k n => exact void_costs (apMm_costs hp m k n)
  | apMmV2 m k n => exact void_costs (apMmV2_costs hp m k n)
  | apMmV3 m k n => exact void_costs (apMmV3_costs hp m k n)
  | apMmV4 m k n => exact void_costs (apMmV4_costs hp m k n)
  | matmulEvaluation d => exact (matmulEvaluation_costs hp d).then_free fun _ => .pure _
  | main =>
    have hmain : Costs p b (20, 132) (main p) :=
      (warmupAp_costs hp).bind fun _ => matmulEvaluation_costs hp 10
    exact hmain.then_free fun _ => .pure _
  | _ => exact memory_costs fun h => kernel_memory h trivial

theorem calls_cost {calls : List Call} (hc : ∀ c ∈ calls, c.Waits) :
    Costs p b (calls.map Call.cost).sum (calls.mapM (Call.exec p)) := by
  refine .mapM fun c hmem => ?_
  have hwaits := hc c hmem
  cases c with
  | hal c => exact fun k => HalCall.value_leads (call_costs hp hwaits k)
  | kernel k => exact kernel_costs hp hwaits.1 hwaits.2

end Columns

/-- **What a run costs.** On a processor that answers every trigger, whatever it computes and
however long it takes, a run never hangs: it stops only where it stores bytes into a register.
If it returns, it has started the operations of its calls and made their register writes, and
has polled for each operation once more than it takes, and for nothing else. -/
theorem firmware_costs (hp : p.Triggers) {calls : List Call} (hc : ∀ c ∈ calls, c.Waits)
    (s : St) :
    (∀ vs t, calls.mapM (Call.exec p) s = .ok vs t →
      t.started = s.started + (calls.map Call.cost).sum.1 ∧
      written t.bus = written s.bus + (calls.map Call.cost).sum.2 ∧
      polled t.bus = polled s.bus + ∑ k ∈ Finset.Ico s.started t.started, (p.latency k + 1)) ∧
    ∀ e t, calls.mapM (Call.exec p) s = .error e t → e = .registerAccess := by
  have hcost := calls_cost (b := (polled s.bus : ℤ) - pollsOf p s.started) hp hc
  have hs : PollsBalance p (polled s.bus - pollsOf p s.started) s := by
    rw [PollsBalance]
    omega
  refine ⟨fun vs t hr => ?_, fun e t hr => hcost.error hs hr⟩
  obtain ⟨hpolls, hc⟩ := hcost.ok hs hr
  obtain ⟨hstarted, hwritten⟩ := Prod.mk.inj hc
  refine ⟨hstarted, hwritten, ?_⟩
  have hle : s.started ≤ t.started := hstarted ▸ Nat.le_add_right _ _
  have hsum := Finset.sum_range_add_sum_Ico (fun k => p.latency k + 1) hle
  rw [PollsBalance] at hpolls
  rw [← pollsOf, ← pollsOf] at hsum
  omega

/-- A product of each kind, and `main`. -/
def someProducts : List Call :=
  [.hal .warmupAp, .kernel (.apMm 3 4 5), .kernel (.apMmV2 3 4 5), .kernel (.apMmV3 3 4 5),
    .kernel (.apMmV4 3 4 5), .kernel .accumulateHorizontal, .kernel .main]

theorem firmware_costs_products :
    (∀ vs t, someProducts.mapM (Call.exec (.reference 3)) (.rest fun _ => 0) = .ok vs t →
      t.started = (St.rest fun _ => 0).started + (someProducts.map Call.cost).sum.1 ∧
      written t.bus = written (St.rest fun _ => 0).bus + (someProducts.map Call.cost).sum.2 ∧
      polled t.bus = polled (St.rest fun _ => 0).bus +
        ∑ k ∈ Finset.Ico (St.rest fun _ => 0).started t.started,
          ((Platform.reference 3).latency k + 1)) ∧
    ∀ e t, someProducts.mapM (Call.exec (.reference 3)) (.rest fun _ => 0) = .error e t →
      e = .registerAccess :=
  firmware_costs (Platform.reference_triggers 3)
    (by simp [someProducts, Call.Waits, HalCall.Waits, HalCall.Horizontal, Kernel.Vertical,
      Kernel.polls]) _

/-- They start 144 operations: 36 each the first three, and 6 the last. -/
example : (someProducts.map Call.cost).sum = (144, 903) := by decide

end RocketAp.Kernels
