import RocketAp.Kernels.Functions
import RocketAp.Hal.Effects
import RocketAp.Hal.Vectors

/-!
# The horizontal test

`ap_computing_horizontal_test` generates two vectors, has `ap_computing` write them and
start the operation, and compares what `C` holds with what the CPU computes. The vectors are
written and the operation is started on the side it is given; what it reads is always `C_0`.

On the left its verdict is right on every processor. On the right it compares with a column
that the operation has not written, after an operation on columns that the vectors have not
been written to (`apComputingHorizontalTest_iff`).
-/

namespace RocketAp.Kernels

open ProgramLogic Device Hal

variable {p : Platform}

/-! ### The two buffers -/

/-- The two buffers of the test. -/
structure TestBuffers where
  A : Buf apColSize
  B : Buf apColSize
  /-- `malloc` gives one byte to one buffer. -/
  disjoint : A.addr + apColSize ≤ B.addr ∨ B.addr + apColSize ≤ A.addr

variable (bufs : TestBuffers) (op : APOperations) (seed : UInt8)

/-- Memory with the two vectors generated. -/
def generated (m : Mem) : Mem :=
  (m.write bufs.A.addr apColSize (testA op seed)).write bufs.B.addr apColSize (testB op seed)

theorem fillBuffers_run (s : St) :
    forUpTo apColSize (fun i => do
      store (bufs.A.addr + i) (testA op seed i)
      store (bufs.B.addr + i) (testB op seed i)) s =
        .ok () { s with mem := generated bufs op seed s.mem } := by
  suffices h : ∀ n ≤ apColSize, forUpTo n (fun i => do
      store (bufs.A.addr + i) (testA op seed i)
      store (bufs.B.addr + i) (testB op seed i)) s = .ok () { s with
        mem := (s.mem.write bufs.A.addr n (testA op seed)).write bufs.B.addr n (testB op seed) }
    from h _ (Nat.le_refl _)
  intro n hn
  have hdis := bufs.disjoint
  induction n with
  | zero =>
    have hzero : ∀ (m : Mem) (dst : ℕ) (f : ℕ → UInt8), m.write dst 0 f = m := fun m dst f =>
      funext fun a => Mem.write_of_not_mem _ _ (by omega)
    rw [hzero, hzero]
    rfl
  | succ n ih =>
    rw [forUpTo_succ_run (ih (by omega))]
    refine (bind_run (store_run (bufs.A.offRegisters.at (by omega)) _ _)).trans ?_
    rw [store_run (bufs.B.offRegisters.at (by omega))]
    simp only [Mem.write_store _ _ _ (show ¬ (bufs.B.addr ≤ bufs.A.addr + n ∧
      bufs.A.addr + n < bufs.B.addr + n) by omega), Mem.write_succ]

theorem generated_A (m : Mem) {i : ℕ} (hi : i < apColSize) :
    generated bufs op seed m (bufs.A.addr + i) = testA op seed i := by
  have hdis := bufs.disjoint
  rw [generated, Mem.write_of_not_mem _ _ (by omega), Mem.write_at _ _ _ hi]

theorem generated_B (m : Mem) {i : ℕ} (hi : i < apColSize) :
    generated bufs op seed m (bufs.B.addr + i) = testB op seed i := by
  rw [generated, Mem.write_at _ _ _ hi]

theorem camsOf_generated (m : Mem) : camsOf (generated bufs op seed m) = camsOf m := by
  rw [generated, camsOf_write_apart _ _ bufs.B.apart, camsOf_write_apart _ _ bufs.A.apart]

/-! ### Where the vectors go -/

variable (internalCol : APInternalCollunm)

/-- Memory with the two vectors generated and written. -/
def placed (m : Mem) : Mem :=
  ((generated bufs op seed m).copyLoop (finalAddr .camA internalCol) bufs.A.addr apColSize).copyLoop
    (finalAddr .camB internalCol) bufs.B.addr apColSize

/-- The byte the test expects in a row of `C`. -/
def expected (i : ℕ) : UInt8 := apUnitTestSw op (testA op seed i) (testB op seed i)

/-- The byte it compares the row with: on the right the vectors may have been written over
the buffers. -/
def compared (m : Mem) (i : ℕ) : UInt8 :=
  apUnitTestSw op (placed bufs op seed internalCol m (bufs.A.addr + i))
    (placed bufs op seed internalCol m (bufs.B.addr + i))

/-- The state in which the operation is started. -/
def placedState (s : St) : St :=
  afterCopy (finalAddr .camB internalCol) bufs.B.addr apColSize
    (afterCopy (finalAddr .camA internalCol) bufs.A.addr apColSize
      { s with mem := generated bufs op seed s.mem })

theorem placedState_mem (s : St) :
    (placedState bufs op seed internalCol s).mem = placed bufs op seed internalCol s.mem := by
  simp only [placedState, afterCopy, placed]

/-- A copy to a left column. -/
theorem camsOf_copyLoop_left (m : Mem) (col : APCollunm) (V : Buf apColSize) :
    camsOf (m.copyLoop (finalAddr col .left) V.addr apColSize) =
      Function.update (camsOf m) (namedCam col .left) fun r => m (V.addr + r) := by
  have hap := V.apart_base (namedCam col .left)
  rw [finalAddr_left, Mem.copyLoop_eq_copy m (by omega)]
  refine (camsOf_write_base m (namedCam col .left) (fun i => m (V.addr + i))
    (show 0 + apColSize ≤ apColSize from (Nat.zero_add _).le)).trans ?_
  rw [Column.write_zero]
  congr 1
  funext r
  rw [if_pos r.isLt]

/-- It is not to a buffer. -/
theorem copyLoop_left_buf (m : Mem) (col : APCollunm) (src : ℕ) (V : Buf apColSize) {i : ℕ}
    (hi : i < apColSize) :
    m.copyLoop (finalAddr col .left) src apColSize (V.addr + i) = m (V.addr + i) := by
  have hap := V.apart_base (namedCam col .left)
  rw [← finalAddr_left] at hap
  exact Mem.copyLoop_of_not_mem _ (by omega)

/-- A copy past the columns. -/
theorem camsOf_copyLoop_right (m : Mem) (col : APCollunm) (src n : ℕ) :
    camsOf (m.copyLoop (finalAddr col .right) src n) = camsOf m := by
  have hge := finalAddr_right col
  have hw := apWindow
  funext c r
  have hr := r.isLt
  have hle := c.base_le
  exact Mem.copyLoop_of_not_mem _ (by omega)

/-- On the left the test compares with what it expects. -/
theorem compared_left (m : Mem) {i : ℕ} (hi : i < apColSize) :
    compared bufs op seed .left m i = expected op seed i := by
  rw [compared, placed, copyLoop_left_buf _ _ _ _ hi, copyLoop_left_buf _ _ _ _ hi,
    copyLoop_left_buf _ _ _ _ hi, copyLoop_left_buf _ _ _ _ hi, generated_A _ _ _ _ hi,
    generated_B _ _ _ _ hi]
  rfl

/-- On the left the two vectors are in `A_0` and `B_0`. -/
theorem camsOf_placed_left (m : Mem) (r : Fin apColSize) :
    camsOf (placed bufs op seed .left m) (namedCam .camA .left) r = testA op seed r ∧
      camsOf (placed bufs op seed .left m) (namedCam .camB .left) r = testB op seed r := by
  rw [placed, camsOf_copyLoop_left, camsOf_copyLoop_left]
  constructor
  · rw [Function.update_of_ne (by decide), Function.update_self, generated_A _ _ _ _ r.isLt]
  · rw [Function.update_self, copyLoop_left_buf _ _ _ _ r.isLt, generated_B _ _ _ _ r.isLt]

theorem camsOf_placed_right (m : Mem) : camsOf (placed bufs op seed .right m) = camsOf m := by
  rw [placed, camsOf_copyLoop_right, camsOf_copyLoop_right, camsOf_generated]

/-! ### The operation and the verdict -/

/-- What the test does to the registers. -/
def operate (p : Platform) (op : APOperations) (internalCol : APInternalCollunm) : Prog Unit := do
  p.writeControl (controlWord 1 0 0 0)
  p.writeMode (modeWord internalCol.val 0 APOpDirection.horizontal.val op.val)
  p.writeControl (controlWord 1 0 1 0)
  p.startComputeCycles
  waitIrq
  p.endComputeCycles
  p.writeControl 0x0

/-- The comparison and what it returns. -/
def verdict (op : APOperations) (A B : ℕ) : Prog ℤ := do
  let equal ← allUpTo apColSize fun i => do
    let a ← load (A + i)
    let b ← load (B + i)
    let apOp ← load (Cam.c0.base + i)
    return apOp = apUnitTestSw op a b
  if equal then return 1
  return 0

/-- The test is the operation and the verdict, from the state with the vectors placed. -/
theorem apComputingHorizontalTest_run (s : St) :
    apComputingHorizontalTest p op internalCol seed bufs.A.addr bufs.B.addr s =
      (do operate p op internalCol; verdict op bufs.A.addr bufs.B.addr)
        (placedState bufs op seed internalCol s) := by
  rw [apComputingHorizontalTest]
  refine (bind_run (fillBuffers_run bufs op seed s)).trans ?_
  simp only [apComputing, bind_assoc, pure_bind]
  refine (bind_run (apWriteVector_run .camA internalCol _ (Nat.le_refl _) _)).trans ?_
  refine (bind_run (apWriteVector_run .camB internalCol _ (Nat.le_refl _) _)).trans ?_
  simp only [operate, verdict, Platform.setControlReg, Platform.setModeReg, bind_assoc, placedState]

/-- The verdict is `1` when every row of `C_0` is what the two buffers give. -/
theorem verdict_run (A B : ℕ) (s : St) : Ensures (verdict op A B) s fun v t =>
    (v = 1 ↔ ∀ i < apColSize,
      s.row .c0 i = apUnitTestSw op (s.mem (A + i)) (s.mem (B + i))) ∧ t.mem = s.mem := by
  refine .bind (Ensures.allUpTo (fun t : St => t.mem = s.mem) (fun i =>
    s.row .c0 i = apUnitTestSw op (s.mem (A + i)) (s.mem (B + i))) rfl ?_) ?_
  · intro i _ t ht
    refine .step rfl (.step rfl (.step rfl (.pure ⟨?_, ht⟩)))
    simp only [decide_eq_true_eq, St.row, ← ht]
  · rintro (_ | _) t ⟨hok, ht⟩
    · refine .pure ⟨iff_of_false (by decide) fun hall => ?_, ht⟩
      exact absurd (hok.mpr hall) Bool.false_ne_true
    · exact .pure ⟨iff_of_true rfl (hok.mp rfl), ht⟩

/-- On any processor the operation changes nothing but columns. -/
theorem operate_outside {s t : St} (h : operate p op internalCol s = .ok () t) {a : ℕ}
    (ha : ¬ InColumns a) : t.mem a = s.mem a := by
  have hkeeps : Keeps Undisturbed (operate p op internalCol) :=
    (writeControl_keeps _).bind fun _ => (writeMode_keeps _).bind fun _ =>
      (writeControl_keeps _).bind fun _ => startComputeCycles_keeps.bind fun _ =>
        waitIrq_keeps.bind fun _ => endComputeCycles_keeps.bind fun _ => writeControl_keeps _
  exact (hkeeps.ifReturns s () t h).outside a ha

/-- On a processor that computes `op` the operation is on the side it is given. -/
theorem operate_changed (hp : p.Triggers) (hr : p.Resets) (hop : p.RunsRowwise op) (s : St) :
    Ensures (operate p op internalCol) s fun _ u => Changed s u
      (Function.update s.cams (namedCam .camC internalCol) fun r =>
        apUnitTestSw op (s.cams (namedCam .camA internalCol) r)
          (s.cams (namedCam .camB internalCol) r)) := by
  have ht := triggered_horizontal op .camA internalCol
  have h := timedHandshake_changed hp hr (l := controlWord 1 0 0 0)
    (m := modeWord internalCol.val 0 APOpDirection.horizontal.val op.val) (t := s) rfl noReset_lock
    ht.ifState ht.trigger
  rw [onControl_horizontal hop] at h
  exact h

/-! ### When the test is right -/

/-- The column of `C` on the side the test is given holds what it expects. -/
def HoldsExpected (s : St) : Prop :=
  ∀ i < apColSize, s.row (namedCam .camC internalCol) i = expected op seed i

/-- On any processor: when the test returns, and what it returns. -/
theorem verdict_iff {s t : St} {v : ℤ}
    (h : apComputingHorizontalTest p op internalCol seed bufs.A.addr bufs.B.addr s = .ok v t) :
    (v = 1 ↔ ∀ i < apColSize, t.row .c0 i = compared bufs op seed internalCol s.mem i) ∧
      ∃ u, operate p op internalCol (placedState bufs op seed internalCol s) = .ok () u ∧
        t.mem = u.mem := by
  rw [apComputingHorizontalTest_run bufs] at h
  obtain ⟨_, u, hu, hv⟩ := bind_ok h
  obtain ⟨hiff, hmem⟩ := (verdict_run op bufs.A.addr bufs.B.addr u).holds hv
  have hbuf : ∀ V : Buf apColSize, ∀ i < apColSize,
      u.mem (V.addr + i) = placed bufs op seed internalCol s.mem (V.addr + i) := by
    intro V i hi
    have hap := V.apart
    have hw := apWindow
    rw [operate_outside op internalCol hu fun ⟨h₁, h₂⟩ => by omega, placedState_mem]
  refine ⟨hiff.trans (forall₂_congr fun i hi => ?_), u, hu, hmem⟩
  rw [hbuf bufs.A i hi, hbuf bufs.B i hi, St.row, St.row, hmem]
  rfl

/-- On the left, on any processor, the verdict is right. -/
theorem verdict_left {s t : St} {v : ℤ}
    (h : apComputingHorizontalTest p op .left seed bufs.A.addr bufs.B.addr s = .ok v t) :
    v = 1 ↔ HoldsExpected op seed .left t := by
  rw [(verdict_iff bufs op seed .left h).1]
  refine forall₂_congr fun i hi => ?_
  rw [compared_left bufs op seed s.mem hi]
  rfl

/-- On a processor that computes `op` the test returns, and the operation has been done on the
side it was given. -/
theorem apComputingHorizontalTest_cams (hp : p.Triggers) (hr : p.Resets)
    (hop : p.RunsRowwise op) (s : St) :
    Ensures (apComputingHorizontalTest p op internalCol seed bufs.A.addr bufs.B.addr) s fun _ t =>
      let cs := camsOf (placed bufs op seed internalCol s.mem)
      t.cams = Function.update cs (namedCam .camC internalCol) fun r =>
        apUnitTestSw op (cs (namedCam .camA internalCol) r)
          (cs (namedCam .camB internalCol) r) := by
  obtain ⟨_, u, hu, hc⟩ := operate_changed op internalCol hp hr hop
    (placedState bufs op seed internalCol s)
  obtain ⟨v, t, ht, -, hmem⟩ := verdict_run op bufs.A.addr bufs.B.addr u
  have hrun : apComputingHorizontalTest p op internalCol seed bufs.A.addr bufs.B.addr s =
      .ok v t := by rw [apComputingHorizontalTest_run bufs, bind_run hu, ht]
  have hcams : (placedState bufs op seed internalCol s).cams =
      camsOf (placed bufs op seed internalCol s.mem) := by rw [St.cams, placedState_mem]
  refine .of_run hrun ?_
  rw [St.cams, hmem, ← hcams]
  exact hc.cams

/-- What makes the test right on the right: `C_0` holds what is compared, and the operands
that `A_1` and `B_1` hold give the results expected. -/
structure RightHolds (s : St) : Prop where
  c0 : ∀ i < apColSize, s.row .c0 i = compared bufs op seed .right s.mem i
  operands : ∀ i < apColSize, apUnitTestSw op (s.row .a1 i) (s.row .b1 i) = expected op seed i

/-- The verdict is right and is `1`: always on the left, and on the right when the columns held
what makes it so. -/
theorem accepts_iff (hp : p.Triggers) (hr : p.Resets) (hop : p.RunsRowwise op) (s : St) :
    Ensures (apComputingHorizontalTest p op internalCol seed bufs.A.addr bufs.B.addr) s
      (fun v t => (v = 1 ↔ HoldsExpected op seed internalCol t) ∧ v = 1) ↔
        internalCol = .left ∨ RightHolds bufs op seed s := by
  obtain ⟨v, t, hrun, hcams⟩ := apComputingHorizontalTest_cams bufs op seed internalCol hp hr hop s
  have hv := (verdict_iff bufs op seed internalCol hrun).1
  have hiff : Ensures (apComputingHorizontalTest p op internalCol seed bufs.A.addr bufs.B.addr) s
      (fun v t => (v = 1 ↔ HoldsExpected op seed internalCol t) ∧ v = 1) ↔
        v = 1 ∧ HoldsExpected op seed internalCol t := by
    rw [ensures_iff_of_run hrun]
    constructor
    · rintro ⟨hsound, hone⟩
      exact ⟨hone, hsound.mp hone⟩
    · rintro ⟨hone, hholds⟩
      exact ⟨iff_of_true hone hholds, hone⟩
  rw [hiff, hv]
  cases internalCol with
  | left =>
    have hholds : HoldsExpected op seed .left t := by
      intro i hi
      obtain ⟨hA, hB⟩ := camsOf_placed_left bufs op seed s.mem ⟨i, hi⟩
      rw [St.row_eq t _ hi, hcams, Function.update_self, hA, hB]
      rfl
    refine iff_of_true ⟨fun i hi => ?_, hholds⟩ (Or.inl rfl)
    rw [compared_left bufs op seed s.mem hi]
    exact hholds i hi
  | right =>
    rw [camsOf_placed_right] at hcams
    have hc₀ : ∀ i < apColSize, t.row .c0 i = s.row .c0 i := by
      intro i hi
      rw [St.row_eq t _ hi, hcams, Function.update_of_ne (by decide)]
      rfl
    have hc₁ : ∀ i < apColSize, t.row (namedCam .camC .right) i =
        apUnitTestSw op (s.row .a1 i) (s.row .b1 i) := by
      intro i hi
      rw [St.row_eq t _ hi, hcams, Function.update_self]
      rfl
    constructor
    · rintro ⟨hrows, hholds⟩
      exact Or.inr ⟨fun i hi => (hc₀ i hi).symm.trans (hrows i hi),
        fun i hi => (hc₁ i hi).symm.trans (hholds i hi)⟩
    · rintro (h | ⟨hrows, hops⟩)
      · cases h
      · exact ⟨fun i hi => (hc₀ i hi).trans (hrows i hi), fun i hi => (hc₁ i hi).trans (hops i hi)⟩

/-- **`ap_computing_horizontal_test`.** On the left its verdict is right on every processor.
On a processor that computes `op` the verdict is right and is `1` exactly on the left, or
when `C_0` held what is compared already and `A_1` and `B_1` held operands with the results
expected. -/
theorem apComputingHorizontalTest_iff (hp : p.Triggers) (hr : p.Resets)
    (hop : p.RunsRowwise op) (s : St) :
    (∀ (q : Platform) v t,
      apComputingHorizontalTest q op .left seed bufs.A.addr bufs.B.addr s = .ok v t →
        (v = 1 ↔ HoldsExpected op seed .left t)) ∧
    (Ensures (apComputingHorizontalTest p op internalCol seed bufs.A.addr bufs.B.addr) s
      (fun v t => (v = 1 ↔ HoldsExpected op seed internalCol t) ∧ v = 1) ↔
        internalCol = .left ∨ RightHolds bufs op seed s) :=
  ⟨fun _ _ _ h => verdict_left bufs op seed h, accepts_iff bufs op seed internalCol hp hr hop s⟩

/-- Two buffers at the start of the CPU's memory. -/
def lowBuffers : TestBuffers where
  A := ⟨0x80000100, by decide, by decide⟩
  B := ⟨0x80000300, by decide, by decide⟩
  disjoint := by decide

theorem apComputingHorizontalTest_add : Ensures
    (apComputingHorizontalTest (.reference 2) .add .left 7 0x80000100 0x80000300)
    (.rest fun a => a.toUInt8) fun v t => (v = 1 ↔ HoldsExpected .add 7 .left t) ∧ v = 1 :=
  (apComputingHorizontalTest_iff lowBuffers .add 7 .left (Platform.reference_triggers 2)
    (Platform.reference_resets 2) (Platform.reference_runsRowwise 2 rfl) _).2.mpr (Or.inl rfl)

/-- On the right, with columns that are zero: the results expected are not all zero. -/
theorem apComputingHorizontalTest_right : ¬ Ensures
    (apComputingHorizontalTest (.reference 2) .or .right 0 0x80000100 0x80000300)
    (.rest someMem) fun v t => (v = 1 ↔ HoldsExpected .or 0 .right t) ∧ v = 1 := by
  intro h
  have hor := (accepts_iff lowBuffers .or 0 .right (Platform.reference_triggers 2)
    (Platform.reference_resets 2) (Platform.reference_runsRowwise 2 rfl) _).mp h
  obtain ⟨-, hops⟩ := hor.resolve_left nofun
  exact absurd (hops 0 (by decide)) (by decide)

end RocketAp.Kernels
