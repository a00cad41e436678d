import RocketAp.Kernels.OuterProducts
import RocketAp.Hal.Accessors

/-!
# A tree reduction

The loop of `accumulate_horizontal` adds `A_0` and `B_0` row by row into `C_0`, then moves
the lower half of the live rows of `C_0` to `A_0` and the upper half to `B_0`, and goes on
with half as many. The rows past the live ones keep what they held, and the processor goes
on adding them: nothing is read from them again.

The sum of the live rows of `A_0` and `B_0` is the same at the start of every round
(`AccumulateInv`). In the last round one row is live and nothing is moved: its sum is left
in row `0` of `C_0` (`accumulate_sum`).

The function stores its operands itself, with word stores that go upwards; their sum does not
fit in a byte (`accumulateHorizontal_wraps`).
-/

namespace RocketAp.Kernels

open ProgramLogic Device Hal Finset

variable {p : Platform} {s t : St}

/-! ### The monitor -/

/-- A block copied out of the columns, below them. -/
theorem offload_cams (hr : p.Resets) (hs : noReset s.control) {size : ℕ}
    (hsize : 0x80000100 + size ≤ apBaseAddr) :
    Ensures (offload p size) s fun _ t => t.cams = s.cams ∧ t.control = s.control ∧
      ∀ a, ¬ (0x80000100 ≤ a ∧ a < 0x80000100 + size) → InColumns a ∨ t.mem a = s.mem a := by
  have hw := apWindow
  have hmode := (Changed.refl s).mode_quiet hr hs
    (modeWord APInternalCollunm.left.val APCollunm.camC.val 0 0)
  refine .step rfl (.of_run (copyFixed_run (Or.inr (Or.inl (by omega))) Cam.c0.base _) ?_)
  refine ⟨?_, rfl, fun a ha => ?_⟩
  · funext c r
    have hle := c.base_ge
    refine (Mem.copyLoop_of_not_mem _ (by omega)).trans ?_
    exact congrFun (congrFun hmode.cams c) r
  · by_cases hc : InColumns a
    · exact Or.inl hc
    · exact Or.inr ((Mem.copyLoop_of_not_mem _ ha).trans (hmode.outside a hc))

/-- `ap_monitor_breakpoint` changes no column. -/
theorem apMonitorBreakpoint_cams (hr : p.Resets) (hs : noReset s.control) :
    Ensures (apMonitorBreakpoint p) s fun _ t => t.cams = s.cams ∧ t.control = s.control ∧
      ∀ a, ¬ (0x80000100 ≤ a ∧ a < 0x80000100 + 10) → InColumns a ∨ t.mem a = s.mem a := by
  have hsize : 0x80000100 + 10 ≤ apBaseAddr := by decide
  have hA := ((Changed.refl s).mode_quiet hr hs
    (modeWord APInternalCollunm.left.val APCollunm.camA.val 0 0)).mode_quiet hr hs
      (modeWord APInternalCollunm.right.val APCollunm.camA.val 0 0)
  have hB := (hA.mode_quiet hr hs
    (modeWord APInternalCollunm.left.val APCollunm.camB.val 0 0)).mode_quiet hr hs
      (modeWord APInternalCollunm.right.val APCollunm.camB.val 0 0)
  have hC := (hB.mode_quiet hr hs
    (modeWord APInternalCollunm.left.val APCollunm.camC.val 0 0)).mode_quiet hr hs
      (modeWord APInternalCollunm.right.val APCollunm.camC.val 0 0)
  refine .step rfl (.step rfl (.step rfl (.step rfl (.step rfl (.step rfl ?_)))))
  apply (offload_cams hr ?_ hsize).mono
  · rintro _ t ⟨hcams, hcontrol, hout⟩
    refine ⟨hcams.trans hC.cams, hcontrol, fun a ha => ?_⟩
    rcases hout a ha with hc | hmem
    · exact Or.inl hc
    · by_cases hc : InColumns a
      · exact Or.inl hc
      · exact Or.inr (hmem.trans (hC.outside a hc))
  · exact hs

/-! ### The moves -/

/-- A byte of a column copied to a column. -/
theorem apGetDataTo_column (c d : Cam) {q r : ℕ} (hq : q < apColSize) (hr : r < apColSize)
    (s : St) : Ensures (apGetDataTo (c.base + q) (d.base + r)) s fun _ t =>
      t.cams = Function.update s.cams c (Function.update (s.cams c) ⟨q, hq⟩ (s.row d r)) := by
  obtain ⟨w, t, hrun, rfl, ht⟩ := lw_run (d.base + r) s
  refine .step hrun ?_
  apply (store_column c hq _ t).mono
  rintro _ u ⟨hu, -⟩
  have hbyte : byte 0 (wordAt s.mem (d.base + r)) = s.row d r := by
    rw [wordAt_low, wordByte_row d ⟨r, hr⟩ (by decide)]
    rfl
  rw [hu.cams, hbyte, St.cams, ht]
  rfl

/-- The first `j` rows of the two halves of `C_0` have been moved. -/
structure Moved (half j : ℕ) (s u : St) : Prop where
  a0 : ∀ r : Fin apColSize, u.cams .a0 r = if (r : ℕ) < j then s.row .c0 r else s.cams .a0 r
  b0 : ∀ r : Fin apColSize,
    u.cams .b0 r = if (r : ℕ) < j then s.row .c0 (half + r) else s.cams .b0 r
  c0 : u.cams .c0 = s.cams .c0

theorem Moved.step {half j : ℕ} {u : St} (hj : half + j < apColSize) (hu : Moved half j s u) :
    Ensures (do apGetDataTo (Cam.a0.base + j) (Cam.c0.base + j)
                apGetDataTo (Cam.b0.base + j) (Cam.c0.base + half + j)) u fun _ v =>
      Moved half (j + 1) s v := by
  have hj' : j < apColSize := by omega
  have hrow : ∀ w : St, w.cams .c0 = s.cams .c0 → ∀ i < apColSize, w.row .c0 i = s.row .c0 i := by
    intro w hw i hi
    rw [St.row_eq w _ hi, St.row_eq s _ hi, hw]
  apply Ensures.bind (apGetDataTo_column .a0 .c0 hj' hj' u)
  intro _ v hv
  have hvc : v.cams .c0 = s.cams .c0 := by rw [hv, Function.update_of_ne (by decide), hu.c0]
  rw [Nat.add_assoc]
  apply (apGetDataTo_column .b0 .c0 hj' hj v).mono
  intro _ w hw
  constructor
  · intro r
    rw [hw, Function.update_of_ne (by decide), hv, Function.update_self, hrow u hu.c0 j hj']
    exact update_succ (f := fun r => s.row .c0 r) hj' hu.a0 r
  · intro r
    have hvb : v.cams .b0 = u.cams .b0 := by rw [hv, Function.update_of_ne (by decide)]
    rw [hw, Function.update_self, hvb, hrow v hvc _ hj]
    exact update_succ (f := fun r => s.row .c0 (half + r)) hj' hu.b0 r
  · rw [hw, Function.update_of_ne (by decide), hvc]

/-- **`accum_data_manipulation`** moves the two halves. -/
theorem accumDataManipulation_moved {size : ℕ} (hsize : size ≤ apColSize) (s : St) :
    Ensures (accumDataManipulation size) s fun _ t => Moved (size / 2) (size / 2) s t := by
  refine Ensures.forUpTo (fun j u => Moved (size / 2) j s u) ?_ fun j hj u hu => ?_
  · exact ⟨fun r => by simp, fun r => by simp, rfl⟩
  · exact hu.step (by omega)

/-! ### The rounds -/

/-- The sum of the first `i` rows of `A_0` and `B_0`. -/
def operandSum (i : ℕ) (s : St) : UInt8 := ∑ r ∈ range i, (s.row .a0 r + s.row .b0 r)

/-- With `i` rows live their sum is the total, and with none it is in row `0` of `C_0`. The
rows that are live are a power of two, so that each half is half of them. -/
structure AccumulateInv (total : UInt8) (i : ℕ) (t : St) : Prop where
  live : 0 < i → (∃ k ≤ 9, i = 2 ^ k) ∧ operandSum i t = total
  done : i = 0 → t.row .c0 0 = total

/-- A round. -/
theorem accumulateBody_step (hp : p.Triggers) (hr : p.Resets) (hop : p.RunsRowwise .add)
    {total : UInt8} {i : ℕ} (hi : 0 < i) (ht : AccumulateInv total i t) :
    Ensures (accumulateBody p i) t fun _ u => AccumulateInv total (i / 2) u := by
  obtain ⟨⟨k, hk, rfl⟩, hsum⟩ := ht.live hi
  have hle : 2 ^ k ≤ 2 ^ 9 := Nat.pow_le_pow_right (by decide) hk
  apply Ensures.bind (rowwise_left_ran hp hr hop t)
  intro _ t₁ h₁
  apply Ensures.bind (apMonitorBreakpoint_cams hr (h₁.control ▸ noReset_zero))
  rintro _ t₂ ⟨h₂, -, -⟩
  apply (accumDataManipulation_moved (show 2 ^ k ≤ apColSize from hle) t₂).mono
  intro _ u hu
  have hadd : ∀ r < apColSize, t₂.row .c0 r = t.row .a0 r + t.row .b0 r := by
    intro r hr
    rw [St.row_eq t₂ _ hr, h₂, h₁.cams, Function.update_self]
    rfl
  cases k with
  | zero =>
    -- one row is live: its sum stays where it is
    refine ⟨fun h => absurd h (by decide), fun _ => ?_⟩
    have hc : u.row .c0 0 = t₂.row .c0 0 := by
      rw [St.row_eq u _ (by decide), hu.c0]
      rfl
    rw [hc, hadd 0 (by decide), ← hsum, operandSum, pow_zero, sum_range_one]
  | succ k =>
    have hhalf : 2 ^ (k + 1) / 2 = 2 ^ k := by rw [pow_succ, Nat.mul_div_cancel _ (by decide)]
    have hdouble : 2 ^ (k + 1) = 2 * 2 ^ k := pow_succ' 2 k
    rw [hhalf] at hu ⊢
    refine ⟨fun _ => ⟨⟨k, by omega, rfl⟩, ?_⟩, fun h => absurd h (by positivity)⟩
    have hsize : apColSize = 2 ^ 9 := rfl
    calc operandSum (2 ^ k) u
        = ∑ r ∈ range (2 ^ k), (t₂.row .c0 r + t₂.row .c0 (2 ^ k + r)) := by
          refine sum_congr rfl fun r hr => ?_
          rw [mem_range] at hr
          have hrs : r < apColSize := by omega
          rw [St.row_eq u .a0 hrs, St.row_eq u .b0 hrs, hu.a0, hu.b0, if_pos hr, if_pos hr]
      _ = ∑ r ∈ range (2 ^ (k + 1)), t₂.row .c0 r := by rw [sum_halves, hdouble]
      _ = operandSum (2 ^ (k + 1)) t :=
          sum_congr rfl fun r hr => hadd r (by rw [mem_range] at hr; omega)
      _ = total := hsum

/-- The loop is entered with every row live. -/
theorem accumulateInv_entry (s : St) : AccumulateInv (operandSum apColSize s) 512 s :=
  ⟨fun _ => ⟨⟨9, by decide, rfl⟩, rfl⟩, fun h => absurd h (by decide)⟩

theorem accumulateLoop_sum (hp : p.Triggers) (hr : p.Resets) (hop : p.RunsRowwise .add)
    (s : St) : Ensures (forHalving 512 (accumulateBody p)) s fun _ t =>
      t.row .c0 0 = operandSum apColSize s := by
  have hloop := Ensures.forHalving _ (accumulateInv_entry s) fun i hi t ht =>
    accumulateBody_step hp hr hop hi ht
  exact hloop.mono fun _ t ht => ht.done rfl

/-- **The loop of `accumulate_horizontal`**, from any operands: at the start of every round
the sum of the live rows is the total, and at the end the total is in row `0` of `C_0`. -/
theorem accumulate_sum (hp : p.Triggers) (hr : p.Resets) (hop : p.RunsRowwise .add) (s : St) :
    (∀ i t, HalvingHead (accumulateBody p) 512 s i t → 0 < i →
      operandSum i t = operandSum apColSize s) ∧
    Ensures (forHalving 512 (accumulateBody p)) s fun _ t =>
      t.row .c0 0 = operandSum apColSize s := by
  refine ⟨fun i t hhead hi => ?_, accumulateLoop_sum hp hr hop s⟩
  have hinv := hhead.invariant _ (accumulateInv_entry s) fun i hi t ht =>
    accumulateBody_step hp hr hop hi ht
  exact (hinv.live hi).2

theorem accumulate_sum_rest : Ensures (forHalving 512 (accumulateBody (.reference 2)))
    (.rest fun a => a.toUInt8) fun _ t =>
      t.row .c0 0 = operandSum apColSize (.rest fun a => a.toUInt8) :=
  (accumulate_sum (Platform.reference_triggers 2) (Platform.reference_resets 2)
    (Platform.reference_runsRowwise 2 rfl) _).2

/-! ### From the stores on -/

/-- The first `j` rows of the operands are `1`. -/
def OnesTo (j : ℕ) (t : St) : Prop := ∀ r < j, t.row .a0 r = 1 ∧ t.row .b0 r = 1

/-- The words of later calls reach the rows of none of the calls before. -/
theorem storeOnes (s : St) :
    Ensures (forUpTo apColSize fun i => do
      apStoreData (Cam.a0.base + i) 1
      apStoreData (Cam.b0.base + i) 1) s fun _ t =>
        OnesTo apColSize t ∧ t.control = s.control := by
  refine Ensures.forUpTo (fun j t => OnesTo j t ∧ t.control = s.control) ?_ ?_
  · exact ⟨fun r hr => absurd hr (Nat.not_lt_zero r), rfl⟩
  · rintro j hj t ⟨ht, hcontrol⟩
    have hbase : Cam.b0.base = Cam.a0.base + 2 * apColSize := rfl
    have hsize : apColSize = 512 := rfl
    apply Ensures.bind (apStoreData_row (c := .a0) (by decide) hj 1 t)
    rintro _ u ⟨hu, hframe, hcu⟩
    apply (apStoreData_row (c := .b0) (by decide) hj 1 u).mono
    rintro _ v ⟨hv, hframe', hcv⟩
    refine ⟨fun r hr => ?_, hcv.trans (hcu.trans hcontrol)⟩
    have ha : v.row .a0 r = u.row .a0 r := hframe' _ (by omega)
    rcases Nat.lt_succ_iff_lt_or_eq.mp hr with hlt | rfl
    · have ha' : u.row .a0 r = t.row .a0 r := hframe _ (by omega)
      have hb : v.row .b0 r = u.row .b0 r := hframe' _ (by omega)
      have hb' : u.row .b0 r = t.row .b0 r := hframe _ (by omega)
      exact ⟨ha.trans (ha'.trans (ht r hlt).1), hb.trans (hb'.trans (ht r hlt).2)⟩
    · exact ⟨ha.trans hu, hv⟩

/-- **`accumulate_horizontal`** returns, and what it leaves in row `0` of `C_0` is the sum of
the ones it stores, `1024`, in a byte. -/
theorem accumulateHorizontal_wraps (hp : p.Triggers) (hr : p.Resets) (hop : p.RunsRowwise .add)
    (hs : noReset s.control) :
    Ensures (accumulateHorizontal p) s fun _ t => t.row .c0 0 = 0 := by
  apply Ensures.bind (storeOnes s)
  rintro _ t ⟨hones, hcontrol⟩
  apply Ensures.bind (apMonitorBreakpoint_cams hr (hcontrol ▸ hs))
  rintro _ t₁ ⟨h₁, -, -⟩
  apply Ensures.bind (startComputeCycles_changed (Changed.refl t₁))
  intro _ t₂ h₂
  have hcams : t₂.cams = t.cams := h₂.cams.trans h₁
  have hsum : operandSum apColSize t₂ = 0 := by
    calc operandSum apColSize t₂ = ∑ _r ∈ range apColSize, (1 + 1 : UInt8) := by
          refine sum_congr rfl fun r hr => ?_
          rw [mem_range] at hr
          rw [St.row_eq t₂ _ hr, St.row_eq t₂ _ hr, hcams, ← St.row_eq t _ hr,
            ← St.row_eq t _ hr, (hones r hr).1, (hones r hr).2]
      _ = 0 := by
          rw [sum_const, card_range]
          decide
  apply Ensures.bind (accumulateLoop_sum hp hr hop t₂)
  intro _ t₃ h₃
  apply (endComputeCycles_changed (Changed.refl t₃)).mono
  intro _ u hu
  rw [St.row_eq u _ (by decide), hu.cams, ← St.row_eq t₃ _ (by decide), h₃, hsum]

end RocketAp.Kernels
