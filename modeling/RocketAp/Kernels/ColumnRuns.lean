import RocketAp.Kernels.Evaluation

/-!
# Columns filled as one run

`vector_ap_op_horizontal` writes up to `1024` bytes from `CAM_A_0_BASE_ADDR` and as many from
`CAM_B_0_BASE_ADDR`: the two sides of a column lie one after the other, and a longer vector
goes on from the left side to the right. The vectors it takes them from have `512` elements.
From a longer one it goes on too, from `A` to `B` and from `B` to `C`.

What it stores is always in the columns, and `C_0` and `C_1` hold the results for the bytes
that were read (`computePhase_results`); the bytes are elements of `A` and of `B` exactly for
sizes up to `512` (`vectorApOpHorizontal_iff`).
-/

namespace RocketAp.Kernels

open ProgramLogic Device Hal

variable {p : Platform} {s t : St} {size : ℕ}

/-! ### The phases -/

/-- A size that `vector_ap_op_horizontal` handles. -/
def Handled (size : ℕ) : Prop := size ≤ 1024 ∨ size = 2048 ∨ size = 4096

/-- The size it fills the columns with. -/
def fillSize (size : ℕ) : ℕ := min size 1024

/-- One of the loops of `fill_a_b_cols`. -/
def fillCol (c : Cam) (V size : ℕ) : Prog Unit :=
  forUpTo size fun i => do
    let x ← load (V + i)
    store (c.base + i) x

/-- What it does between the fill and the monitor. -/
def computePhase (p : Platform) (op : APOperations) (size : ℕ) : Prog Unit := do
  p.startComputeCycles
  apTriggerComputingWWait p op .horizontal .left
  if size ≤ 512 then p.endComputeCycles
  else
    apTriggerComputingWWait p op .horizontal .right
    if size ≤ 1024 then p.endComputeCycles
    else
      offload p 1024
      apTriggerComputingWWait p op .horizontal .left
      apTriggerComputingWWait p op .horizontal .right
      if size = 2048 then p.endComputeCycles
      else
        offload p 1024
        apTriggerComputingWWait p op .horizontal .left
        apTriggerComputingWWait p op .horizontal .right
        offload p 1024
        apTriggerComputingWWait p op .horizontal .left
        apTriggerComputingWWait p op .horizontal .right
        p.endComputeCycles

/-- The function is its phases. -/
theorem vectorApOpHorizontal_phases (op : APOperations) (h : Handled size) (seed : ℤ) :
    vectorApOpHorizontal p op size seed = (do
      fillRandomVectors p op size
      fillCol .a0 (p.rvAddr .a) (fillSize size)
      fillCol .b0 (p.rvAddr .b) (fillSize size)
      computePhase p op size
      apMonitorBreakpoint p
      warmupAp p) := by
  rcases Nat.lt_or_ge 512 size with h₁ | h₁
  · rcases Nat.lt_or_ge 1024 size with h₂ | h₂
    · rcases h with h | rfl | rfl
      · omega
      · simp [vectorApOpHorizontal, fillABCols, computePhase, fillSize, fillCol, apColSize]
      · simp [vectorApOpHorizontal, fillABCols, computePhase, fillSize, fillCol, apColSize]
    · have hs : fillSize size = size := Nat.min_eq_left h₂
      simp [vectorApOpHorizontal, fillABCols, computePhase, hs, fillCol, apColSize, h₁, h₂,
        Nat.not_le.mpr h₁, show (size : ℤ) ≠ 2048 by omega, show (size : ℤ) ≠ 4096 by omega]
  · have hs : fillSize size = size := Nat.min_eq_left (by omega)
    simp [vectorApOpHorizontal, fillABCols, computePhase, hs, fillCol, apColSize, h₁,
      Nat.not_lt.mpr h₁, show (size : ℤ) ≠ 2048 by omega, show (size : ℤ) ≠ 4096 by omega]

/-! ### The fill -/

/-- The reads between `s` and `t` are of elements of the vector `v`. -/
def ReadsElements (p : Platform) (v : RvVec) (s t : St) : Prop :=
  ∃ l, t.reads = s.reads ++ l ∧ ∀ x ∈ l, ∃ i < randomVectorsSize, x = .byte (p.rvAddr v + i)

/-- Between `s` and `t` only the two sides of a column have changed. -/
def ChangesOnly (col : APCollunm) (s t : St) : Prop :=
  ∀ a, ¬ ((namedCam col .left).base ≤ a ∧ a < (namedCam col .left).base + 2 * apColSize) →
    t.mem a = s.mem a

/-- A side after the other. -/
theorem base_right (col : APCollunm) :
    (namedCam col .right).base = (namedCam col .left).base + apColSize := by
  cases col <;> rfl

/-- What a loop of `fill_a_b_cols` does. -/
structure Filled (p : Platform) (col : APCollunm) (v : RvVec) (size : ℕ) (s t : St) : Prop where
  reads : t.reads = s.reads ++ (List.range size).map fun i => .byte (p.rvAddr v + i)
  only : ChangesOnly col s t
  bytes : ∀ i < size, t.mem ((namedCam col .left).base + i) = s.mem (p.rvAddr v + i)

theorem fillCol_filled (col : APCollunm) {v : RvVec} (hv : v ≠ .c) (hsize : size ≤ 2 * apColSize)
    (s : St) : Ensures (fillCol (namedCam col .left) (p.rvAddr v) size) s fun _ t =>
      Filled p col v size s t := by
  have hge := (namedCam col .left).base_ge
  have hle := (namedCam col .right).base_le
  rw [base_right] at hle
  have hw := apWindow
  have hap := p.rvMgmt_apart
  have hsrc : p.rvAddr v + 2 * apColSize ≤ apBaseAddr ∨ apEndAddr ≤ p.rvAddr v := by
    cases v with
    | a => simp only [Platform.rvAddr]; omega
    | b => simp only [Platform.rvAddr, randomVectorsSize]; omega
    | c => exact absurd rfl hv
  refine .of_run (copyBytes_run (Or.inr (Or.inl (by omega))) (p.rvAddr v) s) ⟨rfl, ?_, ?_⟩
  · exact fun a ha => Mem.copyLoop_of_not_mem _ (by omega)
  · exact fun i hi => copyLoop_at s.mem (by omega) hi

/-- The bytes it reads are elements of the vector for as many as the vector has. -/
theorem Filled.readsElements_iff {col : APCollunm} {v : RvVec} (h : Filled p col v size s t) :
    ReadsElements p v s t ↔ size ≤ randomVectorsSize := by
  constructor
  · rintro ⟨l, hl, helem⟩
    rw [h.reads, List.append_cancel_left_eq] at hl
    by_contra hlt
    obtain ⟨i, hi, heq⟩ := helem (.byte (p.rvAddr v + randomVectorsSize)) (by
      rw [← hl]
      exact List.mem_map_of_mem (List.mem_range.mpr (by omega)))
    rw [Access.byte.injEq] at heq
    omega
  · intro hle
    refine ⟨_, h.reads, fun x hx => ?_⟩
    obtain ⟨i, hi, rfl⟩ := List.mem_map.mp hx
    rw [List.mem_range] at hi
    exact ⟨i, by omega, rfl⟩

/-! ### The results -/

theorem computePhase_cams (hp : p.Triggers) (hr : p.Resets) {op : APOperations}
    (hop : p.RunsRowwise op) (hsize : size ≤ 1024) (s : St) :
    Ensures (computePhase p op size) s fun _ t =>
      (∀ r, t.cams .c0 r = apUnitTestSw op (s.cams .a0 r) (s.cams .b0 r)) ∧
      (512 < size → ∀ r, t.cams .c1 r = apUnitTestSw op (s.cams .a1 r) (s.cams .b1 r)) := by
  apply Ensures.bind (startComputeCycles_changed (Changed.refl s))
  intro _ t h₀
  apply Ensures.bind (rowwise_ran hp hr hop .left t)
  intro _ t₁ h₁
  rw [h₀.cams] at h₁
  have hleft : t₁.cams = Function.update s.cams .c0 fun r =>
    apUnitTestSw op (s.cams .a0 r) (s.cams .b0 r) := h₁.cams
  split
  · next hle =>
    apply (endComputeCycles_changed (Changed.refl t₁)).mono
    intro _ u hu
    refine ⟨fun r => ?_, fun hlt => by omega⟩
    rw [hu.cams, hleft, Function.update_self]
  · apply Ensures.bind (rowwise_ran hp hr hop .right t₁)
    intro _ t₂ h₂
    apply (endComputeCycles_changed (Changed.refl t₂)).mono
    intro _ u hu
    have hright : u.cams = Function.update t₁.cams .c1 fun r =>
      apUnitTestSw op (t₁.cams .a1 r) (t₁.cams .b1 r) := by rw [hu.cams, h₂.cams]; rfl
    refine ⟨fun r => ?_, fun _ r => ?_⟩
    · rw [hright, Function.update_of_ne (by decide), hleft, Function.update_self]
    · rw [hright, Function.update_self, hleft, Function.update_of_ne (by decide),
        Function.update_of_ne (by decide)]

/-- `C_0` and then `C_1` hold the results for the elements that `s` has. -/
structure HoldsResults (p : Platform) (op : APOperations) (size : ℕ) (s t : St) : Prop where
  left : ∀ i < min size 512, t.row .c0 i = apUnitTestSw op (p.vec s .a i) (p.vec s .b i)
  right : ∀ i, 512 ≤ i → i < size →
    t.row .c1 (i - 512) = apUnitTestSw op (p.vec s .a i) (p.vec s .b i)

/-- The two fills and the operations: the results for the bytes that were read. -/
theorem computePhase_results (hp : p.Triggers) (hr : p.Resets) {op : APOperations}
    (hop : p.RunsRowwise op) (hsize : size ≤ 1024) {s₁ s₂ s₃ : St}
    (hA : Filled p .camA .a size s₁ s₂) (hB : Filled p .camB .b size s₂ s₃) :
    Ensures (computePhase p op size) s₃ fun _ s₄ => HoldsResults p op size s₁ s₄ := by
  have hw := apWindow
  have hap := p.rvMgmt_apart
  have hbaseA : (namedCam .camA .left).base = apBaseAddr := rfl
  have hbaseB : (namedCam .camB .left).base = apBaseAddr + 2 * apColSize := rfl
  have ha : ∀ i < size, s₃.mem (Cam.a0.base + i) = p.vec s₁ .a i := by
    intro i hi
    refine (hB.only ((namedCam .camA .left).base + i) ?_).trans (hA.bytes i hi)
    omega
  have hb : ∀ i < size, s₃.mem (Cam.b0.base + i) = p.vec s₁ .b i := by
    intro i hi
    refine (hB.bytes i hi).trans (hA.only _ ?_)
    simp only [Platform.rvAddr, randomVectorsSize]
    omega
  apply (computePhase_cams hp hr hop hsize s₃).mono
  rintro _ s₄ ⟨hleft, hright⟩
  constructor
  · intro i hi
    rw [St.row_eq s₄ .c0 (show i < apColSize by omega), hleft, ← ha i (by omega),
      ← hb i (by omega)]
    rfl
  · intro i hi hlt
    have haddr : ∀ col, (namedCam col .right).base + (i - 512) =
        (namedCam col .left).base + i := by
      intro col
      rw [base_right]
      omega
    have ha₁ : s₃.mem (Cam.a1.base + (i - 512)) = p.vec s₁ .a i := by
      rw [← ha i hlt]
      exact congrArg s₃.mem (haddr .camA)
    have hb₁ : s₃.mem (Cam.b1.base + (i - 512)) = p.vec s₁ .b i := by
      rw [← hb i hlt]
      exact congrArg s₃.mem (haddr .camB)
    rw [St.row_eq s₄ .c1 (show i - 512 < apColSize by omega), hright (by omega), ← ha₁, ← hb₁]
    rfl

/-! ### When the run is in bounds -/

/-- What `vector_ap_op_horizontal` is for, up to the closing monitor: the two fills read the
elements of `A` and of `B` and store in the two sides of the columns `A` and `B`, and the
results are those for the elements. -/
def OperatesInBounds (p : Platform) (op : APOperations) (size : ℕ) (s : St) : Prop :=
  Ensures (fillRandomVectors p op size) s fun _ s₁ =>
    Ensures (fillCol .a0 (p.rvAddr .a) (fillSize size)) s₁ fun _ s₂ =>
      (ReadsElements p .a s₁ s₂ ∧ ChangesOnly .camA s₁ s₂) ∧
      Ensures (fillCol .b0 (p.rvAddr .b) (fillSize size)) s₂ fun _ s₃ =>
        (ReadsElements p .b s₂ s₃ ∧ ChangesOnly .camB s₂ s₃) ∧
        Ensures (computePhase p op size) s₃ fun _ s₄ =>
          size ≤ 1024 → HoldsResults p op size s₁ s₄

/-- The phases are in bounds, with the results they should have, for sizes up to `512`. -/
theorem operatesInBounds_iff (hp : p.Triggers) (hr : p.Resets) {op : APOperations}
    (hop : p.RunsRowwise op) (s : St) : OperatesInBounds p op size s ↔ size ≤ 512 := by
  constructor
  · intro hbounds
    have hfill : fillSize size ≤ 2 * apColSize := Nat.min_le_right _ _
    obtain ⟨_, s₁, -, hs₁⟩ := hbounds
    have hrun := fillCol_filled .camA (p := p) (v := .a) nofun hfill s₁
    obtain ⟨_, s₂, -, hA, ⟨hreads, -⟩, -⟩ := hrun.and hs₁
    have hmin := hA.readsElements_iff.mp hreads
    have hsize : randomVectorsSize = 512 := rfl
    unfold fillSize at hmin
    omega
  · intro hle
    have hs : fillSize size = size := Nat.min_eq_left (by omega)
    have hfill : size ≤ 2 * apColSize := Nat.le_trans hle (by decide)
    unfold OperatesInBounds
    rw [hs]
    apply (fillRandomVectors_filled op size s).mono
    intro _ s₁ _
    apply (fillCol_filled .camA (p := p) (v := .a) nofun hfill s₁).mono
    intro _ s₂ hA
    refine ⟨⟨hA.readsElements_iff.mpr hle, hA.only⟩, ?_⟩
    apply (fillCol_filled .camB (p := p) (v := .b) nofun hfill s₂).mono
    intro _ s₃ hB
    refine ⟨⟨hB.readsElements_iff.mpr hle, hB.only⟩, ?_⟩
    exact (computePhase_results hp hr hop (by omega) hA hB).mono fun _ _ hres _ => hres

/-- **`vector_ap_op_horizontal`**, for the sizes it handles: it is its phases, and they are in
bounds with the results they should have exactly for sizes up to `512`. -/
theorem vectorApOpHorizontal_iff (hp : p.Triggers) (hr : p.Resets) {op : APOperations}
    (hop : p.RunsRowwise op) (h : Handled size) (seed : ℤ) (s : St) :
    (vectorApOpHorizontal p op size seed = do
      fillRandomVectors p op size
      fillCol .a0 (p.rvAddr .a) (fillSize size)
      fillCol .b0 (p.rvAddr .b) (fillSize size)
      computePhase p op size
      apMonitorBreakpoint p
      warmupAp p) ∧
    (OperatesInBounds p op size s ↔ size ≤ 512) :=
  ⟨vectorApOpHorizontal_phases op h seed, operatesInBounds_iff hp hr hop s⟩

theorem vectorApOpHorizontal_column :
    OperatesInBounds (.reference 2) .add 512 (.rest fun a => a.toUInt8) :=
  (vectorApOpHorizontal_iff (Platform.reference_triggers 2) (Platform.reference_resets 2)
    (Platform.reference_runsRowwise 2 rfl) (Or.inl (by decide)) 14 _).2.mpr (by decide)

/-- The sixth size of `test_vector_ap_op_horizontal`. -/
theorem vectorApOpHorizontal_two_columns :
    ¬ OperatesInBounds (.reference 2) .not 1024 (.rest someMem) := by
  rw [operatesInBounds_iff (Platform.reference_triggers 2) (Platform.reference_resets 2)
    (Platform.reference_runsRowwise 2 rfl)]
  decide

end RocketAp.Kernels
