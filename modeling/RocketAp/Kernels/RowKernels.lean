import RocketAp.Hal.Effects
import RocketAp.Kernels.Functions
import RocketAp.ProgramLogic.RowMajor

/-!
# Products row by row

`ap_mm` and `ap_mm_v2` compute a row of the product at a time. For each factor
`A[i, j]` they scale row `j` of `B` and add it to an accumulator column (`C_1` in the
one, `A_1` in the other); then they copy the first `n` rows of the accumulator out and
flush it. The AP works on all 512 rows, so the rows from `n` on hold rubbish; it is
added to rubbish, never copied out, and flushed with the rest.

The two are one loop with a different step (`Accumulated`, `RowDone`, `Product`). Each
cleans its own accumulator and no other: `apMm_correct` and `apMmV2_correct` are the
kernels from a clean accumulator, and `Product` is what they do from any.
-/

namespace RocketAp.Kernels

open ProgramLogic Device Hal

variable {p : Platform}

/-! ### The columns of a step -/

/-- The columns after `ap_matrix_col_mm`. -/
def matrixColCams (factor : UInt8) (bytes : ℕ) (cs : Cams) : Cams
  | ⟨.camA, false⟩ => fun _ => factor
  | ⟨.camA, true⟩ => fun r => if (r : ℕ) < bytes then factor * cs .b0 r else cs .a1 r
  | ⟨.camC, false⟩ => fun _ => 0
  | ⟨.camC, true⟩ => fun r =>
    (if (r : ℕ) < bytes then factor * cs .b0 r else cs .a1 r) + cs .c1 r
  | c => cs c

/-- The columns after `ap_matrix_col_mm_window`. -/
def windowCams (factor : UInt8) (cs : Cams) : Cams
  | ⟨.camA, false⟩ => fun _ => factor
  | ⟨.camA, true⟩ => fun r => cs .a1 r + factor * cs .b0 r
  | ⟨.camC, false⟩ => fun _ => 0
  | c => cs c

theorem apMatrixColMm_changed (hp : p.ScaleAdd) (factor : UInt8) {bytes : ℕ}
    (hbytes : bytes ≤ apColSize) (iterator : ℕ) (s : St) :
    Ensures (apMatrixColMm p factor bytes iterator) s fun _ u =>
      Changed s u (matrixColCams factor bytes s.cams) := by
  have hr := hp.resets
  apply Ensures.bind (apSetValueCamALeft_ran hp.triggers hr hp.set factor s)
  intro _ s₁ h₁
  apply Ensures.bind (rowwise_left_ran hp.triggers hr hp.mult s₁)
  intro _ s₂ h₂
  have hcopy := memcpy_column .a1 (show 0 + bytes ≤ apColSize by omega) Cam.c0.base s₂
  apply Ensures.bind hcopy
  rintro _ s₃ ⟨h₃, hcontrol, _⟩
  apply Ensures.bind (addD_right_ran hp.triggers hr hp.addD s₃)
  intro _ s₄ h₄
  apply (apFlushC0_ran hr (h₄.control ▸ noReset_zero)).mono
  intro _ u h₅
  have h := ((h₁.toChanged.trans h₂.toChanged).trans h₃).trans (h₄.trans h₅).toChanged
  refine ⟨?_, h.outside⟩
  have hc : ∀ r : Fin apColSize, s₂.mem (Cam.c0.base + r) = s₂.cams .c0 r := fun _ => rfl
  rw [h₅.cams, h₄.cams, h₃.cams, Column.write_zero]
  simp only [hc]
  rw [h₂.cams, h₁.cams]
  funext ⟨col, right⟩ r
  cases col <;> cases right <;> simp [matrixColCams, apUnitTestSw]

theorem apMatrixColMmWindow_changed (hp : p.ScaleAdd) (factor : UInt8) (bytes : ℕ) (s : St) :
    Ensures (apMatrixColMmWindow p factor bytes) s fun _ u =>
      Changed s u (windowCams factor s.cams) := by
  have hr := hp.resets
  apply Ensures.bind (apSetValueCamALeft_ran hp.triggers hr hp.set factor s)
  intro _ s₁ h₁
  apply Ensures.bind (rowwise_left_ran hp.triggers hr hp.mult s₁)
  intro _ s₂ h₂
  apply Ensures.bind (addD_targetA_ran hp.triggers hr hp.addD s₂)
  intro _ s₃ h₃
  apply (apFlushC0_ran hr (h₃.control ▸ noReset_zero)).mono
  intro _ u h₄
  have h := (h₁.trans h₂).toChanged.trans (h₃.trans h₄).toChanged
  refine ⟨?_, h.outside⟩
  rw [h₄.cams, h₃.cams, h₂.cams, h₁.cams]
  funext ⟨col, right⟩ r
  cases col <;> cases right <;> simp [windowCams, apUnitTestSw]

/-! ### A step -/

/-- Between `s` and `u`, `f` was added to the first `n` rows of `acc`. The columns of `K` and
memory outside the columns are as they were. -/
structure Accumulated (acc : Cam) (K : Cam → Prop) (n : ℕ) (f : ℕ → UInt8) (s u : St) : Prop where
  rows : ∀ r : Fin apColSize, (r : ℕ) < n → u.cams acc r = s.cams acc r + f r
  kept : ∀ c, K c → u.cams c = s.cams c
  outside : ∀ a, ¬ InColumns a → u.mem a = s.mem a

/-- The step of `ap_mm`, which carries the partial product in `A_1`. -/
theorem apMm_step (hp : p.ScaleAdd) {n idx row : ℕ} (hn : n ≤ apColSize)
    (hidx : idx < randomVectorsSize) (j : ℕ) (s : St) :
    Ensures (do apMemcpy Cam.b0.base (p.rvAddr .b + row) n
                let factor ← p.readVec .a idx
                apMatrixColMm p factor n j) s fun _ u =>
      Accumulated .c1 (· = .b1) n (fun r => p.vec s .a idx * p.vec s .b (row + r)) s u ∧
        ∀ r : Fin apColSize, (r : ℕ) < n →
          u.cams .a1 r = p.vec s .a idx * p.vec s .b (row + r) := by
  have hcopy := memcpy_vec_column p .b .b0 (show 0 + n ≤ apColSize by omega) row s
  apply Ensures.bind hcopy
  intro _ t ht
  refine .step rfl ?_
  apply (apMatrixColMm_changed hp _ hn j _).mono
  intro _ u hu
  have hcams : u.cams = matrixColCams (p.vec t .a idx) n t.cams := hu.cams
  rw [ht.vec .a hidx, ht.cams, Column.write_zero] at hcams
  refine ⟨⟨fun r hr => ?_, ?_, fun a ha => (hu.outside a ha).trans (ht.outside a ha)⟩,
    fun r hr => ?_⟩
  · simp only [hcams, matrixColCams, if_pos hr, Function.update_self]
    rw [Function.update_of_ne (by decide), add_comm]
  · rintro c rfl
    rw [hcams]
    rfl
  · simp only [hcams, matrixColCams, if_pos hr, Function.update_self]

/-- The step of `ap_mm_v2`. -/
theorem apMmV2_step (hp : p.ScaleAdd) {n idx row : ℕ} (hn : n ≤ apColSize)
    (hidx : idx < randomVectorsSize) (s : St) :
    Ensures (do apMemcpy Cam.b0.base (p.rvAddr .b + row) n
                let factor ← p.readVec .a idx
                apMatrixColMmWindow p factor n) s fun _ u =>
      Accumulated .a1 (· = .c1) n (fun r => p.vec s .a idx * p.vec s .b (row + r)) s u := by
  have hcopy := memcpy_vec_column p .b .b0 (show 0 + n ≤ apColSize by omega) row s
  apply Ensures.bind hcopy
  intro _ t ht
  refine .step rfl ?_
  apply (apMatrixColMmWindow_changed hp _ n _).mono
  intro _ u hu
  have hcams : u.cams = windowCams (p.vec t .a idx) t.cams := hu.cams
  constructor
  · intro r hr
    rw [hcams, ht.vec .a hidx, ht.cams, Column.write_zero]
    simp only [windowCams, if_pos hr, Function.update_self]
    rw [Function.update_of_ne (by decide)]
  · rintro c rfl
    rw [hcams, ht.cams]
    show Function.update s.cams .b0 _ .c1 = s.cams .c1
    rw [Function.update_of_ne (by decide)]
  · intro a ha
    exact (hu.outside a ha).trans (ht.outside a ha)

/-! ### A row -/

section Rows

variable {acc : Cam} {K : Cam → Prop} {m k n : ℕ}

/-- The factors of row `i`, one step for each, add up row `i` of the product. -/
theorem row_accumulated {step : ℕ → Prog Unit} {i : ℕ}
    (hik : i * k + k ≤ randomVectorsSize) (hkn : k * n ≤ randomVectorsSize)
    (hstep : ∀ j < k, ∀ s, Ensures (step j) s fun _ u =>
      Accumulated acc K n (fun r => p.vec s .a (i * k + j) * p.vec s .b (j * n + r)) s u)
    (s : St) :
    Ensures (forUpTo k step) s fun _ u =>
      Accumulated acc K n (fun r => productEntry k n (p.vec s .a) (p.vec s .b) i r) s u := by
  refine Ensures.forUpTo (fun j t => Accumulated acc K n
    (fun r => productTerms k n (p.vec s .a) (p.vec s .b) j i r) s t) ?_ fun j hj t ht => ?_
  · exact ⟨fun r _ => by simp, fun _ _ => rfl, fun _ _ => rfl⟩
  · refine (hstep j hj t).mono fun _ u hu => ⟨fun r hr => ?_, fun c hc => ?_, fun a ha => ?_⟩
    · have hrow := rowMajor_lt hj hr
      rw [hu.rows r hr, ht.rows r hr, productTerms_succ, add_assoc,
        Platform.vec_eq_of_outside ht.outside .a (by omega),
        Platform.vec_eq_of_outside ht.outside .b (by omega)]
    · rw [hu.kept c hc, ht.kept c hc]
    · rw [hu.outside a ha, ht.outside a ha]

/-- What a row of either kernel does: the row of `C` is the accumulator plus the row of the
product, and the accumulator is zero again. -/
structure RowDone (p : Platform) (acc : Cam) (K : Cam → Prop) (k n i : ℕ) (s u : St) : Prop where
  row : ∀ r : Fin apColSize, (r : ℕ) < n → p.vec u .c (i * n + r) =
    s.cams acc r + productEntry k n (p.vec s .a) (p.vec s .b) i r
  frame : ∀ w, ∀ x < randomVectorsSize, ¬ (w = .c ∧ i * n ≤ x ∧ x < i * n + n) →
    p.vec u w x = p.vec s w x
  clean : u.cams acc = fun _ => 0
  kept : ∀ c, K c → u.cams c = s.cams c

/-- The accumulated row copied out, and the accumulator flushed. -/
theorem row_done {flush : Prog Unit} {i : ℕ} (hK : ¬ K acc)
    (hflush : ∀ s, Ensures flush s fun _ u => Ran s u (Function.update s.cams acc fun _ => 0))
    (hin : i * n + n ≤ randomVectorsSize) {s t : St}
    (ht : Accumulated acc K n (fun r => productEntry k n (p.vec s .a) (p.vec s .b) i r) s t) :
    Ensures (do apMemcpy (p.rvAddr .c + i * n) acc.base n; flush) t fun _ u =>
      RowDone p acc K k n i s u := by
  apply Ensures.bind (memcpy_vec p .c acc hin t)
  rintro _ v ⟨hcams, hframe, hrow⟩
  refine (hflush v).mono fun _ u hu => ⟨fun r hr => ?_, fun w x hx hw => ?_, ?_, fun c hc => ?_⟩
  · rw [hu.vec .c (by omega), hrow r hr, ht.rows r hr]
  · rw [hu.vec w hx, hframe w x hx hw, Platform.vec_eq_of_outside ht.outside w hx]
  · rw [hu.cams, Function.update_self]
  · have hne : c ≠ acc := fun h => hK (h ▸ hc)
    rw [hu.cams, Function.update_of_ne hne, hcams, ht.kept c hc]

/-- What `m` rows do: `C` is the product, row `0` with what the accumulator held added to
it, and the accumulator is zero if there is a row. -/
structure Product (p : Platform) (acc : Cam) (K : Cam → Prop) (m k n : ℕ) (s t : St) : Prop where
  entry : ∀ i < m, ∀ r : Fin apColSize, (r : ℕ) < n → p.vec t .c (i * n + r) =
    (if i = 0 then s.cams acc r else 0) + productEntry k n (p.vec s .a) (p.vec s .b) i r
  frame : ∀ w, ∀ x < randomVectorsSize, (w = .c → m * n ≤ x) → p.vec t w x = p.vec s w x
  acc_eq : t.cams acc = if m = 0 then s.cams acc else fun _ => 0
  kept : ∀ c, K c → t.cams c = s.cams c

/-- A row more. -/
theorem Product.step {s t u : St} (hmk : (m + 1) * k ≤ randomVectorsSize)
    (hkn : k * n ≤ randomVectorsSize) (hmn : (m + 1) * n ≤ randomVectorsSize)
    (ht : Product p acc K m k n s t) (hu : RowDone p acc K k n m t u) :
    Product p acc K (m + 1) k n s u := by
  have hsucc : (m + 1) * n = m * n + n := Nat.succ_mul m n
  constructor
  · intro i hi r hr
    rcases Nat.lt_succ_iff_lt_or_eq.mp hi with hi | rfl
    · have hlt := rowMajor_lt hi hr
      rw [hu.frame .c _ (by omega) (by omega), ht.entry i hi r hr]
    · rw [hu.row r hr, ht.acc_eq, productEntry_congr (Nat.lt_add_one i) hr
        (fun x hx => ht.frame .a x (by omega) nofun) (fun x hx => ht.frame .b x (by omega) nofun)]
      cases i <;> rfl
  · intro w x hx hw
    rw [hu.frame w x hx (fun h => by have := hw h.1; omega), ht.frame w x hx fun h => ?_]
    have := hw h
    omega
  · rw [hu.clean, if_neg (Nat.succ_ne_zero m)]
  · intro c hc
    rw [hu.kept c hc, ht.kept c hc]

/-- **The loop over the rows.** -/
theorem product_run {row : ℕ → Prog Unit} (hmk : m * k ≤ randomVectorsSize)
    (hkn : k * n ≤ randomVectorsSize) (hmn : m * n ≤ randomVectorsSize)
    (hrow : ∀ i < m, ∀ s, Ensures (row i) s fun _ u => RowDone p acc K k n i s u) (s : St) :
    Ensures (forUpTo m row) s fun _ t => Product p acc K m k n s t := by
  refine Ensures.forUpTo (fun i t => Product p acc K i k n s t) ?_ fun i hi t ht => ?_
  · exact ⟨fun i hi => absurd hi (Nat.not_lt_zero i), fun _ _ _ _ => rfl, rfl, fun _ _ => rfl⟩
  · have hik := rowMajor_row_le (n := k) hi
    have hin := rowMajor_row_le (n := n) hi
    refine (hrow i hi t).mono fun _ u hu => ht.step ?_ hkn ?_ hu
    · rw [Nat.succ_mul]
      omega
    · rw [Nat.succ_mul]
      omega

end Rows

/-! ### The two kernels -/

section Kernels

variable {m k n : ℕ}

/-- `ap_mm`, from any columns. -/
theorem apMm_product (hp : p.ScaleAdd) (hn : n ≤ apColSize) (hmk : m * k ≤ randomVectorsSize)
    (hkn : k * n ≤ randomVectorsSize) (hmn : m * n ≤ randomVectorsSize) (s : St) :
    Ensures (apMm p m k n) s fun _ t => Product p .c1 (· = .b1) m k n s t := by
  refine product_run hmk hkn hmn (fun i hi s => ?_) s
  have hik := rowMajor_row_le (n := k) hi
  have hin := rowMajor_row_le (n := n) hi
  have hidx : ∀ j < k, i * k + j < randomVectorsSize := fun j hj => by omega
  have hrow := row_accumulated (i := i) (by omega) hkn
    (fun j hj s => (apMm_step hp hn (hidx j hj) j s).mono fun _ _ h => h.1) s
  exact .bind hrow fun _ t ht => row_done (by decide) (apFlushC1_ran hp.resets) (by omega) ht

/-- `ap_mm_v2`, from any columns. -/
theorem apMmV2_product (hp : p.ScaleAdd) (hn : n ≤ apColSize) (hmk : m * k ≤ randomVectorsSize)
    (hkn : k * n ≤ randomVectorsSize) (hmn : m * n ≤ randomVectorsSize) (s : St) :
    Ensures (apMmV2 p m k n) s fun _ t => Product p .a1 (· = .c1) m k n s t := by
  refine product_run hmk hkn hmn (fun i hi s => ?_) s
  have hik := rowMajor_row_le (n := k) hi
  have hin := rowMajor_row_le (n := n) hi
  have hidx : ∀ j < k, i * k + j < randomVectorsSize := fun j hj => by omega
  have hrow := row_accumulated (i := i) (by omega) hkn
    (fun j hj s => apMmV2_step hp hn (hidx j hj) s) s
  exact .bind hrow fun _ t ht => row_done (by decide) (apFlushA1_ran hp.resets) (by omega) ht

/-- What a kernel is for: `C` is the product of `A` and `B`, nothing else in `r_v_mgmt` has
changed, and the accumulator is clean. -/
structure Multiplied (p : Platform) (acc : Cam) (m k n : ℕ) (s t : St) : Prop where
  entry : ∀ i < m, ∀ j < n, p.vec t .c (i * n + j) =
    ∑ l ∈ Finset.range k, p.vec s .a (i * k + l) * p.vec s .b (l * n + j)
  a : ∀ x < randomVectorsSize, p.vec t .a x = p.vec s .a x
  b : ∀ x < randomVectorsSize, p.vec t .b x = p.vec s .b x
  c : ∀ x < randomVectorsSize, m * n ≤ x → p.vec t .c x = p.vec s .c x
  clean : t.cams acc = fun _ => 0

/-- The matrices that the vectors hold are multiplied. -/
theorem Multiplied.matrix_eq {acc : Cam} {s t : St} (h : Multiplied p acc m k n s t) :
    ofRowMajor m n (p.vec t .c) = ofRowMajor m k (p.vec s .a) * ofRowMajor k n (p.vec s .b) := by
  refine Matrix.ext fun i j => ?_
  rw [mul_eq_productEntry]
  exact h.entry i i.isLt j j.isLt

/-- From a clean accumulator the product is the product. -/
theorem Product.multiplied {acc : Cam} {K : Cam → Prop} {s t : St} (hn : n ≤ apColSize)
    (h : Product p acc K m k n s t) (hacc : s.cams acc = fun _ => 0) :
    Multiplied p acc m k n s t := by
  constructor
  · intro i hi j hj
    rw [h.entry i hi ⟨j, by omega⟩ hj, hacc, ite_self, zero_add]
    rfl
  · intro x hx
    exact h.frame .a x hx nofun
  · intro x hx
    exact h.frame .b x hx nofun
  · intro x hx hle
    exact h.frame .c x hx fun _ => hle
  · rw [h.acc_eq, hacc, ite_self]

/-- **`ap_mm`**: with `C_1` zero it multiplies, and `C_1` is zero again. -/
theorem apMm_correct (hp : p.ScaleAdd) (hn : n ≤ apColSize) (hmk : m * k ≤ randomVectorsSize)
    (hkn : k * n ≤ randomVectorsSize) (hmn : m * n ≤ randomVectorsSize) (s : St)
    (hacc : s.cams .c1 = fun _ => 0) :
    Ensures (apMm p m k n) s fun _ t => Multiplied p .c1 m k n s t :=
  (apMm_product hp hn hmk hkn hmn s).mono fun _ _ h => h.multiplied hn hacc

theorem apMm_two_three_four : Ensures (apMm (.reference 3) 2 3 4) (.rest someMem) fun _ t =>
    Multiplied (.reference 3) .c1 2 3 4 (.rest someMem) t :=
  apMm_correct (Platform.reference_scaleAdd 3) (by decide) (by decide) (by decide) (by decide)
    (.rest someMem) (by rw [cams_someMem])

/-- **`ap_mm_v2`**: with `A_1` zero it multiplies, and `A_1` is zero again. -/
theorem apMmV2_correct (hp : p.ScaleAdd) (hn : n ≤ apColSize) (hmk : m * k ≤ randomVectorsSize)
    (hkn : k * n ≤ randomVectorsSize) (hmn : m * n ≤ randomVectorsSize) (s : St)
    (hacc : s.cams .a1 = fun _ => 0) :
    Ensures (apMmV2 p m k n) s fun _ t => Multiplied p .a1 m k n s t :=
  (apMmV2_product hp hn hmk hkn hmn s).mono fun _ _ h => h.multiplied hn hacc

theorem apMmV2_two_three_four : Ensures (apMmV2 (.reference 3) 2 3 4) (.rest someMem) fun _ t =>
    Multiplied (.reference 3) .a1 2 3 4 (.rest someMem) t :=
  apMmV2_correct (Platform.reference_scaleAdd 3) (by decide) (by decide) (by decide) (by decide)
    (.rest someMem) (by rw [cams_someMem])

end Kernels

end RocketAp.Kernels
