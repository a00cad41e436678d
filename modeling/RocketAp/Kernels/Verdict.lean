import RocketAp.Kernels.Evaluation

/-!
# What the verdict says

`matmul_evaluation` compares two checksums: that of all 512 rows of `A_1` and that of the
product. On any processor, it returns `1` exactly when they are the same
(`matmulEvaluation_verdict`), and then a column that differs from the product, filled up with
zeros, differs in two rows at least.

Nothing more can be said. For every column with the checksum of the product there is a
processor that leaves it in `A_1`, and there the verdict is `1` (`matmulEvaluation_accepts`).
-/

namespace RocketAp.Kernels

open ProgramLogic Device Hal Finset

variable {p : Platform} {d : ℕ}

/-! ### Checksums -/

/-- Two columns differ in one row at most. -/
def DifferOnce (x y : Column) : Prop := ∀ r r', x r ≠ y r → x r' ≠ y r' → r = r'

/-- The checksum sees a difference in one row. -/
theorem eq_of_columnSum_eq {x y : Column} (hsum : columnSum x = columnSum y)
    (hone : DifferOnce x y) : x = y := by
  funext r
  by_contra hr
  have hrest : ∑ r' ∈ univ.erase r, x r' = ∑ r' ∈ univ.erase r, y r' := by
    refine sum_congr rfl fun r' hr' => ?_
    by_contra hne
    exact ne_of_mem_erase hr' (hone r' r hne hr)
  rw [columnSum, columnSum, ← add_sum_erase univ x (mem_univ r),
    ← add_sum_erase univ y (mem_univ r), hrest] at hsum
  exact hr (add_right_cancel hsum)

/-! ### On any processor -/

/-- The kernel changes nothing but columns. -/
theorem apMmV4_keeps (hd : d * d ≤ randomVectorsSize) : Keeps Undisturbed (apMmV4 p d d d) := by
  refine .forUpTo fun t _ => .bind (.forUpTo fun i hi => .forUpTo fun j hj => ?_) fun _ => ?_
  · have hq : i * d + j < apColSize := Nat.lt_of_lt_of_le (rowMajor_lt hi hj) hd
    exact (readVec_keeps _ _).bind fun _ => (store_column_keeps .a0 hq _).bind fun _ =>
      (readVec_keeps _ _).bind fun _ => store_column_keeps .b0 hq _
  · exact (apTriggerComputingWWait_keeps _ _ _).bind fun _ =>
      (apTriggerComputingWWaitTargetA_keeps _ _ _).bind fun _ => apFlushC0_keeps

/-- A call that returns has compared `A_1`, as the kernel left it, with the product of the
numbers it generated. -/
structure Judged (p : Platform) (d : ℕ) (v : UInt8) (t : St) : Prop where
  product : ∀ x < randomVectorsSize, p.vec t .c x = if x < d * d then
    productEntry d d (randomA .mult 11) (randomB .mult 11) (x / d) (x % d) else 0
  sum : columnSum (productColumn p t) = ∑ x ∈ range (d * d), p.vec t .c x
  verdict : v = 1 ↔ columnSum (t.cams .a1) = columnSum (productColumn p t)

theorem matmulEvaluation_judged (hd : d * d ≤ randomVectorsSize) (s : St) :
    IfReturns (matmulEvaluation p d) s fun v t => Judged p d v t := by
  rw [matmulEvaluation_eq]
  refine .bind (fillRandomVectors_filled .mult 11 s).ifReturns fun _ s₁ h₁ => ?_
  refine .bind (startComputeCycles_keeps.ifReturns s₁) fun _ s₂ h₂ => ?_
  refine .bind ((apMmV4_keeps hd).ifReturns s₂) fun _ s₃ h₃ => ?_
  refine .bind (endComputeCycles_keeps.ifReturns s₃) fun _ s₄ h₄ => ?_
  have hvec : ∀ w, ∀ x < randomVectorsSize, p.vec s₄ w x = p.vec s₁ w x := by
    intro w x hx
    rw [Platform.vec_eq_of_outside h₄.outside w hx, Platform.vec_eq_of_outside h₃.outside w hx,
      Platform.vec_eq_of_outside h₂.outside w hx]
  obtain ⟨v, t, hrun, ht⟩ := comparison_compared (p := p) hd s₄
  refine Ensures.ifReturns (.of_run hrun ⟨fun x hx => ?_, ht.columnSum_eq hd, ?_⟩)
  · split
    · next hxd =>
      exact ht.c_eq hd (fun y hy => (hvec .a y hy).trans (h₁.a y hy))
        (fun y hy => (hvec .b y hy).trans (h₁.b y hy)) hxd
    · next hxd => rw [ht.c x hx, if_neg hxd]
  · rw [ht.cams]
    exact ht.result

/-! ### A processor that leaves what it likes -/

/-- A processor that leaves `x` in `A_1`, whatever it is told to do. -/
def leaving (x : Column) : Platform :=
  { Platform.reference 2 with
    onControl := fun _ _ cs => Function.update cs .a1 x
    onMode := fun _ _ cs => Function.update cs .a1 x }

theorem leaving_triggers (x : Column) : (leaving x).Triggers := ⟨fun _ _ h => h, fun _ h => h⟩

theorem leaving_control (x : Column) (w : UInt32) (s : St) :
    ((leaving x).afterControl w s).cams .a1 = x := by
  rw [St.cams, Platform.afterControl, camsOf_setCams]
  simp [leaving]

/-- The kernel returns, with `x` in `A_1`. -/
theorem apMmV4_leaving (x : Column) (h₁ : 1 ≤ d) (hd : d * d ≤ randomVectorsSize) (s : St) :
    Ensures (apMmV4 (leaving x) d d d) s fun _ t => t.cams .a1 = x := by
  have hloop : Ensures (apMmV4 (leaving x) d d d) s fun _ t => 1 ≤ d → t.cams .a1 = x := by
    refine Ensures.forUpTo (fun i (t : St) => 1 ≤ i → t.cams .a1 = x) nofun
      fun i hi t _ => ?_
    refine .bind (mmColsSetup_filled hi hd hd t) fun _ t₁ _ => ?_
    refine .step (handshake_run (leaving_triggers x) rfl rfl rfl t₁) ?_
    refine .step (handshake_run (leaving_triggers x) rfl rfl rfl _) ?_
    exact .of_run rfl fun _ => leaving_control x _ _
  exact hloop.mono fun _ _ h => h h₁

theorem matmulEvaluation_leaves (x : Column) (h₁ : 1 ≤ d) (hd : d * d ≤ randomVectorsSize)
    (s : St) : Ensures (matmulEvaluation (leaving x) d) s fun _ t => t.cams .a1 = x := by
  rw [matmulEvaluation_eq]
  refine .bind (fillRandomVectors_filled .mult 11 s) fun _ s₁ _ => .step rfl ?_
  refine .bind (apMmV4_leaving x h₁ hd _) fun _ s₂ h₂ => .step rfl ?_
  exact (comparison_compared hd _).mono fun v t ht => ht.cams ▸ h₂

/-! ### The verdict -/

/-- **The verdict**, on any processor. It is `1` exactly when the checksum of the 512 rows of
`A_1` is that of the product; if besides one of the rows at most differs from the product,
filled up with zeros, then `A_1` holds the product. -/
theorem matmulEvaluation_verdict (hd : d * d ≤ randomVectorsSize) {s t : St} {v : UInt8}
    (h : matmulEvaluation p d s = .ok v t) :
    (∀ x < randomVectorsSize, p.vec t .c x = if x < d * d then
      productEntry d d (randomA .mult 11) (randomB .mult 11) (x / d) (x % d) else 0) ∧
    (v = 1 ↔ ∑ r, t.cams .a1 r = ∑ x ∈ range (d * d), p.vec t .c x) ∧
    (v = 1 → DifferOnce (t.cams .a1) (productColumn p t) →
      ∀ x < d * d, t.row .a1 x = p.vec t .c x) := by
  have ht := matmulEvaluation_judged hd s v t h
  refine ⟨ht.product, ?_, fun hv hone x hx => ?_⟩
  · rw [← ht.sum]
    exact ht.verdict
  · have hlt : x < apColSize := Nat.lt_of_lt_of_le hx hd
    rw [St.row_eq t .a1 hlt, eq_of_columnSum_eq (ht.verdict.mp hv) hone]
    rfl

/-- The product, filled up with zeros. -/
def productRows (d : ℕ) : Column := fun r =>
  if (r : ℕ) < d * d then
    productEntry d d (randomA .mult 11) (randomB .mult 11) (r / d) (r % d) else 0

/-- The product with one byte that is wrong. -/
def wrongRow : Column := Function.update (productRows 10) 3 (productRows 10 3 + 1)

/-- A processor that leaves the product is told so, and one that gets a byte wrong is not. -/
theorem matmulEvaluation_verdict_ten :
    (Ensures (matmulEvaluation (leaving (productRows 10)) 10) (.rest someMem) fun v t =>
      v = 1 ∧ ∀ x < 10 * 10, t.row .a1 x = (leaving (productRows 10)).vec t .c x) ∧
    Ensures (matmulEvaluation (leaving wrongRow) 10) (.rest someMem) fun v _ => v ≠ 1 := by
  obtain ⟨v, t, hrun, ht⟩ := matmulEvaluation_leaves (productRows 10) (d := 10) (by decide)
    (by decide) (.rest someMem)
  obtain ⟨w, u, hrunWrong, hu⟩ := matmulEvaluation_leaves wrongRow (d := 10) (by decide)
    (by decide) (.rest someMem)
  obtain ⟨hc, hsum, hrows⟩ := matmulEvaluation_verdict (by decide) hrun
  obtain ⟨hcWrong, -, hrowsWrong⟩ := matmulEvaluation_verdict (by decide) hrunWrong
  have hproduct : productColumn (leaving (productRows 10)) t = productRows 10 :=
    funext fun r => hc r r.2
  have hproductWrong : productColumn (leaving wrongRow) u = productRows 10 :=
    funext fun r => hcWrong r r.2
  refine ⟨.of_run hrun ?_, .of_run hrunWrong fun hw => ?_⟩
  · have hv : v = 1 := by
      rw [hsum, ht, ← (matmulEvaluation_judged (by decide) _ v t hrun).sum, hproduct]
      rfl
    exact ⟨hv, hrows hv fun r _ hr => absurd (by rw [ht, hproduct]) hr⟩
  · -- row `3` is the one row that may differ
    have hone : DifferOnce (u.cams .a1) (productColumn (leaving wrongRow) u) := by
      intro r r' hr hr'
      have hrow : ∀ q, u.cams .a1 q ≠ productColumn (leaving wrongRow) u q → q = 3 := by
        intro q hq
        by_contra hne
        rw [hu, hproductWrong, wrongRow, Function.update_of_ne hne] at hq
        exact hq rfl
      rw [hrow r hr, hrow r' hr']
    have hthree := hrowsWrong hw hone 3 (by decide)
    rw [St.row_eq u .a1 (by decide), hu] at hthree
    have hcThree : (leaving wrongRow).vec u .c 3 = productRows 10 3 := congrFun hproductWrong 3
    have hwrong : wrongRow 3 = productRows 10 3 + 1 := Function.update_self ..
    have hadd : productRows 10 3 + 1 = productRows 10 3 :=
      hwrong.symm.trans (hthree.trans hcThree)
    exact absurd (add_eq_left.mp hadd) (by decide)

/-! ### Every column with the checksum -/

/-- Every column with the checksum of the product is accepted, on some processor. -/
theorem matmulEvaluation_accepts (x : Column) (h₁ : 1 ≤ d) (hd : d * d ≤ randomVectorsSize)
    (hx : columnSum x = productSum d) (s : St) :
    Ensures (matmulEvaluation (leaving x) d) s fun v t => v = 1 ∧ t.cams .a1 = x := by
  obtain ⟨v, t, hrun, ht⟩ := matmulEvaluation_leaves x h₁ hd s
  have hj := matmulEvaluation_judged hd s v t hrun
  have hsum : columnSum (productColumn (leaving x) t) = productSum d := by
    rw [hj.sum]
    refine sum_congr rfl fun y hy => ?_
    have hy' := mem_range.mp hy
    rw [hj.product y (by omega), if_pos hy']
  exact .of_run hrun ⟨hj.verdict.mpr (by rw [ht, hx, hsum]), ht⟩

/-- Row `0` is `1` and not `0`, and row `1`, past the product, is `255`. -/
def cancelling : Column := fun r => if (r : ℕ) < 2 then [1, 255].getD r 0 else 0

theorem columnSum_cancelling : columnSum cancelling = productSum 1 := by
  have hsum : columnSum cancelling = ∑ r ∈ range 2, [1, 255].getD r 0 := by
    rw [← sum_range_ite_lt (l := 2) (N := apColSize) (by decide)]
    exact Fin.sum_univ_eq_sum_range (fun r => if r < 2 then [1, 255].getD r 0 else 0) apColSize
  rw [hsum]
  decide

/-- The verdict is `1`, and `A_1` does not hold the product. -/
theorem matmulEvaluation_unsound : ¬ ∀ (p : Platform) (d : ℕ) (s t : St), 1 ≤ d →
    d * d ≤ randomVectorsSize → matmulEvaluation p d s = .ok 1 t →
      ∀ x < d * d, t.row .a1 x = p.vec t .c x := by
  intro h
  obtain ⟨v, t, hrun, rfl, ht⟩ := matmulEvaluation_accepts cancelling (Nat.le_refl 1) (by decide)
    columnSum_cancelling (.rest someMem)
  have hrow := h _ 1 _ t (Nat.le_refl 1) (by decide) hrun 0 (by decide)
  have hzero : (leaving cancelling).vec t .c 0 = 0 :=
    (matmulEvaluation_judged (by decide) _ _ _ hrun).product 0 (by decide)
  rw [St.row_eq t .a1 (by decide), ht, hzero] at hrow
  exact absurd hrow (by decide)

end RocketAp.Kernels
