import RocketAp.Kernels.Evaluation

/-!
# Sums that do not wrap

`fill_random_vectors` generates operands of at most `3`, and a dimension whose square fits in
a column is at most `22`. So a sum of at most that many products is at most `198` and fits in
a byte (`RandomFilled.fits`): `matmul_cpu` computes exact sums.

So does `ap_mm_v4`, from rows of `A_1` that are zero. It adds to what they hold, and nobody
flushes them: its sums are exact exactly when they were zero (`fillRandomVectors_exact`). They
are after a warm-up; after a call of `matmul_evaluation` they hold its product.
-/

namespace RocketAp.Kernels

open ProgramLogic Device Hal Finset

variable {p : Platform} {d : ℕ}

/-! ### Exact sums -/

/-- The first `t` terms of an entry of the product, as natural numbers. -/
def exactTerms (d : ℕ) (a b : ℕ → UInt8) (t i j : ℕ) : ℕ :=
  productTerms d d (fun x => (a x).toNat) (fun x => (b x).toNat) t i j

theorem exactTerms_succ (a b : ℕ → UInt8) (t i j : ℕ) : exactTerms d a b (t + 1) i j =
    exactTerms d a b t i j + (a (i * d + t)).toNat * (b (t * d + j)).toNat :=
  productTerms_succ (a := fun x => (a x).toNat) (b := fun x => (b x).toNat) t i j

/-- A byte sum is the sum, unless it wraps. -/
theorem toNat_productTerms (a b : ℕ → UInt8) (t i j : ℕ) :
    (productTerms d d a b t i j).toNat = exactTerms d a b t i j % 2 ^ 8 := by
  induction t with
  | zero => rfl
  | succ t ih =>
    rw [productTerms_succ, UInt8.toNat_add, UInt8.toNat_mul, ih, ← Nat.add_mod, exactTerms_succ]

/-- The entries are operands of the processor, and no sum of products of theirs is more than a
byte. -/
structure SumsFit (p : Platform) (d : ℕ) (u : St) : Prop where
  a : ∀ x < randomVectorsSize, (p.vec u .a x).toNat < 16
  b : ∀ x < randomVectorsSize, (p.vec u .b x).toNat < 16
  sums : ∀ t ≤ d, ∀ i < d, ∀ j < d, exactTerms d (p.vec u .a) (p.vec u .b) t i j ≤ 255

theorem SumsFit.toNat_eq {u : St} (h : SumsFit p d u) {t i j : ℕ} (ht : t ≤ d) (hi : i < d)
    (hj : j < d) : (productTerms d d (p.vec u .a) (p.vec u .b) t i j).toNat =
      exactTerms d (p.vec u .a) (p.vec u .b) t i j := by
  rw [toNat_productTerms]
  exact Nat.mod_eq_of_lt (Nat.lt_succ_of_le (h.sums t ht i hi j hj))

/-! ### What is generated -/

/-- An operand of `MULT` is at most `3`. -/
theorem masked_le (w : UInt32) : (w &&& randomMask .mult).toUInt8.toNat ≤ 3 := by
  have hmask : randomMask .mult = 0x3 := rfl
  rw [hmask, UInt32.toNat_toUInt8, UInt32.toNat_and]
  exact (Nat.mod_le _ _).trans Nat.and_le_right

theorem randomA_le (seed : ℤ) (x : ℕ) : (randomA .mult seed x).toNat ≤ 3 := masked_le _

theorem randomB_le (seed : ℤ) (x : ℕ) : (randomB .mult seed x).toNat ≤ 3 := masked_le _

/-- The square of `23` does not fit in a column. -/
theorem dimension_le (hd : d * d ≤ randomVectorsSize) : d ≤ 22 := by
  by_contra hlt
  have hsquare : 23 * 23 ≤ d * d := Nat.mul_le_mul (by omega) (by omega)
  have hsize : randomVectorsSize = 512 := rfl
  omega

/-- Whatever the seed. -/
theorem RandomFilled.fits {seed : ℤ} {s u : St}
    (hu : RandomFilled p .mult seed randomVectorsSize s u) (hd : d * d ≤ randomVectorsSize) :
    SumsFit p d u := by
  have ha : ∀ x < randomVectorsSize, (p.vec u .a x).toNat ≤ 3 := fun x hx =>
    hu.a x hx ▸ randomA_le seed x
  have hb : ∀ x < randomVectorsSize, (p.vec u .b x).toNat ≤ 3 := fun x hx =>
    hu.b x hx ▸ randomB_le seed x
  refine ⟨fun x hx => Nat.lt_of_le_of_lt (ha x hx) (by decide),
    fun x hx => Nat.lt_of_le_of_lt (hb x hx) (by decide), fun t ht i hi j hj => ?_⟩
  have hle : exactTerms d (p.vec u .a) (p.vec u .b) t i j ≤ t * (3 * 3) := by
    refine productTerms_le (fun l hl => ha _ ?_) fun l hl => hb _ ?_
    · have := rowMajor_lt hi (show l < d by omega)
      omega
    · have := rowMajor_lt (show l < d by omega) hj
      omega
  have := dimension_le hd
  omega

/-! ### The two products -/

/-- `matmul_cpu` is exact: after every round of every sum, and in what it writes. -/
structure CpuExact (p : Platform) (d : ℕ) (u : St) : Prop where
  sums : ∀ t ≤ d, ∀ i < d, ∀ j < d, Ensures (cpuTerms p d d i j t) u fun sum _ =>
    sum.toNat = exactTerms d (p.vec u .a) (p.vec u .b) t i j
  entries : Ensures (matmulCpu p d d d) u fun _ v => ∀ i < d, ∀ j < d,
    (p.vec v .c (i * d + j)).toNat = exactTerms d (p.vec u .a) (p.vec u .b) d i j

/-- `ap_mm_v4` is exact: the rows of `A_1`, after every pass. -/
def ApExact (p : Platform) (d : ℕ) (u : St) : Prop :=
  ∀ t ≤ d, Ensures (forUpTo t (v4Pass p d d)) u fun _ v => ∀ i < d, ∀ j < d,
    (v.row .a1 (i * d + j)).toNat = exactTerms d (p.vec u .a) (p.vec u .b) t i j

theorem SumsFit.cpuExact {u : St} (h : SumsFit p d u) (hd : d * d ≤ randomVectorsSize) :
    CpuExact p d u := by
  constructor
  · intro t ht i hi j hj
    obtain ⟨sum, v, hrun, rfl, -⟩ := cpuTerms_run (p := p) i j t u
    exact .of_run hrun (h.toNat_eq ht hi hj)
  · obtain ⟨_, v, hrun, hv⟩ := matmulCpu_filled (p := p) hd hd hd u
    refine .of_run hrun fun i hi j hj => ?_
    have hq := rowMajor_lt hi hj
    rw [hv.c _ (by omega), if_pos hq, rowMajor_div hj, rowMajor_mod hj]
    exact h.toNat_eq (Nat.le_refl d) hi hj

/-- A row of `A_1` after `t` passes is exact when it was zero, and for no other. -/
theorem Passes.row_exact_iff {t i j : ℕ} {u v : St} (hv : Passes p d d t u v)
    (h : SumsFit p d u) (hd : d * d ≤ randomVectorsSize) (ht : t ≤ d) (hi : i < d) (hj : j < d) :
    (v.row .a1 (i * d + j)).toNat = exactTerms d (p.vec u .a) (p.vec u .b) t i j ↔
      u.row .a1 (i * d + j) = 0 := by
  have hq := rowMajor_lt hi hj
  have hlt : i * d + j < apColSize := Nat.lt_of_lt_of_le hq hd
  rw [St.row_eq v .a1 hlt, St.row_eq u .a1 hlt, hv.cols _ hq, rowMajor_div hj, rowMajor_mod hj,
    ← h.toNat_eq ht hi hj, UInt8.toNat_inj]
  exact add_eq_right

theorem SumsFit.apExact_iff {u : St} (h : SumsFit p d u) (hp : p.MultiplyAdd)
    (hd : d * d ≤ randomVectorsSize) : ApExact p d u ↔ ∀ x < d * d, u.row .a1 x = 0 := by
  constructor
  · intro hexact x hx
    obtain ⟨hi, hj, hx'⟩ := exists_rowMajor hx
    obtain ⟨_, v, hrun, hv⟩ := v4Passes_done hp (Nat.le_refl d) hd hd u
    have hrow := (hexact d (Nat.le_refl d)).holds hrun (x / d) hi (x % d) hj
    rw [← hx']
    exact (hv.row_exact_iff h hd (Nat.le_refl d) hi hj).mp hrow
  · intro hzero t ht
    obtain ⟨_, v, hrun, hv⟩ := v4Passes_done hp ht hd hd u
    refine .of_run hrun fun i hi j hj => ?_
    exact (hv.row_exact_iff h hd ht hi hj).mpr (hzero _ (rowMajor_lt hi hj))

/-! ### The evaluation -/

/-- An entry of the product of the matrices that `matmul_evaluation` generates. -/
def generatedEntry (d i j : ℕ) : ℕ := exactTerms d (randomA .mult 11) (randomB .mult 11) d i j

theorem RandomFilled.exactTerms_eq {s u : St}
    (hu : RandomFilled p .mult 11 randomVectorsSize s u) (hd : d * d ≤ randomVectorsSize) {i j : ℕ}
    (hi : i < d) (hj : j < d) :
    exactTerms d (p.vec u .a) (p.vec u .b) d i j = generatedEntry d i j := by
  refine productEntry_congr hi hj (fun x hx => ?_) fun x hx => ?_
  · rw [hu.a x (by omega)]
  · rw [hu.b x (by omega)]

/-- Filling the vectors leaves the columns as they are. -/
theorem RandomFilled.row_eq {op : APOperations} {seed : ℤ} {q : ℕ} {s u : St}
    (hu : RandomFilled p op seed q s u) (c : Cam) {r : ℕ} (hr : r < apColSize) :
    u.row c r = s.row c r := by
  rw [St.row_eq u c hr, St.row_eq s c hr, hu.cams]

/-- What a call of `matmul_evaluation` leaves: `C` is exact, and `A_1` is if its rows were
zero. -/
theorem matmulEvaluation_exact (hp : p.MultiplyAdd) (hd : d * d ≤ randomVectorsSize) (s : St) :
    Ensures (matmulEvaluation p d) s fun _ t =>
      (∀ i < d, ∀ j < d, (p.vec t .c (i * d + j)).toNat = generatedEntry d i j) ∧
      ((∀ i < d, ∀ j < d, (t.row .a1 (i * d + j)).toNat = generatedEntry d i j) ↔
        ∀ x < d * d, s.row .a1 x = 0) := by
  obtain ⟨v, t, hrun, s₁, s₂, h₁, h₂, ht⟩ := matmulEvaluation_steps hp hd s
  have hfits := h₁.fits hd
  have hrow : ∀ i < d, ∀ j < d, (t.row .a1 (i * d + j)).toNat = generatedEntry d i j ↔
      s.row .a1 (i * d + j) = 0 := by
    intro i hi j hj
    have hlt : i * d + j < apColSize := Nat.lt_of_lt_of_le (rowMajor_lt hi hj) hd
    have hsame : t.row .a1 (i * d + j) = s₂.row .a1 (i * d + j) := by
      rw [St.row_eq t .a1 hlt, St.row_eq s₂ .a1 hlt, ht.cams]
    rw [hsame, ← h₁.exactTerms_eq hd hi hj, ← h₁.row_eq .a1 hlt]
    exact h₂.row_exact_iff hfits hd (Nat.le_refl d) hi hj
  refine .of_run hrun ⟨fun i hi j hj => ?_, fun h x hx => ?_, fun h i hi j hj => ?_⟩
  · have hq := rowMajor_lt hi hj
    have hvec : ∀ w, ∀ x < randomVectorsSize, p.vec s₂ w x = p.vec s₁ w x := fun w x hx =>
      Platform.vec_eq_of_outside h₂.outside w hx
    rw [ht.c _ (by omega), if_pos hq, rowMajor_div hj, rowMajor_mod hj,
      productEntry_congr hi hj (fun x hx => hvec .a x (by omega)) fun x hx =>
        hvec .b x (by omega), ← h₁.exactTerms_eq hd hi hj]
    exact hfits.toNat_eq (Nat.le_refl d) hi hj
  · obtain ⟨hi, hj, hx'⟩ := exists_rowMajor hx
    rw [← hx']
    exact (hrow _ hi _ hj).mp (h _ hi _ hj)
  · exact (hrow i hi j hj).mpr (h _ (rowMajor_lt hi hj))

/-- **The sums of `matmul_evaluation`.** Whatever the seed, they fit in a byte, and
`matmul_cpu` computes them; `ap_mm_v4` does exactly when the rows of `A_1` that it adds to
were zero. The same holds of what a call of `matmul_evaluation` leaves. -/
theorem fillRandomVectors_exact (hp : p.MultiplyAdd) (hd : d * d ≤ randomVectorsSize) (s : St) :
    (∀ seed, Ensures (fillRandomVectors p .mult seed) s fun _ u => SumsFit p d u ∧
      CpuExact p d u ∧ (ApExact p d u ↔ ∀ x < d * d, s.row .a1 x = 0)) ∧
    Ensures (matmulEvaluation p d) s fun _ t =>
      (∀ i < d, ∀ j < d, (p.vec t .c (i * d + j)).toNat = generatedEntry d i j) ∧
      ((∀ i < d, ∀ j < d, (t.row .a1 (i * d + j)).toNat = generatedEntry d i j) ↔
        ∀ x < d * d, s.row .a1 x = 0) := by
  refine ⟨fun seed => ?_, matmulEvaluation_exact hp hd s⟩
  obtain ⟨_, u, hrun, hu⟩ := fillRandomVectors_filled (p := p) .mult seed s
  have hfits := hu.fits hd
  refine .of_run hrun ⟨hfits, hfits.cpuExact hd, (hfits.apExact_iff hp hd).trans ?_⟩
  exact forall₂_congr fun x hx => by rw [hu.row_eq .a1 (Nat.lt_of_lt_of_le hx hd)]

/-- After a warm-up, every seed. -/
theorem fillRandomVectors_exact_ten :
    Ensures (warmupAp (.reference 2)) (.rest someMem) fun _ s =>
      Ensures (fillRandomVectors (.reference 2) .mult (-5)) s fun _ u =>
        ApExact (.reference 2) 10 u := by
  have hp := Platform.reference_multiplyAdd 2
  apply (warmupAp_ran hp.resets (.rest someMem)).mono
  intro _ s hs
  obtain ⟨_, u, hrun, -, -, hiff⟩ := (fillRandomVectors_exact hp (d := 10) (by decide) s).1 (-5)
  refine .of_run hrun (hiff.mpr fun x hx => ?_)
  rw [St.row_eq s .a1 (Nat.lt_trans hx (by decide)), hs.cams]

/-- The second of two calls with dimension `2` leaves twice the product in `A_1`. -/
theorem matmulEvaluation_doubled : ¬ Ensures (do
      let _ ← matmulEvaluation (.reference 0) 2
      matmulEvaluation (.reference 0) 2) (.rest someMem) fun _ t =>
    ∀ i < 2, ∀ j < 2, (t.row .a1 (i * 2 + j)).toNat = generatedEntry 2 i j := by
  have hp := Platform.reference_multiplyAdd 0
  have hdim : 2 * 2 ≤ randomVectorsSize := by decide
  intro h
  rw [ensures_bind_iff] at h
  obtain ⟨_, t, -, h, -, hfirst⟩ := h.and (matmulEvaluation_exact hp hdim (.rest someMem))
  obtain ⟨_, u, -, hrows, -, hsecond⟩ := h.and (matmulEvaluation_exact hp hdim t)
  have hclean : ∀ x < 2 * 2, (St.rest someMem).row .a1 x = 0 := fun x hx => by
    rw [St.row_eq _ .a1 (Nat.lt_trans hx (by decide)), cams_someMem]
  have hthree : (t.row .a1 0).toNat = 3 := hfirst.mpr hclean 0 (by decide) 0 (by decide)
  rw [hsecond.mp hrows 0 (by decide)] at hthree
  exact absurd hthree (by decide)

end RocketAp.Kernels
