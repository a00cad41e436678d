import RocketAp.Kernels.OuterProducts
import RocketAp.ProgramLogic.Calls

/-!
# The evaluation of the matrix product

`matmul_evaluation` fills the vectors, runs `ap_mm_v4`, takes the checksum of all 512 rows
of `A_1`, and compares it with the checksum of what `matmul_cpu` computes. Nobody flushes
`A_1`, and rows from `d * d` on are multiplied as earlier calls left them: a call adds the
product to what was there (`Evaluated`).

`matmulEvaluation_runs`: every call of a sequence returns `1` exactly when before each the
checksum of `A_1` and `d` times that of the stale products cancel. They do after a warm-up;
after a call with `d = 2` the checksum is `24` (`matmulEvaluation_two_two`).
-/

namespace RocketAp.Kernels

open ProgramLogic Device Hal Finset

variable {p : Platform}

/-! ### Filling and summing -/

/-- The first `i` elements are filled. -/
structure RandomFilled (p : Platform) (op : APOperations) (seed : ℤ) (i : ℕ) (s u : St) : Prop where
  a : ∀ x < i, p.vec u .a x = randomA op seed x
  b : ∀ x < i, p.vec u .b x = randomB op seed x
  c : ∀ x < i, p.vec u .c x = 0
  cams : u.cams = s.cams

/-- A vector filled element by element: one more. -/
theorem filled_succ {u v : St} {w : RvVec} {f : ℕ → UInt8} {i : ℕ} (hi : i < randomVectorsSize)
    (hu : ∀ x < i, p.vec u w x = f x)
    (hv : ∀ x < randomVectorsSize, p.vec v w x = if x = i then f i else p.vec u w x) :
    ∀ x < i + 1, p.vec v w x = f x := by
  intro x hx
  rw [hv x (by omega)]
  by_cases hxi : x = i
  · rw [if_pos hxi, hxi]
  · rw [if_neg hxi, hu x (by omega)]

theorem fillRandomVectors_filled (op : APOperations) (seed : ℤ) (s : St) :
    Ensures (fillRandomVectors p op seed) s fun _ u =>
      RandomFilled p op seed randomVectorsSize s u := by
  refine Ensures.forUpTo (fun i u => RandomFilled p op seed i s u) ?_ fun i hi u hu => ?_
  · exact ⟨nofun, nofun, nofun, rfl⟩
  · apply Ensures.bind (p.writeVec_ensures .a (randomA op seed i) hi u)
    rintro _ v₁ ⟨hc₁, h₁⟩
    apply Ensures.bind (p.writeVec_ensures .b (randomB op seed i) hi v₁)
    rintro _ v₂ ⟨hc₂, h₂⟩
    apply (p.writeVec_ensures .c 0 hi v₂).mono
    rintro _ v ⟨hc₃, h₃⟩
    have hvec : ∀ w, ∀ x < randomVectorsSize, p.vec v w x =
        if w = .c ∧ x = i then 0 else if w = .b ∧ x = i then randomB op seed i else
          if w = .a ∧ x = i then randomA op seed i else p.vec u w x := by
      intro w x hx
      rw [h₃ w x hx, h₂ w x hx, h₁ w x hx]
    constructor
    · apply filled_succ hi hu.a
      intro x hx
      simp [hvec .a x hx]
    · apply filled_succ hi hu.b
      intro x hx
      simp [hvec .b x hx]
    · apply filled_succ (f := fun _ => 0) hi hu.c
      intro x hx
      simp [hvec .c x hx]
    · rw [hc₃, hc₂, hc₁, hu.cams]

/-- `checksum` is the sum of the bytes. -/
theorem checksum_ensures (arr size : ℕ) (s : St) :
    Ensures (checksum arr size) s fun sum t =>
      sum = ∑ i ∈ range size, s.mem (arr + i) ∧ t.mem = s.mem := by
  refine Ensures.forAcc (fun i sum (t : St) => sum = ∑ j ∈ range i, s.mem (arr + j) ∧
    t.mem = s.mem) ⟨rfl, rfl⟩ ?_
  rintro i - sum t ⟨rfl, ht⟩
  refine .step rfl (.pure ⟨?_, ht⟩)
  rw [sum_range_succ, ← congrFun ht (arr + i)]

/-- The checksum of a column. -/
def columnSum (x : Column) : UInt8 := ∑ r, x r

/-- The checksum of the product that a call with dimension `d` computes. -/
def productSum (d : ℕ) : UInt8 :=
  ∑ x ∈ range (d * d), productEntry d d (randomA .mult 11) (randomB .mult 11) (x / d) (x % d)

/-- The checksum of the products of the rows that a call with dimension `d` does not lay out. -/
def staleSum (d : ℕ) (cs : Cams) : UInt8 :=
  ∑ r : Fin apColSize, if (r : ℕ) < d * d then 0 else cs .a0 r * cs .b0 r

/-- A sum of which only the first terms are there. -/
theorem sum_range_ite_lt {l N : ℕ} (h : l ≤ N) (f : ℕ → UInt8) :
    (∑ x ∈ range N, if x < l then f x else 0) = ∑ x ∈ range l, f x := by
  have hfilter : (range N).filter (· < l) = range l := by
    ext x
    rw [mem_filter, mem_range, mem_range]
    omega
  rw [← sum_filter, hfilter]

/-- The checksum of `A_1` after the kernel. -/
theorem columnSum_of_passes {d : ℕ} (hd : d * d ≤ randomVectorsSize) {s t : St}
    (ht : Passes p d d d s t)
    (ha : ∀ x < randomVectorsSize, p.vec s .a x = randomA .mult 11 x)
    (hb : ∀ x < randomVectorsSize, p.vec s .b x = randomB .mult 11 x) : columnSum (t.cams .a1) =
      columnSum (s.cams .a1) + (productSum d + d • staleSum d s.cams) := by
  have hrow : ∀ r : Fin apColSize, t.cams .a1 r = s.cams .a1 r +
      ((if (r : ℕ) < d * d then
          productEntry d d (randomA .mult 11) (randomB .mult 11) (r / d) (r % d) else 0) +
        d • if (r : ℕ) < d * d then 0 else s.cams .a0 r * s.cams .b0 r) := by
    intro r
    by_cases hr : (r : ℕ) < d * d
    · obtain ⟨hi, hj, -⟩ := exists_rowMajor hr
      rw [ht.cols r hr, if_pos hr, if_pos hr, smul_zero, add_zero]
      congr 1
      exact productEntry_congr hi hj (fun x hx => ha x (by omega)) fun x hx => hb x (by omega)
    · rw [(ht.rest r (by omega)).2.2, if_neg hr, if_neg hr, zero_add]
  rw [columnSum, sum_congr rfl fun r _ => hrow r, sum_add_distrib, sum_add_distrib, ← smul_sum,
    Fin.sum_univ_eq_sum_range (fun x => if x < d * d then
      productEntry d d (randomA .mult 11) (randomB .mult 11) (x / d) (x % d) else 0),
    sum_range_ite_lt hd]
  rfl

/-- The checksum of a vector that the column was copied to. -/
theorem vecSum_of_copied {t : St} {x : Column}
    (h : ∀ r : Fin apColSize, (r : ℕ) < randomVectorsSize → p.vec t .c (0 + r) = x r) :
    ∑ i ∈ range randomVectorsSize, p.vec t .c i = columnSum x := by
  rw [columnSum, ← Fin.sum_univ_eq_sum_range fun i => p.vec t .c i]
  apply sum_congr rfl
  intro r _
  have hr := h r r.isLt
  rwa [Nat.zero_add] at hr

/-! ### The comparison -/

/-- `matmul_evaluation` after its kernel. -/
def comparison (p : Platform) (dimension : ℕ) : Prog UInt8 := do
  memcpy (p.rvAddr .c) Cam.a1.base randomVectorsSize
  let apResult ← checksum (p.rvAddr .c) randomVectorsSize
  memset (p.rvAddr .c) 0 randomVectorsSize
  p.startComputeCycles
  matmulCpu p dimension dimension dimension
  p.endComputeCycles
  let cpuResult ← checksum (p.rvAddr .c) randomVectorsSize
  if apResult = cpuResult then return 1
  return 0

theorem matmulEvaluation_eq (d : ℕ) : matmulEvaluation p d = (do
    fillRandomVectors p .mult 11
    p.startComputeCycles
    apMmV4 p d d d
    p.endComputeCycles
    comparison p d) := rfl

/-- `r_v_mgmt.C` as a column. -/
def productColumn (p : Platform) (t : St) : Column := fun r => p.vec t .c r

/-- What the comparison returns, and what it leaves: `C` is the product, filled up with
zeros. -/
structure Compared (p : Platform) (d : ℕ) (s : St) (v : UInt8) (t : St) : Prop where
  result : v = 1 ↔ columnSum (s.cams .a1) = columnSum (productColumn p t)
  c : ∀ x < randomVectorsSize, p.vec t .c x =
    if x < d * d then productEntry d d (p.vec s .a) (p.vec s .b) (x / d) (x % d) else 0
  cams : t.cams = s.cams

/-- On any processor: the comparison uses none. -/
theorem comparison_compared {d : ℕ} (hd : d * d ≤ randomVectorsSize) (s : St) :
    Ensures (comparison p d) s fun v t => Compared p d s v t := by
  -- the AP's checksum
  have hcopy := memcpy_vec p .c .a1 (show 0 + randomVectorsSize ≤ randomVectorsSize by omega)
  apply Ensures.bind (hcopy s)
  rintro _ s₁ ⟨hcams₁, hframe₁, hrow₁⟩
  apply Ensures.bind (checksum_ensures _ _ s₁)
  rintro apResult s₂ ⟨hap, hmem₂⟩
  have hapSum : apResult = columnSum (s.cams .a1) := hap.trans (vecSum_of_copied hrow₁)
  -- the CPU's
  apply Ensures.bind (p.memset_filled .c 0 s₂)
  intro _ s₃ h₃
  refine .step rfl ?_
  apply Ensures.bind (matmulCpu_filled hd hd hd _)
  intro _ s₄ h₄
  refine .step rfl ?_
  apply Ensures.bind (checksum_ensures _ _ _)
  rintro cpuResult s₅ ⟨hcpu, hmem₅⟩
  have hvec : ∀ w, w ≠ .c → ∀ x < randomVectorsSize, p.vec s₃ w x = p.vec s w x := by
    intro w hw x hx
    have h₂ : p.vec s₂ w x = p.vec s₁ w x := congrFun hmem₂ _
    rw [h₃.others w hw x hx, h₂, hframe₁ w x hx fun h => hw h.1]
  have hc : ∀ x < randomVectorsSize, p.vec s₅ .c x =
      if x < d * d then productEntry d d (p.vec s .a) (p.vec s .b) (x / d) (x % d) else 0 := by
    intro x hx
    have h₅ : p.vec s₅ .c x = p.vec s₄ .c x := congrFun hmem₅ _
    rw [h₅, h₄.c x hx]
    by_cases hxd : x < d * d
    · obtain ⟨hi, hj, -⟩ := exists_rowMajor hxd
      rw [if_pos hxd, if_pos hxd]
      exact productEntry_congr hi hj (fun y hy => hvec .a nofun y (by omega))
        fun y hy => hvec .b nofun y (by omega)
    · rw [if_neg hxd, if_neg hxd]
      exact h₃.filled x hx
  have hcpuSum : cpuResult = columnSum (productColumn p s₅) := by
    have hsum : ∑ x ∈ range randomVectorsSize, p.vec s₅ .c x = columnSum (productColumn p s₅) :=
      (Fin.sum_univ_eq_sum_range (fun x => p.vec s₅ .c x) _).symm
    rw [hcpu, ← hsum]
    exact sum_congr rfl fun x _ => (congrFun hmem₅ _).symm
  have hcams : s₅.cams = s.cams := by
    have h₅ : s₅.cams = s₄.cams := congrArg camsOf hmem₅
    have h₂ : s₂.cams = s₁.cams := congrArg camsOf hmem₂
    exact h₅.trans (h₄.cams.trans (h₃.cams.trans (h₂.trans hcams₁)))
  rw [hapSum, hcpuSum]
  by_cases heq : columnSum (s.cams .a1) = columnSum (productColumn p s₅)
  · rw [if_pos heq]
    exact .pure ⟨iff_of_true rfl heq, hc, hcams⟩
  · rw [if_neg heq]
    exact .step rfl (.pure ⟨iff_of_false (by decide) heq, hc, hcams⟩)

/-- The vectors are filled as `matmul_evaluation` fills them: `C` is the product of the
numbers it generates. -/
theorem Compared.c_eq {d : ℕ} {s t : St} {v : UInt8} (h : Compared p d s v t)
    (hd : d * d ≤ randomVectorsSize)
    (ha : ∀ x < randomVectorsSize, p.vec s .a x = randomA .mult 11 x)
    (hb : ∀ x < randomVectorsSize, p.vec s .b x = randomB .mult 11 x) {x : ℕ} (hx : x < d * d) :
    p.vec t .c x =
      productEntry d d (randomA .mult 11) (randomB .mult 11) (x / d) (x % d) := by
  obtain ⟨hi, hj, -⟩ := exists_rowMajor hx
  rw [h.c x (by omega), if_pos hx]
  exact productEntry_congr hi hj (fun y hy => ha y (by omega)) fun y hy => hb y (by omega)

/-- The checksum of the product, filled up with zeros. -/
theorem Compared.columnSum_eq {d : ℕ} {s t : St} {v : UInt8} (h : Compared p d s v t)
    (hd : d * d ≤ randomVectorsSize) :
    columnSum (productColumn p t) = ∑ x ∈ range (d * d), p.vec t .c x := by
  have hpad : ∀ x ∈ range apColSize, p.vec t .c x = if x < d * d then p.vec t .c x else 0 := by
    intro x hx
    rw [h.c x (mem_range.mp hx)]
    split <;> rfl
  rw [columnSum, ← sum_range_ite_lt hd, ← sum_congr rfl hpad]
  exact Fin.sum_univ_eq_sum_range (fun x => p.vec t .c x) apColSize

/-! ### A call -/

/-- What a call returns, and what it leaves in the columns. -/
structure Evaluated (d : ℕ) (s : St) (v : UInt8) (t : St) : Prop where
  result : v = 1 ↔ columnSum (t.cams .a1) = productSum d
  acc : columnSum (t.cams .a1) = columnSum (s.cams .a1) + (productSum d + d • staleSum d s.cams)
  rest : ∀ r : Fin apColSize, d * d ≤ r →
    t.cams .a0 r = s.cams .a0 r ∧ t.cams .b0 r = s.cams .b0 r

/-- The vectors are filled, the kernel runs, and its result is compared. -/
theorem matmulEvaluation_steps (hp : p.MultiplyAdd) {d : ℕ} (hd : d * d ≤ randomVectorsSize)
    (s : St) : Ensures (matmulEvaluation p d) s fun v t => ∃ s₁ s₂,
      RandomFilled p .mult 11 randomVectorsSize s s₁ ∧ Passes p d d d s₁ s₂ ∧
        Compared p d s₂ v t := by
  rw [matmulEvaluation_eq]
  apply Ensures.bind (fillRandomVectors_filled .mult 11 s)
  intro _ s₁ h₁
  refine .step rfl ?_
  apply Ensures.bind (apMmV4_passes hp hd hd _)
  intro _ s₂ h₂
  refine .step rfl ?_
  apply (comparison_compared hd _).mono
  intro v t ht
  refine ⟨s₁, _, h₁, ?_, ht⟩
  exact ⟨h₂.cols, h₂.rest, h₂.outside⟩

theorem matmulEvaluation_evaluated (hp : p.MultiplyAdd) {d : ℕ}
    (hd : d * d ≤ randomVectorsSize) (s : St) :
    Ensures (matmulEvaluation p d) s fun v t => Evaluated d s v t := by
  apply (matmulEvaluation_steps hp hd s).mono
  rintro v t ⟨s₁, s₂, h₁, h₂, ht⟩
  have hvec : ∀ w, ∀ x < randomVectorsSize, p.vec s₂ w x = p.vec s₁ w x := fun w x hx =>
    Platform.vec_eq_of_outside h₂.outside w hx
  constructor
  · have hsum : ∑ x ∈ range (d * d), p.vec t .c x = productSum d :=
      sum_congr rfl fun x hx => ht.c_eq hd (fun y hy => (hvec .a y hy).trans (h₁.a y hy))
        (fun y hy => (hvec .b y hy).trans (h₁.b y hy)) (mem_range.mp hx)
    rw [ht.result, ht.columnSum_eq hd, hsum, ht.cams]
  · rw [ht.cams, ← h₁.cams]
    exact columnSum_of_passes hd h₂ h₁.a h₁.b
  · intro r hr
    obtain ⟨ha, hb, -⟩ := h₂.rest r hr
    rw [ht.cams, ← h₁.cams]
    exact ⟨ha, hb⟩

/-! ### Runs -/

/-- Before a call with dimension `d`: the checksum of `A_1`, and `d` times that of the rows
that will not be laid out, cancel. -/
def Cancels (d : ℕ) (s : St) : Prop := columnSum (s.cams .a1) + d • staleSum d s.cams = 0

theorem Evaluated.result_iff {d : ℕ} {s t : St} {v : UInt8} (h : Evaluated d s v t) :
    v = 1 ↔ Cancels d s := by
  rw [h.result, h.acc, add_left_comm, add_eq_left, Cancels]

/-- **The evaluation, over and over.** After a warm-up, every call of a sequence returns `1`
exactly when before each what earlier calls left in the columns cancels. -/
theorem matmulEvaluation_runs (hp : p.MultiplyAdd) (ds : List ℕ)
    (hds : ∀ d ∈ ds, 1 ≤ d ∧ d * d ≤ randomVectorsSize) (s₀ : St) :
    Ensures (warmupAp p) s₀ fun _ s =>
      (AllReturn (matmulEvaluation p) (fun _ _ v _ => v = 1) ds s ↔
        AllReturn (matmulEvaluation p) (fun d s _ _ => Cancels d s) ds s) := by
  apply (warmupAp_ran hp.resets s₀).mono
  intro _ s _
  refine allReturn_congr (fun _ => True) (fun d t hd _ => ?_) ds s hds trivial
  exact (matmulEvaluation_evaluated hp hd.2 t).mono fun _ _ h => ⟨trivial, h.result_iff⟩

/-- What a first call leaves for one that lays out no fewer rows. -/
theorem Evaluated.leaves {d d' : ℕ} {s t : St} {v : UInt8} (h : Evaluated d s v t)
    (hs : s.cams = fun _ _ => 0) (hd : d * d ≤ d' * d') :
    columnSum (t.cams .a1) = productSum d ∧ staleSum d' t.cams = 0 := by
  refine ⟨?_, sum_eq_zero fun r _ => ?_⟩
  · rw [h.acc]
    simp [columnSum, staleSum, hs]
  · by_cases hr : (r : ℕ) < d' * d'
    · rw [if_pos hr]
    · rw [if_neg hr, (h.rest r (by omega)).1, hs, zero_mul]

/-- The checksum of the first product is `0`, so the second call finds nothing to add. -/
theorem matmulEvaluation_eight_ten : Ensures (warmupAp (.reference 2)) (.rest someMem) fun _ s =>
    AllReturn (matmulEvaluation (.reference 2)) (fun _ _ v _ => v = 1) [8, 10] s := by
  have hp := Platform.reference_multiplyAdd 2
  have hruns := matmulEvaluation_runs hp [8, 10] (by decide) (.rest someMem)
  apply ((warmupAp_ran hp.resets (.rest someMem)).and hruns).mono
  rintro _ s ⟨hs, hiff⟩
  refine hiff.mpr ((matmulEvaluation_evaluated hp (by decide) s).mono fun _ t ht => ⟨?_, ?_⟩)
  · simp [Cancels, columnSum, staleSum, hs.cams]
  · refine (matmulEvaluation_evaluated hp (by decide) t).mono fun _ _ _ => ⟨?_, trivial⟩
    have hzero : productSum 8 = 0 := by decide +kernel
    obtain ⟨hacc, hstale⟩ : columnSum (t.cams .a1) = productSum 8 ∧ staleSum 10 t.cams = 0 :=
      ht.leaves hs.cams (by decide)
    show Cancels 10 t
    rw [Cancels, hacc, hstale, hzero, smul_zero, add_zero]

/-- The same call twice: the second time `A_1` holds twice the product. -/
theorem matmulEvaluation_two_two : ¬ Ensures (warmupAp (.reference 0)) (.rest someMem) fun _ s =>
    AllReturn (matmulEvaluation (.reference 0)) (fun _ _ v _ => v = 1) [2, 2] s := by
  have hp := Platform.reference_multiplyAdd 0
  intro h
  obtain ⟨_, s, -, hs, h⟩ := (warmupAp_ran hp.resets (.rest someMem)).and h
  obtain ⟨_, t, -, ht, -, h⟩ := (matmulEvaluation_evaluated hp (d := 2) (by decide) s).and h
  obtain ⟨_, u, -, hu, hv, -⟩ := (matmulEvaluation_evaluated hp (d := 2) (by decide) t).and h
  obtain ⟨hacc, hstale⟩ := ht.leaves hs.cams (Nat.le_refl _)
  have hcancels := hu.result_iff.mp hv
  rw [Cancels, hacc, hstale, smul_zero, add_zero] at hcancels
  exact absurd hcancels (by decide)

end RocketAp.Kernels
