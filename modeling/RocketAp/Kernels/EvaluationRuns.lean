import RocketAp.Kernels.Exactness
import RocketAp.Kernels.Tests
import RocketAp.ProgramLogic.Simulation

/-!
# What evaluations leave each other

A call of `matmul_evaluation` finds three columns as earlier calls left them: nobody flushes
`A_0`, `B_0` and `A_1`. `Leftover` is these columns, `Leftover.step` what a call makes of them,
and `Leftover.verdict` what it returns: no vectors, no registers, and no processor.

Every run of calls after a warm-up, with any dimensions that fit, returns what this small
machine says (`evaluations_refine`). Called again and again with one dimension, `A_1` holds
the product as many times as there were calls, and a call returns `1` exactly when what was
there before has the checksum `0` (`evaluations_repeated`). The first call, and `main` with
it, leaves the product (`main_product`).
-/

namespace RocketAp.Kernels

open ProgramLogic Device Hal Finset

variable {p : Platform} {d : ℕ}

/-! ### The machine -/

/-- The columns that the calls share. -/
structure Leftover where
  a0 : Column
  b0 : Column
  a1 : Column

namespace Leftover

/-- The columns after a warm-up. -/
def zero : Leftover := ⟨fun _ => 0, fun _ => 0, fun _ => 0⟩

/-- A call with dimension `d`: its product is added to the first `d * d` rows of `A_1`, and to the
others `d` times the product of what is in `A_0` and `B_0`. These keep what the last pass laid
out. -/
def step (d : ℕ) (x : Leftover) : Leftover where
  a0 r := if (r : ℕ) < d * d then randomA .mult 11 (r / d * d + (d - 1)) else x.a0 r
  b0 r := if (r : ℕ) < d * d then randomB .mult 11 ((d - 1) * d + r % d) else x.b0 r
  a1 r := x.a1 r + if (r : ℕ) < d * d then
    productEntry d d (randomA .mult 11) (randomB .mult 11) (r / d) (r % d) else
      d • (x.a0 r * x.b0 r)

theorem step_a0 (d : ℕ) (x : Leftover) (r : Fin apColSize) : (x.step d).a0 r =
    if (r : ℕ) < d * d then randomA .mult 11 (r / d * d + (d - 1)) else x.a0 r := rfl

theorem step_b0 (d : ℕ) (x : Leftover) (r : Fin apColSize) : (x.step d).b0 r =
    if (r : ℕ) < d * d then randomB .mult 11 ((d - 1) * d + r % d) else x.b0 r := rfl

theorem step_a1 (d : ℕ) (x : Leftover) (r : Fin apColSize) : (x.step d).a1 r = x.a1 r +
    if (r : ℕ) < d * d then
      productEntry d d (randomA .mult 11) (randomB .mult 11) (r / d) (r % d)
    else d • (x.a0 r * x.b0 r) := rfl

/-- What the call returns. -/
def verdict (d : ℕ) (x : Leftover) : UInt8 :=
  if columnSum (x.step d).a1 = productSum d then 1 else 0

/-- What a run of calls returns. -/
def verdicts : List ℕ → Leftover → List UInt8
  | [], _ => []
  | d :: ds, x => x.verdict d :: verdicts ds (x.step d)

/-- What it leaves. -/
def run (ds : List ℕ) (x : Leftover) : Leftover := ds.foldl (fun x d => x.step d) x

/-- The call as a program. -/
def call (d : ℕ) : EStateM Stuck Leftover UInt8 := fun x => .ok (x.verdict d) (x.step d)

theorem mapM_call (ds : List ℕ) (x : Leftover) :
    ds.mapM call x = .ok (verdicts ds x) (run ds x) := by
  induction ds generalizing x with
  | nil => rfl
  | cons d ds ih =>
    have hd : call d x = .ok (x.verdict d) (x.step d) := rfl
    rw [List.mapM_cons, bind_run hd, bind_run (ih (x.step d))]
    rfl

end Leftover

/-- The columns of the machine. -/
structure Shows (s : St) (x : Leftover) : Prop where
  a0 : s.cams .a0 = x.a0
  b0 : s.cams .b0 = x.b0
  a1 : s.cams .a1 = x.a1

/-! ### What the last pass lays out -/

/-- The rows that are laid out hold the operands of pass `t`. -/
def LaidOut (p : Platform) (d t : ℕ) (s u : St) : Prop := ∀ r : Fin apColSize, (r : ℕ) < d * d →
  u.cams .a0 r = p.vec s .a (r / d * d + t) ∧ u.cams .b0 r = p.vec s .b (t * d + r % d)

theorem v4Pass_laidOut (hp : p.MultiplyAdd) {t : ℕ} (ht : t < d) (hd : d * d ≤ randomVectorsSize)
    (s : St) : Ensures (v4Pass p d d t) s fun _ u => LaidOut p d t s u := by
  apply Ensures.bind (mmColsSetup_filled ht hd hd s)
  intro _ s₁ h₁
  apply Ensures.bind (rowwise_left_ran hp.triggers hp.resets hp.mult s₁)
  intro _ s₂ h₂
  apply Ensures.bind (addD_targetA_ran hp.triggers hp.resets hp.addD s₂)
  intro _ s₃ h₃
  apply (apFlushC0_ran hp.resets (h₃.control ▸ noReset_zero)).mono
  intro _ u h₄ r hr
  have hkeep : ∀ c, c ≠ .a1 → c ≠ .c0 → u.cams c = s₁.cams c := by
    intro c ha hc
    rw [h₄.cams, Function.update_of_ne hc, h₃.cams, Function.update_of_ne ha, h₂.cams,
      Function.update_of_ne hc]
  rw [hkeep .a0 (by decide) (by decide), hkeep .b0 (by decide) (by decide), h₁.a0, h₁.b0,
    if_pos hr, if_pos hr]
  exact ⟨rfl, rfl⟩

/-- After the kernel it is the last column of `A` and the last row of `B`. -/
theorem apMmV4_laidOut (hp : p.MultiplyAdd) (hd : d * d ≤ randomVectorsSize) (s : St) :
    Ensures (apMmV4 p d d d) s fun _ u => LaidOut p d (d - 1) s u := by
  have hloop : Ensures (apMmV4 p d d d) s fun _ u => Passes p d d d s u ∧
      (0 < d → LaidOut p d (d - 1) s u) := by
    rw [apMmV4_eq]
    refine Ensures.forUpTo (fun t u => Passes p d d t s u ∧ (0 < t → LaidOut p d (t - 1) s u)) ?_
      fun t ht u ⟨hu, _⟩ => ?_
    · exact ⟨⟨fun r _ => by simp, fun r _ => by simp, fun _ _ => rfl⟩, nofun⟩
    · apply ((v4Pass_done hp ht hd hd u).and (v4Pass_laidOut hp ht hd u)).mono
      rintro _ v ⟨hv, hlaid⟩
      refine ⟨hu.step ht hd hd hv, fun _ r hr => ?_⟩
      obtain ⟨hi, hj, -⟩ := exists_rowMajor hr
      have hit := rowMajor_lt hi ht
      have htj := rowMajor_lt ht hj
      rw [Nat.add_sub_cancel, ← Platform.vec_eq_of_outside hu.outside .a (by omega),
        ← Platform.vec_eq_of_outside hu.outside .b (by omega)]
      exact hlaid r hr
  apply hloop.mono
  intro _ u ⟨_, hu⟩ r hr
  exact hu (Nat.pos_of_ne_zero fun h => by simp [h] at hr) r hr

/-! ### A call -/

/-- The vectors are filled, and the kernel leaves its operands where it laid them out last. -/
theorem matmulEvaluation_laidOut (hp : p.MultiplyAdd) (hd : d * d ≤ randomVectorsSize) (s : St) :
    Ensures (matmulEvaluation p d) s fun _ t => ∀ r : Fin apColSize, (r : ℕ) < d * d →
      t.cams .a0 r = randomA .mult 11 (r / d * d + (d - 1)) ∧
        t.cams .b0 r = randomB .mult 11 ((d - 1) * d + r % d) := by
  rw [matmulEvaluation_eq]
  apply Ensures.bind (fillRandomVectors_filled .mult 11 s)
  intro _ s₁ h₁
  refine .step rfl ?_
  apply Ensures.bind (apMmV4_laidOut hp hd _)
  intro _ s₂ h₂
  refine .step rfl ?_
  apply (comparison_compared hd _).mono
  intro v t ht r hr
  obtain ⟨hi, hj, -⟩ := exists_rowMajor hr
  have hpos : d - 1 < d := by omega
  have hia := rowMajor_lt hi hpos
  have hjb := rowMajor_lt hpos hj
  rw [ht.cams, ← h₁.a _ (show r / d * d + (d - 1) < randomVectorsSize by omega),
    ← h₁.b _ (show (d - 1) * d + r % d < randomVectorsSize by omega)]
  exact h₂ r hr

/-- Row by row, what is added to `A_1`. -/
theorem matmulEvaluation_added (hp : p.MultiplyAdd) (hd : d * d ≤ randomVectorsSize) (s : St) :
    Ensures (matmulEvaluation p d) s fun _ t => ∀ r : Fin apColSize, t.cams .a1 r =
      s.cams .a1 r + if (r : ℕ) < d * d then
        productEntry d d (randomA .mult 11) (randomB .mult 11) (r / d) (r % d) else
          d • (s.cams .a0 r * s.cams .b0 r) := by
  apply (matmulEvaluation_steps hp hd s).mono
  rintro v t ⟨s₁, s₂, h₁, h₂, ht⟩ r
  rw [ht.cams, ← h₁.cams]
  by_cases hr : (r : ℕ) < d * d
  · obtain ⟨hi, hj, -⟩ := exists_rowMajor hr
    rw [h₂.cols r hr, if_pos hr]
    congr 1
    exact productEntry_congr hi hj (fun x hx => h₁.a x (by omega)) fun x hx => h₁.b x (by omega)
  · rw [(h₂.rest r (Nat.not_lt.mp hr)).2.2, if_neg hr]

/-- It returns `1` or `0`. -/
theorem matmulEvaluation_value (s : St) :
    IfReturns (matmulEvaluation p d) s fun v _ => v = 1 ∨ v = 0 := by
  have hany {α : Type} {m : Prog α} {s : St} : IfReturns m s fun _ _ => True := fun _ _ _ => trivial
  refine hany.bind fun _ _ _ => hany.bind fun _ _ _ => hany.bind fun _ _ _ =>
    hany.bind fun _ _ _ => hany.bind fun _ _ _ => hany.bind fun _ _ _ => hany.bind fun _ _ _ =>
      hany.bind fun _ _ _ => hany.bind fun _ _ _ => hany.bind fun _ _ _ => hany.bind fun _ _ _ => ?_
  intro v t hr
  split at hr
  · cases hr
    exact .inl rfl
  · cases hr
    exact .inr rfl

/-- **A call is a step of the machine.** -/
theorem matmulEvaluation_refines (hp : p.MultiplyAdd) (hd : d * d ≤ randomVectorsSize) :
    Simulates Shows (matmulEvaluation p d) (Leftover.call d) := by
  intro s x hs
  have hall := ((matmulEvaluation_evaluated hp hd s).and (matmulEvaluation_laidOut hp hd s)).and
    (matmulEvaluation_added hp hd s)
  obtain ⟨v, t, hrun, ⟨⟨heval, hlaid⟩, hadd⟩⟩ := hall
  have hshows : Shows t (x.step d) := by
    constructor
    · funext r
      by_cases hr : (r : ℕ) < d * d
      · rw [(hlaid r hr).1, Leftover.step_a0, if_pos hr]
      · rw [(heval.rest r (Nat.not_lt.mp hr)).1, hs.a0, Leftover.step_a0, if_neg hr]
    · funext r
      by_cases hr : (r : ℕ) < d * d
      · rw [(hlaid r hr).2, Leftover.step_b0, if_pos hr]
      · rw [(heval.rest r (Nat.not_lt.mp hr)).2, hs.b0, Leftover.step_b0, if_neg hr]
    · funext r
      rw [hadd r, hs.a0, hs.b0, hs.a1, Leftover.step_a1]
  have hv : v = x.verdict d := by
    have hiff : v = 1 ↔ columnSum (x.step d).a1 = productSum d := by
      rw [heval.result, hshows.a1]
    rw [Leftover.verdict]
    split
    · next h => exact hiff.mpr h
    · next h => exact (matmulEvaluation_value s v t hrun).resolve_left (mt hiff.mp h)
  rw [hrun, hv]
  exact .ok _ hshows

/-! ### Runs -/

theorem warmupAp_shows (hr : p.Resets) (s : St) :
    Ensures (warmupAp p) s fun _ t => Shows t .zero := by
  apply (warmupAp_ran hr s).mono
  intro _ t ht
  constructor <;> rw [ht.cams] <;> rfl

/-- **Every run.** After a warm-up, and whatever was there before it, any sequence of calls returns
what the machine says and leaves its columns. -/
theorem evaluations_refine (hp : p.MultiplyAdd) {ds : List ℕ}
    (hds : ∀ d ∈ ds, d * d ≤ randomVectorsSize) (s : St) :
    Ensures (do warmupAp p; ds.mapM (matmulEvaluation p)) s fun vs t =>
      vs = Leftover.verdicts ds .zero ∧ Shows t (Leftover.run ds .zero) := by
  apply Ensures.bind (warmupAp_shows hp.resets s)
  intro _ s₁ hshows
  have hsim : Simulates Shows (ds.mapM (matmulEvaluation p)) (ds.mapM Leftover.call) :=
    .mapM fun d hd => matmulEvaluation_refines hp (hds d hd)
  have hmachine : Ensures (ds.mapM Leftover.call) .zero fun vs x =>
      vs = Leftover.verdicts ds .zero ∧ x = Leftover.run ds .zero :=
    .of_run (Leftover.mapM_call ds .zero) ⟨rfl, rfl⟩
  apply (hsim.ensures hshows hmachine).mono
  rintro vs t ⟨_, ⟨rfl, rfl⟩, ht⟩
  exact ⟨rfl, ht⟩

/-- After calls with a large and a small dimension. -/
theorem evaluations_refine_mixed :
    Ensures (do warmupAp (.reference 1); [10, 3, 22, 3].mapM (matmulEvaluation (.reference 1)))
      (.rest someMem) fun vs t => vs = Leftover.verdicts [10, 3, 22, 3] .zero ∧
        Shows t (Leftover.run [10, 3, 22, 3] .zero) :=
  evaluations_refine (Platform.reference_multiplyAdd 1) (by decide) _

/-! ### One dimension -/

/-- The columns after `n` calls with dimension `d`: `A_1` holds the product `n` times. -/
structure Leftover.Times (d n : ℕ) (x : Leftover) : Prop where
  product : ∀ r : Fin apColSize, (r : ℕ) < d * d → x.a1 r =
    n • productEntry d d (randomA .mult 11) (randomB .mult 11) (r / d) (r % d)
  rest : ∀ r : Fin apColSize, d * d ≤ r → x.a0 r = 0 ∧ x.b0 r = 0 ∧ x.a1 r = 0

namespace Leftover.Times

variable {n : ℕ} {x : Leftover}

theorem zero (d : ℕ) : Times d 0 .zero :=
  ⟨fun _ _ => (zero_nsmul _).symm, fun _ _ => ⟨rfl, rfl, rfl⟩⟩

theorem step (h : Times d n x) : Times d (n + 1) (x.step d) := by
  constructor
  · intro r hr
    rw [step_a1, if_pos hr, h.product r hr, succ_nsmul]
  · intro r hr
    obtain ⟨ha, hb, hacc⟩ := h.rest r hr
    have hr' : ¬ (r : ℕ) < d * d := Nat.not_lt.mpr hr
    rw [step_a0, step_b0, step_a1, if_neg hr', if_neg hr', if_neg hr', ha, hb, hacc, zero_mul,
      smul_zero, add_zero]
    exact ⟨rfl, rfl, rfl⟩

/-- The checksum of `A_1`. -/
theorem columnSum_eq (h : Times d n x) (hd : d * d ≤ randomVectorsSize) :
    columnSum x.a1 = n • productSum d := by
  have hrow : ∀ r : Fin apColSize, x.a1 r = if (r : ℕ) < d * d then
      n • productEntry d d (randomA .mult 11) (randomB .mult 11) (r / d) (r % d) else 0 := by
    intro r
    by_cases hr : (r : ℕ) < d * d
    · rw [if_pos hr, h.product r hr]
    · rw [if_neg hr, (h.rest r (Nat.not_lt.mp hr)).2.2]
  rw [columnSum, sum_congr rfl fun r _ => hrow r,
    Fin.sum_univ_eq_sum_range (fun x => if x < d * d then
      n • productEntry d d (randomA .mult 11) (randomB .mult 11) (x / d) (x % d) else 0),
    sum_range_ite_lt hd, ← smul_sum]
  rfl

theorem verdict_eq (h : Times d n x) (hd : d * d ≤ randomVectorsSize) :
    x.verdict d = if n • productSum d = 0 then 1 else 0 := by
  rw [verdict, h.step.columnSum_eq hd, succ_nsmul]
  exact if_congr add_eq_right rfl rfl

/-- The calls that follow. -/
theorem verdicts_replicate (hd : d * d ≤ randomVectorsSize) (m : ℕ) (h : Times d n x) :
    verdicts (List.replicate m d) x =
      (List.range' n m).map fun k => if k • productSum d = 0 then 1 else 0 := by
  induction m generalizing n x with
  | zero => rfl
  | succ m ih =>
    rw [List.replicate_succ, verdicts, h.verdict_eq hd, ih h.step]
    rfl

theorem run_replicate (m : ℕ) (h : Times d n x) :
    Times d (n + m) (run (List.replicate m d) x) := by
  induction m generalizing n x with
  | zero => exact h
  | succ m ih =>
    have hstep := ih h.step
    rwa [Nat.add_right_comm] at hstep

end Leftover.Times

/-- **The same call again and again.** After a warm-up, of `n` calls with one dimension the `k`th,
counted from `0`, returns `1` exactly when `k` times the checksum of the product is `0`, and in
the end `A_1` holds the product `n` times. -/
theorem evaluations_repeated (hp : p.MultiplyAdd) (hd : d * d ≤ randomVectorsSize) (n : ℕ)
    (s : St) :
    Ensures (do warmupAp p; (List.replicate n d).mapM (matmulEvaluation p)) s fun vs t =>
      vs = (List.range n).map (fun k => if k • productSum d = 0 then 1 else 0) ∧
      ∀ r : Fin apColSize, (r : ℕ) < d * d → t.cams .a1 r =
        n • productEntry d d (randomA .mult 11) (randomB .mult 11) (r / d) (r % d) := by
  have hds : ∀ x ∈ List.replicate n d, x * x ≤ randomVectorsSize := fun x hx =>
    (List.eq_of_mem_replicate hx) ▸ hd
  apply (evaluations_refine hp hds s).mono
  rintro vs t ⟨rfl, ht⟩
  have hzero := Leftover.Times.zero d
  refine ⟨?_, fun r hr => ?_⟩
  · rw [hzero.verdicts_replicate hd n, List.range_eq_range']
  · rw [ht.a1, (hzero.run_replicate n).product r hr, Nat.zero_add]

theorem evaluations_repeated_ten :
    Ensures (do warmupAp (.reference 3)
                (List.replicate 5 10).mapM (matmulEvaluation (.reference 3))) (.rest someMem)
      fun vs t => vs = (List.range 5).map (fun k => if k • productSum 10 = 0 then 1 else 0) ∧
        ∀ r : Fin apColSize, (r : ℕ) < 10 * 10 → t.cams .a1 r =
          5 • productEntry 10 10 (randomA .mult 11) (randomB .mult 11) (r / 10) (r % 10) :=
  evaluations_repeated (Platform.reference_multiplyAdd 3) (by decide) 5 _

/-! ### `main` -/

/-- **`main`.** On every processor that multiplies and adds, and from every state, it returns `1`,
and both `A_1` and `C` hold the exact product of the two 10 × 10 matrices it generates. -/
theorem main_product (hp : p.MultiplyAdd) (s : St) : Ensures (main p) s fun v t => v = 1 ∧
    ∀ i < 10, ∀ j < 10, (t.row .a1 (i * 10 + j)).toNat = generatedEntry 10 i j ∧
      (p.vec t .c (i * 10 + j)).toNat = generatedEntry 10 i j := by
  have hd : 10 * 10 ≤ randomVectorsSize := by decide
  apply Ensures.bind (warmupAp_shows hp.resets s)
  intro _ s₁ h₁
  have hmachine : Ensures (Leftover.call 10) .zero fun v _ => v = Leftover.verdict 10 .zero :=
    .of_run rfl rfl
  have hcall := matmulEvaluation_refines hp hd |>.ensures h₁ hmachine
  apply (hcall.and (matmulEvaluation_exact hp hd s₁)).mono
  rintro v t ⟨⟨_, hv, -⟩, hc, ha⟩
  have hclean : ∀ x < 10 * 10, s₁.row .a1 x = 0 := fun x hx => by
    rw [St.row_eq s₁ .a1 (Nat.lt_trans hx (by decide)), h₁.a1]
    rfl
  refine ⟨?_, fun i hi j hj => ⟨ha.mpr hclean i hi j hj, hc i hi j hj⟩⟩
  rw [hv, (Leftover.Times.zero 10).verdict_eq hd, zero_nsmul, if_pos rfl]

theorem main_product_reference : Ensures (main (.reference 4)) (.rest someMem) fun v t => v = 1 ∧
    ∀ i < 10, ∀ j < 10, (t.row .a1 (i * 10 + j)).toNat = generatedEntry 10 i j ∧
      ((Platform.reference 4).vec t .c (i * 10 + j)).toNat = generatedEntry 10 i j :=
  main_product (Platform.reference_multiplyAdd 4) _

end RocketAp.Kernels
