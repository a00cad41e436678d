import RocketAp.Kernels.RowKernels

/-!
# A product as a sum of outer products

`ap_mm_v4` lays out column `t` of `A` along the rows of `A_0` and row `t` of `B` along the
rows of `B_0`, one element for each entry of the product (`ColsFilled`), multiplies them
and adds the outer product to `A_1` (`PassDone`). Rows from `m * n` on are not laid out:
what they held is multiplied and added again in every pass.

The loop goes to `m` and reads `A` with rows of `m`, where the product has rows of `k` and
`k` factors. `apMmV4_iff`: it agrees with `matmul_cpu` for all contents exactly when
`m = k`, and for given contents exactly when it stays in `A` and the sums happen to agree.
-/

namespace RocketAp.Kernels

open ProgramLogic Device Hal Finset

variable {p : Platform} {m k n : ℕ}

/-! ### What is read -/

/-- The reads of one entry. -/
def entryReads (m n t i j : ℕ) : List Access := [.elem .a (i * m + t), .elem .b (t * n + j)]

/-- The reads of `mm_cols_setup`. -/
def setupReads (m n t : ℕ) : List Access :=
  (List.range m).flatMap fun i => (List.range n).flatMap fun j => entryReads m n t i j

/-- The reads of `ap_mm_v4`. -/
def v4Reads (m n : ℕ) : List Access := (List.range m).flatMap fun t => setupReads m n t

/-- A loop whose body logs `f i` for `i` logs them in order. -/
theorem forUpTo_reads {l : ℕ} {body : ℕ → Prog Unit} {f : ℕ → List Access}
    (h : ∀ i < l, ∀ s, Ensures (body i) s fun _ u => u.reads = s.reads ++ f i) (s : St) :
    Ensures (forUpTo l body) s fun _ u => u.reads = s.reads ++ (List.range l).flatMap f := by
  refine Ensures.forUpTo (fun i (t : St) => t.reads = s.reads ++ (List.range i).flatMap f) ?_
    fun i hi t ht => ?_
  · simp
  · apply (h i hi t).mono
    intro _ u hu
    rw [hu, ht, List.range_succ, List.flatMap_append, List.flatMap_singleton, List.append_assoc]

/-- The four statements for one entry. The element of `A` is read first, wherever it is; the
element of `B` after a store. -/
theorem entry_done (x y : ℕ) {q : ℕ} (hq : q < apColSize) (s : St) :
    Ensures (do let v ← p.readVec .a x
                store (Cam.a0.base + q) v
                let w ← p.readVec .b y
                store (Cam.b0.base + q) w) s fun _ u =>
      u.reads = s.reads ++ [.elem .a x, .elem .b y] ∧
        (y < randomVectorsSize → Changed s u
          (Function.update
            (Function.update s.cams .a0 (Function.update (s.cams .a0) ⟨q, hq⟩ (p.vec s .a x)))
            .b0 (Function.update (s.cams .b0) ⟨q, hq⟩ (p.vec s .b y)))) := by
  refine .step rfl (.bind (store_column .a0 hq _ _) fun _ t ⟨ht, htr⟩ => .step rfl ?_)
  refine (store_column .b0 hq _ _).mono fun _ u ⟨hu, hur⟩ => ⟨?_, fun hy => ?_⟩
  · rw [hur]
    show t.reads ++ _ = _
    rw [htr, List.append_assoc, List.singleton_append]
  · have hvec : p.vec t .b y = p.vec s .b y := ht.vec .b hy
    have htc : t.cams = Function.update s.cams .a0
      (Function.update (s.cams .a0) ⟨q, hq⟩ (p.vec s .a x)) := ht.cams
    have huc : u.cams = Function.update t.cams .b0
      (Function.update (t.cams .b0) ⟨q, hq⟩ (p.vec t .b y)) := hu.cams
    rw [hvec, htc, Function.update_of_ne (a := Cam.b0) (by decide)] at huc
    exact ⟨huc, fun a ha => (hu.outside a ha).trans (ht.outside a ha)⟩

theorem mmColsSetup_reads (hmn : m * n ≤ apColSize) (t : ℕ) (s : St) :
    Ensures (mmColsSetup p m n t) s fun _ u => u.reads = s.reads ++ setupReads m n t := by
  refine forUpTo_reads (fun i hi s => forUpTo_reads (fun j hj s => ?_) s) s
  have hlt := rowMajor_lt hi hj
  exact (entry_done _ _ (by omega) s).mono fun _ _ h => h.1

/-- `ap_mm_v4` returns, and this is what it reads of `r_v_mgmt`. -/
theorem apMmV4_reads (hp : p.MultiplyAdd) (hmn : m * n ≤ apColSize) (s : St) :
    Ensures (apMmV4 p m k n) s fun _ u => u.reads = s.reads ++ v4Reads m n := by
  refine forUpTo_reads (fun t ht s => ?_) s
  apply Ensures.bind (mmColsSetup_reads hmn t s)
  intro _ s₁ h₁
  apply Ensures.bind (rowwise_left_ran hp.triggers hp.resets hp.mult s₁)
  intro _ s₂ h₂
  apply Ensures.bind (addD_targetA_ran hp.triggers hp.resets hp.addD s₂)
  intro _ s₃ h₃
  apply (apFlushC0_ran hp.resets (h₃.control ▸ noReset_zero)).mono
  intro _ u h₄
  rw [h₄.reads, h₃.reads, h₂.reads, h₁]

theorem mem_v4Reads {x : Access} : x ∈ v4Reads m n ↔ ∃ t < m, ∃ i < m, ∃ j < n,
    x = .elem .a (i * m + t) ∨ x = .elem .b (t * n + j) := by
  simp [v4Reads, setupReads, entryReads]

/-! ### The columns of a pass -/

/-- The first `q` entries are laid out. -/
structure ColsFilled (p : Platform) (m n t q : ℕ) (s u : St) : Prop where
  a0 : ∀ r : Fin apColSize, u.cams .a0 r =
    if (r : ℕ) < q then p.vec s .a (r / n * m + t) else s.cams .a0 r
  b0 : ∀ r : Fin apColSize, u.cams .b0 r =
    if (r : ℕ) < q then p.vec s .b (t * n + r % n) else s.cams .b0 r
  kept : ∀ c, c ≠ .a0 → c ≠ .b0 → u.cams c = s.cams c
  outside : ∀ a, ¬ InColumns a → u.mem a = s.mem a

/-- A column set row by row, upwards. -/
theorem update_succ {x y : Column} {f : ℕ → UInt8} {q : ℕ} (hq : q < apColSize)
    (h : ∀ r : Fin apColSize, x r = if (r : ℕ) < q then f r else y r) (r : Fin apColSize) :
    Function.update x ⟨q, hq⟩ (f q) r = if (r : ℕ) < q + 1 then f r else y r := by
  by_cases hr : r = ⟨q, hq⟩
  · subst hr
    rw [Function.update_self, if_pos (Nat.lt_add_one q)]
  · have hne : (r : ℕ) ≠ q := fun e => hr (Fin.ext e)
    rw [Function.update_of_ne hr, h r]
    exact if_congr (by omega) rfl rfl

/-- An entry more. -/
theorem ColsFilled.step {t i j : ℕ} {s u : St} (hj : j < n) (hq : i * n + j < apColSize)
    (ha : i * m + t < randomVectorsSize) (hb : t * n + j < randomVectorsSize)
    (hu : ColsFilled p m n t (i * n + j) s u) :
    Ensures (do let x ← p.readVec .a (i * m + t)
                store (Cam.a0.base + (i * n + j)) x
                let y ← p.readVec .b (t * n + j)
                store (Cam.b0.base + (i * n + j)) y) u fun _ v =>
      ColsFilled p m n t (i * n + (j + 1)) s v := by
  apply (entry_done _ _ hq u).mono
  rintro _ v ⟨_, hv⟩
  obtain ⟨hcams, hout⟩ := hv hb
  rw [Platform.vec_eq_of_outside hu.outside .a ha,
    Platform.vec_eq_of_outside hu.outside .b hb] at hcams
  constructor
  · intro r
    rw [hcams, Function.update_of_ne (by decide), Function.update_self, ← Nat.add_assoc]
    have h := update_succ (f := fun r => p.vec s .a (r / n * m + t)) hq hu.a0 r
    rwa [rowMajor_div hj] at h
  · intro r
    rw [hcams, Function.update_self, ← Nat.add_assoc]
    have h := update_succ (f := fun r => p.vec s .b (t * n + r % n)) hq hu.b0 r
    rwa [rowMajor_mod hj] at h
  · intro c hca hcb
    rw [hcams, Function.update_of_ne hcb, Function.update_of_ne hca, hu.kept c hca hcb]
  · intro a ha
    exact (hout a ha).trans (hu.outside a ha)

/-- `mm_cols_setup` lays out every entry. -/
theorem mmColsSetup_filled {t : ℕ} (ht : t < m) (hmm : m * m ≤ randomVectorsSize)
    (hmn : m * n ≤ randomVectorsSize) (s : St) :
    Ensures (mmColsSetup p m n t) s fun _ u => ColsFilled p m n t (m * n) s u := by
  refine Ensures.forUpTo (fun i u => ColsFilled p m n t (i * n) s u) ?_ fun i hi u hu => ?_
  · exact ⟨fun r => by simp, fun r => by simp, fun _ _ _ => rfl, fun _ _ => rfl⟩
  · rw [Nat.succ_mul]
    refine Ensures.forUpTo (fun j v => ColsFilled p m n t (i * n + j) s v) hu fun j hj v hv => ?_
    have hij : i * n + j < m * n := rowMajor_lt hi hj
    have hit : i * m + t < m * m := rowMajor_lt hi ht
    have htj : t * n + j < m * n := rowMajor_lt ht hj
    exact hv.step hj (Nat.lt_of_lt_of_le hij hmn) (by omega) (by omega)

/-- A pass: the laid out product is added to `A_1`, and so is the product of the rows that
were not laid out. -/
structure PassDone (p : Platform) (m n t : ℕ) (s u : St) : Prop where
  cols : ∀ r : Fin apColSize, (r : ℕ) < m * n → u.cams .a1 r =
    s.cams .a1 r + p.vec s .a (r / n * m + t) * p.vec s .b (t * n + r % n)
  rest : ∀ r : Fin apColSize, m * n ≤ r → u.cams .a0 r = s.cams .a0 r ∧
    u.cams .b0 r = s.cams .b0 r ∧
    u.cams .a1 r = s.cams .a1 r + s.cams .a0 r * s.cams .b0 r
  outside : ∀ a, ¬ InColumns a → u.mem a = s.mem a

/-- The body of the loop of `ap_mm_v4`. -/
def v4Pass (p : Platform) (m n t : ℕ) : Prog Unit := do
  mmColsSetup p m n t
  apTriggerComputingWWait p .mult .horizontal .left
  apTriggerComputingWWaitTargetA p .addD .horizontal 0b011
  apFlushC0 p

theorem apMmV4_eq : apMmV4 p m k n = forUpTo m (v4Pass p m n) := rfl

theorem v4Pass_done (hp : p.MultiplyAdd) {t : ℕ} (ht : t < m) (hmm : m * m ≤ randomVectorsSize)
    (hmn : m * n ≤ randomVectorsSize) (s : St) :
    Ensures (v4Pass p m n t) s fun _ u => PassDone p m n t s u := by
  apply Ensures.bind (mmColsSetup_filled ht hmm hmn s)
  intro _ s₁ h₁
  apply Ensures.bind (rowwise_left_ran hp.triggers hp.resets hp.mult s₁)
  intro _ s₂ h₂
  apply Ensures.bind (addD_targetA_ran hp.triggers hp.resets hp.addD s₂)
  intro _ s₃ h₃
  apply (apFlushC0_ran hp.resets (h₃.control ▸ noReset_zero)).mono
  intro _ u h₄
  have hout := ((h₂.trans h₃).trans h₄).outside
  have hkeep : ∀ c, c ≠ .a1 → c ≠ .c0 → u.cams c = s₁.cams c := by
    intro c ha hc
    rw [h₄.cams, Function.update_of_ne hc, h₃.cams, Function.update_of_ne ha, h₂.cams,
      Function.update_of_ne hc]
  have hacc : ∀ r, u.cams .a1 r = s.cams .a1 r + s₁.cams .a0 r * s₁.cams .b0 r := by
    intro r
    rw [h₄.cams, Function.update_of_ne (by decide), h₃.cams, Function.update_self, h₂.cams,
      Function.update_self, Function.update_of_ne (by decide), h₁.kept .a1 (by decide) (by decide)]
    rfl
  constructor
  · intro r hr
    rw [hacc, h₁.a0, h₁.b0, if_pos hr, if_pos hr]
  · intro r hr
    have hr' : ¬ (r : ℕ) < m * n := Nat.not_lt.mpr hr
    refine ⟨?_, ?_, ?_⟩
    · rw [hkeep .a0 (by decide) (by decide), h₁.a0, if_neg hr']
    · rw [hkeep .b0 (by decide) (by decide), h₁.b0, if_neg hr']
    · rw [hacc, h₁.a0, h₁.b0, if_neg hr', if_neg hr']
  · intro a ha
    exact (hout a ha).trans (h₁.outside a ha)

/-! ### The passes -/

/-- What `t` passes do, from any columns. -/
structure Passes (p : Platform) (m n t : ℕ) (s u : St) : Prop where
  cols : ∀ r : Fin apColSize, (r : ℕ) < m * n → u.cams .a1 r =
    s.cams .a1 r + productTerms m n (p.vec s .a) (p.vec s .b) t (r / n) (r % n)
  rest : ∀ r : Fin apColSize, m * n ≤ r → u.cams .a0 r = s.cams .a0 r ∧
    u.cams .b0 r = s.cams .b0 r ∧
    u.cams .a1 r = s.cams .a1 r + t • (s.cams .a0 r * s.cams .b0 r)
  outside : ∀ a, ¬ InColumns a → u.mem a = s.mem a

theorem Passes.step {t : ℕ} {s u v : St} (ht : t < m) (hmm : m * m ≤ randomVectorsSize)
    (hmn : m * n ≤ randomVectorsSize) (hu : Passes p m n t s u) (hv : PassDone p m n t u v) :
    Passes p m n (t + 1) s v := by
  constructor
  · intro r hr
    obtain ⟨hi, hj, -⟩ := exists_rowMajor hr
    have hit := rowMajor_lt hi ht
    have htj := rowMajor_lt ht hj
    rw [hv.cols r hr, hu.cols r hr, productTerms_succ, add_assoc,
      Platform.vec_eq_of_outside hu.outside .a (by omega),
      Platform.vec_eq_of_outside hu.outside .b (by omega)]
  · intro r hr
    obtain ⟨ha, hb, hacc⟩ := hu.rest r hr
    obtain ⟨ha', hb', hacc'⟩ := hv.rest r hr
    refine ⟨ha'.trans ha, hb'.trans hb, ?_⟩
    rw [hacc', ha, hb, hacc, succ_nsmul, add_assoc]
  · intro a ha
    exact (hv.outside a ha).trans (hu.outside a ha)

/-- The first `l` passes. -/
theorem v4Passes_done (hp : p.MultiplyAdd) {l : ℕ} (hl : l ≤ m) (hmm : m * m ≤ randomVectorsSize)
    (hmn : m * n ≤ randomVectorsSize) (s : St) :
    Ensures (forUpTo l (v4Pass p m n)) s fun _ u => Passes p m n l s u := by
  refine Ensures.forUpTo (fun t u => Passes p m n t s u) ?_ fun t ht u hu => ?_
  · exact ⟨fun r _ => by simp, fun r _ => by simp, fun _ _ => rfl⟩
  · have htm : t < m := Nat.lt_of_lt_of_le ht hl
    exact (v4Pass_done hp htm hmm hmn u).mono fun _ v hv => hu.step htm hmm hmn hv

/-- **`ap_mm_v4`**, from any columns. -/
theorem apMmV4_passes (hp : p.MultiplyAdd) (hmm : m * m ≤ randomVectorsSize)
    (hmn : m * n ≤ randomVectorsSize) (s : St) :
    Ensures (apMmV4 p m k n) s fun _ u => Passes p m n m s u := by
  rw [apMmV4_eq]
  exact v4Passes_done hp (Nat.le_refl m) hmm hmn s

/-! ### The CPU -/

/-- `matmul_cpu` has written the first `q` entries. -/
structure CpuFilled (p : Platform) (k n q : ℕ) (s u : St) : Prop where
  c : ∀ x < randomVectorsSize, p.vec u .c x =
    if x < q then productEntry k n (p.vec s .a) (p.vec s .b) (x / n) (x % n) else p.vec s .c x
  others : ∀ w, w ≠ .c → ∀ x < randomVectorsSize, p.vec u w x = p.vec s w x
  cams : u.cams = s.cams

/-- The first `t` rounds of the inner loop of `matmul_cpu`. -/
def cpuTerms (p : Platform) (k n i j t : ℕ) : Prog UInt8 :=
  forAcc t 0 fun l sum => do
    let x ← p.readVec .a (i * k + l)
    let y ← p.readVec .b (l * n + j)
    return sum + x * y

/-- They add up the first terms of an entry. -/
theorem cpuTerms_run (i j t : ℕ) (s : St) : Ensures (cpuTerms p k n i j t) s fun sum u =>
    sum = productTerms k n (p.vec s .a) (p.vec s .b) t i j ∧ u.mem = s.mem := by
  refine Ensures.forAcc (fun l sum (u : St) =>
    sum = productTerms k n (p.vec s .a) (p.vec s .b) l i j ∧ u.mem = s.mem) ⟨rfl, rfl⟩ ?_
  rintro l - sum u ⟨rfl, hu⟩
  refine .step rfl (.step rfl (.pure ⟨?_, hu⟩))
  have ha : p.vec u .a (i * k + l) = p.vec s .a (i * k + l) := congrFun hu _
  have hb : p.vec u .b (l * n + j) = p.vec s .b (l * n + j) := congrFun hu _
  rw [productTerms_succ, ← ha, ← hb]
  rfl

/-- An entry more. -/
theorem CpuFilled.step {i j : ℕ} {s u : St} (hi : i < m) (hj : j < n)
    (hmk : m * k ≤ randomVectorsSize) (hkn : k * n ≤ randomVectorsSize)
    (hmn : m * n ≤ randomVectorsSize) (hu : CpuFilled p k n (i * n + j) s u) :
    Ensures (do
        let sum ← cpuTerms p k n i j k
        p.writeVec .c (i * n + j) sum) u fun _ v => CpuFilled p k n (i * n + (j + 1)) s v := by
  have hij : i * n + j < m * n := rowMajor_lt hi hj
  apply Ensures.bind (cpuTerms_run i j k u)
  rintro sum v ⟨hsum, hv⟩
  apply (p.writeVec_ensures .c sum (by omega) v).mono
  rintro _ w ⟨hcams, hw⟩
  have hentry : sum = productEntry k n (p.vec s .a) (p.vec s .b) i j := by
    rw [hsum]
    exact productEntry_congr hi hj (fun x hx => hu.others .a nofun x (by omega))
      fun x hx => hu.others .b nofun x (by omega)
  have hvec : ∀ w x, p.vec v w x = p.vec u w x := fun w x => congrFun hv _
  constructor
  · intro x hx
    rw [hw .c x hx, hvec, hu.c x hx, ← Nat.add_assoc]
    by_cases hxq : x = i * n + j
    · rw [if_pos ⟨rfl, hxq⟩, if_pos (by omega), hxq, rowMajor_div hj, rowMajor_mod hj, hentry]
    · rw [if_neg fun h => hxq h.2]
      exact if_congr (by omega) rfl rfl
  · intro w hne x hx
    rw [hw _ x hx, if_neg fun h => hne h.1, hvec, hu.others _ hne x hx]
  · rw [hcams, ← hu.cams, St.cams, hv]
    rfl

/-- **`matmul_cpu`** writes the product. -/
theorem matmulCpu_filled (hmk : m * k ≤ randomVectorsSize) (hkn : k * n ≤ randomVectorsSize)
    (hmn : m * n ≤ randomVectorsSize) (s : St) :
    Ensures (matmulCpu p m k n) s fun _ u => CpuFilled p k n (m * n) s u := by
  refine Ensures.forUpTo (fun i u => CpuFilled p k n (i * n) s u) ?_ fun i hi u hu => ?_
  · exact ⟨fun x _ => by simp, fun _ _ _ _ => rfl, rfl⟩
  · rw [Nat.succ_mul]
    exact Ensures.forUpTo (fun j v => CpuFilled p k n (i * n + j) s v) hu fun j hj v hv =>
      hv.step hi hj hmk hkn hmn

/-! ### The two -/

/-- No element that was read between `s` and `t` is outside its vector. -/
def ReadsInBounds (s t : St) : Prop :=
  ∃ l, t.reads = s.reads ++ l ∧ ∀ v i, .elem v i ∈ l → i < randomVectorsSize

/-- What `ap_mm_v4` is for: `A_1` holds the product, and it is what `matmul_cpu` then writes
to `r_v_mgmt.C`; and no read is out of bounds. -/
def AgreesWithCpu (p : Platform) (m k n : ℕ) (s : St) : Prop :=
  Ensures (apMmV4 p m k n) s fun _ t => ReadsInBounds s t ∧
    Ensures (matmulCpu p m k n) t fun _ u => ∀ i < m, ∀ j < n,
      t.row .a1 (i * n + j) = ∑ l ∈ range k, p.vec s .a (i * k + l) * p.vec s .b (l * n + j) ∧
        p.vec u .c (i * n + j) = t.row .a1 (i * n + j)

/-- The sums that `ap_mm_v4` computes are those of the product. -/
def SumsAgree (p : Platform) (m k n : ℕ) (s : St) : Prop :=
  ∀ i < m, ∀ j < n, ∑ t ∈ range m, p.vec s .a (i * m + t) * p.vec s .b (t * n + j) =
    ∑ l ∈ range k, p.vec s .a (i * k + l) * p.vec s .b (l * n + j)

/-- The reads are in bounds exactly when the square of `m` fits. -/
theorem readsInBounds_iff (hm : 1 ≤ m) (hn : 1 ≤ n) (hmn : m * n ≤ randomVectorsSize)
    {s t : St} (h : t.reads = s.reads ++ v4Reads m n) :
    ReadsInBounds s t ↔ m * m ≤ randomVectorsSize := by
  constructor
  · rintro ⟨l, hl, hin⟩
    obtain rfl : v4Reads m n = l := List.append_cancel_left (h.symm.trans hl)
    obtain ⟨q, rfl⟩ : ∃ q, m = q + 1 := ⟨m - 1, by omega⟩
    have hmem : Access.elem .a (q * (q + 1) + q) ∈ v4Reads (q + 1) n :=
      mem_v4Reads.mpr ⟨q, by omega, q, by omega, 0, hn, Or.inl rfl⟩
    have hlt := hin _ _ hmem
    rw [Nat.succ_mul]
    omega
  · intro hmm
    refine ⟨v4Reads m n, h, fun v x hx => ?_⟩
    obtain ⟨t, ht, i, hi, j, hj, hx | hx⟩ := mem_v4Reads.mp hx
    · cases hx
      exact Nat.lt_of_lt_of_le (rowMajor_lt hi ht) hmm
    · cases hx
      exact Nat.lt_of_lt_of_le (rowMajor_lt ht hj) hmn

/-- The rows of `A_1` after the kernel, from columns that are zero. -/
theorem Passes.row_eq {s t : St} (ht : Passes p m n m s t) (hs : s.cams = fun _ _ => 0)
    (hmn : m * n ≤ randomVectorsSize) {i j : ℕ} (hi : i < m) (hj : j < n) :
    t.row .a1 (i * n + j) =
      ∑ l ∈ range m, p.vec s .a (i * m + l) * p.vec s .b (l * n + j) := by
  have hij : i * n + j < m * n := rowMajor_lt hi hj
  rw [St.row_eq t .a1 (Nat.lt_of_lt_of_le hij hmn), ht.cols _ hij, hs, zero_add,
    rowMajor_div hj, rowMajor_mod hj]
  rfl

/-- What `matmul_cpu` writes after the kernel: the vectors are what they were before it. -/
theorem CpuFilled.entry_eq {s t u : St} (hu : CpuFilled p k n (m * n) t u)
    (ht : Passes p m n m s t) (hmk : m * k ≤ randomVectorsSize) (hkn : k * n ≤ randomVectorsSize)
    (hmn : m * n ≤ randomVectorsSize) {i j : ℕ} (hi : i < m) (hj : j < n) :
    p.vec u .c (i * n + j) =
      ∑ l ∈ range k, p.vec s .a (i * k + l) * p.vec s .b (l * n + j) := by
  have hij : i * n + j < m * n := rowMajor_lt hi hj
  rw [hu.c _ (by omega), if_pos hij, rowMajor_div hj, rowMajor_mod hj]
  apply productEntry_congr hi hj
  · intro x hx
    exact Platform.vec_eq_of_outside ht.outside .a (by omega)
  · intro x hx
    exact Platform.vec_eq_of_outside ht.outside .b (by omega)

theorem agreesWithCpu_iff (hp : p.MultiplyAdd) (hm : 1 ≤ m) (hn : 1 ≤ n)
    (hmk : m * k ≤ randomVectorsSize) (hkn : k * n ≤ randomVectorsSize)
    (hmn : m * n ≤ randomVectorsSize) {s : St} (hs : s.cams = fun _ _ => 0) :
    AgreesWithCpu p m k n s ↔ m * m ≤ randomVectorsSize ∧ SumsAgree p m k n s := by
  have hreads := apMmV4_reads (k := k) hp hmn s
  by_cases hmm : m * m ≤ randomVectorsSize
  · obtain ⟨_, t, hrun, ht, htr⟩ := (apMmV4_passes (k := k) hp hmm hmn s).and hreads
    obtain ⟨_, u, hcpu, hu⟩ := matmulCpu_filled (p := p) hmk hkn hmn t
    constructor
    · intro h
      refine ⟨hmm, fun i hi j hj => ?_⟩
      have hprod := ((h.holds hrun).2.holds hcpu i hi j hj).1
      rwa [ht.row_eq hs hmn hi hj] at hprod
    · rintro ⟨-, hsums⟩
      refine .of_run hrun ⟨(readsInBounds_iff hm hn hmn htr).mpr hmm, .of_run hcpu ?_⟩
      intro i hi j hj
      have hprod := (ht.row_eq hs hmn hi hj).trans (hsums i hi j hj)
      exact ⟨hprod, (hu.entry_eq ht hmk hkn hmn hi hj).trans hprod.symm⟩
  · refine iff_of_false (fun h => ?_) fun h => hmm h.1
    obtain ⟨_, t, -, ⟨hin, -⟩, htr⟩ := h.and hreads
    exact hmm ((readsInBounds_iff hm hn hmn htr).mp hin)

/-- The entry `(0, 0)` of a product, when `A` is `1` at one index of row `0` and `B` is all
ones: whether that index is one of the factors. -/
theorem productEntry_single {w q : ℕ} {a b : ℕ → UInt8}
    (ha : ∀ x < w, a x = if x = q then 1 else 0) (hb : ∀ l < w, b (l * n) = 1) :
    productEntry w n a b 0 0 = if q < w then 1 else 0 := by
  have hterm : ∀ l ∈ range w, a (0 * w + l) * b (l * n + 0) = if l = q then 1 else 0 := by
    intro l hl
    rw [mem_range] at hl
    rw [Nat.zero_mul, Nat.zero_add, Nat.add_zero, ha l hl, hb l hl]
    split <;> rfl
  rw [productEntry, productTerms, sum_congr rfl hterm, sum_ite_eq']
  exact if_congr mem_range rfl rfl

/-- **`ap_mm_v4`**, from columns that are zero. For given contents it agrees with
`matmul_cpu` exactly when the square of `m` fits in a vector and its sums are those of the
product; for given dimensions it does for all contents exactly when `m = k`. -/
theorem apMmV4_iff (hp : p.MultiplyAdd) (hm : 1 ≤ m) (hk : 1 ≤ k) (hn : 1 ≤ n)
    (hmk : m * k ≤ randomVectorsSize) (hkn : k * n ≤ randomVectorsSize)
    (hmn : m * n ≤ randomVectorsSize) :
    (∀ s : St, (s.cams = fun _ _ => 0) → (AgreesWithCpu p m k n s ↔
      m * m ≤ randomVectorsSize ∧ SumsAgree p m k n s)) ∧
      ((∀ s : St, (s.cams = fun _ _ => 0) → AgreesWithCpu p m k n s) ↔ m = k) := by
  refine ⟨fun s hs => agreesWithCpu_iff hp hm hn hmk hkn hmn hs, fun h => ?_, ?_⟩
  · -- `A` is `1` at the index that only the longer of the two sums reaches
    obtain ⟨s, hs, ha, hb⟩ := p.exists_vectors (fun x => if x = min m k then 1 else 0) fun _ => 1
    have hsums := ((agreesWithCpu_iff hp hm hn hmk hkn hmn hs).mp (h s hs)).2 0 hm 0 hn
    have hm' : m ≤ m * k := Nat.le_mul_of_pos_right m hk
    have hk' : k ≤ m * k := Nat.le_mul_of_pos_left k hm
    have hleft : productEntry m n (p.vec s .a) (p.vec s .b) 0 0 = if min m k < m then 1 else 0 :=
      productEntry_single (fun x hx => ha x (by omega)) fun l hl => hb _ (by
        have := rowMajor_lt hl hn
        omega)
    have hright : productEntry k n (p.vec s .a) (p.vec s .b) 0 0 = if min m k < k then 1 else 0 :=
      productEntry_single (fun x hx => ha x (by omega)) fun l hl => hb _ (by
        have := rowMajor_lt hl hn
        omega)
    have heq : (if min m k < m then (1 : UInt8) else 0) = if min m k < k then 1 else 0 :=
      hleft.symm.trans (hsums.trans hright)
    rcases Nat.lt_trichotomy m k with hlt | rfl | hlt
    · rw [if_neg (by omega), if_pos (by omega)] at heq
      exact absurd heq (by decide)
    · rfl
    · rw [if_pos (by omega), if_neg (by omega)] at heq
      exact absurd heq (by decide)
  · rintro rfl s hs
    exact (agreesWithCpu_iff hp hm hn hmk hkn hmn hs).mpr ⟨hmk, fun _ _ _ _ => rfl⟩

/-- `2 × 2` by `2 × 3`. -/
theorem apMmV4_two_two_three : AgreesWithCpu (.reference 1) 2 2 3 (.rest someMem) :=
  (apMmV4_iff (Platform.reference_multiplyAdd 1) (by decide) (by decide) (by decide) (by decide)
    (by decide) (by decide)).2.mpr rfl _ cams_someMem

/-- `1 × 2` by `2 × 1`: `A[1] * B[1]` is missed. -/
theorem apMmV4_one_two_one : ¬ AgreesWithCpu (.reference 1) 1 2 1 (.rest someMem) := by
  intro h
  have hiff := agreesWithCpu_iff (k := 2) (Platform.reference_multiplyAdd 1) (Nat.le_refl 1)
    (Nat.le_refl 1) (by decide) (by decide) (by decide) cams_someMem
  exact absurd ((hiff.mp h).2 0 (by decide) 0 (by decide)) (by decide)

end RocketAp.Kernels
