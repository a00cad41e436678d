import RocketAp.Kernels.RowKernels
import Mathlib.Algebra.BigOperators.Intervals

/-!
# A product in one column

`ap_mm_v3` gives each row of the product its window of `n` rows of `A_1`. For row `i` it
loads the rows of `B` one after the other into window `i` of `B_0`, and for each it
scales and adds. But the AP scales and adds every window, and windows `0, …, i - 1` of
`B_0` still hold the last row of `B`: row `i` of `A` adds its sum times that row to each of
them (`WindowRow`). The windows after `i` are still zero and stay so.

`apMmV3_iff`: what is added is zero exactly when, for each window, the sum of the later
rows of `A` times the last row of `B` is; for all contents that is when there is one row.
-/

namespace RocketAp.Kernels

open ProgramLogic Device Hal Finset

variable {p : Platform} {k n : ℕ}

/-! ### The step -/

/-- The two window functions are one. -/
theorem apMatrixColMmWindow2_eq : apMatrixColMmWindow2 p = apMatrixColMmWindow p := rfl

/-- What the row `g` of `B`, loaded into window `i`, and the factor `f` do. -/
structure WindowStep (n i : ℕ) (f : UInt8) (g : ℕ → UInt8) (s u : St) : Prop where
  window : ∀ r : Fin apColSize, i * n ≤ r → (r : ℕ) < i * n + n → u.cams .b0 r = g (r - i * n)
  others : ∀ r : Fin apColSize, ¬ (i * n ≤ r ∧ (r : ℕ) < i * n + n) → u.cams .b0 r = s.cams .b0 r
  all : ∀ r, u.cams .a1 r = s.cams .a1 r + f * u.cams .b0 r
  outside : ∀ a, ¬ InColumns a → u.mem a = s.mem a

theorem apMmV3_step (hp : p.ScaleAdd) {i idx row : ℕ} (hin : i * n + n ≤ apColSize)
    (hidx : idx < randomVectorsSize) (s : St) :
    Ensures (do apMemcpy (Cam.b0.base + i * n) (p.rvAddr .b + row) n
                let factor ← p.readVec .a idx
                apMatrixColMmWindow2 p factor n) s fun _ u =>
      WindowStep n i (p.vec s .a idx) (fun x => p.vec s .b (row + x)) s u := by
  apply Ensures.bind (memcpy_vec_column p .b .b0 hin row s)
  intro _ t ht
  refine .step rfl ?_
  rw [apMatrixColMmWindow2_eq]
  apply (apMatrixColMmWindow_changed hp _ n _).mono
  intro _ u hu
  have hcams : u.cams = windowCams (p.vec t .a idx) t.cams := hu.cams
  rw [ht.vec .a hidx, ht.cams] at hcams
  constructor
  · intro r hr hr'
    simp only [hcams, windowCams, Function.update_self, Column.write, if_pos (And.intro hr hr')]
  · intro r hr
    simp only [hcams, windowCams, Function.update_self, Column.write, if_neg hr]
  · intro r
    simp only [hcams, windowCams, Function.update_self]
    rw [Function.update_of_ne (by decide)]
  · intro a ha
    exact (hu.outside a ha).trans (ht.outside a ha)

/-! ### A row -/

/-- The sum of the first `t` factors of row `i` of `A`. -/
def factorSum (k : ℕ) (a : ℕ → UInt8) (t i : ℕ) : UInt8 := ∑ l ∈ range t, a (i * k + l)

/-- What `j` factors of row `i` do to window `i` and to the others. -/
structure WindowRow (p : Platform) (k n i j : ℕ) (s u : St) : Prop where
  window : ∀ r : Fin apColSize, i * n ≤ r → (r : ℕ) < i * n + n →
    u.cams .b0 r = (if j = 0 then s.cams .b0 r else p.vec s .b ((j - 1) * n + (r - i * n))) ∧
    u.cams .a1 r = s.cams .a1 r +
      productTerms k n (p.vec s .a) (p.vec s .b) j i (r - i * n)
  others : ∀ r : Fin apColSize, ¬ (i * n ≤ r ∧ (r : ℕ) < i * n + n) →
    u.cams .b0 r = s.cams .b0 r ∧
    u.cams .a1 r = s.cams .a1 r + factorSum k (p.vec s .a) j i * s.cams .b0 r
  outside : ∀ a, ¬ InColumns a → u.mem a = s.mem a

theorem windowRow_run (hp : p.ScaleAdd) {i : ℕ} (hin : i * n + n ≤ apColSize)
    (hik : i * k + k ≤ randomVectorsSize) (hkn : k * n ≤ randomVectorsSize) (s : St) :
    Ensures (forUpTo k fun j => do
        apMemcpy (Cam.b0.base + i * n) (p.rvAddr .b + j * n) n
        let factor ← p.readVec .a (i * k + j)
        apMatrixColMmWindow2 p factor n) s fun _ u => WindowRow p k n i k s u := by
  refine Ensures.forUpTo (fun j t => WindowRow p k n i j s t) ?_ fun j hj t ht => ?_
  · refine ⟨fun r _ _ => ⟨rfl, by simp⟩, fun r _ => ⟨rfl, by simp [factorSum]⟩, fun _ _ => rfl⟩
  · apply (apMmV3_step hp hin (by omega) t).mono
    intro _ u hu
    have hA : p.vec t .a (i * k + j) = p.vec s .a (i * k + j) :=
      Platform.vec_eq_of_outside ht.outside .a (by omega)
    constructor
    · intro r hr hr'
      have hlt := rowMajor_lt hj (show r - i * n < n by omega)
      have hb : u.cams .b0 r = p.vec s .b (j * n + (r - i * n)) := by
        rw [hu.window r hr hr', Platform.vec_eq_of_outside ht.outside .b (by omega)]
      refine ⟨by rw [hb, if_neg (Nat.succ_ne_zero j), Nat.add_sub_cancel], ?_⟩
      rw [hu.all r, hb, hA, (ht.window r hr hr').2, productTerms_succ, add_assoc]
    · intro r hr
      obtain ⟨hb, ha⟩ := ht.others r hr
      refine ⟨by rw [hu.others r hr, hb], ?_⟩
      rw [hu.all r, hu.others r hr, hb, ha, hA, factorSum, factorSum, sum_range_succ, add_mul,
        add_assoc]
    · intro a ha
      rw [hu.outside a ha, ht.outside a ha]

/-! ### The whole product -/

/-- The sum of rows `i + 1, …, m - 1` of `A`. -/
def laterSum (k : ℕ) (a : ℕ → UInt8) (m i : ℕ) : UInt8 := ∑ i' ∈ Ico (i + 1) m, factorSum k a k i'

/-- What `m` rows do, from columns that are zero: each window holds its row of the product,
with the later factors times the last row of `B` added to it. -/
structure WindowProduct (p : Platform) (m k n : ℕ) (s t : St) : Prop where
  done : ∀ i < m, ∀ j < n, ∀ r : Fin apColSize, (r : ℕ) = i * n + j →
    t.cams .b0 r = p.vec s .b ((k - 1) * n + j) ∧
    t.cams .a1 r = productEntry k n (p.vec s .a) (p.vec s .b) i j +
      laterSum k (p.vec s .a) m i * p.vec s .b ((k - 1) * n + j)
  rest : ∀ r : Fin apColSize, m * n ≤ r → t.cams .b0 r = 0 ∧ t.cams .a1 r = 0
  outside : ∀ a, ¬ InColumns a → t.mem a = s.mem a

/-- A row more. -/
theorem WindowProduct.step {m : ℕ} {s t u : St} (hk : 1 ≤ k)
    (hmk : (m + 1) * k ≤ randomVectorsSize) (hkn : k * n ≤ randomVectorsSize)
    (ht : WindowProduct p m k n s t) (hu : WindowRow p k n m k t u) :
    WindowProduct p (m + 1) k n s u := by
  have hsucc : (m + 1) * n = m * n + n := Nat.succ_mul m n
  have hmk' : (m + 1) * k = m * k + k := Nat.succ_mul m k
  have hsum : factorSum k (p.vec t .a) k m = factorSum k (p.vec s .a) k m := by
    refine sum_congr rfl fun l hl => ?_
    rw [mem_range] at hl
    exact Platform.vec_eq_of_outside ht.outside .a (by omega)
  constructor
  · intro i hi j hj r hr
    have hlast := rowMajor_lt (show k - 1 < k by omega) hj
    rcases Nat.lt_succ_iff_lt_or_eq.mp hi with hi | rfl
    · have hlt := rowMajor_lt hi hj
      obtain ⟨hb, ha⟩ := hu.others r (by omega)
      obtain ⟨hb', ha'⟩ := ht.done i hi j hj r hr
      refine ⟨hb.trans hb', ?_⟩
      rw [ha, ha', hb', hsum, laterSum, laterSum, sum_Ico_succ_top (by omega), add_mul, add_assoc]
    · obtain ⟨hb, ha⟩ := hu.window r (by omega) (by omega)
      have hj' : (r : ℕ) - i * n = j := by omega
      rw [if_neg (by omega), hj', Platform.vec_eq_of_outside ht.outside .b (by omega)] at hb
      refine ⟨hb, ?_⟩
      rw [ha, (ht.rest r (by omega)).2, hj', laterSum, Ico_self, sum_empty, zero_mul, zero_add,
        add_zero]
      exact productEntry_congr (Nat.lt_add_one i) hj
        (fun x hx => Platform.vec_eq_of_outside ht.outside .a (by omega))
        fun x hx => Platform.vec_eq_of_outside ht.outside .b (by omega)
  · intro r hr
    obtain ⟨hb, ha⟩ := hu.others r (by omega)
    obtain ⟨hb', ha'⟩ := ht.rest r (by omega)
    exact ⟨hb.trans hb', by rw [ha, ha', hb', mul_zero, add_zero]⟩
  · intro a ha
    rw [hu.outside a ha, ht.outside a ha]

theorem apMmV3_run (hp : p.ScaleAdd) {m : ℕ} (hk : 1 ≤ k) (hmk : m * k ≤ randomVectorsSize)
    (hkn : k * n ≤ randomVectorsSize) (hmn : m * n ≤ randomVectorsSize) {s : St}
    (hs : s.cams = fun _ _ => 0) :
    Ensures (apMmV3 p m k n) s fun _ t => WindowProduct p m k n s t := by
  refine Ensures.forUpTo (fun i t => WindowProduct p i k n s t) ?_ fun i hi t ht => ?_
  · exact ⟨fun i hi => absurd hi (Nat.not_lt_zero i), fun r _ => by simp [hs], fun _ _ => rfl⟩
  · have hik := rowMajor_row_le (n := k) hi
    have hin := rowMajor_row_le (n := n) hi
    have hsize : apColSize = randomVectorsSize := rfl
    refine (windowRow_run hp (by omega) (by omega) hkn t).mono fun _ u hu => ht.step hk ?_ hkn hu
    rw [Nat.succ_mul]
    omega

/-- What `ap_mm_v3` is for: `A_1` holds the product, row after row. -/
def Stores (p : Platform) (m k n : ℕ) (s : St) : Prop :=
  Ensures (apMmV3 p m k n) s fun _ t => ∀ i < m, ∀ j < n,
    t.row .a1 (i * n + j) = ∑ l ∈ range k, p.vec s .a (i * k + l) * p.vec s .b (l * n + j)

/-- What is added to each window is zero. -/
def NothingAdded (p : Platform) (m k n : ℕ) (s : St) : Prop :=
  ∀ i < m, ∀ j < n, laterSum k (p.vec s .a) m i * p.vec s .b ((k - 1) * n + j) = 0

theorem stores_iff (hp : p.ScaleAdd) {m : ℕ} (hk : 1 ≤ k) (hmk : m * k ≤ randomVectorsSize)
    (hkn : k * n ≤ randomVectorsSize) (hmn : m * n ≤ randomVectorsSize) {s : St}
    (hs : s.cams = fun _ _ => 0) : Stores p m k n s ↔ NothingAdded p m k n s := by
  have hrun := apMmV3_run hp hk hmk hkn hmn hs
  have hentry : ∀ t, WindowProduct p m k n s t → ∀ i < m, ∀ j < n,
      t.row .a1 (i * n + j) = productEntry k n (p.vec s .a) (p.vec s .b) i j +
        laterSum k (p.vec s .a) m i * p.vec s .b ((k - 1) * n + j) := by
    intro t ht i hi j hj
    have hlt : i * n + j < apColSize := Nat.lt_of_lt_of_le (rowMajor_lt hi hj) hmn
    rw [St.row_eq t .a1 hlt]
    exact (ht.done i hi j hj ⟨_, hlt⟩ rfl).2
  constructor
  · intro h i hi j hj
    obtain ⟨_, t, -, ht, hstored⟩ := hrun.and h
    have hsum := hstored i hi j hj
    rw [hentry t ht i hi j hj] at hsum
    exact add_eq_left.mp hsum
  · intro h
    apply hrun.mono
    intro _ t ht i hi j hj
    rw [hentry t ht i hi j hj, h i hi j hj, add_zero]
    rfl

/-- The last row of `A` is later than the one before it. -/
theorem laterSum_pred {m : ℕ} (hm : 2 ≤ m) (a : ℕ → UInt8) :
    laterSum k a m (m - 2) = factorSum k a k (m - 1) := by
  have hico : Ico (m - 2 + 1) m = {m - 1} := by
    ext x
    rw [mem_Ico, mem_singleton]
    omega
  rw [laterSum, hico, sum_singleton]

/-- **`ap_mm_v3`**, from columns that are zero. For given contents it stores the product
exactly when nothing is added to a window; for given dimensions it does for all contents
exactly when the product has one row. -/
theorem apMmV3_iff (hp : p.ScaleAdd) {m : ℕ} (hm : 1 ≤ m) (hk : 1 ≤ k) (hn : 1 ≤ n)
    (hmk : m * k ≤ randomVectorsSize) (hkn : k * n ≤ randomVectorsSize)
    (hmn : m * n ≤ randomVectorsSize) :
    (∀ s : St, (s.cams = fun _ _ => 0) → (Stores p m k n s ↔ NothingAdded p m k n s)) ∧
      ((∀ s : St, (s.cams = fun _ _ => 0) → Stores p m k n s) ↔ m = 1) := by
  refine ⟨fun s hs => stores_iff hp hk hmk hkn hmn hs, ?_, ?_⟩
  · intro h
    by_contra hne
    have hm₂ : 2 ≤ m := by omega
    -- the last row of `A` is `1, 0, …, 0`, and `B` is all ones
    obtain ⟨s, hs, ha, hb⟩ := p.exists_vectors (fun x => if x = (m - 1) * k then 1 else 0)
      fun _ => 1
    have hmk' := rowMajor_row_le (n := k) (show m - 1 < m by omega)
    have hfactors : factorSum k (p.vec s .a) k (m - 1) = 1 := by
      have hterm : ∀ l ∈ range k, p.vec s .a ((m - 1) * k + l) = if l = 0 then 1 else 0 := by
        intro l hl
        rw [mem_range] at hl
        rw [ha _ (by omega)]
        exact if_congr (by omega) rfl rfl
      rw [factorSum, sum_congr rfl hterm, sum_ite_eq', if_pos (mem_range.mpr hk)]
    have hzero := (stores_iff hp hk hmk hkn hmn hs).mp (h s hs) (m - 2) (by omega) 0 hn
    have hlast := rowMajor_lt (show k - 1 < k by omega) hn
    rw [laterSum_pred hm₂, hfactors, hb _ (by omega)] at hzero
    exact absurd hzero (by decide)
  · rintro rfl s hs
    refine (stores_iff hp hk hmk hkn hmn hs).mpr fun i hi j hj => ?_
    rw [laterSum, Ico_eq_empty (by omega), sum_empty, zero_mul]

/-- A product of one row is stored, and it is not nothing. -/
theorem apMmV3_one_row : Stores (.reference 1) 1 3 4 (.rest someMem) :=
  (apMmV3_iff (Platform.reference_scaleAdd 1) (by decide) (by decide) (by decide) (by decide)
    (by decide) (by decide)).2.mpr rfl _ cams_someMem

/-- Two rows, one factor each: `A_1[0, 1]` holds `A[0] * B[1] + A[1] * B[1]`. -/
theorem apMmV3_two_rows : ¬ Stores (.reference 1) 2 1 2 (.rest someMem) := by
  intro h
  have hp := Platform.reference_scaleAdd 1
  have hzero := (stores_iff hp (by decide) (by decide) (by decide) (by decide) cams_someMem).mp h 0
    (by decide) 1 (by decide)
  exact absurd hzero (by decide)

end RocketAp.Kernels
