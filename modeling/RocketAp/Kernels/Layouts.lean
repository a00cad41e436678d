import RocketAp.Kernels.OuterProducts

/-!
# Two layouts of the operands

`mm_cols_setup` and `mm_cols_setup_2` lay out the operands of a pass of `ap_mm_v4`: the first
with two loops, the second with one loop and an index it advances at the end of each row.
They store the same elements of `B` in the same rows. Of `A` the first reads column `t` of a
matrix with rows of `m`, the second of one with rows of `k`.

What `mm_cols_setup` reads past the end of `A` may be a column it has written already, so an
element is what memory holds there after the rows before it (`strideRead`).
`mmColsSetup_agree_iff`: the two agree for all contents exactly when `m = k` or `m = 1`.
-/

namespace RocketAp.Kernels

open ProgramLogic Device Hal

variable {p : Platform} {m k n t q : ℕ} {s u : St}

/-- The columns with the first `q` entries laid out: `V` in `A_0`, and row `t` of `B`, again
and again, in `B_0`. -/
def laidCams (p : Platform) (n t : ℕ) (V : ℕ → UInt8) (q : ℕ) (s : St) : Cams :=
  Function.update
    (Function.update s.cams .a0 fun r : Fin apColSize => if (r : ℕ) < q then V r else s.cams .a0 r)
    .b0 fun r => if (r : ℕ) < q then p.vec s .b (t * n + r % n) else s.cams .b0 r

section LaidCams

variable {V W : ℕ → UInt8}

theorem laidCams_zero : laidCams p n t V 0 s = s.cams := by
  simp [laidCams]

theorem laidCams_a0 (r : Fin apColSize) :
    laidCams p n t V q s .a0 r = if (r : ℕ) < q then V r else s.cams .a0 r := by
  rw [laidCams, Function.update_of_ne (by decide), Function.update_self]

theorem laidCams_b0 (r : Fin apColSize) : laidCams p n t V q s .b0 r =
    if (r : ℕ) < q then p.vec s .b (t * n + r % n) else s.cams .b0 r := by
  rw [laidCams, Function.update_self]

theorem laidCams_of_ne {c : Cam} (ha : c ≠ .a0) (hb : c ≠ .b0) :
    laidCams p n t V q s c = s.cams c := by
  rw [laidCams, Function.update_of_ne hb, Function.update_of_ne ha]

/-- Nothing else has changed. -/
theorem laidCams_rest {c : Cam} {r : Fin apColSize}
    (h : ¬ ((c = .a0 ∨ c = .b0) ∧ (r : ℕ) < q)) : laidCams p n t V q s c r = s.cams c r := by
  by_cases hb : c = .b0
  · subst hb
    rw [laidCams_b0, if_neg fun hlt => h ⟨Or.inr rfl, hlt⟩]
  · by_cases ha : c = .a0
    · subst ha
      rw [laidCams_a0, if_neg fun hlt => h ⟨Or.inl rfl, hlt⟩]
    · rw [laidCams_of_ne ha hb]

/-- Only the entries laid out matter. -/
theorem laidCams_congr (h : ∀ r < q, V r = W r) : laidCams p n t V q s = laidCams p n t W q s := by
  have hcol : (fun r : Fin apColSize => if (r : ℕ) < q then V r else s.cams .a0 r) =
      fun r : Fin apColSize => if (r : ℕ) < q then W r else s.cams .a0 r := by
    funext r
    split
    · next hr => exact h r hr
    · rfl
  rw [laidCams, laidCams, hcol]

/-- An entry more. -/
theorem entry_laid {x y : ℕ} (hq : q < apColSize) (hy : y < randomVectorsSize)
    (hyq : y = t * n + q % n) (hu : Changed s u (laidCams p n t V q s)) :
    Ensures (do let v ← p.readVec .a x
                store (Cam.a0.base + q) v
                let w ← p.readVec .b y
                store (Cam.b0.base + q) w) u fun _ v =>
      Changed s v (laidCams p n t (Function.update V q (p.vec u .a x)) (q + 1) s) := by
  apply (entry_done x y hq u).mono
  rintro _ v ⟨-, hv⟩
  refine ⟨?_, fun a ha => ((hv hy).outside a ha).trans (hu.outside a ha)⟩
  have hB : p.vec u .b y = p.vec s .b (t * n + q % n) := by rw [hu.vec .b hy, hyq]
  rw [(hv hy).cams, hB, hu.cams]
  have hV : ∀ r : Fin apColSize, laidCams p n t V q s .a0 r =
      if (r : ℕ) < q then Function.update V q (p.vec u .a x) r else s.cams .a0 r := by
    intro r
    rw [laidCams_a0]
    split
    · next hr => rw [Function.update_of_ne (Nat.ne_of_lt hr)]
    · rfl
  funext c r
  by_cases hb : c = .b0
  · subst hb
    rw [Function.update_self, laidCams_b0]
    exact update_succ (f := fun r => p.vec s .b (t * n + r % n)) hq laidCams_b0 r
  · rw [Function.update_of_ne hb]
    by_cases ha : c = .a0
    · subst ha
      have h := update_succ hq hV r
      rw [Function.update_self] at h
      rw [Function.update_self, laidCams_a0]
      exact h
    · rw [Function.update_of_ne ha, laidCams_of_ne ha hb, laidCams_of_ne ha hb]

/-- An entry more, and what comes after it. -/
theorem entry_laid_then {α : Type} {x y : ℕ} {f : Prog α} {Q : α → St → Prop}
    (hq : q < apColSize) (hy : y < randomVectorsSize) (hyq : y = t * n + q % n)
    (hu : Changed s u (laidCams p n t V q s))
    (hf : ∀ v, Changed s v (laidCams p n t (Function.update V q (p.vec u .a x)) (q + 1) s) →
      Ensures f v Q) :
    Ensures (do let v ← p.readVec .a x
                store (Cam.a0.base + q) v
                let w ← p.readVec .b y
                store (Cam.b0.base + q) w
                f) u Q := by
  have h := Ensures.bind (entry_laid hq hy hyq hu) fun _ v hv => hf v hv
  simpa only [bind_assoc] using h

end LaidCams

/-! ### The two loops -/

/-- The element of `A` that `mm_cols_setup` reads for entry `r`, with those before it laid
out. -/
def strideRead (p : Platform) (m n t : ℕ) (V : ℕ → UInt8) (s : St) (r : ℕ) : UInt8 :=
  setCams s.mem (laidCams p n t V r s) (p.rvAddr .a + (r / n * m + t))

theorem strideRead_congr {V W : ℕ → UInt8} {r : ℕ} (h : ∀ x < r, V x = W x) :
    strideRead p m n t V s r = strideRead p m n t W s r := by
  rw [strideRead, strideRead, laidCams_congr h]

/-- In `A`, or in one of the vectors after it, it is the element. -/
theorem strideRead_eq {V : ℕ → UInt8} {r : ℕ} (h : r / n * m + t < 3 * randomVectorsSize) :
    strideRead p m n t V s r = p.vec s .a (r / n * m + t) := by
  have hap := p.rvMgmt_apart
  have hw := apWindow
  refine setCams_of_not_mem _ _ fun ⟨h₁, h₂⟩ => ?_
  simp only [Platform.rvAddr, randomVectorsSize] at *
  omega

/-- `mm_cols_setup`, wherever it reads `A`. -/
theorem mmColsSetup_laid (htn : t * n + n ≤ randomVectorsSize) (hmn : m * n ≤ apColSize)
    (s : St) : Ensures (mmColsSetup p m n t) s fun _ u => ∃ V,
      (∀ r < m * n, V r = strideRead p m n t V s r) ∧
        Changed s u (laidCams p n t V (m * n) s) := by
  let I (q : ℕ) (u : St) : Prop := ∃ V, (∀ r < q, V r = strideRead p m n t V s r) ∧
    Changed s u (laidCams p n t V q s)
  have hI₀ : I 0 s := by
    refine ⟨fun _ => 0, fun r hr => absurd hr (Nat.not_lt_zero r), ?_⟩
    rw [laidCams_zero]
    exact .refl s
  refine Ensures.forUpTo (fun i u => I (i * n) u) ?_ fun i hi u hu => ?_
  · rwa [Nat.zero_mul]
  · rw [Nat.succ_mul]
    refine Ensures.forUpTo (fun j v => I (i * n + j) v) hu fun j hj v hv => ?_
    obtain ⟨V, hreads, hchanged⟩ := hv
    have hlt := rowMajor_lt hi hj
    have hy : t * n + j = t * n + (i * n + j) % n := by rw [rowMajor_mod hj]
    apply (entry_laid (by omega) (by omega) hy hchanged).mono
    intro _ w hw
    refine ⟨_, fun r hr => ?_, hw⟩
    have hsame : ∀ x < r, Function.update V (i * n + j) (p.vec v .a (i * m + t)) x = V x :=
      fun x hx => Function.update_of_ne (by omega) _ _
    rw [strideRead_congr hsame]
    rcases Nat.lt_or_ge r (i * n + j) with hlt | hge
    · rw [Function.update_of_ne (Nat.ne_of_lt hlt)]
      exact hreads r hlt
    · obtain rfl : r = i * n + j := by omega
      rw [Function.update_self, strideRead, rowMajor_div hj, ← hchanged.mem_eq]
      rfl

/-- **`mm_cols_setup_2`**, for any number of entries. -/
theorem mmColsSetup2_laid {cSize : ℕ} (hn : 1 ≤ n) (hc : cSize ≤ apColSize)
    (ha : ∀ r < cSize, r / n * k + t < randomVectorsSize)
    (hb : ∀ r < cSize, t * n + r % n < randomVectorsSize) (s : St) :
    Ensures (mmColsSetup2 p cSize m n k t) s fun _ u =>
      Changed s u (laidCams p n t (fun r => p.vec s .a (r / n * k + t)) cSize s) := by
  let F (r : ℕ) : UInt8 := p.vec s .a (r / n * k + t)
  refine .bind (Ensures.forAcc (fun i aIndex u => aIndex = i / n * k + t ∧
    Changed s u (laidCams p n t F i s)) ?_ ?_) fun _ u hu => .pure hu.2
  · refine ⟨by rw [Nat.zero_div, Nat.zero_mul, Nat.zero_add], ?_⟩
    rw [laidCams_zero]
    exact .refl s
  · rintro i hi _ u ⟨rfl, hu⟩
    have hA : p.vec u .a (i / n * k + t) = F i := hu.vec .a (ha i hi)
    refine entry_laid_then (by omega) (hb i hi) rfl hu fun v hv => ?_
    rw [hA, Function.update_eq_self] at hv
    have hnext := rowMajor_div_succ (r := i) hn
    split
    · next hlast =>
      rw [if_pos hlast] at hnext
      refine .pure ⟨?_, hv⟩
      rw [hnext, Nat.succ_mul, Nat.add_right_comm]
    · next hmid =>
      rw [if_neg hmid] at hnext
      exact .pure ⟨by rw [hnext], hv⟩

/-- **`mm_cols_setup_2`**, whether the entries fill whole rows or not: row `r` of `A_0` holds
element `(r / n, t)` of `A`, and row `r` of `B_0` element `(t, r % n)` of `B`. -/
theorem mmColsSetup2_rows {cSize : ℕ} (hn : 1 ≤ n) (hc : cSize ≤ apColSize)
    (ha : ∀ r < cSize, r / n * k + t < randomVectorsSize)
    (hb : ∀ r < cSize, t * n + r % n < randomVectorsSize) (s : St) :
    Ensures (mmColsSetup2 p cSize m n k t) s fun _ u =>
      (∀ r < cSize, u.row .a0 r = p.vec s .a (r / n * k + t) ∧
        u.row .b0 r = p.vec s .b (t * n + r % n)) ∧
      (∀ c (r : Fin apColSize), ¬ ((c = .a0 ∨ c = .b0) ∧ (r : ℕ) < cSize) →
        u.cams c r = s.cams c r) ∧
      ∀ a, ¬ InColumns a → u.mem a = s.mem a := by
  apply (mmColsSetup2_laid hn hc ha hb s).mono
  intro _ u hu
  refine ⟨fun r hr => ?_, fun c r hr => ?_, hu.outside⟩
  · have hlt : r < apColSize := Nat.lt_of_lt_of_le hr hc
    rw [St.row_eq u _ hlt, St.row_eq u _ hlt, hu.cams, laidCams_a0, laidCams_b0, if_pos hr,
      if_pos hr]
    exact ⟨rfl, rfl⟩
  · rw [hu.cams, laidCams_rest hr]

/-- Seven entries with rows of three: the last group is cut short. -/
theorem mmColsSetup2_partial : Ensures (mmColsSetup2 (.reference 1) 7 3 3 4 2)
    (.rest fun a => a.toUInt8) fun _ u =>
      ∀ r < 7, u.row .a0 r = (Platform.reference 1).vec (.rest fun a => a.toUInt8) .a
        (r / 3 * 4 + 2) ∧
          u.row .b0 r = (Platform.reference 1).vec (.rest fun a => a.toUInt8) .b (2 * 3 + r % 3) :=
  (mmColsSetup2_rows (by decide) (by decide) (by decide) (by decide) _).mono fun _ _ h => h.1

/-! ### The two layouts -/

/-- Both calls leave the same columns: the first `q` rows of `A_0` and of `B_0` may have
changed, and nothing else has. -/
structure SameColumns (q : ℕ) (s u₁ u₂ : St) : Prop where
  cams : u₁.cams = u₂.cams
  rest : ∀ c (r : Fin apColSize), ¬ ((c = .a0 ∨ c = .b0) ∧ (r : ℕ) < q) →
    u₁.cams c r = s.cams c r
  outside : ∀ a, ¬ InColumns a → u₁.mem a = s.mem a ∧ u₂.mem a = s.mem a

/-- What the two functions are for: either may be called. -/
def SameLayout (p : Platform) (m k n t : ℕ) (s : St) : Prop :=
  Ensures (mmColsSetup p m n t) s fun _ u₁ =>
    Ensures (mmColsSetup2 p (m * n) m n k t) s fun _ u₂ => SameColumns (m * n) s u₁ u₂

/-- Each element of `A` that `mm_cols_setup` reads, with the rows before it laid out as
`mm_cols_setup_2` does, is the one that `mm_cols_setup_2` reads. -/
def RowsAgree (p : Platform) (m k n t : ℕ) (s : St) : Prop :=
  ∀ r < m * n, strideRead p m n t (fun x => p.vec s .a (x / n * k + t)) s r =
    p.vec s .a (r / n * k + t)

theorem sameColumns_laid {V : ℕ → UInt8} {u₁ u₂ : St}
    (h₁ : Changed s u₁ (laidCams p n t V q s)) (h₂ : Changed s u₂ (laidCams p n t V q s)) :
    SameColumns q s u₁ u₂ := by
  refine ⟨by rw [h₁.cams, h₂.cams], fun c r hr => ?_,
    fun a ha => ⟨h₁.outside a ha, h₂.outside a ha⟩⟩
  rw [h₁.cams, laidCams_rest hr]

theorem sameLayout_iff (hn : 1 ≤ n) (hmk : m * k ≤ randomVectorsSize)
    (hkn : k * n ≤ randomVectorsSize) (hmn : m * n ≤ randomVectorsSize) (htk : t < k) (s : St) :
    SameLayout p m k n t s ↔ RowsAgree p m k n t s := by
  have htn : t * n + n ≤ k * n := rowMajor_row_le htk
  have hrow : ∀ r < m * n, r / n * k + t < m * k := fun r hr =>
    rowMajor_lt (exists_rowMajor hr).1 htk
  obtain ⟨_, u₁, hrun₁, V, hreads, h₁⟩ := mmColsSetup_laid (p := p) (t := t) (by omega) hmn s
  obtain ⟨_, u₂, hrun₂, h₂⟩ := mmColsSetup2_laid (p := p) (m := m) (k := k) (t := t) hn hmn
    (fun r hr => by have := hrow r hr; omega)
    (fun r _ => by have := Nat.mod_lt r hn; omega) s
  have hiff : SameLayout p m k n t s ↔ SameColumns (m * n) s u₁ u₂ :=
    (ensures_iff_of_run hrun₁).trans (ensures_iff_of_run hrun₂)
  rw [hiff]
  constructor
  · intro h r hr
    have hV : ∀ x < m * n, V x = p.vec s .a (x / n * k + t) := by
      intro x hx
      have hcol := congrFun (congrFun h.cams .a0) ⟨x, Nat.lt_of_lt_of_le hx hmn⟩
      rw [h₁.cams, h₂.cams, laidCams_a0, laidCams_a0, if_pos hx, if_pos hx] at hcol
      exact hcol
    rw [← strideRead_congr fun x hx => hV x (hx.trans hr), ← hreads r hr, hV r hr]
  · intro h
    -- the rows before an entry agree, so what is read for it does
    have hV : ∀ x < m * n, V x = p.vec s .a (x / n * k + t) := by
      intro x
      induction x using Nat.strong_induction_on with
      | _ x ih =>
        intro hx
        rw [hreads x hx, strideRead_congr fun y hy => ih y hy (hy.trans hx), h x hx]
    rw [laidCams_congr hV] at h₁
    exact sameColumns_laid h₁ h₂

/-- **The two layouts.** For given contents they are the same exactly when the elements that
are read agree; for given dimensions they are for all contents exactly when the rows of `A`
are as long for one as for the other, or there is one row. -/
theorem mmColsSetup_agree_iff (hm : 1 ≤ m) (hk : 1 ≤ k) (hn : 1 ≤ n)
    (hmk : m * k ≤ randomVectorsSize) (hkn : k * n ≤ randomVectorsSize)
    (hmn : m * n ≤ randomVectorsSize) (htk : t < k) (htm : t < m) :
    (∀ s, SameLayout p m k n t s ↔ RowsAgree p m k n t s) ∧
      ((∀ s, SameLayout p m k n t s) ↔ m = k ∨ m = 1) := by
  have hiff := sameLayout_iff (p := p) hn hmk hkn hmn htk
  refine ⟨hiff, fun h => ?_, fun h s => (hiff s).mpr fun r hr => ?_⟩
  · by_contra hne
    have hm₂ : 2 ≤ m := by omega
    have hrow : 1 * n + 0 < m * n := rowMajor_lt hm₂ hn
    have hmle : m * 1 ≤ m * n := Nat.mul_le_mul_left m hn
    -- `A` is zero but for the element that `mm_cols_setup_2` reads for row `1`
    have hrows := (hiff (.rest (Mem.store (fun _ => 0) (p.rvAddr .a + (1 * k + t)) 1))).mp (h _)
      (1 * n + 0) hrow
    have hsize : randomVectorsSize = 512 := rfl
    rw [strideRead_eq (by rw [rowMajor_div hn]; omega), rowMajor_div hn] at hrows
    have hzero : Mem.store (fun _ => 0) (p.rvAddr .a + (1 * k + t)) 1
        (p.rvAddr .a + (1 * m + t)) = 0 := Mem.store_of_ne _ _ (by omega)
    have hone := Mem.store_self (fun _ => 0) (p.rvAddr .a + (1 * k + t)) 1
    have hsame : (0 : UInt8) = 1 := hzero.symm.trans (hrows.trans hone)
    exact absurd hsame (by decide)
  · obtain ⟨hi, -, -⟩ := exists_rowMajor hr
    have hlt := rowMajor_lt hi htk
    have hidx : r / n * m + t = r / n * k + t := by
      rcases h with rfl | rfl
      · rfl
      · have h₀ : r / n = 0 := Nat.lt_one_iff.mp hi
        rw [h₀, Nat.zero_mul, Nat.zero_mul]
    rw [strideRead_eq (by omega), hidx]

theorem mmColsSetup_agree_square :
    SameLayout (.reference 1) 3 3 2 1 (.rest fun a => a.toUInt8) :=
  (mmColsSetup_agree_iff (by decide) (by decide) (by decide) (by decide) (by decide) (by decide)
    (by decide) (by decide)).2.mpr (Or.inl rfl) _

/-- Two rows with one element each: for row `1` the one reads `A[2]` and the other `A[1]`. -/
theorem mmColsSetup_two_one_one :
    ¬ SameLayout (.reference 1) 2 1 1 0 (.rest (Mem.store (fun _ => 0) 0x80001001 1)) := by
  rw [sameLayout_iff (by decide) (by decide) (by decide) (by decide) (by decide)]
  intro h
  exact absurd (h 1 (by decide)) (by decide)

end RocketAp.Kernels
