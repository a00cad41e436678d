import RocketAp.Kernels.Evaluation
import RocketAp.Hal.Accessors

/-!
# The CPU's references

`accum_kernel`, `sgemm_golden` and `matmul_golden` add term by term to a byte of memory
(`accumulate_into`). `accum_kernel` adds to a local variable that it does not set: it returns
the checksum of the array plus what the frame held (`accumKernel_iff`).

`sgemm_golden` adds the product to what its result held, `matmul_golden` sets each entry to
zero first and reads the rows of its matrices through pointers, the second matrix transposed.
From a result of zeros both leave what `matmul_cpu` does (`references_agree`).
-/

namespace RocketAp.Kernels

open ProgramLogic Device Hal Finset

variable {p : Platform}

/-- A loop that adds to one byte, term by term. -/
theorem accumulate_into {k d : ℕ} {f : ℕ → UInt8} {body : ℕ → Prog Unit} (s : St)
    (hbody : ∀ l < k, ∀ t : St, (∀ x, x ≠ d → t.mem x = s.mem x) →
      Ensures (body l) t fun _ u => u.mem = t.mem.store d (t.mem d + f l)) :
    Ensures (forUpTo k body) s fun _ t =>
      t.mem = s.mem.store d (s.mem d + ∑ l ∈ range k, f l) := by
  refine Ensures.forUpTo (fun l (t : St) =>
    t.mem = s.mem.store d (s.mem d + ∑ x ∈ range l, f x)) ?_ fun l hl t ht => ?_
  · simp [Mem.store]
  · have hrest : ∀ x, x ≠ d → t.mem x = s.mem x := by
      intro x hx
      rw [ht, Mem.store_of_ne _ _ hx]
    obtain ⟨_, u, hrun, hu⟩ := hbody l hl t hrest
    refine .of_run hrun ?_
    rw [hu, ht, Mem.store_self, Mem.store_store, sum_range_succ, add_assoc]

theorem store_stored {a : ℕ} (h : OffRegisters a 1) (v : UInt8) (s : St) :
    Ensures (store a v) s fun _ t => t.mem = s.mem.store a v :=
  .of_run (store_run h v s) rfl

/-! ### The sum of an array -/

/-- Where `accum_kernel` keeps its `sum`: away from the array it is called with. -/
structure SumByte (A size : ℕ) where
  addr : ℕ
  apart : ∀ i < size, A + i ≠ addr
  off : OffRegisters addr 1

section AccumKernel

variable {A size : ℕ}

theorem accumKernel_returns (sum : SumByte A size) (s : St) :
    Ensures (accumKernel sum.addr A size) s fun v _ =>
      v = s.mem sum.addr + ∑ i ∈ range size, s.mem (A + i) := by
  refine .bind (R := fun _ t => t.mem = s.mem.store sum.addr
    (s.mem sum.addr + ∑ i ∈ range size, s.mem (A + i))) ?_ fun _ t ht => ?_
  · refine accumulate_into s fun i hi t ht => ?_
    refine .step (load_run _ _) (.step (load_run _ _) (.of_run (store_run sum.off _ _) ?_))
    rw [← ht _ (sum.apart i hi)]
  · refine .of_run (load_run _ _) ?_
    rw [ht, Mem.store_self]

/-- What `accum_kernel` is for: it returns the sum, as `checksum` does. -/
def ReturnsSum (sum : SumByte A size) (s : St) : Prop :=
  Ensures (accumKernel sum.addr A size) s fun v _ => v = ∑ i ∈ range size, s.mem (A + i) ∧
    Ensures (checksum A size) s fun w _ => v = w

/-- Two runs, whose frames need not be in one place, return the same byte. -/
def SameByte (x y : SumByte A size) (s t : St) : Prop :=
  Ensures (accumKernel x.addr A size) s fun v _ =>
    Ensures (accumKernel y.addr A size) t fun w _ => v = w

theorem returnsSum_iff (sum : SumByte A size) (s : St) :
    ReturnsSum sum s ↔ s.mem sum.addr = 0 := by
  obtain ⟨_, _, hrun, rfl⟩ := accumKernel_returns sum s
  constructor
  · intro h
    obtain ⟨hsum, -⟩ := h.holds hrun
    exact add_eq_right.mp hsum
  · intro h
    have hsum : s.mem sum.addr + ∑ i ∈ range size, s.mem (A + i) =
        ∑ i ∈ range size, s.mem (A + i) := by rw [h, zero_add]
    obtain ⟨_, _, hcheck, hw, -⟩ := checksum_ensures A size s
    exact .of_run hrun ⟨hsum, .of_run hcheck (hsum.trans hw.symm)⟩

/-- Two runs on one array differ by what their frames held. -/
theorem sameByte_iff (x y : SumByte A size) (s t : St)
    (harr : ∀ i < size, s.mem (A + i) = t.mem (A + i)) :
    SameByte x y s t ↔ s.mem x.addr = t.mem y.addr := by
  obtain ⟨v, _, hs, hv⟩ := accumKernel_returns x s
  obtain ⟨w, _, ht, hw⟩ := accumKernel_returns y t
  have hsum : ∑ i ∈ range size, t.mem (A + i) = ∑ i ∈ range size, s.mem (A + i) :=
    sum_congr rfl fun i hi => (harr i (mem_range.mp hi)).symm
  have hiff : SameByte x y s t ↔ v = w :=
    (ensures_iff_of_run hs).trans (ensures_iff_of_run ht)
  rw [hiff, hv, hw, hsum]
  exact add_left_inj _

/-- **`accum_kernel`** returns the sum exactly when the byte behind `sum` is zero, and two
runs on one array return the same byte exactly when those bytes are the same. -/
theorem accumKernel_iff (A size : ℕ) :
    (∀ (sum : SumByte A size) s, ReturnsSum sum s ↔ s.mem sum.addr = 0) ∧
      ∀ (x y : SumByte A size) s t, (∀ i < size, s.mem (A + i) = t.mem (A + i)) →
        (SameByte x y s t ↔ s.mem x.addr = t.mem y.addr) :=
  ⟨returnsSum_iff, sameByte_iff⟩

/-- A frame above the vectors. -/
def someFrame : SumByte 0x80001000 1024 where
  addr := 0x80007ff0
  apart i hi := by omega
  off := by decide

/-- Two memories that differ, but not in the array or in the frame. -/
theorem accumKernel_same : SameByte someFrame someFrame (.rest fun a => a.toUInt8)
    (.rest (Mem.store (fun a => a.toUInt8) 0x80009000 1)) := by
  refine ((accumKernel_iff 0x80001000 1024).2 someFrame someFrame _ _ fun i hi => ?_).mpr rfl
  exact (Mem.store_of_ne _ _ (by omega)).symm

/-- An array of zeros, and a frame that holds `7`: the sum is `7`, and on a clean frame `0`. -/
theorem accumKernel_seven : ¬ ReturnsSum someFrame (.rest (Mem.store (fun _ => 0) 0x80007ff0 7)) ∧
    ¬ SameByte someFrame someFrame (.rest (Mem.store (fun _ => 0) 0x80007ff0 7))
      (.rest fun _ => 0) := by
  have hseven : ¬ (7 : UInt8) = 0 := by decide
  constructor
  · rw [returnsSum_iff]
    exact hseven
  · have harray : ∀ i < 1024, Mem.store (fun _ => 0) 0x80007ff0 7 (0x80001000 + i) = 0 :=
      fun i hi => Mem.store_of_ne _ _ (by omega)
    rw [sameByte_iff someFrame someFrame _ _ harray]
    exact hseven

end AccumKernel

/-! ### Products in memory -/

/-- A nested loop over the entries of a matrix, each of which stores the entry. -/
theorem entries_stored {m n : ℕ} {addr : ℕ → ℕ} {f : ℕ → UInt8} {body : ℕ → ℕ → Prog Unit}
    (s : St) (hne : ∀ x < m * n, ∀ y < x, addr y ≠ addr x)
    (hbody : ∀ i < m, ∀ j < n, ∀ t : St, Mem.Stored addr f (i * n + j) s.mem t.mem →
      Ensures (body i j) t fun _ u =>
        u.mem = t.mem.store (addr (i * n + j)) (f (i * n + j))) :
    Ensures (forUpTo m fun i => forUpTo n fun j => body i j) s fun _ t =>
      Mem.Stored addr f (m * n) s.mem t.mem := by
  refine Ensures.forUpTo (fun i (t : St) => Mem.Stored addr f (i * n) s.mem t.mem) ?_
    fun i hi t ht => ?_
  · rw [Nat.zero_mul]
    exact .zero addr f s.mem
  · rw [Nat.succ_mul]
    refine Ensures.forUpTo (fun j (u : St) => Mem.Stored addr f (i * n + j) s.mem u.mem) ht
      fun j hj u hu => ?_
    obtain ⟨_, v, hrun, hv⟩ := hbody i hi j hj u hu
    refine .of_run hrun ?_
    rw [hv]
    exact hu.succ (hne _ (rowMajor_lt hi hj))

/-- The arguments of `sgemm_golden`: three arrays, the last apart from the others. -/
structure SgemmArgs (m k n : ℕ) where
  a : ℕ
  b : ℕ
  c : ℕ
  apart_a : ∀ x < m * k, ∀ y < m * n, a + x ≠ c + y
  apart_b : ∀ x < k * n, ∀ y < m * n, b + x ≠ c + y
  off : OffRegisters c (m * n)

section Sgemm

variable {m k n : ℕ}

/-- Before an entry is stored, and while it is, memory is as it was at the start but for the
entries. -/
theorem rest_kept {addr : ℕ → ℕ} {f : ℕ → UInt8} {q N : ℕ} {s t u : St} (hq : q < N)
    (ht : Mem.Stored addr f q s.mem t.mem) (hu : ∀ x, x ≠ addr q → u.mem x = t.mem x) :
    ∀ a, (∀ x < N, a ≠ addr x) → u.mem a = s.mem a := by
  intro a ha
  rw [hu a (ha q hq)]
  exact ht.others a fun x hx => ha x (hx.trans hq)

/-- Entry `q` of the product of two matrices in memory. -/
def memProduct (k n a b : ℕ) (s : St) (q : ℕ) : UInt8 :=
  productEntry k n (fun x => s.mem (a + x)) (fun x => s.mem (b + x)) (q / n) (q % n)

theorem memProduct_eq {i j a b : ℕ} (s : St) (hj : j < n) : memProduct k n a b s (i * n + j) =
    ∑ l ∈ range k, s.mem (a + (i * k + l)) * s.mem (b + (l * n + j)) := by
  rw [memProduct, rowMajor_div hj, rowMajor_mod hj]
  rfl

theorem sgemmGolden_stored (g : SgemmArgs m k n) (s : St) :
    Ensures (sgemmGolden m k n g.a g.b g.c) s fun _ t =>
      Mem.Stored (fun x => g.c + x) (fun x => s.mem (g.c + x) + memProduct k n g.a g.b s x)
        (m * n) s.mem t.mem := by
  refine entries_stored s (fun x _ y hy => by omega) fun i hi j hj t ht => ?_
  have hq := rowMajor_lt hi hj
  have hold : t.mem (g.c + (i * n + j)) = s.mem (g.c + (i * n + j)) :=
    ht.others _ fun y hy => by omega
  rw [memProduct_eq s hj, ← hold]
  refine accumulate_into t fun l hl u hu => ?_
  have hoff : OffRegisters (g.c + (i * n + j)) 1 := g.off.at hq
  have ha := rowMajor_lt hi hl
  have hb := rowMajor_lt hl hj
  refine .step (load_run _ _) (.step (load_run _ _) (.step (load_run _ _)
    (.of_run (store_run hoff _ _) ?_)))
  have hrest := rest_kept hq ht hu
  have hreadA : u.mem (g.a + (i * k + l)) = s.mem (g.a + (i * k + l)) :=
    hrest _ fun y hy => g.apart_a _ ha y hy
  have hreadB : u.mem (g.b + (j + l * n)) = s.mem (g.b + (l * n + j)) := by
    rw [Nat.add_comm j]
    exact hrest _ fun y hy => g.apart_b _ hb y hy
  rw [← hreadA, ← hreadB]

end Sgemm

/-! ### Rows through pointers -/

/-- Row `i` of a `uint8_t **`. -/
def rowAt (s : St) (table i : ℕ) : ℕ := (wordAt s.mem (table + 4 * i)).toNat

/-- Entry `q` of a `uint8_t **` with rows of `m`. -/
def entryAt (s : St) (table m q : ℕ) : ℕ := rowAt s table (q / m) + q % m

/-- None of the first `q` places is a byte of the first `r` pointers of a table, or among the
first `o` elements of their rows. -/
structure ApartFrom (s : St) (table r o q : ℕ) (addr : ℕ → ℕ) : Prop where
  pointers : ∀ i < r, ∀ y < 4, ∀ x < q, wordByte (table + 4 * i) y ≠ addr x
  rows : ∀ i < r, ∀ l < o, ∀ x < q, rowAt s table i + l ≠ addr x

/-- The arguments of `matmul_golden`: three matrices, the entries of the last apart from each
other and from what is read. -/
structure GoldenArgs (n m o : ℕ) (s : St) where
  a : ℕ
  b : ℕ
  c : ℕ
  distinct : ∀ x < n * m, ∀ y < x, entryAt s c m y ≠ entryAt s c m x
  off : ∀ x < n * m, OffRegisters (entryAt s c m x) 1
  apart_a : ApartFrom s a n o (n * m) (entryAt s c m)
  apart_b : ApartFrom s b m o (n * m) (entryAt s c m)
  apart_c : ApartFrom s c n 0 (n * m) (entryAt s c m)

section Golden

variable {n m o r q N table i : ℕ} {addr : ℕ → ℕ} {f : ℕ → UInt8} {s t u : St}

/-- A row is where its pointer was before the entries changed. -/
theorem rowAt_kept (h : ApartFrom s table r o N addr) (hi : i < r)
    (hu : ∀ a, (∀ x < N, a ≠ addr x) → u.mem a = s.mem a) :
    rowAt u table i = rowAt s table i := by
  have hbyte : ∀ y < 4, u.mem (wordByte (table + 4 * i) y) = s.mem (wordByte (table + 4 * i) y) :=
    fun y hy => hu _ fun x hx => h.pointers i hi y hy x hx
  rw [rowAt, rowAt, wordAt, wordAt, hbyte 0 (by decide), hbyte 1 (by decide), hbyte 2 (by decide),
    hbyte 3 (by decide)]

theorem element_run (table i l : ℕ) (s : St) : Ensures (element table i l) s fun v t =>
    v = s.mem (rowAt s table i + l) ∧ t.mem = s.mem := by
  refine .bind (lw_run _ s) ?_
  rintro _ t ⟨rfl, ht⟩
  refine .of_run (load_run _ _) ⟨?_, ht⟩
  rw [ht]
  rfl

/-- An element is what it was before the entries changed. -/
theorem element_kept {l : ℕ} (h : ApartFrom s table r o N addr) (hi : i < r) (hl : l < o)
    (hu : ∀ a, (∀ x < N, a ≠ addr x) → u.mem a = s.mem a) :
    Ensures (element table i l) u fun v w => v = s.mem (rowAt s table i + l) ∧ w.mem = u.mem := by
  obtain ⟨v, w, hrun, hv, hw⟩ := element_run table i l u
  refine .of_run hrun ⟨?_, hw⟩
  rw [hv, rowAt_kept h hi hu]
  exact hu _ fun x hx => h.rows i hi l hl x hx

/-- The pointer to the row of an entry, whenever it is read. -/
theorem entryAt_kept (g : GoldenArgs n m o s) {j : ℕ} (hi : i < n) (hj : j < m)
    (hu : ∀ a, (∀ x < n * m, a ≠ entryAt s g.c m x) → u.mem a = s.mem a) :
    rowAt u g.c i + j = entryAt s g.c m (i * m + j) := by
  rw [rowAt_kept g.apart_c hi hu, entryAt, rowMajor_div hj, rowMajor_mod hj]

/-- A term more. -/
theorem goldenTerm_run (g : GoldenArgs n m o s) {j l : ℕ} (hi : i < n) (hj : j < m) (hl : l < o)
    (hu : ∀ a, (∀ x < n * m, a ≠ entryAt s g.c m x) → u.mem a = s.mem a) :
    Ensures (do
        let z ← element g.c i j
        let x ← element g.a i l
        let y ← element g.b j l
        let row ← lw (g.c + 4 * i)
        store (row.toNat + j) (z + x * y)) u fun _ v =>
      v.mem = u.mem.store (entryAt s g.c m (i * m + j)) (u.mem (entryAt s g.c m (i * m + j)) +
        s.mem (rowAt s g.a i + l) * s.mem (rowAt s g.b j + l)) := by
  refine .bind (element_run g.c i j u) ?_
  rintro _ u₁ ⟨rfl, hu₁⟩
  rw [entryAt_kept g hi hj hu]
  refine .bind (element_kept g.apart_a hi hl (by rwa [hu₁])) ?_
  rintro _ u₂ ⟨rfl, hu₂⟩
  rw [hu₁] at hu₂
  refine .bind (element_kept g.apart_b hj hl (by rwa [hu₂])) ?_
  rintro _ u₃ ⟨rfl, hu₃⟩
  rw [hu₂] at hu₃
  refine .bind (lw_run _ u₃) ?_
  rintro _ u₄ ⟨rfl, hu₄⟩
  have hrow : (wordAt u₃.mem (g.c + 4 * i)).toNat + j = entryAt s g.c m (i * m + j) :=
    entryAt_kept g hi hj (by rwa [hu₃])
  rw [hrow]
  refine .of_run (store_run (g.off _ (rowMajor_lt hi hj)) _ _) ?_
  rw [hu₄, hu₃]

/-- Entry `q` of the product of a matrix and the transpose of another. -/
def goldenEntry (s : St) (a b m o q : ℕ) : UInt8 :=
  ∑ l ∈ range o, s.mem (rowAt s a (q / m) + l) * s.mem (rowAt s b (q % m) + l)

theorem matmulGolden_stored (g : GoldenArgs n m o s) :
    Ensures (matmulGolden g.a g.b g.c n m o) s fun _ t =>
      Mem.Stored (entryAt s g.c m) (goldenEntry s g.a g.b m o) (n * m) s.mem t.mem := by
  refine entries_stored s g.distinct fun i hi j hj t ht => ?_
  have hq := rowMajor_lt hi hj
  refine .bind (lw_run _ t) ?_
  rintro _ t₁ ⟨rfl, ht₁⟩
  have hrow : (wordAt t.mem (g.c + 4 * i)).toNat + j = entryAt s g.c m (i * m + j) :=
    entryAt_kept g hi hj (rest_kept hq ht fun _ _ => rfl)
  rw [hrow]
  refine .bind (store_stored (g.off _ hq) 0 t₁) fun _ t₂ ht₂ => ?_
  rw [ht₁] at ht₂
  have hentry : goldenEntry s g.a g.b m o (i * m + j) =
      ∑ l ∈ range o, s.mem (rowAt s g.a i + l) * s.mem (rowAt s g.b j + l) := by
    rw [goldenEntry, rowMajor_div hj, rowMajor_mod hj]
  have hloop := accumulate_into (d := entryAt s g.c m (i * m + j)) t₂ fun l hl u hu =>
    goldenTerm_run g hi hj hl (rest_kept hq ht fun x hx => by
      rw [hu x hx, ht₂, Mem.store_of_ne _ _ hx])
  obtain ⟨_, v, hrun, hv⟩ := hloop
  refine .of_run hrun ?_
  rw [hv, ht₂, Mem.store_self, Mem.store_store, zero_add, hentry]

end Golden

/-! ### The three agree -/

section Agree

variable {m k n : ℕ}

/-- `r_v_mgmt.A` and `r_v_mgmt.B` hold the arguments of `sgemm_golden`. -/
structure VecsHold (p : Platform) (g : SgemmArgs m k n) (s u : St) : Prop where
  a : ∀ x < m * k, p.vec u .a x = s.mem (g.a + x)
  b : ∀ x < k * n, p.vec u .b x = s.mem (g.b + x)

/-- The rows of the arguments of `matmul_golden` hold the rows of `a` and those of the
transpose of `b`. -/
structure RowsHold (g : SgemmArgs m k n) (s : St) {u : St} (h : GoldenArgs m n k u) : Prop where
  a : ∀ i < m, ∀ l < k, u.mem (rowAt u h.a i + l) = s.mem (g.a + (i * k + l))
  b : ∀ j < n, ∀ l < k, u.mem (rowAt u h.b j + l) = s.mem (g.b + (l * n + j))

/-- `sgemm_golden` has added the product to its result and changed nothing else. -/
structure ProductAdded (g : SgemmArgs m k n) (s t : St) : Prop where
  entries : ∀ i < m, ∀ j < n, t.mem (g.c + (i * n + j)) = s.mem (g.c + (i * n + j)) +
    ∑ l ∈ range k, s.mem (g.a + (i * k + l)) * s.mem (g.b + (l * n + j))
  others : ∀ x, ¬ (g.c ≤ x ∧ x < g.c + m * n) → t.mem x = s.mem x

theorem sgemmGolden_added (g : SgemmArgs m k n) (s : St) :
    Ensures (sgemmGolden m k n g.a g.b g.c) s fun _ t => ProductAdded g s t := by
  obtain ⟨_, t, hrun, ht⟩ := sgemmGolden_stored g s
  refine .of_run hrun ⟨fun i hi j hj => ?_, fun x hx => ht.others x fun y hy => by omega⟩
  rw [← memProduct_eq s hj]
  exact ht.entries _ (rowMajor_lt hi hj)

/-- From a result of zeros. -/
theorem ProductAdded.entry_eq {g : SgemmArgs m k n} {s t : St} (ht : ProductAdded g s t)
    (hzero : ∀ x < m * n, s.mem (g.c + x) = 0) {i j : ℕ} (hi : i < m) (hj : j < n) :
    t.mem (g.c + (i * n + j)) =
      ∑ l ∈ range k, s.mem (g.a + (i * k + l)) * s.mem (g.b + (l * n + j)) := by
  rw [ht.entries i hi j hj, hzero _ (rowMajor_lt hi hj), zero_add]

theorem matmulCpu_eq (hmk : m * k ≤ randomVectorsSize) (hkn : k * n ≤ randomVectorsSize)
    (hmn : m * n ≤ randomVectorsSize) {g : SgemmArgs m k n} {s u : St} (hu : VecsHold p g s u) :
    Ensures (matmulCpu p m k n) u fun _ v => ∀ i < m, ∀ j < n, p.vec v .c (i * n + j) =
      ∑ l ∈ range k, s.mem (g.a + (i * k + l)) * s.mem (g.b + (l * n + j)) := by
  obtain ⟨_, v, hrun, hv⟩ := matmulCpu_filled hmk hkn hmn u
  refine .of_run hrun fun i hi j hj => ?_
  have hq := rowMajor_lt hi hj
  rw [hv.c _ (by omega), if_pos hq, productEntry_congr (exists_rowMajor hq).1
    (exists_rowMajor hq).2.1 hu.a hu.b]
  exact memProduct_eq s hj

theorem matmulGolden_eq {g : SgemmArgs m k n} {s u : St} {h : GoldenArgs m n k u}
    (hu : RowsHold g s h) :
    Ensures (matmulGolden h.a h.b h.c m n k) u fun _ v => ∀ i < m, ∀ j < n,
      v.mem (rowAt v h.c i + j) =
        ∑ l ∈ range k, s.mem (g.a + (i * k + l)) * s.mem (g.b + (l * n + j)) := by
  obtain ⟨_, v, hrun, hv⟩ := matmulGolden_stored h
  refine .of_run hrun fun i hi j hj => ?_
  rw [entryAt_kept h hi hj hv.others, hv.entries _ (rowMajor_lt hi hj), goldenEntry,
    rowMajor_div hj, rowMajor_mod hj]
  refine sum_congr rfl fun l hl => ?_
  rw [hu.a i hi l (mem_range.mp hl), hu.b j hj l (mem_range.mp hl)]

/-- **The references agree.** `sgemm_golden` adds the product to its result and changes
nothing else. From a result of zeros it leaves what `matmul_cpu` writes to `r_v_mgmt.C` from
the same matrices, and what `matmul_golden` leaves from their rows and columns. -/
theorem references_agree (hmk : m * k ≤ randomVectorsSize) (hkn : k * n ≤ randomVectorsSize)
    (hmn : m * n ≤ randomVectorsSize) (g : SgemmArgs m k n) (s : St) :
    Ensures (sgemmGolden m k n g.a g.b g.c) s fun _ t => ProductAdded g s t ∧
      ((∀ x < m * n, s.mem (g.c + x) = 0) →
        (∀ u, VecsHold p g s u → Ensures (matmulCpu p m k n) u fun _ v =>
          ∀ i < m, ∀ j < n, p.vec v .c (i * n + j) = t.mem (g.c + (i * n + j))) ∧
        ∀ u (h : GoldenArgs m n k u), RowsHold g s h →
          Ensures (matmulGolden h.a h.b h.c m n k) u fun _ v =>
            ∀ i < m, ∀ j < n, v.mem (rowAt v h.c i + j) = t.mem (g.c + (i * n + j))) := by
  obtain ⟨_, t, hrun, ht⟩ := sgemmGolden_added g s
  refine .of_run hrun ⟨ht, fun hzero => ⟨fun u hu => ?_, fun u h hu => ?_⟩⟩
  · obtain ⟨_, v, hcpu, hv⟩ := matmulCpu_eq hmk hkn hmn hu
    exact .of_run hcpu fun i hi j hj => (hv i hi j hj).trans (ht.entry_eq hzero hi hj).symm
  · obtain ⟨_, v, hgolden, hv⟩ := matmulGolden_eq hu
    exact .of_run hgolden fun i hi j hj => (hv i hi j hj).trans (ht.entry_eq hzero hi hj).symm

/-- `a` at `0`, `b` at `4`, the rows of its transpose at `8` and `10`, the result of `sgemm_golden`
at `12`, the rows of that of `matmul_golden` at `16` and `18`, and the pointers from `20`. -/
def twoByTwo : Mem := fun x =>
  [2, 3, 5, 7, 1, 2, 3, 4, 1, 3, 2, 4, 0, 0, 0, 0, 9, 9, 9, 9, 0, 0, 0, 0, 2, 0, 0, 0,
    8, 0, 0, 0, 10, 0, 0, 0, 16, 0, 0, 0, 18, 0, 0, 0].getD x 0

/-- The same matrices in `r_v_mgmt`, with other bytes after them. -/
def twoByTwoVecs : Mem := fun x =>
  if x < 0x80001200 then [2, 3, 5, 7].getD (x - 0x80001000) 9
  else [1, 2, 3, 4].getD (x - 0x80001200) 9

/-- The arguments of `sgemm_golden` in it. -/
def flatArgs : SgemmArgs 2 2 2 where
  a := 0
  b := 4
  c := 12
  apart_a := by decide
  apart_b := by decide
  off := by decide

/-- The arguments of `matmul_golden` in it. -/
def rowArgs : GoldenArgs 2 2 2 (.rest twoByTwo) where
  a := 20
  b := 28
  c := 36
  distinct := by decide
  off := by decide
  apart_a := ⟨by decide, by decide⟩
  apart_b := ⟨by decide, by decide⟩
  apart_c := ⟨by decide, by decide⟩

/-- The last entry is `5 * 2 + 7 * 4`. -/
theorem references_agree_two_rows :
    Ensures (sgemmGolden 2 2 2 0 4 12) (.rest twoByTwo) fun _ t => t.mem 15 = 38 ∧
      Ensures (matmulCpu (.reference 1) 2 2 2) (.rest twoByTwoVecs) (fun _ v =>
        (Platform.reference 1).vec v .c 3 = 38) ∧
      Ensures (matmulGolden 20 28 36 2 2 2) (.rest twoByTwo) fun _ v =>
        v.mem (rowAt v 36 1 + 1) = 38 := by
  obtain ⟨_, t, hrun, ht, hagree⟩ := references_agree (p := .reference 1) (by decide) (by decide)
    (by decide) flatArgs (.rest twoByTwo)
  obtain ⟨hcpu, hgolden⟩ := hagree (by decide)
  obtain ⟨_, u, hrunCpu, hu⟩ := hcpu (.rest twoByTwoVecs) ⟨by decide, by decide⟩
  obtain ⟨_, v, hrunGolden, hv⟩ := hgolden _ rowArgs ⟨by decide, by decide⟩
  have hentry : t.mem 15 = 38 := ht.entry_eq (by decide) Nat.one_lt_two Nat.one_lt_two
  refine .of_run hrun ⟨hentry, .of_run hrunCpu ?_, .of_run hrunGolden ?_⟩
  · exact (hu 1 (by decide) 1 (by decide)).trans hentry
  · exact (hv 1 (by decide) 1 (by decide)).trans hentry

end Agree

end RocketAp.Kernels
