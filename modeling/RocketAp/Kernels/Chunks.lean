import RocketAp.Hal.Effects
import RocketAp.Hal.Vectors
import RocketAp.Kernels.Functions

/-!
# A vector operation in chunks

`vector_ap_op_kernel_horizontal` computes on vectors longer than a column: it loads a
chunk of `A` and one of `B`, triggers, and reads the chunk of results back. `A` and `B`
advance with the chunk and `C` does not, so every chunk is read to the start of `C` and
the last ones written are what remains (`AfterChunks`).

`vectorKernel_iff`: for given contents the result is right exactly when the chunks that
remain hold what the first chunk should; for a given size it is right for all contents
exactly when there is one column of it.
-/

namespace RocketAp.Kernels

open ProgramLogic Device Hal

variable {p : Platform}

/-! ### Columns and buffers -/

/-- The reads of `n` bytes from `a`. -/
def byteReads (a n : ℕ) : List Access := (List.range n).map fun i => .byte (a + i)

theorem mem_byteReads {a n x : ℕ} : .byte x ∈ byteReads a n ↔ a ≤ x ∧ x < a + n := by
  simp only [byteReads, List.mem_map, List.mem_range, Access.byte.injEq]
  exact ⟨fun ⟨i, hi, h⟩ => by omega, fun h => ⟨x - a, by omega, by omega⟩⟩

/-- A chunk loaded into a column. -/
theorem apWriteVector_changed (col : APCollunm) {V n : ℕ} (hn : n ≤ apColSize)
    (hap : V + n ≤ apBaseAddr ∨ apEndAddr ≤ V) (s : St) :
    Ensures (apWriteVector col .left V n) s fun _ t =>
      Changed s t (Function.update s.cams ⟨col, false⟩
        ((s.cams ⟨col, false⟩).write 0 n fun i => s.mem (V + i))) ∧
      t.reads = s.reads ++ byteReads V n := by
  have hbase : finalAddr col .left = Cam.base ⟨col, false⟩ := finalAddr_left col
  have hge := Cam.base_ge ⟨col, false⟩
  have hle := Cam.base_le ⟨col, false⟩
  have hw := apWindow
  have hcopy : s.mem.copyLoop (finalAddr col .left) V n =
      s.mem.write (Cam.base ⟨col, false⟩ + 0) n fun i => s.mem (V + i) := by
    rw [hbase]
    exact Mem.copyLoop_eq_copy s.mem (by omega)
  refine .of_run (apWriteVector_run col .left V hn s) ⟨⟨?_, fun a ha => ?_⟩, rfl⟩
  · show camsOf (s.mem.copyLoop (finalAddr col .left) V n) = _
    rw [hcopy]
    exact camsOf_write_base s.mem ⟨col, false⟩ _ (by omega)
  · refine Mem.copyLoop_of_not_mem s.mem fun ⟨h₁, h₂⟩ => ha ?_
    rw [hbase] at h₁ h₂
    exact ⟨by omega, by omega⟩

/-- A chunk of results read back. -/
theorem apReadVector_changed {V n : ℕ} (hn : n ≤ apColSize)
    (hap : V + n ≤ apBaseAddr ∨ apEndAddr ≤ V) (s : St) :
    Ensures (apReadVector .camC .left V n) s fun _ t =>
      (∀ r : Fin apColSize, (r : ℕ) < n → t.mem (V + r) = s.cams .c0 r) ∧
        (∀ a, ¬ (V ≤ a ∧ a < V + n) → t.mem a = s.mem a) ∧
        t.reads = s.reads ++ byteReads Cam.c0.base n := by
  have hle := Cam.c0.base_le
  have hge := Cam.c0.base_ge
  have hw := apWindow
  have hoff : OffRegisters V n := by
    unfold OffRegisters
    omega
  have hbase : finalAddr .camC .left = Cam.c0.base := rfl
  refine .of_run (apReadVector_run .camC .left hoff hn s) ⟨fun r hr => ?_, fun a ha => ?_, rfl⟩
  · exact copyLoop_at s.mem (by omega) hr
  · exact Mem.copyLoop_of_not_mem s.mem ha

/-! ### A chunk -/

/-- What the CPU computes for element `x` of two vectors. -/
def resultAt (op : APOperations) (A B : ℕ) (s : St) (x : ℕ) : UInt8 :=
  apUnitTestSw op (s.mem (A + x)) (s.mem (B + x))

/-- A chunk of `n` elements from `start`: its results are at the start of `C`. -/
structure ChunkDone (op : APOperations) (A B C start n : ℕ) (s u : St) : Prop where
  out : ∀ x < n, u.mem (C + x) = resultAt op A B s (start + x)
  frame : ∀ a, ¬ InColumns a → ¬ (C ≤ a ∧ a < C + n) → u.mem a = s.mem a
  reads : u.reads = s.reads ++ (byteReads (A + start) n ++ byteReads (B + start) n ++
    byteReads Cam.c0.base n)

theorem chunk_done (hp : p.Triggers) (hr : p.Resets) {op : APOperations}
    (hop : p.RunsRowwise op) {A B C start n : ℕ} (hn : n ≤ apColSize)
    (hA : A + start + n ≤ apBaseAddr ∨ apEndAddr ≤ A + start)
    (hB : B + start + n ≤ apBaseAddr ∨ apEndAddr ≤ B + start)
    (hC : C + n ≤ apBaseAddr ∨ apEndAddr ≤ C) (s : St) :
    Ensures (do
        apWriteVector .camA .left (A + start) n
        apWriteVector .camB .left (B + start) n
        apTriggerComputingWWait p op .horizontal .left
        apReadVector .camC .left C n) s fun _ u => ChunkDone op A B C start n s u := by
  have hw := apWindow
  apply Ensures.bind (apWriteVector_changed .camA hn hA s)
  rintro _ s₁ ⟨h₁, hr₁⟩
  apply Ensures.bind (apWriteVector_changed .camB hn hB s₁)
  rintro _ s₂ ⟨h₂, hr₂⟩
  apply Ensures.bind (rowwise_left_ran hp hr hop s₂)
  intro _ s₃ h₃
  apply (apReadVector_changed hn hC s₃).mono
  rintro _ u ⟨hout, hframe, hreads⟩
  have hB₁ : ∀ x < n, s₁.mem (B + start + x) = s.mem (B + start + x) := fun x hx =>
    h₁.outside _ fun ⟨ha₁, ha₂⟩ => by omega
  constructor
  · intro x hx
    have hx' : x < apColSize := by omega
    refine (hout ⟨x, hx'⟩ hx).trans ?_
    rw [h₃.cams, Function.update_self, h₂.cams, Function.update_self,
      Function.update_of_ne (by decide), h₁.cams, Function.update_self, Column.write_zero,
      Column.write_zero]
    simp only [if_pos hx]
    rw [hB₁ x hx, resultAt, Nat.add_assoc, Nat.add_assoc]
  · intro a ha hC
    rw [hframe a hC, h₃.outside a ha, h₂.outside a ha, h₁.outside a ha]
  · rw [hreads, h₃.reads, hr₂, hr₁, List.append_assoc, List.append_assoc, List.append_assoc]

/-! ### The loop -/

/-- The arguments of the kernel: three buffers of `size` bytes or more, `C` apart from the
other two, and a size that with a chunk added is an `int`. -/
structure Args (na nb nc size : ℕ) where
  A : Buf na
  B : Buf nb
  C : Buf nc
  fitsA : size ≤ na
  fitsB : size ≤ nb
  fitsC : size ≤ nc
  apartA : C.addr + nc ≤ A.addr ∨ A.addr + na ≤ C.addr
  apartB : C.addr + nc ≤ B.addr ∨ B.addr + nb ≤ C.addr
  isInt : size + apColSize < 2 ^ 31

section Loop

variable {na nb nc size : ℕ} (x : Args na nb nc size) (op : APOperations)

/-- The kernel, called. -/
def Args.run (p : Platform) : Prog Unit :=
  vectorApOpKernelHorizontal p op x.A.addr x.B.addr x.C.addr size

/-- What the CPU computes for element `i`. -/
def Args.result (s : St) (i : ℕ) : UInt8 := resultAt op x.A.addr x.B.addr s i

/-- An address in the first `size` bytes of `A` or of `B`, or in the columns. -/
def Args.Within (a : ℕ) : Prop :=
  (x.A.addr ≤ a ∧ a < x.A.addr + size) ∨ (x.B.addr ≤ a ∧ a < x.B.addr + size) ∨ InColumns a

/-- Every byte read between `s` and `t` is there. -/
def Args.ReadsWithin (s t : St) : Prop :=
  ∃ l, t.reads = s.reads ++ l ∧ ∀ a, .byte a ∈ l → x.Within a

variable {x op}

theorem Args.ReadsWithin.append {s t u : St} {l : List Access} (h : x.ReadsWithin s t)
    (hu : u.reads = t.reads ++ l) (hl : ∀ a, .byte a ∈ l → x.Within a) : x.ReadsWithin s u := by
  obtain ⟨l₀, ht, hl₀⟩ := h
  refine ⟨l₀ ++ l, by rw [hu, ht, List.append_assoc], fun a ha => ?_⟩
  rcases List.mem_append.mp ha with ha | ha
  · exact hl₀ a ha
  · exact hl a ha

/-- A chunk before the last. -/
theorem chunkSize_full {i : ℕ} (hsize : size + apColSize < 2 ^ 31) (hi : i < size / apColSize) :
    chunkSize size (apColSize * i) = apColSize := by
  have hmul : apColSize * (i + 1) ≤ size := by
    rw [Nat.mul_comm]
    exact (Nat.le_div_iff_mul_le (by decide)).mp hi
  have hsucc : apColSize * (i + 1) = apColSize * i + apColSize := Nat.mul_succ _ _
  have hmod : (apColSize * i + apColSize) % 2 ^ 32 = apColSize * i + apColSize :=
    Nat.mod_eq_of_lt (by omega)
  rw [chunkSize, hmod, if_neg (by omega)]

/-- The last. -/
theorem chunkSize_last (hsize : size + apColSize < 2 ^ 31) :
    chunkSize size (apColSize * (size / apColSize)) = size % apColSize := by
  have hdiv := Nat.div_add_mod size apColSize
  have hlt : size % apColSize < apColSize := Nat.mod_lt _ (by decide)
  have hmod : (apColSize * (size / apColSize) + apColSize) % 2 ^ 32 =
      apColSize * (size / apColSize) + apColSize := Nat.mod_eq_of_lt (by omega)
  rw [chunkSize, hmod, if_pos (by omega)]

/-- After `i` whole chunks: the results of the last are at the start of `C`. -/
structure AfterChunks (x : Args na nb nc size) (op : APOperations) (i : ℕ) (s u : St) : Prop where
  out : 0 < i → ∀ j < apColSize, u.mem (x.C.addr + j) = x.result op s (apColSize * (i - 1) + j)
  frame : ∀ a, ¬ InColumns a → ¬ (0 < i ∧ x.C.addr ≤ a ∧ a < x.C.addr + apColSize) →
    u.mem a = s.mem a
  reads : x.ReadsWithin s u

/-- No element of `A` or `B` is in the columns or in `C`. -/
theorem AfterChunks.result_eq {i : ℕ} {s t : St} (hi : i * apColSize ≤ size)
    (ht : AfterChunks x op i s t) {j : ℕ} (hj : j < size) :
    x.result op t j = x.result op s j := by
  have hA := x.A.apart
  have hB := x.B.apart
  have hw := apWindow
  have hfitsA := x.fitsA
  have hfitsB := x.fitsB
  have hfitsC := x.fitsC
  have hapartA := x.apartA
  have hapartB := x.apartB
  have hC : 0 < i → apColSize ≤ size := fun h => Nat.le_trans (Nat.le_mul_of_pos_left _ h) hi
  rw [Args.result, Args.result, resultAt, resultAt,
    ht.frame (x.A.addr + j) (fun ⟨h₁, h₂⟩ => by omega) (fun ⟨h₀, h₁, h₂⟩ => by
      have := hC h₀
      omega),
    ht.frame (x.B.addr + j) (fun ⟨h₁, h₂⟩ => by omega) (fun ⟨h₀, h₁, h₂⟩ => by
      have := hC h₀
      omega)]

/-- A chunk of the arguments, and what it reads. -/
theorem Args.chunk (x : Args na nb nc size) (hp : p.Triggers) (hr : p.Resets)
    (hop : p.RunsRowwise op) {start n : ℕ} (hn : n ≤ apColSize) (hin : start + n ≤ size) (s : St) :
    Ensures (do
        apWriteVector .camA .left (x.A.addr + start) n
        apWriteVector .camB .left (x.B.addr + start) n
        apTriggerComputingWWait p op .horizontal .left
        apReadVector .camC .left x.C.addr n) s fun _ u =>
      ChunkDone op x.A.addr x.B.addr x.C.addr start n s u ∧ x.ReadsWithin s u := by
  have hA := x.A.apart
  have hB := x.B.apart
  have hC := x.C.apart
  have hfitsA := x.fitsA
  have hfitsB := x.fitsB
  have hfitsC := x.fitsC
  refine (chunk_done hp hr hop hn (by omega) (by omega) (by omega) s).mono fun _ u hu =>
    ⟨hu, _, hu.reads, fun a ha => ?_⟩
  rw [List.mem_append, List.mem_append, mem_byteReads, mem_byteReads, mem_byteReads] at ha
  rcases ha with (⟨h₁, h₂⟩ | ⟨h₁, h₂⟩) | ⟨h₁, h₂⟩
  · exact Or.inl ⟨by omega, by omega⟩
  · exact Or.inr (Or.inl ⟨by omega, by omega⟩)
  · obtain ⟨r, rfl⟩ := Nat.exists_eq_add_of_le h₁
    exact Or.inr (Or.inr (inColumns_base .c0 (by omega)))

/-- A chunk more. -/
theorem AfterChunks.step (hp : p.Triggers) (hr : p.Resets) (hop : p.RunsRowwise op) {i : ℕ}
    {s t : St} (hi : i < size / apColSize) (ht : AfterChunks x op i s t) :
    Ensures (do
        apWriteVector .camA .left (x.A.addr + apColSize * i) apColSize
        apWriteVector .camB .left (x.B.addr + apColSize * i) apColSize
        apTriggerComputingWWait p op .horizontal .left
        apReadVector .camC .left x.C.addr apColSize) t fun _ u => AfterChunks x op (i + 1) s u := by
  have hmul : apColSize * (i + 1) ≤ size := by
    rw [Nat.mul_comm]
    exact (Nat.le_div_iff_mul_le (by decide)).mp hi
  have hin : apColSize * i + apColSize ≤ size := hmul
  have hle : i * apColSize ≤ size := by
    rw [Nat.mul_comm]
    exact Nat.le_trans (Nat.le_add_right _ _) hin
  have hlt : ∀ j < apColSize, apColSize * i + j < size := fun j hj =>
    Nat.lt_of_lt_of_le (Nat.add_lt_add_left hj _) hin
  have hchunk := x.chunk hp hr hop (Nat.le_refl apColSize) hin t
  refine hchunk.mono fun _ u ⟨hu, l, hl, hin⟩ => ⟨fun _ j hj => ?_, fun a ha hC => ?_, ?_⟩
  · rw [Nat.add_sub_cancel, ← ht.result_eq hle (hlt j hj)]
    exact hu.out j hj
  · have hC' : ¬ (x.C.addr ≤ a ∧ a < x.C.addr + apColSize) := fun h => hC ⟨Nat.succ_pos i, h⟩
    rw [hu.frame a ha hC', ht.frame a ha fun h => hC' h.2]
  · exact ht.reads.append hl hin

/-- What the kernel leaves in `C`: the results of the last chunk, then those of the whole
chunk before it, and past a column what was there. -/
structure KernelDone (x : Args na nb nc size) (op : APOperations) (s u : St) : Prop where
  last : ∀ j < size % apColSize,
    u.mem (x.C.addr + j) = x.result op s (apColSize * (size / apColSize) + j)
  before : ∀ j < apColSize, size % apColSize ≤ j → j < size →
    u.mem (x.C.addr + j) = x.result op s (apColSize * (size / apColSize - 1) + j)
  rest : ∀ j < nc, size ≤ j ∨ apColSize ≤ j → u.mem (x.C.addr + j) = s.mem (x.C.addr + j)
  reads : x.ReadsWithin s u

/-- **The kernel.** -/
theorem kernel_done (hp : p.Triggers) (hr : p.Resets) (hop : p.RunsRowwise op) (s : St) :
    Ensures (x.run op p) s fun _ u => KernelDone x op s u := by
  have hsize := x.isInt
  have hdiv := Nat.div_add_mod size apColSize
  have hmod : size % apColSize < apColSize := Nat.mod_lt _ (by decide)
  have hcomm : size / apColSize * apColSize = apColSize * (size / apColSize) := Nat.mul_comm _ _
  have hpos : 0 < size / apColSize → apColSize ≤ size := fun h =>
    (Nat.div_pos_iff.mp h).2
  -- the whole chunks
  refine .bind (R := fun _ t => AfterChunks x op (size / apColSize) s t) ?_ fun _ t ht => ?_
  · refine Ensures.forUpTo (fun i t => AfterChunks x op i s t) ?_ fun i hi t ht => ?_
    · exact ⟨nofun, fun _ _ _ => rfl, [], by simp, nofun⟩
    · simp only [chunkSize_full hsize hi]
      exact ht.step hp hr hop hi
  -- the last
  · simp only [chunkSize_last hsize]
    have hchunk := x.chunk hp hr hop hmod.le hdiv.le t
    apply hchunk.mono
    rintro _ u ⟨hu, l, hl, hin⟩
    have hC := x.C.apart
    have hw := apWindow
    have hout : ∀ j < nc, ¬ InColumns (x.C.addr + j) := fun j hj ⟨h₁, h₂⟩ => by omega
    have hfitsC := x.fitsC
    constructor
    · intro j hj
      rw [hu.out j hj]
      exact ht.result_eq (by omega) (by omega)
    · intro j hj hge hlt
      rw [hu.frame _ (hout j (by omega)) (by omega)]
      exact ht.out (Nat.pos_of_ne_zero fun h => by rw [h] at hdiv; omega) j hj
    · intro j hj hge
      rw [hu.frame _ (hout j hj) (by omega), ht.frame _ (hout j hj) ?_]
      rintro ⟨h₀, h₁, h₂⟩
      have := hpos h₀
      omega
    · exact ht.reads.append hl hin

/-! ### When it is right -/

variable (x op)

/-- What the kernel is for: `C` holds the results, no byte of `C` past them has changed, and
no byte of `A` or `B` past `size` was read. -/
def Args.Computes (p : Platform) (s : St) : Prop :=
  Ensures (x.run op p) s fun _ t =>
    (∀ j < size, t.mem (x.C.addr + j) = x.result op s j) ∧
      (∀ j < nc, size ≤ j → t.mem (x.C.addr + j) = s.mem (x.C.addr + j)) ∧ x.ReadsWithin s t

/-- The last chunk, the one before it, and what lies past a column of `C`, hold what they
should. -/
structure Args.ChunksAgree (s : St) : Prop where
  last : ∀ j < size % apColSize,
    x.result op s (apColSize * (size / apColSize) + j) = x.result op s j
  before : ∀ j < apColSize, size % apColSize ≤ j →
    x.result op s (apColSize * (size / apColSize - 1) + j) = x.result op s j
  rest : ∀ j < size, apColSize ≤ j → s.mem (x.C.addr + j) = x.result op s j

variable {x op}

theorem computes_iff (hp : p.Triggers) (hr : p.Resets) (hop : p.RunsRowwise op) (s : St) :
    x.Computes op p s ↔ x.ChunksAgree op s := by
  have hdiv := Nat.div_add_mod size apColSize
  have hfitsC := x.fitsC
  obtain ⟨_, t, hrun, ht⟩ := kernel_done (x := x) hp hr hop s
  constructor
  · intro h
    have hout := (h.holds hrun).1
    constructor
    · intro j hj
      rw [← ht.last j hj, hout j (Nat.lt_of_lt_of_le hj (Nat.mod_le _ _))]
    · intro j hj hge
      rcases Nat.lt_or_ge j size with hlt | hle
      · rw [← ht.before j hj hge hlt, hout j hlt]
      · rw [Nat.div_eq_of_lt (Nat.lt_of_le_of_lt hle hj), Nat.zero_sub, Nat.mul_zero, Nat.zero_add]
    · intro j hj hge
      rw [← ht.rest j (by omega) (Or.inr hge), hout j hj]
  · intro h
    refine .of_run hrun ⟨fun j hj => ?_, fun j hj hge => ht.rest j hj (Or.inl hge), ht.reads⟩
    rcases Nat.lt_or_ge j (size % apColSize) with hlt | hge
    · rw [ht.last j hlt, h.last j hlt]
    · rcases Nat.lt_or_ge j apColSize with hlt | hge'
      · rw [ht.before j hlt hge hj, h.before j hlt hge]
      · rw [ht.rest j (by omega) (Or.inr hge'), h.rest j hj hge']

/-- With one column of elements there is nothing to disagree. -/
theorem chunksAgree_of_le (hsize : size ≤ apColSize) (s : St) : x.ChunksAgree op s := by
  have hdiv : size / apColSize - 1 = 0 :=
    Nat.sub_eq_zero_of_le (Nat.div_le_div_right hsize)
  constructor
  · intro j hj
    rcases Nat.lt_or_eq_of_le hsize with hlt | rfl
    · rw [Nat.div_eq_of_lt hlt, Nat.mul_zero, Nat.zero_add]
    · exact absurd hj (Nat.not_lt_zero j)
  · intro j _ _
    rw [hdiv, Nat.mul_zero, Nat.zero_add]
  · intro j hj hge
    exact absurd (Nat.lt_of_lt_of_le hj hsize) (Nat.not_lt.mpr hge)

/-- **The kernel.** For given contents it computes the results exactly when the chunks agree;
for a given size it does for all contents exactly when they fit in a column. -/
theorem vectorKernel_iff (hp : p.Triggers) (hr : p.Resets) (hop : p.RunsRowwise op)
    (x : Args na nb nc size) :
    (∀ s, x.Computes op p s ↔ x.ChunksAgree op s) ∧
      ((∀ s, x.Computes op p s) ↔ size ≤ apColSize) := by
  refine ⟨computes_iff hp hr hop, fun h => ?_, fun hsize s => ?_⟩
  · -- the byte of `C` after a column, which is not written
    by_contra hlt
    have hfitsA := x.fitsA
    have hfitsB := x.fitsB
    have hfitsC := x.fitsC
    have hapartA := x.apartA
    have hapartB := x.apartB
    have hsize : apColSize < size := Nat.not_le.mp hlt
    have hneA : x.A.addr + apColSize ≠ x.C.addr + apColSize := by omega
    have hneB : x.B.addr + apColSize ≠ x.C.addr + apColSize := by omega
    obtain ⟨m, hC, hA, hB⟩ : ∃ m : Mem, m (x.C.addr + apColSize) = apUnitTestSw op 0 0 + 1 ∧
        m (x.A.addr + apColSize) = 0 ∧ m (x.B.addr + apColSize) = 0 :=
      ⟨Mem.store (fun _ => 0) (x.C.addr + apColSize) (apUnitTestSw op 0 0 + 1),
        Mem.store_self _ _ _, Mem.store_of_ne _ _ hneA, Mem.store_of_ne _ _ hneB⟩
    have hrest : m (x.C.addr + apColSize) =
        apUnitTestSw op (m (x.A.addr + apColSize)) (m (x.B.addr + apColSize)) :=
      ((computes_iff hp hr hop (.rest m)).mp (h (.rest m))).rest apColSize hsize (Nat.le_refl _)
    rw [hC, hA, hB] at hrest
    exact absurd (add_eq_left.mp hrest) (by decide)
  · exact (computes_iff hp hr hop s).mpr (chunksAgree_of_le hsize s)

end Loop

/-- Three buffers one after the other. -/
def someArgs (size : ℕ) (h : size ≤ 1024) : Args 1024 1024 1024 size where
  A := ⟨0x80010000, by decide, by decide⟩
  B := ⟨0x80020000, by decide, by decide⟩
  C := ⟨0x80030000, by decide, by decide⟩
  fitsA := h
  fitsB := h
  fitsC := h
  apartA := by decide
  apartB := by decide
  isInt := by
    have : apColSize = 512 := rfl
    omega

/-- A column of elements. -/
theorem vectorKernel_column : (someArgs 512 (by decide)).Computes .add (.reference 2)
    (.rest fun a => a.toUInt8) :=
  (vectorKernel_iff (Platform.reference_triggers 2) (Platform.reference_resets 2)
    (Platform.reference_runsRowwise 2 rfl) (someArgs 512 (by decide))).2.mpr (Nat.le_refl _) _

/-- One more: `C[512]` is not written. -/
theorem vectorKernel_column_and_one : ¬ (someArgs 513 (by decide)).Computes .add (.reference 2)
    (.rest fun _ => 1) := by
  intro h
  have hop : (Platform.reference 2).RunsRowwise .add := Platform.reference_runsRowwise 2 rfl
  have hiff := computes_iff (x := someArgs 513 (by decide)) (Platform.reference_triggers 2)
    (Platform.reference_resets 2) hop (.rest fun _ => 1)
  exact absurd ((hiff.mp h).rest 512 (by decide) (Nat.le_refl _)) (by decide)

end RocketAp.Kernels
