import RocketAp.Hal.Functions

/-!
# Reading and writing vectors

`ap_write_vector` and `ap_read_vector` find the column by arithmetic on the
enumerations: `CAM_A_BASE_ADDR + 1024 * col + 512 * internal_col`. `LEFT` is `0`, and
the arithmetic agrees with the `CAM_x_0_BASE_ADDR` macros. `RIGHT` is the `MODE` mask
`0b111`, and `512 * 7` is past the columns and past the registers: the vector goes to
`0x80004e00 + 1024 * col` and no column is written or read.

The two agree with each other, so a round trip does not show it. `writesNamed_iff` is when
a write does what it says, and `apVectors_named_iff` when the two mean the named column.
-/

namespace RocketAp.Hal

open ProgramLogic Device

/-! ### Buffers -/

/-- A buffer of `n` bytes in the CPU's memory, outside the processor's window. -/
structure Buf (n : ℕ) where
  /-- Where it starts. -/
  addr : ℕ
  /-- It is in the address space. -/
  fits : addr + n ≤ 2 ^ 32
  /-- It is not in the processor's window. -/
  apart : addr + n ≤ apBaseAddr ∨ apEndAddr ≤ addr

theorem Buf.offRegisters {n : ℕ} (V : Buf n) : OffRegisters V.addr n := by
  have h := V.apart
  have hw := apWindow
  unfold OffRegisters
  omega

/-- A buffer has no byte in a column. -/
theorem Buf.apart_base {n : ℕ} (V : Buf n) (c : Cam) :
    V.addr + n ≤ c.base ∨ c.base + apColSize ≤ V.addr := by
  have h := V.apart
  have h₁ := c.base_ge
  have h₂ := c.base_le
  have hw := apWindow
  omega

/-- The column that the arguments of a vector function name. -/
def namedCam (col : APCollunm) (internalCol : APInternalCollunm) : Cam :=
  ⟨col, internalCol = .right⟩

/-! ### Where a vector goes -/

/-- On the left the address is the named column's. -/
theorem finalAddr_left (col : APCollunm) : finalAddr col .left = (namedCam col .left).base := by
  cases col <;> rfl

/-- On the right it is past every column and past the registers. -/
theorem finalAddr_right (col : APCollunm) : apEndAddr ≤ finalAddr col .right := by
  cases col <;> decide

/-- A vector is never stored into the registers. -/
theorem offRegisters_finalAddr (col : APCollunm) (internalCol : APInternalCollunm) {size : ℕ}
    (h : size ≤ apColSize) : OffRegisters (finalAddr col internalCol) size := by
  cases internalCol with
  | left =>
    have := (namedCam col .left).base_le
    rw [finalAddr_left]
    unfold OffRegisters
    omega
  | right => exact Or.inr (Or.inr (finalAddr_right col))

/-- No vector for another column reaches a left column. -/
theorem finalAddr_apart {col col' : APCollunm} {internalCol : APInternalCollunm}
    (h : (col', internalCol) ≠ (col, .left)) :
    finalAddr col' internalCol + apColSize ≤ (namedCam col .left).base ∨
      (namedCam col .left).base + apColSize ≤ finalAddr col' internalCol := by
  cases internalCol with
  | left =>
    rw [finalAddr_left]
    refine Cam.base_apart fun hc => h ?_
    rw [(Cam.mk.injEq ..).mp hc |>.1]
  | right =>
    have h₁ := (namedCam col .left).base_le
    have h₂ := finalAddr_right col'
    have hw := apWindow
    omega

/-! ### Where a byte goes -/

/-- The address of `ap_set_value` is that of a vector. -/
theorem setValueAddr (col : APCollunm) (internalCol : APInternalCollunm) :
    (Cam.a0.base + apColSize * 2 * col.val.toUInt8.toNat +
      apColSize * internalCol.val.toUInt8.toNat) % 2 ^ 32 = finalAddr col internalCol := by
  cases col <;> cases internalCol <;> rfl

theorem offRegisters_setValue (col : APCollunm) (internalCol : APInternalCollunm) :
    OffRegisters ((Cam.a0.base + apColSize * 2 * col.val.toUInt8.toNat +
      apColSize * internalCol.val.toUInt8.toNat) % 2 ^ 32) 1 := by
  rw [setValueAddr]
  exact offRegisters_finalAddr col internalCol (by decide)

/-- No value of `internal_col` is `1`, so `ap_search` stores its key in `B_0`. -/
theorem searchKeyAddr (internalCol : APInternalCollunm) :
    (if internalCol.val = 1 then Cam.b1.base else Cam.b0.base) = Cam.b0.base := by
  cases internalCol <;> decide

theorem offRegisters_searchKey (internalCol : APInternalCollunm) :
    OffRegisters (if internalCol.val = 1 then Cam.b1.base else Cam.b0.base) 1 := by
  rw [searchKeyAddr]
  decide

/-! ### What the loops do -/

/-- The state after a block is copied byte by byte. -/
def afterCopy (dst src n : ℕ) (s : St) : St :=
  { s with
    mem := s.mem.copyLoop dst src n
    reads := s.reads ++ (List.range n).map fun i => .byte (src + i) }

theorem copyBytes_run {dst n : ℕ} (h : OffRegisters dst n) (src : ℕ) (s : St) :
    forUpTo n (fun i => do
      let v ← load (src + i)
      store (dst + i) v) s = .ok () (afterCopy dst src n s) := by
  induction n with
  | zero => simp [forUpTo, pure_run, afterCopy, Mem.copyLoop]
  | succ n ih =>
    rw [forUpTo_succ_run (ih (h.mono (Nat.le_succ n)))]
    refine (bind_run rfl).trans ?_
    rw [store_run (h.at (Nat.lt_succ_self n))]
    simp [afterCopy, Mem.copyLoop, List.range_succ]

/-- The same to literal addresses. -/
theorem copyFixed_run {dst n : ℕ} (h : OffRegisters dst n) (src : ℕ) (s : St) :
    forUpTo n (fun i => do
      let v ← load (src + i)
      storeFixed (dst + i) v) s = .ok () { afterCopy dst src n s with
        fixedStores := s.fixedStores ++ (List.range n).map (dst + ·) } := by
  induction n with
  | zero => simp [forUpTo, pure_run, afterCopy, Mem.copyLoop]
  | succ n ih =>
    rw [forUpTo_succ_run (ih (h.mono (Nat.le_succ n)))]
    refine (bind_run rfl).trans ?_
    rw [storeFixed_run (h.at (Nat.lt_succ_self n))]
    simp [afterCopy, Mem.copyLoop, List.range_succ]

theorem apWriteVector_run (col : APCollunm) (internalCol : APInternalCollunm) (V : ℕ) {size : ℕ}
    (h : size ≤ apColSize) (s : St) :
    apWriteVector col internalCol V size s =
      .ok () (afterCopy (finalAddr col internalCol) V size s) := by
  rw [apWriteVector, if_neg (Nat.not_lt.mpr h)]
  exact copyBytes_run (offRegisters_finalAddr col internalCol h) V s

theorem apReadVector_run (col : APCollunm) (internalCol : APInternalCollunm) {V size : ℕ}
    (hV : OffRegisters V size) (h : size ≤ apColSize) (s : St) :
    apReadVector col internalCol V size s =
      .ok () (afterCopy V (finalAddr col internalCol) size s) := by
  rw [apReadVector, if_neg (Nat.not_lt.mpr h)]
  exact copyBytes_run hV _ s

theorem apWriteVector_large (col : APCollunm) (internalCol : APInternalCollunm) (V : ℕ) {size : ℕ}
    (h : apColSize < size) (s : St) : apWriteVector col internalCol V size s = .ok () s := by
  rw [apWriteVector, if_pos h, pure_run]

theorem apReadVector_large (col : APCollunm) (internalCol : APInternalCollunm) (V : ℕ) {size : ℕ}
    (h : apColSize < size) (s : St) : apReadVector col internalCol V size s = .ok () s := by
  rw [apReadVector, if_pos h, pure_run]

/-- A write of a vector returns, and what it changes is where it went. -/
theorem apWriteVector_returns (col : APCollunm) (internalCol : APInternalCollunm) (V size : ℕ)
    (s : St) : Ensures (apWriteVector col internalCol V size) s fun _ t =>
      ∀ a, ¬ (finalAddr col internalCol ≤ a ∧ a < finalAddr col internalCol + apColSize) →
        t.mem a = s.mem a := by
  rcases Nat.lt_or_ge apColSize size with h | h
  · exact .of_run (apWriteVector_large col internalCol V h s) fun _ _ => rfl
  · refine .of_run (apWriteVector_run col internalCol V h s) fun a ha => ?_
    exact Mem.copyLoop_of_not_mem _ (by omega)

/-! ### What the functions are for -/

/-- The registers are as they were. -/
def SameRegs (s t : St) : Prop := t.control = s.control ∧ t.mode = s.mode ∧ t.irq = s.irq

/-- `ap_write_vector` stores the vector in the named column and changes nothing else;
a vector longer than a column changes nothing. -/
def WritesNamed (col : APCollunm) (internalCol : APInternalCollunm) (V size : ℕ) (s : St) : Prop :=
  (size ≤ apColSize → Ensures (apWriteVector col internalCol V size) s fun _ t =>
    (∀ i < size, t.mem ((namedCam col internalCol).base + i) = s.mem (V + i)) ∧
      (∀ a, ¬ ((namedCam col internalCol).base ≤ a ∧ a < (namedCam col internalCol).base + size) →
        t.mem a = s.mem a) ∧ SameRegs s t) ∧
  (apColSize < size → apWriteVector col internalCol V size s = .ok () s)

/-- `ap_read_vector` reads the bytes of the named column and changes only the buffer. -/
def ReadsNamed (col : APCollunm) (internalCol : APInternalCollunm) (V size : ℕ) (s : St) : Prop :=
  (size ≤ apColSize → Ensures (apReadVector col internalCol V size) s fun _ t =>
    (∀ i < size, t.mem (V + i) = s.mem ((namedCam col internalCol).base + i)) ∧
      (∀ a, ¬ (V ≤ a ∧ a < V + size) → t.mem a = s.mem a) ∧ SameRegs s t) ∧
  (apColSize < size → apReadVector col internalCol V size s = .ok () s)

/-- A call of `ap_write_vector`. -/
structure VectorWrite where
  col : APCollunm
  internalCol : APInternalCollunm
  size : ℕ
  V : Buf size

/-- Calls of `ap_write_vector`, one after the other. -/
def writeVectors : List VectorWrite → Prog Unit
  | [] => pure ()
  | w :: ws => do
    apWriteVector w.col w.internalCol w.V.addr w.size
    writeVectors ws

/-- A vector written is read back, whatever is written to other columns in between. -/
def ReadsBack (col : APCollunm) (internalCol : APInternalCollunm) (V V₂ size : ℕ)
    (ws : List VectorWrite) (s : St) : Prop :=
  size ≤ apColSize → (∀ w ∈ ws, (w.col, w.internalCol) ≠ (col, internalCol)) →
    Ensures (do
      apWriteVector col internalCol V size
      writeVectors ws
      apReadVector col internalCol V₂ size) s fun _ t =>
        ∀ i < size, t.mem (V₂ + i) = s.mem (V + i)

/-! ### When a write does what it says -/

theorem copyLoop_at (m : Mem) {dst src n i : ℕ} (h : dst + n ≤ src ∨ src + n ≤ dst) (hi : i < n) :
    m.copyLoop dst src n (dst + i) = m (src + i) := by
  rw [Mem.copyLoop_eq_copy m h, Mem.copy_at m dst src hi]

/-- On the left a write goes where it says. -/
theorem writesNamed_left (col : APCollunm) {size : ℕ} (V : Buf size) (s : St) :
    WritesNamed col .left V.addr size s := by
  refine ⟨fun h => .of_run (apWriteVector_run col .left V.addr h s) ?_,
    fun h => apWriteVector_large col .left V.addr h s⟩
  rw [← finalAddr_left]
  have hap := V.apart_base (namedCam col .left)
  rw [← finalAddr_left] at hap
  refine ⟨fun i hi => copyLoop_at s.mem (by omega) hi, fun a ha => ?_, rfl, rfl, rfl⟩
  exact Mem.copyLoop_of_not_mem _ ha

/-- **When a write does what it says**: on the left, or when there is nothing to
write. On the right a vector of `1` to `512` bytes goes past the columns, so it does
only if the column, and the bytes past the columns, held the vector already. -/
theorem writesNamed_iff (col : APCollunm) (internalCol : APInternalCollunm) {size : ℕ}
    (V : Buf size) (s : St) :
    WritesNamed col internalCol V.addr size s ↔
      internalCol = .left ∨ size = 0 ∨ apColSize < size ∨
        ∀ i < size, s.mem ((namedCam col internalCol).base + i) = s.mem (V.addr + i) ∧
          s.mem (finalAddr col internalCol + i) = s.mem (V.addr + i) := by
  cases internalCol with
  | left => exact ⟨fun _ => Or.inl rfl, fun _ => writesNamed_left col V s⟩
  | right =>
    have hle := (namedCam col .right).base_le
    have hge := finalAddr_right col
    have hw := apWindow
    constructor
    · rintro ⟨hw, -⟩
      rcases Nat.lt_or_ge apColSize size with h | h
      · exact Or.inr (Or.inr (Or.inl h))
      refine Or.inr (Or.inr (Or.inr ?_))
      obtain ⟨hv, hframe, -⟩ := (hw h).holds (apWriteVector_run col .right V.addr h s)
      -- the column is not where the loop stores, so it still holds what it held
      have hcol : ∀ i < size, s.mem ((namedCam col .right).base + i) = s.mem (V.addr + i) := by
        intro i hi
        rw [← hv i hi]
        exact (Mem.copyLoop_of_not_mem _ (by omega)).symm
      have hmem : s.mem.copyLoop (finalAddr col .right) V.addr size = s.mem := by
        funext a
        by_cases ha : (namedCam col .right).base ≤ a ∧ a < (namedCam col .right).base + size
        · exact Mem.copyLoop_of_not_mem _ (by omega)
        · exact hframe a ha
      rw [Mem.copyLoop_eq_self_iff] at hmem
      exact fun i hi => ⟨hcol i hi, hmem i hi⟩
    · intro h
      refine ⟨fun hs => .of_run (apWriteVector_run col .right V.addr hs s) ?_,
        fun hs => apWriteVector_large col .right V.addr hs s⟩
      have hsame : ∀ i < size, s.mem ((namedCam col .right).base + i) = s.mem (V.addr + i) ∧
          s.mem (finalAddr col .right + i) = s.mem (V.addr + i) := by
        rcases h with h | rfl | h | h
        · cases h
        · exact fun i hi => absurd hi (Nat.not_lt_zero i)
        · exact absurd hs (Nat.not_le.mpr h)
        · exact h
      have hmem := (Mem.copyLoop_eq_self_iff s.mem (finalAddr col .right) V.addr size).mpr
        fun i hi => (hsame i hi).2
      refine ⟨fun i hi => ?_, fun a _ => ?_, rfl, rfl, rfl⟩
      · simp only [afterCopy, hmem]
        exact (hsame i hi).1
      · simp only [afterCopy, hmem]

theorem readsNamed_left (col : APCollunm) {size : ℕ} (V : Buf size) (s : St) :
    ReadsNamed col .left V.addr size s := by
  refine ⟨fun h => .of_run (apReadVector_run col .left V.offRegisters h s) ?_,
    fun h => apReadVector_large col .left V.addr h s⟩
  rw [← finalAddr_left]
  have hap := V.apart_base (namedCam col .left)
  rw [← finalAddr_left] at hap
  refine ⟨fun i hi => copyLoop_at s.mem (by omega) hi, fun a ha => ?_, rfl, rfl, rfl⟩
  exact Mem.copyLoop_of_not_mem _ ha

/-- Writes of vectors return, and leave alone what none of them is stored over. -/
theorem writeVectors_returns (A : ℕ → Prop) (ws : List VectorWrite)
    (h : ∀ w ∈ ws, ∀ a, A a → ¬ (finalAddr w.col w.internalCol ≤ a ∧
      a < finalAddr w.col w.internalCol + apColSize)) (s : St) :
    Ensures (writeVectors ws) s fun _ t => ∀ a, A a → t.mem a = s.mem a := by
  induction ws generalizing s with
  | nil => exact .pure fun _ _ => rfl
  | cons w ws ih =>
    rw [List.forall_mem_cons] at h
    apply Ensures.bind (apWriteVector_returns w.col w.internalCol w.V.addr w.size s)
    intro _ t ht
    apply (ih h.2 t).mono
    intro _ u hu a ha
    rw [hu a ha, ht a (h.1 a ha)]

theorem readsBack_left (col : APCollunm) {size : ℕ} (V V₂ : Buf size) (ws : List VectorWrite)
    (s : St) : ReadsBack col .left V.addr V₂.addr size ws s := by
  intro hs hws
  have hother : ∀ w ∈ ws, ∀ a, ((namedCam col .left).base ≤ a ∧
      a < (namedCam col .left).base + apColSize) → ¬ (finalAddr w.col w.internalCol ≤ a ∧
        a < finalAddr w.col w.internalCol + apColSize) := by
    intro w hw a ha
    have hap := finalAddr_apart (hws w hw)
    omega
  apply Ensures.bind ((writesNamed_left col V s).1 hs)
  intro _ t ht
  apply Ensures.bind (writeVectors_returns _ ws hother t)
  intro _ u hu
  apply ((readsNamed_left col V₂ u).1 hs).mono
  intro _ v hv i hi
  rw [hv.1 i hi, hu _ (by omega), ht.1 i hi]

/-- What the vector functions promise of a column, a side and a size: every write goes
where it says, every read comes from there, and what is written is read back. -/
structure VectorsNamed (col : APCollunm) (internalCol : APInternalCollunm) (size : ℕ) : Prop where
  writes : ∀ (V : Buf size) (s : St), WritesNamed col internalCol V.addr size s
  reads : ∀ (V : Buf size) (s : St), ReadsNamed col internalCol V.addr size s
  readsBack : ∀ (V V₂ : Buf size) (ws : List VectorWrite) (s : St),
    ReadsBack col internalCol V.addr V₂.addr size ws s

theorem vectorsNamed_left (col : APCollunm) (size : ℕ) : VectorsNamed col .left size :=
  ⟨writesNamed_left col, readsNamed_left col, readsBack_left col⟩

/-- Nothing is asked of a vector that is empty. -/
theorem vectorsNamed_zero (col : APCollunm) (internalCol : APInternalCollunm) :
    VectorsNamed col internalCol 0 := by
  refine ⟨fun V s => (writesNamed_iff col internalCol V s).mpr (Or.inr (Or.inl rfl)),
    fun V s => ⟨fun h => ?_, fun h => absurd h (Nat.not_lt_zero _)⟩, fun V V₂ ws s h _ => ?_⟩
  · refine .of_run (apReadVector_run col internalCol V.offRegisters h s) ?_
    exact ⟨fun i hi => absurd hi (Nat.not_lt_zero i), fun _ _ => rfl, rfl, rfl, rfl⟩
  · apply Ensures.bind (apWriteVector_returns col internalCol V.addr 0 s)
    intro _ t _
    refine .bind (writeVectors_returns (fun _ => False) ws (fun _ _ _ => False.elim) t)
      fun _ u _ => ?_
    refine .of_run (apReadVector_run col internalCol V₂.offRegisters h u) fun i hi => ?_
    exact absurd hi (Nat.not_lt_zero i)

/-- A vector longer than a column changes nothing on either side. -/
theorem vectorsNamed_large (col : APCollunm) (internalCol : APInternalCollunm) {size : ℕ}
    (h : apColSize < size) : VectorsNamed col internalCol size := by
  have hno : ¬ size ≤ apColSize := Nat.not_le.mpr h
  exact ⟨fun V s => ⟨fun h => absurd h hno, fun h => apWriteVector_large col internalCol _ h s⟩,
    fun V s => ⟨fun h => absurd h hno, fun h => apReadVector_large col internalCol _ h s⟩,
    fun _ _ _ _ h => absurd h hno⟩

/-- A buffer at the start of the CPU's memory. -/
def lowBuf (n : ℕ) (h : n ≤ apColSize) : Buf n where
  addr := 0x80000000
  fits := by have hw := apWindow; omega
  apart := by have hw := apWindow; omega

/-- The state in which only the first byte of `lowBuf` is not zero. -/
def oneByteSt : St := .rest (Mem.store (fun _ => 0) 0x80000000 1)

/-- On the right the vector of one byte `1` does not reach the column. -/
theorem not_writesNamed_right (col : APCollunm) {size : ℕ} (h₀ : size ≠ 0)
    (h : size ≤ apColSize) : ¬ WritesNamed col .right (lowBuf size h).addr size oneByteSt := by
  rw [writesNamed_iff]
  rintro (h' | h' | h' | h')
  · cases h'
  · exact h₀ h'
  · exact absurd h (Nat.not_le.mpr h')
  · have h1 := (h' 0 (Nat.pos_of_ne_zero h₀)).1
    have hge := (namedCam col .right).base_ge
    have hw := apWindow
    have hz : oneByteSt.mem ((namedCam col .right).base + 0) = 0 := by
      show Mem.store (fun _ => 0) 0x80000000 1 _ = 0
      rw [Mem.store_of_ne _ _ (by omega)]
    have hone : oneByteSt.mem ((lowBuf size h).addr + 0) = 1 :=
      Mem.store_self (fun _ => 0) 0x80000000 1
    rw [hz, hone] at h1
    exact absurd h1 (by decide)

/-- **`ap_write_vector` and `ap_read_vector` mean the named column** on the left, and on
the right only when there is nothing to write; and one write alone goes where it says,
besides, only when it changes nothing. -/
theorem apVectors_named_iff (col : APCollunm) (internalCol : APInternalCollunm) (size : ℕ) :
    (VectorsNamed col internalCol size ↔
      internalCol = .left ∨ size = 0 ∨ apColSize < size) ∧
    ∀ (V : Buf size) (s : St), WritesNamed col internalCol V.addr size s ↔
      internalCol = .left ∨ size = 0 ∨ apColSize < size ∨
        ∀ i < size, s.mem ((namedCam col internalCol).base + i) = s.mem (V.addr + i) ∧
          s.mem (finalAddr col internalCol + i) = s.mem (V.addr + i) := by
  refine ⟨⟨fun hv => ?_, ?_⟩, writesNamed_iff col internalCol⟩
  · cases internalCol with
    | left => exact Or.inl rfl
    | right =>
      by_contra hno
      simp only [reduceCtorEq, false_or, not_or, Nat.not_lt] at hno
      exact not_writesNamed_right col hno.1 hno.2 (hv.writes _ _)
  · rintro (rfl | rfl | h)
    · exact vectorsNamed_left col size
    · exact vectorsNamed_zero col internalCol
    · exact vectorsNamed_large col internalCol h

/-- One byte written to the right side of `A` is not there afterwards. -/
theorem apWriteVector_right_misses :
    ¬ WritesNamed .camA .right (lowBuf 1 (by decide)).addr 1 oneByteSt :=
  not_writesNamed_right .camA (by decide) (by decide)

end RocketAp.Hal
