import RocketAp.Device.Platform

/-!
# Memory, columns and vectors

A block of bytes written to memory is rows of a column, elements of a vector of
`r_v_mgmt`, or neither, and it is never two of them. What the columns and the vectors
hold after a write is worked out here, once for each place it can go; a kernel's proof
sees only columns and vectors.
-/

namespace RocketAp.Device

open ProgramLogic

/-! ### Columns -/

/-- Rows `off, …, off + n - 1` of a column, set to `f 0, …, f (n - 1)`. -/
def Column.write (x : Column) (off n : ℕ) (f : ℕ → UInt8) : Column := fun r =>
  if off ≤ r ∧ r < off + n then f (r - off) else x r

theorem Column.write_zero (x : Column) (n : ℕ) (f : ℕ → UInt8) :
    x.write 0 n f = fun r : Fin apColSize => if (r : ℕ) < n then f r else x r := by
  funext r
  simp only [Column.write, Nat.zero_le, true_and, Nat.zero_add, Nat.sub_zero]

/-- A block written in a column. -/
theorem camsOf_write_base (m : Mem) (c : Cam) {off n : ℕ} (f : ℕ → UInt8)
    (h : off + n ≤ apColSize) : camsOf (m.write (c.base + off) n f) =
      Function.update (camsOf m) c ((camsOf m c).write off n f) := by
  funext d r
  have hr : (r : ℕ) < apColSize := r.isLt
  by_cases hd : d = c
  · subst hd
    have hsub : d.base + r - (d.base + off) = r - off := by omega
    simp only [camsOf, Mem.write, Column.write, Function.update_self, hsub]
    exact if_congr ⟨fun h => by omega, fun h => by omega⟩ rfl rfl
  · have := Cam.base_apart hd
    rw [Function.update_of_ne hd]
    exact Mem.write_of_not_mem _ _ (by omega)

/-- A byte written in a column. -/
theorem camsOf_store_base (m : Mem) (c : Cam) (r : Fin apColSize) (v : UInt8) :
    camsOf (m.store (c.base + r) v) =
      Function.update (camsOf m) c (Function.update (camsOf m c) r v) := by
  funext d q
  have hq : (q : ℕ) < apColSize := q.isLt
  have hr : (r : ℕ) < apColSize := r.isLt
  by_cases hd : d = c
  · subst hd
    rw [Function.update_self]
    by_cases hqr : q = r
    · subst hqr
      rw [Function.update_self]
      exact Mem.store_self _ _ _
    · rw [Function.update_of_ne hqr]
      exact Mem.store_of_ne _ _ fun h => hqr (Fin.ext (by omega))
  · have := Cam.base_apart hd
    rw [Function.update_of_ne hd]
    exact Mem.store_of_ne _ _ (by omega)

/-- A block written elsewhere. -/
theorem camsOf_write_apart (m : Mem) {dst n : ℕ} (f : ℕ → UInt8)
    (h : dst + n ≤ apBaseAddr ∨ apEndAddr ≤ dst) : camsOf (m.write dst n f) = camsOf m := by
  funext c r
  have hr : (r : ℕ) < apColSize := r.isLt
  have h₁ := c.base_ge
  have h₂ := c.base_le
  have hw := apWindow
  exact Mem.write_of_not_mem _ _ (by omega)

theorem camsOf_store_apart (m : Mem) {a : ℕ} (v : UInt8)
    (h : a < apBaseAddr ∨ apEndAddr ≤ a) : camsOf (m.store a v) = camsOf m := by
  funext c r
  have hr : (r : ℕ) < apColSize := r.isLt
  have h₁ := c.base_ge
  have h₂ := c.base_le
  have hw := apWindow
  exact Mem.store_of_ne _ _ (by omega)

/-- Row `r` of a column, read at its address. -/
def St.row (s : St) (c : Cam) (r : ℕ) : UInt8 := s.mem (c.base + r)

theorem St.row_eq (s : St) (c : Cam) {r : ℕ} (h : r < apColSize) :
    s.row c r = s.cams c ⟨r, h⟩ := rfl

/-- Memory whose columns are zero and whose other bytes are not. -/
def someMem : Mem := setCams (fun a => a.toUInt8) fun _ _ => 0

theorem cams_someMem : (St.rest someMem).cams = fun _ _ => 0 := camsOf_setCams _ _

/-! ### Vectors of `r_v_mgmt` -/

/-- The number of a vector. -/
def RvVec.index : RvVec → ℕ
  | .a => 0
  | .b => 1
  | .c => 2

theorem RvVec.index_injective {v w : RvVec} (h : v.index = w.index) : v = w := by
  cases v <;> cases w <;> first | rfl | cases h

namespace Platform

variable (p : Platform)

/-- The vectors lie one after the other. -/
theorem rvAddr_eq (v : RvVec) : p.rvAddr v = p.rvMgmt + randomVectorsSize * v.index := by
  cases v <;> simp only [rvAddr, RvVec.index] <;> omega

/-- Two vectors have no address in common. -/
theorem rvAddr_ne {v w : RvVec} (h : v ≠ w) :
    p.rvAddr v + randomVectorsSize ≤ p.rvAddr w ∨
      p.rvAddr w + randomVectorsSize ≤ p.rvAddr v := by
  have hi : v.index ≠ w.index := fun e => h (RvVec.index_injective e)
  rw [rvAddr_eq, rvAddr_eq]
  simp only [randomVectorsSize]
  omega

/-- A vector may be written. -/
theorem offRegisters_rvAddr (v : RvVec) {off n : ℕ} (h : off + n ≤ randomVectorsSize) :
    OffRegisters (p.rvAddr v + off) n := by
  have := p.rvAddr_apart v
  have hw := apWindow
  unfold OffRegisters
  omega

variable {p} {s t : St}

/-- Memory outside the columns decides the vectors. -/
theorem vec_eq_of_outside (h : ∀ a, ¬ InColumns a → t.mem a = s.mem a) (v : RvVec) {i : ℕ}
    (hi : i < randomVectorsSize) : p.vec t v i = p.vec s v i := by
  have := p.rvAddr_apart v
  have hw := apWindow
  refine h _ fun ⟨h₁, h₂⟩ => ?_
  omega

/-- A block written in a vector. -/
theorem vec_write (v : RvVec) {off n : ℕ} (f : ℕ → UInt8) (h : off + n ≤ randomVectorsSize)
    (w : RvVec) {i : ℕ} (hi : i < randomVectorsSize) :
    p.vec { s with mem := s.mem.write (p.rvAddr v + off) n f } w i =
      if w = v ∧ off ≤ i ∧ i < off + n then f (i - off) else p.vec s w i := by
  by_cases hw : w = v
  · subst hw
    have hsub : p.rvAddr w + i - (p.rvAddr w + off) = i - off := by omega
    simp only [vec, Mem.write, hsub, true_and]
    exact if_congr ⟨fun h => by omega, fun h => by omega⟩ rfl rfl
  · have := p.rvAddr_ne hw
    rw [if_neg fun h => hw h.1]
    exact Mem.write_of_not_mem _ _ (by omega)

/-- An element written in a vector. -/
theorem vec_store (v : RvVec) {i : ℕ} (x : UInt8) (hi : i < randomVectorsSize) (w : RvVec)
    {j : ℕ} (hj : j < randomVectorsSize) :
    p.vec { s with mem := s.mem.store (p.rvAddr v + i) x } w j =
      if w = v ∧ j = i then x else p.vec s w j := by
  by_cases hw : w = v
  · subst hw
    by_cases hji : j = i
    · subst hji
      rw [if_pos ⟨rfl, rfl⟩]
      exact Mem.store_self _ _ _
    · rw [if_neg fun h => hji h.2]
      exact Mem.store_of_ne _ _ (by omega)
  · have := p.rvAddr_ne hw
    rw [if_neg fun h => hw h.1]
    exact Mem.store_of_ne _ _ (by omega)

/-- An element written by a program. -/
theorem writeVec_ensures (p : Platform) (v : RvVec) {i : ℕ} (x : UInt8)
    (hi : i < randomVectorsSize) (s : St) :
    Ensures (p.writeVec v i x) s fun _ t => t.cams = s.cams ∧
      ∀ w, ∀ j < randomVectorsSize,
        p.vec t w j = if w = v ∧ j = i then x else p.vec s w j := by
  have hap := p.rvAddr_apart v
  refine .of_run (store_run (p.offRegisters_rvAddr v (by omega)) x s)
    ⟨camsOf_store_apart s.mem x (by omega), fun w j hj => vec_store v x hi w hj⟩

/-! ### Filling a vector -/

variable (p)

/-- A vector of `r_v_mgmt`, filled by a caller. -/
def setVec (v : RvVec) (f : ℕ → UInt8) : Prog Unit :=
  forUpTo randomVectorsSize fun i => p.writeVec v i (f i)

theorem setVec_run (v : RvVec) (f : ℕ → UInt8) (s : St) : p.setVec v f s =
    .ok () { s with mem := s.mem.write (p.rvAddr v) randomVectorsSize f } := by
  suffices h : ∀ n ≤ randomVectorsSize, forUpTo n (fun i => p.writeVec v i (f i)) s =
      .ok () { s with mem := s.mem.write (p.rvAddr v) n f } from h _ (Nat.le_refl _)
  intro n hn
  induction n with
  | zero =>
    have : s.mem.write (p.rvAddr v) 0 f = s.mem := by
      funext a
      exact Mem.write_of_not_mem _ _ (by omega)
    rw [this]
    rfl
  | succ n ih =>
    rw [forUpTo_succ_run (ih (by omega)), writeVec, store_run (p.offRegisters_rvAddr v (by omega)),
      Mem.write_succ]

/-- Between `s` and `t` the vector `v` was filled with `f`: no column and no other vector has
changed. -/
structure VecFilled (v : RvVec) (f : ℕ → UInt8) (s t : St) : Prop where
  cams : t.cams = s.cams
  filled : ∀ i < randomVectorsSize, p.vec t v i = f i
  others : ∀ w, w ≠ v → ∀ i < randomVectorsSize, p.vec t w i = p.vec s w i

theorem vecFilled_write (v : RvVec) (f : ℕ → UInt8) (s : St) : p.VecFilled v f s
    { s with mem := s.mem.write (p.rvAddr v) randomVectorsSize f } := by
  constructor
  · exact camsOf_write_apart s.mem f (p.rvAddr_apart v)
  · intro i hi
    exact Mem.write_at _ _ _ hi
  · intro w hw i hi
    have := p.rvAddr_ne hw
    exact Mem.write_of_not_mem _ _ (by omega)

theorem setVec_filled (v : RvVec) (f : ℕ → UInt8) (s : St) :
    Ensures (p.setVec v f) s fun _ t => p.VecFilled v f s t :=
  .of_run (p.setVec_run v f s) (p.vecFilled_write v f s)

/-- `memset` of a whole vector. -/
theorem memset_filled (v : RvVec) (x : UInt8) (s : St) :
    Ensures (memset (p.rvAddr v) x randomVectorsSize) s fun _ t =>
      p.VecFilled v (fun _ => x) s t :=
  .of_run (memset_run (p.offRegisters_rvAddr v (Nat.zero_add _).le) x s)
    (p.vecFilled_write v (fun _ => x) s)

/-- The vectors may hold anything while the columns are zero. -/
theorem exists_vectors (f g : ℕ → UInt8) : ∃ s : St, (s.cams = fun _ _ => 0) ∧
    (∀ i < randomVectorsSize, p.vec s .a i = f i) ∧
      ∀ i < randomVectorsSize, p.vec s .b i = g i := by
  obtain ⟨_, s, -, hs⟩ := p.setVec_filled .a f (.rest someMem)
  obtain ⟨_, t, -, ht⟩ := p.setVec_filled .b g s
  refine ⟨t, by rw [ht.cams, hs.cams, cams_someMem], fun i hi => ?_, ht.filled⟩
  rw [ht.others .a nofun i hi, hs.filled i hi]

end Platform

end RocketAp.Device
