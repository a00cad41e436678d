import RocketAp.Hal.Functions

/-!
# The assembly accessors

`ap_store_data`, `ap_get_data` and `ap_get_data_to` are declared as functions of bytes. The
first stores a word and the second returns one: with its byte come the three after it, which
a store sets to zero and a read leaves in the upper part of the result. `ap_get_data_to`
reads a word too, but stores its low byte.

The first two are byte-exact exactly when the three bytes after the addressed one are zero
(`accessors_exact_iff`). A loop that stores upwards through a column hides it, until its last
rows: there the three bytes are those of the next column, or the registers'.

The bytes are those that the address space shows (`space`), the registers' among them. A word
that has none of these is read and stored by the programs of `Hal.Functions`. Of a word that
has, the theorem says what its instruction reads and stores, and leaves open what the processor
does about the new bytes of a register.
-/

namespace RocketAp.Hal

open ProgramLogic Device

variable {s : St} {m : Mem} {a : ℕ}

/-! ### Words -/

/-- The word of a byte is a `MODE` word with one byte. -/
theorem modeWord_byte (v : UInt8) : modeWord 0 0 0 v.toUInt32 = v.toUInt32 := by
  simp [modeWord]

/-- A word is put together the same way from either end. -/
theorem word_eq_modeWord (b₀ b₁ b₂ b₃ : UInt32) :
    b₀ ||| b₁ <<< 8 ||| b₂ <<< 16 ||| b₃ <<< 24 = modeWord b₃ b₂ b₁ b₀ := by
  rw [modeWord, UInt32.or_comm _ (b₃ <<< 24), UInt32.or_comm _ (b₂ <<< 16), UInt32.or_comm b₀,
    UInt32.or_assoc, UInt32.or_assoc]

theorem byte_toUInt32 (v : UInt8) : byte 0 v.toUInt32 = v ∧ byte 1 v.toUInt32 = 0 ∧
    byte 2 v.toUInt32 = 0 ∧ byte 3 v.toUInt32 = 0 := by
  obtain ⟨h₃, h₂, h₁, h₀⟩ := byte_modeWord 0 0 0 v
  have hv : modeWord (0 : UInt8).toUInt32 (0 : UInt8).toUInt32 (0 : UInt8).toUInt32 v.toUInt32 =
    v.toUInt32 := modeWord_byte v
  rw [hv] at h₃ h₂ h₁ h₀
  exact ⟨h₀, h₁, h₂, h₃⟩

/-- The word of four bytes of memory. -/
def wordAt (m : Mem) (a : ℕ) : UInt32 :=
  modeWord (m (wordByte a 3)).toUInt32 (m (wordByte a 2)).toUInt32 (m (wordByte a 1)).toUInt32
    (m (wordByte a 0)).toUInt32

/-- The three bytes after the one at `a` are zero. -/
def RestZero (m : Mem) (a : ℕ) : Prop := ∀ i < 4, 1 ≤ i → m (wordByte a i) = 0

theorem restZero_iff : RestZero m a ↔
    m (wordByte a 1) = 0 ∧ m (wordByte a 2) = 0 ∧ m (wordByte a 3) = 0 := by
  constructor
  · intro h
    exact ⟨h 1 (by decide) (by decide), h 2 (by decide) (by decide), h 3 (by decide) (by decide)⟩
  · rintro ⟨h₁, h₂, h₃⟩ i hi hpos
    interval_cases i <;> assumption

/-- A word is its low byte exactly when the rest of it is zero. -/
theorem wordAt_eq_byte_iff :
    wordAt m a = (m (wordByte a 0)).toUInt32 ↔ RestZero m a := by
  rw [restZero_iff]
  obtain ⟨h₃, h₂, h₁, -⟩ := byte_modeWord (m (wordByte a 3)) (m (wordByte a 2))
    (m (wordByte a 1)) (m (wordByte a 0))
  obtain ⟨-, g₁, g₂, g₃⟩ := byte_toUInt32 (m (wordByte a 0))
  constructor
  · intro h
    rw [wordAt] at h
    rw [h] at h₁ h₂ h₃
    exact ⟨h₁.symm.trans g₁, h₂.symm.trans g₂, h₃.symm.trans g₃⟩
  · rintro ⟨e₁, e₂, e₃⟩
    rw [wordAt, e₁, e₂, e₃]
    exact modeWord_byte _

theorem load_run (a : ℕ) (s : St) :
    load a s = .ok (s.mem a) { s with reads := s.reads ++ [.byte a] } := rfl

theorem lw_run (a : ℕ) (s : St) : Ensures (lw a) s fun w t =>
    w = wordAt s.mem a ∧ t.mem = s.mem := by
  refine .step (load_run _ _) (.step (load_run _ _) (.step (load_run _ _)
    (.step (load_run _ _) (.pure ⟨word_eq_modeWord _ _ _ _, rfl⟩))))

/-- Memory with the word `w` stored at `a`. -/
def storeWord (m : Mem) (a : ℕ) (w : UInt32) : Mem :=
  (((m.store (wordByte a 0) (byte 0 w)).store (wordByte a 1) (byte 1 w)).store
    (wordByte a 2) (byte 2 w)).store (wordByte a 3) (byte 3 w)

theorem ensures_store_iff {v : UInt8} {Q : Unit → St → Prop} : Ensures (store a v) s Q ↔
    OffRegisters a 1 ∧ Q () { s with mem := s.mem.store a v } := by
  constructor
  · intro h
    by_cases ha : OffRegisters a 1
    · exact ⟨ha, h.holds (store_run ha v s)⟩
    · obtain ⟨_, _, hr, -⟩ := h
      rw [store, if_neg ha] at hr
      cases hr
  · rintro ⟨ha, hQ⟩
    exact .of_run (store_run ha v s) hQ

/-- No byte of the word at `a` is a register's. -/
def WordOff (a : ℕ) : Prop := ∀ i < 4, OffRegisters (wordByte a i) 1

instance (a : ℕ) : Decidable (WordOff a) := inferInstanceAs (Decidable (∀ i < 4, _))

theorem ensures_sw_iff {w : UInt32} {Q : Unit → St → Prop} : Ensures (sw a w) s Q ↔
    WordOff a ∧ Q () { s with mem := storeWord s.mem a w } := by
  simp only [sw, ensures_bind_iff, ensures_store_iff]
  constructor
  · rintro ⟨h₀, h₁, h₂, h₃, hQ⟩
    refine ⟨fun i hi => ?_, hQ⟩
    interval_cases i <;> assumption
  · rintro ⟨h, hQ⟩
    exact ⟨h 0 (by decide), h 1 (by decide), h 2 (by decide), h 3 (by decide), hQ⟩

/-! ### The address space -/

/-- What the address space shows: in their places the bytes of `AP_MODE` and of `AP_CONTROL` and
the interrupt, and memory elsewhere. -/
def space (s : St) : Mem := fun a =>
  if OffRegisters a 1 then s.mem a
  else if a < apControlRegistersBaseAddr + 4 then byte (a - apControlRegistersBaseAddr) s.mode
  else if a < apControlRegistersBaseAddr + 8 then
    byte (a - (apControlRegistersBaseAddr + 4)) s.control
  else byte (a - (apControlRegistersBaseAddr + 8)) s.irq.poll.1.toUInt32

theorem space_off (h : OffRegisters a 1) : space s a = s.mem a := if_pos h

theorem cams_space (s : St) : camsOf (space s) = s.cams := by
  funext c r
  have hr := r.isLt
  have hle := c.base_le
  refine space_off ?_
  unfold OffRegisters
  omega

/-- A byte of memory that is stored shows, and no other byte changes. -/
theorem space_store (h : OffRegisters a 1) (v : UInt8) (s : St) :
    space { s with mem := s.mem.store a v } = (space s).store a v := by
  funext x
  by_cases hx : x = a
  · rw [hx, Mem.store_self, space_off h]
    exact Mem.store_self _ _ _
  · rw [Mem.store_of_ne _ _ hx, space, space]
    split
    · exact Mem.store_of_ne _ _ hx
    · rfl

theorem space_storeWord (h : WordOff a) (w : UInt32) (s : St) :
    space { s with mem := storeWord s.mem a w } = storeWord (space s) a w := by
  rw [storeWord, storeWord, ← space_store (h 0 (by decide)), ← space_store (h 1 (by decide)),
    ← space_store (h 2 (by decide)), ← space_store (h 3 (by decide))]

theorem wordAt_space (h : WordOff a) : wordAt (space s) a = wordAt s.mem a := by
  rw [wordAt, space_off (h 0 (by decide)), space_off (h 1 (by decide)),
    space_off (h 2 (by decide)), space_off (h 3 (by decide)), wordAt]

/-! ### The three instructions -/

/-- The bytes that `ap_store_data` stores: those of a word. -/
def spaceStoreData (a : ℕ) (d : UInt8) (m : Mem) : Mem := storeWord m a d.toUInt32

/-- What `ap_get_data` reads: a word. -/
def spaceGetData (a : ℕ) (m : Mem) : UInt32 := wordAt m a

/-- What `ap_get_data_to` stores: the low byte of a word. -/
def spaceGetDataTo (dest src : ℕ) (m : Mem) : Mem := m.store dest (byte 0 (wordAt m src))

theorem wordByte_zero (a : UInt32) : wordByte a.toNat 0 = a.toNat := by
  have := a.toNat_lt
  unfold wordByte
  omega

theorem wordByte_ne (a : UInt32) {i : ℕ} (hi : i < 4) (hpos : 1 ≤ i) :
    wordByte a.toNat i ≠ a.toNat := by
  have := a.toNat_lt
  unfold wordByte
  omega

/-- The word of a byte sets the three bytes after it to zero. -/
theorem storeWord_rest (m : Mem) (v : UInt8) {i : ℕ} (hi : i < 4) (hpos : 1 ≤ i) :
    storeWord m a v.toUInt32 (wordByte a i) = 0 := by
  obtain ⟨h₀, h₁, h₂, h₃⟩ := byte_toUInt32 v
  simp only [storeWord, h₁, h₂, h₃]
  interval_cases i <;> simp [Mem.store, Function.update]

/-- And changes nothing else. -/
theorem storeWord_of_ne (m : Mem) (v : UInt8) {x : ℕ}
    (h : ∀ i < 4, 1 ≤ i → x ≠ wordByte a i) :
    storeWord m a v.toUInt32 x = m.store (wordByte a 0) v x := by
  rw [storeWord, Mem.store_of_ne _ _ (h 3 (by decide) (by decide)),
    Mem.store_of_ne _ _ (h 2 (by decide) (by decide)),
    Mem.store_of_ne _ _ (h 1 (by decide) (by decide)), (byte_toUInt32 v).1]

/-- A word of a byte stores that byte and no other exactly when the rest is zero already. -/
theorem spaceStoreData_iff (a : UInt32) (d : UInt8) (m : Mem) :
    spaceStoreData a.toNat d m = m.store a.toNat d ↔ RestZero m a.toNat := by
  rw [spaceStoreData]
  refine ⟨fun h i hi hpos => ?_, fun h => ?_⟩
  · rw [← storeWord_rest m d hi hpos, ← Mem.store_of_ne m d (wordByte_ne a hi hpos)]
    exact congrFun h.symm _
  · funext x
    by_cases hx : ∀ i < 4, 1 ≤ i → x ≠ wordByte a.toNat i
    · rw [storeWord_of_ne m d hx, wordByte_zero]
    · push Not at hx
      obtain ⟨i, hi, hpos, rfl⟩ := hx
      rw [storeWord_rest m d hi hpos, Mem.store_of_ne _ _ (wordByte_ne a hi hpos), h i hi hpos]

theorem spaceGetData_iff (a : UInt32) (m : Mem) :
    spaceGetData a.toNat m = (m a.toNat).toUInt32 ↔ RestZero m a.toNat := by
  rw [spaceGetData, ← wordAt_eq_byte_iff, wordByte_zero]

theorem wordAt_low (m : Mem) (a : ℕ) : byte 0 (wordAt m a) = m (wordByte a 0) :=
  (byte_modeWord ..).2.2.2

theorem spaceGetDataTo_eq (dest src : UInt32) (m : Mem) :
    spaceGetDataTo dest.toNat src.toNat m = m.store dest.toNat (m src.toNat) := by
  rw [spaceGetDataTo, wordAt_low, wordByte_zero]

/-! ### The three accessors -/

/-- An address whose word has no byte of a register. -/
structure OffWord where
  addr : UInt32
  off : WordOff addr.toNat

/-- An address that is not a register's. -/
structure OffByte where
  addr : UInt32
  off : OffRegisters addr.toNat 1

/-- `ap_store_data` is for storing a byte and no other. -/
def StoresByte (a : ℕ) (d : UInt8) (s : St) : Prop :=
  Ensures (apStoreData a d) s fun _ t => space t = (space s).store a d

/-- `ap_get_data` is for returning a byte, as an `unsigned char`. -/
def GetsByte (a : ℕ) (s : St) : Prop :=
  Ensures (apGetData a) s fun v t => v = (space s a).toUInt32 ∧ space t = space s

/-- `ap_get_data_to` is for copying a byte. -/
def CopiesByte (dest src : ℕ) (s : St) : Prop :=
  Ensures (apGetDataTo dest src) s fun _ t => space t = (space s).store dest (space s src)

/-- Off the registers the accessors do to the address space what their instructions do. -/
theorem apStoreData_space (h : WordOff a) (d : UInt8) (s : St) :
    Ensures (apStoreData a d) s fun _ t => space t = spaceStoreData a d (space s) :=
  ensures_sw_iff.mpr ⟨h, space_storeWord h _ s⟩

theorem apGetData_space (h : WordOff a) (s : St) :
    Ensures (apGetData a) s fun v t => v = spaceGetData a (space s) ∧ space t = space s :=
  .step (load_run _ _) (.step (load_run _ _) (.step (load_run _ _) (.step (load_run _ _)
    (.pure ⟨(word_eq_modeWord _ _ _ _).trans (wordAt_space h).symm, rfl⟩))))

theorem apGetDataTo_space {dest src : ℕ} (hd : OffRegisters dest 1) (hs : WordOff src) (s : St) :
    Ensures (apGetDataTo dest src) s fun _ t => space t = spaceGetDataTo dest src (space s) := by
  refine .bind (apGetData_space hs s) fun w t ⟨hw, ht⟩ => ensures_store_iff.mpr ⟨hd, ?_⟩
  rw [space_store hd, hw, ht, spaceGetDataTo, spaceGetData]

theorem storesByte_iff (a : OffWord) (d : UInt8) (s : St) :
    StoresByte a.addr.toNat d s ↔ RestZero (space s) a.addr.toNat := by
  obtain ⟨_, t, hrun, ht⟩ := apStoreData_space a.off d s
  rw [← spaceStoreData_iff a.addr d, ← ht]
  exact ⟨fun h => h.holds hrun, fun h => .of_run hrun h⟩

theorem getsByte_iff (a : OffWord) (s : St) :
    GetsByte a.addr.toNat s ↔ RestZero (space s) a.addr.toNat := by
  obtain ⟨v, t, hrun, hv, ht⟩ := apGetData_space a.off s
  rw [← spaceGetData_iff a.addr, ← hv]
  exact ⟨fun h => (h.holds hrun).1, fun h => .of_run hrun ⟨h, ht⟩⟩

theorem copiesByte (dest : OffByte) (src : OffWord) (s : St) :
    CopiesByte dest.addr.toNat src.addr.toNat s := by
  rw [CopiesByte, ← spaceGetDataTo_eq]
  exact apGetDataTo_space dest.off src.off s

/-! ### Stores to a column -/

/-- A call of `ap_store_data` for a row of a column. -/
structure RowStore where
  row : Fin apColSize
  data : UInt8

/-- Calls of `ap_store_data` for rows of a column, one after the other. -/
def storeRows (c : Cam) : List RowStore → Prog Unit
  | [] => pure ()
  | x :: xs => do
    apStoreData (c.base + x.row) x.data
    storeRows c xs

/-- The bytes that they store. -/
def spaceStoreRows (c : Cam) : List RowStore → Mem → Mem
  | [], m => m
  | x :: xs, m => spaceStoreRows c xs (spaceStoreData (c.base + x.row) x.data m)

/-- Calls whose words have no byte of a register. -/
structure OffRows (c : Cam) where
  calls : List RowStore
  off : ∀ x ∈ calls, WordOff (c.base + x.row)

/-- A byte after the column that the word of one of the calls reaches. -/
def PastEnd (c : Cam) (xs : List RowStore) (a : ℕ) : Prop :=
  ∃ x ∈ xs, ∃ i < 4, apColSize ≤ x.row + i ∧ a = c.base + (x.row + i)

theorem wordByte_row (c : Cam) (r : Fin apColSize) {i : ℕ} (hi : i < 4) :
    wordByte (c.base + r) i = c.base + (r + i) := by
  have hr := r.isLt
  have hle := c.base_le
  have hw := apWindow
  unfold wordByte
  omega

/-- Only the words of the last rows of `C_1` reach the registers. -/
theorem wordOff_row_iff (c : Cam) (r : Fin apColSize) :
    WordOff (c.base + r) ↔ ∀ i < 4, apColSize ≤ r + i → c ≠ .c1 := by
  have hr := r.isLt
  constructor
  · rintro h i hi hri rfl
    have hoff := h i hi
    rw [wordByte_row _ _ hi] at hoff
    have hbase : Cam.c1.base + apColSize = apControlRegistersBaseAddr := rfl
    have hw := apWindow
    unfold OffRegisters at hoff
    omega
  · intro h i hi
    rw [wordByte_row _ _ hi]
    by_cases hri : apColSize ≤ r + i
    · have hne := h i hi hri
      have hnext : c.base + 2 * apColSize ≤ apControlRegistersBaseAddr := by
        rcases c with ⟨col, right⟩
        cases col <;> cases right <;> first | decide | exact absurd rfl hne
      have hw := apWindow
      unfold OffRegisters
      omega
    · have hle := c.base_le
      unfold OffRegisters
      omega

/-- A call stores its row, and changes no byte away from its word. -/
theorem apStoreData_row {c : Cam} (hc : c ≠ .c1) {r : ℕ} (hr : r < apColSize) (d : UInt8)
    (s : St) : Ensures (apStoreData (c.base + r) d) s fun _ t => t.mem (c.base + r) = d ∧
      (∀ a, ¬ (c.base + r ≤ a ∧ a < c.base + r + 4) → t.mem a = s.mem a) ∧
      t.control = s.control := by
  have hword : ∀ i < 4, wordByte (c.base + r) i = c.base + (r + i) :=
    fun i hi => wordByte_row c ⟨r, hr⟩ hi
  rw [apStoreData, ensures_sw_iff]
  refine ⟨(wordOff_row_iff c ⟨r, hr⟩).mpr fun _ _ _ => hc, ?_, fun a ha => ?_, rfl⟩
  · refine (storeWord_of_ne s.mem d fun i hi hpos => ?_).trans ?_
    · rw [hword i hi]
      omega
    · rw [hword 0 (by decide), Nat.add_zero]
      exact Mem.store_self _ _ _
  · refine (storeWord_of_ne s.mem d fun i hi _ => ?_).trans (Mem.store_of_ne _ _ ?_)
    · rw [hword i hi]
      omega
    · rw [hword 0 (by decide)]
      omega

/-- A call changes no byte outside the column but those its word reaches. -/
theorem storeRow_outside (c : Cam) (x : RowStore) (m : Mem) {a : ℕ}
    (ha : ¬ (c.base ≤ a ∧ a < c.base + apColSize)) :
    (PastEnd c [x] a → spaceStoreData (c.base + x.row) x.data m a = 0) ∧
      (¬ PastEnd c [x] a → spaceStoreData (c.base + x.row) x.data m a = m a) := by
  have hr := x.row.isLt
  rw [spaceStoreData]
  constructor
  · rintro ⟨y, hy, i, hi, hri, rfl⟩
    rw [List.mem_singleton] at hy
    subst hy
    rw [← wordByte_row c y.row hi]
    exact storeWord_rest m y.data hi (by omega)
  · intro h
    have hne : a ≠ wordByte (c.base + x.row) 0 := by
      rw [wordByte_row c x.row (by decide)]
      omega
    rw [storeWord_of_ne m x.data fun i hi _ hai => ?_, Mem.store_of_ne _ _ hne]
    rw [wordByte_row c x.row hi] at hai
    exact h ⟨x, List.mem_singleton_self x, i, hi, by omega, hai⟩

/-- The bytes outside the column after the calls. -/
theorem spaceStoreRows_outside (c : Cam) (xs : List RowStore) (m : Mem) {a : ℕ}
    (ha : ¬ (c.base ≤ a ∧ a < c.base + apColSize)) :
    (PastEnd c xs a → spaceStoreRows c xs m a = 0) ∧
      (¬ PastEnd c xs a → spaceStoreRows c xs m a = m a) := by
  induction xs generalizing m with
  | nil => exact ⟨fun ⟨_, hx, _⟩ => absurd hx List.not_mem_nil, fun _ => rfl⟩
  | cons x xs ih =>
    obtain ⟨hzero, hsame⟩ := ih (spaceStoreData (c.base + x.row) x.data m)
    obtain ⟨hzero', hsame'⟩ := storeRow_outside c x m ha
    have hcons : PastEnd c (x :: xs) a ↔ PastEnd c [x] a ∨ PastEnd c xs a := by
      simp [PastEnd]
    rw [hcons, spaceStoreRows]
    by_cases hxs : PastEnd c xs a
    · exact ⟨fun _ => hzero hxs, fun hno => absurd (Or.inr hxs) hno⟩
    · rw [hsame hxs]
      exact ⟨fun hor => hzero' (hor.resolve_right hxs), fun hno => hsame' fun hx => hno (.inl hx)⟩

/-- The bytes after the column that the words reach are zero, or the registers'. -/
def PastEndZero (c : Cam) (xs : List RowStore) (m : Mem) : Prop :=
  c ≠ .c1 → ∀ x ∈ xs, ∀ i < 4, apColSize ≤ x.row + i → m (c.base + (x.row + i)) = 0

/-- A byte up to a column after a column is one of another column. -/
theorem exists_next {c : Cam} (hc : c ≠ .c1) :
    ∃ d, d ≠ c ∧ d.base = c.base + apColSize := by
  rcases c with ⟨col, right⟩
  cases col <;> cases right
  · exact ⟨.a1, by decide, rfl⟩
  · exact ⟨.b0, by decide, rfl⟩
  · exact ⟨.b1, by decide, rfl⟩
  · exact ⟨.c0, by decide, rfl⟩
  · exact ⟨.c1, by decide, rfl⟩
  · exact absurd rfl hc

/-- The bytes of the other columns are as they were exactly when those that are stored were
zero. -/
theorem spaceStoreRows_keeps_iff (c : Cam) (xs : List RowStore) (m : Mem) :
    (∀ d, d ≠ c → camsOf (spaceStoreRows c xs m) d = camsOf m d) ↔ PastEndZero c xs m := by
  constructor
  · intro h hne x hx i hi hri
    have hr := x.row.isLt
    have hw := apWindow
    obtain ⟨d, hdc, hd⟩ := exists_next hne
    -- the byte is row `x.row + i - 512` of the next column
    have haddr : d.base + (x.row + i - apColSize) = c.base + (x.row + i) := by omega
    have hrow := congrFun (h d hdc) ⟨x.row + i - apColSize, by omega⟩
    simp only [camsOf, haddr] at hrow
    rw [← hrow]
    exact (spaceStoreRows_outside c xs m (by omega)).1 ⟨x, hx, i, hi, hri, rfl⟩
  · intro h d hd
    funext r
    have hr := r.isLt
    have hap := Cam.base_apart hd
    obtain ⟨hzero, hsame⟩ :=
      spaceStoreRows_outside c xs m (a := d.base + r) (by omega)
    by_cases hpast : PastEnd c xs (d.base + r)
    · obtain ⟨x, hx, i, hi, hri, haddr⟩ := hpast
      have hne : c ≠ .c1 := by
        rintro rfl
        have hle := d.base_le
        have hbase : Cam.c1.base + apColSize = apControlRegistersBaseAddr := rfl
        omega
      refine (hzero ⟨x, hx, i, hi, hri, haddr⟩).trans ?_
      show 0 = m (d.base + r)
      rw [haddr]
      exact (h hne x hx i hi hri).symm
    · exact hsame hpast

/-- The calls leave the other columns as they were. -/
def KeepsOthers (c : Cam) (xs : List RowStore) (s : St) : Prop :=
  Ensures (storeRows c xs) s fun _ t => ∀ d, d ≠ c → t.cams d = s.cams d

theorem storeRows_space {c : Cam} {xs : List RowStore} (h : ∀ x ∈ xs, WordOff (c.base + x.row))
    (s : St) : Ensures (storeRows c xs) s fun _ t => space t = spaceStoreRows c xs (space s) := by
  induction xs generalizing s with
  | nil => exact .pure rfl
  | cons x xs ih =>
    rw [List.forall_mem_cons] at h
    refine .bind (apStoreData_space h.1 x.data s) fun _ t ht => ?_
    rw [spaceStoreRows, ← ht]
    exact ih h.2 t

theorem keepsOthers_iff (c : Cam) (xs : OffRows c) (s : St) :
    KeepsOthers c xs.calls s ↔ PastEndZero c xs.calls (space s) := by
  obtain ⟨_, t, hrun, ht⟩ := storeRows_space xs.off s
  rw [← spaceStoreRows_keeps_iff, ← ht, cams_space, cams_space]
  exact ⟨fun h => h.holds hrun, fun h => .of_run hrun h⟩

/-- **The byte accessors.** Where no byte of a word is a register's, `ap_store_data` stores its
byte and no other and `ap_get_data` returns its byte exactly when the other three bytes are
zero, `ap_get_data_to` copies its byte, and calls of `ap_store_data` for rows of a column keep
the other columns exactly when every byte after the column that their words reach is zero. At
every address, the registers' included, the same holds of the bytes that the instructions store
and read: nothing follows `C_1` but the registers, so its last rows reach no other column. -/
theorem accessors_exact_iff (s : St) :
    ((∀ (a : OffWord) (d : UInt8),
        StoresByte a.addr.toNat d s ↔ RestZero (space s) a.addr.toNat) ∧
      (∀ a : OffWord, GetsByte a.addr.toNat s ↔ RestZero (space s) a.addr.toNat) ∧
      (∀ (dest : OffByte) (src : OffWord), CopiesByte dest.addr.toNat src.addr.toNat s) ∧
      ∀ c (xs : OffRows c), KeepsOthers c xs.calls s ↔ PastEndZero c xs.calls (space s)) ∧
    (∀ (a : UInt32) (d : UInt8),
      spaceStoreData a.toNat d (space s) = (space s).store a.toNat d ↔
        RestZero (space s) a.toNat) ∧
    (∀ a : UInt32, spaceGetData a.toNat (space s) = (space s a.toNat).toUInt32 ↔
      RestZero (space s) a.toNat) ∧
    (∀ dest src : UInt32, spaceGetDataTo dest.toNat src.toNat (space s) =
      (space s).store dest.toNat (space s src.toNat)) ∧
    ∀ c xs, (∀ d, d ≠ c → camsOf (spaceStoreRows c xs (space s)) d = s.cams d) ↔
      PastEndZero c xs (space s) := by
  refine ⟨⟨fun a d => storesByte_iff a d s, fun a => getsByte_iff a s,
      fun dest src => copiesByte dest src s, fun c xs => keepsOthers_iff c xs s⟩,
    fun a d => spaceStoreData_iff a d _, fun a => spaceGetData_iff a _,
    fun dest src => spaceGetDataTo_eq dest src _, fun c xs => ?_⟩
  rw [← cams_space]
  exact spaceStoreRows_keeps_iff c xs _

/-- A store to the last row of `A_0`. -/
def lastRow : OffRows .a0 where
  calls := [⟨⟨511, by decide⟩, 1⟩]
  off := by decide

/-- It zeroes rows `0`, `1` and `2` of `A_1`. -/
theorem storeRows_last_row : ¬ KeepsOthers .a0 lastRow.calls (.rest fun a => a.toUInt8) := by
  rw [keepsOthers_iff]
  intro h
  have hzero := h (by decide) _ (List.mem_singleton_self _) 2 (by decide) (by decide)
  exact absurd hzero (by decide)

end RocketAp.Hal
