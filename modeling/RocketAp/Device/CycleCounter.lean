import RocketAp.Device.Platform

/-!
# The cycle counter

`get_cycles` reads the high word of a running 64-bit counter, then the low word, then the
high word again, and starts over when the two high words differ. A `Platform` has only what
a call of `get_cycles` returns; here are the three reads, each at an instant of its own.

`CycleCounter` is the counter over time and the delay before each read. `getCycles_exact`:
whatever the delays, what is returned is the counter at one instant, that of the last read
of the low word. A retry needs the high word to have grown, so there are less than `2 ^ 32`
of them (`getCycles_returns`).
-/

namespace RocketAp.Device

open ProgramLogic

/-- A running counter, and how long each read of it takes. -/
structure CycleCounter where
  /-- The counter at an instant. -/
  value : ℕ → UInt64
  /-- It does not run backwards, so it does not wrap. -/
  monotone : ∀ {i j}, i ≤ j → value i ≤ value j
  /-- How many instants pass before the `k`th read. -/
  delay : ℕ → ℕ

/-- `mcycle`. -/
def mcycle (v : UInt64) : UInt32 := UInt32.ofNat (v.toNat % 2 ^ 32)

/-- `mcycleh`. -/
def mcycleh (v : UInt64) : UInt32 := UInt32.ofNat (v.toNat / 2 ^ 32)

/-- `a1:a0`. -/
def registerPair (a1 a0 : UInt32) : UInt64 := UInt64.ofNat (a1.toNat * 2 ^ 32 + a0.toNat)

/-- What the three functions read and write, and the time. -/
structure Clock where
  /-- The instant. -/
  now : ℕ
  /-- How many times a counter register has been read. -/
  csrReads : ℕ
  /-- When `mcycle` was last read. -/
  lowRead : ℕ
  /-- `record`. -/
  record : RecordCycles

/-- Nothing has been read. -/
def Clock.rest : Clock := ⟨0, 0, 0, ⟨0, 0, 0, fun _ => 0, 0⟩⟩

/-- A program that reads the counter. -/
abbrev Clocked := EStateM Stuck Clock

namespace CycleCounter

variable (c : CycleCounter)

/-- `csrr a1, mcycleh`. -/
def csrrHigh : Clocked UInt32 := fun s =>
  let now := s.now + c.delay s.csrReads
  .ok (mcycleh (c.value now)) { s with now, csrReads := s.csrReads + 1 }

/-- `csrr a0, mcycle`. -/
def csrrLow : Clocked UInt32 := fun s =>
  let now := s.now + c.delay s.csrReads
  .ok (mcycle (c.value now)) { s with now, csrReads := s.csrReads + 1, lowRead := now }

/-- `get_cycles`, given up after `n` attempts. -/
def getCycles : ℕ → Clocked UInt64
  | 0 => throw .hang
  | n + 1 => do
    let a1 ← c.csrrHigh
    let a0 ← c.csrrLow
    let a5 ← c.csrrHigh
    if a1 ≠ a5 then getCycles n else return registerPair a1 a0

/-- `start_compute_cycles`. -/
def startComputeCycles (n : ℕ) : Clocked Unit := do
  let now ← c.getCycles n
  modify fun s => { s with record := { s.record with start := now } }

/-- `end_compute_cycles`. -/
def endComputeCycles (n : ℕ) : Clocked Unit := do
  let now ← c.getCycles n
  modify fun s => { s with record := Platform.endRecord now s.record }

end CycleCounter

/-! ### The words of the counter -/

theorem mcycleh_toNat (v : UInt64) : (mcycleh v).toNat = v.toNat / 2 ^ 32 := by
  have := v.toNat_lt
  have hsize : UInt32.size = 2 ^ 32 := rfl
  rw [mcycleh, UInt32.toNat_ofNat_of_lt' (by omega)]

theorem mcycle_toNat (v : UInt64) : (mcycle v).toNat = v.toNat % 2 ^ 32 := by
  have hsize : UInt32.size = 2 ^ 32 := rfl
  rw [mcycle, UInt32.toNat_ofNat_of_lt' (by omega)]

theorem mcycleh_mono {v w : UInt64} (h : v ≤ w) : (mcycleh v).toNat ≤ (mcycleh w).toNat := by
  rw [mcycleh_toNat, mcycleh_toNat]
  exact Nat.div_le_div_right (UInt64.le_iff_toNat_le.mp h)

/-- The counter is its two words. -/
theorem registerPair_words (v : UInt64) : registerPair (mcycleh v) (mcycle v) = v := by
  have := v.toNat_lt
  rw [registerPair, mcycleh_toNat, mcycle_toNat, Nat.div_add_mod', UInt64.ofNat_toNat]

namespace CycleCounter

variable (c : CycleCounter) {n : ℕ} {s t u : Clock} {v w : UInt64}

/-! ### An attempt -/

/-- When an attempt reads the high word. -/
def highAt (s : Clock) : ℕ := s.now + c.delay s.csrReads

/-- When it reads the low word. -/
def lowAt (s : Clock) : ℕ := c.highAt s + c.delay (s.csrReads + 1)

/-- When it reads the high word again. -/
def againAt (s : Clock) : ℕ := c.lowAt s + c.delay (s.csrReads + 2)

/-- The state after an attempt. -/
def afterAttempt (s : Clock) : Clock :=
  { s with now := c.againAt s, csrReads := s.csrReads + 3, lowRead := c.lowAt s }

theorem lowAt_ge (s : Clock) : c.highAt s ≤ c.lowAt s := Nat.le_add_right _ _

theorem againAt_ge (s : Clock) : c.lowAt s ≤ c.againAt s := Nat.le_add_right _ _

theorem highAt_ge (s : Clock) : s.now ≤ c.highAt s := Nat.le_add_right _ _

/-- An attempt, and what follows it. -/
theorem getCycles_succ (n : ℕ) (s : Clock) : c.getCycles (n + 1) s =
    if mcycleh (c.value (c.highAt s)) = mcycleh (c.value (c.againAt s)) then
      .ok (registerPair (mcycleh (c.value (c.highAt s))) (mcycle (c.value (c.lowAt s))))
        (c.afterAttempt s)
    else c.getCycles n (c.afterAttempt s) := by
  rw [getCycles]
  refine (bind_run rfl).trans ((bind_run rfl).trans ((bind_run rfl).trans ?_))
  by_cases h : mcycleh (c.value (c.highAt s)) = mcycleh (c.value (c.againAt s))
  · rw [if_pos h]
    exact congrFun (if_neg (not_not.mpr h)) (c.afterAttempt s)
  · rw [if_neg h]
    exact congrFun (if_pos h) (c.afterAttempt s)

/-- When the high words agree, what the two words make is the counter between them. -/
theorem registerPair_eq (s : Clock)
    (h : mcycleh (c.value (c.highAt s)) = mcycleh (c.value (c.againAt s))) :
    registerPair (mcycleh (c.value (c.highAt s))) (mcycle (c.value (c.lowAt s))) =
      c.value (c.lowAt s) := by
  have h₁ := mcycleh_mono (c.monotone (c.lowAt_ge s))
  have h₂ := mcycleh_mono (c.monotone (c.againAt_ge s))
  have hmid : mcycleh (c.value (c.highAt s)) = mcycleh (c.value (c.lowAt s)) := by
    apply UInt32.toNat_inj.mp
    rw [← h] at h₂
    exact Nat.le_antisymm h₁ h₂
  rw [hmid, registerPair_words]

/-! ### `get_cycles` -/

/-- What a call that returns has done: the value is the counter at the last read of the low
word, which was made during the call. -/
structure ReadExactly (s : Clock) (v : UInt64) (t : Clock) : Prop where
  value : v = c.value t.lowRead
  entry : s.now ≤ t.lowRead
  exit : t.lowRead ≤ t.now
  record : t.record = s.record

theorem getCycles_exact (h : c.getCycles n s = .ok v t) : c.ReadExactly s v t := by
  induction n generalizing s with
  | zero => cases h
  | succ n ih =>
    have h₁ := c.highAt_ge s
    have h₂ := c.lowAt_ge s
    have h₃ := c.againAt_ge s
    rw [getCycles_succ] at h
    split at h
    · next heq =>
      rw [c.registerPair_eq s heq] at h
      cases h
      exact ⟨rfl, h₁.trans h₂, h₃, rfl⟩
    · have hrest := ih h
      have hentry : c.againAt s ≤ t.lowRead := hrest.entry
      exact ⟨hrest.value, by omega, hrest.exit, hrest.record⟩

/-- The value is between the counter at entry and at return. -/
theorem ReadExactly.between {c : CycleCounter} (h : c.ReadExactly s v t) :
    c.value s.now ≤ v ∧ v ≤ c.value t.now := by
  rw [h.value]
  exact ⟨c.monotone h.entry, c.monotone h.exit⟩

/-- **`get_cycles` returns.** Each retry needs the high word to have grown. -/
theorem getCycles_returns (hn : 0 < n)
    (h : 2 ^ 32 ≤ n + (mcycleh (c.value s.now)).toNat) :
    Ensures (c.getCycles n) s fun v t => c.ReadExactly s v t := by
  induction n generalizing s with
  | zero => exact absurd hn (Nat.lt_irrefl 0)
  | succ n ih =>
    have hrun := c.getCycles_succ n s
    by_cases heq : mcycleh (c.value (c.highAt s)) = mcycleh (c.value (c.againAt s))
    · rw [if_pos heq] at hrun
      exact .of_run hrun (c.getCycles_exact hrun)
    · rw [if_neg heq] at hrun
      have h₀ := mcycleh_mono (c.monotone (c.highAt_ge s))
      have h₁ := mcycleh_mono (c.monotone ((c.lowAt_ge s).trans (c.againAt_ge s)))
      have hne : (mcycleh (c.value (c.highAt s))).toNat ≠
        (mcycleh (c.value (c.againAt s))).toNat := fun h => heq (UInt32.toNat_inj.mp h)
      have hlt := (mcycleh (c.value (c.againAt s))).toNat_lt
      obtain ⟨v, t, hrest, -⟩ := ih (s := c.afterAttempt s) (by omega) (by
        show 2 ^ 32 ≤ n + (mcycleh (c.value (c.againAt s))).toNat
        omega)
      rw [hrest] at hrun
      exact .of_run hrun (c.getCycles_exact hrun)

/-- A call given more attempts does the same. -/
theorem getCycles_more {m : ℕ} (h : c.getCycles n s = .ok v t) (hm : n ≤ m) :
    c.getCycles m s = .ok v t := by
  induction n generalizing s m with
  | zero => cases h
  | succ n ih =>
    obtain ⟨m, rfl⟩ := Nat.exists_eq_add_of_le' (show 1 ≤ m by omega)
    rw [getCycles_succ] at h ⊢
    split at h
    · next heq => rw [if_pos heq, h]
    · next hne => rw [if_neg hne, ih h (by omega)]

/-! ### Successive calls -/

/-- Some code that does not read the counter, which takes `idle` instants. -/
def pass (idle : ℕ) : Clocked Unit := modify fun s => { s with now := s.now + idle }

/-- Calls of `get_cycles`, each some time after the one before, and what they return. -/
def readAll : List (ℕ × ℕ) → Clocked (List UInt64)
  | [] => return []
  | (idle, n) :: xs => do
    pass idle
    let v ← c.getCycles n
    let vs ← readAll xs
    return v :: vs

/-- What the calls return starts no lower than the counter, and does not decrease. -/
theorem readAll_sorted {calls : List (ℕ × ℕ)} {vs : List UInt64}
    (h : c.readAll calls s = .ok vs t) :
    (∀ v ∈ vs, c.value s.now ≤ v) ∧ vs.Pairwise (· ≤ ·) := by
  induction calls generalizing s vs with
  | nil =>
    cases h
    exact ⟨fun _ hv => absurd hv List.not_mem_nil, List.Pairwise.nil⟩
  | cons x xs ih =>
    obtain ⟨idle, n⟩ := x
    have h : (do let v ← c.getCycles n; let vs ← c.readAll xs; return v :: vs)
      { s with now := s.now + idle } = .ok vs t := h
    obtain ⟨v, u, hv, h⟩ := bind_ok h
    obtain ⟨ws, t', hws, h⟩ := bind_ok h
    cases h
    have hread := c.getCycles_exact hv
    obtain ⟨hmin, hsorted⟩ := ih hws
    have hentry : s.now ≤ u.lowRead := (Nat.le_add_right _ _).trans hread.entry
    have hvs : c.value s.now ≤ v := by
      rw [hread.value]
      exact c.monotone hentry
    have hnext : ∀ w ∈ ws, v ≤ w := fun w hw => UInt64.le_trans hread.between.2 (hmin w hw)
    refine ⟨?_, List.pairwise_cons.mpr ⟨fun w hw => ?_, hsorted⟩⟩
    · rw [List.forall_mem_cons]
      exact ⟨hvs, fun w hw => UInt64.le_trans hvs (hnext w hw)⟩
    · exact hnext w hw

/-! ### A measurement -/

theorem startComputeCycles_exact (h : c.startComputeCycles n s = .ok () t) :
    t.record = { s.record with start := c.value t.lowRead } ∧ t.lowRead ≤ t.now := by
  obtain ⟨v, u, hv, h⟩ := bind_ok h
  have hread := c.getCycles_exact hv
  cases h
  show { u.record with start := v } = { s.record with start := c.value u.lowRead } ∧ _
  rw [hread.record, hread.value]
  exact ⟨rfl, hread.exit⟩

theorem endComputeCycles_exact (h : c.endComputeCycles n s = .ok () t) :
    t.record = Platform.endRecord (c.value t.lowRead) s.record ∧ s.now ≤ t.lowRead := by
  obtain ⟨v, u, hv, h⟩ := bind_ok h
  have hread := c.getCycles_exact hv
  cases h
  show Platform.endRecord v u.record = Platform.endRecord (c.value u.lowRead) s.record ∧ _
  rw [hread.record, hread.value]
  exact ⟨rfl, hread.entry⟩

/-- Between `t` and `u` the counter advanced by what is recorded. -/
structure Measured (t u : Clock) : Prop where
  order : t.lowRead ≤ u.lowRead
  result : u.record.result = c.value u.lowRead - c.value t.lowRead
  advance : u.record.result.toNat = (c.value u.lowRead).toNat - (c.value t.lowRead).toNat

theorem measured {t' : Clock} (hs : c.startComputeCycles n s = .ok () t) (hnow : t.now ≤ t'.now)
    (hstart : t'.record.start = t.record.start) {m : ℕ}
    (he : c.endComputeCycles m t' = .ok () u) : c.Measured t u := by
  obtain ⟨ht, hexit⟩ := c.startComputeCycles_exact hs
  obtain ⟨hu, hentry⟩ := c.endComputeCycles_exact he
  have horder : t.lowRead ≤ u.lowRead := hexit.trans (hnow.trans hentry)
  have hresult : u.record.result = c.value u.lowRead - c.value t.lowRead := by
    rw [hu, Platform.endRecord_result, hstart, ht]
  refine ⟨horder, hresult, ?_⟩
  rw [hresult, UInt64.toNat_sub_of_le _ _ (c.monotone horder)]

/-- With `2 ^ 32` attempts both timers return, whatever runs in between. -/
theorem measured_returns {m : ℕ} (hn : 2 ^ 32 ≤ n) (hm : 2 ^ 32 ≤ m) (s : Clock) :
    Ensures (c.startComputeCycles n) s fun _ t => ∀ t', t.now ≤ t'.now →
      t'.record.start = t.record.start →
        Ensures (c.endComputeCycles m) t' fun _ u => c.Measured t u := by
  obtain ⟨v, u, hv, -⟩ := c.getCycles_returns (s := s) (n := n) (by omega) (by omega)
  obtain ⟨t, hs⟩ : ∃ t, c.startComputeCycles n s = .ok () t := ⟨_, bind_run hv⟩
  refine .of_run hs fun t' hnow hstart => ?_
  obtain ⟨w, x, hw, -⟩ := c.getCycles_returns (s := t') (n := m) (by omega) (by omega)
  obtain ⟨u, he⟩ : ∃ u, c.endComputeCycles m t' = .ok () u := ⟨_, bind_run hw⟩
  exact .of_run he (c.measured hs hnow hstart he)

/-- **`get_cycles`**, however long each read takes. What a call returns is the counter when
the low word was last read, and is between the counter at entry and at return; successive
calls never decrease; and a measurement records what the counter advanced between the two
reads of the low word, whatever ran in between that kept the start, and is made: both timers
return within `2 ^ 32` attempts. -/
theorem getCycles_correct :
    (∀ n s v t, c.getCycles n s = .ok v t →
      v = c.value t.lowRead ∧ s.now ≤ t.lowRead ∧ t.lowRead ≤ t.now ∧
        c.value s.now ≤ v ∧ v ≤ c.value t.now) ∧
    (∀ calls s vs t, c.readAll calls s = .ok vs t → vs.Pairwise (· ≤ ·)) ∧
    (∀ n m s t t' u, c.startComputeCycles n s = .ok () t → t.now ≤ t'.now →
      t'.record.start = t.record.start → c.endComputeCycles m t' = .ok () u →
        c.Measured t u) ∧
    ∀ n m s, 2 ^ 32 ≤ n → 2 ^ 32 ≤ m → Ensures (c.startComputeCycles n) s fun _ t =>
      ∀ t', t.now ≤ t'.now → t'.record.start = t.record.start →
        Ensures (c.endComputeCycles m) t' fun _ u => c.Measured t u := by
  refine ⟨fun n s v t h => ?_, fun calls s vs t h => (c.readAll_sorted h).2,
    fun n m s t t' u hs hnow hstart he => c.measured hs hnow hstart he,
    fun n m s hn hm => c.measured_returns hn hm s⟩
  have hread := c.getCycles_exact h
  exact ⟨hread.value, hread.entry, hread.exit, hread.between⟩

/-- A counter about to carry into its high word. -/
def carrying : CycleCounter where
  value i := UInt64.ofNat (2 ^ 32 - 10 + min i 100)
  monotone {i j} h := by
    have hi : 2 ^ 32 - 10 + min i 100 < 2 ^ 64 := by omega
    have hj : 2 ^ 32 - 10 + min j 100 < 2 ^ 64 := by omega
    rw [UInt64.le_iff_toNat_le, UInt64.toNat_ofNat_of_lt' hi, UInt64.toNat_ofNat_of_lt' hj]
    omega
  delay k := k

/-- The clock after the timer that starts, before the carry. -/
def started : Clock := ⟨3, 3, 1, { Clock.rest.record with start := 0xfffffff7 }⟩

/-- The timer that starts reads the counter before the carry. The low word wraps while the timer
that ends reads it, so that it tries again, and the difference is across the carry. -/
theorem getCycles_carrying :
    (∃ t u, carrying.startComputeCycles 1 .rest = .ok () t ∧
      carrying.endComputeCycles 2 t = .ok () u ∧ carrying.Measured t u ∧
        u.record.result = 27) ∧
    (∃ t u, carrying.startComputeCycles 1 .rest = .ok () t ∧
      carrying.getCycles 2 t = .ok 0x100000012 u ∧ 0x100000012 = carrying.value u.lowRead) ∧
    Ensures (carrying.startComputeCycles (2 ^ 32)) .rest fun _ t =>
      Ensures (carrying.endComputeCycles (2 ^ 32)) t fun _ u => carrying.Measured t u := by
  obtain ⟨hvalue, -, hmeasure, hreturns⟩ := carrying.getCycles_correct
  have hs : carrying.startComputeCycles 1 .rest = .ok () started := rfl
  have hv : carrying.getCycles 2 started = .ok 0x100000012 ⟨36, 9, 28, started.record⟩ := rfl
  have he := bind_run hv (f := fun now => modify fun s =>
    { s with record := Platform.endRecord now s.record })
  refine ⟨⟨started, _, hs, he, ?_, rfl⟩, ⟨started, _, hs, hv, (hvalue 2 _ _ _ hv).1⟩, ?_⟩
  · exact hmeasure 1 2 _ started started _ hs (Nat.le_refl _) rfl he
  · refine (hreturns (2 ^ 32) (2 ^ 32) .rest (Nat.le_refl _) (Nat.le_refl _)).mono ?_
    exact fun _ t ht => ht t (Nat.le_refl _) rfl

end CycleCounter

end RocketAp.Device
