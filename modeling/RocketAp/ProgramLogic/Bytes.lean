import Mathlib.Logic.Function.Basic
import Mathlib.Data.Nat.Notation

/-!
# Byte memory

A memory is a byte at every address. `store` writes one byte and `write` a block of
them. `copy` writes a block that is read from another place (all of it read before any
of it is written, as `memcpy` may when the blocks are apart), and `fill` one byte
throughout.

`copy` is also what a byte-by-byte loop does when the blocks are apart
(`copy_succ`), and a loop that leaves memory as it was is one whose blocks were
equal already (`copyLoop_eq_self_iff`), whether they are apart or not.
-/

namespace RocketAp.ProgramLogic

/-- A byte at every address. -/
abbrev Mem := ℕ → UInt8

namespace Mem

/-- The byte `v` at `a`. -/
def store (m : Mem) (a : ℕ) (v : UInt8) : Mem := Function.update m a v

/-- The bytes `f 0, …, f (n - 1)`, at `dst`. -/
def write (m : Mem) (dst n : ℕ) (f : ℕ → UInt8) : Mem := fun a =>
  if dst ≤ a ∧ a < dst + n then f (a - dst) else m a

/-- The `n` bytes from `src`, at `dst`. -/
def copy (m : Mem) (dst src n : ℕ) : Mem := m.write dst n fun i => m (src + i)

/-- The byte `v`, `n` times from `dst`. -/
def fill (m : Mem) (dst : ℕ) (v : UInt8) (n : ℕ) : Mem := m.write dst n fun _ => v

theorem store_self (m : Mem) (a : ℕ) (v : UInt8) : m.store a v a = v := by simp [store]

theorem store_of_ne (m : Mem) {a b : ℕ} (v : UInt8) (h : b ≠ a) : m.store a v b = m b := by
  simp [store, h]

theorem write_at (m : Mem) (dst : ℕ) (f : ℕ → UInt8) {n i : ℕ} (h : i < n) :
    m.write dst n f (dst + i) = f i := by
  rw [write, if_pos (by omega), Nat.add_sub_cancel_left]

theorem write_of_not_mem (m : Mem) {dst n a : ℕ} (f : ℕ → UInt8)
    (h : ¬ (dst ≤ a ∧ a < dst + n)) : m.write dst n f a = m a := if_neg h

/-- A block written byte by byte, upwards. -/
theorem write_succ (m : Mem) (dst n : ℕ) (f : ℕ → UInt8) :
    (m.write dst n f).store (dst + n) (f n) = m.write dst (n + 1) f := by
  funext a
  by_cases ha : a = dst + n
  · subst ha
    rw [store_self, write_at m dst f (Nat.lt_succ_self n)]
  · rw [store_of_ne _ _ ha]
    simp only [write]
    exact if_congr ⟨fun ⟨h₁, h₂⟩ => ⟨h₁, by omega⟩, fun ⟨h₁, h₂⟩ => ⟨h₁, by omega⟩⟩ rfl rfl

/-- Of two bytes stored at one place the first is lost. -/
theorem store_store (m : Mem) (a : ℕ) (v w : UInt8) : (m.store a v).store a w = m.store a w :=
  Function.update_idem _ _ _

/-- A byte stored outside a block may be stored before it. -/
theorem write_store (m : Mem) {dst n a : ℕ} (f : ℕ → UInt8) (v : UInt8)
    (h : ¬ (dst ≤ a ∧ a < dst + n)) :
    (m.write dst n f).store a v = (m.store a v).write dst n f := by
  funext x
  by_cases hx : x = a
  · subst hx
    rw [store_self, write_of_not_mem _ _ h, store_self]
  · rw [store_of_ne _ _ hx]
    simp only [write, store_of_ne m v hx]

theorem copy_zero (m : Mem) (dst src : ℕ) : m.copy dst src 0 = m := by
  funext a
  exact if_neg (by omega)

/-- A copied byte is the byte it was copied from. -/
theorem copy_at (m : Mem) (dst src : ℕ) {n i : ℕ} (h : i < n) :
    m.copy dst src n (dst + i) = m (src + i) := write_at m dst _ h

theorem copy_of_not_mem (m : Mem) {dst src n a : ℕ} (h : ¬ (dst ≤ a ∧ a < dst + n)) :
    m.copy dst src n a = m a := if_neg h

/-- A block copied byte by byte, upwards, when the blocks are apart. -/
theorem copy_succ (m : Mem) {dst src n : ℕ} (h : dst + n ≤ src ∨ src + n < dst) :
    (m.copy dst src n).store (dst + n) (m.copy dst src n (src + n)) = m.copy dst src (n + 1) := by
  rw [copy_of_not_mem m (a := src + n) (by omega)]
  exact write_succ m dst n fun i => m (src + i)

/-- The byte-by-byte loop, upwards, whether the blocks are apart or not. -/
def copyLoop (m : Mem) (dst src : ℕ) : ℕ → Mem
  | 0 => m
  | n + 1 => (copyLoop m dst src n).store (dst + n) (copyLoop m dst src n (src + n))

/-- The loop is the block copy when the blocks are apart. -/
theorem copyLoop_eq_copy (m : Mem) {dst src n : ℕ} (h : dst + n ≤ src ∨ src + n ≤ dst) :
    copyLoop m dst src n = m.copy dst src n := by
  induction n with
  | zero => exact (copy_zero m dst src).symm
  | succ n ih => rw [copyLoop, ih (by omega), copy_succ m (by omega)]

theorem copyLoop_of_not_mem (m : Mem) {dst src n a : ℕ} (h : ¬ (dst ≤ a ∧ a < dst + n)) :
    copyLoop m dst src n a = m a := by
  induction n with
  | zero => rfl
  | succ n ih => rw [copyLoop, store_of_ne _ _ (by omega), ih (by omega)]

/-- The loop leaves memory as it was exactly when the blocks were equal: each byte
is written once, so a byte that ends as it began was written as it was. -/
theorem copyLoop_eq_self_iff (m : Mem) (dst src n : ℕ) :
    copyLoop m dst src n = m ↔ ∀ i < n, m (dst + i) = m (src + i) := by
  induction n with
  | zero => simp [copyLoop]
  | succ n ih =>
    constructor
    · intro h
      have hn : copyLoop m dst src n = m := by
        funext a
        by_cases ha : a = dst + n
        · exact copyLoop_of_not_mem m (by omega)
        · rw [← store_of_ne (copyLoop m dst src n) _ ha]
          exact congrFun h a
      intro i hi
      rcases Nat.lt_succ_iff_lt_or_eq.mp hi with hi | rfl
      · exact ih.mp hn i hi
      · have := congrFun h (dst + i)
        rw [copyLoop, store_self, hn] at this
        exact this.symm
    · intro h
      rw [copyLoop, ih.mpr fun i hi => h i (by omega), ← h n (by omega)]
      exact Function.update_eq_self _ _

/-- `m'` is `m` with `f 0, …, f (q - 1)` at `addr 0, …, addr (q - 1)`, which need not be a
block. -/
structure Stored (addr : ℕ → ℕ) (f : ℕ → UInt8) (q : ℕ) (m m' : Mem) : Prop where
  entries : ∀ x < q, m' (addr x) = f x
  others : ∀ a, (∀ x < q, a ≠ addr x) → m' a = m a

theorem Stored.zero (addr : ℕ → ℕ) (f : ℕ → UInt8) (m : Mem) : Stored addr f 0 m m :=
  ⟨nofun, fun _ _ => rfl⟩

/-- One more, at a place that is not taken. -/
theorem Stored.succ {addr : ℕ → ℕ} {f : ℕ → UInt8} {q : ℕ} {m m' : Mem}
    (h : Stored addr f q m m') (hne : ∀ x < q, addr x ≠ addr q) :
    Stored addr f (q + 1) m (m'.store (addr q) (f q)) := by
  constructor
  · intro x hx
    rcases Nat.lt_succ_iff_lt_or_eq.mp hx with hx | rfl
    · rw [store_of_ne _ _ (hne x hx)]
      exact h.entries x hx
    · exact store_self _ _ _
  · intro a ha
    rw [store_of_ne _ _ (ha q (Nat.lt_add_one q))]
    exact h.others a fun x hx => ha x (Nat.lt_add_right 1 hx)

end Mem

end RocketAp.ProgramLogic
