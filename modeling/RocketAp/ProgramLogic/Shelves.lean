import RocketAp.ProgramLogic.Bytes

/-!
# A store in memory

`Shelves K` is a place in memory for each key, no two of which have an address in common.
What is on them is a `Store`: a vector for each key, and the memory around them. Putting a
vector on a shelf changes that shelf (`Shows.put`), and writing elsewhere changes none
(`Shows.write`): to the keys it does not matter where the shelves are.
-/

namespace RocketAp.ProgramLogic

variable {K : Type}

/-- A block is what its bytes are. -/
theorem Mem.write_congr {m : Mem} {dst n : ℕ} {f g : ℕ → UInt8} (h : ∀ i < n, f i = g i) :
    m.write dst n f = m.write dst n g := by
  funext a
  rw [Mem.write, Mem.write]
  split
  · exact h _ (by omega)
  · rfl

/-- A place of `size` bytes for each key. -/
structure Shelves (K : Type) where
  base : K → ℕ
  size : ℕ
  apart : ∀ {k l}, k ≠ l → base k + size ≤ base l ∨ base l + size ≤ base k

/-- A vector for each key, and the memory around them. -/
structure Store (K : Type) where
  slot : K → ℕ → UInt8
  rest : Mem

/-- The first `n` bytes of the vector of `k` are set. -/
def Store.put [DecidableEq K] (x : Store K) (k : K) (n : ℕ) (f : ℕ → UInt8) : Store K :=
  { x with slot := Function.update x.slot k (Mem.write (x.slot k) 0 n f) }

theorem Store.put_self [DecidableEq K] (x : Store K) (k : K) (n : ℕ) (f : ℕ → UInt8) :
    (x.put k n f).slot k = Mem.write (x.slot k) 0 n f := Function.update_self _ _ _

theorem Store.put_of_ne [DecidableEq K] (x : Store K) {k l : K} (h : l ≠ k) (n : ℕ)
    (f : ℕ → UInt8) : (x.put k n f).slot l = x.slot l := Function.update_of_ne h _ _

/-- A block of the memory around them is set. -/
def Store.write (x : Store K) (a n : ℕ) (f : ℕ → UInt8) : Store K :=
  { x with rest := x.rest.write a n f }

namespace Shelves

variable (L : Shelves K)

/-- An address on one of the shelves. -/
def On (a : ℕ) : Prop := ∃ k, L.base k ≤ a ∧ a < L.base k + L.size

/-- A block that meets no shelf. -/
def Clear (a n : ℕ) : Prop := ∀ i < n, ¬ L.On (a + i)

/-- The memory holds the store. -/
structure Shows (m : Mem) (x : Store K) : Prop where
  slot : ∀ k, ∀ r < L.size, m (L.base k + r) = x.slot k r
  rest : ∀ a, ¬ L.On a → m a = x.rest a

/-- What the memory holds. -/
def store (m : Mem) : Store K := ⟨fun k r => m (L.base k + r), m⟩

theorem shows_store (m : Mem) : L.Shows m (L.store m) := ⟨fun _ _ _ => rfl, fun _ _ => rfl⟩

variable {L} {m : Mem} {x : Store K} {a n : ℕ} {f : ℕ → UInt8}

/-- A clear block lies beside every shelf. -/
theorem Clear.beside (h : L.Clear a n) (hL : 0 < L.size) (k : K) :
    L.base k + L.size ≤ a ∨ a + n ≤ L.base k ∨ n = 0 := by
  by_contra hno
  rcases Nat.lt_or_ge a (L.base k) with hlt | hge
  · exact h (L.base k - a) (by omega) ⟨k, by omega, by omega⟩
  · exact h 0 (by omega) ⟨k, by omega, by omega⟩

/-- What is read beside the shelves. -/
theorem Shows.read (h : L.Shows m x) (ha : L.Clear a n) {i : ℕ} (hi : i < n) :
    m (a + i) = x.rest (a + i) := h.rest _ (ha i hi)

theorem Shows.put [DecidableEq K] (h : L.Shows m x) (k : K) (hn : n ≤ L.size) :
    L.Shows (m.write (L.base k) n f) (x.put k n f) := by
  constructor
  · intro l r hr
    by_cases hl : l = k
    · subst hl
      rw [Store.put_self]
      by_cases hrn : r < n
      · rw [Mem.write_at m _ f hrn, Mem.write, if_pos (by omega), Nat.sub_zero]
      · rw [Mem.write_of_not_mem _ _ (by omega), Mem.write_of_not_mem _ _ (by omega), h.slot l r hr]
    · have hap := L.apart hl
      rw [Store.put_of_ne x hl, Mem.write_of_not_mem _ _ (by omega), h.slot l r hr]
  · intro b hb
    rw [Mem.write_of_not_mem _ _ fun hin => hb ⟨k, hin.1, by omega⟩]
    exact h.rest b hb

theorem Shows.write (h : L.Shows m x) (ha : L.Clear a n) :
    L.Shows (m.write a n f) (x.write a n f) := by
  constructor
  · intro k r hr
    have hbeside := ha.beside (by omega) k
    rw [Mem.write_of_not_mem _ _ (by omega)]
    exact h.slot k r hr
  · intro b hb
    simp only [Store.write, Mem.write, h.rest b hb]

end Shelves

end RocketAp.ProgramLogic
