import Mathlib.Data.Matrix.Mul

/-!
# Matrices in row-major order

A matrix with rows of `n` entries is kept as a sequence: entry `(i, j)` is at
`i * n + j`. The lemmas on indexes go between the two; `productEntry` is an entry of
a product of two such sequences, and `mul_eq_productEntry` says it is Mathlib's.

A loop that adds up a product term by term has the product of the first terms as its
invariant: `productEntry_succ`.
-/

namespace RocketAp.ProgramLogic

open Finset

/-! ### Indexes -/

section Indexes

variable {m n i j r : ℕ}

/-- A row ends where the matrix does, or before. -/
theorem rowMajor_row_le (hi : i < m) : i * n + n ≤ m * n := by
  have := Nat.mul_le_mul_right n (Nat.succ_le_of_lt hi)
  rwa [Nat.succ_mul] at this

theorem rowMajor_lt (hi : i < m) (hj : j < n) : i * n + j < m * n :=
  Nat.lt_of_lt_of_le (Nat.add_lt_add_left hj _) (rowMajor_row_le hi)

theorem rowMajor_div (hj : j < n) : (i * n + j) / n = i := by
  rw [Nat.add_comm, Nat.add_mul_div_right j i (by omega), Nat.div_eq_of_lt hj, Nat.zero_add]

theorem rowMajor_mod (hj : j < n) : (i * n + j) % n = j := by
  rw [Nat.add_comm, Nat.add_mul_mod_self_right, Nat.mod_eq_of_lt hj]

/-- The row of the next index. -/
theorem rowMajor_div_succ (hn : 1 ≤ n) :
    (r + 1) / n = if r % n = n - 1 then r / n + 1 else r / n := by
  have hdiv := Nat.div_add_mod' r n
  have hmod := Nat.mod_lt r hn
  split
  · next hlast =>
    have hsucc : r + 1 = (r / n + 1) * n + 0 := by
      rw [Nat.succ_mul]
      omega
    rw [hsucc, rowMajor_div hn]
  · next hne =>
    have hsucc : r + 1 = r / n * n + (r % n + 1) := by omega
    rw [hsucc, rowMajor_div (by omega)]

/-- Every index is that of an entry. -/
theorem exists_rowMajor (h : r < m * n) : r / n < m ∧ r % n < n ∧ r / n * n + r % n = r := by
  have hn : 0 < n := Nat.pos_of_ne_zero fun h₀ => by simp [h₀] at h
  exact ⟨Nat.div_lt_of_lt_mul (by rwa [Nat.mul_comm]), Nat.mod_lt r hn, Nat.div_add_mod' r n⟩

end Indexes

/-! ### Products -/

section Products

variable {α : Type} [NonUnitalNonAssocSemiring α]

/-- The first `t` terms of entry `(i, j)` of the product of `a`, with rows of `k`, and `b`,
with rows of `n`. -/
def productTerms (k n : ℕ) (a b : ℕ → α) (t i j : ℕ) : α :=
  ∑ l ∈ range t, a (i * k + l) * b (l * n + j)

/-- Entry `(i, j)` of the product. -/
def productEntry (k n : ℕ) (a b : ℕ → α) (i j : ℕ) : α := productTerms k n a b k i j

variable {k n : ℕ} {a a' b b' : ℕ → α}

@[simp] theorem productTerms_zero (i j : ℕ) : productTerms k n a b 0 i j = 0 := rfl

theorem productTerms_succ (t i j : ℕ) : productTerms k n a b (t + 1) i j =
    productTerms k n a b t i j + a (i * k + t) * b (t * n + j) :=
  sum_range_succ _ _

/-- Terms of bounded factors. -/
theorem productTerms_le {a b : ℕ → ℕ} {A B t i j : ℕ} (ha : ∀ l < t, a (i * k + l) ≤ A)
    (hb : ∀ l < t, b (l * n + j) ≤ B) : productTerms k n a b t i j ≤ t * (A * B) := by
  have hterm : ∀ l ∈ range t, a (i * k + l) * b (l * n + j) ≤ A * B := fun l hl =>
    Nat.mul_le_mul (ha l (mem_range.mp hl)) (hb l (mem_range.mp hl))
  have hsum := sum_le_card_nsmul (range t) _ (A * B) hterm
  rwa [card_range, smul_eq_mul] at hsum

/-- The matrix a sequence holds. -/
def ofRowMajor (m n : ℕ) (v : ℕ → α) : Matrix (Fin m) (Fin n) α :=
  Matrix.of fun i j => v (i * n + j)

/-- The product of the matrices. -/
theorem mul_eq_productEntry {m : ℕ} (i : Fin m) (j : Fin n) :
    (ofRowMajor m k a * ofRowMajor k n b) i j = productEntry k n a b i j := by
  rw [Matrix.mul_apply, productEntry, productTerms,
    ← Fin.sum_univ_eq_sum_range fun l => a (i * k + l) * b (l * n + j)]
  rfl

/-- A product depends on no entry outside its matrices. -/
theorem productEntry_congr {m i j : ℕ} (hi : i < m) (hj : j < n)
    (ha : ∀ x < m * k, a x = a' x) (hb : ∀ x < k * n, b x = b' x) :
    productEntry k n a b i j = productEntry k n a' b' i j := by
  unfold productEntry productTerms
  refine sum_congr rfl fun l hl => ?_
  rw [mem_range] at hl
  rw [ha _ (rowMajor_lt hi hl), hb _ (rowMajor_lt hl hj)]

end Products

end RocketAp.ProgramLogic
