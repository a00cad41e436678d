import RocketAp.ProgramLogic.Ensures
import Mathlib.Algebra.BigOperators.Intervals

/-!
# Halving loops

`forHalving n body` is C's `for (i = n; i > 0; i = i / 2) body(i)`. Its rule is that of a
counted loop with `i / 2` for `i + 1` (`Ensures.forHalving`), and it needs no bound on the
number of rounds. `HalvingHead` are the states in which the condition is evaluated, so that
what holds at the start of every round can be stated, and not only what holds at the end.

A loop that adds the upper half of a sequence to the lower half keeps its sum
(`sum_halves`).
-/

namespace RocketAp.ProgramLogic

variable {ε σ : Type}

/-- `for (i = n; i > 0; i = i / 2) body(i)`. -/
def forHalving (n : ℕ) (body : ℕ → EStateM ε σ Unit) : EStateM ε σ Unit :=
  if 0 < n then do
    body n
    forHalving (n / 2) body
  else pure ()
termination_by n
decreasing_by omega

/-- The loop is at its condition with `i`, in the state that is given. -/
inductive HalvingHead (body : ℕ → EStateM ε σ Unit) (n : ℕ) (s : σ) : ℕ → σ → Prop where
  | entry : HalvingHead body n s n s
  | next {i : ℕ} {t u : σ} : HalvingHead body n s i t → 0 < i → body i t = .ok () u →
      HalvingHead body n s (i / 2) u

variable {body : ℕ → EStateM ε σ Unit} {n : ℕ} {s : σ}

/-- What holds at the start, and is carried from `i` to `i / 2`, holds at the end. -/
theorem Ensures.forHalving (I : ℕ → σ → Prop) (h₀ : I n s)
    (hstep : ∀ i, 0 < i → ∀ t, I i t → Ensures (body i) t fun _ u => I (i / 2) u) :
    Ensures (forHalving n body) s fun _ t => I 0 t := by
  induction n using Nat.strong_induction_on generalizing s with
  | _ n ih =>
    rw [ProgramLogic.forHalving]
    split
    · next hn =>
      refine .bind (hstep n hn s h₀) fun _ t ht => ?_
      exact ih (n / 2) (Nat.div_lt_self hn (by decide)) ht
    · next hn =>
      obtain rfl : n = 0 := Nat.eq_zero_of_not_pos hn
      exact .pure h₀

theorem Keeps.forHalving {R : σ → σ → Prop} [IsPreorder σ R] (h : ∀ i, Keeps R (body i)) :
    Keeps R (forHalving n body) := by
  induction n using Nat.strong_induction_on with
  | _ n ih =>
    rw [ProgramLogic.forHalving]
    split
    · next hn => exact (h n).bind fun _ => ih (n / 2) (Nat.div_lt_self hn (by decide))
    · exact .pure ()

/-- And it holds at every head. -/
theorem HalvingHead.invariant (I : ℕ → σ → Prop) (h₀ : I n s)
    (hstep : ∀ i, 0 < i → ∀ t, I i t → Ensures (body i) t fun _ u => I (i / 2) u) {i : ℕ} {t : σ}
    (h : HalvingHead body n s i t) : I i t := by
  induction h with
  | entry => exact h₀
  | next _ hi hrun ih => exact (hstep _ hi _ ih).holds hrun

/-- The upper half of a sequence added to the lower half. -/
theorem sum_halves {α : Type} [AddCommMonoid α] (f : ℕ → α) (half : ℕ) :
    ∑ r ∈ Finset.range half, (f r + f (half + r)) = ∑ r ∈ Finset.range (2 * half), f r := by
  rw [two_mul, Finset.sum_range_add, Finset.sum_add_distrib]

end RocketAp.ProgramLogic
