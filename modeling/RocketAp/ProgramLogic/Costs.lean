import RocketAp.ProgramLogic.Simulation
import Mathlib.Data.Nat.Size

/-!
# What a program spends

A state is measured by `μ` in a commutative monoid. `Spends I μ E c m` says that `m`, from
every state with `I`, returns in one with `I` that measures `c` more, or stops for a reason
with `E`: what is spent does not depend on where the program starts, nor on the values it
reads.

What is spent in sequence adds up, a loop spends the sum of its rounds, and a list of calls
the sum of its calls.
-/

namespace RocketAp.ProgramLogic

variable {ε σ α β C M : Type} [AddCommMonoid M]

/-- The program keeps `I` and spends `c`, or stops for a reason with `E`. -/
def Spends (I : σ → Prop) (μ : σ → M) (E : ε → Prop) (c : M) (m : EStateM ε σ α) : Prop :=
  ∀ k, Leads (fun s => I s ∧ μ s = k) (fun t => I t ∧ μ t = k + c) (fun e _ => E e) m

variable {I : σ → Prop} {μ : σ → M} {E : ε → Prop} {c d : M}

/-- How often `n` is halved before it is `0`. -/
theorem size_half {n : ℕ} (hn : 0 < n) : n.size = (n / 2).size + 1 := by
  have h := Nat.size_bit (b := n.bodd) (n := n.div2)
  rw [Nat.bit_bodd_div2, Nat.div2_val] at h
  exact h hn.ne'

namespace Spends

theorem of_eq {m : EStateM ε σ α} (h : Spends I μ E c m) (hc : c = d) : Spends I μ E d m := hc ▸ h

/-- A program that leaves the measure as it is. -/
theorem free {m : EStateM ε σ α}
    (h : ∀ k, Leads (fun s => I s ∧ μ s = k) (fun t => I t ∧ μ t = k) (fun e _ => E e) m) :
    Spends I μ E 0 m := fun k => by
  rw [add_zero]
  exact h k

theorem pure (a : α) : Spends I μ E 0 (Pure.pure a : EStateM ε σ α) := .free fun _ => Matches.pure a

theorem bind {m : EStateM ε σ α} {f : α → EStateM ε σ β} (h : Spends I μ E c m)
    (hf : ∀ a, Spends I μ E d (f a)) : Spends I μ E (c + d) (m >>= f) := fun k => by
  rw [← add_assoc]
  exact (h k).bind fun a => hf a (k + c)

/-- A step that is free, and what follows it. -/
theorem free_then {m : EStateM ε σ α} {f : α → EStateM ε σ β} (h : Spends I μ E 0 m)
    (hf : ∀ a, Spends I μ E d (f a)) : Spends I μ E d (m >>= f) := by
  have := h.bind hf
  rwa [zero_add] at this

/-- The last step is free. -/
theorem then_free {m : EStateM ε σ α} {f : α → EStateM ε σ β} (h : Spends I μ E c m)
    (hf : ∀ a, Spends I μ E 0 (f a)) : Spends I μ E c (m >>= f) := by
  have := h.bind hf
  rwa [add_zero] at this

/-- A test without an `else`, after which the program goes on with `n`. -/
theorem iteThen {p : Prop} [Decidable p] {m n : EStateM ε σ α} (h : Spends I μ E d n)
    (hm : Spends I μ E d n → Spends I μ E (c + d) m) :
    Spends I μ E ((if p then c else 0) + d) (if p then m else n) := by
  split
  · exact hm h
  · rw [zero_add]
    exact h

theorem forUpTo {n : ℕ} {c : ℕ → M} {body : ℕ → EStateM ε σ Unit}
    (h : ∀ i, Spends I μ E (c i) (body i)) :
    Spends I μ E (∑ i ∈ Finset.range n, c i) (forUpTo n body) := by
  induction n with
  | zero => exact .pure ()
  | succ n ih =>
    rw [Finset.sum_range_succ]
    exact ih.bind fun _ => h n

/-- A loop whose rounds all spend the same. -/
theorem repeated {n : ℕ} {body : ℕ → EStateM ε σ Unit} (h : ∀ i, Spends I μ E c (body i)) :
    Spends I μ E (n • c) (ProgramLogic.forUpTo n body) := by
  have := forUpTo (n := n) h
  rwa [Finset.sum_const, Finset.card_range] at this

theorem forHalving {n : ℕ} {body : ℕ → EStateM ε σ Unit} (h : ∀ i, Spends I μ E c (body i)) :
    Spends I μ E (n.size • c) (forHalving n body) := by
  induction n using Nat.strong_induction_on with
  | _ n ih =>
    rw [ProgramLogic.forHalving]
    split
    · next hn =>
      rw [size_half hn, succ_nsmul']
      exact (h n).bind fun _ => ih (n / 2) (Nat.div_lt_self hn (by decide))
    · next hn =>
      rw [Nat.eq_zero_of_not_pos hn, Nat.size_zero, zero_nsmul]
      exact .pure ()

/-- A list of calls. -/
theorem mapM {exec : C → EStateM ε σ α} {cost : C → M} {cs : List C}
    (h : ∀ x ∈ cs, Spends I μ E (cost x) (exec x)) :
    Spends I μ E (cs.map cost).sum (cs.mapM exec) := by
  induction cs with
  | nil => exact .pure []
  | cons x cs ih =>
    rw [List.forall_mem_cons] at h
    rw [List.mapM_cons, List.map_cons, List.sum_cons]
    exact h.1.bind fun a => (ih h.2).then_free fun as => .pure (a :: as)

/-! ### What it says of a run -/

theorem ok {m : EStateM ε σ α} {s t : σ} {a : α} (h : Spends I μ E c m) (hs : I s)
    (hr : m s = .ok a t) : I t ∧ μ t = μ s + c := (h (μ s)).ok ⟨hs, rfl⟩ hr

theorem error {m : EStateM ε σ α} {s t : σ} {e : ε} (h : Spends I μ E c m) (hs : I s)
    (hr : m s = .error e t) : E e := (h (μ s)).error ⟨hs, rfl⟩ hr

end Spends

end RocketAp.ProgramLogic
