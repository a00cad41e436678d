import RocketAp.ProgramLogic.Footprint
import RocketAp.ProgramLogic.Halving

/-!
# Where a program writes at most

A part of the state is memory, a value at every place. `Confined mem W m` says that wherever `m`
starts, and whether it returns or stops, the memory outside `W` is as it was.

It is closed under sequencing, tests and loops, so that a bound on where a program writes is
read off its text, one store at a time.
-/

namespace RocketAp.ProgramLogic

variable {ε σ ι ν α β C : Type}

/-! ### What a program keeps, by its text -/

namespace Keeps

variable {R : σ → σ → Prop}

theorem ite {c : Prop} [Decidable c] {m n : EStateM ε σ α} (h : c → Keeps R m)
    (h' : ¬ c → Keeps R n) : Keeps R (if c then m else n) := by
  split
  · next hc => exact h hc
  · next hc => exact h' hc

/-- A test without an `else`, after which the program goes on with `n`. -/
theorem iteThen {c : Prop} [Decidable c] {m n : EStateM ε σ α} (h : Keeps R n)
    (hm : c → Keeps R n → Keeps R m) : Keeps R (if c then m else n) :=
  .ite (fun hc => hm hc h) fun _ => h

variable [IsPreorder σ R]

theorem forAcc {n : ℕ} {b : β} {body : ℕ → β → EStateM ε σ β}
    (h : ∀ i < n, ∀ c, Keeps R (body i c)) : Keeps R (forAcc n b body) := by
  induction n with
  | zero => exact .pure b
  | succ n ih => exact (ih fun i hi => h i (by omega)).bind fun c => h n (by omega) c

theorem allUpTo {n : ℕ} {test : ℕ → EStateM ε σ Bool} (h : ∀ i < n, Keeps R (test i)) :
    Keeps R (allUpTo n test) := by
  induction n with
  | zero => exact .pure true
  | succ n ih =>
    refine (ih fun i hi => h i (by omega)).bind fun ok => ?_
    cases ok with
    | true => exact h n (by omega)
    | false => exact .pure false

/-- The rounds of a halving loop count no higher than the first. -/
theorem forHalvingUpTo {n : ℕ} {body : ℕ → EStateM ε σ Unit} (h : ∀ i ≤ n, Keeps R (body i)) :
    Keeps R (ProgramLogic.forHalving n body) := by
  induction n using Nat.strong_induction_on with
  | _ n ih =>
    rw [ProgramLogic.forHalving]
    split
    · next hn =>
      exact (h n (Nat.le_refl n)).bind fun _ =>
        ih (n / 2) (Nat.div_lt_self hn (by decide)) fun i hi => h i (by omega)
    · exact .pure ()

theorem mapM {exec : C → EStateM ε σ α} {cs : List C} (h : ∀ c ∈ cs, Keeps R (exec c)) :
    Keeps R (cs.mapM exec) := by
  induction cs with
  | nil => exact .pure []
  | cons c cs ih =>
    rw [List.forall_mem_cons] at h
    rw [List.mapM_cons]
    exact h.1.bind fun a => (ih h.2).bind fun as => .pure (a :: as)

end Keeps

/-! ### Memory -/

/-- The memory outside `W` is as it was. -/
def SameOff (mem : σ → ι → ν) (W : Set ι) (s t : σ) : Prop := ∀ a ∉ W, mem t a = mem s a

variable {mem : σ → ι → ν} {W W' : Set ι}

instance : IsPreorder σ (SameOff mem W) where
  refl _ _ _ := rfl
  trans _ _ _ hs ht a ha := (ht a ha).trans (hs a ha)

/-- The program writes in `W` at most. -/
abbrev Confined (mem : σ → ι → ν) (W : Set ι) (m : EStateM ε σ α) : Prop :=
  Keeps (SameOff mem W) m

theorem Confined.mono {m : EStateM ε σ α} (h : Confined mem W m) (hW : W ⊆ W') :
    Confined mem W' m := Keeps.mono h fun _ _ hst a ha => hst a fun hin => ha (hW hin)

/-- A program that returns, with the memory as it was. -/
theorem Confined.of_same {m : EStateM ε σ α} (h : ∀ s, ∃ a t, m s = .ok a t ∧ mem t = mem s) :
    Confined mem W m := by
  refine .of_ensures fun s => ?_
  obtain ⟨a, t, hr, ht⟩ := h s
  exact .of_run hr fun _ _ => by rw [ht]

/-- A block that is one of the blocks. -/
theorem mem_covered_at {bs : List Block} (k : ℕ) {a n i : ℕ} (hk : bs[k]? = some (a, n))
    (hi : i < n) : a + i ∈ covered bs :=
  ⟨(a, n), List.mem_of_getElem? hk, Nat.le_add_right a i, Nat.add_lt_add_left hi a⟩

end RocketAp.ProgramLogic
