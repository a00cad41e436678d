import RocketAp.ProgramLogic.Ensures

/-!
# When a program stops with an error

`FaultsUnless e P m` says that what becomes of `m` does not depend on where it starts: it returns
if `P`, and stops with `e` if not. A sequence returns when both its parts do, and a loop when
all its rounds do.
-/

namespace RocketAp.ProgramLogic

variable {ε σ α β : Type}

/-- From everywhere the program returns if `P`, and stops with `e` if not. -/
def FaultsUnless (e : ε) (P : Prop) (m : EStateM ε σ α) : Prop :=
  ∀ s, (P → ∃ a t, m s = .ok a t) ∧ (¬P → ∃ t, m s = .error e t)

namespace FaultsUnless

variable {e : ε} {P Q : Prop}

/-- Where the program stops with `e`. -/
theorem error_iff {m : EStateM ε σ α} (h : FaultsUnless e P m) (s : σ) :
    (∃ t, m s = .error e t) ↔ ¬P := by
  refine ⟨fun ⟨t, ht⟩ hP => ?_, (h s).2⟩
  obtain ⟨a, u, hu⟩ := (h s).1 hP
  rw [ht] at hu
  cases hu

theorem congr {m : EStateM ε σ α} (h : FaultsUnless e P m) (hPQ : P ↔ Q) : FaultsUnless e Q m :=
  fun s => ⟨fun hQ => (h s).1 (hPQ.mpr hQ), fun hQ => (h s).2 (mt hPQ.mp hQ)⟩

theorem always {m : EStateM ε σ α} (h : ∀ s, ∃ a t, m s = .ok a t) : FaultsUnless e True m :=
  fun s => ⟨fun _ => h s, fun hn => absurd trivial hn⟩

theorem bind {m : EStateM ε σ α} {f : α → EStateM ε σ β} (h : FaultsUnless e P m)
    (hf : ∀ a, FaultsUnless e Q (f a)) : FaultsUnless e (P ∧ Q) (m >>= f) := by
  intro s
  constructor
  · rintro ⟨hP, hQ⟩
    obtain ⟨a, t, hr⟩ := (h s).1 hP
    rw [bind_run hr]
    exact (hf a t).1 hQ
  · intro hn
    by_cases hP : P
    · obtain ⟨a, t, hr⟩ := (h s).1 hP
      rw [bind_run hr]
      exact (hf a t).2 fun hQ => hn ⟨hP, hQ⟩
    · obtain ⟨t, hr⟩ := (h s).2 hP
      exact ⟨t, bind_error hr⟩

/-- A first step that always returns. -/
theorem after {m : EStateM ε σ α} {f : α → EStateM ε σ β} (h : FaultsUnless e True m)
    (hf : ∀ a, FaultsUnless e P (f a)) : FaultsUnless e P (m >>= f) :=
  (h.bind hf).congr ⟨And.right, fun hP => ⟨trivial, hP⟩⟩

/-- What always returns, afterwards. -/
theorem before {m : EStateM ε σ α} {f : α → EStateM ε σ β} (h : FaultsUnless e P m)
    (hf : ∀ a, FaultsUnless e True (f a)) : FaultsUnless e P (m >>= f) :=
  (h.bind hf).congr ⟨And.left, fun hP => ⟨hP, trivial⟩⟩

theorem forAcc {n : ℕ} {b : β} {P : ℕ → Prop} {body : ℕ → β → EStateM ε σ β}
    (h : ∀ i c, FaultsUnless e (P i) (body i c)) :
    FaultsUnless e (∀ i < n, P i) (forAcc n b body) := by
  induction n with
  | zero => exact (always fun s => ⟨b, s, rfl⟩).congr ⟨fun _ => nofun, fun _ => trivial⟩
  | succ n ih => exact (ih.bind fun c => h n c).congr Nat.forall_lt_succ_right.symm

theorem forUpTo {n : ℕ} {P : ℕ → Prop} {body : ℕ → EStateM ε σ Unit}
    (h : ∀ i, FaultsUnless e (P i) (body i)) :
    FaultsUnless e (∀ i < n, P i) (forUpTo n body) := by
  induction n with
  | zero => exact (always fun s => ⟨(), s, rfl⟩).congr ⟨fun _ => nofun, fun _ => trivial⟩
  | succ n ih => exact (ih.bind fun _ => h n).congr Nat.forall_lt_succ_right.symm

end FaultsUnless

end RocketAp.ProgramLogic
