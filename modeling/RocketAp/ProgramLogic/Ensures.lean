import Mathlib.Data.Nat.Notation
import Mathlib.Order.Defs.Unbundled

/-!
# Programs that return

A program over a state `σ` is an `EStateM ε σ α`: from a state it returns a value
and a state, or it stops with an `ε` and the state in which it stopped (a loop
that never ends, an access that means nothing). `Ensures m s Q` says that `m`,
started in `s`, returns, and that `Q` holds of what it returns. It is total
correctness: a program that stops satisfies no `Ensures`. `IfReturns m s Q` says it only of
a program that returns.

`forUpTo n body` is C's `for (i = 0; i < n; i++) body(i)`, `forAcc` is the same loop
with a local variable, and `allUpTo` one that is left at a test that fails. The one
induction a counted loop needs is `Ensures.forUpTo`: what holds at the start, and is
carried from each `i` to `i + 1`, holds at the end.
-/

namespace RocketAp.ProgramLogic

variable {ε σ α β : Type}

/-- Started in `s`, the program returns, and `Q` holds of the value and the state. -/
def Ensures (m : EStateM ε σ α) (s : σ) (Q : α → σ → Prop) : Prop :=
  ∃ a t, m s = .ok a t ∧ Q a t

/-- The state a program ends in, returned from or stopped in. -/
def finalState (m : EStateM ε σ α) (s : σ) : σ :=
  match m s with
  | .ok _ t => t
  | .error _ t => t

theorem finalState_ok {m : EStateM ε σ α} {s t : σ} {a : α} (h : m s = .ok a t) :
    finalState m s = t := by
  simp [finalState, h]

theorem finalState_error {m : EStateM ε σ α} {s t : σ} {e : ε} (h : m s = .error e t) :
    finalState m s = t := by
  simp [finalState, h]

/-! ### Sequencing -/

theorem pure_run (a : α) (s : σ) : (pure a : EStateM ε σ α) s = .ok a s := rfl

/-- A program whose first part returns goes on from there. -/
theorem bind_run {m : EStateM ε σ α} {f : α → EStateM ε σ β} {s t : σ} {a : α}
    (h : m s = .ok a t) : (m >>= f) s = f a t := by
  show EStateM.bind m f s = f a t
  simp [EStateM.bind, h]

/-- A program whose first part stops, stops there. -/
theorem bind_error {m : EStateM ε σ α} {f : α → EStateM ε σ β} {s t : σ} {e : ε}
    (h : m s = .error e t) : (m >>= f) s = .error e t := by
  show EStateM.bind m f s = .error e t
  simp [EStateM.bind, h]

/-- A sequence that returns, returns from both its parts. -/
theorem bind_ok {m : EStateM ε σ α} {f : α → EStateM ε σ β} {s u : σ} {b : β}
    (h : (m >>= f) s = .ok b u) : ∃ a t, m s = .ok a t ∧ f a t = .ok b u := by
  cases hm : m s with
  | ok a t => exact ⟨a, t, rfl, (bind_run hm).symm.trans h⟩
  | error e t =>
    rw [bind_error hm] at h
    cases h

theorem Ensures.of_run {m : EStateM ε σ α} {s t : σ} {a : α} {Q : α → σ → Prop}
    (h : m s = .ok a t) (hQ : Q a t) : Ensures m s Q :=
  ⟨a, t, h, hQ⟩

/-- What is ensured holds of whatever is returned. -/
theorem Ensures.holds {m : EStateM ε σ α} {s t : σ} {a : α} {Q : α → σ → Prop}
    (h : Ensures m s Q) (hr : m s = .ok a t) : Q a t := by
  obtain ⟨a', t', hr', hQ⟩ := h
  rw [hr] at hr'
  cases hr'
  exact hQ

/-- Where a run is known, what is ensured is what holds at its end. -/
theorem ensures_iff_of_run {m : EStateM ε σ α} {s t : σ} {a : α} {Q : α → σ → Prop}
    (hr : m s = .ok a t) : Ensures m s Q ↔ Q a t :=
  ⟨fun h => h.holds hr, fun hQ => .of_run hr hQ⟩

theorem Ensures.mono {m : EStateM ε σ α} {s : σ} {Q R : α → σ → Prop} (h : Ensures m s Q)
    (hQR : ∀ a t, Q a t → R a t) : Ensures m s R := by
  obtain ⟨a, t, hr, hQ⟩ := h
  exact ⟨a, t, hr, hQR a t hQ⟩

/-- A program has one outcome, and all that is ensured holds of it. -/
theorem Ensures.and {m : EStateM ε σ α} {s : σ} {Q R : α → σ → Prop} (hQ : Ensures m s Q)
    (hR : Ensures m s R) : Ensures m s fun a t => Q a t ∧ R a t := by
  obtain ⟨a, t, hr, hQ⟩ := hQ
  exact ⟨a, t, hr, hQ, hR.holds hr⟩

theorem Ensures.pure {a : α} {s : σ} {Q : α → σ → Prop} (h : Q a s) :
    Ensures (Pure.pure a : EStateM ε σ α) s Q :=
  ⟨a, s, rfl, h⟩

/-- Run the first part, then the rest from every state it can leave. -/
theorem Ensures.bind {m : EStateM ε σ α} {f : α → EStateM ε σ β} {s : σ} {R : α → σ → Prop}
    {Q : β → σ → Prop} (h : Ensures m s R) (hf : ∀ a t, R a t → Ensures (f a) t Q) :
    Ensures (m >>= f) s Q := by
  obtain ⟨a, t, hr, hR⟩ := h
  obtain ⟨b, u, hf, hQ⟩ := hf a t hR
  exact ⟨b, u, by rw [bind_run hr, hf], hQ⟩

/-- Run a first part whose outcome is known. -/
theorem Ensures.step {m : EStateM ε σ α} {f : α → EStateM ε σ β} {s t : σ} {a : α}
    {Q : β → σ → Prop} (h : m s = .ok a t) (hf : Ensures (f a) t Q) : Ensures (m >>= f) s Q :=
  Ensures.bind (R := fun b u => b = a ∧ u = t) ⟨a, t, h, rfl, rfl⟩
    (by rintro _ _ ⟨rfl, rfl⟩; exact hf)

/-- A sequence returns exactly when its first part does, and the rest from there. -/
theorem ensures_bind_iff {m : EStateM ε σ α} {f : α → EStateM ε σ β} {s : σ}
    {Q : β → σ → Prop} :
    Ensures (m >>= f) s Q ↔ Ensures m s fun a t => Ensures (f a) t Q := by
  constructor
  · rintro ⟨b, u, hr, hQ⟩
    obtain ⟨a, t, hm, hf⟩ := bind_ok hr
    exact .of_run hm (.of_run hf hQ)
  · intro h
    exact .bind h fun _ _ h => h

/-! ### Counted loops -/

/-- `for (i = 0; i < n; i++) body(i)`, with a local variable that starts as `b`. -/
def forAcc (n : ℕ) (b : β) (body : ℕ → β → EStateM ε σ β) : EStateM ε σ β :=
  match n with
  | 0 => pure b
  | n + 1 => do
    let b ← forAcc n b body
    body n b

/-- `for (i = 0; i < n; i++) body(i)`. -/
def forUpTo (n : ℕ) (body : ℕ → EStateM ε σ Unit) : EStateM ε σ Unit :=
  match n with
  | 0 => pure ()
  | n + 1 => do
    forUpTo n body
    body n

theorem forUpTo_succ_run {n : ℕ} {body : ℕ → EStateM ε σ Unit} {s t : σ}
    (h : forUpTo n body s = .ok () t) : forUpTo (n + 1) body s = body n t :=
  bind_run h

/-- **The loop rule**: an invariant that holds at the start and is carried from `i`
to `i + 1` by the body, for every `i < n`, holds after the loop. -/
theorem Ensures.forAcc (I : ℕ → β → σ → Prop) {n : ℕ} {b : β}
    {body : ℕ → β → EStateM ε σ β} {s : σ} (h₀ : I 0 b s)
    (hstep : ∀ i < n, ∀ c t, I i c t → Ensures (body i c) t (I (i + 1))) :
    Ensures (forAcc n b body) s (I n) := by
  induction n with
  | zero => exact .pure h₀
  | succ n ih =>
    refine .bind (ih fun i hi => hstep i (by omega)) fun c t ht => ?_
    exact hstep n (by omega) c t ht

/-- The loop rule, for a loop without a local variable. -/
theorem Ensures.forUpTo (I : ℕ → σ → Prop) {n : ℕ} {body : ℕ → EStateM ε σ Unit} {s : σ}
    (h₀ : I 0 s)
    (hstep : ∀ i < n, ∀ t, I i t → Ensures (body i) t fun _ u => I (i + 1) u) :
    Ensures (forUpTo n body) s fun _ t => I n t := by
  induction n with
  | zero => exact .pure h₀
  | succ n ih =>
    refine .bind (ih fun i hi => hstep i (by omega)) fun _ t ht => ?_
    exact hstep n (by omega) t ht

/-- `for (i = 0; i < n; i++) if (!test(i)) return 0; return 1;`. -/
def allUpTo (n : ℕ) (test : ℕ → EStateM ε σ Bool) : EStateM ε σ Bool :=
  match n with
  | 0 => pure true
  | n + 1 => do
    let ok ← allUpTo n test
    if ok then test n else return false

/-- A loop that stops at the first test that fails finds whether one does. -/
theorem Ensures.allUpTo (I : σ → Prop) (P : ℕ → Prop) {n : ℕ} {test : ℕ → EStateM ε σ Bool}
    {s : σ} (h₀ : I s)
    (hstep : ∀ i < n, ∀ t, I t → Ensures (test i) t fun ok u => (ok = true ↔ P i) ∧ I u) :
    Ensures (allUpTo n test) s fun ok t => (ok = true ↔ ∀ i < n, P i) ∧ I t := by
  induction n with
  | zero => exact .pure ⟨iff_of_true rfl fun i hi => absurd hi (Nat.not_lt_zero i), h₀⟩
  | succ n ih =>
    refine .bind (ih fun i hi => hstep i (by omega)) ?_
    rintro (_ | _) t ⟨hok, ht⟩
    · refine .pure ⟨iff_of_false Bool.false_ne_true fun hall => ?_, ht⟩
      exact absurd (hok.mpr fun i hi => hall i (by omega)) Bool.false_ne_true
    · apply (hstep n (Nat.lt_add_one n) t ht).mono
      rintro ok u ⟨hn, hu⟩
      refine ⟨hn.trans ⟨fun hP i hi => ?_, fun hall => hall n (Nat.lt_add_one n)⟩, hu⟩
      rcases Nat.lt_succ_iff_lt_or_eq.mp hi with hi | rfl
      · exact hok.mp rfl i hi
      · exact hP

/-! ### Programs that may not return -/

/-- If the program returns, `Q` holds of the value and the state. -/
def IfReturns (m : EStateM ε σ α) (s : σ) (Q : α → σ → Prop) : Prop :=
  ∀ a t, m s = .ok a t → Q a t

theorem Ensures.ifReturns {m : EStateM ε σ α} {s : σ} {Q : α → σ → Prop} (h : Ensures m s Q) :
    IfReturns m s Q := fun _ _ hr => h.holds hr

theorem IfReturns.bind {m : EStateM ε σ α} {f : α → EStateM ε σ β} {s : σ} {R : α → σ → Prop}
    {Q : β → σ → Prop} (h : IfReturns m s R) (hf : ∀ a t, R a t → IfReturns (f a) t Q) :
    IfReturns (m >>= f) s Q := by
  intro b u hr
  obtain ⟨a, t, hm, hf'⟩ := bind_ok hr
  exact hf a t (h a t hm) b u hf'

/-- What follows a part of which nothing need be known. -/
theorem IfReturns.after {m : EStateM ε σ α} {f : α → EStateM ε σ β} {s : σ} {Q : β → σ → Prop}
    (hf : ∀ a t, IfReturns (f a) t Q) : IfReturns (m >>= f) s Q :=
  .bind (R := fun _ _ => True) (fun _ _ _ => trivial) fun a t _ => hf a t

/-! ### What a program keeps -/

/-- Wherever the program starts, `R` goes from there to the state it ends in, returned from or
stopped in. -/
def Keeps (R : σ → σ → Prop) (m : EStateM ε σ α) : Prop := ∀ s, R s (finalState m s)

namespace Keeps

variable {R : σ → σ → Prop}

theorem ifReturns {m : EStateM ε σ α} (h : Keeps R m) (s : σ) :
    IfReturns m s fun _ t => R s t := by
  intro _ t hr
  rw [← finalState_ok hr]
  exact h s

theorem mono {R' : σ → σ → Prop} {m : EStateM ε σ α} (h : Keeps R m)
    (hRR' : ∀ s t, R s t → R' s t) : Keeps R' m := fun s => hRR' _ _ (h s)

/-- It does not matter whether the value is kept. -/
theorem of_dropped {m : EStateM ε σ α} (h : Keeps R (m >>= fun _ => Pure.pure ())) :
    Keeps R m := by
  intro s
  have hs := h s
  cases hr : m s with
  | ok a t =>
    rw [finalState_ok ((bind_run hr).trans (pure_run () t))] at hs
    rwa [finalState_ok hr]
  | error e t =>
    rw [finalState_error (bind_error hr)] at hs
    rwa [finalState_error hr]

/-- A program that returns from everywhere. -/
theorem of_ensures {m : EStateM ε σ α} (h : ∀ s, Ensures m s fun _ t => R s t) : Keeps R m := by
  intro s
  obtain ⟨_, t, hr, ht⟩ := h s
  rwa [finalState_ok hr]

variable [IsPreorder σ R]

theorem pure (a : α) : Keeps R (Pure.pure a : EStateM ε σ α) := fun s => Std.Refl.refl s

theorem bind {m : EStateM ε σ α} {f : α → EStateM ε σ β} (hm : Keeps R m)
    (hf : ∀ a, Keeps R (f a)) : Keeps R (m >>= f) := by
  intro s
  have hs := hm s
  cases hr : m s with
  | ok a t =>
    rw [finalState_ok hr] at hs
    have hrun : finalState (m >>= f) s = finalState (f a) t := by
      simp only [finalState, bind_run hr]
    rw [hrun]
    exact IsTrans.trans _ _ _ hs (hf a t)
  | error e t =>
    rw [finalState_error (bind_error hr)]
    rwa [finalState_error hr] at hs

theorem forUpTo {n : ℕ} {body : ℕ → EStateM ε σ Unit} (h : ∀ i < n, Keeps R (body i)) :
    Keeps R (forUpTo n body) := by
  induction n with
  | zero => exact .pure ()
  | succ n ih => exact (ih fun i hi => h i (by omega)).bind fun _ => h n (by omega)

end Keeps

/-- From everywhere the program returns, and `R` goes from the start to the end. -/
def Returns (R : σ → σ → Prop) (m : EStateM ε σ α) : Prop := ∀ s, Ensures m s fun _ t => R s t

namespace Returns

variable {R : σ → σ → Prop}

theorem keeps {m : EStateM ε σ α} (h : Returns R m) : Keeps R m := .of_ensures h

/-- A program that returns, and keeps `R` whether it does or not. -/
theorem of_keeps {m : EStateM ε σ α} (h : Keeps R m) (hr : ∀ s, Ensures m s fun _ _ => True) :
    Returns R m := by
  intro s
  obtain ⟨_, t, hrun, -⟩ := hr s
  exact .of_run hrun (h.ifReturns s _ t hrun)

variable [IsPreorder σ R]

theorem pure (a : α) : Returns R (Pure.pure a : EStateM ε σ α) := fun s =>
  .pure (Std.Refl.refl s)

theorem bind {m : EStateM ε σ α} {f : α → EStateM ε σ β} (hm : Returns R m)
    (hf : ∀ a, Returns R (f a)) : Returns R (m >>= f) := fun s =>
  .bind (hm s) fun a t ht => (hf a t).mono fun _ _ hu => IsTrans.trans _ _ _ ht hu

end Returns

end RocketAp.ProgramLogic
