import RocketAp.ProgramLogic.Simulation

/-!
# A program with an observer

An observer looks at the state whenever a program returns, and `watch look m` is `m` with what
the observer has seen last beside its state. It does what `m` does (`watch_erases`), so it says
what another program is to show that does the same and shows the state as it goes
(`Simulates.watch`).
-/

namespace RocketAp.ProgramLogic

variable {ε σ τ β α C : Type}

/-- A state, and what an observer has seen last. -/
structure Watched (σ β : Type) where
  state : σ
  seen : β

/-- The program, and a look at the state in which it returns. -/
def watch (look : σ → β → β) (m : EStateM ε σ α) : EStateM ε (Watched σ β) α := fun w =>
  match m w.state with
  | .ok a s => .ok a ⟨s, look s w.seen⟩
  | .error e s => .error e ⟨s, w.seen⟩

variable {look : σ → β → β} {m : EStateM ε σ α}

/-- An observer does not disturb. -/
theorem watch_erases : Simulates (fun w s => w.state = s) (watch look m) m := by
  rintro w _ rfl
  rw [watch]
  cases m w.state with
  | ok a s => exact .ok a rfl
  | error e s => exact .error e rfl

/-- Nor at a list of calls. -/
theorem mapM_watch_erases {exec : C → EStateM ε σ α} {look : C → σ → β → β} {cs : List C} :
    Simulates (fun w s => w.state = s) (cs.mapM fun c => watch (look c) (exec c))
      (cs.mapM exec) := .mapM fun _ _ => watch_erases

/-- A program that does what `m` does, and at its end shows the state. -/
theorem Simulates.watch {R : β → σ → τ → Prop} {m' : EStateM ε τ α}
    (h : ∀ b, Matches (R b) (fun s t => R (look s b) s t) (fun _ => R b) m m') :
    Simulates (fun w t => R w.seen w.state t) (watch look m) m' := by
  intro w t hwt
  have hmm := h w.seen w.state t hwt
  rw [ProgramLogic.watch]
  generalize m w.state = r, m' t = r' at hmm
  cases hmm with
  | ok a hR => exact .ok a hR
  | error e hR => exact .error e hR

end RocketAp.ProgramLogic
