import RocketAp.ProgramLogic.Ensures

/-!
# Sequences of calls

`exec c` is what a call `c` does. A relation `R c s a t` between a call, the state
before it, the value it returned and the state after it can be asked of a whole
sequence in two ways: `EachReturn` asks it of every call as far as the calls return,
and `AllReturn` asks besides that every call does return.

A sequence keeps a relation exactly when it keeps another that agrees with it call by
call; an invariant of the states between the calls helps the two agree
(`allReturn_congr`).
-/

namespace RocketAp.ProgramLogic

variable {ε σ α C : Type} (exec : C → EStateM ε σ α)

/-- As far as the calls return, `R` holds of each. -/
def EachReturn (R : C → σ → α → σ → Prop) : List C → σ → Prop
  | [], _ => True
  | c :: cs, s => ∀ a t, exec c s = .ok a t → R c s a t ∧ EachReturn R cs t

/-- Every call returns, and `R` holds of each. -/
def AllReturn (R : C → σ → α → σ → Prop) : List C → σ → Prop
  | [], _ => True
  | c :: cs, s => Ensures (exec c) s fun a t => R c s a t ∧ AllReturn R cs t

variable {exec} {R R' : C → σ → α → σ → Prop}

theorem eachReturn_congr (h : ∀ c s a t, exec c s = .ok a t → (R c s a t ↔ R' c s a t)) :
    ∀ (cs : List C) (s : σ), EachReturn exec R cs s ↔ EachReturn exec R' cs s
  | [], _ => Iff.rfl
  | c :: cs, s => by
    have ih := eachReturn_congr h cs
    constructor
    · intro hR a t hr
      exact ⟨(h c s a t hr).mp (hR a t hr).1, (ih t).mp (hR a t hr).2⟩
    · intro hR a t hr
      exact ⟨(h c s a t hr).mpr (hR a t hr).1, (ih t).mpr (hR a t hr).2⟩

/-- Two relations that agree on every call made from a state of the invariant, where the
calls return and keep the invariant. -/
theorem allReturn_congr (I : σ → Prop) {P : C → Prop}
    (h : ∀ c s, P c → I s → Ensures (exec c) s fun a t => I t ∧ (R c s a t ↔ R' c s a t)) :
    ∀ (cs : List C) (s : σ), (∀ c ∈ cs, P c) → I s →
      (AllReturn exec R cs s ↔ AllReturn exec R' cs s)
  | [], _, _, _ => Iff.rfl
  | c :: cs, s, hP, hI => by
    rw [List.forall_mem_cons] at hP
    obtain ⟨a, t, hr, hIt, hiff⟩ := h c s hP.1 hI
    have ih := allReturn_congr I h cs t hP.2 hIt
    constructor
    · intro hR
      have ⟨hRt, hcs⟩ := hR.holds hr
      exact .of_run hr ⟨hiff.mp hRt, ih.mp hcs⟩
    · intro hR
      have ⟨hRt, hcs⟩ := hR.holds hr
      exact .of_run hr ⟨hiff.mpr hRt, ih.mpr hcs⟩

end RocketAp.ProgramLogic
