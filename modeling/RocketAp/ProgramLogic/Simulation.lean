import RocketAp.ProgramLogic.Halving

/-!
# Two runs of one program

`Matches P Q E m m'` says that from states related by `P` the programs `m` and `m'` do the
same: both return, with one value and in states related by `Q`, or both stop, for one reason
`e` and in states related by `E e`. The two may be programs over different states.
`Simulates R` is the case in which one relation goes from state to state.

It is closed under sequencing and under the loops, so that two programs of one shape
match when what they are made of does. What is ensured of the one carries over to the
other (`Simulates.ensures`). A program next to itself says what it does to a predicate on
states, whether it returns or stops (`Leads`).
-/

namespace RocketAp.ProgramLogic

variable {ε σ τ υ α β C : Type}

/-- Two outcomes agree: one value in states related by `Q`, or one reason in states that `E`
relates for it. -/
inductive Agrees (Q : σ → τ → Prop) (E : ε → σ → τ → Prop) :
    EStateM.Result ε σ α → EStateM.Result ε τ α → Prop where
  | ok {s : σ} {t : τ} (a : α) : Q s t → Agrees Q E (.ok a s) (.ok a t)
  | error {s : σ} {t : τ} (e : ε) : E e s t → Agrees Q E (.error e s) (.error e t)

/-- From states related by `P` the two programs do the same. -/
def Matches (P Q : σ → τ → Prop) (E : ε → σ → τ → Prop) (m : EStateM ε σ α)
    (m' : EStateM ε τ α) : Prop := ∀ s t, P s t → Agrees Q E (m s) (m' t)

/-- One relation goes from state to state. -/
abbrev Simulates (R : σ → τ → Prop) (m : EStateM ε σ α) (m' : EStateM ε τ α) : Prop :=
  Matches R R (fun _ => R) m m'

variable {P Q Q' R : σ → τ → Prop} {E : ε → σ → τ → Prop}

/-- Outcomes that agree, and what two programs do that go on from there. -/
theorem Agrees.bind {m : EStateM ε σ α} {m' : EStateM ε τ α} {f : α → EStateM ε σ β}
    {f' : α → EStateM ε τ β} {s : σ} {t : τ} (h : Agrees Q E (m s) (m' t))
    (hf : ∀ a, Matches Q Q' E (f a) (f' a)) : Agrees Q' E ((m >>= f) s) ((m' >>= f') t) := by
  generalize hm : m s = r, hm' : m' t = r' at h
  cases h with
  | ok a hQ =>
    rw [bind_run hm, bind_run hm']
    exact hf a _ _ hQ
  | error e hE =>
    rw [bind_error hm, bind_error hm']
    exact .error e hE

namespace Matches

theorem pure (a : α) : Matches R R E (Pure.pure a : EStateM ε σ α) (Pure.pure a) :=
  fun _ _ h => .ok a h

theorem bind {m : EStateM ε σ α} {m' : EStateM ε τ α} {f : α → EStateM ε σ β}
    {f' : α → EStateM ε τ β} (h : Matches P Q E m m') (hf : ∀ a, Matches Q Q' E (f a) (f' a)) :
    Matches P Q' E (m >>= f) (m' >>= f') := fun s t hst => (h s t hst).bind hf

theorem ite {c : Prop} [Decidable c] {m n : EStateM ε σ α} {m' n' : EStateM ε τ α}
    (h : c → Matches P Q E m m') (h' : ¬ c → Matches P Q E n n') :
    Matches P Q E (if c then m else n) (if c then m' else n') := by
  split
  · next hc => exact h hc
  · next hc => exact h' hc

/-- A test without an `else`, after which the program goes on with `n`. -/
theorem iteThen {c : Prop} [Decidable c] {m n : EStateM ε σ α} {m' n' : EStateM ε τ α}
    (h : Matches P Q E n n') (hm : c → Matches P Q E n n' → Matches P Q E m m') :
    Matches P Q E (if c then m else n) (if c then m' else n') :=
  .ite (fun hc => hm hc h) fun _ => h

/-! ### Loops -/

theorem forAcc {n : ℕ} {b : β} {body : ℕ → β → EStateM ε σ β} {body' : ℕ → β → EStateM ε τ β}
    (h : ∀ i c, Matches R R E (body i c) (body' i c)) :
    Matches R R E (forAcc n b body) (forAcc n b body') := by
  induction n with
  | zero => exact .pure b
  | succ n ih => exact ih.bind fun c => h n c

/-- A loop whose value keeps an invariant, where the rounds match that find it. -/
theorem forAccKeeping {I : ℕ → β → Prop} {n : ℕ} {b : β} {body : ℕ → β → EStateM ε σ β}
    {body' : ℕ → β → EStateM ε τ β} (hb : I 0 b)
    (h : ∀ i < n, ∀ c, I i c → Matches R R E (body i c) (body' i c))
    (hI : ∀ i c s, I i c → IfReturns (body i c) s fun a _ => I (i + 1) a) :
    Matches R R E (ProgramLogic.forAcc n b body) (ProgramLogic.forAcc n b body') := by
  have hkeep : ∀ n s, IfReturns (ProgramLogic.forAcc n b body) s fun a _ => I n a := by
    intro n s
    induction n with
    | zero =>
      intro a t hr
      cases hr
      exact hb
    | succ n ih => exact ih.bind fun c t hc => hI n c t hc
  induction n with
  | zero => exact .pure b
  | succ n ih =>
    intro s t hst
    have hn := ih (fun i hi => h i (by omega)) s t hst
    rw [ProgramLogic.forAcc, ProgramLogic.forAcc]
    generalize hr : ProgramLogic.forAcc n b body s = r,
      hr' : ProgramLogic.forAcc n b body' t = r' at hn
    cases hn with
    | ok c hR =>
      rw [bind_run hr, bind_run hr']
      exact h n (by omega) c (hkeep n s c _ hr) _ _ hR
    | error e hE =>
      rw [bind_error hr, bind_error hr']
      exact .error e hE

theorem forAccLt {n : ℕ} {b : β} {body : ℕ → β → EStateM ε σ β} {body' : ℕ → β → EStateM ε τ β}
    (h : ∀ i < n, ∀ c, Matches R R E (body i c) (body' i c)) :
    Matches R R E (ProgramLogic.forAcc n b body) (ProgramLogic.forAcc n b body') :=
  .forAccKeeping (I := fun _ _ => True) trivial (fun i hi c _ => h i hi c)
    fun _ _ _ _ _ _ _ => trivial

theorem forUpToLt {n : ℕ} {body : ℕ → EStateM ε σ Unit} {body' : ℕ → EStateM ε τ Unit}
    (h : ∀ i < n, Matches R R E (body i) (body' i)) :
    Matches R R E (forUpTo n body) (forUpTo n body') := by
  induction n with
  | zero => exact .pure ()
  | succ n ih => exact (ih fun i hi => h i (by omega)).bind fun _ => h n (by omega)

theorem forUpTo {n : ℕ} {body : ℕ → EStateM ε σ Unit} {body' : ℕ → EStateM ε τ Unit}
    (h : ∀ i, Matches R R E (body i) (body' i)) :
    Matches R R E (forUpTo n body) (forUpTo n body') := .forUpToLt fun i _ => h i

theorem allUpToLt {n : ℕ} {test : ℕ → EStateM ε σ Bool} {test' : ℕ → EStateM ε τ Bool}
    (h : ∀ i < n, Matches R R E (test i) (test' i)) :
    Matches R R E (allUpTo n test) (allUpTo n test') := by
  induction n with
  | zero => exact .pure true
  | succ n ih =>
    refine (ih fun i hi => h i (by omega)).bind fun ok => ?_
    cases ok with
    | true => exact h n (by omega)
    | false => exact .pure false

theorem allUpTo {n : ℕ} {test : ℕ → EStateM ε σ Bool} {test' : ℕ → EStateM ε τ Bool}
    (h : ∀ i, Matches R R E (test i) (test' i)) :
    Matches R R E (allUpTo n test) (allUpTo n test') := .allUpToLt fun i _ => h i

/-- The rounds of a halving loop count no higher than the first. -/
theorem forHalvingUpTo {n : ℕ} {body : ℕ → EStateM ε σ Unit} {body' : ℕ → EStateM ε τ Unit}
    (h : ∀ i ≤ n, Matches R R E (body i) (body' i)) :
    Matches R R E (forHalving n body) (forHalving n body') := by
  induction n using Nat.strong_induction_on with
  | _ n ih =>
    rw [ProgramLogic.forHalving.eq_def n body, ProgramLogic.forHalving.eq_def n body']
    split
    · next hn =>
      exact (h n (Nat.le_refl n)).bind fun _ =>
        ih (n / 2) (Nat.div_lt_self hn (by decide)) fun i hi => h i (by omega)
    · exact .pure ()

theorem forHalving {n : ℕ} {body : ℕ → EStateM ε σ Unit} {body' : ℕ → EStateM ε τ Unit}
    (h : ∀ i, Matches R R E (body i) (body' i)) :
    Matches R R E (forHalving n body) (forHalving n body') := .forHalvingUpTo fun i _ => h i

/-- A sequence of calls, with the values they return. -/
theorem mapM {exec : C → EStateM ε σ α} {exec' : C → EStateM ε τ α} {cs : List C}
    (h : ∀ c ∈ cs, Matches R R E (exec c) (exec' c)) :
    Matches R R E (cs.mapM exec) (cs.mapM exec') := by
  induction cs with
  | nil => exact .pure []
  | cons c cs ih =>
    rw [List.forall_mem_cons] at h
    rw [List.mapM_cons, List.mapM_cons]
    exact h.1.bind fun a => (ih h.2).bind fun as => .pure (a :: as)

end Matches

/-! ### What carries over -/

/-- What is ensured of the other is ensured of the one. -/
theorem Simulates.ensures {m : EStateM ε σ α} {m' : EStateM ε τ α} (h : Simulates R m m') {s : σ}
    {t : τ} (hst : R s t) {S : α → τ → Prop} (hS : Ensures m' t S) :
    Ensures m s fun a s' => ∃ t', S a t' ∧ R s' t' := by
  obtain ⟨a, t', hr, hS⟩ := hS
  have hmm := h s t hst
  rw [hr] at hmm
  generalize hm : m s = r at hmm
  cases hmm with
  | ok _ hR => exact .of_run hm ⟨t', hS, hR⟩

/-- What is ensured of the one is ensured of the other, where related states cannot tell. -/
theorem Simulates.ensures_iff {m : EStateM ε σ α} {m' : EStateM ε τ α} (h : Simulates R m m')
    {s : σ} {t : τ} (hst : R s t) {S : α → σ → Prop} {T : α → τ → Prop}
    (hST : ∀ a s t, R s t → (S a s ↔ T a t)) : Ensures m s S ↔ Ensures m' t T := by
  have hmm := h s t hst
  generalize hm : m s = r, hm' : m' t = r' at hmm
  cases hmm with
  | ok a hR =>
    rw [ensures_iff_of_run hm, ensures_iff_of_run hm']
    exact hST a _ _ hR
  | error e _ =>
    exact iff_of_false (fun ⟨_, _, hrun, _⟩ => nomatch hm.symm.trans hrun)
      fun ⟨_, _, hrun, _⟩ => nomatch hm'.symm.trans hrun

/-- Two programs that simulate a third, from states that are related to one state of it. -/
theorem Simulates.join {R' : υ → τ → Prop} {m : EStateM ε σ α} {m' : EStateM ε υ α}
    {n : EStateM ε τ α} (h : Simulates R m n) (h' : Simulates R' m' n) :
    Simulates (fun s u => ∃ t, R s t ∧ R' u t) m m' := by
  rintro s u ⟨t, hst, hut⟩
  have hm := h s t hst
  have hm' := h' u t hut
  generalize m s = r, m' u = r', n t = r'' at hm hm'
  cases hm with
  | ok a hR =>
    cases hm' with
    | ok _ hR' => exact .ok a ⟨_, hR, hR'⟩
  | error e hR =>
    cases hm' with
    | error _ hR' => exact .error e ⟨_, hR, hR'⟩

/-- Outcomes that agree with one that agrees with a third. -/
theorem Agrees.trans {R : σ → υ → Prop} {F : ε → σ → υ → Prop} {Q' : υ → τ → Prop}
    {E' : ε → υ → τ → Prop} {r : EStateM.Result ε σ α} {r' : EStateM.Result ε υ α}
    {r'' : EStateM.Result ε τ α} (h : Agrees R F r r') (h' : Agrees Q' E' r' r'') :
    Agrees (fun s t => ∃ u, R s u ∧ Q' u t) (fun e s t => ∃ u, F e s u ∧ E' e u t) r r'' := by
  cases h with
  | ok a hR =>
    cases h' with
    | ok _ hQ => exact .ok a ⟨_, hR, hQ⟩
  | error e hF =>
    cases h' with
    | error _ hE => exact .error e ⟨_, hF, hE⟩

theorem Agrees.mono {R : σ → τ → Prop} {F : ε → σ → τ → Prop} {r : EStateM.Result ε σ α}
    {r' : EStateM.Result ε τ α} (h : Agrees Q E r r') (hR : ∀ s t, Q s t → R s t)
    (hF : ∀ e s t, E e s t → F e s t) : Agrees R F r r' := by
  cases h with
  | ok a hQ => exact .ok a (hR _ _ hQ)
  | error e hE => exact .error e (hF e _ _ hE)

/-! ### One run -/

/-- One state, with a property. -/
def Diagonal (I : σ → Prop) (s t : σ) : Prop := s = t ∧ I s

/-- From a state with `I` the program returns in one with `J`, or stops for a reason `e` in one
with `F e`. -/
abbrev Leads (I J : σ → Prop) (F : ε → σ → Prop) (m : EStateM ε σ α) : Prop :=
  Matches (Diagonal I) (Diagonal J) (fun e => Diagonal (F e)) m m

variable {I J : σ → Prop} {F : ε → σ → Prop} {m : EStateM ε σ α} {s t : σ}

theorem Leads.of_run (h : ∀ s, I s → ∃ a t, m s = .ok a t ∧ J t) : Leads I J F m := by
  rintro s _ ⟨rfl, hs⟩
  obtain ⟨a, t, hr, ht⟩ := h s hs
  rw [hr]
  exact .ok a ⟨rfl, ht⟩

theorem Leads.ok {a : α} (h : Leads I J F m) (hs : I s) (hr : m s = .ok a t) : J t := by
  have hmm := h s s ⟨rfl, hs⟩
  rw [hr] at hmm
  cases hmm with
  | ok _ ht => exact ht.2

theorem Leads.error {e : ε} (h : Leads I J F m) (hs : I s) (hr : m s = .error e t) : F e t := by
  have hmm := h s s ⟨rfl, hs⟩
  rw [hr] at hmm
  cases hmm with
  | error _ ht => exact ht.2

theorem Leads.any : Leads (fun _ => True) (fun _ => True) (fun _ _ => True) m := by
  rintro s _ ⟨rfl, -⟩
  cases m s with
  | ok a t => exact .ok a ⟨rfl, trivial⟩
  | error e t => exact .error e ⟨rfl, trivial⟩

/-- It does not matter whether the value is kept. -/
theorem Leads.of_dropped (h : Leads I J F (m >>= fun _ => pure ())) : Leads I J F m := by
  rintro s _ ⟨rfl, hs⟩
  have hmm := h s s ⟨rfl, hs⟩
  cases hm : m s with
  | ok a t =>
    rw [bind_run hm] at hmm
    cases hmm with
    | ok _ ht => exact .ok a ht
  | error e t =>
    rw [bind_error hm] at hmm
    cases hmm with
    | error _ ht => exact .error e ht

/-- Outcomes that agree, and what each program leads to. -/
theorem Agrees.guard {K L : τ → Prop} {G : ε → τ → Prop} {m' : EStateM ε τ α} {t : τ}
    (h : Agrees Q E (m s) (m' t)) (hm : Leads I J F m) (hs : I s) (hm' : Leads K L G m')
    (ht : K t) : Agrees (fun s t => Q s t ∧ J s ∧ L t) (fun e s t => E e s t ∧ F e s ∧ G e t)
      (m s) (m' t) := by
  generalize hr : m s = r, hr' : m' t = r' at h
  cases h with
  | ok a hQ => exact .ok a ⟨hQ, hm.ok hs hr, hm'.ok ht hr'⟩
  | error e hE => exact .error e ⟨hE, hm.error hs hr, hm'.error ht hr'⟩

end RocketAp.ProgramLogic
