import RocketAp.ProgramLogic.Simulation
import Mathlib.Data.Set.Lattice
import Mathlib.Logic.Relation
import Mathlib.Order.CompletePartialOrder

/-!
# What a program touches

The state is a value at every place. `Touches D W m` says that `m` reads in `D` and writes in
`W`: from two states that agree on `D` it does the same, and it leaves the places outside `W`
alone.

It is closed under sequencing and loops. Two programs of which neither writes where the other
reads or writes may change places (`Touches.swap`), and so may any calls in a list that are
next to each other (`Reorders.ensures_iff`).
-/

namespace RocketAp.ProgramLogic

variable {ε σ ι ν α β C : Type}

/-- Two runs, from `s` to `s'` and from `t` to `t'`, have written in `W` at most, and at every
place the same in both or nothing. -/
structure Moved (W : Set ι) (s t s' t' : ι → ν) : Prop where
  left : ∀ a ∉ W, s' a = s a
  right : ∀ a ∉ W, t' a = t a
  alike : ∀ a, s' a = t' a ∨ s' a = s a ∧ t' a = t a

/-- The program reads in `D` and writes in `W`. -/
def Touches (D W : Set ι) (m : EStateM ε (ι → ν) α) : Prop :=
  ∀ s t, Set.EqOn s t D → Agrees (Moved W s t) (fun _ => Moved W s t) (m s) (m t)

variable {D D' D₁ D₂ W W' W₁ W₂ : Set ι} {s t s' t' s'' t'' : ι → ν}

namespace Moved

theorem refl (s t : ι → ν) : Moved W s t s t :=
  ⟨fun _ _ => rfl, fun _ _ => rfl, fun _ => .inr ⟨rfl, rfl⟩⟩

theorem trans (h : Moved W s t s' t') (h' : Moved W s' t' s'' t'') : Moved W s t s'' t'' := by
  refine ⟨fun a ha => (h'.left a ha).trans (h.left a ha),
    fun a ha => (h'.right a ha).trans (h.right a ha), fun a => ?_⟩
  obtain hsame | ⟨hs, ht⟩ := h'.alike a
  · exact .inl hsame
  · rw [hs, ht]
    exact h.alike a

theorem mono (h : Moved W s t s' t') (hW : W ⊆ W') : Moved W' s t s' t' :=
  ⟨fun a ha => h.left a fun hw => ha (hW hw), fun a ha => h.right a fun hw => ha (hW hw), h.alike⟩

/-- States that agree go on to agree. -/
theorem eqOn (h : Moved W s t s' t') (hst : Set.EqOn s t D) : Set.EqOn s' t' D := by
  intro a ha
  obtain hsame | ⟨hs, ht⟩ := h.alike a
  · exact hsame
  · rw [hs, ht, hst ha]

end Moved

namespace Touches

theorem mono {m : EStateM ε (ι → ν) α} (h : Touches D W m) (hD : D ⊆ D') (hW : W ⊆ W') :
    Touches D' W' m := by
  intro s t hst
  have hm := h s t (hst.mono hD)
  generalize m s = r, m t = r' at hm
  cases hm with
  | ok a hq => exact .ok a (hq.mono hW)
  | error e he => exact .error e (he.mono hW)

theorem pure (a : α) : Touches D W (Pure.pure a : EStateM ε (ι → ν) α) :=
  fun s t _ => .ok a (.refl s t)

theorem bind {m : EStateM ε (ι → ν) α} {f : α → EStateM ε (ι → ν) β} (h : Touches D W m)
    (hf : ∀ a, Touches D W (f a)) : Touches D W (m >>= f) := by
  intro s t hst
  have hm := h s t hst
  generalize hs : m s = r, ht : m t = r' at hm
  cases hm with
  | @ok s' t' a hq =>
    rw [bind_run hs, bind_run ht]
    have hf' := hf a s' t' (hq.eqOn hst)
    generalize f a s' = r, f a t' = r' at hf'
    cases hf' with
    | ok b hq' => exact .ok b (hq.trans hq')
    | error e he => exact .error e (hq.trans he)
  | error e he =>
    rw [bind_error hs, bind_error ht]
    exact .error e he

theorem forUpTo {n : ℕ} {body : ℕ → EStateM ε (ι → ν) Unit}
    (h : ∀ i < n, Touches D W (body i)) : Touches D W (forUpTo n body) := by
  induction n with
  | zero => exact .pure ()
  | succ n ih => exact (ih fun i hi => h i (by omega)).bind fun _ => h n (by omega)

/-- A list of calls. -/
theorem mapM {exec : C → EStateM ε (ι → ν) α} {cs : List C}
    (h : ∀ c ∈ cs, Touches D W (exec c)) : Touches D W (cs.mapM exec) := by
  induction cs with
  | nil => exact .pure []
  | cons c cs ih =>
    rw [List.forall_mem_cons] at h
    rw [List.mapM_cons]
    exact h.1.bind fun a => (ih h.2).bind fun as => .pure (a :: as)

/-- A program leaves alone what it does not write. -/
theorem frame {m : EStateM ε (ι → ν) α} {a : α} (h : Touches D W m) (hr : m s = .ok a s') :
    ∀ x ∉ W, s' x = s x := by
  have hm := h s s (Set.eqOn_refl s D)
  rw [hr] at hm
  cases hm with
  | ok _ hq => exact hq.left

/-- From a state that agrees with the first it does the same. -/
theorem ok_of_eqOn {m : EStateM ε (ι → ν) α} {a : α} (h : Touches D W m) (hst : Set.EqOn s t D)
    (hr : m s = .ok a s') : ∃ t', m t = .ok a t' ∧ Moved W s t s' t' := by
  have hm := h s t hst
  rw [hr] at hm
  generalize m t = r at hm
  cases hm with
  | ok _ hq => exact ⟨_, rfl, hq⟩

/-- **Two programs change places** when neither writes where the other reads or writes. -/
theorem swap {m₁ : EStateM ε (ι → ν) α} {m₂ : EStateM ε (ι → ν) β} {a : α} {b : β}
    (h₁ : Touches D₁ W₁ m₁) (h₂ : Touches D₂ W₂ m₂) (h₁₂ : Disjoint W₁ D₂)
    (h₂₁ : Disjoint W₂ D₁) (hw : Disjoint W₁ W₂) (hr₁ : m₁ s = .ok a s') (hr₂ : m₂ s' = .ok b t) :
    ∃ t', m₂ s = .ok b t' ∧ m₁ t' = .ok a t := by
  have hframe := h₁.frame hr₁
  obtain ⟨t', hr₂', hmoved₂⟩ :=
    h₂.ok_of_eqOn (fun x hx => hframe x (h₁₂.notMem_of_mem_right hx)) hr₂
  obtain ⟨u, hr₁', hmoved₁⟩ := h₁.ok_of_eqOn
    (fun x hx => (hmoved₂.right x (h₂₁.notMem_of_mem_right hx)).symm) hr₁
  refine ⟨t', hr₂', ?_⟩
  suffices u = t by rw [hr₁', this]
  funext x
  by_cases hx : x ∈ W₁
  · -- the second program has not been here
    have hx₂ := hw.notMem_of_mem_left hx
    rw [hmoved₂.left x hx₂]
    obtain hsame | ⟨hs, hu⟩ := hmoved₁.alike x
    · exact hsame.symm
    · rw [hu, hmoved₂.right x hx₂, hs]
  · rw [hmoved₁.right x hx]
    obtain hsame | ⟨ht, ht'⟩ := hmoved₂.alike x
    · exact hsame.symm
    · rw [ht', ht, hframe x hx]

end Touches

/-! ### Lists of calls -/

/-- Two calls next to each other that are related have changed places. -/
inductive Swaps (R : C → C → Prop) : List C → List C → Prop where
  | swap (u v : List C) {c d : C} (h : R c d) : Swaps R (u ++ c :: d :: v) (u ++ d :: c :: v)

/-- One list is the other with related calls moved past each other. -/
def Reorders (R : C → C → Prop) : List C → List C → Prop := Relation.ReflTransGen (Swaps R)

variable {R : C → C → Prop} {cs ds : List C}

theorem Swaps.perm (h : Swaps R cs ds) : cs.Perm ds := by
  obtain ⟨u, v, h⟩ := h
  exact .append_left u (.swap _ _ v)

theorem Reorders.perm (h : Reorders R cs ds) : cs.Perm ds := by
  induction h with
  | refl => exact .refl cs
  | tail _ hs ih => exact ih.trans hs.perm

theorem Swaps.symm (hR : ∀ c d, R c d → R d c) (h : Swaps R cs ds) : Swaps R ds cs := by
  obtain ⟨u, v, h⟩ := h
  exact .swap u v (hR _ _ h)

/-- A call, and then the others. -/
theorem ensures_mapM_cons {exec : C → EStateM ε σ α} {c : C} {cs : List C} {s : σ} {Q : σ → Prop} :
    Ensures ((c :: cs).mapM exec) s (fun _ t => Q t) ↔
      Ensures (exec c) s fun _ t => Ensures (cs.mapM exec) t fun _ u => Q u := by
  rw [List.mapM_cons, ensures_bind_iff]
  simp only [ensures_bind_iff, ensures_iff_of_run (pure_run _ _)]

/-- Some calls, and then the others. -/
theorem ensures_mapM_append {exec : C → EStateM ε σ α} {cs ds : List C} {s : σ} {Q : σ → Prop} :
    Ensures ((cs ++ ds).mapM exec) s (fun _ t => Q t) ↔
      Ensures (cs.mapM exec) s fun _ t => Ensures (ds.mapM exec) t fun _ u => Q u := by
  induction cs generalizing s with
  | nil => rw [List.mapM_nil, List.nil_append, ensures_iff_of_run (pure_run _ _)]
  | cons c cs ih =>
    rw [List.cons_append, ensures_mapM_cons, ensures_mapM_cons]
    simp only [ih]

/-- The two calls may change places. -/
def Commutes (exec : C → EStateM ε σ α) (c d : C) : Prop :=
  ∀ s s' t a b, exec c s = .ok a s' → exec d s' = .ok b t →
    ∃ t', exec d s = .ok b t' ∧ exec c t' = .ok a t

/-- **Calls that may change places may be reordered**: both lists return or neither does, and they
leave the same state. -/
theorem Reorders.ensures_iff {exec : C → EStateM ε σ α} (hR : ∀ c d, R c d → R d c)
    (hc : ∀ c d, R c d → Commutes exec c d) (h : Reorders R cs ds) {s : σ} {Q : σ → Prop} :
    Ensures (cs.mapM exec) s (fun _ t => Q t) ↔ Ensures (ds.mapM exec) s fun _ t => Q t := by
  have hswap : ∀ {cs ds : List C}, Swaps R cs ds → Ensures (cs.mapM exec) s (fun _ t => Q t) →
      Ensures (ds.mapM exec) s fun _ t => Q t := by
    rintro _ _ ⟨u, v, hcd⟩ hrun
    rw [ensures_mapM_append] at hrun ⊢
    refine hrun.mono fun _ s₁ hrun => ?_
    rw [ensures_mapM_cons] at hrun ⊢
    simp only [ensures_mapM_cons] at hrun ⊢
    obtain ⟨a, s₂, hr₁, b, t, hr₂, hQ⟩ := hrun
    obtain ⟨t', hr₂', hr₁'⟩ := hc _ _ hcd _ _ _ _ _ hr₁ hr₂
    exact ⟨b, t', hr₂', a, t, hr₁', hQ⟩
  induction h with
  | refl => exact .rfl
  | tail _ hs ih => exact ih.trans ⟨hswap hs, hswap (hs.symm hR)⟩

/-! ### Blocks -/

/-- A run of places, from the first number as many as the second. -/
abbrev Block := ℕ × ℕ

/-- Two blocks have no place in common. -/
def Block.Apart (b c : Block) : Prop := b.1 + b.2 ≤ c.1 ∨ c.1 + c.2 ≤ b.1 ∨ b.2 = 0 ∨ c.2 = 0

instance (b c : Block) : Decidable (b.Apart c) := inferInstanceAs (Decidable (_ ∨ _ ∨ _ ∨ _))

/-- The places in the blocks. -/
def covered (bs : List Block) : Set ℕ := { a | ∃ b ∈ bs, b.1 ≤ a ∧ a < b.1 + b.2 }

/-- No block of the one list meets one of the other. -/
def AllApart (bs cs : List Block) : Prop := ∀ b ∈ bs, ∀ c ∈ cs, Block.Apart b c

instance (bs cs : List Block) : Decidable (AllApart bs cs) :=
  inferInstanceAs (Decidable (∀ b ∈ bs, ∀ c ∈ cs, Block.Apart b c))

theorem AllApart.symm {bs cs : List Block} (h : AllApart bs cs) : AllApart cs bs := by
  intro c hc b hb
  have := h b hb c hc
  unfold Block.Apart at *
  omega

theorem AllApart.disjoint {bs cs : List Block} (h : AllApart bs cs) :
    Disjoint (covered bs) (covered cs) := by
  rw [Set.disjoint_left]
  rintro a ⟨b, hb, hab⟩ ⟨c, hc, hac⟩
  have := h b hb c hc
  unfold Block.Apart at this
  omega

theorem covered_mono {bs cs : List Block} (h : bs ⊆ cs) : covered bs ⊆ covered cs :=
  fun _ ⟨b, hb, hab⟩ => ⟨b, h hb, hab⟩

theorem mem_covered_singleton {b n a : ℕ} : a ∈ covered [(b, n)] ↔ b ≤ a ∧ a < b + n := by
  simp [covered]

end RocketAp.ProgramLogic
