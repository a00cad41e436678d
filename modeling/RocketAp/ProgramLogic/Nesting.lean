import Mathlib.Combinatorics.Enumerative.DyckWord

/-!
# Nested measurements

A sequence of starts (`U`) and ends (`D`) is well nested when it is a Dyck word. An end
matches the last start that no end has matched before; the start before it that came last is
another one when a measurement lies inside the one that ends.

`scan` reads a sequence from the left with a stack of the unmatched starts, and keeps for
each end the three places (`Pair`).
-/

namespace RocketAp.ProgramLogic

open DyckStep

/-- An end, with the start that came last before it and the start it matches. -/
structure Pair where
  latest : ℕ
  opened : ℕ
  closed : ℕ
  deriving DecidableEq, Repr

/-- How far a sequence has been read. -/
structure Scan where
  /-- The place of the next step. -/
  pos : ℕ
  /-- The starts that no end has matched, the last one first. -/
  unmatched : List ℕ
  /-- The last start. -/
  latest : ℕ
  /-- The ends so far, in order. -/
  pairs : List Pair

/-- A step more. An end that matches no start is passed over. -/
def Scan.step (σ : Scan) : DyckStep → Scan
  | U => { σ with pos := σ.pos + 1, unmatched := σ.pos :: σ.unmatched, latest := σ.pos }
  | D =>
    match σ.unmatched with
    | [] => { σ with pos := σ.pos + 1 }
    | o :: os => ⟨σ.pos + 1, os, σ.latest, σ.pairs ++ [⟨σ.latest, o, σ.pos⟩]⟩

/-- The whole sequence. -/
def scan (w : List DyckStep) : Scan := w.foldl Scan.step ⟨0, [], 0, []⟩

/-- The ends of a sequence. -/
def pairs (w : List DyckStep) : List Pair := (scan w).pairs

theorem scan_concat (w : List DyckStep) (x : DyckStep) : scan (w ++ [x]) = (scan w).step x := by
  simp [scan]

/-- Every prefix has at least as many starts as ends. -/
def Nested (w : List DyckStep) : Prop := ∀ u, u <+: w → u.count D ≤ u.count U

theorem Nested.initial {u w : List DyckStep} (h : Nested w) (hu : u <+: w) : Nested u :=
  fun v hv => h v (hv.trans hu)

theorem dyckWord_nested (w : DyckWord) : Nested w.toList := by
  intro u hu
  rw [List.prefix_iff_eq_take.mp hu]
  exact w.count_D_le_count_U _

/-! ### What the stack holds -/

/-- In a nested sequence every end matches a start. -/
theorem scan_counts {w : List DyckStep} (h : Nested w) :
    (pairs w).length = w.count D ∧ (scan w).unmatched.length + w.count D = w.count U := by
  induction w using List.reverseRecOn with
  | nil => exact ⟨rfl, rfl⟩
  | append_singleton w x ih =>
    obtain ⟨hpairs, hopen⟩ := ih (h.initial (List.prefix_append _ _))
    have hlast := h _ (List.prefix_refl _)
    rw [pairs, scan_concat]
    rw [List.count_append, List.count_append] at *
    cases x with
    | U =>
      refine ⟨hpairs, ?_⟩
      simp only [Scan.step, List.length_cons]
      simp
      omega
    | D =>
      cases hu : (scan w).unmatched with
      | nil =>
        rw [hu] at hopen
        simp at hopen hlast
        omega
      | cons o os =>
        rw [hu, List.length_cons] at hopen
        simp only [Scan.step, hu, List.length_append]
        simp
        exact ⟨hpairs, by omega⟩

/-- An end of a nested sequence finds a start that is not matched. -/
theorem scan_unmatched {w : List DyckStep} (h : Nested (w ++ [D])) :
    ∃ o os, (scan w).unmatched = o :: os := by
  have hlast := h _ (List.prefix_refl _)
  have hopen := (scan_counts (h.initial (List.prefix_append w [D]))).2
  rw [List.count_append, List.count_append] at hlast
  refine List.exists_cons_of_length_pos ?_
  simp at hlast
  omega

/-- The places are in order: the matched start, the last start, the end. -/
structure Scan.Ordered (σ : Scan) : Prop where
  unmatched : ∀ o ∈ σ.unmatched, o ≤ σ.latest ∧ σ.latest < σ.pos
  pairs : ∀ q ∈ σ.pairs, q.opened ≤ q.latest ∧ q.latest < q.closed

theorem Scan.Ordered.step {σ : Scan} (h : σ.Ordered) (x : DyckStep) : (σ.step x).Ordered := by
  cases x with
  | U =>
    refine ⟨fun o ho => ?_, h.pairs⟩
    rcases List.mem_cons.mp ho with rfl | ho
    · exact ⟨Nat.le_refl _, Nat.lt_add_one _⟩
    · obtain ⟨h₁, h₂⟩ := h.unmatched o ho
      exact ⟨Nat.le_of_lt (Nat.lt_of_le_of_lt h₁ h₂), Nat.lt_add_one _⟩
  | D =>
    cases hu : σ.unmatched with
    | nil =>
      simp only [Scan.step, hu]
      exact ⟨fun o ho => absurd ho List.not_mem_nil, h.pairs⟩
    | cons o os =>
      have hop := h.unmatched
      rw [hu] at hop
      simp only [Scan.step, hu]
      refine ⟨fun o' ho' => ?_, fun q hq => ?_⟩
      · obtain ⟨h₁, h₂⟩ := hop o' (List.mem_cons_of_mem o ho')
        exact ⟨h₁, Nat.lt_succ_of_lt h₂⟩
      · rcases List.mem_append.mp hq with hq | hq
        · exact h.pairs q hq
        · rw [List.mem_singleton.mp hq]
          exact hop o List.mem_cons_self

theorem scan_ordered (w : List DyckStep) : (scan w).Ordered := by
  induction w using List.reverseRecOn with
  | nil => exact ⟨fun _ h => absurd h List.not_mem_nil, fun _ h => absurd h List.not_mem_nil⟩
  | append_singleton w x ih =>
    rw [scan_concat]
    exact ih.step x

/-- The ends of a prefix are the first ends. -/
theorem pairs_prefix (u v : List DyckStep) : pairs u <+: pairs (u ++ v) := by
  induction v using List.reverseRecOn with
  | nil => rw [List.append_nil]
  | append_singleton v x ih =>
    refine ih.trans ?_
    rw [← List.append_assoc, pairs, pairs, scan_concat]
    cases x with
    | U => exact List.prefix_refl _
    | D =>
      simp only [Scan.step]
      split
      · exact List.prefix_refl _
      · exact List.prefix_append _ _

end RocketAp.ProgramLogic
