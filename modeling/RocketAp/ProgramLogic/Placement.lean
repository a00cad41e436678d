import Mathlib.Algebra.Order.Floor.Div

/-!
# Sections placed one after the other

A linker fills a region from its start upwards: each section begins where the one before it
ends, or at the next multiple of its alignment (`alignUp`). Between two sections there may be
a gap, but no gap holds a multiple of the alignment it is there for: an address that is a
multiple of every alignment and lies between the start and the end is in a section
(`inSection_of_dvd`).
-/

namespace RocketAp.ProgramLogic

/-- The least multiple of `n` from `x` on. -/
def alignUp (n x : ℕ) : ℕ := n * (x ⌈/⌉ n)

theorem alignUp_le_iff {n x y : ℕ} (hn : 0 < n) (hy : n ∣ y) : alignUp n x ≤ y ↔ x ≤ y := by
  obtain ⟨k, rfl⟩ := hy
  rw [alignUp, Nat.mul_le_mul_left_iff hn]
  exact ceilDiv_le_iff_le_mul hn

/-- A section: its alignment and its size. -/
structure OutputSection where
  align : ℕ
  align_pos : 0 < align
  size : ℕ

variable {a x : ℕ} {l : List OutputSection}

/-- Where the sections end that are placed from `x` on. -/
def placeEnd (x : ℕ) : List OutputSection → ℕ
  | [] => x
  | s :: l => placeEnd (alignUp s.align x + s.size) l

/-- The byte at `a` is in one of the sections that are placed from `x` on. -/
def InSection (a x : ℕ) : List OutputSection → Prop
  | [] => False
  | s :: l => (alignUp s.align x ≤ a ∧ a < alignUp s.align x + s.size) ∨
      InSection a (alignUp s.align x + s.size) l

/-- A multiple of every alignment is in no gap. -/
theorem inSection_of_dvd (hdvd : ∀ s ∈ l, s.align ∣ a) (hx : x ≤ a) (ha : a < placeEnd x l) :
    InSection a x l := by
  induction l generalizing x with
  | nil => exact absurd ha (Nat.not_lt.mpr hx)
  | cons s l ih =>
    rw [List.forall_mem_cons] at hdvd
    have hstart := (alignUp_le_iff s.align_pos hdvd.1).mpr hx
    rcases Nat.lt_or_ge a (alignUp s.align x + s.size) with hlt | hge
    · exact Or.inl ⟨hstart, hlt⟩
    · exact Or.inr (ih hdvd.2 hge ha)

end RocketAp.ProgramLogic
