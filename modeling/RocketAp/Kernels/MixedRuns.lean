import RocketAp.Kernels.RowKernels
import RocketAp.ProgramLogic.Calls

/-!
# The two kernels in turn

`ap_mm` accumulates in `C_1` and uses `A_1` to carry a partial product there; it cleans
`C_1`. `ap_mm_v2` accumulates in `A_1` and cleans that. So `ap_mm` never sees what
`ap_mm_v2` left behind, and `ap_mm_v2` after `ap_mm` starts from the last partial
product (`apMm_leaves`), which is added to row `0` of the result.

`mm_calls_iff`: every call of a sequence multiplies exactly when each `ap_mm_v2` that
computes a row finds the rows of `A_1` that it uses zero.
-/

namespace RocketAp.Kernels

open ProgramLogic Device Hal

/-! ### What `ap_mm` leaves -/

/-- `A_1` holds the last partial product, in its first `n` rows. -/
theorem apMm_leaves {p : Platform} (hp : p.ScaleAdd) {m k n : ℕ} (hn : n ≤ apColSize)
    (hmk : (m + 1) * (k + 1) ≤ randomVectorsSize) (hkn : (k + 1) * n ≤ randomVectorsSize)
    (hmn : (m + 1) * n ≤ randomVectorsSize) (s : St) :
    Ensures (apMm p (m + 1) (k + 1) n) s fun _ t => ∀ r : Fin apColSize, (r : ℕ) < n →
      t.cams .a1 r = p.vec s .a (m * (k + 1) + k) * p.vec s .b (k * n + r) := by
  have hmk' : (m + 1) * (k + 1) = m * (k + 1) + (k + 1) := Nat.succ_mul _ _
  have hmn' : (m + 1) * n = m * n + n := Nat.succ_mul _ _
  have hkn' : (k + 1) * n = k * n + n := Nat.succ_mul _ _
  have hidx : ∀ j < k + 1, m * (k + 1) + j < randomVectorsSize := fun j hj => by omega
  -- the rows before the last, and the factors before the last
  refine .bind (m := apMm p m (k + 1) n)
    (apMm_product hp hn (by omega) hkn (by omega) s) fun _ t ht => ?_
  refine .bind (R := fun _ v => ∀ r : Fin apColSize, (r : ℕ) < n →
    v.cams .a1 r = p.vec s .a (m * (k + 1) + k) * p.vec s .b (k * n + r)) ?_ fun _ v hv => ?_
  · refine .bind (R := fun _ (v : St) => ∀ a, ¬ InColumns a → v.mem a = t.mem a) ?_
      fun _ v hv => ?_
    · refine Ensures.forUpTo (fun _ (v : St) => ∀ a, ¬ InColumns a → v.mem a = t.mem a)
        (fun _ _ => rfl) fun j hj v hv => ?_
      apply (apMm_step hp hn (hidx j (by omega)) j v).mono
      intro _ w hw a ha
      rw [hw.1.outside a ha, hv a ha]
    · apply (apMm_step hp hn (hidx k (Nat.lt_add_one k)) k v).mono
      intro _ w hw r hr
      have hk := hidx k (Nat.lt_add_one k)
      rw [hw.2 r hr, Platform.vec_eq_of_outside hv .a hk,
        Platform.vec_eq_of_outside hv .b (by omega), ht.frame .a _ hk nofun,
        ht.frame .b _ (by omega) nofun]
  · apply Ensures.bind (memcpy_vec p .c .c1 (by omega) v)
    rintro _ w ⟨hcams, _, _⟩
    apply (apFlushC1_ran hp.resets w).mono
    intro _ u hu r hr
    rw [hu.cams, Function.update_of_ne (by decide), hcams, hv r hr]

/-! ### Calls -/

/-- Which kernel is called. -/
inductive MmKernel where
  | mm | mmV2
  deriving DecidableEq, Repr

/-- A call: the contents of `r_v_mgmt.A` and `r_v_mgmt.B`, set before it, and its arguments,
which fit. -/
structure MmCall where
  kernel : MmKernel
  m : ℕ
  k : ℕ
  n : ℕ
  A : ℕ → UInt8
  B : ℕ → UInt8
  n_le : n ≤ apColSize
  mk_le : m * k ≤ randomVectorsSize
  kn_le : k * n ≤ randomVectorsSize
  mn_le : m * n ≤ randomVectorsSize

namespace MmCall

/-- The kernel, run. -/
def run (p : Platform) (c : MmCall) : Prog Unit :=
  match c.kernel with
  | .mm => apMm p c.m c.k c.n
  | .mmV2 => apMmV2 p c.m c.k c.n

/-- The call. -/
def exec (p : Platform) (c : MmCall) : Prog Unit := do
  p.setVec .a c.A
  p.setVec .b c.B
  c.run p

/-- The call left the product in `r_v_mgmt.C`. -/
def Multiplies (p : Platform) (c : MmCall) (_ : St) (_ : Unit) (t : St) : Prop :=
  ∀ i < c.m, ∀ j < c.n, p.vec t .c (i * c.n + j) =
    ∑ l ∈ Finset.range c.k, c.A (i * c.k + l) * c.B (l * c.n + j)

/-- An `ap_mm_v2` that computes a row finds the rows of `A_1` that it uses zero. -/
def FindsClean (c : MmCall) (s : St) (_ : Unit) (_ : St) : Prop :=
  c.kernel = .mmV2 → c.m ≠ 0 → ∀ r : Fin apColSize, (r : ℕ) < c.n → s.cams .a1 r = 0

variable {p : Platform} {c : MmCall} {s t : St}

/-- With the accumulator's rows added to row `0`, the product is the product when they are
zero, or when there is no row. -/
theorem multiplies_iff_of_product {acc : Cam} {K : Cam → Prop}
    (h : Product p acc K c.m c.k c.n s t) (hA : ∀ i < randomVectorsSize, p.vec s .a i = c.A i)
    (hB : ∀ i < randomVectorsSize, p.vec s .b i = c.B i) :
    c.Multiplies p s () t ↔
      (c.m ≠ 0 → ∀ r : Fin apColSize, (r : ℕ) < c.n → s.cams acc r = 0) := by
  have hmk := c.mk_le
  have hkn := c.kn_le
  have hn := c.n_le
  have hprod : ∀ i < c.m, ∀ j < c.n, productEntry c.k c.n (p.vec s .a) (p.vec s .b) i j =
      productEntry c.k c.n c.A c.B i j := fun i hi j hj =>
    productEntry_congr hi hj (fun x hx => hA x (by omega)) fun x hx => hB x (by omega)
  constructor
  · intro hm hm₀ r hr
    have hentry := h.entry 0 (by omega) r hr
    rw [hm 0 (by omega) r hr, hprod 0 (by omega) r hr, if_pos rfl] at hentry
    exact left_eq_add.mp (hentry.trans (add_comm _ _))
  · intro hacc i hi j hj
    rw [h.entry i hi ⟨j, by omega⟩ hj, hprod i hi j hj, hacc (by omega) _ hj, ite_self, zero_add]
    rfl

/-- One call, with `C_1` zero: it returns with `C_1` zero, and it multiplies exactly when it
finds `A_1` clean. -/
theorem exec_ensures (hp : p.ScaleAdd) (c : MmCall) (hs : s.cams .c1 = fun _ => 0) :
    Ensures (c.exec p) s fun a t =>
      t.cams .c1 = (fun _ => 0) ∧ (c.Multiplies p s a t ↔ c.FindsClean s a t) := by
  apply Ensures.bind (p.setVec_filled .a c.A s)
  intro _ v hv
  apply Ensures.bind (p.setVec_filled .b c.B v)
  intro _ u hu
  have ha : ∀ i < randomVectorsSize, p.vec u .a i = c.A i := fun i hi =>
    (hu.others .a nofun i hi).trans (hv.filled i hi)
  have hc : u.cams = s.cams := hu.cams.trans hv.cams
  cases hk : c.kernel with
  | mm =>
    have h := apMm_product hp c.n_le c.mk_le c.kn_le c.mn_le u
    rw [run, hk]
    refine h.mono fun _ t ht => ⟨?_, ?_⟩
    · rw [ht.acc_eq, hc, hs, ite_self]
    · refine (multiplies_iff_of_product ht ha hu.filled).trans ?_
      exact iff_of_true (fun _ r _ => by rw [hc, hs]) fun h => absurd (hk.symm.trans h) (by decide)
  | mmV2 =>
    have h := apMmV2_product hp c.n_le c.mk_le c.kn_le c.mn_le u
    rw [run, hk]
    refine h.mono fun _ t ht => ⟨?_, ?_⟩
    · rw [ht.kept .c1 rfl, hc, hs]
    · refine (multiplies_iff_of_product ht ha hu.filled).trans ?_
      rw [hc]
      exact ⟨fun h _ => h, fun h => h hk⟩

/-- What an `ap_mm_v2` after a call of `ap_mm` starts from. -/
theorem exec_leaves (hp : p.ScaleAdd) (c : MmCall) {m k : ℕ} (hkernel : c.kernel = .mm)
    (hm : c.m = m + 1) (hk : c.k = k + 1) (s : St) :
    Ensures (c.exec p) s fun _ t => ∀ r : Fin apColSize, (r : ℕ) < c.n →
      t.cams .a1 r = c.A (m * (k + 1) + k) * c.B (k * c.n + r) := by
  have hmk := hm ▸ hk ▸ c.mk_le
  have hkn := hk ▸ c.kn_le
  have hmn := hm ▸ c.mn_le
  apply Ensures.bind (p.setVec_filled .a c.A s)
  intro _ v hv
  apply Ensures.bind (p.setVec_filled .b c.B v)
  intro _ u hu
  rw [run, hkernel, hm, hk]
  apply (apMm_leaves hp c.n_le hmk hkn hmn u).mono
  intro _ t ht r hr
  have hidxA : m * (k + 1) + k < (m + 1) * (k + 1) :=
    rowMajor_lt (Nat.lt_add_one m) (Nat.lt_add_one k)
  have hidxB : k * c.n + r < (k + 1) * c.n := rowMajor_lt (Nat.lt_add_one k) hr
  rw [ht r hr, hu.others .a nofun _ (by omega), hv.filled _ (by omega), hu.filled _ (by omega)]

end MmCall

/-! ### Runs -/

/-- **The two kernels in turn.** After a warm-up, every call of a sequence returns with the
product in `r_v_mgmt.C` exactly when every `ap_mm_v2` of it that computes a row finds
the rows of `A_1` that it uses zero. -/
theorem mm_calls_iff {p : Platform} (hp : p.ScaleAdd) (calls : List MmCall) (s₀ : St) :
    Ensures (warmupAp p) s₀ fun _ s =>
      (AllReturn (MmCall.exec p) (MmCall.Multiplies p) calls s ↔
        AllReturn (MmCall.exec p) MmCall.FindsClean calls s) := by
  apply (warmupAp_ran hp.resets s₀).mono
  intro _ s hs
  refine allReturn_congr (P := fun _ => True) (fun t => t.cams .c1 = fun _ => 0)
    (fun c t _ ht => MmCall.exec_ensures hp c ht) calls s (fun _ _ => trivial) ?_
  rw [hs.cams]

/-- `2 × 3` by `3 × 4`. -/
def someCall (kernel : MmKernel) : MmCall :=
  ⟨kernel, 2, 3, 4, fun i => i.toUInt8, fun i => i.toUInt8 + 1, by decide, by decide, by decide,
    by decide⟩

/-- `ap_mm_v2` first, and then `ap_mm`. -/
theorem mm_calls_v2_mm : Ensures (warmupAp (.reference 2)) (.rest someMem) fun _ s =>
    AllReturn (MmCall.exec (.reference 2)) (MmCall.Multiplies (.reference 2))
      [someCall .mmV2, someCall .mm] s := by
  have hp := Platform.reference_scaleAdd 2
  have hiff := mm_calls_iff hp [someCall .mmV2, someCall .mm] (.rest someMem)
  apply ((warmupAp_ran hp.resets (.rest someMem)).and hiff).mono
  rintro _ s ⟨hs, hiff⟩
  refine hiff.mpr ((MmCall.exec_ensures hp (someCall .mmV2) (by rw [hs.cams])).mono ?_)
  refine fun _ t ⟨ht, _⟩ => ⟨fun _ _ r _ => by rw [hs.cams], ?_⟩
  exact (MmCall.exec_ensures hp (someCall .mm) ht).mono fun _ _ _ => ⟨nofun, trivial⟩

/-- `1 × 1`: `1` by `1`. -/
def oneCall (kernel : MmKernel) : MmCall :=
  ⟨kernel, 1, 1, 1, fun _ => 1, fun _ => 1, by decide, by decide, by decide, by decide⟩

/-- `ap_mm` first, and then `ap_mm_v2`, which finds the `1` that `ap_mm` left in `A_1` and
computes `2`. -/
theorem mm_calls_mm_v2_fails : ¬ Ensures (warmupAp (.reference 0)) (.rest someMem) fun _ s =>
    AllReturn (MmCall.exec (.reference 0)) (MmCall.Multiplies (.reference 0))
      [oneCall .mm, oneCall .mmV2] s := by
  have hp := Platform.reference_scaleAdd 0
  intro h
  obtain ⟨_, s, -, hs, h⟩ := (warmupAp_ran hp.resets (.rest someMem)).and h
  -- the first call
  have hcall := MmCall.exec_ensures hp (oneCall .mm) (s := s) (by rw [hs.cams])
  have hleft := MmCall.exec_leaves hp (oneCall .mm) rfl rfl rfl s
  obtain ⟨_, t, -, ⟨⟨ht, -⟩, ha₁⟩, -, h⟩ := (hcall.and hleft).and h
  -- the second
  obtain ⟨_, u, -, ⟨-, hiff⟩, hmul, -⟩ := (MmCall.exec_ensures hp (oneCall .mmV2) ht).and h
  have h₀ := hiff.mp hmul rfl (by decide) ⟨0, by decide⟩ (by decide)
  rw [ha₁ ⟨0, by decide⟩ (by decide)] at h₀
  exact absurd h₀ (by decide)

end RocketAp.Kernels
