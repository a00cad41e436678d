import RocketAp.Device.Assumptions
import RocketAp.Device.CycleCounter
import RocketAp.ProgramLogic.Nesting

/-!
# Measurements

`record` has one start and ten results. A measurement that wraps another one, as a caller's
around `ap_search` or `ap_set_value`, finds when it ends the start of the inner one: what is
logged is the time since the last start, and it is the time since its own start when that is
the last one (`Kept`).

`records_matched_iff`: the log is what it should be, for every counter, exactly when none of
the first ten measurements wraps another.
-/

namespace RocketAp.Device

open ProgramLogic DyckStep

variable (p : Platform)

/-- A call of `start_compute_cycles` or of `end_compute_cycles`. -/
def timerCall : DyckStep → Prog Unit
  | U => p.startComputeCycles
  | D => p.endComputeCycles

/-- Calls, one after the other. -/
def timerCalls : List DyckStep → Prog Unit
  | [] => pure ()
  | x :: w => do
    timerCall p x
    timerCalls w

theorem timerCalls_append (u v : List DyckStep) :
    timerCalls p (u ++ v) = (do timerCalls p u; timerCalls p v) := by
  induction u with
  | nil => simp [timerCalls]
  | cons x u ih => simp [timerCalls, ih]

/-! ### The record after the calls -/

variable {p}

/-- What the calls read so far leave in the record: the last start, and for each of the first
ten ends the time since the start before it that came last. -/
structure Kept (p : Platform) (s : St) (σ : Scan) (t : St) : Prop where
  reads : t.cycleReads = s.cycleReads + σ.pos
  start : σ.unmatched ≠ [] → t.record.start = p.cycles (s.cycleReads + σ.latest)
  size : t.record.resultsSize = min σ.pairs.length Platform.maxResults
  entry : ∀ j < Platform.maxResults, ∀ q, σ.pairs[j]? = some q → t.record.results j =
    p.cycles (s.cycleReads + q.closed) - p.cycles (s.cycleReads + q.latest)
  rest : ∀ j, σ.pairs.length ≤ j ∨ Platform.maxResults ≤ j →
    t.record.results j = s.record.results j

theorem Kept.start_step {s t : St} {σ : Scan} (h : Kept p s σ t) :
    Ensures (timerCall p U) t fun _ u => Kept p s (σ.step U) u := by
  refine .step rfl (.of_run rfl ?_)
  refine ⟨?_, fun _ => ?_, h.size, h.entry, h.rest⟩
  · show t.cycleReads + 1 = s.cycleReads + (σ.pos + 1)
    rw [h.reads, Nat.add_assoc]
  · show p.cycles t.cycleReads = p.cycles (s.cycleReads + σ.pos)
    rw [h.reads]

/-- An end more, which matches a start. -/
theorem Kept.end_step {s t : St} {σ : Scan} {o : ℕ} {os : List ℕ} (h : Kept p s σ t)
    (hσ : σ.unmatched = o :: os) :
    Ensures (timerCall p D) t fun _ u => Kept p s (σ.step D) u := by
  refine .step rfl (.of_run rfl ?_)
  have hstart := h.start (by rw [hσ]; exact List.cons_ne_nil _ _)
  have hsize := h.size
  have hresults := Platform.endRecord_results (p.cycles t.cycleReads) t.record
  rw [hsize] at hresults
  simp only [Scan.step, hσ]
  constructor
  · show t.cycleReads + 1 = s.cycleReads + (σ.pos + 1)
    rw [h.reads, Nat.add_assoc]
  · intro _
    exact (Platform.endRecord_start _ _).trans hstart
  · refine (Platform.endRecord_size _ _).trans ?_
    rw [List.length_append, List.length_singleton, hsize]
    split <;> omega
  · intro j hj q hq
    refine (congrFun hresults j).trans ?_
    rcases Nat.lt_trichotomy j σ.pairs.length with hlt | rfl | hgt
    · rw [List.getElem?_append_left hlt] at hq
      rw [← h.entry j hj q hq]
      split
      · rfl
      · exact Function.update_of_ne (by omega) _ _
    · rw [List.getElem?_concat_length, Option.some.injEq] at hq
      subst hq
      rw [if_neg (by omega), Nat.min_eq_left (Nat.le_of_lt hj), Function.update_self, hstart,
        h.reads]
    · rw [List.getElem?_eq_none (by simp; omega)] at hq
      cases hq
  · intro j hj
    refine (congrFun hresults j).trans ?_
    rw [List.length_append, List.length_singleton] at hj
    rw [← h.rest j (by omega)]
    split
    · rfl
    · exact Function.update_of_ne (by omega) _ _

theorem timerCalls_kept {w : List DyckStep} (hw : Nested w) {s : St}
    (hs : s.record.resultsSize = 0) :
    Ensures (timerCalls p w) s fun _ t => Kept p s (scan w) t := by
  induction w using List.reverseRecOn with
  | nil =>
    refine .pure ⟨rfl, fun h => absurd rfl h, ?_, fun j _ q hq => ?_, fun _ _ => rfl⟩
    · rw [hs]
      rfl
    · cases hq
  | append_singleton w x ih =>
    have hw' := hw.initial (List.prefix_append w [x])
    rw [timerCalls_append, scan_concat]
    apply Ensures.bind (ih hw')
    intro _ t ht
    refine .bind (R := fun _ u => Kept p s ((scan w).step x) u) ?_ fun _ u hu => .pure hu
    cases x with
    | U => exact ht.start_step
    | D =>
      obtain ⟨o, os, hσ⟩ := scan_unmatched hw
      exact ht.end_step hσ

/-! ### The running counter -/

/-- A call over the running counter. -/
def CycleCounter.timerCall (c : CycleCounter) : DyckStep → Clocked Unit
  | U => c.startComputeCycles (2 ^ 32)
  | D => c.endComputeCycles (2 ^ 32)

/-- Calls over the running counter, each some time after the one before. -/
def CycleCounter.timerCalls (c : CycleCounter) : List (ℕ × DyckStep) → Clocked Unit
  | [] => pure ()
  | (idle, x) :: w => do
    CycleCounter.pass idle
    c.timerCall x
    timerCalls c w

/-- What a call does to the record, the counter reading `now`. -/
def timerRecord (now : UInt64) (r : RecordCycles) : DyckStep → RecordCycles
  | U => { r with start := now }
  | D => Platform.endRecord now r

theorem timerCall_run (x : DyckStep) (s : St) : timerCall p x s = .ok () { s with
    cycleReads := s.cycleReads + 1
    record := timerRecord (p.cycles s.cycleReads) s.record x } := by
  cases x <;> rfl

/-- A call over the running counter returns, having read it at one instant. -/
theorem CycleCounter.timerCall_reads (c : CycleCounter) (x : DyckStep) (s : Clock) :
    Ensures (c.timerCall x) s fun _ t => ∃ now, t.record = timerRecord now s.record x ∧
      c.value s.now ≤ now ∧ now ≤ c.value t.now := by
  have hfuel : 2 ^ 32 ≤ 2 ^ 32 + (mcycleh (c.value s.now)).toNat := Nat.le_add_right _ _
  obtain ⟨v, u, hrun, hread⟩ := c.getCycles_returns (by decide) hfuel
  have hrecord := hread.record
  cases x with
  | U =>
    refine .step hrun (.of_run rfl ⟨v, ?_, hread.between⟩)
    show { u.record with start := v } = { s.record with start := v }
    rw [hrecord]
  | D =>
    refine .step hrun (.of_run rfl ⟨v, ?_, hread.between⟩)
    show Platform.endRecord v u.record = Platform.endRecord v s.record
    rw [hrecord]

/-- **A platform's counter is the running counter at the calls.** Over the running counter
the calls return and read values that do not decrease, and they leave the record as calls do
on any platform whose counter reads these. -/
theorem CycleCounter.timerCalls_refines (c : CycleCounter) (w : List (ℕ × DyckStep)) (s : Clock) :
    Ensures (c.timerCalls w) s fun _ t => ∃ vs : List UInt64,
      (vs.length = w.length ∧ vs.Pairwise (· ≤ ·) ∧ ∀ v ∈ vs, c.value s.now ≤ v) ∧
      ∀ (p : Platform) (σ : St), σ.record = s.record →
        (∀ i v, vs[i]? = some v → p.cycles (σ.cycleReads + i) = v) →
          Ensures (Device.timerCalls p (w.map Prod.snd)) σ fun _ τ => τ.record = t.record := by
  induction w generalizing s with
  | nil =>
    refine .pure ⟨[], ⟨rfl, List.Pairwise.nil, fun _ h => absurd h List.not_mem_nil⟩, ?_⟩
    exact fun _ _ hσ _ => .pure hσ
  | cons x w ih =>
    obtain ⟨idle, x⟩ := x
    refine .step rfl ?_
    apply Ensures.bind (c.timerCall_reads x { s with now := s.now + idle })
    rintro _ u ⟨now, hu, hge, hle⟩
    have hs : c.value s.now ≤ now :=
      UInt64.le_trans (c.monotone (Nat.le_add_right _ _)) hge
    apply (ih u).mono
    rintro _ t ⟨vs, ⟨hlen, hsorted, hmin⟩, hrec⟩
    have hnext : ∀ v ∈ vs, now ≤ v := fun v hv => UInt64.le_trans hle (hmin v hv)
    refine ⟨now :: vs, ⟨by simp [hlen], List.pairwise_cons.mpr ⟨hnext, hsorted⟩, ?_⟩, ?_⟩
    · rw [List.forall_mem_cons]
      exact ⟨hs, fun v hv => UInt64.le_trans hs (hnext v hv)⟩
    · intro p σ hσ hcycles
      have hnow : p.cycles σ.cycleReads = now := hcycles 0 now rfl
      refine .step (timerCall_run x σ) (hrec p _ ?_ fun i v hi => ?_)
      · rw [hu, hσ, hnow]
      · rw [← hcycles (i + 1) v hi]
        show p.cycles (σ.cycleReads + 1 + i) = _
        rw [Nat.add_assoc, Nat.add_comm 1 i]

/-! ### What the log is for -/

/-- After the calls `w` the log holds the first ten measurements that have ended, each from
the start it matches, and nothing else has been written in it. -/
structure Logged (p : Platform) (w : List DyckStep) (s t : St) : Prop where
  size : t.record.resultsSize = min (w.count D) Platform.maxResults
  entry : ∀ j < t.record.resultsSize, ∃ q, (pairs w)[j]? = some q ∧ t.record.results j =
    p.cycles (s.cycleReads + q.closed) - p.cycles (s.cycleReads + q.opened)
  rest : ∀ j, Platform.maxResults ≤ j → t.record.results j = s.record.results j

/-- At every point of the calls `w` the log is as it should be, and no entry that is there
changes later. -/
def RecordsMatched (p : Platform) (w : List DyckStep) (s : St) : Prop :=
  ∀ u v, w = u ++ v → Ensures (timerCalls p u) s fun _ t => Logged p u s t ∧
    Ensures (timerCalls p v) t fun _ t' =>
      ∀ j < t.record.resultsSize, t'.record.results j = t.record.results j

/-- An entry of a prefix is one of the first entries of the whole. -/
theorem getElem?_pairs_append {u : List DyckStep} {j : ℕ} {q : Pair}
    (h : (pairs u)[j]? = some q) (v : List DyckStep) : (pairs (u ++ v))[j]? = some q := by
  have hj := (List.getElem?_eq_some_iff.mp h).1
  obtain ⟨l, hl⟩ := pairs_prefix u v
  rw [← hl, List.getElem?_append_left hj, h]

theorem Kept.stable {u v : List DyckStep} {s t t' : St} (ht : Kept p s (scan u) t)
    (ht' : Kept p s (scan (u ++ v)) t') {j : ℕ} (hj : j < t.record.resultsSize) :
    t'.record.results j = t.record.results j := by
  rw [ht.size] at hj
  obtain ⟨q, hq⟩ : ∃ q, (pairs u)[j]? = some q :=
    ⟨_, List.getElem?_eq_getElem (show j < (pairs u).length by unfold pairs; omega)⟩
  rw [ht.entry j (by omega) q hq, ht'.entry j (by omega) q (getElem?_pairs_append hq v)]

/-- For given readings of the counter. -/
theorem recordsMatched_iff {w : List DyckStep} (hw : Nested w) {s : St}
    (hs : s.record.resultsSize = 0) :
    RecordsMatched p w s ↔ ∀ q ∈ (pairs w).take Platform.maxResults,
      p.cycles (s.cycleReads + q.latest) = p.cycles (s.cycleReads + q.opened) := by
  constructor
  · intro h q hq
    obtain ⟨j, hj, hqj⟩ := List.mem_take_iff_getElem.mp hq
    have hjq : (pairs w)[j]? = some q := List.getElem?_eq_some_iff.mpr ⟨by omega, hqj⟩
    obtain ⟨_, t, -, ht, hlog, -⟩ := (timerCalls_kept hw hs).and (h w [] (List.append_nil w).symm)
    have hsize : j < t.record.resultsSize := by
      rw [ht.size, Nat.min_comm]
      exact hj
    obtain ⟨q', hq', hentry⟩ := hlog.entry j hsize
    rw [hjq, Option.some.injEq] at hq'
    subst hq'
    rw [ht.entry j (by omega) q hjq] at hentry
    exact UInt64.sub_right_inj _ |>.mp hentry
  · rintro h u v rfl
    have hu := hw.initial (List.prefix_append u v)
    have hlen := (scan_counts hu).1
    obtain ⟨_, t, hrun, ht⟩ := timerCalls_kept (p := p) hu hs
    obtain ⟨_, t', hrun', ht'⟩ := timerCalls_kept (p := p) hw hs
    rw [timerCalls_append, bind_run hrun] at hrun'
    refine .of_run hrun ⟨⟨?_, fun j hj => ?_, fun j hj => ht.rest j (Or.inr hj)⟩,
      .of_run hrun' fun j hj => ht.stable ht' hj⟩
    · rw [ht.size, ← hlen]
      rfl
    · have hsize := ht.size
      have hjq := List.getElem?_eq_getElem (show j < (pairs u).length by unfold pairs; omega)
      refine ⟨_, hjq, ?_⟩
      rw [ht.entry j (by omega) _ hjq, h _ ?_]
      rw [List.mem_take_iff_getElem]
      obtain ⟨hlt, hq⟩ := List.getElem?_eq_some_iff.mp (getElem?_pairs_append hjq v)
      exact ⟨j, by omega, hq⟩

/-- A counter that steps once, after a given call. -/
def stepping (k : ℕ) : Platform :=
  { Platform.reference 1 with cycles := fun i => if i ≤ k then 0 else 1 }

/-- **The cycle record**, from an empty log. For given readings of the counter the log is as
it should be exactly when for each of the first ten ends the counter read the same at the
last start as at the start that is matched; and it is for all counters that do not decrease
exactly when these are one start, so that none of the first ten measurements wraps another. -/
theorem records_matched_iff (w : DyckWord) :
    (∀ (p : Platform) (s : St), s.record.resultsSize = 0 →
      (RecordsMatched p w.toList s ↔ ∀ q ∈ (pairs w.toList).take Platform.maxResults,
        p.cycles (s.cycleReads + q.latest) = p.cycles (s.cycleReads + q.opened))) ∧
    ((∀ p : Platform, (∀ i j, i ≤ j → p.cycles i ≤ p.cycles j) → ∀ s : St,
      s.record.resultsSize = 0 → RecordsMatched p w.toList s) ↔
        ∀ q ∈ (pairs w.toList).take Platform.maxResults, q.latest = q.opened) := by
  have hw := dyckWord_nested w
  refine ⟨fun p s hs => recordsMatched_iff hw hs, fun h q hq => ?_, fun h p _ s hs => ?_⟩
  · by_contra hne
    have hlt : q.opened < q.latest := by
      have hle := ((scan_ordered w.toList).pairs q (List.mem_of_mem_take hq)).1
      omega
    have hmono : ∀ i j, i ≤ j → (stepping q.opened).cycles i ≤ (stepping q.opened).cycles j := by
      intro i j hij
      simp only [stepping]
      split <;> split <;> first | decide | omega
    have hsame := (recordsMatched_iff (s := .rest fun _ => 0) hw rfl).mp (h _ hmono _ rfl) q hq
    simp only [stepping, St.rest, Nat.zero_add] at hsame
    rw [if_pos (Nat.le_refl _), if_neg (by omega)] at hsame
    exact absurd hsame (by decide)
  · rw [recordsMatched_iff hw hs]
    intro q hq
    rw [h q hq]

/-- Two measurements, one after the other. -/
theorem records_matched_two : RecordsMatched (.reference 1) [U, D, U, D] (.rest fun _ => 0) :=
  ((records_matched_iff ⟨[U, D, U, D], by decide, fun i => by
    match i with
    | 0 | 1 | 2 | 3 => decide
    | i + 4 => simp⟩).1 _ _ rfl).mpr (by decide)

/-- A measurement around another: `2` is logged for it where it took `3`. -/
theorem records_matched_nested :
    ¬ RecordsMatched (.reference 1) [U, U, D, D] (.rest fun _ => 0) := by
  rw [recordsMatched_iff _ rfl]
  · decide
  · exact dyckWord_nested (0 : DyckWord).nest.nest

end RocketAp.Device
