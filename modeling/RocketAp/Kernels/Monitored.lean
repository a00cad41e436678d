import RocketAp.Hal.Refinement
import RocketAp.Kernels.Tests
import RocketAp.ProgramLogic.Observers

/-!
# The layer with `AP_MONITOR`

With `AP_MONITOR` defined some functions of the layer end in `ap_monitor`, which copies the
first rows of the columns to `monitor_vectors` (`execMonitored`). For calls that have nothing to
do with `monitor_vectors` that build does, on any processor, what the plain build does, and
`monitor_vectors` shows the columns as they were after the last such function
(`monitored_refines`). The time that `ap_monitor` takes is not modelled: both builds find the same
readings of the cycle counter and the same numbers of polls.
-/

namespace RocketAp.Kernels

open ProgramLogic Device Hal

variable {p : Platform} {s t : St}

/-! ### The build -/

/-- The functions of the layer that end in `ap_monitor`. -/
def endsInMonitor : HalCall → Bool
  | .warmupAp | .apFlushA1 | .apFlushB0 | .apFlushB1 | .apFlushC0 | .apFlushC1 | .apMemcpy ..
  | .start (.triggerComputingWWait ..) | .start (.triggerComputingWWaitTargetA ..)
  | .start (.setValueCamALeft _) => true
  | _ => false

/-- A call with `AP_MONITOR` defined: `warmup_ap` also begins with `ap_monitor`. -/
def execMonitored (p : Platform) (mon elements : ℕ) : HalCall → Prog Unit
  | .warmupAp => do
    apMonitor mon elements
    warmupAp p
    apMonitor mon elements
  | c => do
    c.exec p
    if endsInMonitor c then apMonitor mon elements

/-! ### What the monitor shows -/

variable {n : ℕ} {mon : Buf (6 * monitorVectorsSize)} {seen : Cam → ℕ → UInt8}

/-- `monitor_vectors`. -/
abbrev monitorVectors (mon : Buf (6 * monitorVectorsSize)) : Set ℕ :=
  covered [(mon.addr, 6 * monitorVectorsSize)]

/-- The vector of `monitor_vectors` for a column. -/
def monitorVec (mon : Buf (6 * monitorVectorsSize)) (c : Cam) : ℕ :=
  mon.addr + monitored.idxOf c * monitorVectorsSize

/-- The first `k` vectors show `n` rows of what was seen. -/
def ShowsUpTo (mon : Buf (6 * monitorVectorsSize)) (n k : ℕ) (seen : Cam → ℕ → UInt8) (t : St) :
    Prop := ∀ c, monitored.idxOf c < k → ∀ i < n, t.mem (monitorVec mon c + i) = seen c i

theorem mem_monitored (c : Cam) : c ∈ monitored := by
  obtain ⟨col, right⟩ := c
  cases col <;> cases right <;> decide

theorem idxOf_monitored_lt (c : Cam) : monitored.idxOf c < 6 :=
  List.idxOf_lt_length_of_mem (mem_monitored c)

theorem monitorVectors_not_columns : ∀ a ∈ monitorVectors mon, ¬ InColumns a := by
  intro a ha hin
  rw [mem_covered_singleton] at ha
  have hap := mon.apart
  have hw := apWindow
  obtain ⟨hlo, hhi⟩ := hin
  omega

/-- One loop more. -/
theorem apMonitorLoop_shown (c : Cam) (hn : n ≤ monitorVectorsSize)
    (hst : Beside (monitorVectors mon) s t) (ht : ShowsUpTo mon n (monitored.idxOf c) s.row t) :
    Ensures (apMonitorLoop c (monitorVec mon c) n) t fun _ u =>
      Beside (monitorVectors mon) s u ∧ ShowsUpTo mon n (monitored.idxOf c + 1) s.row u := by
  have hw := apWindow
  have hap := mon.apart
  have hc := idxOf_monitored_lt c
  have hge := c.base_ge
  have hle := c.base_le
  have hsize : monitorVectorsSize = 10 := rfl
  have hcol : apColSize = 512 := rfl
  have hvec : monitorVec mon c = mon.addr + monitored.idxOf c * 10 := rfl
  have hoff : OffRegisters (monitorVec mon c) n := by
    unfold OffRegisters
    omega
  refine .of_run (copyBytes_run hoff c.base t) ⟨{ hst with outside := fun a ha => ?_ }, ?_⟩
  · refine (Mem.copyLoop_of_not_mem t.mem ?_).trans (hst.outside a ha)
    rw [mem_covered_singleton] at ha
    omega
  · intro d hd i hi
    by_cases hdc : d = c
    · subst hdc
      have hrow : s.row d i = t.mem (d.base + i) := by
        refine (hst.outside _ fun hin => ?_).symm
        exact monitorVectors_not_columns _ hin (inColumns_base d (by omega))
      rw [hrow]
      exact copyLoop_at t.mem (by omega) hi
    · have hlt : monitored.idxOf d < monitored.idxOf c := by
        refine Nat.lt_of_le_of_ne (Nat.le_of_lt_succ hd) fun h => hdc ?_
        exact (List.idxOf_inj (mem_monitored d)).mp h
      have hd' : monitorVec mon d = mon.addr + monitored.idxOf d * 10 := rfl
      rw [← ht d hlt i hi]
      exact Mem.copyLoop_of_not_mem t.mem (by omega)

/-- `ap_monitor` shows the columns. -/
theorem apMonitor_shown (hn : n ≤ monitorVectorsSize) (hst : Beside (monitorVectors mon) s t) :
    Ensures (apMonitor mon.addr n) t fun _ u =>
      Beside (monitorVectors mon) s u ∧ ShowsUpTo mon n 6 s.row u := by
  rw [apMonitor, if_neg (Nat.not_lt.mpr hn)]
  have hstep : ∀ (c : Cam) (v : St), Beside (monitorVectors mon) s v ∧
      ShowsUpTo mon n (monitored.idxOf c) s.row v →
      Ensures (apMonitorLoop c (monitorVec mon c) n) v fun _ u =>
        Beside (monitorVectors mon) s u ∧ ShowsUpTo mon n (monitored.idxOf c + 1) s.row u :=
    fun c v h => apMonitorLoop_shown c hn h.1 h.2
  refine .bind (hstep .a0 t ⟨hst, fun _ h => absurd h (Nat.not_lt_zero _)⟩) fun _ t₁ h₁ => ?_
  refine .bind (hstep .b0 t₁ h₁) fun _ t₂ h₂ => ?_
  refine .bind (hstep .c0 t₂ h₂) fun _ t₃ h₃ => ?_
  refine .bind (hstep .a1 t₃ h₃) fun _ t₄ h₄ => ?_
  exact .bind (hstep .b1 t₄ h₄) fun _ t₅ h₅ => hstep .c1 t₅ h₅

/-! ### Runs -/

/-- A call of the plain build, with an observer that looks at the columns where the other build
ends in `ap_monitor`. -/
def execWatched (p : Platform) (c : HalCall) : EStateM Stuck (Watched St (Cam → ℕ → UInt8)) Unit :=
  watch (fun s seen => if endsInMonitor c then s.row else seen) (c.exec p)

/-- The one state is the other but for `monitor_vectors`, which show what was seen. -/
structure Monitors (mon : Buf (6 * monitorVectorsSize)) (n : ℕ) (seen : Cam → ℕ → UInt8)
    (s t : St) : Prop where
  beside : Beside (monitorVectors mon) s t
  shows : ShowsUpTo mon n 6 seen t

/-- A call that neither reads nor writes the block through a pointer. -/
structure Avoids (b : Block) (c : HalCall) : Prop where
  loaded : AllApart c.loaded [b]
  stored : AllApart c.stored [b]

instance (b : Block) (c : HalCall) : Decidable (Avoids b c) :=
  decidable_of_iff (AllApart c.loaded [b] ∧ AllApart c.stored [b])
    ⟨fun h => ⟨h.1, h.2⟩, fun h => ⟨h.1, h.2⟩⟩

/-- A run that does not write `monitor_vectors` leaves what they show. -/
theorem ShowsUpTo.kept {bs : List Block} {m : Prog Unit} (hm : ConfinedTo bs m)
    (hbs : AllApart bs [(mon.addr, 6 * monitorVectorsSize)]) (hn : n ≤ monitorVectorsSize)
    (ht : ShowsUpTo mon n 6 seen t) : ShowsUpTo mon n 6 seen (finalState m t) := by
  intro c hc i hi
  have hsize : monitorVectorsSize = 10 := rfl
  have hvec : monitorVec mon c = mon.addr + monitored.idxOf c * 10 := rfl
  have hin : monitorVec mon c + i ∈ monitorVectors mon := by
    rw [mem_covered_singleton]
    omega
  rw [hm t _ ?_, ht c hc i hi]
  rintro (hcol | hst)
  · exact monitorVectors_not_columns _ hin hcol
  · exact hbs.disjoint.notMem_of_mem_left hst hin

/-- A call, in either build, before `ap_monitor`. -/
theorem call_monitors {c : HalCall} (hc : Avoids (mon.addr, 6 * monitorVectorsSize) c)
    (hn : n ≤ monitorVectorsSize) : Simulates (Monitors mon n seen) (c.exec p) (c.exec p) := by
  intro s t h
  have hloaded : ∀ a ∈ covered c.loaded, a ∉ monitorVectors mon := fun a ha hin =>
    hc.loaded.disjoint.notMem_of_mem_left ha hin
  have hrun := halCall_beside (p := p) monitorVectors_not_columns c hloaded s t h.beside
  have hkept := h.shows.kept (halCall_confined (p := p) c) hc.stored hn
  generalize c.exec p s = r, ht : c.exec p t = r' at hrun
  cases hrun with
  | ok a hst => exact .ok a ⟨hst, finalState_ok ht ▸ hkept⟩
  | error e hst => exact .error e ⟨hst, finalState_error ht ▸ hkept⟩

/-- What a call ends in. -/
theorem end_monitors (c : HalCall) (hn : n ≤ monitorVectorsSize) :
    Matches (Monitors mon n seen)
      (fun s t => Monitors mon n (if endsInMonitor c then s.row else seen) s t)
      (fun _ => Monitors mon n seen) (pure () : Prog Unit)
      (if endsInMonitor c then apMonitor mon.addr n else pure ()) := by
  intro s t h
  split
  · obtain ⟨_, u, hr, hu⟩ := apMonitor_shown hn h.beside
    rw [hr]
    exact .ok () ⟨hu.1, hu.2⟩
  · exact .ok () h

theorem execMonitored_eq {c : HalCall} (h : c ≠ .warmupAp) : execMonitored p mon.addr n c = (do
    c.exec p
    if endsInMonitor c then apMonitor mon.addr n) := by
  cases c with
  | warmupAp => exact absurd rfl h
  | _ => rfl

/-- A call. -/
theorem execMonitored_monitors {c : HalCall}
    (hc : Avoids (mon.addr, 6 * monitorVectorsSize) c) (hn : n ≤ monitorVectorsSize) :
    Simulates (fun w t => Monitors mon n w.seen w.state t) (execWatched p c)
      (execMonitored p mon.addr n c) := by
  refine .watch fun seen => ?_
  by_cases h : c = .warmupAp
  · subst h
    intro s t hst
    -- it starts with `ap_monitor`, and always returns
    obtain ⟨_, t₁, hr₁, h₁⟩ := apMonitor_shown hn hst.beside
    have hrun := call_monitors (p := p) hc hn s t₁ ⟨h₁.1, h₁.2⟩
    obtain ⟨s', hs'⟩ : ∃ s', HalCall.warmupAp.exec p s = .ok () s' := ⟨_, rfl⟩
    rw [hs'] at hrun ⊢
    generalize ht : HalCall.warmupAp.exec p t₁ = r at hrun
    cases hrun with
    | ok _ h₂ =>
      obtain ⟨_, u, hu, h₃⟩ := apMonitor_shown hn h₂.beside
      have hmon : execMonitored p mon.addr n .warmupAp t = .ok () u :=
        (bind_run hr₁).trans ((bind_run ht).trans hu)
      rw [hmon]
      exact .ok () ⟨h₃.1, h₃.2⟩
  · rw [execMonitored_eq h, ← bind_pure (c.exec p)]
    simp only [bind_assoc, pure_bind]
    exact (call_monitors hc hn).bind fun _ => end_monitors c hn

/-- **The build with `AP_MONITOR`** does not disturb, and shows the columns. On any processor,
where the counter and the polls read the same in both builds, a run of its calls is a run of the
plain build in all but `monitor_vectors`, stops where that stops, and has in `monitor_vectors` the
first rows, ten at most, that an observer of the plain build would have seen after the last call
that ends in `ap_monitor`. -/
theorem monitored_refines (hn : n ≤ monitorVectorsSize) {calls : List HalCall}
    (hc : ∀ c ∈ calls, Avoids (mon.addr, 6 * monitorVectorsSize) c) :
    Simulates (fun w s => w.state = s) (calls.mapM (execWatched p)) (calls.mapM (HalCall.exec p)) ∧
      Simulates (fun w t => Monitors mon n w.seen w.state t) (calls.mapM (execWatched p))
        (calls.mapM (execMonitored p mon.addr n)) :=
  ⟨mapM_watch_erases, .mapM fun c h => execMonitored_monitors (hc c h) hn⟩

def someMonitor : Buf (6 * monitorVectorsSize) where
  addr := 0x80006000
  fits := by decide
  apart := by decide

/-- With six rows shown. -/
theorem monitored_refines_scaleAdd :
    Simulates (fun w s => w.state = s) (scaleAdd.mapM (execWatched (.reference 2)))
      (scaleAdd.mapM (HalCall.exec (.reference 2))) ∧
    Simulates (fun w t => Monitors someMonitor 6 w.seen w.state t)
      (scaleAdd.mapM (execWatched (.reference 2)))
      (scaleAdd.mapM (execMonitored (.reference 2) someMonitor.addr 6)) :=
  monitored_refines (by decide) (by decide)

end RocketAp.Kernels
