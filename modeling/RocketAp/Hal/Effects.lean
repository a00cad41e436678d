import RocketAp.Device.Assumptions
import RocketAp.Device.Transfers
import RocketAp.Hal.Waiting
import RocketAp.Hal.Vectors

/-!
# What a call does to the columns

On a processor that behaves as documented, the calls the kernels make are functions of
the columns. `Changed s t cs` says that between `s` and `t` the columns became `cs` and
no other memory changed; `Ran s t cs` that besides the interface was released. There is
one theorem for each call, and the register accesses are not seen above them.

The interrupt is part of it: each of these calls waits, and each is shown to return.
-/

namespace RocketAp.Hal

open ProgramLogic Device

/-! ### Changes -/

/-- The columns became `cs`, and no other memory changed. -/
structure Changed (s t : St) (cs : Cams) : Prop where
  cams : t.cams = cs
  outside : ∀ a, ¬ InColumns a → t.mem a = s.mem a

/-- The columns became `cs`, the interface is released, and nothing was read that is
logged. -/
structure Ran (s t : St) (cs : Cams) : Prop extends Changed s t cs where
  control : t.control = 0
  reads : t.reads = s.reads

section Changes

variable {s t u : St} {cs cs' : Cams}

theorem Changed.refl (s : St) : Changed s s s.cams := ⟨rfl, fun _ _ => rfl⟩

theorem Changed.trans (h : Changed s t cs) (h' : Changed t u cs') : Changed s u cs' :=
  ⟨h'.cams, fun a ha => (h'.outside a ha).trans (h.outside a ha)⟩

theorem Ran.trans (h : Ran s t cs) (h' : Ran t u cs') : Ran s u cs' :=
  ⟨h.toChanged.trans h'.toChanged, h'.control, h'.reads.trans h.reads⟩

/-- The columns and the rest are all of memory. -/
theorem Changed.mem_eq (h : Changed s t cs) : t.mem = setCams s.mem cs := by
  funext a
  cases ha : locate a with
  | none =>
    have hout := not_inColumns_of_locate ha
    rw [h.outside a hout, setCams_of_not_mem _ _ hout]
  | some x =>
    obtain ⟨c, r⟩ := x
    rw [eq_of_locate ha]
    show camsOf t.mem c r = camsOf (setCams s.mem cs) c r
    rw [camsOf_setCams]
    exact congrFun (congrFun h.cams c) r

/-- A vector of `r_v_mgmt` is not in the columns. -/
theorem Changed.vec {p : Platform} (h : Changed s t cs) (v : RvVec) {i : ℕ}
    (hi : i < randomVectorsSize) : p.vec t v i = p.vec s v i :=
  Platform.vec_eq_of_outside h.outside v hi

end Changes

/-! ### On any processor -/

/-- Nothing but columns has changed, and no byte was stored at a literal address. -/
structure Undisturbed (s t : St) : Prop where
  outside : ∀ a, ¬ InColumns a → t.mem a = s.mem a
  fixedStores : t.fixedStores = s.fixedStores

instance : IsPreorder St Undisturbed where
  refl _ := ⟨fun _ _ => rfl, rfl⟩
  trans _ _ _ h₁ h₂ :=
    ⟨fun a ha => (h₂.outside a ha).trans (h₁.outside a ha), h₂.fixedStores.trans h₁.fixedStores⟩

section AnyProcessor

variable {p : Platform}

theorem writeControl_keeps (w : UInt32) : Keeps Undisturbed (p.writeControl w) :=
  .of_ensures fun _ => .of_run rfl ⟨fun _ ha => setCams_of_not_mem _ _ ha, rfl⟩

theorem writeMode_keeps (w : UInt32) : Keeps Undisturbed (p.writeMode w) :=
  .of_ensures fun _ => .of_run rfl ⟨fun _ ha => setCams_of_not_mem _ _ ha, rfl⟩

theorem startComputeCycles_keeps : Keeps Undisturbed p.startComputeCycles :=
  .of_ensures fun _ => .of_run rfl ⟨fun _ _ => rfl, rfl⟩

theorem endComputeCycles_keeps : Keeps Undisturbed p.endComputeCycles :=
  .of_ensures fun _ => .of_run rfl ⟨fun _ _ => rfl, rfl⟩

/-- The loop changes nothing, whether it ends or not. -/
theorem spin_keeps (n : ℕ) : Keeps Undisturbed (spin n) := by
  induction n with
  | zero => exact fun _ => ⟨fun _ _ => rfl, rfl⟩
  | succ n ih =>
    refine .bind (.of_ensures fun _ => .of_run rfl ⟨fun _ _ => rfl, rfl⟩) fun v => ?_
    split
    · exact ih
    · exact .pure ()

theorem waitIrq_keeps : Keeps Undisturbed waitIrq := fun s => spin_keeps _ s

theorem apTriggerComputingWWait_keeps (op : APOperations) (opDirection : APOpDirection)
    (internalCol : APInternalCollunm) :
    Keeps Undisturbed (apTriggerComputingWWait p op opDirection internalCol) :=
  (writeControl_keeps _).bind fun _ => (writeMode_keeps _).bind fun _ =>
    (writeControl_keeps _).bind fun _ => waitIrq_keeps.bind fun _ => writeControl_keeps _

theorem apTriggerComputingWWaitTargetA_keeps (op : APOperations) (opDirection : APOpDirection)
    (bits : UInt8) : Keeps Undisturbed (apTriggerComputingWWaitTargetA p op opDirection bits) :=
  (writeControl_keeps _).bind fun _ => (writeMode_keeps _).bind fun _ =>
    (writeControl_keeps _).bind fun _ => waitIrq_keeps.bind fun _ => writeControl_keeps _

theorem apFlushC0_keeps : Keeps Undisturbed (apFlushC0 p) :=
  (writeMode_keeps _).bind fun _ => (writeControl_keeps _).bind fun _ =>
    (writeControl_keeps _).bind fun _ => writeControl_keeps _

theorem readVec_keeps (v : RvVec) (i : ℕ) : Keeps Undisturbed (p.readVec v i) :=
  .of_ensures fun _ => .of_run rfl ⟨fun _ _ => rfl, rfl⟩

/-- A store into a column. -/
theorem store_column_keeps (c : Cam) {r : ℕ} (hr : r < apColSize) (v : UInt8) :
    Keeps Undisturbed (store (c.base + r) v) := by
  have hle := c.base_le
  have hw := apWindow
  refine .of_ensures fun s => .of_run (store_run (Or.inr (Or.inl (by omega))) v s) ⟨?_, rfl⟩
  intro a ha
  exact Mem.store_of_ne _ _ fun h => ha (h ▸ inColumns_base c hr)

end AnyProcessor

/-! ### Register writes -/

theorem noReset_zero : noReset 0 := by decide

theorem noReset_lock : noReset 0x1000000 := by decide

section Registers

variable {p : Platform} {s t : St} {cs : Cams}

theorem Changed.control (h : Changed s t cs) (w : UInt32) :
    Changed s (p.afterControl w t) (p.onControl t.mode w cs) := by
  refine h.trans ⟨?_, fun _ ha => setCams_of_not_mem _ _ ha⟩
  rw [← h.cams]
  exact camsOf_setCams _ _

theorem Changed.mode (h : Changed s t cs) (w : UInt32) :
    Changed s (p.afterMode w t) (p.onMode t.control w cs) := by
  refine h.trans ⟨?_, fun _ ha => setCams_of_not_mem _ _ ha⟩
  rw [← h.cams]
  exact camsOf_setCams _ _

/-- A `CONTROL` write without the trigger. -/
theorem Changed.control_reset (h : Changed s t cs) (hr : p.Resets) {w : UInt32}
    (hw : trigger w = false) : Changed s (p.afterControl w t) (resetCams t.mode w cs) := by
  rw [← hr.control _ _ _ hw]
  exact h.control w

/-- A `CONTROL` write that neither triggers nor resets. -/
theorem Changed.control_quiet (h : Changed s t cs) (hr : p.Resets) {w : UInt32}
    (hw : trigger w = false) (hn : noReset w) : Changed s (p.afterControl w t) cs := by
  have := h.control_reset hr hw
  rwa [resetCams_noReset _ _ hn] at this

/-- A `MODE` write with no reset on. -/
theorem Changed.mode_quiet (h : Changed s t cs) (hr : p.Resets) (hn : noReset t.control)
    (w : UInt32) : Changed s (p.afterMode w t) cs := by
  rw [← hr.mode _ w cs hn]
  exact h.mode w

/-- A lock, a mode, a trigger, a wait and a release: what the trigger computes. -/
theorem handshake_ran (hp : p.Triggers) (hr : p.Resets) {l m w : UInt32}
    (hl : trigger l = false) (hn : noReset l) (hif : ifState w) (hw : trigger w)
    (h : Changed s t cs) (hreads : t.reads = s.reads) :
    Ensures (do p.writeControl l; p.writeMode m; p.writeControl w; waitIrq; p.writeControl 0) t
      fun _ u => Ran s u (p.onControl m w cs) := by
  refine .of_run (handshake_run hp hl hif hw t) ?_
  have hc : Changed s (afterHandshake p l m w t) (p.onControl m w cs) :=
    ((h.control_quiet hr hl hn).mode_quiet hr hn m).control w
  have hd : Changed s (afterWait (p.latency t.started) (afterHandshake p l m w t))
    (p.onControl m w cs) := ⟨hc.cams, hc.outside⟩
  exact ⟨hd.control_quiet hr rfl noReset_zero, rfl, hreads⟩

/-- A handshake with the cycle record started before the wait. -/
theorem timedHandshake_ensures (hp : p.Triggers) (hr : p.Resets) {l m w : UInt32}
    (hl : trigger l = false) (hn : noReset l) (hif : ifState w) (hw : trigger w)
    {f : Unit → Prog Unit} {Q : Unit → St → Prop}
    (hf : ∀ u, Changed t u (p.onControl m w t.cams) → Ensures (f ()) u Q) :
    Ensures (do p.writeControl l; p.writeMode m; p.writeControl w
                p.startComputeCycles; waitIrq; f ()) t Q := by
  have hirq := afterHandshake_irq (m := m) hp hl hw t
  rw [if_pos (hp.starts w hif hw)] at hirq
  refine .step rfl (.step rfl (.step rfl (.step rfl (.step (waitIrq_busy hirq) (hf _ ?_)))))
  have hc : Changed t (afterHandshake p l m w t) (p.onControl m w t.cams) :=
    (((Changed.refl t).control_quiet hr hl hn).mode_quiet hr hn m).control w
  exact ⟨hc.cams, hc.outside⟩

/-- The cycle record is not in the columns. -/
theorem startComputeCycles_changed (h : Changed s t cs) :
    Ensures p.startComputeCycles t fun _ u => Changed s u cs :=
  .of_run rfl ⟨h.cams, h.outside⟩

theorem endComputeCycles_changed (h : Changed s t cs) :
    Ensures p.endComputeCycles t fun _ u => Changed s u cs :=
  .of_run rfl ⟨h.cams, h.outside⟩

/-- The same with a release. -/
theorem timedHandshake_changed (hp : p.Triggers) (hr : p.Resets) {l m w : UInt32}
    (hl : trigger l = false) (hn : noReset l) (hif : ifState w) (hw : trigger w) :
    Ensures (do p.writeControl l; p.writeMode m; p.writeControl w
                p.startComputeCycles; waitIrq; p.endComputeCycles; p.writeControl 0) t
      fun _ u => Changed t u (p.onControl m w t.cams) := by
  refine timedHandshake_ensures hp hr (f := fun _ => do p.endComputeCycles; p.writeControl 0)
    hl hn hif hw fun u hu => .bind (endComputeCycles_changed hu) fun _ v hv => ?_
  exact .of_run rfl (hv.control_quiet hr rfl noReset_zero)

end Registers

/-! ### Resets -/

/-- A reset of one column. -/
theorem resetCams_single {mode w : UInt32} {c : APCollunm} (hif : ifState w)
    (hc : ∀ c', resetBit c' w = true ↔ c' = c) (cs : Cams) :
    resetCams mode w cs = Function.update cs (selected mode c) fun _ => 0 := by
  funext d
  rw [resetCams, hif]
  by_cases hd : d = selected mode c
  · subst hd
    rw [Function.update_self, if_pos ⟨rfl, (hc _).mpr rfl, rfl⟩]
  · rw [Function.update_of_ne hd, if_neg]
    rintro ⟨-, hbit, heq⟩
    have hcol : d.col = c := (hc d.col).mp hbit
    exact hd (by rw [heq, hcol])

section Flushes

variable {p : Platform}

/-- `ap_flush_a_1` and those written like it: lock, choose the side, reset, release. -/
theorem flush_ran (hr : p.Resets) {m w : UInt32} {c : APCollunm} (hw : trigger w = false)
    (hif : ifState w) (hc : ∀ c', resetBit c' w = true ↔ c' = c) (s : St) :
    Ensures (do p.writeControl 0x1000000; p.writeMode m; p.writeControl w
                p.writeControl 0x0; p.writeMode 0x0) s fun _ u =>
      Ran s u (Function.update s.cams (selected m c) fun _ => 0) := by
  refine .step rfl (.step rfl (.step rfl (.step rfl (.of_run rfl ?_))))
  rw [← resetCams_single hif hc]
  have hlock := (Changed.refl s).control_quiet hr (w := 0x1000000) rfl noReset_lock
  have hreset := (hlock.mode_quiet hr noReset_lock m).control_reset hr hw
  exact ⟨(hreset.control_quiet hr rfl noReset_zero).mode_quiet hr noReset_zero 0, rfl, rfl⟩

theorem apFlushA1_ran (hr : p.Resets) (s : St) : Ensures (apFlushA1 p) s fun _ u =>
    Ran s u (Function.update s.cams .a1 fun _ => 0) :=
  flush_ran hr rfl rfl (resetBit_controlWord .camA) s

theorem apFlushC1_ran (hr : p.Resets) (s : St) : Ensures (apFlushC1 p) s fun _ u =>
    Ran s u (Function.update s.cams .c1 fun _ => 0) :=
  flush_ran hr rfl rfl (resetBit_controlWord .camC) s

/-- `ap_flush_c_0` sets `MODE` before it locks, so no reset may be on when it is called. -/
theorem apFlushC0_ran (hr : p.Resets) {s : St} (hs : noReset s.control) :
    Ensures (apFlushC0 p) s fun _ u => Ran s u (Function.update s.cams .c0 fun _ => 0) := by
  refine .step rfl (.step rfl (.step rfl (.of_run rfl ?_)))
  have hc : ∀ c, resetBit c 0x1000004 = true ↔ c = .camC := resetBit_controlWord .camC
  rw [show Cam.c0 = selected 0 .camC from rfl, ← resetCams_single (w := 0x1000004) rfl hc]
  have hmode := (Changed.refl s).mode_quiet hr hs 0
  have hlock := hmode.control_quiet hr (w := 0x1000000) rfl noReset_lock
  exact ⟨(hlock.control_reset hr rfl).control_quiet hr rfl noReset_zero, rfl, rfl⟩

end Flushes

/-! ### Warming up -/

/-- A reset of the three columns of a side. -/
theorem resetCams_all {mode w : UInt32} {right : Bool} (hif : ifState w)
    (hc : ∀ c, resetBit c w = true) (hm : ∀ c, sideOf mode c = right) (cs : Cams) (c : Cam) :
    resetCams mode w cs c = if c.right = right then fun _ => 0 else cs c := by
  have hsel : c = selected mode c.col ↔ c.right = right := by
    rw [selected, hm c.col]
    constructor
    · intro h
      rw [h]
    · rintro rfl
      rfl
  simp only [resetCams, hif, hc, true_and, hsel]

/-- `warmup_ap` leaves every column zero and the interface released. -/
theorem warmupAp_ran {p : Platform} (hr : p.Resets) (s : St) :
    Ensures (warmupAp p) s fun _ u => Ran s u fun _ _ => 0 := by
  refine .step rfl (.step rfl (.step rfl (.step rfl (.step rfl (.step rfl (.step rfl (.step rfl
    (.step rfl (.step rfl (.step rfl (.of_run rfl ?_)))))))))))
  have hbits : ∀ c, resetBit c 0x1000007 = true := by intro c; cases c <;> decide
  have hstart := ((Changed.refl s).control_quiet hr (w := 0) rfl noReset_zero).mode_quiet hr
    noReset_zero 0
  have hleft := (hstart.control_quiet hr (w := 0x1000000) rfl noReset_lock).control_reset hr
    (w := 0x1000007) rfl
  have hengine := ((hleft.control_quiet hr (w := 0x1000000) rfl noReset_lock).control_quiet hr
    (w := 0x1000008) rfl (by decide)).control_quiet hr (w := 0x1000000) rfl noReset_lock
  have hright := (hengine.mode_quiet hr noReset_lock 0x7000000).control_reset hr
    (w := 0x1000007) rfl
  have hend := ((hright.control_quiet hr (w := 0x1000000) rfl noReset_lock).control_quiet hr
    (w := 0) rfl noReset_zero).mode_quiet hr noReset_zero 0
  refine ⟨⟨?_, hend.outside⟩, rfl, rfl⟩
  rw [hend.cams]
  funext c
  have hsideR : ∀ c, sideOf 0x7000000 c = true := by intro c; cases c <;> decide
  have hsideL : ∀ c, sideOf 0 c = false := by intro c; cases c <;> decide
  have h₁ := resetCams_all (w := 0x1000007) rfl hbits hsideR (resetCams 0 0x1000007 s.cams) c
  have h₀ := resetCams_all (w := 0x1000007) rfl hbits hsideL s.cams c
  refine h₁.trans ?_
  rw [h₀]
  cases c.right <;> rfl

/-! ### Copies -/

/-- A byte stored in a column. -/
theorem store_column (c : Cam) {q : ℕ} (hq : q < apColSize) (v : UInt8) (s : St) :
    Ensures (store (c.base + q) v) s fun _ t =>
      Changed s t (Function.update s.cams c (Function.update (s.cams c) ⟨q, hq⟩ v)) ∧
        t.reads = s.reads := by
  have hle := c.base_le
  refine .of_run (store_run (Or.inr (Or.inl (by omega))) v s)
    ⟨⟨camsOf_store_base s.mem c ⟨q, hq⟩ v, fun a ha => ?_⟩, rfl⟩
  exact Mem.store_of_ne _ _ fun h => ha (h ▸ inColumns_base c hq)

/-- A copy into a column. -/
theorem memcpy_column (c : Cam) {off n : ℕ} (h : off + n ≤ apColSize) (src : ℕ) (s : St) :
    Ensures (apMemcpy (c.base + off) src n) s fun _ t =>
      Changed s t (Function.update s.cams c ((s.cams c).write off n fun i => s.mem (src + i))) ∧
        t.control = s.control ∧ t.reads = s.reads := by
  have hle := c.base_le
  have hoff : OffRegisters (c.base + off) n := Or.inr (Or.inl (by omega))
  refine .of_run (memcpy_run hoff src s)
    ⟨⟨camsOf_write_base s.mem c (fun i => s.mem (src + i)) h, fun a ha => ?_⟩, rfl, rfl⟩
  refine Mem.copy_of_not_mem _ fun ⟨h₁, h₂⟩ => ha ?_
  obtain ⟨r, rfl⟩ := Nat.exists_eq_add_of_le h₁
  rw [Nat.add_assoc]
  exact inColumns_base c (by omega)

/-- A copy of elements of a vector of `r_v_mgmt` into a column. -/
theorem memcpy_vec_column (p : Platform) (v : RvVec) (c : Cam) {off n : ℕ}
    (h : off + n ≤ apColSize) (idx : ℕ) (s : St) :
    Ensures (apMemcpy (c.base + off) (p.rvAddr v + idx) n) s fun _ t =>
      Changed s t
        (Function.update s.cams c ((s.cams c).write off n fun i => p.vec s v (idx + i))) := by
  apply (memcpy_column c h (p.rvAddr v + idx) s).mono
  intro _ t ht
  simpa only [Platform.vec, Nat.add_assoc] using ht.1

/-- A copy of the first rows of a column into a vector of `r_v_mgmt`. -/
theorem memcpy_vec (p : Platform) (v : RvVec) (c : Cam) {off n : ℕ}
    (h : off + n ≤ randomVectorsSize) (s : St) :
    Ensures (apMemcpy (p.rvAddr v + off) c.base n) s fun _ t =>
      t.cams = s.cams ∧ (∀ w, ∀ i < randomVectorsSize, ¬ (w = v ∧ off ≤ i ∧ i < off + n) →
        p.vec t w i = p.vec s w i) ∧
        ∀ r : Fin apColSize, (r : ℕ) < n → p.vec t v (off + r) = s.cams c r := by
  have hap := p.rvAddr_apart v
  have happart : p.rvAddr v + off + n ≤ apBaseAddr ∨ apEndAddr ≤ p.rvAddr v + off := by omega
  refine .of_run (memcpy_run (p.offRegisters_rvAddr v h) c.base s)
    ⟨camsOf_write_apart s.mem (fun i => s.mem (c.base + i)) happart, fun w i hi hw => ?_,
      fun r hr => ?_⟩
  · exact (Platform.vec_write v (fun i => s.mem (c.base + i)) h w hi).trans (if_neg hw)
  · refine (Platform.vec_write v (fun i => s.mem (c.base + i)) h v (by omega)).trans ?_
    rw [if_pos ⟨rfl, by omega, by omega⟩, Nat.add_sub_cancel_left]
    rfl

/-! ### Computing -/

section Computing

variable {p : Platform}

/-- The words with which an operation is started horizontally. -/
theorem triggered_horizontal (op : APOperations) (col : APCollunm)
    (internalCol : APInternalCollunm) :
    Triggered op (modeWord internalCol.val col.val APOpDirection.horizontal.val op.val)
      (controlWord 1 0 1 0) := by
  obtain ⟨-, -, hdir, hcmd⟩ := byte_modeWord_val internalCol col .horizontal op
  exact ⟨by decide, by decide, by decide, hdir, hcmd⟩

/-- The word for an operation selects the side that is asked for, of every column. -/
theorem selected_modeWord (op : APOperations) (opDirection : APOpDirection) (col : APCollunm)
    (internalCol : APInternalCollunm) (c : APCollunm) :
    selected (modeWord internalCol.val col.val opDirection.val op.val) c =
      namedCam c internalCol := by
  rw [selected, sideOf_eq, (byte_modeWord_val internalCol col opDirection op).1]
  cases internalCol <;> cases c <;> rfl

/-- What the processor computes for them. -/
theorem onControl_horizontal {op : APOperations} (hop : p.RunsRowwise op)
    (internalCol : APInternalCollunm) (cs : Cams) :
    p.onControl (modeWord internalCol.val 0 APOpDirection.horizontal.val op.val)
      (controlWord 1 0 1 0) cs =
        Function.update cs (namedCam .camC internalCol) fun r =>
          apUnitTestSw op (cs (namedCam .camA internalCol) r)
            (cs (namedCam .camB internalCol) r) := by
  have ht : Triggered op (modeWord internalCol.val 0 APOpDirection.horizontal.val op.val)
      (controlWord 1 0 1 0) := triggered_horizontal op .camA internalCol
  have hside : ∀ c, selected (modeWord internalCol.val 0 APOpDirection.horizontal.val op.val) c =
      namedCam c internalCol := selected_modeWord op .horizontal .camA internalCol
  have hres : resultCam (modeWord internalCol.val 0 APOpDirection.horizontal.val op.val)
      (controlWord 1 0 1 0) = namedCam .camC internalCol := hside .camC
  rw [hop _ _ _ ht, rowwiseCams, hres, hside, hside]

/-- `ap_trigger_computing_w_wait(op, HORIZONTAL, internal_col)`, for `op` in `OR..MULT`. -/
theorem rowwise_ran (hp : p.Triggers) (hr : p.Resets) {op : APOperations}
    (hop : p.RunsRowwise op) (internalCol : APInternalCollunm) (s : St) :
    Ensures (apTriggerComputingWWait p op .horizontal internalCol) s fun _ u =>
      Ran s u (Function.update s.cams (namedCam .camC internalCol) fun r =>
        apUnitTestSw op (s.cams (namedCam .camA internalCol) r)
          (s.cams (namedCam .camB internalCol) r)) := by
  have ht := triggered_horizontal op .camA internalCol
  have h := handshake_ran hp hr (l := controlWord 1 0 0 0)
    (m := modeWord internalCol.val 0 APOpDirection.horizontal.val op.val) rfl noReset_lock
    ht.ifState ht.trigger (Changed.refl s) rfl
  rw [onControl_horizontal hop] at h
  exact h

/-- On the left. -/
theorem rowwise_left_ran (hp : p.Triggers) (hr : p.Resets) {op : APOperations}
    (hop : p.RunsRowwise op) (s : St) :
    Ensures (apTriggerComputingWWait p op .horizontal .left) s fun _ u =>
      Ran s u (Function.update s.cams .c0 fun r =>
        apUnitTestSw op (s.cams .a0 r) (s.cams .b0 r)) :=
  rowwise_ran hp hr hop .left s

/-- `ap_trigger_computing_w_wait(ADD_D, HORIZONTAL, RIGHT)`. -/
theorem addD_right_ran (hp : p.Triggers) (hr : p.Resets) (hop : p.RunsAddD) (s : St) :
    Ensures (apTriggerComputingWWait p .addD .horizontal .right) s fun _ u =>
      Ran s u (Function.update s.cams .c1 fun r => s.cams .a1 r + s.cams .c1 r) := by
  have h := handshake_ran hp hr (l := controlWord 1 0 0 0) (m := modeWord 7 0 0 9)
    (w := controlWord 1 0 1 0) rfl noReset_lock rfl rfl (Changed.refl s) rfl
  rw [hop _ _ _ (by decide)] at h
  exact h

/-- `ap_trigger_computing_w_wait_target_a(ADD_D, HORIZONTAL, 0b011)`. -/
theorem addD_targetA_ran (hp : p.Triggers) (hr : p.Resets) (hop : p.RunsAddD) (s : St) :
    Ensures (apTriggerComputingWWaitTargetA p .addD .horizontal 0b011) s fun _ u =>
      Ran s u (Function.update s.cams .a1 fun r => s.cams .a1 r + s.cams .c0 r) := by
  have h := handshake_ran hp hr (l := controlWord 1 0 0 0) (m := modeWord 3 0 0 9)
    (w := controlWord 1 1 1 0) rfl noReset_lock rfl rfl (Changed.refl s) rfl
  rw [hop _ _ _ (by decide)] at h
  exact h

/-- `ap_set_value_cam_a_left`. -/
theorem apSetValueCamALeft_ran (hp : p.Triggers) (hr : p.Resets) (hop : p.RunsSet)
    (factor : UInt8) (s : St) :
    Ensures (apSetValueCamALeft p factor) s fun _ u =>
      Ran s u (Function.update s.cams .a0 fun _ => factor) := by
  refine .step (store_run (by decide) factor s) ?_
  have hstore : Changed s { s with mem := s.mem.store Cam.a0.base factor }
      (Function.update s.cams .a0 (Function.update (s.cams .a0) ⟨0, by decide⟩ factor)) := by
    refine ⟨camsOf_store_base s.mem .a0 ⟨0, by decide⟩ factor, fun a ha => ?_⟩
    exact Mem.store_of_ne _ _ fun h => ha (h ▸ inColumns_base .a0 (r := 0) (by decide))
  have h := handshake_ran hp hr (l := controlWord 1 0 0 0) (m := modeWord 0 0 0 7)
    (w := controlWord 1 0 1 0) rfl noReset_lock rfl rfl hstore rfl
  rw [hop .camA _ _ _ (by decide) (by decide), setRowsCams] at h
  have hside : selected (modeWord 0 0 0 7) .camA = .a0 := by decide
  simp only [hside, Function.update_self, Function.update_idem] at h
  exact h

end Computing

end RocketAp.Hal
