import RocketAp.Hal.Agreement
import RocketAp.Hal.Flushes
import RocketAp.Hal.RowZero

/-!
# The layer as a machine of columns

What the layer is for, without registers, polls or an interrupt: a memory in which six
columns lie, and operations on whole columns. An `Operation` says what is computed, on
which side of each column, and where the result goes; `HalCall.meaning` is what a call
means on such a memory.

On a processor that behaves as documented a call does to memory what it means, and stops
exactly when its meaning does (`call_refines`). All that is between the two is that no reset is
left on (`Holds`). The vertical operations are not documented, and are left out. What runs of
calls do is in `Hal.Refinement`.
-/

namespace RocketAp.Hal

open ProgramLogic Device

/-! ### Operations -/

/-- An operation of the processor. -/
structure Operation where
  op : APOperations
  /-- The column that `SET` fills. -/
  col : APCollunm
  /-- The side of each column, the right one or the left. -/
  side : APCollunm → Bool
  target : OpTarget

namespace Operation

/-- A column on the side that is used of it. -/
def cam (o : Operation) (c : APCollunm) : Cam := ⟨c, o.side c⟩

/-- Where the result goes. -/
def result (o : Operation) : Cam :=
  match o.target with
  | .targetC => o.cam .camC
  | .targetA => o.cam .camA

/-- What it does to the columns. -/
def run (o : Operation) (cs : Cams) : Cams :=
  match o.op with
  | .set => Function.update cs (o.cam o.col) fun _ => cs (o.cam o.col) row0
  | .search => Function.update cs o.result fun r =>
      if cs (o.cam .camA) r = cs (o.cam .camB) row0 then 1 else 0
  | .addD => Function.update cs o.result fun r => cs (o.cam .camA) r + cs (o.cam .camC) r
  | op => Function.update cs o.result fun r =>
      apUnitTestSw op (cs (o.cam .camA) r) (cs (o.cam .camB) r)

/-- The words of `MODE` and `CONTROL` ask for the operation. -/
structure Encodes (o : Operation) (mode control : UInt32) : Prop where
  triggered : Triggered o.op mode control
  side : ∀ c, sideOf mode c = o.side c
  col : o.op = .set → byte 2 mode = o.col.val.toUInt8
  target : opTargetA control ↔ o.target = .targetA

theorem Encodes.selected {o : Operation} {mode control : UInt32} (h : o.Encodes mode control)
    (c : APCollunm) : Device.selected mode c = o.cam c := by
  rw [Device.selected, h.side, cam]

theorem Encodes.resultCam {o : Operation} {mode control : UInt32} (h : o.Encodes mode control) :
    Device.resultCam mode control = o.result := by
  rw [Device.resultCam, h.selected, result]
  cases ht : o.target with
  | targetC => rw [if_neg (by rw [h.target, ht]; nofun)]
  | targetA => rw [if_pos (h.target.mpr ht)]

end Operation

/-! ### The documented processor -/

/-- The processor does all that is documented. -/
structure Documented (p : Platform) : Prop where
  triggers : p.Triggers
  resets : p.Resets
  rowwise : ∀ op : APOperations, op.rowwise → p.RunsRowwise op
  addD : p.RunsAddD
  set : p.RunsSet
  search : p.RunsSearch

theorem reference_documented (n : ℕ) : Documented (.reference n) where
  triggers := Platform.reference_triggers n
  resets := Platform.reference_resets n
  rowwise _ h := Platform.reference_runsRowwise n h
  addD := Platform.reference_runsAddD n
  set := Platform.reference_runsSet n
  search := Platform.reference_runsSearch n

variable {p : Platform}

/-- It computes the operation that it is asked for. -/
theorem Documented.onControl (hp : Documented p) {o : Operation} {mode w : UInt32}
    (h : o.Encodes mode w) (cs : Cams) : p.onControl mode w cs = o.run cs := by
  have ht := h.triggered
  have hsel := h.selected
  have hres := h.resultCam
  cases hop : o.op <;> rw [hop] at ht <;> simp only [Operation.run, hop]
  case set => rw [hp.set o.col _ _ _ ht (h.col hop), setRowsCams, hsel]
  case search => rw [hp.search _ _ _ ht, searchCams, hres, hsel, hsel]
  case addD => rw [hp.addD _ _ _ ht, addDCams, hres, hsel, hsel]
  all_goals rw [hp.rowwise _ rfl _ _ _ ht, rowwiseCams, hres, hsel, hsel]

/-! ### Programs on memory -/

/-- A program of the machine. -/
abbrev ColProg := EStateM Stuck Mem

/-- Read a byte. -/
def peek (a : ℕ) : ColProg UInt8 := fun m => .ok (m a) m

/-- Store a byte. -/
def poke (a : ℕ) (v : UInt8) : ColProg Unit := fun m =>
  if OffRegisters a 1 then .ok () (m.store a v) else .error .registerAccess m

/-- A function of the columns. -/
def onColumns (f : Cams → Cams) : ColProg Unit := fun m => .ok () (setCams m (f (camsOf m)))

/-- Copy bytes one by one. -/
def copyBytes (dst src n : ℕ) : ColProg Unit :=
  forUpTo n fun i => do
    let v ← peek (src + i)
    poke (dst + i) v

/-- Copy a block. -/
def copyBlock (dst src n : ℕ) : ColProg Unit := fun m =>
  if OffRegisters dst n then .ok () (m.copy dst src n) else .error .registerAccess m

/-- A word, the lowest byte first. -/
def peekWord (a : ℕ) : ColProg UInt32 := do
  let b₀ ← peek (wordByte a 0)
  let b₁ ← peek (wordByte a 1)
  let b₂ ← peek (wordByte a 2)
  let b₃ ← peek (wordByte a 3)
  return b₀.toUInt32 ||| b₁.toUInt32 <<< 8 ||| b₂.toUInt32 <<< 16 ||| b₃.toUInt32 <<< 24

/-- The bytes of a word, the lowest first. -/
def pokeWord (a : ℕ) (w : UInt32) : ColProg Unit := do
  poke (wordByte a 0) (byte 0 w)
  poke (wordByte a 1) (byte 1 w)
  poke (wordByte a 2) (byte 2 w)
  poke (wordByte a 3) (byte 3 w)

/-- A column is zeroed. -/
def zero (c : Cam) : ColProg Unit := onColumns fun cs => Function.update cs c fun _ => 0

/-- A vector goes to, or comes from, the block of its column, unless it is too long. -/
def vector (dst src size : ℕ) : ColProg Unit :=
  if size > apColSize then pure () else copyBytes dst src size

/-! ### The meaning of a call -/

/-- The operation that a call starts. -/
def StartOp.operation : StartOp → Operation
  | .triggerComputingWWait op _ ic => ⟨op, .camA, fun _ => ic = .right, .targetC⟩
  | .triggerComputingWWaitTargetA op _ bits =>
    ⟨op, .camA, fun c => bits.toBitVec.getLsbD c.val.toNat, .targetA⟩
  | .computing op ic _ _ _ _ => ⟨op, .camA, fun _ => ic = .right, .targetC⟩
  | .triggerComputing op col ic _ target => ⟨op, col, fun _ => ic = .right, target⟩
  | .verticalComputing op col ic _ _ | .triggerVerticalComputingWWait op col ic =>
    ⟨op, col, fun _ => ic = .right, .targetC⟩
  | .triggerVerticalComputingTarget op col ic target => ⟨op, col, fun _ => ic = .right, target⟩
  | .setValue col ic _ => ⟨.set, col, fun _ => ic = .right, .targetC⟩
  | .setValueCamALeft _ => ⟨.set, .camA, fun _ => false, .targetC⟩
  | .search _ ic target => ⟨.search, .camA, fun _ => ic = .right, target⟩

/-- What a call stores before it starts its operation. -/
def StartOp.operands : StartOp → ColProg Unit
  | .computing _ ic _ A B size => do
    vector (finalAddr .camA ic) A size
    vector (finalAddr .camB ic) B size
  | .setValue col ic value => poke (finalAddr col ic) value
  | .setValueCamALeft factor => poke Cam.a0.base factor
  | .search key _ _ => poke Cam.b0.base key
  | _ => pure ()

/-- What a call means. -/
def HalCall.meaning : HalCall → ColProg Unit
  | .warmupAp => onColumns fun _ _ _ => 0
  | .resetApEngine | .resetApRegs | .releaseApIf | .tinyDelay _ | .apIrqCheck
  | .apWaitingForComputing _ => pure ()
  | .apFlushA1 => zero .a1
  | .apFlushB0 => zero .b0
  | .apFlushB1 => zero .b1
  | .apFlushC0 => zero .c0
  | .apFlushC1 => zero .c1
  | .apFlushCol col ic => zero (namedCam col ic)
  | .apWriteVector col ic V size => vector (finalAddr col ic) V size
  | .apReadVector col ic V size => vector V (finalAddr col ic) size
  | .apReadResultVector ic V size => vector V (finalAddr .camC ic) size
  | .apMemcpy target src bytes => copyBlock target src bytes
  | .apStoreData addr data => pokeWord addr data.toUInt32
  | .apGetData addr => do let _ ← peekWord addr
  | .apGetDataTo dest src => do
    let w ← peekWord src
    poke dest (byte 0 w)
  | .start op => do
    op.operands
    onColumns op.operation.run

/-! ### What is between the two -/

/-- The memory is the machine's, and no reset is on. -/
structure Holds (s : St) (m : Mem) : Prop where
  mem : s.mem = m
  noReset : noReset s.control

variable {s t : St} {m : Mem}

theorem Holds.changed {f : Cams → Cams} (h : Holds s m) (hc : Changed s t (f s.cams))
    (ht : Device.noReset t.control) : Holds t (setCams m (f (camsOf m))) := by
  refine ⟨?_, ht⟩
  rw [hc.mem_eq, ← h.mem]
  rfl

/-- The columns are where they are. -/
theorem Holds.unchanged (h : Holds s m) (hc : Changed s t s.cams)
    (ht : Device.noReset t.control) : Holds t m := by
  refine ⟨?_, ht⟩
  rw [hc.mem_eq, ← (Changed.refl s).mem_eq, h.mem]

theorem Holds.control (hp : Documented p) (h : Holds s m) {w : UInt32}
    (hw : trigger w = false) (hn : Device.noReset w) : Holds (p.afterControl w s) m :=
  h.unchanged ((Changed.refl s).control_quiet hp.resets hw hn) hn

theorem Holds.mode (hp : Documented p) (h : Holds s m) (w : UInt32) :
    Holds (p.afterMode w s) m :=
  h.unchanged ((Changed.refl s).mode_quiet hp.resets h.noReset w) h.noReset

theorem Holds.afterWait (h : Holds s m) (n : ℕ) : Holds (afterWait n s) m := ⟨h.mem, h.noReset⟩

theorem Holds.afterStart (h : Holds s m) : Holds (afterStart p s) m := ⟨h.mem, h.noReset⟩

/-- A start computes the operation, and it is running. -/
theorem Holds.handshake (hp : Documented p) (h : Holds s m) {o : Operation} {l mode w : UInt32}
    (hl : trigger l = false) (hn : Device.noReset l) (ho : o.Encodes mode w) :
    Holds (afterHandshake p l mode w s) (setCams m (o.run (camsOf m))) ∧
      (afterHandshake p l mode w s).irq = .busy (p.latency s.started) := by
  have hc : Changed s (afterHandshake p l mode w s) (p.onControl mode w s.cams) :=
    (((Changed.refl s).control_quiet hp.resets hl hn).mode_quiet hp.resets hn mode).control w
  rw [hp.onControl ho] at hc
  have hirq := afterHandshake_irq (m := mode) hp.triggers hl ho.triggered.trigger s
  rw [if_pos (hp.triggers.starts w ho.triggered.ifState ho.triggered.trigger)] at hirq
  exact ⟨h.changed hc ho.triggered.noReset, hirq⟩

/-! ### Programs that refine -/

theorem refines_of_changed {c : Prog Unit} {f : Cams → Cams}
    (h : ∀ s, noReset s.control →
      Ensures c s fun _ u => Changed s u (f s.cams) ∧ noReset u.control) :
    Simulates Holds c (onColumns f) := by
  intro s m hs
  obtain ⟨_, u, hrun, hc, hn⟩ := h s hs.noReset
  rw [hrun]
  exact .ok () (hs.changed hc hn)

theorem refines_of_ran {c : Prog Unit} {f : Cams → Cams}
    (h : ∀ s, noReset s.control → Ensures c s fun _ u => Ran s u (f s.cams)) :
    Simulates Holds c (onColumns f) := by
  refine refines_of_changed fun s hs => (h s hs).mono fun _ u hu => ⟨hu.toChanged, ?_⟩
  rw [hu.control]
  exact noReset_zero

/-- A call that means nothing. -/
theorem refines_of_keeps {α : Type} {c : Prog α}
    (h : ∀ s m, Holds s m → Ensures c s fun _ u => Holds u m) :
    Simulates Holds (do let _ ← c) (pure () : ColProg Unit) := by
  intro s m hs
  obtain ⟨a, u, hrun, hu⟩ := h s m hs
  rw [bind_run hrun]
  exact .ok () hu

theorem load_refines (a : ℕ) : Simulates Holds (load a) (peek a) := by
  intro s m hs
  rw [peek, ← hs.mem]
  exact .ok _ ⟨rfl, hs.noReset⟩

theorem store_refines (a : ℕ) (v : UInt8) : Simulates Holds (store a v) (poke a v) := by
  intro s m hs
  rw [store, poke]
  split
  · exact .ok () ⟨congrArg (·.store a v) hs.mem, hs.noReset⟩
  · exact .error _ hs

theorem memcpy_refines (target src bytes : ℕ) :
    Simulates Holds (apMemcpy target src bytes) (copyBlock target src bytes) := by
  intro s m hs
  rw [apMemcpy, memcpy, copyBlock]
  split
  · exact .ok () ⟨congrArg (·.copy target src bytes) hs.mem, hs.noReset⟩
  · exact .error _ hs

theorem vector_refines (dst src size : ℕ) : Simulates Holds
    (if size > apColSize then pure ()
      else forUpTo size fun i => do
        let v ← load (src + i)
        store (dst + i) v)
    (vector dst src size) :=
  .ite (fun _ => .pure ()) fun _ =>
    .forUpTo fun _ => (load_refines _).bind fun v => store_refines _ v

theorem lw_refines (a : ℕ) : Simulates Holds (lw a) (peekWord a) :=
  (load_refines _).bind fun _ => (load_refines _).bind fun _ => (load_refines _).bind fun _ =>
    (load_refines _).bind fun _ => .pure _

theorem sw_refines (a : ℕ) (w : UInt32) : Simulates Holds (sw a w) (pokeWord a w) :=
  (store_refines _ _).bind fun _ => (store_refines _ _).bind fun _ =>
    (store_refines _ _).bind fun _ => store_refines _ _

/-- A bounded wait. -/
theorem apWaitingForComputing_holds (hp : Documented p) (loops : ℕ) (h : Holds s m) :
    Ensures (apWaitingForComputing p loops) s fun _ u => Holds u m := by
  induction loops generalizing s with
  | zero => exact .pure h
  | succ n ih =>
    have hpoll : Ensures apIrqCheck s fun _ u => Holds u m := .of_run rfl ⟨h.mem, h.noReset⟩
    refine .bind hpoll fun v t ht => ?_
    split
    · exact .step rfl (.step rfl (.pure ((ht.control hp rfl noReset_zero).mode hp 0)))
    · exact ih ht

section Starts

variable (hp : Documented p) {o : Operation} {l mode w : UInt32} (hl : trigger l = false)
  (hn : noReset l) (ho : o.Encodes mode w)
include hp hl hn ho

/-- A start, and what follows it while the operation runs. -/
theorem started_refines {c : Prog Unit}
    (h : ∀ u m n, Holds u m → u.irq = .busy n →
      Agrees Holds (fun _ => Holds) (c u) (.ok () m : EStateM.Result ..)) :
    Simulates Holds (do p.writeControl l; p.writeMode mode; p.writeControl w; c)
      (onColumns o.run) := by
  intro s m hs
  obtain ⟨hholds, hirq⟩ := hs.handshake hp hl hn ho
  exact h _ _ _ hholds hirq

/-- A start, a wait, and what follows them. -/
theorem handshake_refines {c : Prog Unit} (h : Simulates Holds c (pure () : ColProg Unit)) :
    Simulates Holds (do p.writeControl l; p.writeMode mode; p.writeControl w; waitIrq; c)
      (onColumns o.run) := by
  refine started_refines hp hl hn ho fun u m n hu hirq => ?_
  rw [bind_run (waitIrq_busy hirq)]
  exact h _ _ (hu.afterWait n)

/-- The same with the record started before the wait. -/
theorem timedHandshake_refines {c : Prog Unit} (h : Simulates Holds c (pure () : ColProg Unit)) :
    Simulates Holds (do p.writeControl l; p.writeMode mode; p.writeControl w
                        p.startComputeCycles; waitIrq; c) (onColumns o.run) := by
  refine started_refines hp hl hn ho fun u m n hu hirq => ?_
  have hstart : p.startComputeCycles u = .ok () (afterStart p u) := rfl
  have hwait : waitIrq (afterStart p u) = .ok () (afterWait n (afterStart p u)) :=
    waitIrq_busy hirq
  rw [bind_run hstart, bind_run hwait]
  exact h _ _ (hu.afterStart.afterWait n)

/-- A bounded wait, its report dropped. -/
theorem countedHandshake_refines (loops : ℕ) :
    Simulates Holds (do p.writeControl l; p.writeMode mode; p.writeControl w
                        let _ ← apWaitingForComputing p loops) (onColumns o.run) := by
  refine started_refines hp hl hn ho fun u m n hu hirq => ?_
  obtain ⟨_, v, hrun, hv⟩ := apWaitingForComputing_holds hp loops hu
  rw [bind_run hrun]
  exact .ok () hv

end Starts

/-- The release of the interface. -/
theorem release_refines (hp : Documented p) :
    Simulates Holds (p.writeControl 0) (pure () : ColProg Unit) :=
  fun _ _ h => .ok () (h.control hp rfl noReset_zero)

/-- The end of the record, and what follows it. -/
theorem endComputeCycles_refines {c : Prog Unit}
    (h : Simulates Holds c (pure () : ColProg Unit)) :
    Simulates Holds (do p.endComputeCycles; c) (pure () : ColProg Unit) :=
  fun s m hs => h { s with cycleReads := _, record := _ } m ⟨hs.mem, hs.noReset⟩

/-! ### The words of a call -/

/-- The words of a call that names a side of every column. -/
theorem encodes_named {o : Operation} {ic : APInternalCollunm}
    (hside : o.side = fun _ => decide (ic = .right)) : o.Encodes
      (modeWord ic.val o.col.val APOpDirection.horizontal.val o.op.val)
      (controlWord 1 o.target.val 1 0) := by
  obtain ⟨-, hcol, hdir, hcmd⟩ := byte_modeWord_val ic o.col .horizontal o.op
  have hbits : ∀ target : OpTarget, ifState (controlWord 1 target.val 1 0) = true ∧
      trigger (controlWord 1 target.val 1 0) = true ∧ noReset (controlWord 1 target.val 1 0) ∧
      (opTargetA (controlWord 1 target.val 1 0) ↔ target = .targetA) := by
    intro target
    cases target <;> decide
  obtain ⟨hif, htr, hno, htarget⟩ := hbits o.target
  refine ⟨⟨hif, htr, hno, hdir, hcmd⟩, fun c => ?_, fun _ => hcol, htarget⟩
  have hsel := selected_modeWord o.op .horizontal o.col ic c
  rw [hside]
  exact congrArg Cam.right hsel

/-- The words of a call that has the sides as bits. -/
theorem encodes_bits (op : APOperations) (bits : UInt8) :
    Operation.Encodes ⟨op, .camA, fun c => bits.toBitVec.getLsbD c.val.toNat, .targetA⟩
      (modeWord bits.toUInt32 0 APOpDirection.horizontal.val op.val) (controlWord 1 1 1 0) := by
  have hbytes := byte_modeWord bits 0 0 op.val.toUInt8
  simp only [UInt32.toUInt32_toUInt8, APOperations.val_mod] at hbytes
  obtain ⟨hside, hcol, hdir, hcmd⟩ := hbytes
  refine ⟨⟨by decide, by decide, by decide, hdir, hcmd⟩, fun c => ?_, fun _ => hcol,
    iff_of_true (by decide) rfl⟩
  rw [sideOf_eq]
  exact congrArg (fun b : UInt8 => b.toBitVec.getLsbD c.val.toNat) hside

/-- A start with nothing to store. -/
theorem start_refines {c : Prog Unit} {op : StartOp} (hop : op.operands = pure ())
    (h : Simulates Holds c (onColumns op.operation.run)) :
    Simulates Holds c (HalCall.meaning (.start op)) := by
  rw [HalCall.meaning, hop, pure_bind]
  exact h

/-- A start. -/
theorem startOp_refines (hp : Documented p) (op : StartOp) (hop : (HalCall.start op).Horizontal) :
    Simulates Holds (op.exec p) (HalCall.meaning (.start op)) := by
  have hrelease := release_refines hp
  cases op with
  | triggerComputingWWait op dir ic =>
    obtain rfl : dir = .horizontal := hop
    refine start_refines rfl (handshake_refines hp rfl noReset_lock ?_ hrelease)
    exact encodes_named rfl
  | triggerComputingWWaitTargetA op dir bits =>
    obtain rfl : dir = .horizontal := hop
    exact start_refines rfl (handshake_refines hp rfl noReset_lock (encodes_bits op bits) hrelease)
  | computing op ic dir A B size =>
    obtain rfl : dir = .horizontal := hop
    rw [StartOp.exec, apComputing, HalCall.meaning]
    simp only [StartOp.operands, bind_assoc]
    refine (vector_refines _ _ _).bind fun _ => (vector_refines _ _ _).bind fun _ => ?_
    refine started_refines hp rfl noReset_lock ?_ fun u m n hu _ => .ok () hu
    exact encodes_named rfl
  | triggerComputing op col ic dir target =>
    obtain rfl : dir = .horizontal := hop
    refine start_refines rfl (countedHandshake_refines hp (trigger_lock target) ?_ ?_ 5)
    · cases target <;> decide
    · exact encodes_named rfl
  | setValue col ic value =>
    rw [StartOp.exec, apSetValue]
    simp only [setValueAddr]
    refine (store_refines _ _).bind fun _ => timedHandshake_refines hp rfl noReset_lock ?_ ?_
    · exact encodes_named rfl
    · exact endComputeCycles_refines hrelease
  | setValueCamALeft factor =>
    refine (store_refines _ _).bind fun _ => handshake_refines hp rfl noReset_lock ?_ hrelease
    exact encodes_named rfl
  | search key ic target =>
    rw [StartOp.exec, apSearch]
    simp only [searchKeyAddr]
    refine (store_refines _ _).bind fun _ =>
      timedHandshake_refines hp (trigger_lock target) ?_ ?_ ?_
    · cases target <;> decide
    · exact encodes_named rfl
    · exact endComputeCycles_refines (.pure ())
  | verticalComputing | triggerVerticalComputingWWait | triggerVerticalComputingTarget => cases hop

/-- A flush. -/
theorem flush_refines (hp : Documented p) (f : Flush) :
    Simulates Holds (f.exec p) (zero (namedCam f.col f.internalCol)) :=
  refines_of_ran fun _ hs => f.exec_ran hp.resets hs

theorem flushCol_refines (hp : Documented p) (col : APCollunm) (ic : APInternalCollunm) :
    Simulates Holds (apFlushCol p col ic) (zero (namedCam col ic)) :=
  refines_of_ran fun s _ => apFlushCol_ran hp.resets col ic s

theorem warmupAp_refines (hp : Documented p) :
    Simulates Holds (warmupAp p) (onColumns fun _ _ _ => 0) :=
  refines_of_ran fun s _ => warmupAp_ran hp.resets s

theorem tinyDelay_run (n : ℕ) (s : St) : tinyDelay n s = .ok () s := by
  induction n with
  | zero => rfl
  | succ n ih => exact bind_run ih

/-- A call. -/
theorem call_refines (hp : Documented p) {c : HalCall} (hc : c.Horizontal) :
    Simulates Holds (c.exec p) c.meaning := by
  cases c with
  | warmupAp => exact warmupAp_refines hp
  | resetApEngine =>
    intro s m hs
    have hengine := hs.control hp (w := 0x1000008) rfl (by decide)
    have hlock := hengine.control hp (w := 0x1000000) rfl noReset_lock
    exact .ok () ((hlock.control hp rfl noReset_zero).mode hp 0)
  | resetApRegs => exact .pure ()
  | releaseApIf => exact release_refines hp
  | apFlushA1 => exact flush_refines hp .a1
  | apFlushB0 => exact flush_refines hp .b0
  | apFlushB1 => exact flush_refines hp .b1
  | apFlushC0 => exact flush_refines hp .c0
  | apFlushC1 => exact flush_refines hp .c1
  | apFlushCol col ic => exact flushCol_refines hp col ic
  | tinyDelay n =>
    intro s m hs
    rw [HalCall.exec, tinyDelay_run]
    exact .ok () hs
  | apIrqCheck => exact refines_of_keeps fun s m hs => .of_run rfl ⟨hs.mem, hs.noReset⟩
  | apWaitingForComputing loops =>
    exact refines_of_keeps fun s m hs => apWaitingForComputing_holds hp loops hs
  | apWriteVector col ic V size => exact vector_refines _ _ _
  | apReadVector col ic V size => exact vector_refines _ _ _
  | apReadResultVector ic V size => exact vector_refines _ _ _
  | apMemcpy target src bytes => exact memcpy_refines target src bytes
  | apStoreData addr data => exact sw_refines _ _
  | apGetData addr => exact (lw_refines addr).bind fun _ => .pure ()
  | apGetDataTo dest src => exact (lw_refines src).bind fun w => store_refines _ _
  | start op => exact startOp_refines hp op hc

end RocketAp.Hal
