import RocketAp.Device.Assumptions
import RocketAp.Hal.Vectors

/-!
# The register protocol

An operation of the processor is started by three register writes: `CONTROL` with
`ap_if_state` set, `MODE` with what is asked for, and `CONTROL` with `ap_if_state`,
the target and the trigger. `Protocol` says it of the register accesses a function
makes, in order.

Ten functions start an operation (`StartOp`). Seven build their words with
`set_mode_reg` and `set_control_reg`, or write the words these would build, and keep
the protocol. The three vertical ones lock with `0x10000`, which was `ap_if_state` in
an older layout of the register and is the target bit in this one; the source remarks
`bug here` on two of them. `startOp_protocol_iff` is the whole: a function keeps the protocol
exactly when it is not one of those three, whatever the arguments, the state, and the
platform.
-/

namespace RocketAp.Hal

open ProgramLogic Device

/-- What an operation is asked for: the bytes of `MODE` and the target. -/
structure Asked where
  internalCol : UInt8
  col : UInt8
  opDirection : UInt8
  cmd : UInt8
  target : OpTarget

/-- `MODE` holds what is asked for. -/
def Asked.InMode (k : Asked) (mode : UInt32) : Prop :=
  byte 3 mode = k.internalCol ∧ byte 2 mode = k.col ∧ byte 1 mode = k.opDirection ∧
    byte 0 mode = k.cmd

/-- **The protocol**: every `CONTROL` write with the trigger has `ap_if_state` and the
target asked for, and comes after a `CONTROL` write with `ap_if_state` and, after that
one, a `MODE` write of what is asked for. -/
def Protocol (k : Asked) (ops : List RegOp) : Prop :=
  ∀ pre w post, ops = pre ++ .control w :: post → trigger w →
    ifState w ∧ (opTargetA w ↔ k.target = .targetA) ∧
      ∃ l m, ifState l ∧ k.InMode m ∧ [RegOp.control l, .mode m].Sublist pre

/-- No `CONTROL` write with the trigger. -/
def Quiet (ops : List RegOp) : Prop := ∀ w, .control w ∈ ops → trigger w = false

/-! ### The shape of a handshake -/

/-- The one trigger of lock, mode and trigger followed by quiet accesses. -/
theorem handshake_split {l m t : UInt32} {rest pre post : List RegOp} {w : UInt32}
    (hl : trigger l = false) (hr : Quiet rest) (ht : trigger w)
    (h : .control l :: .mode m :: .control t :: rest = pre ++ .control w :: post) :
    pre = [.control l, .mode m] ∧ w = t := by
  rcases pre with _ | ⟨a, _ | ⟨b, _ | ⟨c, pre⟩⟩⟩
  · simp only [List.nil_append, List.cons.injEq, RegOp.control.injEq] at h
    rw [h.1, ht] at hl
    cases hl
  · simp at h
  · simp only [List.cons_append, List.nil_append, List.cons.injEq, RegOp.control.injEq] at h
    obtain ⟨rfl, rfl, rfl, -⟩ := h
    exact ⟨rfl, rfl⟩
  · simp only [List.cons_append, List.cons.injEq] at h
    have := hr w (by rw [h.2.2.2]; simp)
    rw [ht] at this
    cases this

/-- When a handshake keeps the protocol, read off its three words. -/
theorem protocol_handshake_iff {k : Asked} {l m t : UInt32} {rest : List RegOp}
    (hl : trigger l = false) (ht : trigger t) (hr : Quiet rest) :
    Protocol k (.control l :: .mode m :: .control t :: rest) ↔
      ifState t ∧ (opTargetA t ↔ k.target = .targetA) ∧ ifState l ∧ k.InMode m := by
  constructor
  · intro h
    obtain ⟨h₁, h₂, l', m', hl', hm', hsub⟩ := h [.control l, .mode m] t rest rfl ht
    have heq := hsub.eq_of_length rfl
    simp only [List.cons.injEq, RegOp.control.injEq, RegOp.mode.injEq, and_true] at heq
    obtain ⟨rfl, rfl⟩ := heq
    exact ⟨h₁, h₂, hl', hm'⟩
  · rintro ⟨h₁, h₂, h₃, h₄⟩ pre w post h hw
    obtain ⟨rfl, rfl⟩ := handshake_split hl hr hw h
    exact ⟨h₁, h₂, l, m, h₃, h₄, List.Sublist.refl _⟩

/-! ### What a function writes -/

variable (p : Platform)

/-- The register accesses a program makes from a state, whether it returns or stops. -/
def Emits (m : Prog Unit) (s : St) (ops : List RegOp) : Prop :=
  (finalState m s).bus = s.bus ++ ops

/-- From every state a program starts no operation. -/
def EmitsQuiet {α : Type} (m : Prog α) : Prop :=
  ∀ s, ∃ ops, (finalState m s).bus = s.bus ++ ops ∧ Quiet ops

theorem Quiet.append {ops ops' : List RegOp} (h : Quiet ops) (h' : Quiet ops') :
    Quiet (ops ++ ops') := by
  intro w hw
  rcases List.mem_append.mp hw with hw | hw
  · exact h w hw
  · exact h' w hw

theorem quiet_nil : Quiet [] := fun _ h => absurd h (List.not_mem_nil)

theorem EmitsQuiet.bind {α β : Type} {m : Prog α} {f : α → Prog β} (h : EmitsQuiet m)
    (hf : ∀ a, EmitsQuiet (f a)) : EmitsQuiet (m >>= f) := by
  intro s
  obtain ⟨ops, hops, hq⟩ := h s
  cases hm : m s with
  | ok a t =>
    obtain ⟨ops', hops', hq'⟩ := hf a t
    rw [finalState_ok hm] at hops
    refine ⟨ops ++ ops', ?_, hq.append hq'⟩
    have hfin : finalState (m >>= f) s = finalState (f a) t := by
      simp only [finalState, bind_run hm]
    rw [hfin, hops', hops, List.append_assoc]
  | error e t =>
    rw [finalState_error hm] at hops
    exact ⟨ops, by rw [finalState_error (bind_error hm), hops], hq⟩

/-- A program that returns having made no register access. -/
theorem emitsQuiet_of_silent {α : Type} {m : Prog α}
    (h : ∀ s, (finalState m s).bus = s.bus) : EmitsQuiet m :=
  fun s => ⟨[], by rw [h, List.append_nil], quiet_nil⟩

theorem emitsQuiet_pure {α : Type} (a : α) : EmitsQuiet (pure a : Prog α) :=
  emitsQuiet_of_silent fun _ => rfl

theorem emitsQuiet_writeControl {w : UInt32} (h : trigger w = false) :
    EmitsQuiet (p.writeControl w) :=
  fun s => ⟨[.control w], rfl, fun w' hw => by simp at hw; rw [hw, h]⟩

theorem emitsQuiet_writeMode (w : UInt32) : EmitsQuiet (p.writeMode w) :=
  fun s => ⟨[.mode w], rfl, fun w' hw => by simp at hw⟩

theorem emitsQuiet_apIrqCheck : EmitsQuiet apIrqCheck :=
  fun s => ⟨[.irq s.irq.poll.1], rfl, fun w' hw => by simp at hw⟩

theorem emitsQuiet_spin : ∀ n, EmitsQuiet (spin n)
  | 0 => emitsQuiet_of_silent fun _ => rfl
  | n + 1 => emitsQuiet_apIrqCheck.bind fun v => by
    split
    · exact emitsQuiet_spin n
    · exact emitsQuiet_pure ()

theorem emitsQuiet_waitIrq : EmitsQuiet waitIrq := fun s => emitsQuiet_spin _ s

theorem emitsQuiet_apWaitingForComputing : ∀ loops, EmitsQuiet (apWaitingForComputing p loops)
  | 0 => emitsQuiet_pure _
  | loops + 1 => emitsQuiet_apIrqCheck.bind fun v => by
    split
    · exact (emitsQuiet_writeControl p rfl).bind fun _ =>
        (emitsQuiet_writeMode p 0).bind fun _ => emitsQuiet_pure _
    · exact emitsQuiet_apWaitingForComputing loops

theorem emitsQuiet_tinyDelay : ∀ n, EmitsQuiet (tinyDelay n)
  | 0 => emitsQuiet_pure ()
  | n + 1 => (emitsQuiet_tinyDelay n).bind fun _ => emitsQuiet_pure ()

theorem emitsQuiet_startComputeCycles : EmitsQuiet p.startComputeCycles :=
  emitsQuiet_of_silent fun _ => rfl

theorem emitsQuiet_endComputeCycles : EmitsQuiet p.endComputeCycles :=
  emitsQuiet_of_silent fun _ => rfl

/-- A handshake and what follows it. -/
theorem emits_handshake (l m t : UInt32) {tail : Prog Unit} (h : EmitsQuiet tail) (s : St) :
    ∃ rest, Quiet rest ∧ Emits (do p.writeControl l; p.writeMode m; p.writeControl t; tail) s
      (.control l :: .mode m :: .control t :: rest) := by
  obtain ⟨rest, hrest, hq⟩ := h (p.afterControl t (p.afterMode m (p.afterControl l s)))
  refine ⟨rest, hq, hrest.trans ?_⟩
  simp [Platform.afterControl, Platform.afterMode]

/-- A handshake after something that leaves the registers alone. -/
theorem Emits.after {m : Prog Unit} {f : Unit → Prog Unit} {s t : St} {ops : List RegOp}
    (h : m s = .ok () t) (hbus : t.bus = s.bus) (hf : Emits (f ()) t ops) :
    Emits (m >>= f) s ops := by
  have hfin : finalState (m >>= f) s = finalState (f ()) t := by
    simp only [finalState, bind_run h]
  rw [Emits, hfin, hf, hbus]

/-! ### The ten functions -/

/-- A call that starts an operation. -/
inductive StartOp where
  | triggerComputingWWait (op : APOperations) (opDirection : APOpDirection)
      (internalCol : APInternalCollunm)
  | triggerComputingWWaitTargetA (op : APOperations) (opDirection : APOpDirection)
      (internalColBits : UInt8)
  | computing (op : APOperations) (internalCol : APInternalCollunm) (opDirection : APOpDirection)
      (A B size : ℕ)
  | triggerComputing (op : APOperations) (col : APCollunm) (internalCol : APInternalCollunm)
      (opDirection : APOpDirection) (opTarget : OpTarget)
  | verticalComputing (op : APOperations) (col : APCollunm) (internalCol : APInternalCollunm)
      (V size : ℕ)
  | triggerVerticalComputingWWait (op : APOperations) (col : APCollunm)
      (internalCol : APInternalCollunm)
  | triggerVerticalComputingTarget (op : APOperations) (col : APCollunm)
      (internalCol : APInternalCollunm) (target : OpTarget)
  | setValue (col : APCollunm) (internalCol : APInternalCollunm) (value : UInt8)
  | setValueCamALeft (factor : UInt8)
  | search (key : UInt8) (internalCol : APInternalCollunm) (target : OpTarget)

namespace StartOp

/-- The call. -/
def exec : StartOp → Prog Unit
  | .triggerComputingWWait op dir ic => apTriggerComputingWWait p op dir ic
  | .triggerComputingWWaitTargetA op dir bits => apTriggerComputingWWaitTargetA p op dir bits
  | .computing op ic dir A B size => apComputing p op ic dir A B size
  | .triggerComputing op col ic dir target => apTriggerComputing p op col ic dir target
  | .verticalComputing op col ic V size => apVerticalComputing p op col ic V size
  | .triggerVerticalComputingWWait op col ic => apTriggerVerticalComputingWWait p op col ic
  | .triggerVerticalComputingTarget op col ic target =>
    apTriggerVerticalComputingTarget p op col ic target
  | .setValue col ic value => apSetValue p col ic value
  | .setValueCamALeft factor => apSetValueCamALeft p factor
  | .search key ic target => apSearch p key ic target

/-- What the call asks for. A function without a column asks for column `0`, one without
a direction for `HORIZONTAL`, and one without a target for `C`. -/
def asked : StartOp → Asked
  | .triggerComputingWWait op dir ic =>
    ⟨ic.val.toUInt8, 0, dir.val.toUInt8, op.val.toUInt8, .targetC⟩
  | .triggerComputingWWaitTargetA op dir bits =>
    ⟨bits, 0, dir.val.toUInt8, op.val.toUInt8, .targetA⟩
  | .computing op ic dir _ _ _ => ⟨ic.val.toUInt8, 0, dir.val.toUInt8, op.val.toUInt8, .targetC⟩
  | .triggerComputing op col ic dir target =>
    ⟨ic.val.toUInt8, col.val.toUInt8, dir.val.toUInt8, op.val.toUInt8, target⟩
  | .verticalComputing op col ic _ _ =>
    ⟨ic.val.toUInt8, col.val.toUInt8, APOpDirection.vertical.val.toUInt8, op.val.toUInt8, .targetC⟩
  | .triggerVerticalComputingWWait op col ic =>
    ⟨ic.val.toUInt8, col.val.toUInt8, APOpDirection.vertical.val.toUInt8, op.val.toUInt8, .targetC⟩
  | .triggerVerticalComputingTarget op col ic target =>
    ⟨ic.val.toUInt8, col.val.toUInt8, APOpDirection.vertical.val.toUInt8, op.val.toUInt8, target⟩
  | .setValue col ic _ =>
    ⟨ic.val.toUInt8, col.val.toUInt8, 0, APOperations.set.val.toUInt8, .targetC⟩
  | .setValueCamALeft _ =>
    ⟨APInternalCollunm.left.val.toUInt8, APCollunm.camA.val.toUInt8, 0,
      APOperations.set.val.toUInt8, .targetC⟩
  | .search _ ic target => ⟨ic.val.toUInt8, 0, 0, APOperations.search.val.toUInt8, target⟩

/-- The functions that lock with `0x10000`. -/
def isVertical : StartOp → Bool
  | .verticalComputing .. | .triggerVerticalComputingWWait ..
  | .triggerVerticalComputingTarget .. => true
  | _ => false

end StartOp

/-- `MODE` is built from what is asked for. -/
def Asked.modeWord (k : Asked) : UInt32 :=
  Device.modeWord k.internalCol.toUInt32 k.col.toUInt32 k.opDirection.toUInt32 k.cmd.toUInt32

theorem Asked.inMode (k : Asked) : k.InMode k.modeWord := byte_modeWord _ _ _ _

/-- A handshake keeps the protocol exactly when its three words do. -/
theorem emits_protocol_iff (k : Asked) {l m t : UInt32} {tail : Prog Unit}
    (hl : trigger l = false) (ht : trigger t) (h : EmitsQuiet tail) (s : St) :
    ∃ ops, Emits (do p.writeControl l; p.writeMode m; p.writeControl t; tail) s ops ∧
      (Protocol k ops ↔
        ifState t ∧ (opTargetA t ↔ k.target = .targetA) ∧ ifState l ∧ k.InMode m) := by
  obtain ⟨rest, hq, hemits⟩ := emits_handshake p l m t h s
  exact ⟨_, hemits, protocol_handshake_iff hl ht hq⟩

/-- The words of a handshake that locks with `ap_if_state`, and triggers with it and the
target. -/
def Locked (target : OpTarget) (l t : UInt32) : Prop :=
  trigger l = false ∧ trigger t ∧ ifState l ∧ ifState t ∧ (opTargetA t ↔ target = .targetA)

instance (target : OpTarget) (l t : UInt32) : Decidable (Locked target l t) :=
  inferInstanceAs (Decidable (_ ∧ _))

/-- Whatever target the lock is written with. -/
theorem locked_controlWord (lock target : OpTarget) :
    Locked target (controlWord 1 lock.val 0 0) (controlWord 1 target.val 1 0) := by
  cases lock <;> cases target <;> decide

/-- A handshake with `ap_if_state` and the target asked for keeps the protocol. -/
theorem emits_protocol {k : Asked} {l m t : UInt32} {tail : Prog Unit} (hm : m = k.modeWord)
    (hw : Locked k.target l t) (h : EmitsQuiet tail) (s : St) :
    ∃ ops, Emits (do p.writeControl l; p.writeMode m; p.writeControl t; tail) s ops ∧
      Protocol k ops := by
  obtain ⟨hl, ht, hil, hit, htarget⟩ := hw
  obtain ⟨ops, hemits, hiff⟩ := emits_protocol_iff p k hl ht h s
  exact ⟨ops, hemits, hiff.mpr ⟨hit, htarget, hil, hm ▸ k.inMode⟩⟩

/-- A handshake that locks without `ap_if_state` breaks the protocol. -/
theorem emits_not_protocol (k : Asked) {l m t : UInt32} {tail : Prog Unit}
    (hw : trigger l = false ∧ trigger t ∧ ifState l = false) (h : EmitsQuiet tail) (s : St) :
    ∃ ops, Emits (do p.writeControl l; p.writeMode m; p.writeControl t; tail) s ops ∧
      ¬ Protocol k ops := by
  obtain ⟨hl, ht, hil⟩ := hw
  obtain ⟨ops, hemits, hiff⟩ := emits_protocol_iff p k hl ht h s
  refine ⟨ops, hemits, fun hp => ?_⟩
  rw [hiff.mp hp |>.2.2.1] at hil
  cases hil

/-- What holds of the accesses after something that leaves the registers alone. -/
theorem exists_emits_after {m : Prog Unit} {f : Unit → Prog Unit} {s t : St}
    {P : List RegOp → Prop} (h : m s = .ok () t) (hbus : t.bus = s.bus)
    (hf : ∃ ops, Emits (f ()) t ops ∧ P ops) : ∃ ops, Emits (m >>= f) s ops ∧ P ops := by
  obtain ⟨ops, hemits, hP⟩ := hf
  exact ⟨ops, Emits.after h hbus hemits, hP⟩

/-- A write of a vector returns and leaves the registers alone. -/
theorem apWriteVector_silent (col : APCollunm) (internalCol : APInternalCollunm) (V size : ℕ)
    (s : St) : ∃ t, apWriteVector col internalCol V size s = .ok () t ∧ t.bus = s.bus := by
  rcases Nat.lt_or_ge apColSize size with h | h
  · exact ⟨s, apWriteVector_large col internalCol V h s, rfl⟩
  · exact ⟨_, apWriteVector_run col internalCol V h s, rfl⟩

theorem emitsQuiet_release : EmitsQuiet (p.writeControl 0x0) := emitsQuiet_writeControl p rfl

theorem emitsQuiet_waitRelease : EmitsQuiet (do waitIrq; p.writeControl 0x0) :=
  emitsQuiet_waitIrq.bind fun _ => emitsQuiet_release p

/-- The seven functions keep the protocol. -/
theorem startOp_keeps (op : StartOp) (h : op.isVertical = false) (s : St) :
    ∃ ops, Emits (op.exec p) s ops ∧ Protocol op.asked ops := by
  cases op with
  | triggerComputingWWait op dir ic =>
    simp only [StartOp.exec, apTriggerComputingWWait, Platform.setControlReg, Platform.setModeReg]
    exact emits_protocol p (by simp [StartOp.asked, Asked.modeWord])
      (locked_controlWord .targetC .targetC) (emitsQuiet_waitRelease p) s
  | triggerComputingWWaitTargetA op dir bits =>
    simp only [StartOp.exec, apTriggerComputingWWaitTargetA, Platform.setControlReg,
      Platform.setModeReg]
    exact emits_protocol p (by simp [StartOp.asked, Asked.modeWord])
      (locked_controlWord .targetC .targetA) (emitsQuiet_waitRelease p) s
  | computing op ic dir A B size =>
    simp only [StartOp.exec, apComputing, Platform.setControlReg, Platform.setModeReg]
    obtain ⟨t, ht, hbus⟩ := apWriteVector_silent .camA ic A size s
    refine exists_emits_after ht hbus ?_
    obtain ⟨u, hu, hbus'⟩ := apWriteVector_silent .camB ic B size t
    refine exists_emits_after hu hbus' ?_
    exact emits_protocol p (by simp [StartOp.asked, Asked.modeWord])
      (locked_controlWord .targetC .targetC) (emitsQuiet_pure ()) u
  | triggerComputing op col ic dir target =>
    simp only [StartOp.exec, apTriggerComputing, Platform.setControlReg, Platform.setModeReg]
    exact emits_protocol p (by simp [StartOp.asked, Asked.modeWord])
      (locked_controlWord target target)
      ((emitsQuiet_apWaitingForComputing p 5).bind fun _ => emitsQuiet_pure ()) s
  | setValue col ic value =>
    simp only [StartOp.exec, apSetValue, Platform.setControlReg, Platform.setModeReg]
    refine exists_emits_after (store_run (offRegisters_setValue col ic) value s) rfl ?_
    exact emits_protocol p (by simp [StartOp.asked, Asked.modeWord])
      (locked_controlWord .targetC .targetC)
      ((emitsQuiet_startComputeCycles p).bind fun _ => emitsQuiet_waitIrq.bind fun _ =>
        (emitsQuiet_endComputeCycles p).bind fun _ => emitsQuiet_release p) _
  | setValueCamALeft factor =>
    simp only [StartOp.exec, apSetValueCamALeft, Platform.setControlReg, Platform.setModeReg]
    refine exists_emits_after (store_run (by decide) factor s) rfl ?_
    exact emits_protocol p (by simp [StartOp.asked, Asked.modeWord])
      (locked_controlWord .targetC .targetC) (emitsQuiet_waitRelease p) _
  | search key ic target =>
    simp only [StartOp.exec, apSearch, Platform.setControlReg, Platform.setModeReg]
    refine exists_emits_after (store_run (offRegisters_searchKey ic) key s) rfl ?_
    exact emits_protocol p (by simp [StartOp.asked, Asked.modeWord])
      (locked_controlWord target target)
      ((emitsQuiet_startComputeCycles p).bind fun _ => emitsQuiet_waitIrq.bind fun _ =>
        emitsQuiet_endComputeCycles p) _
  | verticalComputing | triggerVerticalComputingWWait | triggerVerticalComputingTarget => cases h

/-- The three vertical functions break it. -/
theorem startOp_breaks (op : StartOp) (h : op.isVertical = true) (s : St) :
    ∃ ops, Emits (op.exec p) s ops ∧ ¬ Protocol op.asked ops := by
  cases op with
  | verticalComputing op col ic V size =>
    simp only [StartOp.exec, apVerticalComputing, Platform.setModeReg]
    obtain ⟨t, ht, hbus⟩ := apWriteVector_silent col ic V size s
    refine exists_emits_after ht hbus ?_
    rw [← bind_pure_unit (x := p.writeControl _)]
    exact emits_not_protocol p _ (by decide) (emitsQuiet_pure ()) t
  | triggerVerticalComputingWWait op col ic =>
    simp only [StartOp.exec, apTriggerVerticalComputingWWait, Platform.setModeReg]
    exact emits_not_protocol p _ (by decide) (emitsQuiet_waitIrq.bind fun _ =>
      (emitsQuiet_release p).bind fun _ => emitsQuiet_tinyDelay 1) s
  | triggerVerticalComputingTarget op col ic target =>
    simp only [StartOp.exec, apTriggerVerticalComputingTarget, Platform.setControlReg,
      Platform.setModeReg]
    exact emits_not_protocol p _ ⟨by decide, trigger_start target, by decide⟩
      (emitsQuiet_waitIrq.bind fun _ => (emitsQuiet_release p).bind fun _ =>
        emitsQuiet_tinyDelay 1) s
  | _ => cases h

/-- **When a function keeps the protocol**: unless it is one of the three vertical ones,
from every state and whatever the platform does. -/
theorem startOp_protocol_iff (op : StartOp) (s : St) :
    ∃ ops, (finalState (op.exec p) s).bus = s.bus ++ ops ∧
      (Protocol op.asked ops ↔ op.isVertical = false) := by
  cases h : op.isVertical with
  | false =>
    obtain ⟨ops, hemits, hp⟩ := startOp_keeps p op h s
    exact ⟨ops, hemits, by simpa using hp⟩
  | true =>
    obtain ⟨ops, hemits, hp⟩ := startOp_breaks p op h s
    exact ⟨ops, hemits, by simpa using hp⟩

/-- The call that `accum` makes: the accesses of a vertical `ADD` on a processor at rest. -/
theorem triggerVertical_breaks :
    ∃ ops, (finalState ((StartOp.triggerVerticalComputingWWait .add .camA .left).exec
      (.reference 0)) (.rest fun _ => 0)).bus = ops ∧
        ¬ Protocol (StartOp.triggerVerticalComputingWWait .add .camA .left).asked ops :=
  startOp_breaks (.reference 0) _ rfl (.rest fun _ => 0)

end RocketAp.Hal
