import RocketAp.Hal.Settling
import RocketAp.Hal.Unread

/-!
# Runs of the layer

On a documented processor the layer is the machine of columns: a run of calls does to memory what
the calls mean, and stops exactly when that does (`calls_refine`). So a run depends on nothing but
what its calls read and changes nothing but what they write (`calls_local`), and calls of which
neither writes where the other reads or writes may be reordered (`calls_reorder`).

The calls are those that wait for what they start and load nothing from the registers
(`HalCall.Proper`), and they start with nothing running (`AtRest`): a result is in its column when
the interrupt has been seen, and a register shows in memory nowhere. What memory holds at the
registers' addresses does not matter.
-/

namespace RocketAp.Hal

open ProgramLogic Device

/-! ### Calls that are over when they return -/

/-- No reset is on, and no operation is running. -/
structure AtRest (s : St) : Prop where
  noReset : noReset s.control
  settled : s.Settled

/-- A call that waits for what it starts, and loads nothing from the registers. -/
structure HalCall.Proper (c : HalCall) : Prop where
  waits : c.Waits
  loaded : ∀ b ∈ c.loaded, OffRegisters b.1 b.2

/-- The memory but for the registers is the machine's, and the processor is at rest. -/
structure Rests (s : St) (m : Mem) : Prop extends AtRest s where
  mem : ∀ a ∉ registers, s.mem a = m a

theorem registers_not_columns : ∀ a ∈ registers, ¬ InColumns a := fun _ ha hin =>
  Nat.not_lt.mpr ha.1 hin.2

theorem notMem_registers {bs : List Block} (h : ∀ b ∈ bs, OffRegisters b.1 b.2) :
    ∀ a ∈ covered bs, a ∉ registers := by
  rintro a ⟨b, hb, hlo, hhi⟩
  obtain ⟨i, rfl⟩ := Nat.exists_eq_add_of_le hlo
  exact (h b hb).notMem (by omega)

variable {p q : Platform} {s t : St}

/-- What memory holds at the registers' addresses does not matter. -/
theorem call_offRegisters {c : HalCall} (hc : c.Proper) :
    Simulates (Beside registers) (c.exec p) (c.exec p) :=
  halCall_beside registers_not_columns c (notMem_registers hc.loaded)

/-- A call does what it means. -/
theorem call_rests (hp : Documented p) {c : HalCall} (hc : c.Proper) :
    Simulates Rests (c.exec p) c.meaning := by
  intro s m h
  have hs : Beside registers s { s with mem := m } := .of_mem fun a ha => (h.mem a ha).symm
  have hrun := (call_offRegisters (p := p) hc s _ hs).trans
    (call_refines hp hc.waits.horizontal { s with mem := m } m ⟨rfl, h.noReset⟩)
  have hend := call_settles hp.triggers hc.waits.awaits
  -- the state in between has the memory of the machine
  have hrests : ∀ (s' : St) (m' : Mem),
      (∃ u, Beside registers s' u ∧ Holds u m') ∧ s'.Settled ∧ True → Rests s' m' := by
    rintro s' m' ⟨⟨u, hu, hm'⟩, hs', -⟩
    refine ⟨⟨hu.control ▸ hm'.noReset, hs'⟩, fun a ha => ?_⟩
    rw [← hu.outside a ha, hm'.mem]
  exact (hrun.guard hend h.settled .any trivial).mono hrests fun _ => hrests

/-- A product of two columns is added to a third. -/
def scaleAdd : List HalCall :=
  [.apMemcpy Cam.b0.base 0x80001000 512, .start (.setValueCamALeft 3),
    .start (.triggerComputingWWait .mult .horizontal .left),
    .start (.triggerComputingWWaitTargetA .addD .horizontal 0b011), .apFlushC0]

theorem scaleAdd_proper : ∀ c ∈ scaleAdd, c.Proper := by
  simp only [scaleAdd, List.forall_mem_cons]
  exact ⟨⟨trivial, by decide⟩, ⟨rfl, by decide⟩, ⟨rfl, by decide⟩, ⟨rfl, by decide⟩,
    ⟨trivial, by decide⟩, nofun⟩

/-- A proper call reads nothing from the registers, the columns included. -/
theorem HalCall.Proper.reads {c : HalCall} (hc : c.Proper) :
    ∀ a ∈ covered c.reads, a ∉ registers := by
  refine notMem_registers fun b hb => ?_
  have hloaded := hc.loaded
  have hcam : ∀ c : Cam, ∀ n ≤ apColSize, OffRegisters c.base n := fun c n hn => by
    have hle := c.base_le
    unfold OffRegisters
    omega
  cases c with
  | start op =>
    obtain hsrc | hop := List.mem_append.mp hb
    · cases op with
      | computing => exact hc.waits.elim
      | _ => cases hsrc
    · rw [Operation.reads] at hop
      split at hop <;> simp only [List.mem_cons, List.not_mem_nil, or_false] at hop
      · exact hop ▸ hcam _ 1 (by decide)
      · obtain rfl | rfl := hop
        · exact hcam _ apColSize (Nat.le_refl _)
        · exact hcam _ 1 (by decide)
      · obtain rfl | rfl := hop <;> exact hcam _ apColSize (Nat.le_refl _)
      · exact hop ▸ hcam _ apColSize (Nat.le_refl _)
      · obtain rfl | rfl := hop <;> exact hcam _ apColSize (Nat.le_refl _)
  | _ => exact hloaded b hb

/-- **A run is local.** On two processors that do what is documented, from states at rest that
hold the same in the blocks that the calls read, a run of calls that wait for what they start and
load nothing from the registers does the same: it returns on both or stops on both for one
reason, it changes nothing but the blocks that the calls write, what it has written is the same,
and the processors are at rest again. -/
theorem calls_local (hp : Documented p) (hq : Documented q) {calls : List HalCall}
    (hc : ∀ c ∈ calls, c.Proper) (hs : AtRest s) (ht : AtRest t)
    (hst : ∀ a ∈ covered (calls.flatMap HalCall.reads), a ∉ registers → s.mem a = t.mem a) :
    Agrees
      (fun s' t' => Moved (covered (calls.flatMap HalCall.writes)) s.mem t.mem s'.mem t'.mem ∧
        AtRest s' ∧ AtRest t')
      (fun _ s' t' => Moved (covered (calls.flatMap HalCall.writes)) s.mem t.mem s'.mem t'.mem ∧
        AtRest s' ∧ AtRest t')
      (calls.mapM (HalCall.exec p) s) (calls.mapM (HalCall.exec q) t) := by
  have hread : Set.EqOn s.mem t.mem (covered (calls.flatMap HalCall.reads)) := by
    intro a ha
    refine hst a ha ?_
    obtain ⟨b, hb, hab⟩ := ha
    obtain ⟨c, hmem, hb⟩ := List.mem_flatMap.mp hb
    exact (hc c hmem).reads a ⟨b, hb, hab⟩
  have hp' : Simulates Holds (calls.mapM (HalCall.exec p)) (calls.mapM HalCall.meaning) :=
    .mapM fun c h => call_refines hp (hc c h).waits.horizontal
  have hq' : Simulates Holds (calls.mapM (HalCall.exec q)) (calls.mapM HalCall.meaning) :=
    .mapM fun c h => call_refines hq (hc c h).waits.horizontal
  have hsp : Settles St.Settled (calls.mapM (HalCall.exec p)) :=
    .mapM fun c h => call_settles hp.triggers (hc c h).waits.awaits
  have hsq : Settles St.Settled (calls.mapM (HalCall.exec q)) :=
    .mapM fun c h => call_settles hq.triggers (hc c h).waits.awaits
  have hms := hp' s s.mem ⟨rfl, hs.noReset⟩
  have hmt := hq' t t.mem ⟨rfl, ht.noReset⟩
  have htouch := calls_touch calls s.mem t.mem hread
  generalize hrs : calls.mapM (HalCall.exec p) s = rs, calls.mapM HalCall.meaning s.mem = ms at *
  generalize hrt : calls.mapM (HalCall.exec q) t = rt, calls.mapM HalCall.meaning t.mem = mt at *
  cases htouch with
  | ok vs hmoved =>
    cases hms with
    | ok _ hs' =>
      cases hmt with
      | ok _ ht' =>
        exact .ok vs ⟨by rw [hs'.mem, ht'.mem]; exact hmoved,
          ⟨hs'.noReset, hsp.ok hs.settled hrs⟩, ⟨ht'.noReset, hsq.ok ht.settled hrt⟩⟩
  | error e hmoved =>
    cases hms with
    | error _ hs' =>
      cases hmt with
      | error _ ht' =>
        exact .error e ⟨by rw [hs'.mem, ht'.mem]; exact hmoved,
          ⟨hs'.noReset, hsp.error hs.settled hrs⟩, ⟨ht'.noReset, hsq.error ht.settled hrt⟩⟩

theorem atRest_rest (m : Mem) : AtRest (.rest m) := ⟨noReset_zero, fun _ => nofun⟩

/-- A product added to a third column, where memory differs in a byte that no call reads. -/
theorem calls_local_scaleAdd : Agrees
    (fun s' t' => Moved (covered (scaleAdd.flatMap HalCall.writes)) someMem
      (someMem.store 0x80002000 7) s'.mem t'.mem ∧ AtRest s' ∧ AtRest t')
    (fun _ s' t' => Moved (covered (scaleAdd.flatMap HalCall.writes)) someMem
      (someMem.store 0x80002000 7) s'.mem t'.mem ∧ AtRest s' ∧ AtRest t')
    (scaleAdd.mapM (HalCall.exec (.reference 4)) (.rest someMem))
    (scaleAdd.mapM (HalCall.exec (.reference 2)) (.rest (someMem.store 0x80002000 7))) := by
  have hapart : AllApart (scaleAdd.flatMap HalCall.reads) [(0x80002000, 1)] := by decide
  refine calls_local (reference_documented 4) (reference_documented 2) scaleAdd_proper
    (atRest_rest _) (atRest_rest _) fun a ha _ => (Mem.store_of_ne _ _ ?_).symm
  rintro rfl
  exact hapart.disjoint.notMem_of_mem_left ha (mem_covered_singleton.mpr ⟨by decide, by decide⟩)

/-! ### Runs in another order -/

/-- Two states at rest with the same memory, but for the registers' addresses. -/
structure Alike (s t : St) : Prop where
  mem : ∀ a ∉ registers, t.mem a = s.mem a
  left : AtRest s
  right : AtRest t

/-- A run ends with a memory exactly when its meaning does. -/
theorem ensures_rests_iff (hp : Documented p) {calls : List HalCall}
    (hc : ∀ c ∈ calls, c.Proper) {m : Mem} (hs : Rests s m) (m' : Mem) :
    Ensures (calls.mapM (HalCall.exec p)) s (fun _ t => Rests t m') ↔
      Ensures (calls.mapM HalCall.meaning) m fun _ n => ∀ a ∉ registers, n a = m' a := by
  have hsim : Simulates Rests (calls.mapM (HalCall.exec p)) (calls.mapM HalCall.meaning) :=
    .mapM fun c h => call_rests hp (hc c h)
  refine hsim.ensures_iff hs fun _ u n hu => ?_
  exact ⟨fun h a ha => (hu.mem a ha).symm.trans (h.mem a ha),
    fun h => ⟨hu.toAtRest, fun a ha => (hu.mem a ha).trans (h a ha)⟩⟩

/-- **Independent calls may be reordered.** Of a list of calls that wait for what they start and
load nothing from the registers, and the list with calls moved past others that are independent
of them, run on documented processors from states alike, the one returns at rest with a memory
exactly when the other does. -/
theorem calls_reorder (hp : Documented p) (hq : Documented q) {calls calls' : List HalCall}
    (hc : ∀ c ∈ calls, c.Proper) (h : Reorders Independent calls calls') (hst : Alike s t)
    (m : Mem) :
    Ensures (calls.mapM (HalCall.exec p)) s (fun _ u => Rests u m) ↔
      Ensures (calls'.mapM (HalCall.exec q)) t fun _ u => Rests u m := by
  have hc' : ∀ c ∈ calls', c.Proper := fun c hmem => hc c (h.perm.mem_iff.mpr hmem)
  have hs : Rests s s.mem := ⟨hst.left, fun _ _ => rfl⟩
  have ht : Rests t s.mem := ⟨hst.right, hst.mem⟩
  rw [ensures_rests_iff hp hc hs, ensures_rests_iff hq hc' ht]
  exact h.ensures_iff (Q := fun n => ∀ a ∉ registers, n a = m a) (fun _ _ => .symm)
    fun _ _ => Independent.commutes

/-- The next operand may be loaded before the product, or after it. -/
theorem calls_reorder_load :
    Ensures ([.start (.triggerComputingWWait .mult .horizontal .left),
        .apMemcpy Cam.a1.base 0x80001000 512].mapM (HalCall.exec (.reference 4))) (.rest someMem)
      (fun _ u => Rests u (someMem.copy Cam.a1.base 0x80001000 512)) ↔
    Ensures ([.apMemcpy Cam.a1.base 0x80001000 512,
        .start (.triggerComputingWWait .mult .horizontal .left)].mapM
          (HalCall.exec (.reference 2))) (.rest someMem)
      fun _ u => Rests u (someMem.copy Cam.a1.base 0x80001000 512) := by
  have hproper : ∀ c ∈ [HalCall.start (.triggerComputingWWait .mult .horizontal .left),
      .apMemcpy Cam.a1.base 0x80001000 512], c.Proper := by
    simp only [List.forall_mem_cons]
    exact ⟨⟨rfl, by decide⟩, ⟨trivial, by decide⟩, nofun⟩
  exact calls_reorder (reference_documented 4) (reference_documented 2) hproper
    (.single (.swap [] [] (by decide))) ⟨fun _ _ => rfl, atRest_rest _, atRest_rest _⟩ _

end RocketAp.Hal
