import RocketAp.Hal.ColumnMachine

/-!
# Two documented processors

On two processors that do what is documented what the firmware is made of leaves one memory,
whatever they do besides.
-/

namespace RocketAp.Hal

open ProgramLogic Device

variable {p q : Platform}

/-- Both hold one memory, and no reset is on. -/
def SameMemory (s t : St) : Prop := ∃ m, Holds s m ∧ Holds t m

/-- Two programs that change nothing but the records. -/
theorem sameMemory_of_keeps {α : Type} {c c' : Prog α} (a : Mem → α)
    (h : ∀ s m, Holds s m → ∃ t, c s = .ok (a m) t ∧ Holds t m)
    (h' : ∀ s m, Holds s m → ∃ t, c' s = .ok (a m) t ∧ Holds t m) :
    Simulates SameMemory c c' := by
  rintro s t ⟨m, hs, ht⟩
  obtain ⟨s', hrun, hs'⟩ := h s m hs
  obtain ⟨t', hrun', ht'⟩ := h' t m ht
  rw [hrun, hrun']
  exact .ok _ ⟨m, hs', ht'⟩

/-- Programs that write memory alike. -/
theorem sameMemory_of_refines {α : Type} {c c' : Prog α} {n : ColProg α}
    (h : Simulates Holds c n) (h' : Simulates Holds c' n) : Simulates SameMemory c c' := h.join h'

theorem memset_sameMemory (target : ℕ) (v : UInt8) (bytes : ℕ) :
    Simulates SameMemory (memset target v bytes) (memset target v bytes) := by
  rintro s t ⟨m, hs, ht⟩
  rw [memset, memset]
  split
  · exact .ok () ⟨m.fill target v bytes, ⟨congrArg (·.fill target v bytes) hs.mem, hs.noReset⟩,
      ⟨congrArg (·.fill target v bytes) ht.mem, ht.noReset⟩⟩
  · exact .error _ ⟨m, hs, ht⟩

theorem storeFixed_sameMemory (a : ℕ) (v : UInt8) :
    Simulates SameMemory (storeFixed a v) (storeFixed a v) :=
  (sameMemory_of_refines (store_refines a v) (store_refines a v)).bind fun _ =>
    sameMemory_of_keeps (fun _ => ()) (fun _ _ h => ⟨_, rfl, h.mem, h.noReset⟩)
      fun _ _ h => ⟨_, rfl, h.mem, h.noReset⟩

theorem readVec_sameMemory (hrv : q.rvMgmt = p.rvMgmt) (v : RvVec) (i : ℕ) :
    Simulates SameMemory (p.readVec v i) (q.readVec v i) := by
  have haddr : q.rvAddr v = p.rvAddr v := by cases v <;> simp only [Platform.rvAddr, hrv]
  rintro s t ⟨m, hs, ht⟩
  have hp : p.readVec v i s = .ok (m (p.rvAddr v + i))
      { s with reads := s.reads ++ [.elem v i] } := by
    rw [← hs.mem]
    rfl
  have hq : q.readVec v i t = .ok (m (p.rvAddr v + i))
      { t with reads := t.reads ++ [.elem v i] } := by
    rw [← ht.mem, ← haddr]
    rfl
  rw [hp, hq]
  exact .ok _ ⟨m, ⟨hs.mem, hs.noReset⟩, ⟨ht.mem, ht.noReset⟩⟩

/-- The operation that `ap_computing` starts, and its end. -/
theorem computeTimed_refines (hp : Documented p) (op : APOperations)
    (internalCol : APInternalCollunm) (A B size : ℕ) :
    Simulates Holds (computeTimed p op internalCol A B size)
      (HalCall.meaning (.start (.computing op internalCol .horizontal A B size))) := by
  rw [computeTimed, apComputing, HalCall.meaning]
  simp only [StartOp.operands, bind_assoc, pure_bind]
  refine (vector_refines _ _ _).bind fun _ => (vector_refines _ _ _).bind fun _ => ?_
  refine timedHandshake_refines hp rfl noReset_lock ?_ ?_
  · exact encodes_named rfl
  · exact endComputeCycles_refines (release_refines hp)

theorem documented_agreement (hp : Documented p) (hq : Documented q) (hrv : q.rvMgmt = p.rvMgmt) :
    Agreement SameMemory (fun _ => SameMemory) p q where
  rvMgmt := hrv
  load a := sameMemory_of_refines (load_refines a) (load_refines a)
  store a v := sameMemory_of_refines (store_refines a v) (store_refines a v)
  storeFixed := storeFixed_sameMemory
  memcpy target src bytes :=
    sameMemory_of_refines (memcpy_refines target src bytes) (memcpy_refines target src bytes)
  memset := memset_sameMemory
  readVec := readVec_sameMemory hrv
  startComputeCycles := sameMemory_of_keeps (fun _ => ()) (fun _ _ h => ⟨_, rfl, h.mem, h.noReset⟩)
    fun _ _ h => ⟨_, rfl, h.mem, h.noReset⟩
  endComputeCycles := sameMemory_of_keeps (fun _ => ()) (fun _ _ h => ⟨_, rfl, h.mem, h.noReset⟩)
    fun _ _ h => ⟨_, rfl, h.mem, h.noReset⟩
  writeMode w := sameMemory_of_keeps (fun _ => ()) (fun _ _ h => ⟨_, rfl, h.mode hp w⟩)
    fun _ _ h => ⟨_, rfl, h.mode hq w⟩
  call _ hc := sameMemory_of_refines (call_refines hp hc.horizontal) (call_refines hq hc.horizontal)
  computeTimed op internalCol A B size := sameMemory_of_refines
    (computeTimed_refines hp op internalCol A B size)
    (computeTimed_refines hq op internalCol A B size)

end RocketAp.Hal
