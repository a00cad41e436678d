import RocketAp.Hal.ColumnMachine
import RocketAp.ProgramLogic.Footprint

/-!
# What a call reads and writes

The blocks of memory that a call of the layer reads and those that it writes, columns
included, are lists that a program can compare. They are all there is to what a call means: it
depends on nothing else in memory and changes nothing else (`call_touches`), and two calls of
which neither writes where the other reads or writes commute (`Independent.commutes`).
-/

namespace RocketAp.Hal

open ProgramLogic Device

/-! ### Blocks -/

/-- The block of a column. -/
def camBlock (c : Cam) : Block := (c.base, apColSize)

/-- The block of a vector, unless it is too long. -/
def vectorBlocks (a size : ℕ) : List Block := if size > apColSize then [] else [(a, size)]

/-- The bytes of a word. -/
def wordBlocks (a : ℕ) : List Block :=
  [(wordByte a 0, 1), (wordByte a 1, 1), (wordByte a 2, 1), (wordByte a 3, 1)]

namespace Operation

/-- What the operation reads. -/
def reads (o : Operation) : List Block :=
  match o.op with
  | .set => [((o.cam o.col).base, 1)]
  | .search => [camBlock (o.cam .camA), ((o.cam .camB).base, 1)]
  | .addD => [camBlock (o.cam .camA), camBlock (o.cam .camC)]
  | .not => [camBlock (o.cam .camA)]
  | _ => [camBlock (o.cam .camA), camBlock (o.cam .camB)]

/-- The column that the operation writes. -/
def writes (o : Operation) : Cam :=
  match o.op with
  | .set => o.cam o.col
  | _ => o.result

end Operation

/-- What a call reads before it starts its operation. -/
def StartOp.sources : StartOp → List Block
  | .computing _ _ _ A B size => vectorBlocks A size ++ vectorBlocks B size
  | _ => []

/-- What it stores before. -/
def StartOp.stores : StartOp → List Block
  | .computing _ ic _ _ _ size =>
    vectorBlocks (finalAddr .camA ic) size ++ vectorBlocks (finalAddr .camB ic) size
  | .setValue col ic _ => [(finalAddr col ic, 1)]
  | .setValueCamALeft _ => [(Cam.a0.base, 1)]
  | .search .. => [(Cam.b0.base, 1)]
  | _ => []

namespace HalCall

/-- What a call reads. -/
def reads : HalCall → List Block
  | .apWriteVector _ _ V size => vectorBlocks V size
  | .apReadVector col ic _ size => vectorBlocks (finalAddr col ic) size
  | .apReadResultVector ic _ size => vectorBlocks (finalAddr .camC ic) size
  | .apMemcpy _ src bytes => [(src, bytes)]
  | .apGetData addr => wordBlocks addr
  | .apGetDataTo _ src => wordBlocks src
  | .start op => op.sources ++ op.operation.reads
  | _ => []

/-- What a call writes. -/
def writes : HalCall → List Block
  | .warmupAp => [(apBaseAddr, apColSize * colQuant)]
  | .apFlushA1 => [camBlock .a1]
  | .apFlushB0 => [camBlock .b0]
  | .apFlushB1 => [camBlock .b1]
  | .apFlushC0 => [camBlock .c0]
  | .apFlushC1 => [camBlock .c1]
  | .apFlushCol col ic => [camBlock (namedCam col ic)]
  | .apWriteVector col ic _ size => vectorBlocks (finalAddr col ic) size
  | .apReadVector _ _ V size => vectorBlocks V size
  | .apReadResultVector _ V size => vectorBlocks V size
  | .apMemcpy target _ bytes => [(target, bytes)]
  | .apStoreData addr _ => wordBlocks addr
  | .apGetDataTo dest _ => [(dest, 1)]
  | .start op => op.stores ++ [camBlock op.operation.writes]
  | _ => []

end HalCall

/-- Neither call writes where the other reads or writes. -/
structure Independent (c d : HalCall) : Prop where
  left : AllApart c.writes d.reads
  right : AllApart d.writes c.reads
  both : AllApart c.writes d.writes

instance (c d : HalCall) : Decidable (Independent c d) :=
  decidable_of_iff (AllApart c.writes d.reads ∧ AllApart d.writes c.reads ∧
    AllApart c.writes d.writes) ⟨fun ⟨h₁, h₂, h₃⟩ => ⟨h₁, h₂, h₃⟩, fun ⟨h₁, h₂, h₃⟩ => ⟨h₁, h₂, h₃⟩⟩

theorem Independent.symm {c d : HalCall} (h : Independent c d) : Independent d c :=
  ⟨h.right, h.left, h.both.symm⟩

/-- A product on the left, and a flush on the right. -/
example : Independent (.start (.triggerComputingWWait .mult .horizontal .left)) .apFlushA1 := by
  decide

/-! ### Programs on memory -/

variable {D W : Set ℕ} {m m' : Mem}

theorem peek_touches {a : ℕ} (ha : a ∈ D) : Touches D W (peek a) := by
  intro m m' hm
  rw [peek, peek, hm ha]
  exact .ok _ (.refl m m')

theorem poke_touches {a : ℕ} (v : UInt8) (ha : a ∈ W) : Touches D W (poke a v) := by
  intro m m' _
  rw [poke, poke]
  split
  · refine .ok () ⟨fun x hx => ?_, fun x hx => ?_, fun x => ?_⟩
    · exact Mem.store_of_ne m v fun h => hx (h ▸ ha)
    · exact Mem.store_of_ne m' v fun h => hx (h ▸ ha)
    · by_cases hx : x = a
      · exact .inl (by rw [hx, Mem.store_self, Mem.store_self])
      · exact .inr ⟨Mem.store_of_ne m v hx, Mem.store_of_ne m' v hx⟩
  · exact .error _ (.refl m m')

theorem wordByte_mem (a : ℕ) : ∀ i < 4, wordByte a i ∈ covered (wordBlocks a) := fun i hi =>
  ⟨(wordByte a i, 1), by interval_cases i <;> simp [wordBlocks], Nat.le_refl _, Nat.lt_add_one _⟩

theorem peekWord_touches {a : ℕ} : Touches (covered (wordBlocks a)) W (peekWord a) := by
  exact (peek_touches (wordByte_mem a 0 (by decide))).bind fun _ =>
    (peek_touches (wordByte_mem a 1 (by decide))).bind fun _ =>
      (peek_touches (wordByte_mem a 2 (by decide))).bind fun _ =>
        (peek_touches (wordByte_mem a 3 (by decide))).bind fun _ => .pure _

theorem pokeWord_touches {a : ℕ} (w : UInt32) :
    Touches D (covered (wordBlocks a)) (pokeWord a w) := by
  exact (poke_touches _ (wordByte_mem a 0 (by decide))).bind fun _ =>
    (poke_touches _ (wordByte_mem a 1 (by decide))).bind fun _ =>
      (poke_touches _ (wordByte_mem a 2 (by decide))).bind fun _ =>
        poke_touches _ (wordByte_mem a 3 (by decide))

theorem vector_touches (dst src size : ℕ) :
    Touches (covered (vectorBlocks src size)) (covered (vectorBlocks dst size))
      (vector dst src size) := by
  rw [vector, vectorBlocks, vectorBlocks]
  split
  · exact .pure ()
  · refine .forUpTo fun i hi => (peek_touches ?_).bind fun v => poke_touches v ?_
    · exact mem_covered_singleton.mpr ⟨by omega, by omega⟩
    · exact mem_covered_singleton.mpr ⟨by omega, by omega⟩

theorem copyBlock_touches (dst src n : ℕ) :
    Touches (covered [(src, n)]) (covered [(dst, n)]) (copyBlock dst src n) := by
  intro m m' hm
  rw [copyBlock, copyBlock]
  split
  · refine .ok () ⟨fun x hx => ?_, fun x hx => ?_, fun x => ?_⟩
    · exact Mem.copy_of_not_mem m (mt mem_covered_singleton.mpr hx)
    · exact Mem.copy_of_not_mem m' (mt mem_covered_singleton.mpr hx)
    · by_cases hx : dst ≤ x ∧ x < dst + n
      · obtain ⟨i, rfl⟩ := Nat.exists_eq_add_of_le hx.1
        have hi : i < n := by omega
        left
        rw [Mem.copy_at m dst src hi, Mem.copy_at m' dst src hi]
        exact hm (mem_covered_singleton.mpr ⟨by omega, by omega⟩)
      · exact .inr ⟨Mem.copy_of_not_mem m hx, Mem.copy_of_not_mem m' hx⟩
  · exact .error _ (.refl m m')

/-! ### Columns -/

theorem mem_camBlock {c : Cam} {a : ℕ} :
    a ∈ covered [camBlock c] ↔ c.base ≤ a ∧ a < c.base + apColSize := mem_covered_singleton

/-- A column that is set is set where it is. -/
theorem setCams_update_base (m : Mem) (c : Cam) (x : Column) (r : Fin apColSize) :
    setCams m (Function.update (camsOf m) c x) (c.base + r) = x r := by
  rw [setCams, locate_base]
  show Function.update (camsOf m) c x c r = x r
  rw [Function.update_self]

theorem setCams_update_of_not_mem (m : Mem) {c : Cam} (x : Column) {a : ℕ}
    (ha : a ∉ covered [camBlock c]) : setCams m (Function.update (camsOf m) c x) a = m a := by
  rw [setCams]
  split
  · next c' r hloc =>
    have haddr := eq_of_locate hloc
    have hne : c' ≠ c := by
      rintro rfl
      exact ha (mem_camBlock.mpr ⟨by omega, by omega⟩)
    rw [Function.update_of_ne hne, haddr]
    rfl
  · rfl

/-- A column computed from what is in `D`. -/
theorem onColumns_touches {c : Cam} {g : Cams → Column}
    (hg : ∀ m m', Set.EqOn m m' D → g (camsOf m) = g (camsOf m')) :
    Touches D (covered [camBlock c]) (onColumns fun cs => Function.update cs c (g cs)) := by
  intro m m' hm
  refine .ok () ⟨fun a ha => ?_, fun a ha => ?_, fun a => ?_⟩
  · exact setCams_update_of_not_mem m _ ha
  · exact setCams_update_of_not_mem m' _ ha
  · by_cases ha : a ∈ covered [camBlock c]
    · obtain ⟨r, rfl⟩ := Nat.exists_eq_add_of_le (mem_camBlock.mp ha).1
      have hr : r < apColSize := by
        have := (mem_camBlock.mp ha).2
        omega
      left
      exact (setCams_update_base m c _ ⟨r, hr⟩).trans
        ((congrFun (hg m m' hm) _).trans (setCams_update_base m' c _ ⟨r, hr⟩).symm)
    · exact .inr ⟨setCams_update_of_not_mem m _ ha, setCams_update_of_not_mem m' _ ha⟩

theorem zero_touches (c : Cam) : Touches D (covered [camBlock c]) (zero c) :=
  onColumns_touches fun _ _ _ => rfl

/-- All of them at once. -/
theorem warmup_touches : Touches D (covered [(apBaseAddr, apColSize * colQuant)])
    (onColumns fun _ _ _ => 0) := by
  have hall : ∀ (m : Mem) a, setCams m (fun _ _ => 0) a = if InColumns a then 0 else m a := by
    intro m a
    rw [setCams, locate]
    split_ifs <;> rfl
  have hmem : ∀ a, a ∈ covered [(apBaseAddr, apColSize * colQuant)] ↔ InColumns a := fun a =>
    mem_covered_singleton
  intro m m' _
  refine .ok () ⟨fun a ha => ?_, fun a ha => ?_, fun a => ?_⟩
  · rw [hall, if_neg (mt (hmem a).mpr ha)]
  · rw [hall, if_neg (mt (hmem a).mpr ha)]
  · rw [hall, hall]
    split
    · exact .inl rfl
    · exact .inr ⟨rfl, rfl⟩

/-- The blocks of a column decide it. -/
theorem camsOf_eq {c : Cam} {bs : List Block} (hm : Set.EqOn m m' (covered bs))
    (hc : camBlock c ∈ bs) (r : Fin apColSize) : camsOf m c r = camsOf m' c r :=
  hm ⟨camBlock c, hc, Nat.le_add_right _ _, Nat.add_lt_add_left r.isLt _⟩

/-- Its first byte decides its first row. -/
theorem camsOf_row0_eq {c : Cam} {bs : List Block} (hm : Set.EqOn m m' (covered bs))
    (hc : (c.base, 1) ∈ bs) : camsOf m c row0 = camsOf m' c row0 :=
  hm ⟨(c.base, 1), hc, Nat.le_refl _, Nat.lt_add_one _⟩

/-- An operation. -/
theorem operation_touches (o : Operation) :
    Touches (covered o.reads) (covered [camBlock o.writes]) (onColumns o.run) := by
  have hrun : o.run = fun cs => Function.update cs o.writes (o.run cs o.writes) := by
    funext cs
    cases hop : o.op <;> simp only [Operation.run, Operation.writes, hop, Function.update_self]
  rw [hrun]
  refine onColumns_touches fun m m' hm => funext fun r => ?_
  cases hop : o.op <;> simp only [Operation.reads, hop] at hm <;>
    simp only [Operation.run, Operation.writes, hop, Function.update_self, apUnitTestSw]
  case set => exact camsOf_row0_eq hm (by simp)
  case search => rw [camsOf_eq hm (by simp), camsOf_row0_eq hm (by simp)]
  case not => rw [camsOf_eq hm (by simp)]
  all_goals rw [camsOf_eq hm (by simp), camsOf_eq hm (by simp)]

/-! ### Calls -/

theorem operands_touches (op : StartOp) :
    Touches (covered op.sources) (covered op.stores) op.operands := by
  cases op with
  | computing op ic dir A B size =>
    have hA := vector_touches (finalAddr .camA ic) A size
    have hB := vector_touches (finalAddr .camB ic) B size
    exact (hA.mono (covered_mono (List.subset_append_left _ _))
      (covered_mono (List.subset_append_left _ _))).bind fun _ =>
        hB.mono (covered_mono (List.subset_append_right _ _))
          (covered_mono (List.subset_append_right _ _))
  | setValue => exact poke_touches _ (mem_covered_singleton.mpr ⟨Nat.le_refl _, Nat.lt_add_one _⟩)
  | setValueCamALeft | search =>
    exact poke_touches _ (mem_covered_singleton.mpr ⟨Nat.le_refl _, Nat.lt_add_one _⟩)
  | _ => exact .pure ()

/-- A call. -/
theorem call_touches (c : HalCall) : Touches (covered c.reads) (covered c.writes) c.meaning := by
  cases c with
  | warmupAp => exact warmup_touches
  | resetApEngine | resetApRegs | releaseApIf | tinyDelay | apIrqCheck | apWaitingForComputing =>
    exact .pure ()
  | apFlushA1 | apFlushB0 | apFlushB1 | apFlushC0 | apFlushC1 | apFlushCol => exact zero_touches _
  | apWriteVector | apReadVector | apReadResultVector => exact vector_touches _ _ _
  | apMemcpy => exact copyBlock_touches _ _ _
  | apStoreData => exact pokeWord_touches _
  | apGetData => exact peekWord_touches.bind fun _ => .pure ()
  | apGetDataTo dest src =>
    exact peekWord_touches.bind fun w =>
      poke_touches _ (mem_covered_singleton.mpr ⟨Nat.le_refl _, Nat.lt_add_one _⟩)
  | start op =>
    exact ((operands_touches op).mono (covered_mono (List.subset_append_left _ _))
      (covered_mono (List.subset_append_left _ _))).bind fun _ =>
        (operation_touches op.operation).mono (covered_mono (List.subset_append_right _ _))
          (covered_mono (List.subset_append_right _ _))

/-- Calls, one after the other. -/
theorem calls_touch (calls : List HalCall) :
    Touches (covered (calls.flatMap HalCall.reads)) (covered (calls.flatMap HalCall.writes))
      (calls.mapM HalCall.meaning) := by
  refine .mapM fun c hc => (call_touches c).mono (covered_mono ?_) (covered_mono ?_)
  · exact fun _ hb => List.mem_flatMap.mpr ⟨c, hc, hb⟩
  · exact fun _ hb => List.mem_flatMap.mpr ⟨c, hc, hb⟩

theorem Independent.commutes {c d : HalCall} (h : Independent c d) :
    Commutes HalCall.meaning c d := fun _ _ _ _ _ hc hd =>
  (call_touches c).swap (call_touches d) h.left.disjoint h.right.disjoint h.both.disjoint hc hd

end RocketAp.Hal
