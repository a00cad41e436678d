import RocketAp.Device.Transfers
import RocketAp.Hal.Vectors
import RocketAp.ProgramLogic.Footprint
import RocketAp.ProgramLogic.Shelves

/-!
# The vector functions as a store

`ap_write_vector` and `ap_read_vector` find the place of a column and a side alike: on the left
it is the column, and on the right one of `0x80004e00`, `0x80005200` and `0x80005600`, which are
no columns. The six places have no address in common, so the two functions are a store of six
vectors (`vectorCalls_refine`): every sequence of calls keeps what was written last, under every
column and side. That the places of the right sides are not the columns of that name does not
show, as long as no buffer is in the processor's window or in one of the three.
-/

namespace RocketAp.Hal

open ProgramLogic Device

/-- The places of the vectors. -/
def vectorSlots : Shelves (APCollunm × APInternalCollunm) where
  base k := finalAddr k.1 k.2
  size := apColSize
  apart := by
    rintro ⟨col, ic⟩ ⟨col', ic'⟩ h
    cases col <;> cases ic <;> cases col' <;> cases ic' <;> first | exact absurd rfl h | decide

/-- A call of one of the two functions. -/
inductive VectorCall where
  | write (col : APCollunm) (internalCol : APInternalCollunm) (V size : ℕ)
  | read (col : APCollunm) (internalCol : APInternalCollunm) (V size : ℕ)

namespace VectorCall

/-- The call. -/
def exec : VectorCall → Prog Unit
  | write col ic V size => apWriteVector col ic V size
  | read col ic V size => apReadVector col ic V size

/-- What it does to the store: a vector longer than a column is ignored. -/
def step (x : Store (APCollunm × APInternalCollunm)) :
    VectorCall → Store (APCollunm × APInternalCollunm)
  | write col ic V size =>
    if size > apColSize then x else x.put (col, ic) size fun i => x.rest (V + i)
  | read col ic V size => if size > apColSize then x else x.write V size (x.slot (col, ic))

end VectorCall

/-- The places of the right sides, in numbers. -/
theorem rightPlaces : finalAddr .camA .right = 0x80004e00 ∧ finalAddr .camB .right = 0x80005200 ∧
    finalAddr .camC .right = 0x80005600 := ⟨rfl, rfl, rfl⟩

/-- The buffer is clear of the processor's window and of the three places of the right sides. -/
structure ClearBuffer (V size : ℕ) : Prop where
  window : V + size ≤ apBaseAddr ∨ apEndAddr ≤ V
  places : ∀ col, V + size ≤ finalAddr col .right ∨ finalAddr col .right + apColSize ≤ V

/-- The call has such a buffer. -/
def VectorCall.Beside : VectorCall → Prop
  | write _ _ V size | read _ _ V size => ClearBuffer V size

variable {s t : St} {x : Store (APCollunm × APInternalCollunm)} {V size : ℕ}

theorem ClearBuffer.clear (h : ClearBuffer V size) : vectorSlots.Clear V size := by
  rintro i hi ⟨⟨col, ic⟩, hlo, hhi⟩
  replace hlo : finalAddr col ic ≤ V + i := hlo
  replace hhi : V + i < finalAddr col ic + apColSize := hhi
  have hwindow := h.window
  have hw := apWindow
  cases ic with
  | left =>
    have hge := (namedCam col .left).base_ge
    have hle := (namedCam col .left).base_le
    rw [finalAddr_left] at hlo hhi
    omega
  | right =>
    have hplace := h.places col
    omega

theorem ClearBuffer.offRegisters (h : ClearBuffer V size) : OffRegisters V size := by
  have hwindow := h.window
  have hw := apWindow
  unfold OffRegisters
  omega

/-- A copy between a place and a buffer beside it is a block copy. -/
theorem copyLoop_beside (m : Mem) (col : APCollunm) (ic : APInternalCollunm)
    (hV : vectorSlots.Clear V size) (hsize : size ≤ apColSize) :
    m.copyLoop (finalAddr col ic) V size = m.copy (finalAddr col ic) V size ∧
      m.copyLoop V (finalAddr col ic) size = m.copy V (finalAddr col ic) size := by
  have hbeside : finalAddr col ic + apColSize ≤ V ∨ V + size ≤ finalAddr col ic ∨ size = 0 :=
    hV.beside apColSize_pos (col, ic)
  rcases Nat.eq_zero_or_pos size with rfl | hpos
  · exact ⟨(Mem.copy_zero _ _ _).symm, (Mem.copy_zero _ _ _).symm⟩
  · exact ⟨Mem.copyLoop_eq_copy m (by omega), Mem.copyLoop_eq_copy m (by omega)⟩

/-- **A call is a step of the store.** -/
theorem vectorCall_step (c : VectorCall) (hc : c.Beside) (hs : vectorSlots.Shows s.mem x) :
    Ensures c.exec s fun _ t => vectorSlots.Shows t.mem (c.step x) := by
  cases c with
  | write col ic V size =>
    have hV := ClearBuffer.clear hc
    rw [VectorCall.exec, VectorCall.step]
    split
    · next h => exact .of_run (apWriteVector_large col ic V h s) hs
    · next h =>
      have hsize := Nat.not_lt.mp h
      refine .of_run (apWriteVector_run col ic V hsize s) ?_
      show vectorSlots.Shows (s.mem.copyLoop (finalAddr col ic) V size) _
      rw [(copyLoop_beside s.mem col ic hV hsize).1, Mem.copy,
        Mem.write_congr fun i hi => hs.read hV hi]
      exact hs.put (col, ic) hsize
  | read col ic V size =>
    have hV := ClearBuffer.clear hc
    have hoff := ClearBuffer.offRegisters hc
    rw [VectorCall.exec, VectorCall.step]
    split
    · next h => exact .of_run (apReadVector_large col ic V h s) hs
    · next h =>
      have hsize := Nat.not_lt.mp h
      refine .of_run (apReadVector_run col ic hoff hsize s) ?_
      show vectorSlots.Shows (s.mem.copyLoop V (finalAddr col ic) size) _
      have hslot : ∀ i < size, s.mem (finalAddr col ic + i) = x.slot (col, ic) i := fun i hi =>
        hs.slot (col, ic) i (Nat.lt_of_lt_of_le hi hsize)
      rw [(copyLoop_beside s.mem col ic hV hsize).2, Mem.copy, Mem.write_congr hslot]
      exact hs.write hV

theorem vectorCalls_shows {calls : List VectorCall} (hc : ∀ c ∈ calls, c.Beside)
    (hs : vectorSlots.Shows s.mem x) : Ensures (calls.mapM VectorCall.exec) s fun _ t =>
      vectorSlots.Shows t.mem (calls.foldl VectorCall.step x) := by
  induction calls generalizing s x with
  | nil => exact .pure hs
  | cons c calls ih =>
    rw [List.forall_mem_cons] at hc
    exact ensures_mapM_cons.mpr ((vectorCall_step c hc.1 hs).mono fun _ _ ht => ih hc.2 ht)

/-- **The vector functions are a store of six vectors**, the three left columns and the three
places of the right sides. Every sequence of calls whose buffers are clear of the processor's
window and of these places returns, and leaves in memory what the calls, one after the other,
make of the store that memory was. -/
theorem vectorCalls_refine {calls : List VectorCall} (hc : ∀ c ∈ calls, c.Beside) (s : St) :
    Ensures (calls.mapM VectorCall.exec) s fun _ t =>
      vectorSlots.Shows t.mem (calls.foldl VectorCall.step (vectorSlots.store s.mem)) :=
  vectorCalls_shows hc (vectorSlots.shows_store s.mem)

/-- A buffer below the window is clear of all of it. -/
theorem ClearBuffer.low (h : V + size ≤ apBaseAddr) : ClearBuffer V size := by
  refine ⟨.inl h, fun col => .inl ?_⟩
  have hright := finalAddr_right col
  have hw := apWindow
  omega

/-- There is room between the places. -/
theorem ClearBuffer.between : ClearBuffer 0x80005000 512 :=
  ⟨.inr (by decide), fun col => by cases col <;> decide⟩

/-- Vectors of two sizes on both sides of `A`, one of them too long, read back into two buffers. -/
theorem vectorCalls_refine_both :
    Ensures ([.write .camA .left 0x80001000 512, .write .camA .right 0x80001200 100,
        .write .camA .left 0x80001000 513, .read .camA .right 0x80005000 512,
        .read .camA .left 0x80002000 7].mapM VectorCall.exec) (.rest someMem) fun _ t =>
      vectorSlots.Shows t.mem ([.write .camA .left 0x80001000 512,
        .write .camA .right 0x80001200 100, .write .camA .left 0x80001000 513,
        .read .camA .right 0x80005000 512, .read .camA .left 0x80002000 7].foldl VectorCall.step
          (vectorSlots.store (St.rest someMem).mem)) := by
  refine vectorCalls_refine ?_ _
  repeat' rw [List.forall_mem_cons]
  exact ⟨.low (by decide), .low (by decide), .low (by decide), .between, .low (by decide), nofun⟩

end RocketAp.Hal
