import RocketAp.Hal.Effects
import RocketAp.Hal.Vectors

/-!
# Row 0

`ap_set_value` stores a byte in row `0` of a column for `SET` to copy, and `ap_search`
stores the key in row `0` of `B` for `SEARCH` to compare with. The column the processor
works on is chosen by `MODE`, and the address of the byte by arithmetic on the same
enumeration, where `RIGHT` is `0b111`: on the right `ap_set_value` stores past the columns
and `ap_search`, which asks whether `internal_col` is `1`, stores in `B_0`.

On the right the processor therefore works with what row `0` held before the call, and the
two functions do what they are for only when it held that byte already
(`apSearch_flags_iff`, `apSetValue_sets_iff`).
-/

namespace RocketAp.Hal

open ProgramLogic Device

/-- Row `0` of a column. -/
abbrev row0 : Fin apColSize := ⟨0, apColSize_pos⟩

variable {p : Platform}

/-! ### `ap_search` -/

/-- The columns after a search: the key is in `B_0`, and the columns compared are those of
the side asked for. -/
def searchedCams (key : UInt8) (internalCol : APInternalCollunm) (cs : Cams) : Cams :=
  let cs' := Function.update cs .b0 (Function.update (cs .b0) row0 key)
  Function.update cs' (namedCam .camC internalCol) fun r =>
    if cs' (namedCam .camA internalCol) r = cs' (namedCam .camB internalCol) row0 then 1 else 0

theorem apSearch_changed (hp : p.Triggers) (hr : p.Resets) (hop : p.RunsSearch) (key : UInt8)
    (internalCol : APInternalCollunm) (s : St) :
    Ensures (apSearch p key internalCol .targetC) s fun _ u =>
      Changed s u (searchedCams key internalCol s.cams) := by
  have ht : Triggered .search (modeWord internalCol.val 0 0 APOperations.search.val)
      (controlWord 1 0 1 0) := triggered_horizontal .search .camA internalCol
  have hside : ∀ c, selected (modeWord internalCol.val 0 0 APOperations.search.val) c =
      namedCam c internalCol := selected_modeWord .search .horizontal .camA internalCol
  rw [apSearch]
  simp only [searchKeyAddr]
  apply Ensures.bind (store_column .b0 (q := 0) (by decide) key s)
  rintro _ t ⟨hstore, -⟩
  refine timedHandshake_ensures hp hr (l := controlWord 1 0 0 0) (f := fun _ => p.endComputeCycles)
    rfl noReset_lock ht.ifState ht.trigger fun u hu => endComputeCycles_changed ?_
  have hres : resultCam (modeWord internalCol.val 0 0 APOperations.search.val)
      (controlWord 1 0 1 0) = namedCam .camC internalCol := hside .camC
  have hc := hstore.trans hu
  rw [hop _ _ _ ht, searchCams, hres, hside, hside, hstore.cams] at hc
  exact hc

/-- What the loop of `cpu_search_test` writes for an element. -/
def searchFlag (key x : UInt8) : UInt8 := if x = key then 1 else 0

/-- What `ap_search` is for: the flags are in `C` and the key in row `0` of `B`, on the side
asked for, and nothing else in the columns has changed. -/
structure Searched (key : UInt8) (internalCol : APInternalCollunm) (cs cs' : Cams) : Prop where
  flags : ∀ r, cs' (namedCam .camC internalCol) r =
    searchFlag key (cs (namedCam .camA internalCol) r)
  key : cs' (namedCam .camB internalCol) row0 = key
  frame : ∀ c r, c ≠ namedCam .camC internalCol → ¬ (c = namedCam .camB internalCol ∧ r = row0) →
    cs' c r = cs c r

/-- On the left the byte compared with is the key. -/
theorem searched_left (key : UInt8) (cs : Cams) :
    Searched key .left cs (searchedCams key .left cs) := by
  constructor
  · intro r
    simp [searchedCams, searchFlag, namedCam]
  · simp [searchedCams, namedCam]
  · intro c r hc hb
    simp only [searchedCams]
    rw [Function.update_of_ne hc]
    by_cases hcb : c = .b0
    · subst hcb
      have hr : r ≠ row0 := fun h => hb ⟨rfl, h⟩
      rw [Function.update_self, Function.update_of_ne hr]
    · rw [Function.update_of_ne hcb]

/-- On the right it is what row `0` of `B_1` held, and row `0` of `B_0` is overwritten. -/
theorem searched_right_iff (key : UInt8) (cs : Cams) :
    Searched key .right cs (searchedCams key .right cs) ↔
      cs .b1 row0 = key ∧ cs .b0 row0 = key := by
  constructor
  · intro h
    have hkey := h.key
    have hframe := h.frame .b0 row0 (by decide) (by decide)
    simp only [searchedCams, namedCam, decide_true] at hkey hframe
    rw [Function.update_of_ne (by decide), Function.update_of_ne (by decide)] at hkey
    rw [Function.update_of_ne (by decide), Function.update_self, Function.update_self] at hframe
    exact ⟨hkey, hframe.symm⟩
  · rintro ⟨h₁, h₀⟩
    have hsame : Function.update cs .b0 (Function.update (cs .b0) row0 key) = cs := by
      rw [← h₀, Function.update_eq_self, Function.update_eq_self]
    constructor
    · intro r
      simp only [searchedCams, hsame, namedCam, decide_true, Function.update_self, h₁]
      rfl
    · simp only [searchedCams, hsame, namedCam, decide_true]
      rw [Function.update_of_ne (by decide), h₁]
    · intro c r hc _
      simp only [searchedCams, hsame]
      rw [Function.update_of_ne hc]

/-- A search does what it is for when the columns it leaves are what they should be. -/
theorem apSearch_searched_iff (hp : p.Triggers) (hr : p.Resets) (hop : p.RunsSearch)
    (key : UInt8) (internalCol : APInternalCollunm) (s : St) :
    Ensures (apSearch p key internalCol .targetC) s (fun _ t =>
      Searched key internalCol s.cams t.cams) ↔
        Searched key internalCol s.cams (searchedCams key internalCol s.cams) := by
  obtain ⟨_, t, hrun, ht⟩ := apSearch_changed hp hr hop key internalCol s
  rw [← ht.cams]
  exact ensures_iff_of_run hrun

/-- **`ap_search`** does what it is for on the left, and on the right only when row `0` of
both sides of `B` held the key before. -/
theorem apSearch_flags_iff (hp : p.Triggers) (hr : p.Resets) (hop : p.RunsSearch) (key : UInt8)
    (internalCol : APInternalCollunm) (s : St) :
    Ensures (apSearch p key internalCol .targetC) s (fun _ t =>
      Searched key internalCol s.cams t.cams) ↔
      internalCol = .left ∨ (s.cams .b1 row0 = key ∧ s.cams .b0 row0 = key) := by
  rw [apSearch_searched_iff hp hr hop]
  cases internalCol with
  | left => exact iff_of_true (searched_left key s.cams) (Or.inl rfl)
  | right =>
    rw [searched_right_iff]
    simp

theorem apSearch_flags_left : Ensures (apSearch (.reference 3) 5 .left .targetC)
    (.rest fun a => a.toUInt8) fun _ t =>
      Searched 5 .left (St.rest fun a => a.toUInt8).cams t.cams :=
  (apSearch_flags_iff (Platform.reference_triggers 3) (Platform.reference_resets 3)
    (Platform.reference_runsSearch 3) 5 .left _).mpr (Or.inl rfl)

/-- On the right, with columns that are zero: row `0` of `B_1` does not hold the key. -/
theorem apSearch_right_misses : ¬ Ensures (apSearch (.reference 3) 5 .right .targetC)
    (.rest someMem) fun _ t => Searched 5 .right (St.rest someMem).cams t.cams := by
  rw [apSearch_searched_iff (Platform.reference_triggers 3) (Platform.reference_resets 3)
    (Platform.reference_runsSearch 3), searched_right_iff, cams_someMem]
  decide

/-! ### `ap_set_value` -/

/-- The byte that `SET` copies: the value on the left, and on the right what row `0` held. -/
def setByte (col : APCollunm) (internalCol : APInternalCollunm) (value : UInt8) (cs : Cams) :
    UInt8 :=
  if internalCol = .left then value else cs (namedCam col internalCol) row0

/-- The stored byte is row `0` of a left column, and no row of any column on the right. -/
theorem store_finalAddr (col : APCollunm) (internalCol : APInternalCollunm) (value : UInt8)
    (s : St) : Ensures (store (finalAddr col internalCol) value) s fun _ t =>
      t.cams (namedCam col internalCol) row0 = setByte col internalCol value s.cams ∧
        ∀ c, c ≠ namedCam col internalCol → t.cams c = s.cams c := by
  cases internalCol with
  | left =>
    rw [finalAddr_left]
    apply (store_column (namedCam col .left) (q := 0) (by decide) value s).mono
    rintro _ t ⟨ht, -⟩
    rw [ht.cams]
    refine ⟨?_, fun c hc => Function.update_of_ne hc _ _⟩
    rw [Function.update_self, Function.update_self]
    rfl
  | right =>
    have hge := finalAddr_right col
    refine .of_run (store_run (Or.inr (Or.inr hge)) value s) ?_
    have hcams := camsOf_store_apart s.mem value (Or.inr hge)
    exact ⟨congrFun (congrFun hcams _) _, fun c _ => congrFun hcams c⟩

/-- **`ap_set_value`** fills the column it names and leaves the others. -/
theorem apSetValue_fills (hp : p.Triggers) (hr : p.Resets) (hop : p.RunsSet) (col : APCollunm)
    (internalCol : APInternalCollunm) (value : UInt8) (s : St) :
    Ensures (apSetValue p col internalCol value) s fun _ u =>
      u.cams = Function.update s.cams (namedCam col internalCol) fun _ =>
        setByte col internalCol value s.cams := by
  have ht : Triggered .set (modeWord internalCol.val col.val 0 APOperations.set.val)
      (controlWord 1 0 1 0) := triggered_horizontal .set col internalCol
  have hcol : byte 2 (modeWord internalCol.val col.val 0 APOperations.set.val) =
      col.val.toUInt8 := (byte_modeWord_val internalCol col .horizontal .set).2.1
  have hside : selected (modeWord internalCol.val col.val 0 APOperations.set.val) col =
      namedCam col internalCol := selected_modeWord .set .horizontal col internalCol col
  rw [apSetValue]
  simp only [setValueAddr]
  apply Ensures.bind (store_finalAddr col internalCol value s)
  rintro _ t ⟨hseed, hothers⟩
  apply (timedHandshake_changed hp hr (l := controlWord 1 0 0 0) rfl noReset_lock ht.ifState
    ht.trigger).mono
  intro _ u hu
  rw [hu.cams, hop col _ _ _ ht hcol, setRowsCams, hside]
  funext c
  by_cases hc : c = namedCam col internalCol
  · subst hc
    rw [Function.update_self, Function.update_self, hseed]
  · rw [Function.update_of_ne hc, Function.update_of_ne hc, hothers c hc]

/-- What `ap_set_value` is for: the column named holds the value in every row, and the other
columns are as they were. -/
structure SetsNamed (col : APCollunm) (internalCol : APInternalCollunm) (value : UInt8)
    (cs cs' : Cams) : Prop where
  rows : ∀ r, cs' (namedCam col internalCol) r = value
  others : ∀ c, c ≠ namedCam col internalCol → cs' c = cs c

theorem setsNamed_iff (col : APCollunm) (internalCol : APInternalCollunm) (value : UInt8)
    (cs : Cams) : SetsNamed col internalCol value cs
      (Function.update cs (namedCam col internalCol) fun _ => setByte col internalCol value cs) ↔
        internalCol = .left ∨ cs (namedCam col internalCol) row0 = value := by
  have hbyte : setByte col internalCol value cs = value ↔
      internalCol = .left ∨ cs (namedCam col internalCol) row0 = value := by
    cases internalCol <;> simp [setByte]
  rw [← hbyte]
  constructor
  · intro h
    have hrow := h.rows row0
    rwa [Function.update_self] at hrow
  · intro h
    refine ⟨fun r => ?_, fun c hc => Function.update_of_ne hc _ _⟩
    rw [Function.update_self, h]

/-- A call does what it is for on the left, and on the right where row `0` held the value. -/
theorem apSetValue_setsNamed_iff (hp : p.Triggers) (hr : p.Resets) (hop : p.RunsSet)
    (col : APCollunm) (internalCol : APInternalCollunm) (value : UInt8) (s : St) :
    Ensures (apSetValue p col internalCol value) s (fun _ t =>
      SetsNamed col internalCol value s.cams t.cams) ↔
        internalCol = .left ∨ s.cams (namedCam col internalCol) row0 = value := by
  obtain ⟨_, t, hrun, ht⟩ := apSetValue_fills hp hr hop col internalCol value s
  rw [← setsNamed_iff col internalCol value s.cams, ← ht]
  exact ensures_iff_of_run hrun

/-! ### Sequences of `ap_set_value` -/

/-- A call of `ap_set_value`. -/
structure SetCall where
  col : APCollunm
  internalCol : APInternalCollunm
  value : UInt8

/-- Calls of `ap_set_value`, one after the other. -/
def setValues (p : Platform) : List SetCall → Prog Unit
  | [] => pure ()
  | x :: xs => do
    apSetValue p x.col x.internalCol x.value
    setValues p xs

/-- The value last set for a column, if one was. -/
def lastSet : List SetCall → Cam → Option UInt8
  | [], _ => none
  | x :: xs, c =>
    (lastSet xs c).or (if c = namedCam x.col x.internalCol then some x.value else none)

/-- Row `0` of a column on the right is never written, so it seeds every call that names the
column. -/
def setColumn (cs : Cams) (c : Cam) : Option UInt8 → Column
  | none => cs c
  | some v => fun _ => if c.right then cs c row0 else v

theorem setValues_run (hp : p.Triggers) (hr : p.Resets) (hop : p.RunsSet) (xs : List SetCall)
    (s : St) : Ensures (setValues p xs) s fun _ t =>
      ∀ c, t.cams c = setColumn s.cams c (lastSet xs c) := by
  induction xs generalizing s with
  | nil => exact .pure fun _ => rfl
  | cons x xs ih =>
    apply Ensures.bind (apSetValue_fills hp hr hop x.col x.internalCol x.value s)
    intro _ t ht
    apply (ih t).mono
    intro _ u hu c
    rw [hu c, lastSet]
    by_cases hc : c = namedCam x.col x.internalCol
    · have htc : t.cams c = fun _ => setByte x.col x.internalCol x.value s.cams := by
        rw [ht, hc, Function.update_self]
      subst hc
      rw [if_pos rfl]
      cases hlast : lastSet xs (namedCam x.col x.internalCol) with
      | none =>
        rw [setColumn, htc]
        cases hside : x.internalCol <;> simp [setColumn, setByte, namedCam]
      | some v =>
        simp only [setColumn, htc, Option.some_or]
        cases hside : x.internalCol <;> simp [setByte, namedCam]
    · have htc : t.cams c = s.cams c := by rw [ht, Function.update_of_ne hc]
      rw [if_neg hc, Option.or_none]
      cases lastSet xs c with
      | none => exact htc
      | some v => simp only [setColumn, htc]

/-- Each column holds the value last set for it. -/
def HoldLast (xs : List SetCall) (cs : Cams) : Prop :=
  ∀ c v, lastSet xs c = some v → ∀ r, cs c r = v

/-- **`ap_set_value`**, from any state. A call sets the column it names exactly when the
column is on the left or its row `0` held the value already; and after a sequence of calls
the columns hold what was last set exactly when row `0` of each column set on the right held
the value last set for it before the first call. -/
theorem apSetValue_sets_iff (hp : p.Triggers) (hr : p.Resets) (hop : p.RunsSet) (s : St) :
    (∀ col internalCol value, Ensures (apSetValue p col internalCol value) s (fun _ t =>
      SetsNamed col internalCol value s.cams t.cams) ↔
        internalCol = .left ∨ s.cams (namedCam col internalCol) row0 = value) ∧
    ∀ xs, Ensures (setValues p xs) s (fun _ t => HoldLast xs t.cams) ↔
      ∀ c v, lastSet xs c = some v → c.right = true → s.cams c row0 = v := by
  constructor
  · intro col internalCol value
    exact apSetValue_setsNamed_iff hp hr hop col internalCol value s
  · intro xs
    obtain ⟨_, t, hrun, ht⟩ := setValues_run hp hr hop xs s
    have hcol : ∀ c v, lastSet xs c = some v →
        ∀ r, t.cams c r = if c.right then s.cams c row0 else v := by
      intro c v hv r
      rw [ht c, hv]
      rfl
    constructor
    · intro h c v hv hright
      have hrow := h.holds hrun c v hv row0
      rwa [hcol c v hv, if_pos hright] at hrow
    · intro h
      refine .of_run hrun fun c v hv r => ?_
      rw [hcol c v hv]
      split
      · next hright => exact h c v hv hright
      · rfl

theorem apSetValue_sets_left : Ensures
    (setValues (.reference 3) [⟨.camA, .left, 1⟩, ⟨.camB, .left, 3⟩, ⟨.camA, .left, 5⟩])
    (.rest fun a => a.toUInt8) fun _ t =>
      HoldLast [⟨.camA, .left, 1⟩, ⟨.camB, .left, 3⟩, ⟨.camA, .left, 5⟩] t.cams := by
  refine ((apSetValue_sets_iff (Platform.reference_triggers 3) (Platform.reference_resets 3)
    (Platform.reference_runsSet 3) _).2 _).mpr ?_
  rintro ⟨col, right⟩ v hv rfl
  simp [lastSet, namedCam] at hv

/-- `ap_set_value(CAM_A, RIGHT, 2)`, with columns that are zero, fills `A_1` with zeros. -/
theorem apSetValue_right_misses : ¬ Ensures (apSetValue (.reference 3) .camA .right 2)
    (.rest someMem) fun _ t => SetsNamed .camA .right 2 (St.rest someMem).cams t.cams := by
  rw [apSetValue_setsNamed_iff (Platform.reference_triggers 3) (Platform.reference_resets 3)
    (Platform.reference_runsSet 3), cams_someMem]
  decide

end RocketAp.Hal
