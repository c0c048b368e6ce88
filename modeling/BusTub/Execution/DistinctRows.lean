import BusTub.Execution.ExecutorPasses
import BusTub.Execution.GroupKeys
import BusTub.Library.FirstOccurrences

/-! # Rows without duplicates

The executor puts out a row when its table has no entry for it. Of the rows that agree
it puts out the first one, and others that it does not recognise: a NULL or a NaN is not
equal to itself, and values that are equal may have different hashes.
-/

namespace BusTub

open Cursor FirstOccurrences

namespace DistinctExecutor

/-- The values of the columns of a row that can be read. -/
def rowKey (outputSchema : Schema) (row : Tuple) : List Value :=
  (distinctKey outputSchema row).toOption.getD []

/-- The columns can be read, and a VARCHAR has a length that `CompareStrings` takes. -/
def Readable (outputSchema : Schema) (row : Tuple) : Prop :=
  ∃ key, distinctKey outputSchema row = .ok key ∧ ∀ value ∈ key, value.Terminated

variable {outputSchema : Schema} {row : Tuple}

theorem distinctKey_eq (h : Readable outputSchema row) :
    distinctKey outputSchema row = .ok (rowKey outputSchema row) := by
  obtain ⟨key, hkey, -⟩ := h
  unfold rowKey
  rw [hkey]
  rfl

theorem keyOfTypes_rowKey (h : Readable outputSchema row) :
    KeyOfTypes (outputSchema.columns.map Column.columnType) (rowKey outputSchema row) := by
  obtain ⟨key, hkey, hterminated⟩ := h
  have hrow : rowKey outputSchema row = key := by
    unfold rowKey
    rw [hkey]
    rfl
  rw [hrow]
  exact ⟨Tuple.map_getTypeId_of_mapM hkey, hterminated⟩

variable [DoubleText]

/-- Two rows agree in all columns. -/
abbrev RowsAgree (outputSchema : Schema) (row row' : Tuple) : Prop :=
  KeysAgree (rowKey outputSchema row) (rowKey outputSchema row')

/-- The table takes a row for another one. -/
def sameRow (outputSchema : Schema) (row row' : Tuple) : Bool :=
  sameKeys (rowKey outputSchema row) (rowKey outputSchema row')

/-- What the table needs of a row to recognise one that agrees with it: no NULL, no NaN, and
the same hash. -/
def Recognised (outputSchema : Schema) (row row' : Tuple) : Prop :=
  RowsAgree outputSchema row row' → DefiniteKey (rowKey outputSchema row) ∧
    hashOfKey (rowKey outputSchema row) = hashOfKey (rowKey outputSchema row')

theorem sameRow_within (outputSchema : Schema) :
    Within (sameRow outputSchema) (RowsAgree outputSchema) (Readable outputSchema) where
  partialEquiv := {
    symm := fun ha hb => (sameKeys_partialEquiv _).symm (keyOfTypes_rowKey ha)
      (keyOfTypes_rowKey hb)
    trans := fun ha hb hc => (sameKeys_partialEquiv _).trans (keyOfTypes_rowKey ha)
      (keyOfTypes_rowKey hb) (keyOfTypes_rowKey hc) }
  agree_of_same ha hb h :=
    ((sameKeys_iff (keyOfTypes_rowKey ha) (keyOfTypes_rowKey hb)).mp h).2.2
  symm ha hb h := by
    have hkeyA := keyOfTypes_rowKey ha
    have hkeyB := keyOfTypes_rowKey hb
    exact (keysAgree_iff hkeyB hkeyA).mpr ((keysAgree_iff hkeyA hkeyB).mp h).symm
  trans ha hb hc hab hbc := by
    have hkeyA := keyOfTypes_rowKey ha
    have hkeyB := keyOfTypes_rowKey hb
    have hkeyC := keyOfTypes_rowKey hc
    exact (keysAgree_iff hkeyA hkeyC).mpr
      (((keysAgree_iff hkeyA hkeyB).mp hab).trans ((keysAgree_iff hkeyB hkeyC).mp hbc))

/-- The entry of a row. -/
def entryOf (outputSchema : Schema) (row : Tuple) : KeyedEntry Unit where
  hash := hashOfKey (rowKey outputSchema row)
  key := rowKey outputSchema row
  value := ()

/-- The rows that the executor puts out are those that its filter keeps. -/
theorem newRows_eq {kept rows : List Tuple} (hkept : ∀ row ∈ kept, Readable outputSchema row)
    (hrows : ∀ row ∈ rows, Readable outputSchema row) :
    newRows outputSchema (kept.map (entryOf outputSchema)) rows none =
      (keptAfter (sameRow outputSchema) kept rows, none) := by
  induction rows generalizing kept with
  | nil => rfl
  | cons row rest ih =>
      have hrow := hrows row List.mem_cons_self
      have hrest := fun other hmem => hrows other (List.mem_cons_of_mem row hmem)
      have hkeyed : KeyedEntry.Keyed (outputSchema.columns.map Column.columnType)
          (kept.map (entryOf outputSchema)) := by
        intro entry hmem
        obtain ⟨other, hother, rfl⟩ := List.mem_map.mp hmem
        exact ⟨rfl, keyOfTypes_rowKey (hkept other hother)⟩
      -- one row: a key that equals one of the keys before it is dropped
      have hadd : addDistinct outputSchema (kept.map (entryOf outputSchema)) row =
          .ok (if kept.any (sameRow outputSchema row) then none
            else some ((kept ++ [row]).map (entryOf outputSchema))) := by
        unfold addDistinct
        rw [distinctKey_eq hrow]
        change (KeyedEntry.hashKey (rowKey outputSchema row) >>= _) = _
        rw [hashKey_eq]
        change (KeyedEntry.contains (hashOfKey (rowKey outputSchema row))
          (rowKey outputSchema row) (kept.map (entryOf outputSchema)) >>= _) = _
        rw [KeyedEntry.contains_eq (keyOfTypes_rowKey hrow) hkeyed, List.any_map, List.map_append]
        rfl
      rw [newRows, hadd, keptAfter]
      by_cases hfound : kept.any (sameRow outputSchema row)
      · rw [if_pos hfound, if_pos hfound]
        exact ih hkept hrest
      · have hkept' : ∀ other ∈ kept ++ [row], Readable outputSchema other :=
          List.forall_mem_append.mpr ⟨hkept, List.forall_mem_singleton.mpr hrow⟩
        rw [if_neg hfound, if_neg hfound]
        dsimp only
        rw [ih hkept' hrest]

theorem sameRow_iff {row row' : Tuple} (hrow : Readable outputSchema row)
    (hrow' : Readable outputSchema row') :
    (RowsAgree outputSchema row row' → sameRow outputSchema row' row = true) ↔
      Recognised outputSchema row row' := by
  have hwithin := sameRow_within outputSchema
  unfold Recognised
  apply imp_congr_right
  intro hagree
  have hkey := keyOfTypes_rowKey hrow
  have hkey' := keyOfTypes_rowKey hrow'
  unfold sameRow
  rw [sameKeys_iff hkey' hkey]
  constructor
  · rintro ⟨hhash, hdefinite, hagree'⟩
    exact ⟨hagree'.definiteKey hkey' hkey hdefinite, hhash⟩
  · rintro ⟨hdefinite, hhash⟩
    exact ⟨hhash, hagree.definiteKey hkey hkey' hdefinite, hwithin.symm hrow hrow' hagree⟩

variable {child : AbstractExecutor} {fuel : Nat} {rows : List Tuple}

/-- The executor puts out the first row of each class exactly when it recognises the rows that
agree with one before them. -/
theorem restarts_firsts_iff (hchild : child.Restarts (.read rows none))
    (hfuel : rows.length < fuel) (hrows : ∀ row ∈ rows, Readable outputSchema row) :
    (abstractExecutor outputSchema child fuel).Restarts
        (.read (firsts (RowsAgree outputSchema) rows) none) ↔
      rows.Pairwise (Recognised outputSchema) := by
  have hrestarts : (abstractExecutor outputSchema child fuel).Restarts _ := restarts hchild hfuel
  have hnew : newRows outputSchema [] rows none =
      (keptAfter (sameRow outputSchema) [] rows, none) :=
    newRows_eq (fun row hmem => absurd hmem List.not_mem_nil) hrows
  have hpass : (Pass.read rows none).andThen (newRows outputSchema []) =
      .read (keptAfter (sameRow outputSchema) [] rows) none := by
    simp only [Pass.andThen, hnew]
  rw [hpass] at hrestarts
  have hpairs : rows.Pairwise (fun before row =>
      RowsAgree outputSchema before row → sameRow outputSchema row before) ↔
      rows.Pairwise (Recognised outputSchema) :=
    List.Pairwise.iff_of_mem fun hmem hmem' => sameRow_iff (hrows _ hmem) (hrows _ hmem')
  rw [← hpairs, ← keptAfter_eq_firsts_iff (sameRow_within outputSchema) hrows]
  constructor
  · intro hfirsts
    exact (hrestarts.unique hfirsts .exhausted []).1
  · intro heq
    rw [← heq]
    exact hrestarts

omit [DoubleText]

/-- One column, of type INTEGER. -/
def numberSchema : Schema := ⟨[⟨"n", .integer, none⟩]⟩

theorem readable_number {row : Tuple} {n : Int32}
    (h : distinctKey numberSchema row = .ok [.integer n]) : Readable numberSchema row := by
  refine ⟨_, h, List.forall_mem_singleton.mpr ?_⟩
  exact Value.terminated_of_getTypeId (TypeId.noConfusion : TypeId.integer ≠ .varchar)

/-- Of the rows `5`, `7` and `5` the first two are put out. -/
theorem restarts_firsts_iff_fiveSevenFive :
    let _ := noDoubleText
    let rows : List Tuple := [[5, 0, 0, 0], [7, 0, 0, 0], [5, 0, 0, 0]]
    (abstractExecutor numberSchema (ofRows PlanFault rows) 4).Restarts
      (.read (firsts (RowsAgree numberSchema) rows) none) ∧
        firsts (RowsAgree numberSchema) rows = [[5, 0, 0, 0], [7, 0, 0, 0]] := by
  intro _ rows
  have hrows : ∀ row ∈ rows, Readable numberSchema row := by
    rw [List.forall_mem_cons, List.forall_mem_cons, List.forall_mem_singleton]
    exact ⟨readable_number (n := 5) rfl, readable_number (n := 7) rfl, readable_number (n := 5) rfl⟩
  refine ⟨?_, by decide⟩
  apply (restarts_firsts_iff (ofRows_restarts rows) (by decide) hrows).mpr
  unfold Recognised
  decide

/-- Of two rows that are NULL the executor puts out both. -/
theorem nullRows_not_firsts :
    let _ := noDoubleText
    let rows : List Tuple := [[0, 0, 0, 128], [0, 0, 0, 128]]
    let executor := abstractExecutor numberSchema (ofRows PlanFault rows) 3
    distinctKey numberSchema [0, 0, 0, 128] = .ok [.integer Int32.minValue] ∧
      executor.Restarts (.read rows none) ∧ firsts (RowsAgree numberSchema) rows ≠ rows ∧
      ¬ executor.Restarts (.read (firsts (RowsAgree numberSchema) rows) none) := by
  intro _ rows executor
  have hboth : executor.Restarts (.read rows none) :=
    restarts (ofRows_restarts rows) (by decide)
  have hfirsts : firsts (RowsAgree numberSchema) rows ≠ rows := by decide
  refine ⟨rfl, hboth, hfirsts, ?_⟩
  intro h
  exact hfirsts (h.unique hboth .exhausted []).1

end DistinctExecutor

end BusTub
