import BusTub.Execution.GroupKeys
import BusTub.Execution.InsertSelect
import BusTub.Types.TupleRoundTrip

/-! # The columns of a scan

The constructor of `SeqScanExecutor` looks for the columns of the output schema by their names.
When one of them is missing, the positions are put behind the columns that have been found, so
that there is one entry for each column just if it is the first that is missing.
-/

namespace BusTub

/-- What is taken by its position when a name of an output schema is not in the table: the
columns without one, or all of them. -/
inductive Fallback where
  | unresolved
  | all
  deriving DecidableEq, Repr

namespace SeqScanExecutor

variable {tableSchema outSchema : Schema} {columns : List Column} {found : List Nat} {n : Nat}

/-- All names of the output schema are in the table. -/
def AllResolve (tableSchema outSchema : Schema) : Prop :=
  ∀ column ∈ outSchema.columns, (tableSchema.getColIdx column.columnName).isSome = true

instance (tableSchema outSchema : Schema) : Decidable (AllResolve tableSchema outSchema) :=
  inferInstanceAs (Decidable (∀ column ∈ outSchema.columns, _))

/-- The first name of the output schema is not in the table. -/
def FirstMissing (tableSchema outSchema : Schema) : Prop :=
  ∀ column, outSchema.columns.head? = some column →
    tableSchema.getColIdx column.columnName = none

/-- The column of the table that an output column is taken from. -/
def sourceOf (fallback : Fallback) (tableSchema outSchema : Schema) (i : Nat) (column : Column) :
    Nat :=
  match fallback with
  | .unresolved => (tableSchema.getColIdx column.columnName).getD i
  | .all =>
      if AllResolve tableSchema outSchema then (tableSchema.getColIdx column.columnName).getD i
      else i

/-- The columns of the table that the output columns are taken from. -/
def sources (fallback : Fallback) (tableSchema outSchema : Schema) : List Nat :=
  outSchema.columns.mapIdx (sourceOf fallback tableSchema outSchema)

theorem length_sources (fallback : Fallback) (tableSchema outSchema : Schema) :
    (sources fallback tableSchema outSchema).length = outSchema.columns.length :=
  List.length_mapIdx

/-! ## The entries of the constructor -/

theorem findColumns_of_resolve
    (hall : ∀ column ∈ columns, (tableSchema.getColIdx column.columnName).isSome = true) :
    findColumns tableSchema n found columns =
      found ++ columns.map fun column => (tableSchema.getColIdx column.columnName).getD 0 := by
  induction columns generalizing found with
  | nil => exact (List.append_nil found).symm
  | cons column rest ih =>
      obtain ⟨hcolumn, hrest⟩ := List.forall_mem_cons.mp hall
      obtain ⟨colIdx, hidx⟩ := Option.isSome_iff_exists.mp hcolumn
      rw [findColumns, hidx, List.map_cons, hidx]
      exact (ih hrest).trans (List.append_assoc _ _ _)

/-- The positions are behind what has been found. -/
theorem le_length_findColumns (found : List Nat)
    (hmissing : ¬ ∀ column ∈ columns, (tableSchema.getColIdx column.columnName).isSome = true) :
    found.length + n ≤ (findColumns tableSchema n found columns).length := by
  induction columns generalizing found with
  | nil => exact absurd (fun _ hmem => nomatch hmem) hmissing
  | cons column rest ih =>
      rw [findColumns]
      cases hidx : tableSchema.getColIdx column.columnName with
      | none =>
          dsimp only
          rw [List.length_append, List.length_range]
      | some colIdx =>
          rw [List.forall_mem_cons, hidx] at hmissing
          have hlength := ih (found ++ [colIdx]) fun hrest => hmissing ⟨rfl, hrest⟩
          dsimp only
          rw [List.length_append, List.length_singleton] at hlength
          omega

/-- All names, by name. -/
theorem findColumns_eq_sources (fallback : Fallback) (hall : AllResolve tableSchema outSchema) :
    findColumns tableSchema n [] outSchema.columns =
      sources fallback tableSchema outSchema := by
  rw [findColumns_of_resolve hall, List.nil_append]
  apply List.ext_getElem?
  intro i
  unfold sources
  rw [List.getElem?_map, List.getElem?_mapIdx]
  cases hcolumn : outSchema.columns[i]? with
  | none => rfl
  | some column =>
      have hmem := List.mem_of_getElem? hcolumn
      obtain ⟨colIdx, hidx⟩ := Option.isSome_iff_exists.mp (hall column hmem)
      have hsource : sourceOf fallback tableSchema outSchema i column = colIdx := by
        cases fallback with
        | unresolved => exact congrArg (Option.getD · i) hidx
        | all => exact (if_pos hall).trans (congrArg (Option.getD · i) hidx)
      rw [Option.map_some, Option.map_some, hsource, hidx]
      rfl

/-- No name in front of the missing one. -/
theorem findColumns_of_firstMissing (hfirst : FirstMissing tableSchema outSchema)
    (hall : ¬ AllResolve tableSchema outSchema) :
    findColumns tableSchema n [] outSchema.columns = List.range n := by
  unfold FirstMissing at hfirst
  unfold AllResolve at hall
  cases hcolumns : outSchema.columns with
  | nil =>
      rw [hcolumns] at hall
      exact absurd (fun _ hmem => nomatch hmem) hall
  | cons column rest =>
      rw [hcolumns] at hfirst
      rw [findColumns, hfirst column rfl]
      rfl

/-- A name in front of the missing one has an entry of its own. -/
theorem lt_length_findColumns (hfirst : ¬ FirstMissing tableSchema outSchema)
    (hall : ¬ AllResolve tableSchema outSchema) :
    n < (findColumns tableSchema n [] outSchema.columns).length := by
  unfold FirstMissing at hfirst
  unfold AllResolve at hall
  cases hcolumns : outSchema.columns with
  | nil =>
      rw [hcolumns] at hall
      exact absurd (fun _ hmem => nomatch hmem) hall
  | cons column rest =>
      rw [hcolumns] at hfirst hall
      cases hidx : tableSchema.getColIdx column.columnName with
      | none =>
          refine absurd (fun other hother => ?_) hfirst
          cases hother
          exact hidx
      | some colIdx =>
          rw [List.forall_mem_cons, hidx] at hall
          have hlength := le_length_findColumns (n := n) [colIdx]
            fun hrest => hall ⟨rfl, hrest⟩
          rw [findColumns, hidx]
          rw [List.length_singleton] at hlength
          exact (Nat.lt_add_of_pos_left Nat.one_pos).trans_le hlength

/-! ## The values of a row -/

/-- The values that `Next` collects for a row. -/
def columnValues (exec : SeqScanExecutor) (row : RID × Tuple) : Except EvalFault (List Value) :=
  exec.outSchemaIdx.mapM fun i => row.2.getValue exec.tableInfo.schema i

/-- The values of a row in the columns that the output columns are taken from. -/
def sourceValues (fallback : Fallback) (exec : SeqScanExecutor) (row : RID × Tuple) :
    Except EvalFault (List Value) :=
  (sources fallback exec.tableInfo.schema exec.plan.outputSchema).mapM fun i =>
    row.2.getValue exec.tableInfo.schema i

/-- The output for a row: one value for each output column, that of its source, and the tuple
gives them back. -/
def IsProjection (fallback : Fallback) (exec : SeqScanExecutor) (row : RID × Tuple)
    (output : Tuple × RID) : Prop :=
  output.2 = row.1 ∧ ∃ values, exec.columnValues row = .ok values ∧
    sourceValues fallback exec row = .ok values ∧
      ∀ (i : Nat) (value : Value), values[i]? = some value →
        output.1.getValue exec.plan.outputSchema i = .ok value

/-- The row has the sources of the output columns, where the scan looks for them, and their values
have the types of the output columns and can be read back from a tuple. -/
def HasSources (fallback : Fallback) (exec : SeqScanExecutor) (row : RID × Tuple) : Prop :=
  ∃ values, sourceValues fallback exec row = .ok values ∧
    (AllResolve exec.tableInfo.schema exec.plan.outputSchema ∨
      (FirstMissing exec.tableInfo.schema exec.plan.outputSchema ∧
        (List.range exec.plan.outputSchema.columns.length).mapM
          (fun i => row.2.getValue exec.tableInfo.schema i) = .ok values)) ∧
      exec.plan.outputSchema.Accepts values ∧ NullsCovered (varlens values) ∧
        OffsetsFit exec.plan.outputSchema.fixedLength (varlens values)

variable {fallback : Fallback} {exec : SeqScanExecutor} {tableInfo : TableInfo}
  {plan : SeqScanPlanNode} {row : RID × Tuple} {output : Tuple × RID} {values : List Value}

theorem length_of_sourceValues (h : sourceValues fallback exec row = .ok values) :
    values.length = exec.plan.outputSchema.columns.length := by
  rw [← (Except.mapM_eq_ok_iff.mp h).length_eq, length_sources]

/-- What the executor emits is the tuple of the values that it collects. -/
theorem project_eq_ok_iff :
    exec.project row = .ok output ↔ ∃ values, exec.columnValues row = .ok values ∧
      Tuple.ofValues values exec.plan.outputSchema = .ok output.1 ∧ output.2 = row.1 := by
  unfold project
  rw [liftEval_eq_ok_iff, Except.bind_eq_ok_iff]
  refine exists_congr fun values => and_congr_right fun _ => ?_
  rw [Except.bind_eq_ok_iff]
  constructor
  · rintro ⟨tuple, htuple, houtput⟩
    cases houtput
    exact ⟨htuple, rfl⟩
  · rintro ⟨htuple, hrid⟩
    refine ⟨output.1, htuple, ?_⟩
    rw [← hrid]

/-- Values that a tuple gives back have the types of its columns. -/
theorem accepts_of_getValue {schema : Schema} {tuple : Tuple}
    (hlength : values.length = schema.columns.length)
    (hget : ∀ (i : Nat) (value : Value), values[i]? = some value →
      tuple.getValue schema i = .ok value) : schema.Accepts values := by
  apply Tuple.map_getTypeId_of_mapM
  exact Except.mapM_range_eq_ok_iff.mpr ⟨hlength, hget⟩

/-- The values are collected from the sources just if there is one entry for each column. -/
theorem columnValues_eq_iff
    (hvalues : sourceValues fallback (new tableInfo plan) row = .ok values) :
    (new tableInfo plan).columnValues row = .ok values ↔
      AllResolve tableInfo.schema plan.outputSchema ∨
        (FirstMissing tableInfo.schema plan.outputSchema ∧
          (List.range plan.outputSchema.columns.length).mapM
            (fun i => row.2.getValue tableInfo.schema i) = .ok values) := by
  have hlength := length_of_sourceValues hvalues
  unfold columnValues
  dsimp only [new]
  by_cases hall : AllResolve tableInfo.schema plan.outputSchema
  · rw [findColumns_eq_sources fallback hall]
    exact iff_of_true hvalues (.inl hall)
  · rw [or_iff_right hall]
    by_cases hfirst : FirstMissing tableInfo.schema plan.outputSchema
    · rw [findColumns_of_firstMissing hfirst hall, and_iff_right hfirst]
    · refine iff_of_false (fun hcollected => ?_) fun hboth => hfirst hboth.1
      have hentries := lt_length_findColumns (n := plan.outputSchema.columns.length) hfirst hall
      rw [(Except.mapM_eq_ok_iff.mp hcollected).length_eq, hlength] at hentries
      exact lt_irrefl _ hentries

/-- A row is projected just if its sources are where the scan looks for them. -/
theorem exists_projection_iff (hfits : plan.outputSchema.fixedLength < 2 ^ 32) :
    (∃ output, (new tableInfo plan).project row = .ok output ∧
      IsProjection fallback (new tableInfo plan) row output) ↔
        HasSources fallback (new tableInfo plan) row := by
  constructor
  · rintro ⟨output, hproject, -, values, hcollected, hvalues, hget⟩
    obtain ⟨values', hcollected', htuple, -⟩ := project_eq_ok_iff.mp hproject
    cases hcollected.symm.trans hcollected'
    have haccepts := accepts_of_getValue (length_of_sourceValues hvalues) hget
    have hback := (Tuple.roundTrips_iff _ values hfits haccepts).mp ⟨output.1, htuple, hget⟩
    exact ⟨values, hvalues, (columnValues_eq_iff hvalues).mp hcollected, haccepts, hback⟩
  · rintro ⟨values, hvalues, hentries, haccepts, hback⟩
    have hcollected := (columnValues_eq_iff hvalues).mpr hentries
    obtain ⟨tuple, htuple, hget⟩ := (Tuple.roundTrips_iff _ values hfits haccepts).mpr hback
    exact ⟨(tuple, row.1), project_eq_ok_iff.mpr ⟨values, hcollected, htuple, rfl⟩, rfl, values,
      hcollected, hvalues, hget⟩

/-! ## The rows of a scan -/

variable [DoubleText] {pool : PagePool} {pageIds : List PageId} {heap : PageId → List Slot}

/-- The scan emits the projection of each row that passes its predicate, in their order. -/
def ProjectsRows (fallback : Fallback) (pool : PagePool) (exec : SeqScanExecutor)
    (rows : List (RID × Tuple)) : Prop :=
  ∃ start outputs, exec.init pool = .ok start ∧ Generator.Drains (next pool) start outputs ∧
    List.Forall₂ (IsProjection fallback exec) (rows.filter (Generator.accepts exec.passes)) outputs

/-- A scan projects its rows just if the predicate comes to a result on each of them, and there is
a projection of each that passes. -/
theorem projectsRows_iff_forall
    (hheap : TableHeap.HeapOk pool exec.tableInfo.table.firstPageId pageIds heap) :
    ProjectsRows fallback pool exec (TableHeap.liveRows heap pageIds) ↔
      (∀ row ∈ TableHeap.liveRows heap pageIds, ∃ b, exec.passes row = .ok b) ∧
        ∀ row ∈ TableHeap.liveRows heap pageIds, exec.passes row = .ok true →
          ∃ output, exec.project row = .ok output ∧ IsProjection fallback exec row output := by
  obtain ⟨start, hinit, -, hscan⟩ := init_scanning exec hheap
  have hdrains := (filters exec).drains_iff hscan
  constructor
  · rintro ⟨start', outputs, hinit', hdrain, hprojections⟩
    cases hinit.symm.trans hinit'
    obtain ⟨hpasses, hemitted⟩ := Generator.emitted_eq_ok_iff.mp ((hdrains outputs).mp hdrain)
    refine ⟨hpasses, fun row hrow hpass => ?_⟩
    refine Generator.exists_of_forall₂ hemitted hprojections row ?_
    exact List.mem_filter.mpr ⟨hrow, Generator.accepts_eq_true_iff.mpr hpass⟩
  · rintro ⟨hpasses, hprojections⟩
    have hrows : ∀ row ∈ (TableHeap.liveRows heap pageIds).filter (Generator.accepts exec.passes),
        ∃ output, exec.project row = .ok output ∧ IsProjection fallback exec row output := by
      intro row hrow
      obtain ⟨hmem, hpass⟩ := List.mem_filter.mp hrow
      exact hprojections row hmem (Generator.accepts_eq_true_iff.mp hpass)
    obtain ⟨outputs, hboth⟩ := Generator.exists_forall₂ hrows
    refine ⟨start, outputs, hinit, (hdrains outputs).mpr ?_, hboth.imp fun _ _ h => h.2⟩
    exact Generator.emitted_eq_ok_iff.mpr ⟨hpasses, hboth.imp fun _ _ h => h.1⟩

/-- A scan projects its rows just if the predicate comes to a result on each of them, and each that
passes has its sources where the scan looks for them. -/
theorem projectsRows_iff (fallback : Fallback) (tableInfo : TableInfo) (plan : SeqScanPlanNode)
    (hheap : TableHeap.HeapOk pool tableInfo.table.firstPageId pageIds heap)
    (hfits : plan.outputSchema.fixedLength < 2 ^ 32) :
    ProjectsRows fallback pool (new tableInfo plan) (TableHeap.liveRows heap pageIds) ↔
      (∀ row ∈ TableHeap.liveRows heap pageIds, ∃ b, (new tableInfo plan).passes row = .ok b) ∧
        ∀ row ∈ TableHeap.liveRows heap pageIds, (new tableInfo plan).passes row = .ok true →
          HasSources fallback (new tableInfo plan) row := by
  rw [projectsRows_iff_forall hheap]
  refine and_congr_right fun _ => forall₂_congr fun row _ => forall_congr' fun _ => ?_
  exact exists_projection_iff hfits

omit [DoubleText] in
/-- The only column of a table, by its name. -/
theorem projectsRows_iff_oneRow :
    let _ := noDoubleText
    ProjectsRows .all InsertSelect.oneRowPool (new InsertSelect.smallInfo InsertSelect.wholeTable)
      [(⟨0, 0⟩, fiveTuple)] := by
  intro _
  obtain ⟨-, hcontents⟩ := InsertSelect.oneRowPool_fives
  refine (projectsRows_iff .all InsertSelect.smallInfo InsertSelect.wholeTable
    hcontents.linked.toHeapOk (by decide)).mpr ⟨fun row hrow => ?_, fun row hrow _ => ?_⟩
  · obtain rfl := List.mem_singleton.mp hrow
    exact ⟨true, rfl⟩
  · obtain rfl := List.mem_singleton.mp hrow
    refine ⟨[.integer 5], rfl, .inl (by decide), rfl, trivial, ?_⟩
    change 4 < 2 ^ 32
    decide

/-- The small table, when its rows have two columns. -/
def pairInfo : TableInfo where
  schema := ⟨[⟨"a", .smallint, none⟩, ⟨"b", .smallint, none⟩]⟩
  name := "t"
  table := TableHeap.smallTable
  oid := 0

/-- A scan of both columns, the second under another name. -/
def renamedScan : SeqScanPlanNode where
  outputSchema := ⟨[⟨"a", .smallint, none⟩, ⟨"x", .smallint, none⟩]⟩
  predicate := none
  tableOid := 0

omit [DoubleText] in
/-- There are three entries for two columns, and the row of `5` and `0` is not emitted. -/
theorem renamedScan_not_projectsRows :
    let _ := noDoubleText
    (new pairInfo renamedScan).outSchemaIdx = [0, 0, 1] ∧
      (∀ fallback, sources fallback pairInfo.schema renamedScan.outputSchema = [0, 1]) ∧
      TableHeap.HeapOk InsertSelect.oneRowPool pairInfo.table.firstPageId [0]
        (InsertSelect.fives 1).slots ∧
      ∀ fallback, ¬ ProjectsRows fallback InsertSelect.oneRowPool (new pairInfo renamedScan)
        (TableHeap.liveRows (InsertSelect.fives 1).slots [0]) := by
  intro _
  obtain ⟨-, hcontents⟩ := InsertSelect.oneRowPool_fives
  refine ⟨rfl, ?_, hcontents.linked.toHeapOk, ?_⟩
  · intro fallback
    cases fallback with
    | unresolved => rfl
    | all => decide
  · intro fallback hprojects
    have hrows := ((projectsRows_iff_forall hcontents.linked.toHeapOk).mp hprojects).2
    have hprojection := hrows (⟨0, 0⟩, fiveTuple) (List.mem_singleton_self _) rfl
    obtain ⟨values, -, hentries, -⟩ := (exists_projection_iff (by decide)).mp hprojection
    rcases hentries with hall | ⟨hfirst, -⟩
    · exact absurd hall (by decide)
    · exact absurd (hfirst _ rfl) (by decide)

end SeqScanExecutor

end BusTub
