import BusTub.Catalog.Catalog
import BusTub.Execution.Expressions
import BusTub.Library.Generator
import BusTub.Table.TableIterator

/-! # Sequential scans

`SeqScanExecutor`: an iterator over a table whose tuples are filtered and cut down to
the columns of the output schema.
-/

namespace BusTub

/-- Why an executor does not return. -/
inductive ExecutorFault where
  | heap (fault : HeapFault)
  | eval (fault : EvalFault)
  deriving DecidableEq, Repr

/-- A value that could not be computed stops the executor. -/
def liftEval {α : Type} : Except EvalFault α → Except ExecutorFault α
  | .error fault => .error (.eval fault)
  | .ok a => .ok a

/-- `SeqScanPlanNode`. -/
structure SeqScanPlanNode where
  outputSchema : Schema
  predicate : Option Expression
  tableOid : TableOid
  deriving DecidableEq, Repr

/-- `SeqScanExecutor`; `End` is the same iterator all the time. -/
structure SeqScanExecutor where
  plan : SeqScanPlanNode
  tableInfo : TableInfo
  cur : TableIterator
  outSchemaIdx : List Nat
  predicate : Expression

namespace SeqScanExecutor

/-- The loop that looks for the columns by their names; when one of them is missing, the
positions are put behind what has been found. -/
def findColumns (tableSchema : Schema) (columnCount : Nat) : List Nat → List Column → List Nat
  | found, [] => found
  | found, column :: rest =>
      match tableSchema.getColIdx column.columnName with
      | some colIdx => findColumns tableSchema columnCount (found ++ [colIdx]) rest
      | none => found ++ List.range columnCount

/-- The constructor. -/
def new (tableInfo : TableInfo) (plan : SeqScanPlanNode) : SeqScanExecutor where
  plan
  tableInfo
  cur := { rid := TableIterator.endRid, tuple := [] }
  outSchemaIdx := findColumns tableInfo.schema plan.outputSchema.columns.length []
    plan.outputSchema.columns
  predicate := Expression.orTrue plan.predicate

/-- `Init`. -/
def init (pool : PagePool) (exec : SeqScanExecutor) : Except HeapFault SeqScanExecutor :=
  match TableIterator.first exec.tableInfo.table pool with
  | .error fault => .error fault
  | .ok cur => .ok { exec with cur }

variable [DoubleText]

/-- The predicate holds for a tuple of the table. -/
def passes (exec : SeqScanExecutor) (row : RID × Tuple) : Except ExecutorFault Bool :=
  liftEval (passesIn (Context.ofTuple row.2 exec.tableInfo.schema) exec.predicate)

omit [DoubleText] in
/-- The tuple with only the columns of the output schema. -/
def project (exec : SeqScanExecutor) (row : RID × Tuple) : Except ExecutorFault (Tuple × RID) :=
  liftEval do
    let values ← exec.outSchemaIdx.mapM fun i => row.2.getValue exec.tableInfo.schema i
    let tuple ← Tuple.ofValues values exec.plan.outputSchema
    .ok (tuple, row.1)

/-- The loop of `Next` from an iterator, at most `fuel` turns of it. -/
def nextLoop (pool : PagePool) (exec : SeqScanExecutor) : Nat → TableIterator →
    Except ExecutorFault (Option (Tuple × RID) × TableIterator)
  | 0, _ => .error (.heap .diverges)
  | fuel + 1, cur =>
      if cur.rid = TableIterator.endRid then .ok (none, cur)
      else
        match TableIterator.advance pool cur with
        | .error fault => .error (.heap fault)
        | .ok following =>
            match exec.passes (cur.rid, cur.tuple) with
            | .error fault => .error fault
            | .ok false => nextLoop pool exec fuel following
            | .ok true =>
                match exec.project (cur.rid, cur.tuple) with
                | .error fault => .error fault
                | .ok output => .ok (some output, following)

/-- `Next`. The loop takes a turn for each live tuple at most, and a page has fewer of
them than bytes. -/
def next (pool : PagePool) (exec : SeqScanExecutor) :
    Except ExecutorFault (Option (Tuple × RID) × SeqScanExecutor) :=
  match nextLoop pool exec (pool.nextPageId.toNat * pageSize + 1) exec.cur with
  | .error fault => .error fault
  | .ok (output, cur) => .ok (output, { exec with cur })

end SeqScanExecutor

namespace SeqScanExecutor

variable [DoubleText] {pool : PagePool} {exec : SeqScanExecutor} {cur : TableIterator}
  {rows : List (RID × Tuple)}

theorem nextLoop_spec {fuel : Nat} (hwalks : TableIterator.Walks pool cur rows)
    (hfuel : rows.length < fuel) :
    match Generator.firstPassing exec.passes rows with
    | .error fault => nextLoop pool exec fuel cur = .error fault
    | .ok none => ∃ final, nextLoop pool exec fuel cur = .ok (none, final)
    | .ok (some (row, rest)) =>
        match exec.project row with
        | .error fault => nextLoop pool exec fuel cur = .error fault
        | .ok output => ∃ following, nextLoop pool exec fuel cur = .ok (some output, following) ∧
            TableIterator.Walks pool following rest := by
  induction rows generalizing fuel cur with
  | nil =>
      obtain ⟨fuel, rfl⟩ : ∃ n, fuel = n + 1 := ⟨fuel - 1, by omega⟩
      cases hwalks with
      | done hend => exact ⟨cur, if_pos hend⟩
  | cons row rest ih =>
      obtain ⟨fuel, rfl⟩ : ∃ n, fuel = n + 1 := ⟨fuel - 1, by omega⟩
      rw [List.length_cons] at hfuel
      cases hwalks with
      | @step _ following _ hne hnext hrest =>
          have hrestSpec := ih hrest (show rest.length < fuel by omega)
          rw [Generator.firstPassing, nextLoop, if_neg hne, hnext]
          dsimp only
          cases hpasses : exec.passes (cur.rid, cur.tuple) with
          | error fault => rfl
          | ok b =>
              cases b with
              | false => exact hrestSpec
              | true =>
                  dsimp only
                  cases hproject : exec.project (cur.rid, cur.tuple) with
                  | error fault => rfl
                  | ok output => exact ⟨following, rfl, hrest⟩

/-- The scan has the rows before it. -/
structure Scanning (pool : PagePool) (start exec : SeqScanExecutor) (rows : List (RID × Tuple)) :
    Prop where
  same : exec = { start with cur := exec.cur }
  walks : TableIterator.Walks pool exec.cur rows
  bound : rows.length ≤ pool.nextPageId.toNat * pageSize

/-- A scan of a table that nobody changes filters its rows. -/
theorem filters (start : SeqScanExecutor) :
    Generator.Filters start.passes start.project (next pool) (Scanning pool start) := by
  intro exec rows hscan
  have hloop := @nextLoop_spec _ pool exec _ _ _ hscan.walks (Nat.lt_succ_of_le hscan.bound)
  have hpasses : exec.passes = start.passes := by rw [hscan.same]; rfl
  have hproject : exec.project = start.project := by rw [hscan.same]; rfl
  rw [hpasses, hproject] at hloop
  unfold next
  cases hfound : Generator.firstPassing start.passes rows with
  | error fault =>
      rw [hfound] at hloop
      dsimp only at hloop ⊢
      rw [hloop]
  | ok found =>
      rw [hfound] at hloop
      cases found with
      | none =>
          obtain ⟨final, hnext⟩ := hloop
          exact ⟨{ exec with cur := final }, by rw [hnext]⟩
      | some found =>
          obtain ⟨row, rest⟩ := found
          dsimp only at hloop ⊢
          cases hproj : start.project row with
          | error fault =>
              rw [hproj] at hloop
              dsimp only at hloop ⊢
              rw [hloop]
          | ok output =>
              rw [hproj] at hloop
              obtain ⟨following, hnext, hrest⟩ := hloop
              refine ⟨{ exec with cur := following }, by rw [hnext], ?_, hrest, ?_⟩
              · rw [hscan.same]
              · exact (Generator.length_firstPassing hfound).le.trans hscan.bound

omit [DoubleText] in
/-- `Init` puts the rows of the table before the scan. -/
theorem init_scanning (exec : SeqScanExecutor) {pageIds : List PageId} {heap : PageId → List Slot}
    (h : TableHeap.HeapOk pool exec.tableInfo.table.firstPageId pageIds heap) :
    ∃ start, exec.init pool = .ok start ∧ start = { exec with cur := start.cur } ∧
      Scanning pool exec start (TableHeap.liveRows heap pageIds) := by
  obtain ⟨cur, hfirst, hwalks⟩ := h.first_walks
  refine ⟨{ exec with cur }, ?_, rfl, rfl, hwalks, h.length_liveRows_le⟩
  unfold init
  rw [hfirst]

end SeqScanExecutor

end BusTub
