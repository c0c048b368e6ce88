import BusTub.Execution.WriteExecutors
import BusTub.Library.Machine
import BusTub.Table.PageOperations

/-! # Statements that write

`ExecutionEngine::Execute` with an INSERT, an UPDATE or a DELETE plan. The loop comes to its
end at the first call of `Next` that returns `false`, because there is no row left or because
the table did not take the row, and `Execute` returns `true` then.
-/

namespace BusTub

/-- A row that a statement is to process. -/
structure SourceRow where
  /-- The row that `Next` of the child returns; raw values come without a child. -/
  child : Option (Tuple × RID)
  /-- `FetchPage` finds a frame for the page that the call of the table begins with. -/
  fetched : Bool
  deriving DecidableEq, Repr

/-- The executor of a plan that writes. -/
inductive WriteStatement where
  | insert (exec : InsertExecutor)
  | update (exec : UpdateExecutor)
  | delete (exec : DeleteExecutor)

/-- A table that cannot fetch a page aborts the transaction. -/
def ExecutorContext.abort (ctx : ExecutorContext) : ExecutorContext :=
  { ctx with transaction := { ctx.transaction with state := .aborted } }

namespace WriteStatement

/-- The rows that the raw values or the child of a statement produce. -/
def sourceRows (statement : WriteStatement) (childRows : List (Tuple × RID))
    (fetched : Nat → Bool) : List SourceRow :=
  let fromChild := childRows.mapIdx fun i row => { child := some row, fetched := fetched i }
  match statement with
  | .insert exec =>
      match exec.plan.rawValues with
      | some rawValues => (List.range (rawValues.length - exec.nextInsertPos)).map fun i =>
          { child := none, fetched := fetched i }
      | none => fromChild
  | .update _ | .delete _ => fromChild

variable [ValueArithmetic]

/-- `Next`. Where a page is not fetched, the table returns `false`. -/
def next (statement : WriteStatement) (ctx : ExecutorContext) (row : SourceRow) :
    Except CatalogFault (Bool × WriteStatement × ExecutorContext) :=
  match statement with
  | .insert exec =>
      if row.fetched then
        match exec.next ctx row.child with
        | .error fault => .error fault
        | .ok (inserted, exec, ctx) => .ok (inserted.isSome, .insert exec, ctx)
      else
        match exec.nextTuple row.child with
        | .error fault => .error fault
        | .ok (none, exec) => .ok (false, .insert exec, ctx)
        | .ok (some _, exec) => .ok (false, .insert exec, ctx.abort)
  | .update exec =>
      if row.fetched then
        match exec.next ctx row.child with
        | .error fault => .error fault
        | .ok (updated, ctx) => .ok (updated.isSome, .update exec, ctx)
      else
        match row.child with
        | none => .ok (false, .update exec, ctx)
        | some (tuple, _) =>
            match exec.generateUpdatedTuple tuple with
            | .error fault => .error (.eval fault)
            | .ok _ => .ok (false, .update exec, ctx.abort)
  | .delete exec =>
      if row.fetched then
        match exec.next ctx row.child with
        | .error fault => .error fault
        | .ok (deleted, ctx) => .ok (deleted.isSome, .delete exec, ctx)
      else
        match row.child with
        | none => .ok (false, .delete exec, ctx)
        | some _ => .ok (false, .delete exec, ctx.abort)

/-- The calls of `Next`, one after the other. -/
def machine : Machine (WriteStatement × ExecutorContext) SourceRow Bool CatalogFault where
  step state row :=
    match state.1.next state.2 row with
    | .error fault => .error fault
    | .ok (found, statement, ctx) => .ok (found, statement, ctx)

/-- `Execute`: it returns `true` when its loop is through. An exception is a fault here,
whether `Execute` catches it and returns `false` or not. -/
def execute : WriteStatement → ExecutorContext → List SourceRow →
    Except CatalogFault (Bool × ExecutorContext)
  | statement, ctx, [] =>
      match statement.next ctx { child := none, fetched := true } with
      | .error fault => .error fault
      | .ok (_, _, ctx) => .ok (true, ctx)
  | statement, ctx, row :: rest =>
      match statement.next ctx row with
      | .error fault => .error fault
      | .ok (false, _, ctx) => .ok (true, ctx)
      | .ok (true, statement, ctx) => execute statement ctx rest

/-! ## What a statement is for -/

/-- The page that is to take the row takes it. -/
def Processes (ctx : ExecutorContext) (row : SourceRow) : WriteStatement → Prop
  | .insert exec => ∃ tuple exec', exec.nextTuple row.child = .ok (some tuple, exec') ∧
      row.fetched ∧ ∃ rid bpm transaction, exec'.tableInfo.table.insertTuple ctx.bpm
        ctx.transaction tuple = .ok (some rid, bpm, transaction)
  | .update exec => ∃ tuple rid newTuple, row.child = some (tuple, rid) ∧
      exec.generateUpdatedTuple tuple = .ok newTuple ∧ row.fetched ∧ ∃ oldTuple page,
        TablePage.updateTuple (ctx.bpm.pages rid.pageId) newTuple rid = .ok (some (oldTuple, page))
  | .delete _ => ∃ tuple rid, row.child = some (tuple, rid) ∧ row.fetched ∧
      (TablePage.markDelete (ctx.bpm.pages rid.pageId) rid).1 = true

/-- Every row has its turn, and the page takes it. -/
def ProcessesAll : WriteStatement → ExecutorContext → List SourceRow → Prop
  | _, _, [] => True
  | statement, ctx, row :: rest => statement.Processes ctx row ∧
      ∃ statement' ctx', statement.next ctx row = .ok (true, statement', ctx') ∧
        ProcessesAll statement' ctx' rest

/-! ## Rows that a table takes -/

/-- From a page of a chain on there is room for a tuple, on a page that is there or on a new one. -/
inductive HasRoom (pool : PagePool) (size : Nat) : PageId → Prop where
  | here {pageId : PageId}
      (hfits : size + TablePage.sizeTuple ≤ TablePage.getFreeSpaceRemaining (pool.pages pageId)) :
      HasRoom pool size pageId
  | behind {pageId : PageId} (hnext : TablePage.getNextPageId (pool.pages pageId) ≠ invalidPageId)
      (hroom : HasRoom pool size (TablePage.getNextPageId (pool.pages pageId))) :
      HasRoom pool size pageId
  | new {pageId : PageId} (hlast : TablePage.getNextPageId (pool.pages pageId) = invalidPageId)
      (hnew : pool.newPage.isSome)
      (hfits : size + TablePage.sizeTuple + TablePage.sizeTablePageHeader ≤ pageSize) :
      HasRoom pool size pageId

/-- The slot of a record id has a tuple that is not deleted. -/
def IsLive (pool : PagePool) (rid : RID) : Prop :=
  rid.slotNum < TablePage.getTupleCount (pool.pages rid.pageId) ∧
    TablePage.isDeleted (TablePage.getTupleSize (pool.pages rid.pageId) rid.slotNum) = false

/-- The page can be fetched, and it can take the row: a tuple to insert finds room, one to update
or to delete is there, and an updated one finds room in its page. -/
def Takes (state : WriteStatement × ExecutorContext) (row : SourceRow) : Prop :=
  row.fetched ∧
    match state.1 with
    | .insert exec => ∃ tuple exec', exec.nextTuple row.child = .ok (some tuple, exec') ∧
        toUInt32 (tuple.length + 32) ≤ pageSize ∧
        HasRoom state.2.bpm tuple.length exec'.tableInfo.table.firstPageId
    | .update exec => ∃ tuple rid newTuple, row.child = some (tuple, rid) ∧
        exec.generateUpdatedTuple tuple = .ok newTuple ∧ IsLive state.2.bpm rid ∧
        newTuple.length ≤ toUInt32
          (TablePage.getFreeSpaceRemaining (state.2.bpm.pages rid.pageId) +
            TablePage.getTupleSize (state.2.bpm.pages rid.pageId) rid.slotNum)
    | .delete _ => ∃ tuple rid, row.child = some (tuple, rid) ∧ IsLive state.2.bpm rid

end WriteStatement

end BusTub
