import BusTub.Catalog.Catalog

/-! # Executors that write

`InsertExecutor`, `DeleteExecutor` and `UpdateExecutor`. What the `Next` of the child
executor returns is an input; neither of the three looks at locks or logs.
-/

namespace BusTub

/-- `ExecutorContext`, as far as these executors use it. -/
structure ExecutorContext where
  transaction : Transaction
  catalog : Catalog
  bpm : PagePool

/-- The table and the indexes that a constructor fetches from the catalog. -/
def Catalog.fetchTable (catalog : Catalog) (tableOid : TableOid) :
    Except CatalogFault (TableInfo × List IndexOid) :=
  match catalog.getTable tableOid with
  | none => .error .nullInfo
  | some tableInfo =>
      match catalog.getTableIndexes tableInfo.name with
      | .error fault => .error fault
      | .ok indexInfoArray => .ok (tableInfo, indexInfoArray)

/-! ## Inserting -/

/-- `InsertPlanNode`; without raw values the tuples come from a child plan. -/
structure InsertPlanNode where
  rawValues : Option (List (List Value))
  tableOid : TableOid
  deriving DecidableEq, Repr

/-- `InsertExecutor`. -/
structure InsertExecutor where
  plan : InsertPlanNode
  tableInfo : TableInfo
  indexInfoArray : List IndexOid
  nextInsertPos : Nat
  deriving DecidableEq, Repr

namespace InsertExecutor

/-- The constructor and `Init`. -/
def new (catalog : Catalog) (plan : InsertPlanNode) : Except CatalogFault InsertExecutor :=
  match catalog.fetchTable plan.tableOid with
  | .error fault => .error fault
  | .ok (tableInfo, indexInfoArray) => .ok { plan, tableInfo, indexInfoArray, nextInsertPos := 0 }

/-- The next tuple to insert, if there is one. -/
def nextTuple (exec : InsertExecutor) (child : Option (Tuple × RID)) :
    Except CatalogFault (Option Tuple × InsertExecutor) :=
  match exec.plan.rawValues with
  | none => .ok (child.map Prod.fst, exec)
  | some rawValues =>
      match rawValues[exec.nextInsertPos]? with
      | none => .ok (none, exec)
      | some values =>
          match Tuple.ofValues values exec.tableInfo.schema with
          | .error fault => .error (.eval fault)
          | .ok tuple => .ok (some tuple, { exec with nextInsertPos := exec.nextInsertPos + 1 })

/-- The entry that an index gets for a tuple. -/
def insertEntry (schema : Schema) (tuple : Tuple) (rid : RID) (indexInfo : IndexInfo) :
    Except EvalFault IndexInfo :=
  match indexInfo.keyOf schema tuple with
  | .error fault => .error fault
  | .ok indexKey => .ok { indexInfo with index := indexInfo.index.insertEntry indexKey rid }

/-- `Next`. -/
def next (exec : InsertExecutor) (ctx : ExecutorContext) (child : Option (Tuple × RID)) :
    Except CatalogFault (Option (Tuple × RID) × InsertExecutor × ExecutorContext) :=
  match exec.nextTuple child with
  | .error fault => .error fault
  | .ok (none, exec) => .ok (none, exec, ctx)
  | .ok (some tuple, exec) =>
      match exec.tableInfo.table.insertTuple ctx.bpm ctx.transaction tuple with
      | .error fault => .error (.heap fault)
      | .ok (none, bpm, transaction) => .ok (none, exec, { ctx with bpm, transaction })
      | .ok (some rid, bpm, transaction) =>
          match Catalog.forIndexes (insertEntry exec.tableInfo.schema tuple rid)
              exec.indexInfoArray ctx.catalog with
          | .error fault => .error fault
          | .ok catalog => .ok (some (tuple, rid), exec, { bpm, transaction, catalog })

end InsertExecutor

/-! ## Deleting -/

/-- `DeleteExecutor`. -/
structure DeleteExecutor where
  tableInfo : TableInfo
  indexInfoArray : List IndexOid
  deriving DecidableEq, Repr

namespace DeleteExecutor

/-- The constructor and `Init`. -/
def new (catalog : Catalog) (tableOid : TableOid) : Except CatalogFault DeleteExecutor :=
  match catalog.fetchTable tableOid with
  | .error fault => .error fault
  | .ok (tableInfo, indexInfoArray) => .ok { tableInfo, indexInfoArray }

/-- The entry that an index loses with a tuple. -/
def deleteEntry (schema : Schema) (tuple : Tuple) (rid : RID) (indexInfo : IndexInfo) :
    Except EvalFault IndexInfo :=
  match indexInfo.keyOf schema tuple with
  | .error fault => .error fault
  | .ok indexKey => .ok { indexInfo with index := indexInfo.index.deleteEntry indexKey rid }

/-- `Next`. -/
def next (exec : DeleteExecutor) (ctx : ExecutorContext) (child : Option (Tuple × RID)) :
    Except CatalogFault (Option (Tuple × RID) × ExecutorContext) :=
  match child with
  | none => .ok (none, ctx)
  | some (tuple, rid) =>
      match TableHeap.markDelete exec.tableInfo.table.oid ctx.bpm ctx.transaction rid with
      | (false, bpm, transaction) => .ok (none, { ctx with bpm, transaction })
      | (true, bpm, transaction) =>
          match Catalog.forIndexes (deleteEntry exec.tableInfo.schema tuple rid)
              exec.indexInfoArray ctx.catalog with
          | .error fault => .error fault
          | .ok catalog => .ok (some (tuple, rid), { bpm, transaction, catalog })

end DeleteExecutor

/-! ## Updating -/

/-- `UpdateType`. -/
inductive UpdateType where
  | add
  | set
  deriving DecidableEq, Repr

/-- `UpdateInfo`. -/
structure UpdateInfo where
  type : UpdateType
  updateVal : Int32
  deriving DecidableEq

/-- `UpdatePlanNode`; the map from columns to updates is a list of pairs. -/
structure UpdatePlanNode where
  tableOid : TableOid
  updateAttrs : List (Nat × UpdateInfo)
  deriving DecidableEq

/-- The arithmetic on values. -/
class ValueArithmetic where
  /-- `Value::Add`. -/
  add : Value → Value → Except EvalFault Value

/-- `UpdateExecutor`. -/
structure UpdateExecutor where
  plan : UpdatePlanNode
  tableInfo : TableInfo
  indexInfoArray : List IndexOid
  deriving DecidableEq

namespace UpdateExecutor

/-- The constructor and `Init`. -/
def new (catalog : Catalog) (plan : UpdatePlanNode) : Except CatalogFault UpdateExecutor :=
  match catalog.fetchTable plan.tableOid with
  | .error fault => .error fault
  | .ok (tableInfo, indexInfoArray) => .ok { plan, tableInfo, indexInfoArray }

/-- The entry of an index goes from the old key of a tuple to its new one. -/
def replaceEntry (schema : Schema) (tuple newTuple : Tuple) (rid : RID) (indexInfo : IndexInfo) :
    Except EvalFault IndexInfo :=
  match indexInfo.keyOf schema newTuple with
  | .error fault => .error fault
  | .ok indexKey =>
      match indexInfo.keyOf schema tuple with
      | .error fault => .error fault
      | .ok oldIndex => .ok { indexInfo with
          index := (indexInfo.index.deleteEntry oldIndex rid).insertEntry indexKey rid }

variable [ValueArithmetic]

/-- The value of a column of the updated tuple. -/
def updatedValue (exec : UpdateExecutor) (srcTuple : Tuple) (idx : Nat) : Except EvalFault Value :=
  match exec.plan.updateAttrs.lookup idx with
  | none => srcTuple.getValue exec.tableInfo.schema idx
  | some info => do
      let val ← srcTuple.getValue exec.tableInfo.schema idx
      match info.type with
      | .add => ValueArithmetic.add val (.integer info.updateVal)
      | .set => .ok (.integer info.updateVal)

/-- `GenerateUpdatedTuple`. -/
def generateUpdatedTuple (exec : UpdateExecutor) (srcTuple : Tuple) : Except EvalFault Tuple := do
  let schema := exec.tableInfo.schema
  let values ← (List.range schema.columns.length).mapM (exec.updatedValue srcTuple)
  Tuple.ofValues values schema

/-- `Next`. -/
def next (exec : UpdateExecutor) (ctx : ExecutorContext) (child : Option (Tuple × RID)) :
    Except CatalogFault (Option (Tuple × RID) × ExecutorContext) :=
  match child with
  | none => .ok (none, ctx)
  | some (tuple, rid) =>
      match exec.generateUpdatedTuple tuple with
      | .error fault => .error (.eval fault)
      | .ok newTuple =>
          match TableHeap.updateTuple exec.tableInfo.table.oid ctx.bpm ctx.transaction newTuple
              rid with
          | .error fault => .error (.heap fault)
          | .ok (false, bpm, transaction) => .ok (none, { ctx with bpm, transaction })
          | .ok (true, bpm, transaction) =>
              match Catalog.forIndexes (replaceEntry exec.tableInfo.schema tuple newTuple rid)
                  exec.indexInfoArray ctx.catalog with
              | .error fault => .error fault
              | .ok catalog => .ok (some (tuple, rid), { bpm, transaction, catalog })

end UpdateExecutor

end BusTub
