import BusTub.Concurrency.TransactionManager
import BusTub.Execution.SeqScanExecutor
import BusTub.Execution.WriteExecutors
import BusTub.Library.Machine

/-! # A database with several transactions

Transactions run statements, each of them an executor that is opened and then called for
one row after the other; a scan below another executor counts as a statement of its own.
The calls of different transactions take turns in any order: there is no lock on their
way, since logging is disabled.
-/

namespace BusTub

/-- The plans of statements. -/
inductive Plan where
  | seqScan (plan : SeqScanPlanNode)
  | insert (plan : InsertPlanNode)
  | delete (tableOid : TableOid)
  | update (plan : UpdatePlanNode)
  deriving DecidableEq

/-- The executors of statements. -/
inductive Executor where
  | seqScan (exec : SeqScanExecutor)
  | insert (exec : InsertExecutor)
  | delete (exec : DeleteExecutor)
  | update (exec : UpdateExecutor)

/-- A statement that a transaction has opened. -/
structure Statement where
  txnId : TxnId
  executor : Executor

/-- Buffer pool, catalog, `txn_map` and the open statements. -/
structure Database where
  pool : PagePool
  catalog : Catalog
  transactions : TxnId → Transaction
  nextTxnId : TxnId
  statements : List Statement

/-- A call that a user of the database makes. -/
inductive Request where
  | createTable (tableName : String) (schema : Schema)
  | createIndex (indexName tableName : String) (schema keySchema : Schema) (keyAttrs : List Nat)
  | begin (isolationLevel : IsolationLevel)
  | openStatement (txnId : TxnId) (plan : Plan)
  /-- `Next` of a statement; the child executor, if it has one and calls it, gives the row. -/
  | next (statement : Nat) (child : Option (Tuple × RID))
  | commit (txnId : TxnId)
  | abort (txnId : TxnId)
  deriving DecidableEq

/-- A scan that does not return. -/
def ExecutorFault.toCatalogFault : ExecutorFault → CatalogFault
  | .heap fault => .heap fault
  | .eval fault => .eval fault

namespace Executor

/-- `ExecutorFactory::CreateExecutor` and `Init`. -/
def create (pool : PagePool) (catalog : Catalog) : Plan → Except CatalogFault Executor
  | .seqScan plan =>
      match catalog.getTable plan.tableOid with
      | none => .error .nullInfo
      | some tableInfo =>
          match (SeqScanExecutor.new tableInfo plan).init pool with
          | .error fault => .error (.heap fault)
          | .ok exec => .ok (.seqScan exec)
  | .insert plan =>
      match InsertExecutor.new catalog plan with
      | .error fault => .error fault
      | .ok exec => .ok (.insert exec)
  | .delete tableOid =>
      match DeleteExecutor.new catalog tableOid with
      | .error fault => .error fault
      | .ok exec => .ok (.delete exec)
  | .update plan =>
      match UpdateExecutor.new catalog plan with
      | .error fault => .error fault
      | .ok exec => .ok (.update exec)

/-- The table that an executor reads or writes. -/
def tableInfo : Executor → TableInfo
  | .seqScan exec => exec.tableInfo
  | .insert exec => exec.tableInfo
  | .delete exec => exec.tableInfo
  | .update exec => exec.tableInfo

variable [DoubleText] [ValueArithmetic]

/-- `Next`. -/
def next (ctx : ExecutorContext) (child : Option (Tuple × RID)) :
    Executor → Except CatalogFault (Option (Tuple × RID) × Executor × ExecutorContext)
  | .seqScan exec =>
      match exec.next ctx.bpm with
      | .error fault => .error fault.toCatalogFault
      | .ok (row, exec) => .ok (row, .seqScan exec, ctx)
  | .insert exec =>
      match exec.next ctx child with
      | .error fault => .error fault
      | .ok (row, exec, ctx) => .ok (row, .insert exec, ctx)
  | .delete exec =>
      match exec.next ctx child with
      | .error fault => .error fault
      | .ok (row, ctx) => .ok (row, .delete exec, ctx)
  | .update exec =>
      match exec.next ctx child with
      | .error fault => .error fault
      | .ok (row, ctx) => .ok (row, .update exec, ctx)

end Executor

namespace Database

/-- A database without tables. -/
def empty : Database where
  pool := { pages := fun _ => Memory.zeros, nextPageId := 0 }
  catalog := .empty
  transactions _ := {}
  nextTxnId := 0
  statements := []

/-- A transaction is stored. -/
def setTransaction (db : Database) (txnId : TxnId) (txn : Transaction) : Database :=
  { db with transactions := Function.update db.transactions txnId txn }

/-- The context of the statements of a transaction. -/
def context (db : Database) (txnId : TxnId) : ExecutorContext where
  transaction := db.transactions txnId
  catalog := db.catalog
  bpm := db.pool

/-- What a statement of a transaction has changed is stored. -/
def setContext (db : Database) (txnId : TxnId) (ctx : ExecutorContext) : Database :=
  { db with
    pool := ctx.bpm
    catalog := ctx.catalog
    transactions := Function.update db.transactions txnId ctx.transaction }

variable [DoubleText] [ValueArithmetic]

/-- A call of a user. Only `Next` has a result, the row if there is one. -/
def step (db : Database) : Request → Except CatalogFault (Option (Tuple × RID) × Database)
  | .createTable tableName schema =>
      match db.catalog.createTable db.pool tableName schema with
      | none => .ok (none, db)
      | some (_, catalog, pool) => .ok (none, { db with catalog, pool })
  | .createIndex indexName tableName schema keySchema keyAttrs =>
      match db.catalog.createIndex db.pool indexName tableName schema keySchema keyAttrs with
      | .error fault => .error fault
      | .ok (_, catalog) => .ok (none, { db with catalog })
  | .begin isolationLevel =>
      .ok (none, { db.setTransaction db.nextTxnId { isolationLevel } with
        nextTxnId := db.nextTxnId + 1 })
  | .openStatement txnId plan =>
      match Executor.create db.pool db.catalog plan with
      | .error fault => .error fault
      | .ok executor => .ok (none, { db with statements := db.statements ++ [{ txnId, executor }] })
  | .next statement child =>
      match db.statements[statement]? with
      | none => .ok (none, db)
      | some { txnId, executor } =>
          match executor.next (db.context txnId) child with
          | .error fault => .error fault
          | .ok (row, executor, ctx) => .ok (row, { db.setContext txnId ctx with
              statements := db.statements.set statement { txnId, executor } })
  | .commit txnId =>
      match TransactionManager.commit db.pool (db.transactions txnId) with
      | .error fault => .error (.heap fault)
      | .ok (pool, txn) => .ok (none, { db.setTransaction txnId txn with pool })
  | .abort txnId =>
      match TransactionManager.abort db.pool db.catalog (db.transactions txnId) with
      | .error fault => .error fault
      | .ok (pool, catalog, txn) => .ok (none, { db.setTransaction txnId txn with pool, catalog })

/-- The calls of the users of a database. -/
def machine : Machine Database Request (Option (Tuple × RID)) CatalogFault where
  step := step

end Database

end BusTub
