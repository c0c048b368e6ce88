import BusTub.Concurrency.AbortUndo
import BusTub.Execution.TableIndexes

/-! # Transactions one after the other

A script makes tables and indexes and runs whole transactions, each of them from its begin
to its commit or abort before the next one starts.
-/

namespace BusTub

/-- A statement of a transaction: its plan, and what the child executor returns for one
`Next` after the other. -/
structure ScriptStatement where
  plan : Plan
  rows : List (Option (Tuple × RID))
  deriving DecidableEq

/-- One step of a script. -/
inductive Script where
  | createTable (tableName : String) (schema : Schema)
  | createIndex (indexName tableName : String) (schema keySchema : Schema) (keyAttrs : List Nat)
  | transaction (isolationLevel : IsolationLevel) (statements : List ScriptStatement)
      (commits : Bool)
  deriving DecidableEq

namespace Script

/-- The calls of the statements, the first of which gets the number `k`. -/
def statementRequests (txnId : TxnId) : Nat → List ScriptStatement → List Request
  | _, [] => []
  | k, statement :: rest =>
      .openStatement txnId statement.plan ::
        (statement.rows.map (.next k) ++ statementRequests txnId (k + 1) rest)

/-- The calls of a transaction before its end. -/
def bodyRequests (db : Database) (isolationLevel : IsolationLevel)
    (statements : List ScriptStatement) : List Request :=
  .begin isolationLevel :: statementRequests db.nextTxnId db.statements.length statements

/-- The calls of a step. -/
def requests (db : Database) : Script → List Request
  | .createTable tableName schema => [.createTable tableName schema]
  | .createIndex indexName tableName schema keySchema keyAttrs =>
      [.createIndex indexName tableName schema keySchema keyAttrs]
  | .transaction isolationLevel statements commits =>
      bodyRequests db isolationLevel statements ++
        [if commits then .commit db.nextTxnId else .abort db.nextTxnId]

end Script

namespace Database

variable [DoubleText] [ValueArithmetic]

/-- The steps of scripts. -/
def scripts : Machine Database Script (List (Option (Tuple × RID))) CatalogFault where
  step db script := machine.run db (script.requests db)

/-- Every index holds exactly the keys and record ids of the tuples that a reader of its
table sees. -/
def IndexesConsistent (db : Database) : Prop :=
  db.catalog.Mirrored fun table => table.visible db.pool

/-! ## What the callers promise -/

/-- The child of a delete or an update returns a tuple of the table with its record id. -/
def WholeRow (db : Database) : Request → Prop
  | .next k (some (tuple, rid)) =>
      match db.statements[k]? with
      | some ⟨_, .delete exec⟩ => exec.tableInfo.table.visible db.pool rid = some tuple
      | some ⟨_, .update exec⟩ => exec.tableInfo.table.visible db.pool rid = some tuple
      | _ => True
  | _ => True

/-- The schema for a new index is that of its table, and rows are those of the table. -/
def Promised (db : Database) : Script → Prop
  | .createTable _ _ => True
  | .createIndex _ tableName schema _ _ =>
      match db.catalog.getTableNamed tableName with
      | .ok (some tableInfo) => tableInfo.schema = schema
      | _ => True
  | .transaction isolationLevel statements commits =>
      machine.Guarded WholeRow db
        (Script.requests db (.transaction isolationLevel statements commits))

/-! ## What an abort needs -/

/-- An update can be undone on the pages of the abort. -/
def UndoFits (aborting : PagePool) (db : Database) : Request → Prop
  | .next k (some (tuple, rid)) =>
      match db.statements[k]? with
      | some ⟨txnId, .update exec⟩ =>
          match exec.generateUpdatedTuple tuple with
          | .error _ => True
          | .ok newTuple => TableHeap.LeavesRoom aborting (db.pool, db.transactions txnId)
              (.updateTuple newTuple rid)
      | _ => True
  | _ => True

/-- The updates of an aborting transaction can be undone. -/
def UpdatesUndoable (db : Database) : Script → Prop
  | .transaction isolationLevel statements false =>
      match machine.run db (Script.bodyRequests db isolationLevel statements) with
      | .error _ => True
      | .ok (_, aborting) => machine.Guarded (UndoFits aborting.pool) db
          (Script.bodyRequests db isolationLevel statements)
  | _ => True

/-- An aborting transaction leaves the indexes as they were when it began. -/
def IndexesUntouched (db : Database) : Script → Prop
  | .transaction isolationLevel statements false =>
      match machine.run db (Script.bodyRequests db isolationLevel statements) with
      | .error _ => True
      | .ok (_, aborting) => aborting.catalog.indexes = db.catalog.indexes
  | _ => True

variable {db : Database} {k : Nat} {txnId : TxnId} {tuple newTuple : Tuple} {rid : RID}

omit [DoubleText] [ValueArithmetic] in
theorem WholeRow.of_delete {exec : DeleteExecutor} (h : WholeRow db (.next k (some (tuple, rid))))
    (hstatement : db.statements[k]? = some { txnId, executor := .delete exec }) :
    exec.tableInfo.table.visible db.pool rid = some tuple := by
  dsimp only [WholeRow] at h
  rwa [hstatement] at h

omit [DoubleText] [ValueArithmetic] in
theorem WholeRow.of_update {exec : UpdateExecutor} (h : WholeRow db (.next k (some (tuple, rid))))
    (hstatement : db.statements[k]? = some { txnId, executor := .update exec }) :
    exec.tableInfo.table.visible db.pool rid = some tuple := by
  dsimp only [WholeRow] at h
  rwa [hstatement] at h

omit [DoubleText] in
theorem UndoFits.of_update {aborting : PagePool} {exec : UpdateExecutor}
    (h : UndoFits aborting db (.next k (some (tuple, rid))))
    (hstatement : db.statements[k]? = some { txnId, executor := .update exec })
    (hnew : exec.generateUpdatedTuple tuple = .ok newTuple) :
    TableHeap.LeavesRoom aborting (db.pool, db.transactions txnId) (.updateTuple newTuple rid) := by
  dsimp only [UndoFits] at h
  rw [hstatement] at h
  dsimp only at h
  rwa [hnew] at h

omit [DoubleText] [ValueArithmetic] in
instance (db : Database) (request : Request) : Decidable (WholeRow db request) := by
  unfold WholeRow
  split
  · split <;> infer_instance
  · infer_instance

instance (db : Database) (script : Script) : Decidable (Promised db script) := by
  unfold Promised
  split
  · infer_instance
  · split <;> infer_instance
  · infer_instance

omit [DoubleText] in
instance (aborting : PagePool) (db : Database) (request : Request) :
    Decidable (UndoFits aborting db request) := by
  unfold UndoFits
  split
  · split
    · split <;> infer_instance
    · infer_instance
  · infer_instance

instance (db : Database) (script : Script) : Decidable (UpdatesUndoable db script) := by
  unfold UpdatesUndoable
  split
  · split <;> infer_instance
  · infer_instance

end Database

end BusTub
