import BusTub.Catalog.Catalog

/-! # Commit and abort

`TransactionManager`: the end of a transaction works through its write sets from the
back. No locks are held, since logging is disabled.
-/

namespace BusTub.TransactionManager

/-- The loop of `Commit` over the write records, the last one first. -/
def applyDeletes : List TableWriteRecord → PagePool → Except HeapFault PagePool
  | [], pool => .ok pool
  | item :: rest, pool =>
      if item.wtype = .delete then
        match TableHeap.applyDelete pool item.rid with
        | .error fault => .error fault
        | .ok pool => applyDeletes rest pool
      else applyDeletes rest pool

/-- `Commit`. -/
def commit (pool : PagePool) (txn : Transaction) : Except HeapFault (PagePool × Transaction) :=
  match applyDeletes txn.tableWriteSet.reverse pool with
  | .error fault => .error fault
  | .ok pool => .ok (pool, { txn with state := .committed, tableWriteSet := [] })

/-- `Abort` undoes one write of a table. The result of `UpdateTuple` is not looked at. -/
def undoWrite (pool : PagePool) (txn : Transaction) (item : TableWriteRecord) :
    Except HeapFault (PagePool × Transaction) :=
  match item.wtype with
  | .delete =>
      match TableHeap.rollbackDelete pool item.rid with
      | .error fault => .error fault
      | .ok pool => .ok (pool, txn)
  | .insert =>
      match TableHeap.applyDelete pool item.rid with
      | .error fault => .error fault
      | .ok pool => .ok (pool, txn)
  | .update =>
      match TableHeap.updateTuple item.table pool txn item.tuple item.rid with
      | .error fault => .error fault
      | .ok (_, pool, txn) => .ok (pool, txn)

/-- The loop of `Abort` over the write records of tables, the last one first. -/
def undoWrites : List TableWriteRecord → PagePool → Transaction →
    Except HeapFault (PagePool × Transaction)
  | [], pool, txn => .ok (pool, txn)
  | item :: rest, pool, txn =>
      match undoWrite pool txn item with
      | .error fault => .error fault
      | .ok (pool, txn) => undoWrites rest pool txn

/-- `Abort` undoes one write of an index. -/
def undoIndexWrite (catalog : Catalog) (item : IndexWriteRecord) : Except CatalogFault Catalog :=
  match catalog.getTable item.tableOid, catalog.getIndex item.indexOid with
  | some tableInfo, some indexInfo =>
      let keyOf tuple := Tuple.keyFromTuple tuple tableInfo.schema
        indexInfo.index.metadata.keySchema indexInfo.index.metadata.keyAttrs
      let setIndex index := { catalog with
        indexes := Function.update catalog.indexes item.indexOid (some { indexInfo with index }) }
      match keyOf item.tuple with
      | .error fault => .error (.eval fault)
      | .ok newKey =>
          match item.wtype with
          | .delete => .ok (setIndex (indexInfo.index.insertEntry newKey item.rid))
          | .insert => .ok (setIndex (indexInfo.index.deleteEntry newKey item.rid))
          | .update =>
              match keyOf item.oldTuple with
              | .error fault => .error (.eval fault)
              | .ok oldKey =>
                  .ok (setIndex ((indexInfo.index.deleteEntry newKey item.rid).insertEntry
                    oldKey item.rid))
  | _, _ => .error .nullInfo

/-- The loop of `Abort` over the write records of indexes, the last one first. -/
def undoIndexWrites : List IndexWriteRecord → Catalog → Except CatalogFault Catalog
  | [], catalog => .ok catalog
  | item :: rest, catalog =>
      match undoIndexWrite catalog item with
      | .error fault => .error fault
      | .ok catalog => undoIndexWrites rest catalog

/-- `Abort`. -/
def abort (pool : PagePool) (catalog : Catalog) (txn : Transaction) :
    Except CatalogFault (PagePool × Catalog × Transaction) :=
  match undoWrites txn.tableWriteSet.reverse pool { txn with state := .aborted } with
  | .error fault => .error (.heap fault)
  | .ok (pool, txn) =>
      match undoIndexWrites txn.indexWriteSet.reverse catalog with
      | .error fault => .error fault
      | .ok catalog => .ok (pool, catalog, { txn with tableWriteSet := [], indexWriteSet := [] })

end BusTub.TransactionManager
