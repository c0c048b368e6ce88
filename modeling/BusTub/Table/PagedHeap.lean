import BusTub.Buffer.PoolCalls
import BusTub.Storage.PageBytes
import BusTub.Table.TableIterator

/-! # Table heaps over the pages of a pool

The operations of a table heap and its iterators as programs that call a pool: they fetch
the pages, read and change their bytes through the pins that they hold, and unpin them with
the flags that the source passes, by the ids that it takes from the pages.
-/

namespace BusTub.PagedHeap

open PoolM TablePage TableIterator

/-- An operation of a table heap. -/
abbrev HeapM (α : Type) : Type := PoolM HeapFault α

/-! ## The calls -/

/-- Read a table page through a pointer to it. -/
def readTablePage (pageId : PageId) : HeapM Memory := do
  let data ← readPage pageId
  pure (toMemory data)

/-- Leave a table page as it has become. -/
def storeTablePage (pageId : PageId) (page : Memory) : HeapM Unit :=
  modifyPage pageId fun _ => ofMemory page

/-- A call on the page that returns a fault does not return. -/
def lift {α : Type} : Except HeapFault α → HeapM α
  | .error fault => fail fault
  | .ok result => pure result

/-- The constructor that makes the first page. It returns `first_page_id_`. -/
def create : HeapM PageId := do
  let firstPageId ← newPage
  let firstPage ← readTablePage firstPageId
  storeTablePage firstPageId (init firstPage firstPageId pageSize invalidPageId)
  PoolM.unpinPage firstPageId true
  pure firstPageId

/-! ## The operations -/

/-- The loop of `InsertTuple`, at most `fuel` turns of it. The current page is pinned when it
begins. -/
def insertLoop (tuple : Tuple) : Nat → PageId → HeapM RID
  | 0, _ => fail .diverges
  | fuel + 1, curPageId => do
      let curPage ← readTablePage curPageId
      match ← lift (TablePage.insertTuple curPage tuple) with
      | some (rid, curPage) =>
          storeTablePage curPageId curPage
          PoolM.unpinPage (getTablePageId curPage) true
          pure rid
      | none =>
          let nextPageId := getNextPageId curPage
          if nextPageId ≠ invalidPageId then
            PoolM.unpinPage (getTablePageId curPage) false
            PoolM.fetchPage nextPageId
            insertLoop tuple fuel nextPageId
          else
            let newPageId ← newPage
            let newPage ← readTablePage newPageId
            let curPage := setNextPageId curPage newPageId
            storeTablePage curPageId curPage
            storeTablePage newPageId (init newPage newPageId pageSize (getTablePageId curPage))
            PoolM.unpinPage (getTablePageId curPage) true
            insertLoop tuple fuel newPageId

/-- `InsertTuple`, with at most `fuel` turns of its loop. -/
def insertTuple (fuel : Nat) (table : TableHeap) (tuple : Tuple) (txn : Transaction) :
    HeapM (Option RID × Transaction) :=
  if toUInt32 (tuple.length + 32) > pageSize then pure (none, { txn with state := .aborted })
  else do
    PoolM.fetchPage table.firstPageId
    let rid ← insertLoop tuple fuel table.firstPageId
    let record := { rid, wtype := .insert, tuple := [], table := table.oid }
    pure (some rid, { txn with tableWriteSet := txn.tableWriteSet ++ [record] })

/-- `MarkDelete`: the result of the page is not looked at. -/
def markDelete (table : TableOid) (rid : RID) (txn : Transaction) : HeapM Transaction := do
  PoolM.fetchPage rid.pageId
  let page ← readTablePage rid.pageId
  let (_, page) := TablePage.markDelete page rid
  storeTablePage rid.pageId page
  PoolM.unpinPage (getTablePageId page) true
  let record := { rid, wtype := .delete, tuple := [], table }
  pure { txn with tableWriteSet := txn.tableWriteSet ++ [record] }

/-- `UpdateTuple`. The page is dirty only if the tuple was updated. -/
def updateTuple (table : TableOid) (tuple : Tuple) (rid : RID) (txn : Transaction) :
    HeapM (Bool × Transaction) := do
  PoolM.fetchPage rid.pageId
  let page ← readTablePage rid.pageId
  match ← lift (TablePage.updateTuple page tuple rid) with
  | none =>
      PoolM.unpinPage (getTablePageId page) false
      pure (false, txn)
  | some (oldTuple, page) =>
      storeTablePage rid.pageId page
      PoolM.unpinPage (getTablePageId page) true
      if txn.state ≠ .aborted then
        let record := { rid, wtype := .update, tuple := oldTuple, table }
        pure (true, { txn with tableWriteSet := txn.tableWriteSet ++ [record] })
      else pure (true, txn)

/-- `ApplyDelete`. -/
def applyDelete (rid : RID) : HeapM Unit := do
  PoolM.fetchPage rid.pageId
  let page ← readTablePage rid.pageId
  let page ← lift (TablePage.applyDelete page rid)
  storeTablePage rid.pageId page
  PoolM.unpinPage (getTablePageId page) true

/-- `RollbackDelete`. -/
def rollbackDelete (rid : RID) : HeapM Unit := do
  PoolM.fetchPage rid.pageId
  let page ← readTablePage rid.pageId
  let page ← lift (TablePage.rollbackDelete page rid)
  storeTablePage rid.pageId page
  PoolM.unpinPage (getTablePageId page) true

/-- `GetTuple`. -/
def getTuple (rid : RID) : HeapM (Option Tuple) := do
  PoolM.fetchPage rid.pageId
  let page ← readTablePage rid.pageId
  PoolM.unpinPage rid.pageId false
  pure (TablePage.getTuple page rid)

/-! ## Iterators -/

/-- The constructor of an iterator from a record id. -/
def ofRid (rid : RID) : HeapM TableIterator :=
  if rid.pageId ≠ invalidPageId then do
    let tuple ← getTuple rid
    pure { rid, tuple := tuple.getD [] }
  else pure { rid, tuple := [] }

/-- The loop of `Begin` over the pages, at most `fuel` turns of it. -/
def firstRid : Nat → PageId → HeapM RID
  | 0, _ => fail .diverges
  | fuel + 1, pageId =>
      if pageId = invalidPageId then pure endRid
      else do
        PoolM.fetchPage pageId
        let page ← readTablePage pageId
        PoolM.unpinPage pageId false
        match getFirstTupleRid page with
        | some rid => pure rid
        | none => firstRid fuel (getNextPageId page)

/-- `Begin`, with at most `fuel` turns of its loop. -/
def first (fuel : Nat) (table : TableHeap) : HeapM TableIterator := do
  let rid ← firstRid fuel table.firstPageId
  ofRid rid

/-- The loop of `operator++` over the pages behind one, at most `fuel` turns of it, with the
page that is pinned when it ends. A page is unpinned when the next one has been fetched. -/
def ridBehind : Nat → PageId → HeapM (RID × PageId)
  | 0, _ => fail .diverges
  | fuel + 1, curPageId => do
      let curPage ← readTablePage curPageId
      let nextPageId := getNextPageId curPage
      if nextPageId = invalidPageId then pure (endRid, curPageId)
      else
        PoolM.fetchPage nextPageId
        PoolM.unpinPage (getTablePageId curPage) false
        let nextPage ← readTablePage nextPageId
        match getFirstTupleRid nextPage with
        | some rid => pure (rid, nextPageId)
        | none => ridBehind fuel nextPageId

/-- The record id that `operator++` goes to, and the page that is pinned then. -/
def nextRid (fuel : Nat) (rid : RID) : HeapM (RID × PageId) := do
  let curPage ← readTablePage rid.pageId
  match getNextTupleRid curPage rid with
  | some nextTupleRid => pure (nextTupleRid, rid.pageId)
  | none => ridBehind fuel rid.pageId

/-- The tuple of an iterator that is not at the end. -/
def tupleAt (rid : RID) : HeapM (Option Tuple) := if rid ≠ endRid then getTuple rid else pure none

/-- `operator++`, with at most `fuel` turns of its loop. -/
def advance (fuel : Nat) (it : TableIterator) : HeapM TableIterator := do
  PoolM.fetchPage it.rid.pageId
  let (rid, curPageId) ← nextRid fuel it.rid
  let tuple ← tupleAt rid
  let curPage ← readTablePage curPageId
  PoolM.unpinPage (getTablePageId curPage) false
  pure { rid, tuple := tuple.getD it.tuple }

/-! ## Sessions -/

/-- A call of the heap, or what others do with the pages of the pool. -/
inductive Request where
  | insertTuple (tuple : Tuple) (txn : Transaction)
  | markDelete (rid : RID) (txn : Transaction)
  | updateTuple (tuple : Tuple) (rid : RID) (txn : Transaction)
  | applyDelete (rid : RID)
  | rollbackDelete (rid : RID)
  | getTuple (rid : RID)
  | first
  | advance (it : TableIterator)
  | fetchOther (pageId : PageId)
  | unpinOther (pageId : PageId) (isDirty : Bool)

/-- What a call returns, with the transaction that it leaves. -/
inductive Response where
  | inserted (rid? : Option RID) (txn : Transaction)
  | marked (txn : Transaction)
  | updated (isUpdated : Bool) (txn : Transaction)
  | tuple (tuple? : Option Tuple)
  | iterator (it : TableIterator)
  | done

variable (fuel : Nat) (table : TableHeap)

/-- One call. -/
def serve : Request → HeapM Response
  | .insertTuple tuple txn => do
      let (rid?, txn) ← insertTuple fuel table tuple txn
      pure (.inserted rid? txn)
  | .markDelete rid txn => do
      let txn ← markDelete table.oid rid txn
      pure (.marked txn)
  | .updateTuple tuple rid txn => do
      let (isUpdated, txn) ← updateTuple table.oid tuple rid txn
      pure (.updated isUpdated txn)
  | .applyDelete rid => do
      applyDelete rid
      pure .done
  | .rollbackDelete rid => do
      rollbackDelete rid
      pure .done
  | .getTuple rid => do
      let tuple? ← getTuple rid
      pure (.tuple tuple?)
  | .first => do
      let it ← first fuel table
      pure (.iterator it)
  | .advance it => do
      let it ← advance fuel it
      pure (.iterator it)
  | .fetchOther pageId => .call (.fetchOther pageId) fun _ => pure .done
  | .unpinOther pageId isDirty => .call (.unpinOther pageId isDirty) fun _ => pure .done

/-- Calls one after the other. -/
def serveAll : List Request → HeapM (List Response)
  | [] => pure []
  | request :: rest => do
      let response ← serve fuel table request
      let responses ← serveAll rest
      pure (response :: responses)

/-- A heap is constructed and called. -/
def session (oid : TableOid) (requests : List Request) : HeapM (List Response) := do
  let firstPageId ← create
  serveAll fuel { oid, firstPageId } requests

end BusTub.PagedHeap
