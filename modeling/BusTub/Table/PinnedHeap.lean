import BusTub.Buffer.Pins
import BusTub.Table.TableIterator

/-! # The pins of table heaps

The operations of a table heap and its iterators with the pages that they fetch and
unpin. `GetTuple` and `Begin` unpin a page by the id that they fetched it by; the other
operations unpin it by the id that is in it when they are done with it.
-/

namespace BusTub

open Counted (lift Moved)

namespace TableHeap.Pinned

open TablePage

/-- The loop of `InsertTuple`, at most `fuel` turns of it. The current page is pinned
when it begins. -/
def insertLoop (tuple : Tuple) :
    Nat → PageId → PagePool → PinM HeapFault (Option RID × PagePool)
  | 0, _, _ => lift (.error .diverges)
  | fuel + 1, curPageId, pool => do
      match ← lift (TablePage.insertTuple (pool.pages curPageId) tuple) with
      | some (rid, page) =>
          unpinPage (getTablePageId page)
          pure (some rid, pool.setPage curPageId page)
      | none =>
          let nextPageId := getNextPageId (pool.pages curPageId)
          if nextPageId ≠ invalidPageId then
            unpinPage (getTablePageId (pool.pages curPageId))
            fetchPage nextPageId
            insertLoop tuple fuel nextPageId pool
          else
            match pool.newPage with
            | none =>
                unpinPage (getTablePageId (pool.pages curPageId))
                pure (none, pool)
            | some (newPageId, newPool) =>
                fetchPage newPageId
                let curPage := setNextPageId (pool.pages curPageId) newPageId
                let newPool := newPool.setPage curPageId curPage
                let newPage := init (newPool.pages newPageId) newPageId pageSize
                  (getTablePageId curPage)
                unpinPage (getTablePageId curPage)
                insertLoop tuple fuel newPageId (newPool.setPage newPageId newPage)

/-- `InsertTuple`, with at most `fuel` turns of its loop. -/
def insertTuple (fuel : Nat) (heap : TableHeap) (pool : PagePool) (txn : Transaction)
    (tuple : Tuple) : PinM HeapFault (Option RID × PagePool × Transaction) :=
  if toUInt32 (tuple.length + 32) > pageSize then
    pure (none, pool, { txn with state := .aborted })
  else do
    fetchPage heap.firstPageId
    match ← insertLoop tuple fuel heap.firstPageId pool with
    | (none, pool) => pure (none, pool, { txn with state := .aborted })
    | (some rid, pool) =>
        let record := { rid, wtype := .insert, tuple := [], table := heap.oid }
        pure (some rid, pool, { txn with tableWriteSet := txn.tableWriteSet ++ [record] })

/-- `MarkDelete`. -/
def markDelete (table : TableOid) (pool : PagePool) (txn : Transaction) (rid : RID) :
    PinM HeapFault (Bool × PagePool × Transaction) := do
  fetchPage rid.pageId
  let page := (TablePage.markDelete (pool.pages rid.pageId) rid).2
  unpinPage (getTablePageId page)
  let record := { rid, wtype := .delete, tuple := [], table }
  pure (true, pool.setPage rid.pageId page,
    { txn with tableWriteSet := txn.tableWriteSet ++ [record] })

/-- `UpdateTuple`. -/
def updateTuple (table : TableOid) (pool : PagePool) (txn : Transaction) (tuple : Tuple)
    (rid : RID) : PinM HeapFault (Bool × PagePool × Transaction) := do
  fetchPage rid.pageId
  match ← lift (TablePage.updateTuple (pool.pages rid.pageId) tuple rid) with
  | none =>
      unpinPage (getTablePageId (pool.pages rid.pageId))
      pure (false, pool, txn)
  | some (oldTuple, page) =>
      unpinPage (getTablePageId page)
      let pool := pool.setPage rid.pageId page
      if txn.state ≠ .aborted then
        let record := { rid, wtype := .update, tuple := oldTuple, table }
        pure (true, pool, { txn with tableWriteSet := txn.tableWriteSet ++ [record] })
      else pure (true, pool, txn)

/-- `ApplyDelete`. -/
def applyDelete (pool : PagePool) (rid : RID) : PinM HeapFault PagePool := do
  fetchPage rid.pageId
  let page ← lift (TablePage.applyDelete (pool.pages rid.pageId) rid)
  unpinPage (getTablePageId page)
  pure (pool.setPage rid.pageId page)

/-- `RollbackDelete`. -/
def rollbackDelete (pool : PagePool) (rid : RID) : PinM HeapFault PagePool := do
  fetchPage rid.pageId
  let page ← lift (TablePage.rollbackDelete (pool.pages rid.pageId) rid)
  unpinPage (getTablePageId page)
  pure (pool.setPage rid.pageId page)

/-- `GetTuple`. -/
def getTuple (pool : PagePool) (rid : RID) : PinM HeapFault (Option Tuple) := do
  fetchPage rid.pageId
  let res := TablePage.getTuple (pool.pages rid.pageId) rid
  unpinPage rid.pageId
  pure res

theorem getTuple_eq (pool : PagePool) (rid : RID) :
    getTuple pool rid = pure (TableHeap.getTuple pool rid) := by
  unfold getTuple
  rw [fetchPage_unpinPage]
  rfl

end TableHeap.Pinned

namespace TableIterator.Pinned

open TablePage TableHeap.Pinned

/-- The constructor from a record id. -/
def ofRid (pool : PagePool) (rid : RID) : PinM HeapFault TableIterator :=
  if rid.pageId ≠ invalidPageId then do
    let tuple ← getTuple pool rid
    pure { rid, tuple := tuple.getD [] }
  else pure { rid, tuple := [] }

/-- The loop of `Begin` over the pages, at most `fuel` turns of it. -/
def firstRid (pool : PagePool) : Nat → PageId → PinM HeapFault RID
  | 0, _ => lift (.error .diverges)
  | fuel + 1, pageId =>
      if pageId = invalidPageId then pure endRid
      else do
        fetchPage pageId
        let found := getFirstTupleRid (pool.pages pageId)
        unpinPage pageId
        match found with
        | some rid => pure rid
        | none => firstRid pool fuel (getNextPageId (pool.pages pageId))

/-- `Begin`, with at most `fuel` turns of its loop. -/
def first (fuel : Nat) (table : TableHeap) (pool : PagePool) : PinM HeapFault TableIterator := do
  let rid ← firstRid pool fuel table.firstPageId
  ofRid pool rid

/-- The loop of `operator++` over the pages behind one, at most `fuel` turns of it, with the
page that is pinned when it ends. A page is unpinned when the next one has been fetched. -/
def ridBehind (pool : PagePool) : Nat → PageId → PinM HeapFault (RID × PageId)
  | 0, _ => lift (.error .diverges)
  | fuel + 1, curPageId =>
      let nextPageId := getNextPageId (pool.pages curPageId)
      if nextPageId = invalidPageId then pure (endRid, curPageId)
      else do
        fetchPage nextPageId
        unpinPage (getTablePageId (pool.pages curPageId))
        match getFirstTupleRid (pool.pages nextPageId) with
        | some rid => pure (rid, nextPageId)
        | none => ridBehind pool fuel nextPageId

/-- The record id that `operator++` goes to, and the page that is pinned then. -/
def nextRid (fuel : Nat) (pool : PagePool) (rid : RID) : PinM HeapFault (RID × PageId) :=
  match getNextTupleRid (pool.pages rid.pageId) rid with
  | some nextTupleRid => pure (nextTupleRid, rid.pageId)
  | none => ridBehind pool fuel rid.pageId

/-- `operator++`, with at most `fuel` turns of its loop. -/
def advance (fuel : Nat) (pool : PagePool) (it : TableIterator) :
    PinM HeapFault TableIterator := do
  fetchPage it.rid.pageId
  let (rid, curPageId) ← nextRid fuel pool it.rid
  if rid ≠ endRid then
    let tuple ← getTuple pool rid
    unpinPage (getTablePageId (pool.pages curPageId))
    pure { rid, tuple := tuple.getD it.tuple }
  else
    unpinPage (getTablePageId (pool.pages curPageId))
    pure { rid, tuple := it.tuple }

end TableIterator.Pinned

end BusTub
