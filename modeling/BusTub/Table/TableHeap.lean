import BusTub.Table.TablePage
import Mathlib.Logic.Function.Basic

/-! # Table heaps

`TableHeap`: a chain of table pages. The pages are in a buffer pool that always
finds a page that exists; `NewPage` fails once the page ids are used up. Tables
share the pool, and a page id belongs to one table at most.
-/

namespace BusTub

/-- The pages of a buffer pool and the page id that `NewPage` gives out next. -/
structure PagePool where
  pages : PageId → Memory
  nextPageId : PageId

namespace PagePool

/-- `NewPage`: a page of zeros. `AllocatePage` refuses nothing, and past the last `page_id_t`
its counter wraps around; `none` stands for a counter that would. -/
def newPage (pool : PagePool) : Option (PageId × PagePool) :=
  if pool.nextPageId + 1 < 2 ^ 31 then
    some (pool.nextPageId,
      { pages := Function.update pool.pages pool.nextPageId (fun _ => 0)
        nextPageId := pool.nextPageId + 1 })
  else none

def setPage (pool : PagePool) (pageId : PageId) (page : Memory) : PagePool :=
  { pool with pages := Function.update pool.pages pageId page }

end PagePool

/-- `TableHeap`; write records name it by the table's oid. -/
structure TableHeap where
  oid : TableOid
  firstPageId : PageId
  deriving DecidableEq, Repr

namespace TableHeap

open TablePage

/-- The constructor that makes the first page. -/
def create (pool : PagePool) (oid : TableOid) : Option (TableHeap × PagePool) :=
  match pool.newPage with
  | none => none
  | some (firstPageId, pool) =>
      some ({ oid, firstPageId }, pool.setPage firstPageId
        (init (pool.pages firstPageId) firstPageId pageSize invalidPageId))

/-- The loop of `InsertTuple` that looks for a page with enough space, at most `fuel`
turns of it; `none` stands for a page that could not be created. -/
def insertLoop (tuple : Tuple) :
    Nat → PageId → PagePool → Except HeapFault (Option RID × PagePool)
  | 0, _, _ => .error .diverges
  | fuel + 1, curPageId, pool =>
      match TablePage.insertTuple (pool.pages curPageId) tuple with
      | .error fault => .error fault
      | .ok (some (rid, page)) => .ok (some rid, pool.setPage curPageId page)
      | .ok none =>
          let nextPageId := getNextPageId (pool.pages curPageId)
          if nextPageId ≠ invalidPageId then insertLoop tuple fuel nextPageId pool
          else
            match pool.newPage with
            | none => .ok (none, pool)
            | some (newPageId, pool) =>
                let curPage := setNextPageId (pool.pages curPageId) newPageId
                let pool := pool.setPage curPageId curPage
                let newPage := init (pool.pages newPageId) newPageId pageSize
                  (getTablePageId curPage)
                insertLoop tuple fuel newPageId (pool.setPage newPageId newPage)

/-- `InsertTuple`; `none` stands for `false`. The pages of a chain have different ids
below the next one, so that more turns than ids are needed only by a tuple that
fits on no page. -/
def insertTuple (heap : TableHeap) (pool : PagePool) (txn : Transaction) (tuple : Tuple) :
    Except HeapFault (Option RID × PagePool × Transaction) :=
  if toUInt32 (tuple.length + 32) > pageSize then
    .ok (none, pool, { txn with state := .aborted })
  else
    match insertLoop tuple (pool.nextPageId.toNat + 1) heap.firstPageId pool with
    | .error fault => .error fault
    | .ok (none, pool) => .ok (none, pool, { txn with state := .aborted })
    | .ok (some rid, pool) =>
        let record := { rid, wtype := .insert, tuple := [], table := heap.oid }
        .ok (some rid, pool, { txn with tableWriteSet := txn.tableWriteSet ++ [record] })

/-- `MarkDelete`: the result of the page is not looked at. -/
def markDelete (table : TableOid) (pool : PagePool) (txn : Transaction) (rid : RID) :
    Bool × PagePool × Transaction :=
  let (_, page) := TablePage.markDelete (pool.pages rid.pageId) rid
  let record := { rid, wtype := .delete, tuple := [], table }
  (true, pool.setPage rid.pageId page,
    { txn with tableWriteSet := txn.tableWriteSet ++ [record] })

/-- `UpdateTuple`. -/
def updateTuple (table : TableOid) (pool : PagePool) (txn : Transaction) (tuple : Tuple)
    (rid : RID) : Except HeapFault (Bool × PagePool × Transaction) :=
  match TablePage.updateTuple (pool.pages rid.pageId) tuple rid with
  | .error fault => .error fault
  | .ok none => .ok (false, pool, txn)
  | .ok (some (oldTuple, page)) =>
      let pool := pool.setPage rid.pageId page
      if txn.state ≠ .aborted then
        let record := { rid, wtype := .update, tuple := oldTuple, table }
        .ok (true, pool, { txn with tableWriteSet := txn.tableWriteSet ++ [record] })
      else .ok (true, pool, txn)

/-- `ApplyDelete`. -/
def applyDelete (pool : PagePool) (rid : RID) : Except HeapFault PagePool :=
  match TablePage.applyDelete (pool.pages rid.pageId) rid with
  | .error fault => .error fault
  | .ok page => .ok (pool.setPage rid.pageId page)

/-- `RollbackDelete`. -/
def rollbackDelete (pool : PagePool) (rid : RID) : Except HeapFault PagePool :=
  match TablePage.rollbackDelete (pool.pages rid.pageId) rid with
  | .error fault => .error fault
  | .ok page => .ok (pool.setPage rid.pageId page)

/-- `GetTuple`. -/
def getTuple (pool : PagePool) (rid : RID) : Option Tuple :=
  TablePage.getTuple (pool.pages rid.pageId) rid

/-- The pages of a chain from a page on, at most `fuel` of them. -/
def chainFrom (pool : PagePool) : Nat → PageId → List PageId
  | 0, _ => []
  | fuel + 1, pageId =>
      if pageId = invalidPageId then []
      else pageId :: chainFrom pool fuel (getNextPageId (pool.pages pageId))

/-- The pages of the heap, in the order that an iterator visits them. -/
def pageIds (heap : TableHeap) (pool : PagePool) : List PageId :=
  chainFrom pool pool.nextPageId.toNat heap.firstPageId

end TableHeap

end BusTub
