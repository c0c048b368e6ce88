import BusTub.Buffer.LRUReplacer
import BusTub.Storage.DiskManager

/-! # One buffer pool instance

Every operation holds `latch_` from beginning to end, so it is one step. Frames
are `Fin poolSize`; `frame_id_t` values below zero only ever say "none".
-/

namespace BusTub

/-- `Page`, without its latch. -/
structure Page where
  data : PageData := fun _ => 0
  pageId : PageId := invalidPageId
  pinCount : Nat := 0
  isDirty : Bool := false

/-- Why an operation has no result. -/
inductive PoolFault where
  /-- `pages_[-1]`: `FlushPg` was called for a page that is not in the page table. -/
  | outOfBounds
  /-- The assertion of `ValidatePageId` failed. -/
  | assertion
  deriving DecidableEq, Repr

/-- `BufferPoolManagerInstance` on its disk manager. -/
structure BufferPoolManagerInstance (poolSize : Nat) where
  numInstances : Nat := 1
  instanceIndex : Nat := 0
  nextPageId : PageId := 0
  pages : Fin poolSize → Page := fun _ => {}
  diskManager : DiskManager
  pageTable : PageId → Option (Fin poolSize) := fun _ => none
  replacer : LRUReplacer poolSize := {}
  freeList : List (Fin poolSize) := List.finRange poolSize

namespace BufferPoolManagerInstance

variable {poolSize : Nat}

/-- The constructor. Every page is in the free list. -/
def create (poolSize numInstances instanceIndex : Nat) (diskManager : DiskManager) :
    BufferPoolManagerInstance poolSize where
  numInstances := numInstances
  instanceIndex := instanceIndex
  nextPageId := toInt32 instanceIndex
  diskManager := diskManager

/-- Write the metadata or the data of one frame. -/
def setPage (b : BufferPoolManagerInstance poolSize) (frameId : Fin poolSize) (page : Page) :
    BufferPoolManagerInstance poolSize :=
  { b with pages := Function.update b.pages frameId page }

/-- `FindPage`. -/
def findPage (b : BufferPoolManagerInstance poolSize) (pageId : PageId) : Option (Fin poolSize) :=
  b.pageTable pageId

/-- `FlushPg`. -/
def flushPg (b : BufferPoolManagerInstance poolSize) (pageId : PageId) :
    Except PoolFault (BufferPoolManagerInstance poolSize) :=
  match b.findPage pageId with
  | none => .error .outOfBounds
  | some frameId =>
      if (b.pages frameId).isDirty then
        .ok { b with diskManager := b.diskManager.writePage pageId (b.pages frameId).data }
      else .ok b

/-- `FindFreshPage`. -/
def findFreshPage (b : BufferPoolManagerInstance poolSize) :
    Except PoolFault (Option (Fin poolSize) × BufferPoolManagerInstance poolSize) :=
  match b.freeList with
  | frameId :: rest => .ok (some frameId, { b with freeList := rest })
  | [] =>
      match b.replacer.victim with
      | (none, _) => .ok (none, b)
      | (some frameId, replacer) => do
          let pageId := (b.pages frameId).pageId
          let b ← flushPg { b with replacer := replacer } pageId
          let b := { b with pageTable := Function.update b.pageTable pageId none }
          .ok (some frameId, b.setPage frameId { b.pages frameId with isDirty := false })

/-- `ValidatePageId`; the comparison is between unsigned 32-bit integers. -/
def validatePageId (b : BufferPoolManagerInstance poolSize) (pageId : PageId) : Bool :=
  pageId % 2 ^ 32 % b.numInstances = b.instanceIndex

/-- `AllocatePage`. -/
def allocatePage (b : BufferPoolManagerInstance poolSize) :
    Except PoolFault (PageId × BufferPoolManagerInstance poolSize) :=
  if b.validatePageId b.nextPageId then
    .ok (b.nextPageId, { b with nextPageId := toInt32 (b.nextPageId + b.numInstances) })
  else .error .assertion

/-- `NewPgImp`. The result is the new page's id and frame; `is_dirty_` is left as it is. -/
def newPg (b : BufferPoolManagerInstance poolSize) :
    Except PoolFault (Option (PageId × Fin poolSize) × BufferPoolManagerInstance poolSize) := do
  match ← b.findFreshPage with
  | (none, b) => .ok (none, b)
  | (some frameId, b) =>
      let (pageId, b) ← b.allocatePage
      let page := b.pages frameId
      let b := { b with pageTable := Function.update b.pageTable pageId (some frameId) }
      .ok (some (pageId, frameId), b.setPage frameId { page with
        pinCount := page.pinCount + 1, pageId := pageId, data := fun _ => 0 })

/-- `FetchPgImp`. -/
def fetchPg (b : BufferPoolManagerInstance poolSize) (pageId : PageId) :
    Except PoolFault (Option (Fin poolSize) × BufferPoolManagerInstance poolSize) :=
  match b.findPage pageId with
  | some frameId =>
      let page := b.pages frameId
      let b := { b with replacer := b.replacer.pin frameId }
      .ok (some frameId, b.setPage frameId { page with
        pinCount := page.pinCount + 1, isDirty := true })
  | none => do
      match ← b.findFreshPage with
      | (none, b) => .ok (none, b)
      | (some frameId, b) =>
          let page := b.pages frameId
          let (data, diskManager) := b.diskManager.readPage pageId page.data
          let b := { b with
            pageTable := Function.update b.pageTable pageId (some frameId)
            replacer := b.replacer.pin frameId
            diskManager := diskManager }
          .ok (some frameId, b.setPage frameId { page with
            data := data, pageId := pageId, pinCount := page.pinCount + 1, isDirty := false })

/-- `DeletePgImp`; `DeallocatePage` does nothing. -/
def deletePg (b : BufferPoolManagerInstance poolSize) (pageId : PageId) :
    Bool × BufferPoolManagerInstance poolSize :=
  match b.findPage pageId with
  | none => (true, b)
  | some frameId =>
      let page := b.pages frameId
      if page.pinCount ≠ 0 then (false, b)
      else
        let b := { b with
          pageTable := Function.update b.pageTable pageId none
          freeList := b.freeList ++ [frameId] }
        (true, b.setPage frameId { page with
          pageId := invalidPageId, isDirty := false, data := fun _ => 0 })

/-- `UnpinPgImp`. -/
def unpinPg (b : BufferPoolManagerInstance poolSize) (pageId : PageId) (isDirty : Bool) :
    Except PoolFault (Bool × BufferPoolManagerInstance poolSize) :=
  match b.findPage pageId with
  | none => .ok (false, b)
  | some frameId =>
      let page := b.pages frameId
      if page.pinCount = 0 then .ok (false, b)
      else
        let b := b.setPage frameId { page with
          isDirty := isDirty, pinCount := page.pinCount - 1 }
        if page.pinCount - 1 = 0 then do
          let b ← flushPg { b with replacer := b.replacer.unpin frameId } pageId
          .ok (true, b)
        else .ok (true, b)

/-- `FlushPgImp`. -/
def flushPgImp (b : BufferPoolManagerInstance poolSize) (pageId : PageId) :
    Except PoolFault (Bool × BufferPoolManagerInstance poolSize) :=
  match b.findPage pageId with
  | none => .ok (false, b)
  | some frameId => do
      let b ← b.flushPg pageId
      .ok (true, b.setPage frameId { b.pages frameId with isDirty := false })

end BufferPoolManagerInstance

end BusTub
