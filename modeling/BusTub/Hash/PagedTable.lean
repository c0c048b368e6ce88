import BusTub.Buffer.PoolCalls
import BusTub.Hash.TableBytes

/-! # The hash table over the pages of a pool

The operations of `ExtendibleHashTable` as programs that call a pool: they fetch the
directory and the buckets, read and change their bytes through the pins that they hold, and
unpin them with the flag that the source passes.
-/

namespace BusTub.PagedTable

open DirectoryPage (pow)
open ExtendibleHashTable (keyToDirectoryIndex keyToPageId rehashLoop redirectAll mergePair)
open PoolM

/-- Why an operation does not return. -/
inductive Fault where
  | table (fault : TableFault)
  /-- An assertion of `VerifyIntegrity` failed. -/
  | assertion
  deriving DecidableEq, Repr

/-- An operation of the table. -/
abbrev TableM (α : Type) : Type := PoolM Fault α

/-! ## The calls -/

/-- Read the directory through a pointer to its page. -/
def readDirectory (directoryPageId : PageId) : TableM DirectoryPage := do
  let data ← readPage directoryPageId
  pure (.ofData data)

/-- Change the directory through a pointer to its page. -/
def modifyDirectory (directoryPageId : PageId) (change : DirectoryPage → DirectoryPage) :
    TableM Unit :=
  modifyPage directoryPageId fun data => (change (.ofData data)).store data

/-- The constructor. It returns `directory_page_id_`. -/
def create : TableM PageId := do
  let directoryPageId ← newPage
  let bucket0PageId ← newPage
  let bucket1PageId ← newPage
  modifyDirectory directoryPageId fun d =>
    let d := (d.setBucketPageId 0 bucket0PageId).setLocalDepth 0 1
    let d := (d.setBucketPageId 1 bucket1PageId).setLocalDepth 1 1
    d.incrGlobalDepth
  modifyPage directoryPageId (DirectoryPage.storePageId directoryPageId)
  PoolM.unpinPage directoryPageId true
  PoolM.unpinPage bucket0PageId false
  PoolM.unpinPage bucket1PageId false
  pure directoryPageId

variable {K V : Type} {c : TableConfig K V} (layout : PairLayout c)

/-- Read a bucket through a pointer to its page. -/
def readBucket (bucketPageId : PageId) : TableM (BucketPage K V) := do
  let data ← readPage bucketPageId
  pure (.ofData layout data)

/-- Leave a bucket in its page. -/
def storeBucket (bucketPageId : PageId) (bucket : BucketPage K V) : TableM Unit :=
  modifyPage bucketPageId (bucket.store layout)

/-! ## The operations -/

/-- `GetValue` with an empty result vector. -/
def getValue (directoryPageId : PageId) (key : K) : TableM (Bool × List V) := do
  PoolM.fetchPage directoryPageId
  let d ← readDirectory directoryPageId
  let bucketPageId := keyToPageId c key d
  PoolM.fetchPage bucketPageId
  let bucket ← readBucket layout bucketPageId
  PoolM.unpinPage bucketPageId false
  PoolM.unpinPage directoryPageId false
  pure (bucket.getValue c.scheme c.bucketArraySize key [])

/-- One turn of the loop of `Merge`, with the bucket of entry `i` in a frame. -/
def mergeTurn (directoryPageId : PageId) (i : Nat) (bucket : BucketPage K V) : TableM Unit :=
  modifyDirectory directoryPageId fun d =>
    let oldLocalDepth := d.getLocalDepth i
    if oldLocalDepth > 1 ∧ bucket.isEmpty c.bucketArraySize then
      let splitBucketIdx := d.getSplitImageIndex i
      let d := if d.getLocalDepth splitBucketIdx = oldLocalDepth then mergePair d i splitBucketIdx
        else d
      if d.canShrink then d.decrGlobalDepth else d
    else d

/-- The loop of `Merge` from entry `i` on. -/
def mergeLoop (directoryPageId : PageId) : Nat → Nat → TableM Unit
  | 0, _ => pure ()
  | fuel + 1, i => do
      let d ← readDirectory directoryPageId
      if i ≥ d.size then pure ()
      else
        let bucketPageId := d.getBucketPageId i
        PoolM.fetchPage bucketPageId
        let bucket ← readBucket layout bucketPageId
        mergeTurn (c := c) directoryPageId i bucket
        PoolM.unpinPage bucketPageId false
        mergeLoop directoryPageId fuel (i + 1)

/-- `Merge`. The directory never grows in it. -/
def merge (directoryPageId : PageId) : TableM Unit := do
  PoolM.fetchPage directoryPageId
  let d ← readDirectory directoryPageId
  mergeLoop layout directoryPageId d.size 0
  PoolM.unpinPage directoryPageId true

/-- `GetGlobalDepth`. -/
def getGlobalDepth (directoryPageId : PageId) : TableM Nat := do
  PoolM.fetchPage directoryPageId
  let d ← readDirectory directoryPageId
  PoolM.unpinPage directoryPageId false
  pure d.globalDepth

/-- The assertions of `VerifyIntegrity`. -/
def verifyIntegrity (d : DirectoryPage) : Bool :=
  (List.range d.size).all fun i => d.localDepths i ≤ d.globalDepth ∧
    ((List.range d.size).all fun j =>
      d.bucketPageIds j = d.bucketPageIds i → d.localDepths j = d.localDepths i) ∧
    (List.range d.size).countP (fun j => d.bucketPageIds j = d.bucketPageIds i) =
      1 <<< (d.globalDepth - d.localDepths i)

/-- `VerifyIntegrity`. -/
def verify (directoryPageId : PageId) : TableM Unit := do
  PoolM.fetchPage directoryPageId
  let d ← readDirectory directoryPageId
  if verifyIntegrity d then PoolM.unpinPage directoryPageId false else fail .assertion

section Writes

variable [DecidableEq V]

/-- What a turn of the loop of `SplitInsert` does with a full bucket. It returns whether the
directory grows. -/
def split (directoryPageId : PageId) (bucketIdx : Nat) (bucketPageId : PageId) : TableM Bool := do
  let d ← readDirectory directoryPageId
  let oldGlobalDepth := d.globalDepth
  let isGrowing := d.getLocalDepth bucketIdx = d.globalDepth
  if isGrowing ∧ directoryArraySize < pow 2 (d.globalDepth + 1) then
    fail (.table .directoryFull)
  else
    modifyDirectory directoryPageId fun d =>
      let d := if d.getLocalDepth bucketIdx = d.globalDepth then d.incrGlobalDepth else d
      d.incrLocalDepth bucketIdx
    let d ← readDirectory directoryPageId
    let splitBucketIdx := d.getSplitImageIndex bucketIdx
    let splitPageId ← newPage
    modifyDirectory directoryPageId fun d =>
      let d := d.setBucketPageId splitBucketIdx splitPageId
      d.setLocalDepth splitBucketIdx (d.getLocalDepth bucketIdx)
    let bucket ← readBucket layout bucketPageId
    let splitPage ← readBucket layout splitPageId
    match rehashLoop c (d.getLocalDepth bucketIdx) splitBucketIdx
      (List.range (bucket.numReadable c.bucketArraySize)) (bucket, splitPage) with
    | .error fault => fail (.table fault)
    | .ok (bucket, splitPage) =>
        storeBucket layout bucketPageId bucket
        storeBucket layout splitPageId splitPage
        PoolM.unpinPage splitPageId true
        modifyDirectory directoryPageId (redirectAll oldGlobalDepth splitBucketIdx)
        pure isGrowing

/-- Turns of the loop of `SplitInsert`, at most `fuel` of them, with `is_growing`. -/
def splitInsertLoop (directoryPageId : PageId) (key : K) (value : V) :
    Nat → Bool → TableM (Bool × Bool)
  | 0, _ => fail (.table .diverges)
  | fuel + 1, isGrowing => do
      let d ← readDirectory directoryPageId
      let bucketIdx := keyToDirectoryIndex c key d
      let bucketPageId := keyToPageId c key d
      PoolM.fetchPage bucketPageId
      let bucket ← readBucket layout bucketPageId
      if bucket.isFull c.bucketArraySize then
        let grows ← split layout directoryPageId bucketIdx bucketPageId
        PoolM.unpinPage bucketPageId true
        splitInsertLoop directoryPageId key value fuel (isGrowing || grows)
      else
        let (success, bucket) := bucket.insert c.scheme c.bucketArraySize key value
        storeBucket layout bucketPageId bucket
        PoolM.unpinPage bucketPageId true
        pure (success, isGrowing)

/-- `SplitInsert`. The directory is dirty only if it has grown. -/
def splitInsert (directoryPageId : PageId) (fuel : Nat) (key : K) (value : V) : TableM Bool := do
  PoolM.fetchPage directoryPageId
  let (success, isGrowing) ← splitInsertLoop layout directoryPageId key value fuel false
  PoolM.unpinPage directoryPageId isGrowing
  pure success

/-- `Insert`, with at most `fuel` turns of the loop of `SplitInsert`. -/
def insert (directoryPageId : PageId) (fuel : Nat) (key : K) (value : V) : TableM Bool := do
  PoolM.fetchPage directoryPageId
  let d ← readDirectory directoryPageId
  let bucketPageId := keyToPageId c key d
  PoolM.fetchPage bucketPageId
  let bucket ← readBucket layout bucketPageId
  if bucket.isFull c.bucketArraySize then
    PoolM.unpinPage bucketPageId false
    PoolM.unpinPage directoryPageId false
    splitInsert layout directoryPageId fuel key value
  else
    let (success, bucket) := bucket.insert c.scheme c.bucketArraySize key value
    storeBucket layout bucketPageId bucket
    PoolM.unpinPage bucketPageId success
    PoolM.unpinPage directoryPageId false
    pure success

/-- `Remove`. -/
def remove (directoryPageId : PageId) (key : K) (value : V) : TableM Bool := do
  PoolM.fetchPage directoryPageId
  let d ← readDirectory directoryPageId
  let bucketPageId := keyToPageId c key d
  PoolM.fetchPage bucketPageId
  let bucket ← readBucket layout bucketPageId
  let (success, bucket) := bucket.remove c.scheme c.bucketArraySize key value
  storeBucket layout bucketPageId bucket
  PoolM.unpinPage bucketPageId success
  PoolM.unpinPage directoryPageId false
  if success ∧ bucket.isEmpty c.bucketArraySize then
    merge layout directoryPageId
    pure success
  else pure success

end Writes

/-! ## Sessions -/

/-- A call of the table, or what others do with the pages of the pool. -/
inductive Request (K V : Type) where
  | getValue (key : K)
  | insert (key : K) (value : V)
  | remove (key : K) (value : V)
  | getGlobalDepth
  | verifyIntegrity
  | fetchOther (pageId : PageId)
  | unpinOther (pageId : PageId) (isDirty : Bool)

/-- What a call returns. -/
inductive Response (V : Type) where
  | found (success : Bool) (values : List V)
  | inserted (success : Bool)
  | removed (success : Bool)
  | depth (globalDepth : Nat)
  | done
  deriving DecidableEq

variable [DecidableEq V] (fuel : Nat)

/-- One call. -/
def serve (directoryPageId : PageId) : Request K V → TableM (Response V)
  | .getValue key => do
      let (success, values) ← getValue layout directoryPageId key
      pure (.found success values)
  | .insert key value => do
      let success ← insert layout directoryPageId fuel key value
      pure (.inserted success)
  | .remove key value => do
      let success ← remove layout directoryPageId key value
      pure (.removed success)
  | .getGlobalDepth => do
      let globalDepth ← getGlobalDepth directoryPageId
      pure (.depth globalDepth)
  | .verifyIntegrity => do
      verify directoryPageId
      pure .done
  | .fetchOther pageId => .call (.fetchOther pageId) fun _ => pure .done
  | .unpinOther pageId isDirty => .call (.unpinOther pageId isDirty) fun _ => pure .done

/-- Calls one after the other. -/
def serveAll (directoryPageId : PageId) : List (Request K V) → TableM (List (Response V))
  | [] => pure []
  | request :: rest => do
      let response ← serve layout fuel directoryPageId request
      let responses ← serveAll directoryPageId rest
      pure (response :: responses)

/-- A table is constructed and called. -/
def session (requests : List (Request K V)) : TableM (List (Response V)) := do
  let directoryPageId ← create
  serveAll layout fuel directoryPageId requests

end BusTub.PagedTable
