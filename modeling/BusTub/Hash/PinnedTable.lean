import BusTub.Buffer.Pins
import BusTub.Hash.ExtendibleHashTable

/-! # The pins of the hash table

The operations of the hash table with the pages that they fetch and unpin. They unpin
every page by the id that they fetched it by, which they keep in a variable, and the page
fetched last first.
-/

namespace BusTub.ExtendibleHashTable.Pinned

variable {K V : Type} (c : TableConfig K V)

open Counted (lift)

/-- `GetValue`. -/
def getValue (directoryPageId : PageId) (t : ExtendibleHashTable K V) (key : K) :
    PinM TableFault (Bool × List V) := do
  fetchPage directoryPageId
  let bucketPageId := keyToPageId c key t.directory
  fetchPage bucketPageId
  let result := (t.buckets bucketPageId).getValue c.scheme c.bucketArraySize key []
  unpinPage bucketPageId
  unpinPage directoryPageId
  pure result

theorem getValue_eq (directoryPageId : PageId) (t : ExtendibleHashTable K V) (key : K) :
    getValue c directoryPageId t key = pure (t.getValue c key) := by
  unfold getValue
  rw [fetchPage_unpinPage, fetchPage_unpinPage]
  rfl

/-- The loop of `Merge` from entry `i` on. -/
def mergeLoop : Nat → Nat → ExtendibleHashTable K V → PinM TableFault (ExtendibleHashTable K V)
  | 0, _, t => pure t
  | fuel + 1, i, t =>
      if i ≥ t.directory.size then pure t
      else do
        let bucketPageId := t.directory.getBucketPageId i
        fetchPage bucketPageId
        let t := t.mergeTurn c i
        unpinPage bucketPageId
        mergeLoop fuel (i + 1) t

theorem mergeLoop_eq (fuel i : Nat) (t : ExtendibleHashTable K V) :
    mergeLoop c fuel i t = pure (ExtendibleHashTable.mergeLoop c fuel i t) := by
  induction fuel generalizing i t with
  | zero => rfl
  | succ fuel ih =>
      unfold mergeLoop ExtendibleHashTable.mergeLoop
      split
      next => rfl
      next =>
        dsimp only
        rw [fetchPage_unpinPage]
        exact ih (i + 1) (t.mergeTurn c i)

/-- `Merge`. -/
def merge (directoryPageId : PageId) (t : ExtendibleHashTable K V) :
    PinM TableFault (ExtendibleHashTable K V) := do
  fetchPage directoryPageId
  let t ← mergeLoop c t.directory.size 0 t
  unpinPage directoryPageId
  pure t

theorem merge_eq (directoryPageId : PageId) (t : ExtendibleHashTable K V) :
    merge c directoryPageId t = pure (t.merge c) := by
  unfold merge
  rw [mergeLoop_eq]
  exact fetchPage_unpinPage directoryPageId _

section Writes

variable [DecidableEq V]

/-- One turn of the loop of `SplitInsert` that finds the bucket full. The new page has its
pin from `NewPage`. -/
def split (t : ExtendibleHashTable K V) (bucketIdx : Nat) :
    PinM TableFault (ExtendibleHashTable K V) :=
  let d := t.directory
  let oldGlobalDepth := d.globalDepth
  let bucketPageId := d.getBucketPageId bucketIdx
  let bucket := t.buckets bucketPageId
  if d.getLocalDepth bucketIdx = d.globalDepth ∧
      directoryArraySize < DirectoryPage.pow 2 (d.globalDepth + 1) then
    lift (.error .directoryFull)
  else do
    let d := if d.getLocalDepth bucketIdx = d.globalDepth then d.incrGlobalDepth else d
    let d := d.incrLocalDepth bucketIdx
    let splitBucketIdx := d.getSplitImageIndex bucketIdx
    let (splitPageId, t) := t.newPage c
    fetchPage splitPageId
    let d := d.setBucketPageId splitBucketIdx splitPageId
    let d := d.setLocalDepth splitBucketIdx (d.getLocalDepth bucketIdx)
    let pages ← lift (rehashLoop c (d.getLocalDepth bucketIdx) splitBucketIdx
      (List.range (bucket.numReadable c.bucketArraySize)) (bucket, t.buckets splitPageId))
    unpinPage splitPageId
    let t := (t.setBucket bucketPageId pages.1).setBucket splitPageId pages.2
    pure { t with directory := redirectAll oldGlobalDepth splitBucketIdx d }

theorem split_eq (t : ExtendibleHashTable K V) (bucketIdx : Nat) :
    split c t bucketIdx = lift (t.split c bucketIdx) := by
  unfold split ExtendibleHashTable.split
  dsimp only
  split
  next => rfl
  next =>
    rw [fetchPage_lift_unpinPage]
    generalize (if t.directory.getLocalDepth bucketIdx = t.directory.globalDepth then
      t.directory.incrGlobalDepth else t.directory) = d
    split
    next hrehash =>
      rw [hrehash]
      rfl
    next hrehash =>
      rw [hrehash]
      rfl

/-- Turns of the loop of `SplitInsert`, at most `fuel` of them. -/
def splitInsertLoop (key : K) (value : V) :
    Nat → ExtendibleHashTable K V → PinM TableFault (Bool × ExtendibleHashTable K V)
  | 0, _ => lift (.error .diverges)
  | fuel + 1, t => do
      let bucketIdx := keyToDirectoryIndex c key t.directory
      let bucketPageId := keyToPageId c key t.directory
      fetchPage bucketPageId
      if (t.buckets bucketPageId).isFull c.bucketArraySize then
        let t ← split c t bucketIdx
        unpinPage bucketPageId
        splitInsertLoop key value fuel t
      else
        let (success, bucket) :=
          (t.buckets bucketPageId).insert c.scheme c.bucketArraySize key value
        unpinPage bucketPageId
        pure (success, t.setBucket bucketPageId bucket)

theorem splitInsertLoop_eq (key : K) (value : V) (fuel : Nat) (t : ExtendibleHashTable K V) :
    splitInsertLoop c key value fuel t =
      lift (ExtendibleHashTable.splitInsertLoop c key value fuel t) := by
  induction fuel generalizing t with
  | zero => rfl
  | succ fuel ih =>
      unfold splitInsertLoop ExtendibleHashTable.splitInsertLoop
      dsimp only
      split
      next =>
        rw [split_eq, fetchPage_lift_unpinPage]
        cases hsplit : t.split c (keyToDirectoryIndex c key t.directory) with
        | error fault => rfl
        | ok t' =>
            rw [Counted.lift_ok, pure_bind]
            exact ih t'
      next =>
        rw [fetchPage_unpinPage]
        rfl

/-- `SplitInsert`. -/
def splitInsert (directoryPageId : PageId) (fuel : Nat) (t : ExtendibleHashTable K V) (key : K)
    (value : V) : PinM TableFault (Bool × ExtendibleHashTable K V) := do
  fetchPage directoryPageId
  let result ← splitInsertLoop c key value fuel t
  unpinPage directoryPageId
  pure result

/-- `Insert`, with at most `fuel` turns of the loop of `SplitInsert`. -/
def insert (directoryPageId : PageId) (fuel : Nat) (t : ExtendibleHashTable K V) (key : K)
    (value : V) : PinM TableFault (Bool × ExtendibleHashTable K V) := do
  fetchPage directoryPageId
  let bucketPageId := keyToPageId c key t.directory
  fetchPage bucketPageId
  let bucket := t.buckets bucketPageId
  if bucket.isFull c.bucketArraySize then
    unpinPage bucketPageId
    unpinPage directoryPageId
    splitInsert c directoryPageId fuel t key value
  else
    let (success, bucket) := bucket.insert c.scheme c.bucketArraySize key value
    unpinPage bucketPageId
    unpinPage directoryPageId
    pure (success, t.setBucket bucketPageId bucket)

theorem splitInsert_eq (directoryPageId : PageId) (fuel : Nat) (t : ExtendibleHashTable K V)
    (key : K) (value : V) : splitInsert c directoryPageId fuel t key value =
      lift (ExtendibleHashTable.splitInsertLoop c key value fuel t) := by
  unfold splitInsert
  rw [splitInsertLoop_eq, fetchPage_lift_unpinPage, bind_pure]

theorem insert_eq (directoryPageId : PageId) (fuel : Nat) (t : ExtendibleHashTable K V) (key : K)
    (value : V) : insert c directoryPageId fuel t key value =
      let bucketPageId := keyToPageId c key t.directory
      let bucket := t.buckets bucketPageId
      lift (if bucket.isFull c.bucketArraySize then
        ExtendibleHashTable.splitInsertLoop c key value fuel t
      else
        let (success, bucket) := bucket.insert c.scheme c.bucketArraySize key value
        .ok (success, t.setBucket bucketPageId bucket)) := by
  unfold insert
  dsimp only
  split
  next =>
    rw [fetchPage_unpinPage, fetchPage_unpinPage]
    exact splitInsert_eq c directoryPageId fuel t key value
  next =>
    rw [fetchPage_unpinPage, fetchPage_unpinPage]
    rfl

/-- `Remove`. -/
def remove (directoryPageId : PageId) (t : ExtendibleHashTable K V) (key : K) (value : V) :
    PinM TableFault (Bool × ExtendibleHashTable K V) := do
  fetchPage directoryPageId
  let bucketPageId := keyToPageId c key t.directory
  fetchPage bucketPageId
  let (success, bucket) :=
    (t.buckets bucketPageId).remove c.scheme c.bucketArraySize key value
  let t := t.setBucket bucketPageId bucket
  if success ∧ bucket.isEmpty c.bucketArraySize then
    unpinPage bucketPageId
    unpinPage directoryPageId
    let t ← merge c directoryPageId t
    pure (success, t)
  else
    unpinPage bucketPageId
    unpinPage directoryPageId
    pure (success, t)

theorem remove_eq (directoryPageId : PageId) (t : ExtendibleHashTable K V) (key : K) (value : V) :
    remove c directoryPageId t key value = pure (t.remove c key value) := by
  unfold remove ExtendibleHashTable.remove
  dsimp only
  split
  next =>
    rw [fetchPage_unpinPage, fetchPage_unpinPage, merge_eq]
    rfl
  next =>
    rw [fetchPage_unpinPage, fetchPage_unpinPage]

end Writes

end BusTub.ExtendibleHashTable.Pinned
