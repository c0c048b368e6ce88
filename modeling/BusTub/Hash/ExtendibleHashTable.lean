import BusTub.Hash.BucketPage
import BusTub.Hash.DirectoryPage

/-! # The extendible hash table

The table's pages live in a buffer pool that never fails and never evicts: a page
keeps its contents, and `NewPage` always has a page of zeros that was never handed
out. Calls run one after the other.
-/

namespace BusTub

/-- What a table is instantiated with. -/
structure TableConfig (K V : Type) where
  scheme : KeyScheme K
  /-- `sizeof(MappingType)`. -/
  mappingSize : Nat
  /-- What a pair of zero bytes reads as. -/
  zero : K × V
  fits : 4 * mappingSize + 1 ≤ 4 * pageSize

namespace TableConfig

variable {K V : Type}

/-- `BUCKET_ARRAY_SIZE`. -/
def bucketArraySize (c : TableConfig K V) : Nat := 4 * pageSize / (4 * c.mappingSize + 1)

theorem bucketArraySize_pos (c : TableConfig K V) : 0 < c.bucketArraySize :=
  Nat.div_pos c.fits (Nat.succ_pos _)

/-- `Hash`. -/
def hash (c : TableConfig K V) (key : K) : Nat := toUInt32 (c.scheme.getHash key)

theorem hash_eq (c : TableConfig K V) {key other : K} (heq : c.scheme.cmp key other = 0) :
    c.hash key = c.hash other := by
  unfold hash
  rw [c.scheme.hash_eq key other heq]

end TableConfig

/-- `ExtendibleHashTable` with its pages. -/
structure ExtendibleHashTable (K V : Type) where
  directory : DirectoryPage
  buckets : PageId → BucketPage K V
  nextPageId : PageId

/-- Why a call does not return. -/
inductive TableFault where
  /-- The directory is asked to exceed `DIRECTORY_ARRAY_SIZE`. -/
  | directoryFull
  /-- A loop that does not end. -/
  | diverges
  deriving DecidableEq, Repr

namespace ExtendibleHashTable

variable {K V : Type} (c : TableConfig K V)

open DirectoryPage (pow)

/-- `NewPage`. -/
def newPage (t : ExtendibleHashTable K V) : PageId × ExtendibleHashTable K V :=
  (t.nextPageId, { t with
    buckets := Function.update t.buckets t.nextPageId (.zeroed c.zero)
    nextPageId := t.nextPageId + 1 })

/-- The constructor: the directory page takes the first page id, two buckets the next ones. -/
def create : ExtendibleHashTable K V :=
  let t : ExtendibleHashTable K V :=
    { directory := {}, buckets := fun _ => .zeroed c.zero, nextPageId := 1 }
  let (bucket0PageId, t) := t.newPage c
  let (bucket1PageId, t) := t.newPage c
  let d := (t.directory.setBucketPageId 0 bucket0PageId).setLocalDepth 0 1
  let d := (d.setBucketPageId 1 bucket1PageId).setLocalDepth 1 1
  { t with directory := d.incrGlobalDepth }

/-- `KeyToDirectoryIndex`. -/
def keyToDirectoryIndex (key : K) (d : DirectoryPage) : Nat := c.hash key &&& d.getGlobalDepthMask

/-- `KeyToPageId`. -/
def keyToPageId (key : K) (d : DirectoryPage) : PageId :=
  d.getBucketPageId (keyToDirectoryIndex c key d)

def setBucket (t : ExtendibleHashTable K V) (pageId : PageId) (page : BucketPage K V) :
    ExtendibleHashTable K V :=
  { t with buckets := Function.update t.buckets pageId page }

/-- `GetValue` with an empty result vector. -/
def getValue (t : ExtendibleHashTable K V) (key : K) : Bool × List V :=
  (t.buckets (keyToPageId c key t.directory)).getValue c.scheme c.bucketArraySize key []

section Writes

variable [DecidableEq V]

/-- The loop that rehashes the entries of a full bucket, over the entries that are
left. It goes on to the next entry only if this one can be read. -/
def rehashLoop (localDepth splitBucketIdx : Nat) :
    List Nat → BucketPage K V × BucketPage K V →
      Except TableFault (BucketPage K V × BucketPage K V)
  | [], pages => .ok pages
  | i :: rest, (bucket, split) =>
      if ¬ bucket.isReadable i then .error .diverges
      else
        let key := bucket.keyAt i
        let whichBucket := c.hash key &&& (pow 2 localDepth - 1)
        if whichBucket ^^^ splitBucketIdx = 0 then
          let (_, split) := split.insert c.scheme c.bucketArraySize key (bucket.valueAt i)
          rehashLoop localDepth splitBucketIdx rest (bucket.removeAt i, split)
        else rehashLoop localDepth splitBucketIdx rest (bucket, split)

/-- One turn of the loop that redirects the new half of the directory. -/
def redirect (oldGlobalDepth splitBucketIdx : Nat) (d : DirectoryPage) (i : Nat) : DirectoryPage :=
  if i = splitBucketIdx then d
  else
    let redirectBucketIdx := i &&& (pow 2 oldGlobalDepth - 1)
    let d := d.setBucketPageId i (d.getBucketPageId redirectBucketIdx)
    d.setLocalDepth i (d.getLocalDepth redirectBucketIdx)

/-- The loop that redirects the new half of the directory. -/
def redirectAll (oldGlobalDepth splitBucketIdx : Nat) (d : DirectoryPage) : DirectoryPage :=
  let first := pow 2 oldGlobalDepth
  (List.range' first (d.size - first)).foldl (redirect oldGlobalDepth splitBucketIdx) d

/-- One turn of the loop of `SplitInsert` that finds the bucket full. -/
def split (t : ExtendibleHashTable K V) (bucketIdx : Nat) :
    Except TableFault (ExtendibleHashTable K V) :=
  let d := t.directory
  let oldGlobalDepth := d.globalDepth
  let bucketPageId := d.getBucketPageId bucketIdx
  let bucket := t.buckets bucketPageId
  if d.getLocalDepth bucketIdx = d.globalDepth ∧ directoryArraySize < pow 2 (d.globalDepth + 1) then
    .error .directoryFull
  else
    let d := if d.getLocalDepth bucketIdx = d.globalDepth then d.incrGlobalDepth else d
    let d := d.incrLocalDepth bucketIdx
    let splitBucketIdx := d.getSplitImageIndex bucketIdx
    let (splitPageId, t) := t.newPage c
    let d := d.setBucketPageId splitBucketIdx splitPageId
    let d := d.setLocalDepth splitBucketIdx (d.getLocalDepth bucketIdx)
    match rehashLoop c (d.getLocalDepth bucketIdx) splitBucketIdx
      (List.range (bucket.numReadable c.bucketArraySize)) (bucket, t.buckets splitPageId) with
    | .error fault => .error fault
    | .ok (bucket, splitPage) =>
        let t := (t.setBucket bucketPageId bucket).setBucket splitPageId splitPage
        .ok { t with directory := redirectAll oldGlobalDepth splitBucketIdx d }

/-- Turns of the loop of `SplitInsert`, at most `fuel` of them. -/
def splitInsertLoop (key : K) (value : V) :
    Nat → ExtendibleHashTable K V → Except TableFault (Bool × ExtendibleHashTable K V)
  | 0, _ => .error .diverges
  | fuel + 1, t =>
      let bucketIdx := keyToDirectoryIndex c key t.directory
      let bucketPageId := keyToPageId c key t.directory
      if (t.buckets bucketPageId).isFull c.bucketArraySize then
        match t.split c bucketIdx with
        | .error fault => .error fault
        | .ok t => splitInsertLoop key value fuel t
      else
        let (success, bucket) :=
          (t.buckets bucketPageId).insert c.scheme c.bucketArraySize key value
        .ok (success, t.setBucket bucketPageId bucket)

/-- `SplitInsert`. Every turn that splits raises a local depth, and the directory
cannot grow beyond its array, so there is no need for more turns than entries. -/
def splitInsert (t : ExtendibleHashTable K V) (key : K) (value : V) :
    Except TableFault (Bool × ExtendibleHashTable K V) :=
  splitInsertLoop c key value directoryArraySize t

/-- `Insert`. -/
def insert (t : ExtendibleHashTable K V) (key : K) (value : V) :
    Except TableFault (Bool × ExtendibleHashTable K V) :=
  let bucketPageId := keyToPageId c key t.directory
  let bucket := t.buckets bucketPageId
  if bucket.isFull c.bucketArraySize then t.splitInsert c key value
  else
    let (success, bucket) := bucket.insert c.scheme c.bucketArraySize key value
    .ok (success, t.setBucket bucketPageId bucket)

/-- The inner loop of `Merge`: the other entries with the page id of the bucket
pair follow entry `i`. -/
def mergeAlias (i splitBucketIdx : Nat) (bucketPageId newBucketPageId : PageId)
    (d : DirectoryPage) (j : Nat) : DirectoryPage :=
  if j = i ∨ j = splitBucketIdx then d
  else if d.getBucketPageId j = bucketPageId ∨ d.getBucketPageId j = newBucketPageId then
    (d.setLocalDepth j (d.getLocalDepth i)).setBucketPageId j newBucketPageId
  else d

/-- What `Merge` does to the directory when it merges the buckets of `i` and its split image. -/
def mergePair (d : DirectoryPage) (i splitBucketIdx : Nat) : DirectoryPage :=
  let bucketPageId := d.getBucketPageId i
  let d := (d.decrLocalDepth i).decrLocalDepth splitBucketIdx
  let d := d.setBucketPageId i (d.getBucketPageId splitBucketIdx)
  let newBucketPageId := d.getBucketPageId i
  (List.range d.size).foldl (mergeAlias i splitBucketIdx bucketPageId newBucketPageId) d

/-- One turn of the loop of `Merge`. -/
def mergeTurn (t : ExtendibleHashTable K V) (i : Nat) : ExtendibleHashTable K V :=
  let d := t.directory
  let oldLocalDepth := d.getLocalDepth i
  let bucket := t.buckets (d.getBucketPageId i)
  if oldLocalDepth > 1 ∧ bucket.isEmpty c.bucketArraySize then
    let splitBucketIdx := d.getSplitImageIndex i
    let d := if d.getLocalDepth splitBucketIdx = oldLocalDepth then mergePair d i splitBucketIdx
      else d
    { t with directory := if d.canShrink then d.decrGlobalDepth else d }
  else t

/-- The loop of `Merge` from entry `i` on. The directory never grows in it, so
that it ends after at most as many turns as there were entries. -/
def mergeLoop : Nat → Nat → ExtendibleHashTable K V → ExtendibleHashTable K V
  | 0, _, t => t
  | fuel + 1, i, t =>
      if i ≥ t.directory.size then t else mergeLoop fuel (i + 1) (t.mergeTurn c i)

/-- `Merge`. -/
def merge (t : ExtendibleHashTable K V) : ExtendibleHashTable K V :=
  mergeLoop c t.directory.size 0 t

/-- `Remove`. -/
def remove (t : ExtendibleHashTable K V) (key : K) (value : V) :
    Bool × ExtendibleHashTable K V :=
  let bucketPageId := keyToPageId c key t.directory
  let (success, bucket) :=
    (t.buckets bucketPageId).remove c.scheme c.bucketArraySize key value
  let t := t.setBucket bucketPageId bucket
  if success ∧ bucket.isEmpty c.bucketArraySize then (success, t.merge c) else (success, t)

end Writes

end ExtendibleHashTable

end BusTub
