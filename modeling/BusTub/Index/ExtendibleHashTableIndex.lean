import BusTub.Hash.TableInvariant
import BusTub.Index.GenericKey
import BusTub.Library.Machine

/-! # The hash table index

`ExtendibleHashTableIndex` over generic keys and record ids. The pages ask the generic
comparator, which may fail, and the hash function of the bytes says which page has a key. A
full bucket would be split, and the index stops there.
-/

namespace BusTub

/-- What an index is instantiated with. -/
structure IndexConfig where
  keySize : Nat
  keySchema : Schema
  /-- `GetHash` of the hash function. -/
  getHash : GenericKey keySize → UInt64
  /-- `sizeof(MappingType)`. -/
  mappingSize : Nat
  fits : 4 * mappingSize + 1 ≤ 4 * pageSize

namespace IndexConfig

/-- A pair of zero bytes. -/
def zero (c : IndexConfig) : GenericKey c.keySize × RID :=
  (⟨List.replicate c.keySize 0, List.length_replicate⟩, ⟨0, 0⟩)

/-- The sizes and the hash of the table. Its comparator is asked apart. -/
def layout (c : IndexConfig) : TableConfig (GenericKey c.keySize) RID where
  scheme :=
    { -- no operation of the index asks this comparator
      cmp := fun lhs rhs => if lhs = rhs then 0 else 1
      getHash := fun key => (c.getHash key).toNat
      equality := by simpa using eq_equivalence
      hash_eq := by simp }
  mappingSize := c.mappingSize
  zero := c.zero
  fits := c.fits

end IndexConfig

/-- Why a call of an index does not return. -/
inductive IndexFault where
  | eval (fault : EvalFault)
  /-- The bucket is full, so that `SplitInsert` is called. -/
  | bucketFull
  deriving DecidableEq, Repr

/-! ## Pages with the generic comparator -/

namespace GenericBucketPage

variable {keySize : Nat}

section Operations

variable [DoubleText] (keySchema : Schema) (size : Nat)

open GenericComparator

/-- The loop of `GetValue` over the entries that are left. -/
def getValueLoop (p : BucketPage (GenericKey keySize) RID) (key : GenericKey keySize) :
    List Nat → List RID → Except EvalFault (List RID)
  | [], result => .ok result
  | i :: rest, result =>
      if ¬ p.isReadable i then
        if ¬ p.isOccupied i then .ok result else getValueLoop p key rest result
      else do
        if (← compare keySchema key (p.keyAt i)) = 0 then
          getValueLoop p key rest (result ++ [p.valueAt i])
        else getValueLoop p key rest result

/-- `GetValue`. -/
def getValue (p : BucketPage (GenericKey keySize) RID) (key : GenericKey keySize)
    (result : List RID) : Except EvalFault (Bool × List RID) := do
  let result ← getValueLoop keySchema p key (List.range size) result
  .ok (!result.isEmpty, result)

/-- `Insert`. -/
def insert (p : BucketPage (GenericKey keySize) RID) (key : GenericKey keySize) (value : RID) :
    Except EvalFault (Bool × BucketPage (GenericKey keySize) RID) :=
  if p.isFull size then .ok (false, p)
  else do
    let found ← getValue keySchema size p key []
    if value ∈ found.2 then .ok (false, p)
    else
      match (List.range size).find? (fun i => ¬ p.isReadable i) with
      | some i => .ok (true, ((p.setEntry i (key, value)).setReadable i true).setOccupied i true)
      | none => .ok (true, p)

/-- The loop of `Remove` over the entries that are left. -/
def removeLoop (p : BucketPage (GenericKey keySize) RID) (key : GenericKey keySize)
    (value : RID) : List Nat → Except EvalFault (Bool × BucketPage (GenericKey keySize) RID)
  | [] => .ok (false, p)
  | i :: rest =>
      if ¬ p.isReadable i then removeLoop p key value rest
      else do
        if (← compare keySchema key (p.keyAt i)) = 0 ∧ p.valueAt i = value then
          .ok (true, p.setReadable i false)
        else removeLoop p key value rest

/-- `Remove`. -/
def remove (p : BucketPage (GenericKey keySize) RID) (key : GenericKey keySize) (value : RID) :
    Except EvalFault (Bool × BucketPage (GenericKey keySize) RID) :=
  removeLoop keySchema p key value (List.range size)

end Operations

/-- The keys of the page are among the keys. -/
def KeysIn (keys : Set (GenericKey keySize)) (p : BucketPage (GenericKey keySize) RID) : Prop :=
  ∀ i, p.isReadable i → p.keyAt i ∈ keys

/-- On the keys the generic comparator says what the comparator of the scheme says. -/
def Decides [DoubleText] (keySchema : Schema) (s : KeyScheme (GenericKey keySize))
    (keys : Set (GenericKey keySize)) : Prop :=
  ∀ lhs ∈ keys, ∀ rhs ∈ keys, ∃ sign, GenericComparator.compare keySchema lhs rhs = .ok sign ∧
    (sign = 0 ↔ s.cmp lhs rhs = 0)

section Agreement

variable [DoubleText] {keySchema : Schema} {size : Nat} {s : KeyScheme (GenericKey keySize)}
  {keys : Set (GenericKey keySize)} {p : BucketPage (GenericKey keySize) RID}
  {key : GenericKey keySize}

theorem getValueLoop_eq (hdecides : Decides keySchema s keys) (hkeys : KeysIn keys p)
    (hkey : key ∈ keys) (indices : List Nat) (result : List RID) :
    getValueLoop keySchema p key indices result =
      .ok (BucketPage.getValueLoop s p key indices result) := by
  induction indices generalizing result with
  | nil => rfl
  | cons i rest ih =>
      rw [getValueLoop, BucketPage.getValueLoop]
      by_cases hread : p.isReadable i
      · obtain ⟨sign, hsign, hzero⟩ := hdecides key hkey _ (hkeys i hread)
        rw [if_neg (not_not.mpr hread), if_neg (not_not.mpr hread), hsign]
        change (if sign = 0 then _ else _) = _
        rw [ih, ih]
        by_cases hmatch : s.cmp key (p.keyAt i) = 0
        · rw [if_pos (hzero.mpr hmatch), if_pos hmatch]
        · rw [if_neg (mt hzero.mp hmatch), if_neg hmatch]
      · rw [if_pos hread, if_pos hread, ih]
        split
        · rfl
        · rfl

theorem getValue_eq (hdecides : Decides keySchema s keys) (hkeys : KeysIn keys p)
    (hkey : key ∈ keys) (result : List RID) :
    getValue keySchema size p key result = .ok (p.getValue s size key result) := by
  unfold getValue
  rw [getValueLoop_eq hdecides hkeys hkey]
  rfl

theorem insert_eq (hdecides : Decides keySchema s keys) (hkeys : KeysIn keys p)
    (hkey : key ∈ keys) (value : RID) :
    insert keySchema size p key value = .ok (p.insert s size key value) := by
  unfold insert BucketPage.insert
  by_cases hfull : p.isFull size = true
  · rw [if_pos hfull, if_pos hfull]
  · rw [if_neg hfull, if_neg hfull, getValue_eq hdecides hkeys hkey]
    change (if value ∈ (p.getValue s size key []).2 then _ else _) = _
    by_cases hfound : value ∈ (p.getValue s size key []).2
    · rw [if_pos hfound, if_pos hfound]
    · rw [if_neg hfound, if_neg hfound]
      cases (List.range size).find? (fun i => ¬ p.isReadable i) with
      | none => rfl
      | some i => rfl

theorem removeLoop_eq (hdecides : Decides keySchema s keys) (hkeys : KeysIn keys p)
    (hkey : key ∈ keys) (value : RID) (indices : List Nat) :
    removeLoop keySchema p key value indices =
      .ok ((indices.find? fun i => p.isReadable i ∧ s.cmp key (p.keyAt i) = 0 ∧
        p.valueAt i = value).elim (false, p) fun i => (true, p.setReadable i false)) := by
  induction indices with
  | nil => rfl
  | cons i rest ih =>
      rw [removeLoop, ih]
      by_cases hread : p.isReadable i
      · obtain ⟨sign, hsign, hzero⟩ := hdecides key hkey _ (hkeys i hread)
        rw [if_neg (not_not.mpr hread), hsign]
        change (if sign = 0 ∧ p.valueAt i = value then _ else _) = _
        by_cases hmatch : s.cmp key (p.keyAt i) = 0 ∧ p.valueAt i = value
        · rw [if_pos (And.imp_left hzero.mpr hmatch), List.find?_cons_of_pos]
          · rfl
          · simp [hread, hmatch]
        · rw [if_neg (mt (And.imp_left hzero.mp) hmatch), List.find?_cons_of_neg]
          simpa [hread] using hmatch
      · rw [if_pos hread, List.find?_cons_of_neg]
        simp [hread]

theorem remove_eq (hdecides : Decides keySchema s keys) (hkeys : KeysIn keys p)
    (hkey : key ∈ keys) (value : RID) :
    remove keySchema size p key value = .ok (p.remove s size key value) := by
  unfold remove BucketPage.remove
  rw [removeLoop_eq hdecides hkeys hkey]
  cases (List.range size).find? (fun i =>
    p.isReadable i ∧ s.cmp key (p.keyAt i) = 0 ∧ p.valueAt i = value) with
  | none => rfl
  | some i => rfl

end Agreement

end GenericBucketPage

/-! ## The index -/

/-- The calls of an index. -/
inductive IndexCall where
  | insertEntry (key : Tuple) (rid : RID)
  | deleteEntry (key : Tuple) (rid : RID)
  | scanKey (key : Tuple)

/-- The key tuple of a call. -/
def IndexCall.key : IndexCall → Tuple
  | .insertEntry key _ => key
  | .deleteEntry key _ => key
  | .scanKey key => key

namespace ExtendibleHashTableIndex

open ExtendibleHashTable GenericBucketPage GenericComparator

section Operations

variable [DoubleText] (c : IndexConfig)

/-- `ExtendibleHashTable::GetValue`. -/
def getValue (t : ExtendibleHashTable (GenericKey c.keySize) RID) (key : GenericKey c.keySize)
    (result : List RID) : Except EvalFault (Bool × List RID) :=
  GenericBucketPage.getValue c.keySchema c.layout.bucketArraySize
    (t.buckets (keyToPageId c.layout key t.directory)) key result

/-- `ExtendibleHashTable::Insert`. -/
def insert (t : ExtendibleHashTable (GenericKey c.keySize) RID) (key : GenericKey c.keySize)
    (value : RID) :
    Except IndexFault (Bool × ExtendibleHashTable (GenericKey c.keySize) RID) :=
  let bucketPageId := keyToPageId c.layout key t.directory
  let bucket := t.buckets bucketPageId
  if bucket.isFull c.layout.bucketArraySize then .error .bucketFull
  else do
    let inserted ← (GenericBucketPage.insert c.keySchema c.layout.bucketArraySize bucket key
      value).mapError .eval
    .ok (inserted.1, t.setBucket bucketPageId inserted.2)

/-- `ExtendibleHashTable::Remove`. -/
def remove (t : ExtendibleHashTable (GenericKey c.keySize) RID) (key : GenericKey c.keySize)
    (value : RID) :
    Except IndexFault (Bool × ExtendibleHashTable (GenericKey c.keySize) RID) := do
  let bucketPageId := keyToPageId c.layout key t.directory
  let removed ← (GenericBucketPage.remove c.keySchema c.layout.bucketArraySize
    (t.buckets bucketPageId) key value).mapError .eval
  let t := t.setBucket bucketPageId removed.2
  if removed.1 ∧ removed.2.isEmpty c.layout.bucketArraySize then
    .ok (removed.1, t.merge c.layout)
  else .ok (removed.1, t)

/-- `InsertEntry`, `DeleteEntry` and `ScanKey` one after the other. Only a scan has a result. -/
def machine : Machine (ExtendibleHashTable (GenericKey c.keySize) RID) IndexCall
    (Option (List RID)) IndexFault where
  step t call :=
    match call with
    | .insertEntry key rid => do
        let indexKey ← (GenericKey.setFromKey c.keySize key).mapError .eval
        let inserted ← insert c t indexKey rid
        .ok (none, inserted.2)
    | .deleteEntry key rid => do
        let indexKey ← (GenericKey.setFromKey c.keySize key).mapError .eval
        let removed ← remove c t indexKey rid
        .ok (none, removed.2)
    | .scanKey key => do
        let indexKey ← (GenericKey.setFromKey c.keySize key).mapError .eval
        let found ← (getValue c t indexKey []).mapError .eval
        .ok (some found.2, t)

/-! ## What an index is for -/

/-- The tuple of a call is the key, up to the equality of values. -/
def Equals (tuple : Tuple) (key : GenericKey c.keySize) : Prop :=
  ∃ own, GenericKey.setFromKey c.keySize tuple = .ok own ∧ Agree c.keySchema own key

/-- What a call does to a record id under a key. -/
def liveAfter (key : GenericKey c.keySize) (rid : RID) (live : Prop) : IndexCall → Prop
  | .insertEntry tuple other => live ∨ Equals c tuple key ∧ other = rid
  | .deleteEntry tuple other => live ∧ ¬ (Equals c tuple key ∧ other = rid)
  | .scanKey _ => live

/-- The record id is inserted and not deleted under a key equal to the key. -/
def Live (calls : List IndexCall) (key : GenericKey c.keySize) (rid : RID) : Prop :=
  calls.foldl (liveAfter c key rid) False

/-- The tuple is one of the keys in use. -/
def Uses (keys : Set (GenericKey c.keySize)) (tuple : Tuple) : Prop :=
  ∃ key ∈ keys, GenericKey.setFromKey c.keySize tuple = .ok key

/-- Calls with the keys in use return unless a bucket is full, and a scan returns the live
record ids of its key, each of them once. -/
structure ScansExactly (keys : Set (GenericKey c.keySize)) : Prop where
  returns : ∀ calls t call, (machine c).Reaches (create c.layout) calls t →
    (∀ before ∈ calls, Uses c keys before.key) → Uses c keys call.key →
    (∃ outcome, (machine c).step t call = .ok outcome) ∨
      (machine c).step t call = .error .bucketFull
  scans : ∀ calls t, (machine c).Reaches (create c.layout) calls t →
    (∀ before ∈ calls, Uses c keys before.key) → ∀ tuple, ∀ key ∈ keys,
    GenericKey.setFromKey c.keySize tuple = .ok key →
    ∃ result, (machine c).step t (.scanKey tuple) = .ok (some result, t) ∧ result.Nodup ∧
      ∀ rid, rid ∈ result ↔ Live c calls key rid

/-- Keys that agree have hashes with the same lowest bit, and so the same page. -/
def SameBuckets (keys : Set (GenericKey c.keySize)) : Prop :=
  ∀ lhs ∈ keys, ∀ rhs ∈ keys, Agree c.keySchema lhs rhs →
    (c.getHash lhs).toNat % 2 = (c.getHash rhs).toNat % 2

theorem live_append (calls : List IndexCall) (call : IndexCall) (key : GenericKey c.keySize)
    (rid : RID) :
    Live c (calls ++ [call]) key rid = liveAfter c key rid (Live c calls key rid) call := by
  unfold Live
  rw [List.foldl_append]
  rfl

end Operations

/-! ## The table of the keys in use -/

section Classes

variable (c : IndexConfig) (keys : Set (GenericKey c.keySize))

/-- Keys in use with the same classes are one key. -/
def SameClasses (lhs rhs : GenericKey c.keySize) : Prop :=
  lhs = rhs ∨ lhs ∈ keys ∧ rhs ∈ keys ∧ classesOf c.keySchema lhs = classesOf c.keySchema rhs

theorem sameClasses_equivalence : Equivalence (SameClasses c keys) where
  refl key := Or.inl rfl
  symm := by
    rintro lhs rhs (rfl | ⟨hlhs, hrhs, hsame⟩)
    · exact Or.inl rfl
    · exact Or.inr ⟨hrhs, hlhs, hsame.symm⟩
  trans := by
    rintro first second third (rfl | ⟨hfirst, hsecond, hsame⟩) hrest
    · exact hrest
    · rcases hrest with rfl | ⟨-, hthird, hsame'⟩
      · exact Or.inr ⟨hfirst, hsecond, hsame⟩
      · exact Or.inr ⟨hfirst, hthird, hsame.trans hsame'⟩

/-- Keys in use with the same classes have one bucket of two. -/
def OneBucket : Prop :=
  ∀ lhs ∈ keys, ∀ rhs ∈ keys, classesOf c.keySchema lhs = classesOf c.keySchema rhs →
    (c.getHash lhs).toNat % 2 = (c.getHash rhs).toNat % 2

open Classical in
/-- The table that compares keys by their classes and has two buckets. -/
noncomputable def classTable (hbuckets : OneBucket c keys) :
    TableConfig (GenericKey c.keySize) RID where
  scheme :=
    { cmp := fun lhs rhs => if SameClasses c keys lhs rhs then 0 else 1
      -- a directory of two entries looks at the lowest bit only
      getHash := fun key => (c.getHash key).toNat % 2
      equality := by simpa using sameClasses_equivalence c keys
      hash_eq := by
        intro lhs rhs hcmp
        have hsame : SameClasses c keys lhs rhs := by simpa using hcmp
        rcases hsame with rfl | ⟨hlhs, hrhs, hsame⟩
        · rfl
        · exact hbuckets lhs hlhs rhs hrhs hsame }
  mappingSize := c.mappingSize
  zero := c.zero
  fits := c.fits

variable {c keys} {hbuckets : OneBucket c keys}

theorem classTable_cmp (lhs rhs : GenericKey c.keySize) :
    (classTable c keys hbuckets).scheme.cmp lhs rhs = 0 ↔ SameClasses c keys lhs rhs := by
  simp [classTable]

/-- In a directory of two entries both tables have a key in the same page. -/
theorem keyToPageId_classTable (key : GenericKey c.keySize) {d : DirectoryPage}
    (hsize : d.size = 2) :
    keyToPageId (classTable c keys hbuckets) key d = keyToPageId c.layout key d := by
  unfold keyToPageId
  rw [keyToDirectoryIndex_eq, keyToDirectoryIndex_eq, hsize]
  congr 1
  change toUInt32 ((c.getHash key).toNat % 2) % 2 = toUInt32 (c.getHash key).toNat % 2
  unfold toUInt32
  omega

end Classes

/-- `Merge` leaves the directory of a fresh table as it is: no local depth is above one. -/
theorem merge_of_create {K V : Type} {config : TableConfig K V} {t : ExtendibleHashTable K V}
    (h : t.directory = (create config).directory) : t.merge config = t := by
  have hturn : ∀ i < 2, t.mergeTurn config i = t := by
    intro i hi
    have hdepth : ¬ (t.directory.getLocalDepth i > 1 ∧
        (t.buckets (t.directory.getBucketPageId i)).isEmpty config.bucketArraySize = true) := by
      rw [h]
      rintro ⟨hdeep, -⟩
      obtain rfl | rfl : i = 0 ∨ i = 1 := by omega
      · exact lt_irrefl 1 hdeep
      · exact lt_irrefl 1 hdeep
    unfold mergeTurn
    exact if_neg hdepth
  have hsize : t.directory.size = 2 := by
    rw [h]
    rfl
  unfold merge
  rw [hsize, mergeLoop, if_neg (by omega), hturn 0 (by decide), mergeLoop, if_neg (by omega),
    hturn 1 (by decide), mergeLoop]

/-! ## One call -/

section Runs

variable [DoubleText] {c : IndexConfig} {keys : Set (GenericKey c.keySize)}
  {t : ExtendibleHashTable (GenericKey c.keySize) RID} {calls : List IndexCall} {tuple : Tuple}
  {key own : GenericKey c.keySize} {rid : RID}

theorem equals_iff (hset : GenericKey.setFromKey c.keySize tuple = .ok own) :
    Equals c tuple key ↔ Agree c.keySchema own key := by
  constructor
  · rintro ⟨own', hset', hagree⟩
    rw [hset] at hset'
    cases hset'
    exact hagree
  · exact fun hagree => ⟨own, hset, hagree⟩

theorem step_insertEntry (hset : GenericKey.setFromKey c.keySize tuple = .ok key) :
    (machine c).step t (.insertEntry tuple rid) =
      (insert c t key rid).map fun inserted => (none, inserted.2) := by
  simp only [machine, hset]
  rfl

theorem step_deleteEntry (hset : GenericKey.setFromKey c.keySize tuple = .ok key) :
    (machine c).step t (.deleteEntry tuple rid) =
      (remove c t key rid).map fun removed => (none, removed.2) := by
  simp only [machine, hset]
  rfl

theorem step_scanKey (hset : GenericKey.setFromKey c.keySize tuple = .ok key) :
    (machine c).step t (.scanKey tuple) =
      ((getValue c t key []).mapError .eval).map fun found => (some found.2, t) := by
  simp only [machine, hset]
  rfl

/-- The table has the live pairs of the keys in use, in the two pages that it starts with. -/
structure Tracks (config : TableConfig (GenericKey c.keySize) RID)
    (keys : Set (GenericKey c.keySize)) (calls : List IndexCall)
    (t : ExtendibleHashTable (GenericKey c.keySize) RID) : Prop where
  valid : Valid config t
  directory : t.directory = (create c.layout).directory
  contains : ∀ key rid, Contains config t key rid ↔ key ∈ keys ∧ Live c calls key rid

section Step

variable {hbuckets : OneBucket c keys}

/-- A fresh table has no pair. -/
theorem tracks_create : Tracks (classTable c keys hbuckets) keys [] (create c.layout) := by
  refine ⟨valid_create (classTable c keys hbuckets), rfl, ?_⟩
  intro key rid
  refine iff_of_false (not_contains_create (c := classTable c keys hbuckets) key rid) ?_
  exact fun h => h.2

theorem Tracks.size_eq (h : Tracks (classTable c keys hbuckets) keys calls t) :
    t.directory.size = 2 := by
  rw [h.directory]
  rfl

theorem Tracks.keyToPageId_eq (h : Tracks (classTable c keys hbuckets) keys calls t)
    (key : GenericKey c.keySize) :
    keyToPageId c.layout key t.directory =
      keyToPageId (classTable c keys hbuckets) key t.directory :=
  (keyToPageId_classTable key h.size_eq).symm

theorem Tracks.keysIn (h : Tracks (classTable c keys hbuckets) keys calls t)
    (key : GenericKey c.keySize) :
    KeysIn keys (t.buckets (keyToPageId (classTable c keys hbuckets) key t.directory)) := by
  intro i hread
  have hcontains := (h.contains _ _).mp ⟨_, keyToDirectoryIndex_lt key t.directory, i, hread,
    (classTable c keys hbuckets).scheme.equality.refl _, rfl⟩
  exact hcontains.1

variable (hdecimal : ∀ typeId ∈ columnTypes c.keySchema, typeId ≠ .decimal)
  (hkeys : Distinguished c.keySchema keys)

include hdecimal hkeys

theorem sameClasses_iff (hown : own ∈ keys) :
    SameClasses c keys key own ↔ key ∈ keys ∧ Agree c.keySchema own key := by
  constructor
  · rintro (rfl | ⟨hkey, -, hsame⟩)
    · refine ⟨hown, ?_⟩
      exact (agree_iff hdecimal (hkeys.readable _ hown) (hkeys.readable _ hown)).mpr rfl
    · refine ⟨hkey, ?_⟩
      exact (agree_iff hdecimal (hkeys.readable _ hown) (hkeys.readable _ hkey)).mpr hsame.symm
  · rintro ⟨hkey, hagree⟩
    have hsame :=
      (agree_iff hdecimal (hkeys.readable _ hown) (hkeys.readable _ hkey)).mp hagree
    exact Or.inr ⟨hkey, hown, hsame.symm⟩

variable (hbuckets) in
theorem decides_classTable :
    Decides c.keySchema (classTable c keys hbuckets).scheme keys := by
  have horders := (ordersKeys_iff_distinguished hdecimal).mpr hkeys
  intro lhs hlhs rhs hrhs
  obtain ⟨sign, hsign, -⟩ := horders.swap lhs hlhs rhs hrhs
  refine ⟨sign, hsign, ?_⟩
  have hzero := horders.zero_iff lhs hlhs rhs hrhs
  rw [hsign, Except.ok.injEq] at hzero
  rw [hzero, classTable_cmp]
  refine Iff.trans ?_ ⟨(sameClasses_equivalence c keys).symm, (sameClasses_equivalence c keys).symm⟩
  rw [sameClasses_iff hdecimal hkeys hlhs]
  exact (and_iff_right hrhs).symm

/-- An insertion where there is room adds the pair. -/
theorem Tracks.insertEntry (h : Tracks (classTable c keys hbuckets) keys calls t)
    (hset : GenericKey.setFromKey c.keySize tuple = .ok own) (hown : own ∈ keys) (rid : RID) :
    (machine c).step t (.insertEntry tuple rid) = .error .bucketFull ∨
      ∃ next, (machine c).step t (.insertEntry tuple rid) = .ok (none, next) ∧
        Tracks (classTable c keys hbuckets) keys (calls ++ [.insertEntry tuple rid]) next := by
  rw [step_insertEntry hset]
  unfold ExtendibleHashTableIndex.insert
  rw [h.keyToPageId_eq]
  dsimp only
  split
  -- the bucket is full and would have to be split
  next => exact Or.inl rfl
  next hroom =>
    obtain ⟨success, page, hinsert, -, -, hvalid, hcontains⟩ :=
      h.valid.insert_bucket own rid hroom
    right
    -- the bucket compares the keys, the table of the classes compares their classes
    have hpage : GenericBucketPage.insert c.keySchema c.layout.bucketArraySize
        (t.buckets (keyToPageId (classTable c keys hbuckets) own t.directory)) own rid =
          .ok (success, page) := by
      rw [← hinsert]
      exact insert_eq (decides_classTable hbuckets hdecimal hkeys) (h.keysIn own) hown rid
    refine ⟨_, ?_, hvalid, h.directory, ?_⟩
    · rw [hpage]
      rfl
    · intro other rid'
      rw [hcontains, h.contains, classTable_cmp, sameClasses_iff hdecimal hkeys hown, live_append,
        liveAfter, equals_iff hset]
      constructor
      · rintro (⟨hother, hlive⟩ | ⟨⟨hother, hagree⟩, hrid⟩)
        · exact ⟨hother, Or.inl hlive⟩
        · exact ⟨hother, Or.inr ⟨hagree, hrid⟩⟩
      · rintro ⟨hother, hlive | ⟨hagree, hrid⟩⟩
        · exact Or.inl ⟨hother, hlive⟩
        · exact Or.inr ⟨⟨hother, hagree⟩, hrid⟩

/-- A deletion removes the pair. -/
theorem Tracks.deleteEntry (h : Tracks (classTable c keys hbuckets) keys calls t)
    (hset : GenericKey.setFromKey c.keySize tuple = .ok own) (hown : own ∈ keys) (rid : RID) :
    ∃ next, (machine c).step t (.deleteEntry tuple rid) = .ok (none, next) ∧
      Tracks (classTable c keys hbuckets) keys (calls ++ [.deleteEntry tuple rid]) next := by
  obtain ⟨success, page, hremove, hresult⟩ := h.valid.remove_bucket own rid
  -- the keys of the bucket are among those that the comparison decides by class
  have hpage : GenericBucketPage.remove c.keySchema c.layout.bucketArraySize
      (t.buckets (keyToPageId (classTable c keys hbuckets) own t.directory)) own rid =
        .ok (success, page) := by
    rw [← hremove]
    exact remove_eq (decides_classTable hbuckets hdecimal hkeys) (h.keysIn own) hown rid
  refine ⟨t.setBucket (keyToPageId (classTable c keys hbuckets) own t.directory) page, ?_,
    hresult.valid, h.directory, ?_⟩
  · -- no local depth is above one, so that there is nothing to merge
    have hmerge : (t.setBucket (keyToPageId (classTable c keys hbuckets) own t.directory)
        page).merge c.layout = t.setBucket _ page := merge_of_create h.directory
    rw [step_deleteEntry hset]
    unfold ExtendibleHashTableIndex.remove
    rw [h.keyToPageId_eq]
    dsimp only
    rw [hpage]
    change Except.map _ (if _ then Except.ok (success, ExtendibleHashTable.merge _ _)
      else Except.ok (success, _)) = _
    rw [hmerge, ite_self]
    rfl
  · intro other rid'
    rw [hresult.contains, h.contains, classTable_cmp, sameClasses_iff hdecimal hkeys hown,
      live_append, liveAfter, equals_iff hset]
    constructor
    · rintro ⟨⟨hother, hlive⟩, hkept⟩
      exact ⟨hother, hlive, fun hgone => hkept ⟨⟨hother, hgone.1⟩, hgone.2.symm⟩⟩
    · rintro ⟨hother, hlive, hkept⟩
      exact ⟨⟨hother, hlive⟩, fun hgone => hkept ⟨hgone.1.2, hgone.2.symm⟩⟩

/-- A scan returns the live record ids. -/
theorem Tracks.scanKey (h : Tracks (classTable c keys hbuckets) keys calls t)
    (hset : GenericKey.setFromKey c.keySize tuple = .ok own) (hown : own ∈ keys) :
    ∃ result, (machine c).step t (.scanKey tuple) = .ok (some result, t) ∧ result.Nodup ∧
      ∀ rid, rid ∈ result ↔ Live c calls own rid := by
  obtain ⟨hnodup, hmem⟩ := BucketPage.getValue_spec (h.valid.bucket_of_key own) own
  have hpage : GenericBucketPage.getValue c.keySchema c.layout.bucketArraySize
      (t.buckets (keyToPageId (classTable c keys hbuckets) own t.directory)) own [] = .ok _ :=
    getValue_eq (decides_classTable hbuckets hdecimal hkeys) (h.keysIn own) hown []
  refine ⟨_, ?_, hnodup, ?_⟩
  · rw [step_scanKey hset]
    unfold ExtendibleHashTableIndex.getValue
    rw [h.keyToPageId_eq, hpage]
    rfl
  · intro rid
    rw [hmem, ← h.valid.contains_iff, h.contains]
    exact and_iff_right hown

/-- Every call with a key in use goes on with the live pairs, unless a bucket is full. -/
theorem Tracks.step (h : Tracks (classTable c keys hbuckets) keys calls t) {call : IndexCall}
    (huses : Uses c keys call.key) :
    (machine c).step t call = .error .bucketFull ∨
      ∃ output next, (machine c).step t call = .ok (output, next) ∧
        Tracks (classTable c keys hbuckets) keys (calls ++ [call]) next := by
  obtain ⟨own, hown, hset⟩ := huses
  cases call with
  | insertEntry tuple rid =>
      rcases h.insertEntry hdecimal hkeys hset hown rid with hfull | ⟨next, hstep, hnext⟩
      · exact Or.inl hfull
      · exact Or.inr ⟨none, next, hstep, hnext⟩
  | deleteEntry tuple rid =>
      obtain ⟨next, hstep, hnext⟩ := h.deleteEntry hdecimal hkeys hset hown rid
      exact Or.inr ⟨none, next, hstep, hnext⟩
  | scanKey tuple =>
      obtain ⟨result, hstep, -⟩ := h.scanKey hdecimal hkeys hset hown
      refine Or.inr ⟨some result, t, hstep, h.valid, h.directory, ?_⟩
      intro key rid
      rw [h.contains, live_append]
      rfl

variable (hbuckets) in
/-- A run with keys in use has the live pairs in the table. -/
theorem tracks_of_reaches (hreach : (machine c).Reaches (create c.layout) calls t)
    (huses : ∀ call ∈ calls, Uses c keys call.key) :
    Tracks (classTable c keys hbuckets) keys calls t := by
  have hall := hreach.history (fun calls t => (∀ call ∈ calls, Uses c keys call.key) →
    Tracks (classTable c keys hbuckets) keys calls t) (fun _ => tracks_create) (by
      intro before middle call output next _ hbefore hstep huses
      rw [List.forall_mem_append, List.forall_mem_singleton] at huses
      rcases (hbefore huses.1).step hdecimal hkeys huses.2 with hfull | ⟨output', next', hok, hnext⟩
      · rw [hfull] at hstep
        cases hstep
      · rw [hok] at hstep
        cases hstep
        exact hnext)
  exact hall huses

omit hkeys in
/-- Keys that agree have the same classes, and these one bucket. -/
theorem SameBuckets.oneBucket (hreadable : ∀ key ∈ keys, Readable c.keySchema key)
    (h : SameBuckets c keys) : OneBucket c keys := by
  intro lhs hlhs rhs hrhs hsame
  exact h lhs hlhs rhs hrhs
    ((agree_iff hdecimal (hreadable lhs hlhs) (hreadable rhs hrhs)).mpr hsame)

theorem scansExactly_of_distinguished (hsame : SameBuckets c keys) : ScansExactly c keys := by
  have hbuckets := hsame.oneBucket hdecimal hkeys.readable
  refine ⟨?_, ?_⟩
  · intro calls t call hreach hbefore huses
    have htracks := tracks_of_reaches hbuckets hdecimal hkeys hreach hbefore
    rcases htracks.step hdecimal hkeys huses with hfull | ⟨output, next, hok, -⟩
    · exact Or.inr hfull
    · exact Or.inl ⟨_, hok⟩
  · intro calls t hreach hbefore tuple key hkey hset
    exact (tracks_of_reaches hbuckets hdecimal hkeys hreach hbefore).scanKey hdecimal hkeys hset
      hkey

end Step

/-! ## Keys in two buckets -/

theorem getValue_zeroed (zero : GenericKey c.keySize × RID) (size : Nat) :
    GenericBucketPage.getValue c.keySchema size (.zeroed zero) key [] = .ok (false, []) := by
  have hloop : ∀ indices, getValueLoop c.keySchema (.zeroed zero) key indices [] = .ok [] := by
    intro indices
    cases indices with
    | nil => rfl
    | cons i rest => simp [getValueLoop]
  unfold GenericBucketPage.getValue
  rw [hloop]
  rfl

theorem insert_zeroed (key : GenericKey c.keySize) (rid : RID) (zero : GenericKey c.keySize × RID)
    (size : Nat) : ∃ inserted, GenericBucketPage.insert c.keySchema size (.zeroed zero) key rid =
      .ok inserted := by
  unfold GenericBucketPage.insert
  split
  · exact ⟨_, rfl⟩
  · rw [getValue_zeroed]
    cases hfind : (List.range size).find? fun i =>
        ¬ (BucketPage.zeroed zero).isReadable i with
    | none => exact ⟨_, rfl⟩
    | some i => exact ⟨_, rfl⟩

omit [DoubleText] in
/-- The page of a key in a fresh table. -/
theorem keyToPageId_create (key : GenericKey c.keySize) :
    keyToPageId c.layout key (create c.layout).directory =
      if (c.getHash key).toNat % 2 = 0 then 1 else 2 := by
  have hmod : toUInt32 (c.getHash key).toNat % 2 = (c.getHash key).toNat % 2 := by
    unfold toUInt32
    omega
  unfold keyToPageId
  rw [keyToDirectoryIndex_eq]
  change (create c.layout).directory.getBucketPageId (toUInt32 (c.getHash key).toNat % 2) = _
  rw [hmod]
  split
  next heven =>
    rw [heven]
    rfl
  next hodd =>
    rw [Nat.mod_two_ne_zero.mp hodd]
    rfl

/-- A key is not found under one that agrees with it in the other bucket. -/
theorem sameBuckets_of_scansExactly (h : ScansExactly c keys) : SameBuckets c keys := by
  intro lhs hlhs rhs hrhs hagree
  by_contra hdiff
  -- the pair of `lhs` goes into one page, and the scan for `rhs` looks into the other one
  have hpages : keyToPageId c.layout rhs (create c.layout).directory ≠
      keyToPageId c.layout lhs (create c.layout).directory := by
    rw [keyToPageId_create, keyToPageId_create]
    split
    · split
      · omega
      · decide
    · split
      · decide
      · omega
  have hroom : ¬ ((create c.layout).buckets (keyToPageId c.layout lhs
      (create c.layout).directory)).isFull c.layout.bucketArraySize := by
    rw [buckets_create]
    unfold BucketPage.isFull
    rw [decide_eq_true_eq, BucketPage.numReadable_zeroed]
    exact c.layout.bucketArraySize_pos.ne
  obtain ⟨inserted, hinserted⟩ := insert_zeroed lhs ⟨0, 0⟩ c.zero c.layout.bucketArraySize
  have hinsert : (machine c).step (create c.layout) (.insertEntry lhs.data ⟨0, 0⟩) =
      .ok (none, (create c.layout).setBucket (keyToPageId c.layout lhs
        (create c.layout).directory) inserted.2) := by
    rw [step_insertEntry (GenericKey.setFromKey_data lhs)]
    unfold ExtendibleHashTableIndex.insert
    dsimp only
    rw [if_neg hroom, buckets_create]
    change Except.map _ (Except.mapError _ (GenericBucketPage.insert _ _ (.zeroed c.zero) _ _) >>=
      _) = _
    rw [hinserted]
    rfl
  have hscan : (machine c).step ((create c.layout).setBucket (keyToPageId c.layout lhs
      (create c.layout).directory) inserted.2) (.scanKey rhs.data) =
      .ok (some [], (create c.layout).setBucket (keyToPageId c.layout lhs
        (create c.layout).directory) inserted.2) := by
    have hpage : ((create c.layout).setBucket (keyToPageId c.layout lhs
        (create c.layout).directory) inserted.2).buckets (keyToPageId c.layout rhs
          (create c.layout).directory) = .zeroed c.zero :=
      (Function.update_of_ne hpages _ _).trans (buckets_create _)
    rw [step_scanKey (GenericKey.setFromKey_data rhs)]
    unfold ExtendibleHashTableIndex.getValue
    change Except.map _ (Except.mapError _ (GenericBucketPage.getValue _ _ (((create
      c.layout).setBucket _ _).buckets (keyToPageId c.layout rhs (create c.layout).directory)) _
        _)) = _
    rw [hpage, getValue_zeroed]
    rfl
  have hreach := Machine.reaches_cons.mpr ⟨_, _, hinsert, Machine.reaches_nil.mpr rfl⟩
  obtain ⟨result, hresult, -, hmem⟩ := h.scans _ _ hreach
    ((List.forall_mem_singleton).mpr ⟨lhs, hlhs, GenericKey.setFromKey_data lhs⟩) rhs.data rhs hrhs
    (GenericKey.setFromKey_data rhs)
  rw [hscan] at hresult
  cases hresult
  have hlive : Live c [.insertEntry lhs.data ⟨0, 0⟩] rhs ⟨0, 0⟩ :=
    Or.inr ⟨⟨lhs, GenericKey.setFromKey_data lhs, hagree⟩, rfl⟩
  exact List.not_mem_nil ((hmem _).mpr hlive)

/-- The comparator orders the keys in use, and scans return the live record ids of their keys,
exactly when keys that do not agree differ in a column in which neither is NULL, without a
circle, and keys that agree are in one bucket. -/
theorem scans_iff_distinguished (c : IndexConfig) (keys : Set (GenericKey c.keySize))
    (hdecimal : ∀ typeId ∈ columnTypes c.keySchema, typeId ≠ .decimal) :
    OrdersKeys c.keySchema keys ∧ ScansExactly c keys ↔
      Distinguished c.keySchema keys ∧ SameBuckets c keys := by
  rw [ordersKeys_iff_distinguished hdecimal]
  constructor
  · exact fun h => ⟨h.1, sameBuckets_of_scansExactly h.2⟩
  · exact fun h => ⟨h.1, scansExactly_of_distinguished hdecimal h.1 h.2⟩

end Runs

/-- An index on an INTEGER and a VARCHAR. -/
def labelIndex : IndexConfig where
  keySize := 32
  keySchema :=
    { columns := [{ columnName := "id", columnType := .integer },
        { columnName := "label", columnType := .varchar }] }
  getHash key := key.data.foldl (fun hash byte => hash * 31 + byte.toUInt64) 17
  mappingSize := 40
  fits := by decide

/-- The values of a key of it. -/
def labelValues (id : Int32) (byte : UInt8) : List Value :=
  [.integer id, .varchar (some ⟨[byte, 0], (by decide : 2 < valueNull)⟩)]

theorem exists_labelKey (id : Int32) (byte : UInt8) :
    ∃ (tuple : Tuple) (key : GenericKey labelIndex.keySize),
      Tuple.ofValues (labelValues id byte) labelIndex.keySchema = .ok tuple ∧
        GenericKey.setFromKey labelIndex.keySize tuple = .ok key ∧
        Readable labelIndex.keySchema key ∧
        valuesOf labelIndex.keySchema key = labelValues id byte := by
  apply readable_of_covered
  · decide
  · rfl
  · rw [labelValues, List.forall_mem_cons, List.forall_mem_singleton]
    refine ⟨?_, ?_⟩
    · exact Value.terminated_of_getTypeId (TypeId.noConfusion : TypeId.integer ≠ .varchar)
    · intro text htext
      cases htext
      exact ⟨Nat.zero_lt_two, Nat.le_of_ble_eq_true rfl⟩
  · trivial
  · exact ⟨Nat.le_of_ble_eq_true rfl, Nat.le_of_ble_eq_true rfl⟩
  · exact Nat.le_of_ble_eq_true rfl

theorem scans_iff_distinguished_labels :
    let _ := noDoubleText
    ∃ first second : GenericKey labelIndex.keySize,
      valuesOf labelIndex.keySchema first = labelValues 1 97 ∧
        valuesOf labelIndex.keySchema second = labelValues 1 98 ∧
        OrdersKeys labelIndex.keySchema {first, second} ∧
        ScansExactly labelIndex {first, second} := by
  intro _
  obtain ⟨-, first, -, -, hfirst, hvalues⟩ := exists_labelKey 1 97
  obtain ⟨-, second, -, -, hsecond, hvalues'⟩ := exists_labelKey 1 98
  have hdecimal : ∀ typeId ∈ columnTypes labelIndex.keySchema, typeId ≠ .decimal := by decide
  have hclasses : classesOf labelIndex.keySchema first =
      [some (.number 1), some (.text [97])] := by
    unfold classesOf
    rw [hvalues]
    decide +kernel
  have hclasses' : classesOf labelIndex.keySchema second =
      [some (.number 1), some (.text [98])] := by
    unfold classesOf
    rw [hvalues']
    decide +kernel
  -- the labels differ in the text alone
  have hdiffer : classesOf labelIndex.keySchema first ≠ classesOf labelIndex.keySchema second := by
    rw [hclasses, hclasses']
    decide
  -- neither key holds a null
  have hkeys : ∀ key ∈ ({first, second} : Set (GenericKey labelIndex.keySize)),
      Readable labelIndex.keySchema key ∧
        (classesOf labelIndex.keySchema key).map Option.isSome = [true, true] := by
    rintro key (rfl | rfl)
    · exact ⟨hfirst, by rw [hclasses]; rfl⟩
    · exact ⟨hsecond, by rw [hclasses']; rfl⟩
  refine ⟨first, second, hvalues, hvalues', ?_⟩
  apply (scans_iff_distinguished labelIndex {first, second} hdecimal).mpr
  refine ⟨distinguished_of_sameGaps hdecimal (fun key hkey => (hkeys key hkey).1) ?_, ?_⟩
  · intro lhs hlhs rhs hrhs
    exact (hkeys lhs hlhs).2.trans (hkeys rhs hrhs).2.symm
  · intro lhs hlhs rhs hrhs hagree
    have hsame := (agree_iff hdecimal (hkeys lhs hlhs).1 (hkeys rhs hrhs).1).mp hagree
    rcases hlhs with rfl | rfl
    · rcases hrhs with rfl | rfl
      · rfl
      · exact absurd hsame hdiffer
    · rcases hrhs with rfl | rfl
      · exact absurd hsame.symm hdiffer
      · rfl

/-- An index on an INTEGER. -/
def idIndex : IndexConfig where
  keySize := 4
  keySchema := { columns := [{ columnName := "id", columnType := .integer }] }
  getHash key := key.data.foldl (fun hash byte => hash * 2 + byte.toUInt64 / 64) 0
  mappingSize := 12
  fits := by decide

/-- A record id that is inserted under NULL is found under five. -/
theorem null_scanned_as_five :
    let _ := noDoubleText
    let null : GenericKey 4 := ⟨[0, 0, 0, 128], rfl⟩
    let five : GenericKey 4 := ⟨[5, 0, 0, 0], rfl⟩
    (valuesOf idIndex.keySchema null).map Value.isNull = [true] ∧
      valuesOf idIndex.keySchema five = [.integer 5] ∧
      ((machine idIndex).run (create idIndex.layout)
        [.insertEntry null.data ⟨1, 2⟩, .scanKey five.data]).toOption.map Prod.fst =
          some [none, some [⟨1, 2⟩]] ∧
      ¬ (OrdersKeys idIndex.keySchema {null, five} ∧
        ScansExactly idIndex {null, five}) := by
  intro _ null five
  refine ⟨by decide +kernel, by decide +kernel, by decide +kernel, ?_⟩
  rintro ⟨horders, -⟩
  have hdecimal : ∀ typeId ∈ columnTypes idIndex.keySchema,
      typeId ≠ .decimal := by decide
  have hnull := horders.readable hdecimal null (Or.inl rfl)
  have hfive := horders.readable hdecimal five (Or.inr rfl)
  have hagree := (horders.zero_iff null (Or.inl rfl) five (Or.inr rfl)).mp (by decide +kernel)
  have hsame := (agree_iff hdecimal hnull hfive).mp hagree
  revert hsame
  decide +kernel

end ExtendibleHashTableIndex

end BusTub
