import BusTub.Hash.ExtendibleHashTable
import BusTub.Storage.PageBytes

/-! # The bytes of the hash table's pages

The directory and the buckets as they lie in `data_` of a page. A page is read from its
bytes, and what a call leaves of it is written over them; the bytes that belong to no field
stay as they are.
-/

namespace BusTub

attribute [ext] DirectoryPage BucketPage

namespace DirectoryPage

/-- `HashTableDirectoryPage` over `data_`. The page id and the log sequence number come first. -/
def ofData (data : PageData) : DirectoryPage where
  globalDepth := wordAt data 8
  localDepths i := if i < directoryArraySize then (byteAt data (12 + i)).toNat else 0
  bucketPageIds i :=
    if i < directoryArraySize then toInt32 (wordAt data (12 + directoryArraySize + 4 * i)) else 0

/-- The fields of the directory over the bytes of its page. -/
def store (d : DirectoryPage) (data : PageData) : PageData := fun i =>
  if i.val < 8 then data i
  else if i.val < 12 then byteOfWord d.globalDepth (i - 8)
  else if i.val < 12 + directoryArraySize then UInt8.ofNat (d.localDepths (i - 12))
  else if i.val < 12 + 5 * directoryArraySize then
    let offset := i - (12 + directoryArraySize)
    byteOfWord (d.bucketPageIds (offset / 4) % 2 ^ 32).toNat (offset % 4)
  else data i

/-- `SetPageId`. -/
def storePageId (pageId : PageId) (data : PageData) : PageData := fun i =>
  if i.val < 4 then byteOfWord (pageId % 2 ^ 32).toNat i else data i

/-- The fields fit their bytes, with page ids below `limit`, and there is nothing beyond the
arrays. -/
structure Storable (limit : PageId) (d : DirectoryPage) : Prop where
  globalDepth : d.globalDepth < 2 ^ 32
  localDepths : ∀ i, d.localDepths i < 2 ^ 8
  bucketPageIds : ∀ i, 0 ≤ d.bucketPageIds i ∧ d.bucketPageIds i < limit
  outside : ∀ i, directoryArraySize ≤ i → d.localDepths i = 0 ∧ d.bucketPageIds i = 0

section Stored

variable (d : DirectoryPage) (data : PageData) {i : Nat}

theorem globalDepth_ofData_store (hdepth : d.globalDepth < 2 ^ 32) :
    (ofData (d.store data)).globalDepth = d.globalDepth := by
  refine wordAt_of_bytes (fun i hi => ?_) hdepth
  rw [byteAt_of_lt (by unfold pageSize; omega)]
  unfold store
  dsimp only
  rw [if_neg (by omega), if_pos (by omega), Nat.add_sub_cancel_left]

theorem localDepths_ofData_store (hi : i < directoryArraySize) :
    (ofData (d.store data)).localDepths i = d.localDepths i % 2 ^ 8 := by
  have hbyte : (byteAt (d.store data) (12 + i)).toNat = d.localDepths i % 2 ^ 8 := by
    unfold directoryArraySize at hi
    unfold store
    rw [byteAt_of_lt (by unfold pageSize; omega)]
    dsimp only
    rw [if_neg (by omega), if_neg (by omega), if_pos (by unfold directoryArraySize; omega),
      Nat.add_sub_cancel_left, UInt8.toNat_ofNat']
  exact (if_pos hi).trans hbyte

theorem bucketPageIds_ofData_store (hi : i < directoryArraySize) :
    (ofData (d.store data)).bucketPageIds i = toInt32 (d.bucketPageIds i) := by
  have hword : wordAt (d.store data) (12 + directoryArraySize + 4 * i) =
      (d.bucketPageIds i % 2 ^ 32).toNat := by
    unfold directoryArraySize at hi
    refine wordAt_of_bytes (fun j hj => ?_) (by omega)
    unfold directoryArraySize
    rw [byteAt_of_lt (by unfold pageSize; omega)]
    unfold store directoryArraySize
    dsimp only
    rw [if_neg (by omega), if_neg (by omega), if_neg (by omega), if_pos (by omega)]
    have hdiv : (12 + 512 + 4 * i + j - (12 + 512)) / 4 = i := by omega
    have hmod : (12 + 512 + 4 * i + j - (12 + 512)) % 4 = j := by omega
    rw [hdiv, hmod]
  have hcast : ((d.bucketPageIds i % 2 ^ 32).toNat : Int) = d.bucketPageIds i % 2 ^ 32 :=
    Int.toNat_of_nonneg (Int.emod_nonneg _ (by decide))
  unfold ofData
  dsimp only
  rw [if_pos hi, hword, hcast]
  unfold toInt32
  rw [Int.emod_add_emod]

variable {d}

/-- A directory is read as it was stored. -/
theorem ofData_store (h : d.Storable (2 ^ 31)) : ofData (d.store data) = d := by
  apply DirectoryPage.ext
  · exact globalDepth_ofData_store d data h.globalDepth
  · funext i
    by_cases hi : i < directoryArraySize
    · rw [localDepths_ofData_store d data hi, Nat.mod_eq_of_lt (h.localDepths i)]
    · exact (if_neg hi).trans (h.outside i (Nat.le_of_not_lt hi)).1.symm
  · funext i
    by_cases hi : i < directoryArraySize
    · obtain ⟨hnonneg, hlt⟩ := h.bucketPageIds i
      rw [bucketPageIds_ofData_store d data hi]
      exact toInt32_of_bounds (le_trans (by decide) hnonneg) hlt
    · exact (if_neg hi).trans (h.outside i (Nat.le_of_not_lt hi)).2.symm

theorem ofData_zero : ofData (fun _ => 0) = {} := by
  have hbyte : ∀ a, byteAt (fun _ => 0) a = 0 := by
    intro a
    unfold byteAt
    split
    · rfl
    · rfl
  have hword : ∀ a, wordAt (fun _ => 0) a = 0 := by
    intro a
    unfold wordAt
    simp only [hbyte]
    rfl
  apply DirectoryPage.ext
  · exact hword 8
  · funext i
    unfold ofData
    dsimp only
    rw [hbyte]
    exact ite_self _
  · funext i
    unfold ofData
    dsimp only
    rw [hword]
    exact ite_self _

/-- The page id is no field of the directory. -/
theorem ofData_storePageId (pageId : PageId) : ofData (storePageId pageId data) = ofData data := by
  have hbyte : ∀ a, 4 ≤ a → byteAt (storePageId pageId data) a = byteAt data a := by
    intro a ha
    unfold byteAt storePageId
    split
    · exact if_neg (Nat.not_lt.mpr ha)
    · rfl
  have hword : ∀ a, 4 ≤ a → wordAt (storePageId pageId data) a = wordAt data a := by
    intro a ha
    unfold wordAt
    congr 1
    exact List.map_congr_left fun i _ => hbyte _ (le_trans ha (Nat.le_add_right a i))
  apply DirectoryPage.ext
  · exact hword 8 (by decide)
  · funext i
    unfold ofData
    dsimp only
    rw [hbyte _ (by omega)]
  · funext i
    unfold ofData
    dsimp only
    rw [hword _ (by omega)]

end Stored

end DirectoryPage

/-- How the pairs of a table lie in the array of a bucket page. -/
structure PairLayout {K V : Type} (c : TableConfig K V) where
  /-- Where `array_` starts. -/
  arrayOffset : Nat
  encode : K × V → Nat → UInt8
  decode : (Nat → UInt8) → K × V
  decode_encode : ∀ pair bytes, (∀ i, i < c.mappingSize → bytes i = encode pair i) →
    decode bytes = pair
  zero : decode (fun _ => 0) = c.zero
  after : 2 * BucketPage.getNumofChars c.bucketArraySize ≤ arrayOffset
  fits : arrayOffset + c.bucketArraySize * c.mappingSize ≤ pageSize

namespace BucketPage

variable {K V : Type} {c : TableConfig K V} (layout : PairLayout c)

/-- `HashTableBucketPage` over `data_`: the two bitmaps and the array. -/
def ofData (data : PageData) : BucketPage K V where
  occupied i := if i < getNumofChars c.bucketArraySize then (byteAt data i).toBitVec else 0
  readable i :=
    if i < getNumofChars c.bucketArraySize then
      (byteAt data (getNumofChars c.bucketArraySize + i)).toBitVec
    else 0
  array i :=
    if i < c.bucketArraySize then
      layout.decode fun j => byteAt data (layout.arrayOffset + i * c.mappingSize + j)
    else c.zero

/-- The fields of the bucket over the bytes of its page. -/
def store (p : BucketPage K V) (data : PageData) : PageData := fun i =>
  let chars := getNumofChars c.bucketArraySize
  if i.val < chars then ⟨p.occupied i⟩
  else if i.val < 2 * chars then ⟨p.readable (i - chars)⟩
  else if layout.arrayOffset ≤ i.val ∧
      i.val < layout.arrayOffset + c.bucketArraySize * c.mappingSize then
    let offset := i - layout.arrayOffset
    layout.encode (p.array (offset / c.mappingSize)) (offset % c.mappingSize)
  else data i

/-- There is nothing beyond the bitmaps and the array. -/
structure Storable (size : Nat) (zero : K × V) (p : BucketPage K V) : Prop where
  occupied : ∀ i, getNumofChars size ≤ i → p.occupied i = 0
  readable : ∀ i, getNumofChars size ≤ i → p.readable i = 0
  array : ∀ i, size ≤ i → p.array i = zero

theorem ofData_zero : ofData layout (fun _ => 0) = zeroed c.zero := by
  have hbyte : ∀ a, byteAt (fun _ => 0) a = 0 := by
    intro a
    unfold byteAt
    split
    · rfl
    · rfl
  have hbits : ∀ a, (byteAt (fun _ => 0) a).toBitVec = 0 := by
    intro a
    rw [hbyte]
    rfl
  apply BucketPage.ext
  · funext i
    unfold ofData
    dsimp only
    rw [hbits, ite_self]
    rfl
  · funext i
    unfold ofData
    dsimp only
    rw [hbits, ite_self]
    rfl
  · funext i
    unfold ofData
    dsimp only
    have hpair : (fun j => byteAt (fun _ => 0) (layout.arrayOffset + i * c.mappingSize + j)) =
        fun _ => 0 := funext fun j => hbyte _
    rw [hpair, layout.zero, ite_self]
    rfl

/-- The array of a bucket is read as it was stored. -/
theorem array_ofData_store (p : BucketPage K V) (data : PageData) {i : Nat}
    (hi : i < c.bucketArraySize) :
    (ofData layout (p.store layout data)).array i = p.array i := by
  refine (if_pos hi).trans (layout.decode_encode _ _ fun j hj => ?_)
  have hafter := layout.after
  have hfits := layout.fits
  have hblock : i * c.mappingSize + j < c.bucketArraySize * c.mappingSize := by
    have hle : (i + 1) * c.mappingSize ≤ c.bucketArraySize * c.mappingSize :=
      Nat.mul_le_mul_right _ hi
    rw [Nat.succ_mul] at hle
    omega
  rw [Nat.add_assoc, byteAt_of_lt (by omega)]
  unfold store
  dsimp only
  rw [if_neg (by omega), if_neg (by omega), if_pos ⟨by omega, by omega⟩, Nat.add_sub_cancel_left,
    Nat.mul_comm i, Nat.mul_add_div (by omega), Nat.div_eq_of_lt hj, Nat.add_zero,
    Nat.mul_add_mod, Nat.mod_eq_of_lt hj]

/-- A bucket is read as it was stored. -/
theorem ofData_store {p : BucketPage K V} (h : p.Storable c.bucketArraySize c.zero)
    (data : PageData) : ofData layout (p.store layout data) = p := by
  have hafter := layout.after
  have hfits := layout.fits
  apply BucketPage.ext
  · funext i
    by_cases hi : i < getNumofChars c.bucketArraySize
    · refine (if_pos hi).trans ?_
      rw [byteAt_of_lt (by omega)]
      unfold store
      dsimp only
      rw [if_pos hi]
    · exact (if_neg hi).trans (h.occupied i (Nat.le_of_not_lt hi)).symm
  · funext i
    by_cases hi : i < getNumofChars c.bucketArraySize
    · refine (if_pos hi).trans ?_
      rw [byteAt_of_lt (by omega)]
      unfold store
      dsimp only
      rw [if_neg (by omega), if_pos (by omega), Nat.add_sub_cancel_left]
    · exact (if_neg hi).trans (h.readable i (Nat.le_of_not_lt hi)).symm
  · funext i
    by_cases hi : i < c.bucketArraySize
    · exact array_ofData_store layout p data hi
    · exact (if_neg hi).trans (h.array i (Nat.le_of_not_lt hi)).symm

end BucketPage

end BusTub
