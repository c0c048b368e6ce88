import BusTub.Hash.SplitImage
import BusTub.Hash.TableInvariant
import BusTub.Hash.TableBytes

/-! # Tables that fit their pages

Whatever is called on a table, and whether or not its directory is still well formed, the
fields of its directory and of its buckets fit the bytes that the pages have for them, and the
entries of the directory lead to buckets that were allocated.
-/

namespace BusTub

open LowBits

/-! ## Directories -/

namespace DirectoryPage

open ExtendibleHashTable (redirect redirectAll mergeAlias mergePair)

variable {limit limit' : PageId} {d : DirectoryPage} {i j : Nat}

theorem Storable.mono (h : d.Storable limit) (hle : limit ≤ limit') : d.Storable limit' where
  globalDepth := h.globalDepth
  localDepths := h.localDepths
  bucketPageIds i := ⟨(h.bucketPageIds i).1, lt_of_lt_of_le (h.bucketPageIds i).2 hle⟩
  outside := h.outside

theorem Storable.setBucketPageId (h : d.Storable limit) (hi : i < directoryArraySize)
    {pageId : PageId} (hid : 0 ≤ pageId ∧ pageId < limit) :
    (d.setBucketPageId i pageId).Storable limit where
  globalDepth := h.globalDepth
  localDepths := h.localDepths
  bucketPageIds other := by
    rw [bucketPageIds_setBucketPageId]
    by_cases heq : other = i
    · rw [heq, Function.update_self]
      exact hid
    · rw [Function.update_of_ne heq]
      exact h.bucketPageIds other
  outside other hother := by
    rw [bucketPageIds_setBucketPageId, Function.update_of_ne (by omega)]
    exact h.outside other hother

theorem Storable.setLocalDepth (h : d.Storable limit) (hi : i < directoryArraySize) {depth : Nat}
    (hdepth : depth < 2 ^ 8) : (d.setLocalDepth i depth).Storable limit where
  globalDepth := h.globalDepth
  localDepths other := by
    rw [localDepths_setLocalDepth]
    by_cases heq : other = i
    · rw [heq, Function.update_self]
      exact hdepth
    · rw [Function.update_of_ne heq]
      exact h.localDepths other
  bucketPageIds := h.bucketPageIds
  outside other hother := by
    rw [localDepths_setLocalDepth, Function.update_of_ne (by omega)]
    exact h.outside other hother

theorem Storable.incrGlobalDepth (h : d.Storable limit) (hdepth : d.globalDepth + 1 < 2 ^ 32) :
    d.incrGlobalDepth.Storable limit :=
  ⟨hdepth, h.localDepths, h.bucketPageIds, h.outside⟩

theorem Storable.decrGlobalDepth (h : d.Storable limit) : d.decrGlobalDepth.Storable limit :=
  ⟨lt_of_le_of_lt (Nat.sub_le _ _) h.globalDepth, h.localDepths, h.bucketPageIds, h.outside⟩

theorem Storable.decrLocalDepth (h : d.Storable limit) (hi : i < directoryArraySize) :
    (d.decrLocalDepth i).Storable limit :=
  h.setLocalDepth hi (lt_of_le_of_lt (Nat.sub_le _ _) (h.localDepths i))

theorem Storable.redirectAll (h : d.Storable limit) (hsize : d.size ≤ directoryArraySize)
    (oldGlobalDepth splitBucketIdx : Nat) :
    (redirectAll oldGlobalDepth splitBucketIdx d).Storable limit := by
  unfold ExtendibleHashTable.redirectAll
  refine List.foldlRecOn _ _ h fun middle hmiddle i hi => ?_
  have hlt : i < directoryArraySize := by
    have hmem := List.mem_range'_1.mp hi
    omega
  unfold redirect
  split
  · exact hmiddle
  · exact (hmiddle.setBucketPageId hlt (hmiddle.bucketPageIds _)).setLocalDepth hlt
      (hmiddle.localDepths _)

theorem Storable.mergePair (h : d.Storable limit) (hsize : d.size ≤ directoryArraySize)
    (hi : i < directoryArraySize) (hj : j < directoryArraySize) :
    (mergePair d i j).Storable limit := by
  have hboth := (h.decrLocalDepth hi).decrLocalDepth hj
  have hpage := hboth.setBucketPageId hi (hboth.bucketPageIds j)
  unfold ExtendibleHashTable.mergePair
  refine List.foldlRecOn _ _ hpage fun middle hmiddle k hk => ?_
  have hlt : k < directoryArraySize := lt_of_lt_of_le (List.mem_range.mp hk) hsize
  unfold mergeAlias
  split
  · exact hmiddle
  · split
    · exact (hmiddle.setLocalDepth hlt (hmiddle.localDepths i)).setBucketPageId hlt
        (hpage.bucketPageIds i)
    · exact hmiddle

/-- The first `n` entries have local depths up to the global depth and lead to pages that were
allocated. -/
structure InUse (globalDepth n : Nat) (d : DirectoryPage) : Prop where
  globalDepth_eq : d.globalDepth = globalDepth
  depth_le : ∀ i, i < n → d.localDepths i ≤ globalDepth
  allocated : ∀ i, i < n → 0 < d.bucketPageIds i

section InUse

variable {globalDepth n : Nat}

theorem InUse.setBucketPageId (h : d.InUse globalDepth n) {pageId : PageId} (hid : 0 < pageId) :
    (d.setBucketPageId i pageId).InUse globalDepth n where
  globalDepth_eq := h.globalDepth_eq
  depth_le := h.depth_le
  allocated other hother := by
    rw [bucketPageIds_setBucketPageId, Function.update_apply]
    split
    · exact hid
    · exact h.allocated other hother

theorem InUse.setLocalDepth (h : d.InUse globalDepth n) {depth : Nat}
    (hdepth : depth ≤ globalDepth) : (d.setLocalDepth i depth).InUse globalDepth n where
  globalDepth_eq := h.globalDepth_eq
  depth_le other hother := by
    rw [localDepths_setLocalDepth, Function.update_apply]
    split
    · exact hdepth
    · exact h.depth_le other hother
  allocated := h.allocated

theorem InUse.decrLocalDepth (h : d.InUse globalDepth n) (hi : i < n) :
    (d.decrLocalDepth i).InUse globalDepth n :=
  h.setLocalDepth (le_trans (Nat.sub_le _ _) (h.depth_le i hi))

theorem InUse.mergePair (h : d.InUse globalDepth n) (hi : i < n) (hj : j < n) :
    (mergePair d i j).InUse globalDepth n := by
  have hboth := (h.decrLocalDepth hi).decrLocalDepth hj
  have hpage := hboth.setBucketPageId (i := i) (hboth.allocated j hj)
  unfold ExtendibleHashTable.mergePair
  refine List.foldlRecOn _ _ hpage fun middle hmiddle k _ => ?_
  unfold mergeAlias
  split
  · exact hmiddle
  · split
    · exact (hmiddle.setLocalDepth (hmiddle.depth_le i hi)).setBucketPageId (hpage.allocated i hi)
    · exact hmiddle

end InUse

/-- The directory fits its page, and so do the entries that are in use. -/
structure FitsPage (limit : PageId) (d : DirectoryPage) : Prop where
  storable : d.Storable limit
  size_le : d.size ≤ directoryArraySize
  inUse : d.InUse d.globalDepth d.size

theorem FitsPage.globalDepth_le (h : d.FitsPage limit) : d.globalDepth ≤ 9 := by
  have hsize := h.size_le
  unfold size pow directoryArraySize at hsize
  exact (Nat.pow_le_pow_iff_right (a := 2) (by decide)).mp hsize

theorem getSplitImageIndex_lt (d : DirectoryPage) (i : Nat) :
    d.getSplitImageIndex i < 2 ^ d.localDepths i := by
  refine lt_of_le_of_lt Nat.and_le_right ?_
  exact Nat.sub_lt (Nat.two_pow_pos _) Nat.one_pos

/-- The split image of an entry is an entry. -/
theorem FitsPage.getSplitImageIndex_lt_size (h : d.FitsPage limit) (hi : i < d.size) :
    d.getSplitImageIndex i < d.size :=
  lt_of_lt_of_le (getSplitImageIndex_lt d i)
    (Nat.pow_le_pow_right (by decide) (h.inUse.depth_le i hi))

/-- The directory computes its split images in 32-bit words. -/
theorem FitsPage.getSplitImageIndex_words (h : d.FitsPage limit) (hi : i < d.size)
    (hlow : 1 ≤ d.localDepths i) :
    (d.words.getSplitImageIndex (.ofNat i)).toNat = d.getSplitImageIndex i := by
  have hindex : i < 2 ^ 32 := (lt_of_lt_of_le hi h.size_le).trans (by decide)
  have hdepth : d.localDepths i ≤ 9 := (h.inUse.depth_le i hi).trans h.globalDepth_le
  exact DirectoryPage.getSplitImageIndex_words hindex hlow (by omega)

theorem FitsPage.mergePair (h : d.FitsPage limit) (hi : i < d.size) (hj : j < d.size) :
    (mergePair d i j).FitsPage limit := by
  have hinUse := h.inUse.mergePair hi hj
  have hsize : (ExtendibleHashTable.mergePair d i j).size = d.size := by
    unfold size
    rw [hinUse.globalDepth_eq]
  refine ⟨h.storable.mergePair h.size_le (lt_of_lt_of_le hi h.size_le)
    (lt_of_lt_of_le hj h.size_le), hsize ▸ h.size_le, ?_⟩
  rw [hinUse.globalDepth_eq, hsize]
  exact hinUse

theorem FitsPage.decrGlobalDepth (h : d.FitsPage limit) (hshrink : d.canShrink) :
    d.decrGlobalDepth.FitsPage limit := by
  have hle : d.decrGlobalDepth.size ≤ d.size :=
    Nat.pow_le_pow_right (by decide) (Nat.sub_le _ _)
  refine ⟨h.storable.decrGlobalDepth, le_trans hle h.size_le, rfl, fun i hi => ?_, fun i hi => ?_⟩
  · have hne := (canShrink_iff d).mp hshrink i (lt_of_lt_of_le hi hle)
    have hdepth := h.inUse.depth_le i (lt_of_lt_of_le hi hle)
    change d.localDepths i ≤ d.globalDepth - 1
    omega
  · exact h.inUse.allocated i (lt_of_lt_of_le hi hle)

/-! ### Splits -/

section Split

variable {b l : Nat}

/-- The directory of `SplitInsert` once the local depth of the bucket has been raised. -/
def raise (d : DirectoryPage) (bucketIdx : Nat) : DirectoryPage :=
  (if d.getLocalDepth bucketIdx = d.globalDepth then d.incrGlobalDepth
    else d).incrLocalDepth bucketIdx

theorem globalDepth_raise (d : DirectoryPage) (b : Nat) :
    (d.raise b).globalDepth =
      if d.localDepths b = d.globalDepth then d.globalDepth + 1 else d.globalDepth := by
  unfold raise getLocalDepth
  split
  · rfl
  · rfl

theorem localDepths_raise (d : DirectoryPage) (b : Nat) :
    (d.raise b).localDepths = Function.update d.localDepths b (d.localDepths b + 1) := by
  unfold raise getLocalDepth
  split
  · rfl
  · rfl

theorem bucketPageIds_raise (d : DirectoryPage) (b : Nat) :
    (d.raise b).bucketPageIds = d.bucketPageIds := by
  unfold raise
  split
  · rfl
  · rfl

theorem getSplitImageIndex_raise (d : DirectoryPage) (b : Nat) :
    (d.raise b).getSplitImageIndex b = LowBits.flip (d.localDepths b) b := by
  refine getSplitImageIndex_eq _ b ?_
  rw [localDepths_raise, Function.update_self]

theorem FitsPage.size_raise_le (h : d.FitsPage limit)
    (hroom : ¬ (d.getLocalDepth b = d.globalDepth ∧
      directoryArraySize < pow 2 (d.globalDepth + 1))) :
    (d.raise b).size ≤ directoryArraySize := by
  unfold size
  rw [globalDepth_raise]
  split
  next hgrows => exact Nat.le_of_not_lt fun hlt => hroom ⟨hgrows, hlt⟩
  next => exact h.size_le

theorem FitsPage.storable_raise (h : d.FitsPage limit) (hb : b < d.size) :
    (d.raise b).Storable limit := by
  have hglobal := h.globalDepth_le
  have hlocal := h.inUse.depth_le b hb
  have hlt := lt_of_lt_of_le hb h.size_le
  have hdepth : d.localDepths b + 1 < 2 ^ 8 := by omega
  unfold raise
  split
  · exact (h.storable.incrGlobalDepth (by omega)).setLocalDepth hlt hdepth
  · exact h.storable.setLocalDepth hlt hdepth

theorem splitDirectory_eq_raise (d : DirectoryPage) (b : Nat) (splitPageId : PageId) :
    ExtendibleHashTable.splitDirectory d b splitPageId =
      ((d.raise b).setBucketPageId (LowBits.flip (d.localDepths b) b) splitPageId).setLocalDepth
        (LowBits.flip (d.localDepths b) b) (d.localDepths b + 1) := by
  have hself : (d.raise b).localDepths b = d.localDepths b + 1 := by
    rw [localDepths_raise, Function.update_self]
  rw [← getSplitImageIndex_raise, ← hself]
  rfl

theorem FitsPage.flip_lt_size_raise (h : d.FitsPage limit) (hb : b < d.size) :
    LowBits.flip (d.localDepths b) b < (d.raise b).size := by
  have hle := h.inUse.depth_le b hb
  refine lt_of_lt_of_le (flip_lt _ b) (Nat.pow_le_pow_right (by decide) ?_)
  rw [globalDepth_raise]
  split
  · omega
  · omega

theorem FitsPage.storable_splitDirectory (h : d.FitsPage limit) (hb : b < d.size)
    (hroom : ¬ (d.getLocalDepth b = d.globalDepth ∧
      directoryArraySize < pow 2 (d.globalDepth + 1))) (hlimit : 0 < limit) :
    (ExtendibleHashTable.splitDirectory d b limit).Storable (limit + 1) := by
  have himage := lt_of_lt_of_le (h.flip_lt_size_raise hb) (h.size_raise_le hroom)
  have hglobal := h.globalDepth_le
  have hlocal := h.inUse.depth_le b hb
  rw [splitDirectory_eq_raise]
  have hraised := (h.storable_raise hb).mono (Int.le_add_one (le_refl limit))
  exact (hraised.setBucketPageId himage ⟨le_of_lt hlimit, Int.lt_succ limit⟩).setLocalDepth himage
    (by omega)

/-- A split leaves a directory that fits, wherever its bucket's local depth is. -/
theorem FitsPage.split (h : d.FitsPage limit) (hb : b < d.size)
    (hroom : ¬ (d.getLocalDepth b = d.globalDepth ∧
      directoryArraySize < pow 2 (d.globalDepth + 1))) (hlimit : 0 < limit) :
    (redirectAll d.globalDepth (LowBits.flip (d.localDepths b) b)
      (ExtendibleHashTable.splitDirectory d b limit)).FitsPage (limit + 1) := by
  have hle := h.inUse.depth_le b hb
  obtain ⟨hglobal, hentry⟩ := ExtendibleHashTable.entry_redirectAll d hb rfl hle limit
  have hsplitGlobal := (ExtendibleHashTable.splitDirectory_eq d limit
    (rfl : d.localDepths b = _)).1
  have hsize : ∀ e : DirectoryPage, e.globalDepth = (d.raise b).globalDepth →
      e.size ≤ directoryArraySize := by
    intro e heq
    unfold size
    rw [heq]
    exact h.size_raise_le hroom
  rw [← globalDepth_raise] at hglobal hsplitGlobal
  refine ⟨(h.storable_splitDirectory hb hroom hlimit).redirectAll (hsize _ hsplitGlobal) _ _,
    hsize _ hglobal, rfl, fun i hi => ?_, fun i hi => ?_⟩
  · refine le_trans (le_of_eq (congrArg Prod.snd (hentry i hi))) ?_
    have hlow := h.inUse.depth_le _ (mod_size_lt d i)
    rw [hglobal, globalDepth_raise]
    unfold ExtendibleHashTable.entry
    split_ifs
    all_goals dsimp only
    all_goals omega
  · refine lt_of_lt_of_eq ?_ (congrArg Prod.fst (hentry i hi)).symm
    have hlow := h.inUse.allocated _ (mod_size_lt d i)
    have hbucket := h.inUse.allocated b hb
    unfold ExtendibleHashTable.entry
    split_ifs
    · exact hlimit
    · exact hbucket
    · exact hlow

end Split

end DirectoryPage

/-! ## Buckets -/

namespace BucketPage

variable {K V : Type} {size i : Nat} {zero : K × V} {p : BucketPage K V}

theorem storable_zeroed (size : Nat) (zero : K × V) : (zeroed zero).Storable size zero :=
  ⟨fun _ _ => rfl, fun _ _ => rfl, fun _ _ => rfl⟩

theorem writeBit_outside {bytes : Nat → BitVec 8} (hi : i < size) {j : Nat}
    (hj : getNumofChars size ≤ j) (bit : Bool) : writeBit bytes i bit j = bytes j := by
  have hne : j ≠ i / 8 := by
    unfold getNumofChars at hj
    omega
  exact Function.update_of_ne hne _ _

theorem Storable.setOccupied (h : p.Storable size zero) (hi : i < size) (bit : Bool) :
    (p.setOccupied i bit).Storable size zero :=
  ⟨fun j hj => (writeBit_outside hi hj bit).trans (h.occupied j hj), h.readable, h.array⟩

theorem Storable.setReadable (h : p.Storable size zero) (hi : i < size) (bit : Bool) :
    (p.setReadable i bit).Storable size zero :=
  ⟨h.occupied, fun j hj => (writeBit_outside hi hj bit).trans (h.readable j hj), h.array⟩

theorem Storable.setEntry (h : p.Storable size zero) (hi : i < size) (pair : K × V) :
    (p.setEntry i pair).Storable size zero :=
  ⟨h.occupied, h.readable, fun j hj =>
    (Function.update_of_ne (by omega) _ _).trans (h.array j hj)⟩

theorem Storable.removeAt (h : p.Storable size zero) (hi : i < size) :
    (p.removeAt i).Storable size zero :=
  (h.setOccupied hi true).setReadable hi false

variable [DecidableEq V]

theorem Storable.insert (h : p.Storable size zero) (s : KeyScheme K) (key : K) (value : V) :
    (p.insert s size key value).2.Storable size zero := by
  unfold BucketPage.insert
  split
  · exact h
  split
  · exact h
  split
  next i hfind =>
    have hi := List.mem_range.mp (List.mem_of_find?_eq_some hfind)
    exact ((h.setEntry hi _).setReadable hi true).setOccupied hi true
  next => exact h

theorem Storable.remove (h : p.Storable size zero) (s : KeyScheme K) (key : K) (value : V) :
    (p.remove s size key value).2.Storable size zero := by
  unfold BucketPage.remove
  split
  next i hfind => exact h.setReadable (List.mem_range.mp (List.mem_of_find?_eq_some hfind)) false
  next => exact h

end BucketPage

/-! ## Tables -/

namespace ExtendibleHashTable

open DirectoryPage

variable {K V : Type} {c : TableConfig K V} {t final : ExtendibleHashTable K V} {b i : Nat}

/-- The table fits its pages. -/
structure FitsPages (c : TableConfig K V) (t : ExtendibleHashTable K V) : Prop where
  directory : t.directory.FitsPage t.nextPageId
  bucket : ∀ pageId, (t.buckets pageId).Storable c.bucketArraySize c.zero
  pos : 0 < t.nextPageId

theorem FitsPages.bucketPageId (h : t.FitsPages c) (hi : i < t.directory.size) :
    0 < t.directory.getBucketPageId i ∧ t.directory.getBucketPageId i < t.nextPageId :=
  ⟨h.directory.inUse.allocated i hi, (h.directory.storable.bucketPageIds i).2⟩

theorem FitsPages.setBucket (h : t.FitsPages c) (pageId : PageId) {page : BucketPage K V}
    (hpage : page.Storable c.bucketArraySize c.zero) : (t.setBucket pageId page).FitsPages c := by
  refine ⟨h.directory, fun other => ?_, h.pos⟩
  unfold ExtendibleHashTable.setBucket
  dsimp only
  rw [Function.update_apply]
  split
  · exact hpage
  · exact h.bucket other

/-- The directory with the entries of its first two buckets. -/
theorem directory_create (c : TableConfig K V) : (create c).directory =
    ((((({} : DirectoryPage).setBucketPageId 0 1).setLocalDepth 0 1).setBucketPageId 1
      2).setLocalDepth 1 1).incrGlobalDepth := rfl

theorem fitsPages_create (c : TableConfig K V) : (create c).FitsPages c := by
  have hthree : (0 : PageId) < 3 := by decide
  have hempty : ({} : DirectoryPage).Storable 3 :=
    ⟨by decide, fun _ => Nat.two_pow_pos 8, fun _ => ⟨le_refl 0, hthree⟩, fun _ _ => ⟨rfl, rfl⟩⟩
  have hone : 1 < directoryArraySize := by decide
  have hzero : 0 < directoryArraySize := by decide
  have hdepth : 1 < 2 ^ 8 := by decide
  have hid : (0 : PageId) ≤ 1 ∧ (1 : PageId) < 3 := by decide
  have hid' : (0 : PageId) ≤ 2 ∧ (2 : PageId) < 3 := by decide
  have hfirst := (hempty.setBucketPageId hzero hid).setLocalDepth hzero hdepth
  have hsecond := (hfirst.setBucketPageId hone hid').setLocalDepth hone hdepth
  refine ⟨?_, fun pageId => ?_, hthree⟩
  · rw [directory_create]
    exact ⟨hsecond.incrGlobalDepth (by decide), by decide, rfl, by decide, by decide⟩
  · rw [buckets_create]
    exact BucketPage.storable_zeroed _ _

section Writes

variable [DecidableEq V]

theorem rehashLoop_storable {localDepth splitBucketIdx : Nat} {indices : List Nat}
    {pages pages' : BucketPage K V × BucketPage K V}
    (hlt : ∀ i ∈ indices, i < c.bucketArraySize)
    (hbucket : pages.1.Storable c.bucketArraySize c.zero)
    (himage : pages.2.Storable c.bucketArraySize c.zero)
    (hok : rehashLoop c localDepth splitBucketIdx indices pages = .ok pages') :
    pages'.1.Storable c.bucketArraySize c.zero ∧ pages'.2.Storable c.bucketArraySize c.zero := by
  induction indices generalizing pages with
  | nil =>
      cases hok
      exact ⟨hbucket, himage⟩
  | cons i rest ih =>
      have hrest : ∀ j ∈ rest, j < c.bucketArraySize :=
        fun j hj => hlt j (List.mem_cons_of_mem i hj)
      unfold rehashLoop at hok
      split at hok
      · cases hok
      · dsimp only at hok
        split at hok
        · exact ih hrest (hbucket.removeAt (hlt i List.mem_cons_self))
            (himage.insert _ _ _) hok
        · exact ih hrest hbucket himage hok

/-- What a split that goes through does to a table. -/
theorem split_ok (hsplit : t.split c b = .ok final) :
    ¬ (t.directory.getLocalDepth b = t.directory.globalDepth ∧
        directoryArraySize < pow 2 (t.directory.globalDepth + 1)) ∧
      ∃ pages, rehashLoop c (t.directory.localDepths b + 1)
          (LowBits.flip (t.directory.localDepths b) b)
          (List.range ((t.buckets (t.directory.bucketPageIds b)).numReadable c.bucketArraySize))
          (t.buckets (t.directory.bucketPageIds b), .zeroed c.zero) = .ok pages ∧
        final = { (((t.newPage c).2.setBucket (t.directory.bucketPageIds b) pages.1).setBucket
          t.nextPageId pages.2) with
          directory := redirectAll t.directory.globalDepth
            (LowBits.flip (t.directory.localDepths b) b)
            (splitDirectory t.directory b t.nextPageId) } := by
  by_cases hfull : t.directory.getLocalDepth b = t.directory.globalDepth ∧
      directoryArraySize < pow 2 (t.directory.globalDepth + 1)
  · unfold ExtendibleHashTable.split at hsplit
    dsimp only at hsplit
    rw [if_pos hfull] at hsplit
    cases hsplit
  · rw [split_eq rfl hfull] at hsplit
    split at hsplit
    · cases hsplit
    next bucket splitPage hloop =>
      cases hsplit
      exact ⟨hfull, (bucket, splitPage), hloop, rfl⟩

/-- The pages of a full bucket and its split image fit as well. -/
theorem FitsPages.split_pages (h : t.FitsPages c) {localDepth splitBucketIdx : Nat}
    {pages : BucketPage K V × BucketPage K V}
    (hfull : (t.buckets (t.directory.bucketPageIds b)).isFull c.bucketArraySize)
    (hloop : rehashLoop c localDepth splitBucketIdx
      (List.range ((t.buckets (t.directory.bucketPageIds b)).numReadable c.bucketArraySize))
      (t.buckets (t.directory.bucketPageIds b), .zeroed c.zero) = .ok pages) :
    pages.1.Storable c.bucketArraySize c.zero ∧ pages.2.Storable c.bucketArraySize c.zero := by
  have hcount : (t.buckets (t.directory.bucketPageIds b)).numReadable c.bucketArraySize =
      c.bucketArraySize := of_decide_eq_true hfull
  rw [hcount] at hloop
  exact rehashLoop_storable (fun i hi => List.mem_range.mp hi) (h.bucket _)
    (BucketPage.storable_zeroed _ _) hloop

theorem FitsPages.split (h : t.FitsPages c) (hb : b < t.directory.size)
    (hfull : (t.buckets (t.directory.bucketPageIds b)).isFull c.bucketArraySize)
    (hsplit : t.split c b = .ok final) :
    final.FitsPages c ∧ final.nextPageId = t.nextPageId + 1 := by
  obtain ⟨hroom, pages, hloop, rfl⟩ := split_ok hsplit
  obtain ⟨hbucket, himage⟩ := h.split_pages hfull hloop
  refine ⟨⟨h.directory.split hb hroom h.pos, fun pageId => ?_, Int.lt_add_one_of_le (le_of_lt h.pos)⟩,
    rfl⟩
  simp only [ExtendibleHashTable.setBucket, newPage, Function.update_apply]
  split_ifs
  · exact himage
  · exact hbucket
  · exact h.bucket pageId

/-- The table after the call fits its pages too, and has handed out no fewer of them. -/
theorem FitsPages.splitInsertLoop (h : t.FitsPages c) {key : K} {value : V} {fuel : Nat} {success : Bool}
    (hloop : splitInsertLoop c key value fuel t = .ok (success, final)) :
    final.FitsPages c ∧ t.nextPageId ≤ final.nextPageId := by
  induction fuel generalizing t with
  | zero => cases hloop
  | succ fuel ih =>
      unfold ExtendibleHashTable.splitInsertLoop at hloop
      dsimp only at hloop
      split at hloop
      next hfull =>
        split at hloop
        · cases hloop
        next middle hsplit =>
          obtain ⟨hmiddle, hnext⟩ := h.split (keyToDirectoryIndex_lt key _) hfull hsplit
          obtain ⟨hfinal, hle⟩ := ih hmiddle hloop
          exact ⟨hfinal, le_trans (hnext ▸ Int.le_add_one (le_refl _)) hle⟩
      next =>
        cases hloop
        exact ⟨h.setBucket _ ((h.bucket _).insert _ _ _), le_refl _⟩

theorem FitsPages.insert (h : t.FitsPages c) {key : K} {value : V} {success : Bool}
    (hinsert : t.insert c key value = .ok (success, final)) :
    final.FitsPages c ∧ t.nextPageId ≤ final.nextPageId := by
  unfold ExtendibleHashTable.insert at hinsert
  dsimp only at hinsert
  split at hinsert
  · exact h.splitInsertLoop hinsert
  · cases hinsert
    exact ⟨h.setBucket _ ((h.bucket _).insert _ _ _), le_refl _⟩

end Writes

theorem FitsPages.mergeTurn (h : t.FitsPages c) (hi : i < t.directory.size) :
    (t.mergeTurn c i).FitsPages c ∧ (t.mergeTurn c i).nextPageId = t.nextPageId := by
  have hshrunk : ∀ d : DirectoryPage, d.FitsPage t.nextPageId →
      (if d.canShrink then d.decrGlobalDepth else d).FitsPage t.nextPageId := by
    intro d hd
    split
    next hshrink => exact hd.decrGlobalDepth hshrink
    next => exact hd
  unfold ExtendibleHashTable.mergeTurn
  dsimp only
  split
  · refine ⟨⟨hshrunk _ ?_, h.bucket, h.pos⟩, rfl⟩
    split
    · exact h.directory.mergePair hi (h.directory.getSplitImageIndex_lt_size hi)
    · exact h.directory
  · exact ⟨h, rfl⟩

theorem FitsPages.mergeLoop (h : t.FitsPages c) (fuel i : Nat) :
    (mergeLoop c fuel i t).FitsPages c ∧ (mergeLoop c fuel i t).nextPageId = t.nextPageId := by
  induction fuel generalizing t i with
  | zero => exact ⟨h, rfl⟩
  | succ fuel ih =>
      unfold ExtendibleHashTable.mergeLoop
      split
      · exact ⟨h, rfl⟩
      next hlt =>
        obtain ⟨hturn, hnext⟩ := h.mergeTurn (Nat.lt_of_not_le hlt)
        obtain ⟨hrest, hlast⟩ := ih hturn (i + 1)
        exact ⟨hrest, hlast.trans hnext⟩

theorem FitsPages.remove [DecidableEq V] (h : t.FitsPages c) (key : K) (value : V) :
    (t.remove c key value).2.FitsPages c ∧ (t.remove c key value).2.nextPageId = t.nextPageId := by
  have hremoved := h.setBucket (keyToPageId c key t.directory)
    ((h.bucket (keyToPageId c key t.directory)).remove c.scheme key value)
  unfold ExtendibleHashTable.remove
  dsimp only
  split
  · exact hremoved.mergeLoop _ 0
  · exact ⟨hremoved, rfl⟩

end ExtendibleHashTable

end BusTub
