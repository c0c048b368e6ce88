import BusTub.Hash.PagedTable
import BusTub.Hash.StoredTable

/-! # The page ids of a table in its pool

A table that is alone with its pages counts them from `0` on; a pool hands out the ids of its
instance from where it stands. The operations of the directory only compare page ids and copy
them, so that they do the same under either numbering.
-/

namespace BusTub

/-! ## Directories with other page ids -/

namespace DirectoryPage

open ExtendibleHashTable (redirect redirectAll mergeAlias mergePair)

/-- The directory with the page ids of another numbering. -/
def mapIds (rename : PageId → PageId) (d : DirectoryPage) : DirectoryPage :=
  { d with bucketPageIds := fun i => rename (d.bucketPageIds i) }

variable (rename : PageId → PageId) (d : DirectoryPage)

theorem setBucketPageId_mapIds (i : Nat) (pageId : PageId) :
    (d.mapIds rename).setBucketPageId i (rename pageId) =
      (d.setBucketPageId i pageId).mapIds rename := by
  unfold mapIds
  apply DirectoryPage.ext
  · rfl
  · rfl
  · exact (Function.comp_update rename d.bucketPageIds i pageId).symm

theorem raise_mapIds (b : Nat) : (d.mapIds rename).raise b = (d.raise b).mapIds rename := by
  apply DirectoryPage.ext
  · exact (globalDepth_raise (d.mapIds rename) b).trans (globalDepth_raise d b).symm
  · exact (localDepths_raise (d.mapIds rename) b).trans (localDepths_raise d b).symm
  · rw [bucketPageIds_raise]
    exact congrArg (fun ids i => rename (ids i)) (bucketPageIds_raise d b).symm

theorem redirectAll_mapIds (oldGlobalDepth splitBucketIdx : Nat) :
    redirectAll oldGlobalDepth splitBucketIdx (d.mapIds rename) =
      (redirectAll oldGlobalDepth splitBucketIdx d).mapIds rename := by
  unfold ExtendibleHashTable.redirectAll
  refine List.foldl_hom (mapIds rename) fun middle i => ?_
  unfold redirect
  split
  · rfl
  · exact congrArg (fun e => setLocalDepth e i _) (setBucketPageId_mapIds rename middle i _)

variable {rename}

theorem mergeAlias_mapIds (hinjective : Function.Injective rename) (i j : Nat)
    (bucketPageId newBucketPageId : PageId) (k : Nat) :
    mergeAlias i j (rename bucketPageId) (rename newBucketPageId) (d.mapIds rename) k =
      (mergeAlias i j bucketPageId newBucketPageId d k).mapIds rename := by
  have htest : (d.mapIds rename).getBucketPageId k = rename bucketPageId ∨
      (d.mapIds rename).getBucketPageId k = rename newBucketPageId ↔
      d.getBucketPageId k = bucketPageId ∨ d.getBucketPageId k = newBucketPageId :=
    or_congr hinjective.eq_iff hinjective.eq_iff
  unfold mergeAlias
  by_cases hskip : k = i ∨ k = j
  · rw [if_pos hskip, if_pos hskip]
  · rw [if_neg hskip, if_neg hskip]
    by_cases halias : d.getBucketPageId k = bucketPageId ∨ d.getBucketPageId k = newBucketPageId
    · rw [if_pos (htest.mpr halias), if_pos halias]
      exact setBucketPageId_mapIds rename (d.setLocalDepth k _) k newBucketPageId
    · rw [if_neg fun htrue => halias (htest.mp htrue), if_neg halias]

theorem mergePair_mapIds (hinjective : Function.Injective rename) (i j : Nat) :
    mergePair (d.mapIds rename) i j = (mergePair d i j).mapIds rename := by
  unfold ExtendibleHashTable.mergePair
  dsimp only
  have hpage := setBucketPageId_mapIds rename ((d.decrLocalDepth i).decrLocalDepth j) i
    (((d.decrLocalDepth i).decrLocalDepth j).getBucketPageId j)
  have hstart : ((((d.mapIds rename).decrLocalDepth i).decrLocalDepth j).setBucketPageId i
      ((((d.mapIds rename).decrLocalDepth i).decrLocalDepth j).getBucketPageId j)) =
      (((d.decrLocalDepth i).decrLocalDepth j).setBucketPageId i
        (((d.decrLocalDepth i).decrLocalDepth j).getBucketPageId j)).mapIds rename := hpage
  rw [hstart]
  exact List.foldl_hom (mapIds rename) fun middle k =>
    mergeAlias_mapIds middle hinjective i j _ _ k

/-- What a turn of the loop of `Merge` does to the directory if the bucket of entry `i` is empty. -/
def mergeEmpty (d : DirectoryPage) (i : Nat) : DirectoryPage :=
  let splitBucketIdx := d.getSplitImageIndex i
  let d := if d.getLocalDepth splitBucketIdx = d.getLocalDepth i then mergePair d i splitBucketIdx
    else d
  if d.canShrink then d.decrGlobalDepth else d

theorem mergeEmpty_mapIds (hinjective : Function.Injective rename) (i : Nat) :
    (d.mapIds rename).mergeEmpty i = (d.mergeEmpty i).mapIds rename := by
  have hshrink : ∀ e : DirectoryPage, (if (e.mapIds rename).canShrink then
      (e.mapIds rename).decrGlobalDepth else e.mapIds rename) =
        (if e.canShrink then e.decrGlobalDepth else e).mapIds rename := by
    intro e
    by_cases hcan : e.canShrink
    · rw [if_pos hcan]
      exact if_pos hcan
    · rw [if_neg hcan]
      exact if_neg hcan
  unfold mergeEmpty
  dsimp only
  rw [← hshrink]
  by_cases hpair : d.getLocalDepth (d.getSplitImageIndex i) = d.getLocalDepth i
  · have hpair' : (d.mapIds rename).getLocalDepth ((d.mapIds rename).getSplitImageIndex i) =
        (d.mapIds rename).getLocalDepth i := hpair
    rw [if_pos hpair', if_pos hpair, mergePair_mapIds _ hinjective]
    rfl
  · have hpair' : ¬ (d.mapIds rename).getLocalDepth ((d.mapIds rename).getSplitImageIndex i) =
        (d.mapIds rename).getLocalDepth i := hpair
    rw [if_neg hpair', if_neg hpair]

/-- The assertions do not depend on the numbering. -/
theorem verifyIntegrity_mapIds (hinjective : Function.Injective rename) :
    PagedTable.verifyIntegrity (d.mapIds rename) = PagedTable.verifyIntegrity d := by
  have hsame : ∀ i j, (d.mapIds rename).bucketPageIds i = (d.mapIds rename).bucketPageIds j ↔
      d.bucketPageIds i = d.bucketPageIds j := fun i j => hinjective.eq_iff
  unfold PagedTable.verifyIntegrity
  simp only [hsame]
  rfl

end DirectoryPage

/-! ## The numbering of a pool -/

/-- The page id that the pool hands out for a page of the table; the pool stands at `first` when
the table is constructed. -/
def poolPageId (first : PageId) (instances : Nat) (pageId : PageId) : PageId :=
  if 0 < pageId then first + pageId * instances else pageId

section PoolPageId

variable {first : PageId} {instances : Nat} {pageId : PageId}

theorem poolPageId_of_pos (hpos : 0 < pageId) :
    poolPageId first instances pageId = first + pageId * instances := if_pos hpos

theorem poolPageId_succ (hpos : 0 < pageId) : poolPageId first instances (pageId + 1) =
    poolPageId first instances pageId + instances := by
  have hnext : 0 < pageId + 1 := lt_trans hpos (Int.lt_succ pageId)
  rw [poolPageId_of_pos hpos, poolPageId_of_pos hnext, Int.add_mul, Int.one_mul, Int.add_assoc]

theorem lt_poolPageId (first : PageId) (hinstances : 0 < instances) (hpos : 0 < pageId) :
    first < poolPageId first instances pageId := by
  rw [poolPageId_of_pos hpos]
  exact Int.lt_add_of_pos_right _ (Int.mul_pos hpos (Int.natCast_pos.mpr hinstances))

theorem poolPageId_lt (hfirst : 0 ≤ first) (hinstances : 0 < instances) {other : PageId}
    (hlt : pageId < other) :
    poolPageId first instances pageId < poolPageId first instances other := by
  by_cases hpos : 0 < pageId
  · rw [poolPageId_of_pos hpos, poolPageId_of_pos (lt_trans hpos hlt)]
    exact Int.add_lt_add_left (Int.mul_lt_mul_of_pos_right hlt (Int.natCast_pos.mpr hinstances)) _
  · have hself : poolPageId first instances pageId = pageId := if_neg hpos
    rw [hself]
    by_cases hother : 0 < other
    · exact lt_of_le_of_lt (not_lt.mp hpos)
        (lt_of_le_of_lt hfirst (lt_poolPageId first hinstances hother))
    · rw [show poolPageId first instances other = other from if_neg hother]
      exact hlt

theorem poolPageId_le (hfirst : 0 ≤ first) (hinstances : 0 < instances) {other : PageId}
    (hle : pageId ≤ other) :
    poolPageId first instances pageId ≤ poolPageId first instances other := by
  rcases lt_or_eq_of_le hle with hlt | heq
  · exact le_of_lt (poolPageId_lt hfirst hinstances hlt)
  · rw [heq]

theorem poolPageId_injective (hfirst : 0 ≤ first) (hinstances : 0 < instances) :
    Function.Injective (poolPageId first instances) := by
  intro pageId other heq
  rcases lt_trichotomy pageId other with hlt | hsame | hlt
  · exact absurd heq (ne_of_lt (poolPageId_lt hfirst hinstances hlt))
  · exact hsame
  · exact absurd heq.symm (ne_of_lt (poolPageId_lt hfirst hinstances hlt))

theorem poolPageId_nonneg (instances : Nat) (hfirst : 0 ≤ first) (hnonneg : 0 ≤ pageId) :
    0 ≤ poolPageId first instances pageId := by
  unfold poolPageId
  split
  · exact Int.add_nonneg hfirst (Int.mul_nonneg hnonneg (Int.natCast_nonneg _))
  · exact hnonneg

theorem DirectoryPage.Storable.mapIds {limit : PageId} {d : DirectoryPage} (h : d.Storable limit)
    (hfirst : 0 ≤ first) (hinstances : 0 < instances) :
    (d.mapIds (poolPageId first instances)).Storable (poolPageId first instances limit) where
  globalDepth := h.globalDepth
  localDepths := h.localDepths
  bucketPageIds i := ⟨poolPageId_nonneg instances hfirst (h.bucketPageIds i).1,
    poolPageId_lt hfirst hinstances (h.bucketPageIds i).2⟩
  outside i hi := by
    refine ⟨(h.outside i hi).1, ?_⟩
    change poolPageId first instances (d.bucketPageIds i) = 0
    rw [(h.outside i hi).2]
    rfl

end PoolPageId

end BusTub
