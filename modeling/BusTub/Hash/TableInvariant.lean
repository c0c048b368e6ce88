import BusTub.Hash.DirectoryLoops
import BusTub.Hash.Rehash

/-! # Well-formed tables

The invariant of a table over its directory and its buckets, and what `Insert`
and `Remove` do to the pairs in it. Insertion keeps the invariant unless it
splits a bucket whose local depth lags behind the global depth by two or more.
-/

namespace BusTub.ExtendibleHashTable

open LowBits DirectoryPage BucketPage

variable {K V : Type} {c : TableConfig K V} {t : ExtendibleHashTable K V} {b i l : Nat}
  {key other : K} {value : V}

/-- The directory and every bucket are well formed, later page ids are not in use,
and the pairs of a bucket agree with its entries on the low bits. -/
structure Valid (c : TableConfig K V) (t : ExtendibleHashTable K V) : Prop where
  directory : t.directory.WellFormed
  allocated : ∀ i, i < t.directory.size → t.directory.bucketPageIds i < t.nextPageId
  bucket : ∀ i, i < t.directory.size →
    (t.buckets (t.directory.bucketPageIds i)).WellFormed c.scheme c.bucketArraySize
  placed : ∀ i key value, i < t.directory.size →
    (t.buckets (t.directory.bucketPageIds i)).Holds c.scheme key value →
    Agree (t.directory.localDepths i) (c.hash key) i

/-- Some bucket of the table has the pair. -/
def Contains (c : TableConfig K V) (t : ExtendibleHashTable K V) (key : K) (value : V) : Prop :=
  ∃ i, i < t.directory.size ∧ (t.buckets (t.directory.bucketPageIds i)).Holds c.scheme key value

/-! ## Lookup -/

theorem keyToDirectoryIndex_eq (key : K) (d : DirectoryPage) :
    keyToDirectoryIndex c key d = c.hash key % d.size := by
  unfold keyToDirectoryIndex getGlobalDepthMask DirectoryPage.size DirectoryPage.pow
  exact Nat.and_two_pow_sub_one_eq_mod _ _

theorem keyToDirectoryIndex_lt (key : K) (d : DirectoryPage) :
    keyToDirectoryIndex c key d < d.size := by
  rw [keyToDirectoryIndex_eq]
  exact mod_size_lt d _

theorem agree_keyToDirectoryIndex (hle : l ≤ t.directory.globalDepth) (key : K) :
    Agree l (keyToDirectoryIndex c key t.directory) (c.hash key) := by
  rw [keyToDirectoryIndex_eq, size_eq]
  exact agree_mod hle _

theorem keyToDirectoryIndex_congr (heq : c.scheme.cmp key other = 0) (d : DirectoryPage) :
    keyToDirectoryIndex c key d = keyToDirectoryIndex c other d := by
  unfold keyToDirectoryIndex
  rw [c.hash_eq heq]

/-- An entry that agrees with a hash on its low bits leads to the bucket of the key. -/
theorem Valid.page_eq (h : Valid c t) (hi : i < t.directory.size)
    (hagree : Agree (t.directory.localDepths i) (c.hash key) i) :
    t.directory.bucketPageIds i = keyToPageId c key t.directory :=
  (h.directory.agree i _ hi (keyToDirectoryIndex_lt key _)
    (hagree.symm.trans (agree_keyToDirectoryIndex (h.directory.depth_le i hi) key).symm)).1

/-- All pairs of a key are in the bucket that the key leads to. -/
theorem Valid.contains_iff (h : Valid c t) :
    Contains c t key value ↔
      (t.buckets (keyToPageId c key t.directory)).Holds c.scheme key value := by
  constructor
  · rintro ⟨i, hi, hholds⟩
    rwa [← h.page_eq hi (h.placed i key value hi hholds)]
  · exact fun hholds => ⟨_, keyToDirectoryIndex_lt key _, hholds⟩

theorem Valid.bucket_of_key (h : Valid c t) (key : K) :
    (t.buckets (keyToPageId c key t.directory)).WellFormed c.scheme c.bucketArraySize :=
  h.bucket _ (keyToDirectoryIndex_lt key _)

/-! ## Writing to one bucket -/

theorem Valid.setBucket (h : Valid c t) (hb : b < t.directory.size) {page : BucketPage K V}
    (hpage : page.WellFormed c.scheme c.bucketArraySize)
    (hplaced : ∀ key value, page.Holds c.scheme key value →
      Agree (t.directory.localDepths b) (c.hash key) b) :
    Valid c (t.setBucket (t.directory.bucketPageIds b) page) := by
  refine ⟨h.directory, h.allocated, ?_, ?_⟩
  · intro i hi
    simp only [ExtendibleHashTable.setBucket] at hi ⊢
    by_cases hsame : t.directory.bucketPageIds i = t.directory.bucketPageIds b
    · rwa [hsame, Function.update_self]
    · rw [Function.update_of_ne hsame]
      exact h.bucket i hi
  · intro i key value hi hholds
    simp only [ExtendibleHashTable.setBucket] at hi hholds ⊢
    by_cases hsame : t.directory.bucketPageIds i = t.directory.bucketPageIds b
    · rw [hsame, Function.update_self] at hholds
      rw [h.directory.sameDepth hi hb hsame]
      exact (hplaced key value hholds).trans (h.directory.apart b i hb hi hsame.symm)
    · rw [Function.update_of_ne hsame] at hholds
      exact h.placed i key value hi hholds

/-- The pairs of the table after a bucket has been written: those of the new page
for the keys that lead to it. -/
theorem Valid.contains_setBucket (h : Valid c t) {page : BucketPage K V}
    (hvalid : Valid c (t.setBucket (keyToPageId c key t.directory) page)) (other : K) (value : V) :
    Contains c (t.setBucket (keyToPageId c key t.directory) page) other value ↔
      if keyToPageId c other t.directory = keyToPageId c key t.directory then
        page.Holds c.scheme other value
      else Contains c t other value := by
  rw [hvalid.contains_iff, h.contains_iff]
  simp only [ExtendibleHashTable.setBucket]
  split
  next hsame => rw [hsame, Function.update_self]
  next hdiff => rw [Function.update_of_ne hdiff]

section Writes

variable [DecidableEq V]

/-- A pair goes into the bucket of its key if there is room. -/
theorem Valid.insert_bucket (h : Valid c t) (key : K) (value : V)
    (hroom : ¬ (t.buckets (keyToPageId c key t.directory)).isFull c.bucketArraySize) :
    ∃ success page, (t.buckets (keyToPageId c key t.directory)).insert c.scheme c.bucketArraySize
        key value = (success, page) ∧
      (success ↔ ¬ Contains c t key value) ∧
      (success → page.numReadable c.bucketArraySize =
        (t.buckets (keyToPageId c key t.directory)).numReadable c.bucketArraySize + 1) ∧
      Valid c (t.setBucket (keyToPageId c key t.directory) page) ∧
      ∀ other value', Contains c (t.setBucket (keyToPageId c key t.directory) page) other value' ↔
        Contains c t other value' ∨ c.scheme.cmp other key = 0 ∧ value = value' := by
  have hbucket := h.bucket_of_key key
  have hlt : keyToDirectoryIndex c key t.directory < t.directory.size :=
    keyToDirectoryIndex_lt key _
  by_cases hholds : (t.buckets (keyToPageId c key t.directory)).Holds c.scheme key value
  · have hcontains := h.contains_iff.mpr hholds
    have hsame : t.setBucket (keyToPageId c key t.directory)
        (t.buckets (keyToPageId c key t.directory)) = t := by
      unfold ExtendibleHashTable.setBucket
      rw [Function.update_eq_self]
    refine ⟨false, _, insert_of_holds hbucket hholds, by simpa using hcontains, nofun, ?_, ?_⟩
    · rwa [hsame]
    · intro other value'
      rw [hsame]
      refine ⟨Or.inl, ?_⟩
      rintro (hother | ⟨heq, rfl⟩)
      · exact hother
      · obtain ⟨i, hi, hpair⟩ := hcontains
        exact ⟨i, hi, (holds_congr heq).mpr hpair⟩
  · obtain ⟨page, hinsert, hpage, hpairs, hcount⟩ :=
      insert_of_not_holds hbucket c.bucketArraySize_pos hroom hholds
    have hvalid : Valid c (t.setBucket (keyToPageId c key t.directory) page) := by
      refine h.setBucket hlt hpage ?_
      intro other value' hother
      rcases (hpairs other value').mp hother with hold | ⟨heq, -⟩
      · exact h.placed _ other value' hlt hold
      · rw [c.hash_eq heq]
        exact (agree_keyToDirectoryIndex (h.directory.depth_le _ hlt) key).symm
    refine ⟨true, page, hinsert, by simpa [h.contains_iff] using hholds, fun _ => hcount, hvalid, ?_⟩
    intro other value'
    rw [h.contains_setBucket hvalid]
    split
    next hsame => rw [hpairs, h.contains_iff, hsame]
    next hdiff =>
      refine ⟨Or.inl, ?_⟩
      rintro (hother | ⟨heq, -⟩)
      · exact hother
      · unfold keyToPageId at hdiff
        rw [keyToDirectoryIndex_congr heq] at hdiff
        exact absurd rfl hdiff

end Writes

/-! ## Splitting -/

/-- What a split of the bucket of `b`, of local depth `l`, leads to. -/
structure SplitResult (c : TableConfig K V) (t final : ExtendibleHashTable K V) (b l : Nat) :
    Prop where
  valid : Valid c final
  globalDepth : final.directory.globalDepth = l + 1
  depth : ∀ i, i < final.directory.size → Agree l i b → final.directory.localDepths i = l + 1
  contains : ∀ key value, Contains c final key value ↔ Contains c t key value

/-- What a split of the bucket of `b`, of local depth `l`, does to the directory and the pages. -/
structure SplitPages (c : TableConfig K V) (t final : ExtendibleHashTable K V) (b l : Nat)
    (pages : BucketPage K V × BucketPage K V) : Prop where
  rehashed : Rehashed c (l + 1) (flip l b) (t.buckets (t.directory.bucketPageIds b))
    c.bucketArraySize pages
  directory : final.directory = redirectAll t.directory.globalDepth (flip l b)
    (splitDirectory t.directory b t.nextPageId)
  nextPageId : final.nextPageId = t.nextPageId + 1
  buckets : ∀ pageId, final.buckets pageId = if pageId = t.nextPageId then pages.2
    else if pageId = t.directory.bucketPageIds b then pages.1 else t.buckets pageId

/-- The entries of the new directory: that of `b` leads to the pairs that stay, that of its
split image to those that move, and the others lead where they led. -/
structure SplitEntries (t final : ExtendibleHashTable K V) (b l : Nat)
    (pages : BucketPage K V × BucketPage K V) : Prop where
  size : final.directory.size = 2 ^ (l + 1)
  size_le : t.directory.size ≤ 2 ^ (l + 1)
  depth : ∀ i, i < 2 ^ (l + 1) → final.directory.localDepths i =
    if i = flip l b ∨ i = b then l + 1 else t.directory.localDepths (i % t.directory.size)
  image : final.buckets (final.directory.bucketPageIds (flip l b)) = pages.2
  bucket : final.buckets (final.directory.bucketPageIds b) = pages.1
  other : ∀ i, i < 2 ^ (l + 1) → i ≠ flip l b → i ≠ b →
    final.buckets (final.directory.bucketPageIds i) =
      t.buckets (t.directory.bucketPageIds (i % t.directory.size))

section Split

variable {final : ExtendibleHashTable K V} {pages : BucketPage K V × BucketPage K V}

theorem ne_flip (l b : Nat) : b ≠ flip l b := fun heq =>
  not_agree_flip l b (by rw [← heq]; exact Agree.refl _ _)

theorem Valid.ne_nextPageId (h : Valid c t) (hi : i < t.directory.size) :
    t.directory.bucketPageIds i ≠ t.nextPageId :=
  ne_of_lt (h.allocated i hi)

theorem Valid.splitOf (h : Valid c t) (hb : b < t.directory.size)
    (hdepth : t.directory.localDepths b = l) (hlag : t.directory.globalDepth ≤ l + 1)
    (hresult : SplitPages c t final b l pages) :
    SplitOf t.directory final.directory b l t.nextPageId := by
  rw [hresult.directory]
  exact splitOf_redirectAll t.directory h.directory hb hdepth hlag t.nextPageId

theorem Valid.splitEntries (h : Valid c t) (hb : b < t.directory.size)
    (hdepth : t.directory.localDepths b = l) (hlag : t.directory.globalDepth ≤ l + 1)
    (hresult : SplitPages c t final b l pages) : SplitEntries t final b l pages := by
  have hsplit := h.splitOf hb hdepth hlag hresult
  have hsizeLe : t.directory.size ≤ 2 ^ (l + 1) := Nat.pow_le_pow_right (by decide) hlag
  refine ⟨?_, hsizeLe, hsplit.depth, ?_, ?_, ?_⟩
  · rw [size_eq, hsplit.globalDepth]
  · rw [hsplit.page _ (flip_lt l b), if_pos rfl, hresult.buckets, if_pos rfl]
  · rw [hsplit.page b (lt_of_lt_of_le hb hsizeLe), if_neg (ne_flip l b), hresult.buckets,
      if_neg (h.ne_nextPageId (mod_size_lt _ b)), Nat.mod_eq_of_lt hb, if_pos rfl]
  · intro i hi hflip hib
    rw [hsplit.page i hi, if_neg hflip, hresult.buckets,
      if_neg (h.ne_nextPageId (mod_size_lt _ i)),
      if_neg (h.directory.page_ne_of_ne hb hdepth hlag hi hib hflip)]

/-- An entry of the new directory leads to a bucket whose pairs agree with it. -/
theorem SplitEntries.placed (hentries : SplitEntries t final b l pages) (h : Valid c t)
    (hb : b < t.directory.size) (hdepth : t.directory.localDepths b = l)
    (hfull : (t.buckets (t.directory.bucketPageIds b)).isFull c.bucketArraySize)
    (hpages : Rehashed c (l + 1) (flip l b) (t.buckets (t.directory.bucketPageIds b))
      c.bucketArraySize pages) (hi : i < 2 ^ (l + 1))
    (hholds : (final.buckets (final.directory.bucketPageIds i)).Holds c.scheme key value) :
    Agree (final.directory.localDepths i) (c.hash key) i := by
  have hbucket := h.bucket b hb
  rw [hentries.depth i hi]
  by_cases hflip : i = flip l b
  · rw [if_pos (Or.inl hflip), hflip]
    rw [hflip, hentries.image] at hholds
    exact ((hpages.holds_image hbucket hfull).mp hholds).2
  by_cases hib : i = b
  · rw [if_pos (Or.inr hib), hib]
    rw [hib, hentries.bucket] at hholds
    obtain ⟨hold, hstay⟩ := (hpages.holds_bucket hbucket hfull).mp hholds
    have hplaced := h.placed b key value hb hold
    rw [hdepth] at hplaced
    exact (agree_iff_succ.mp hplaced).resolve_right hstay
  · rw [if_neg (by simp [hflip, hib])]
    rw [hentries.other i hi hflip hib] at hholds
    have hplaced := h.placed _ key value (mod_size_lt _ i) hholds
    exact hplaced.trans (agree_mod (h.directory.depth_le _ (mod_size_lt _ i)) i)

/-- Every pair that the new table contains was in the table. -/
theorem SplitEntries.contains_of_final (hentries : SplitEntries t final b l pages)
    (h : Valid c t) (hb : b < t.directory.size)
    (hfull : (t.buckets (t.directory.bucketPageIds b)).isFull c.bucketArraySize)
    (hpages : Rehashed c (l + 1) (flip l b) (t.buckets (t.directory.bucketPageIds b))
      c.bucketArraySize pages) (hcontains : Contains c final key value) :
    Contains c t key value := by
  obtain ⟨i, hi, hholds⟩ := hcontains
  have hbucket := h.bucket b hb
  rw [hentries.size] at hi
  by_cases hflip : i = flip l b
  · rw [hflip, hentries.image] at hholds
    exact ⟨b, hb, ((hpages.holds_image hbucket hfull).mp hholds).1⟩
  by_cases hib : i = b
  · rw [hib, hentries.bucket] at hholds
    exact ⟨b, hb, ((hpages.holds_bucket hbucket hfull).mp hholds).1⟩
  · rw [hentries.other i hi hflip hib] at hholds
    exact ⟨_, mod_size_lt _ i, hholds⟩

/-- The split loses no pair. -/
theorem SplitEntries.contains_final (hentries : SplitEntries t final b l pages)
    (h : Valid c t) (hb : b < t.directory.size) (hdepth : t.directory.localDepths b = l)
    (hfull : (t.buckets (t.directory.bucketPageIds b)).isFull c.bucketArraySize)
    (hpages : Rehashed c (l + 1) (flip l b) (t.buckets (t.directory.bucketPageIds b))
      c.bucketArraySize pages) (hcontains : Contains c t key value) :
    Contains c final key value := by
  obtain ⟨i, hi, hholds⟩ := hcontains
  have hbucket := h.bucket b hb
  have hlt := lt_of_lt_of_le hi hentries.size_le
  by_cases hsame : t.directory.bucketPageIds i = t.directory.bucketPageIds b
  · -- a pair of the bucket moves if it agrees with the split image
    rw [hsame] at hholds
    by_cases hmoved : Agree (l + 1) (c.hash key) (flip l b)
    · refine ⟨flip l b, hentries.size ▸ flip_lt l b, ?_⟩
      rw [hentries.image]
      exact (hpages.holds_image hbucket hfull).mpr ⟨hholds, hmoved⟩
    · refine ⟨b, hentries.size ▸ lt_of_lt_of_le hb hentries.size_le, ?_⟩
      rw [hentries.bucket]
      exact (hpages.holds_bucket hbucket hfull).mpr ⟨hholds, hmoved⟩
  · refine ⟨i, hentries.size ▸ hlt, ?_⟩
    have hflip : i ≠ flip l b := by
      intro heq
      refine hsame ?_
      rw [← h.directory.page_flip hb hdepth, ← heq, Nat.mod_eq_of_lt hi]
    have hib : i ≠ b := fun heq => hsame (by rw [heq])
    rw [hentries.other i hlt hflip hib, Nat.mod_eq_of_lt hi]
    exact hholds

/-- A split of a bucket whose local depth lags by at most one keeps the table valid
and moves no pair out of reach. -/
theorem Valid.splitResult (h : Valid c t) (hb : b < t.directory.size)
    (hdepth : t.directory.localDepths b = l) (hlag : t.directory.globalDepth ≤ l + 1)
    (hroom : 2 ^ (l + 1) ≤ directoryArraySize)
    (hfull : (t.buckets (t.directory.bucketPageIds b)).isFull c.bucketArraySize)
    (hresult : SplitPages c t final b l pages) : SplitResult c t final b l := by
  have hsplit := h.splitOf hb hdepth hlag hresult
  have hentries := h.splitEntries hb hdepth hlag hresult
  have hpages := hresult.rehashed
  refine ⟨⟨h.directory.split hb hdepth hlag hroom (fun _ => h.ne_nextPageId) hsplit, ?_, ?_, ?_⟩,
    hsplit.globalDepth, ?_, fun key value => ⟨hentries.contains_of_final h hb hfull hpages,
      hentries.contains_final h hb hdepth hfull hpages⟩⟩
  · intro i hi
    rw [hsplit.page i (hentries.size ▸ hi), hresult.nextPageId]
    split
    · exact Int.lt_succ _
    · exact lt_trans (h.allocated _ (mod_size_lt _ i)) (Int.lt_succ _)
  · intro i hi
    by_cases hflip : i = flip l b
    · rw [hflip, hentries.image]
      exact hpages.image
    by_cases hib : i = b
    · rw [hib, hentries.bucket]
      exact hpages.wellFormed
    · rw [hentries.other i (hentries.size ▸ hi) hflip hib]
      exact h.bucket _ (mod_size_lt _ i)
  · intro i key value hi hholds
    exact hentries.placed h hb hdepth hfull hpages (hentries.size ▸ hi) hholds
  · intro i hi hagree
    rw [hentries.size] at hi
    rw [hsplit.depth i hi,
      if_pos (eq_or_eq_flip hagree hi (lt_of_lt_of_le hb hentries.size_le)).symm]

end Split

section Writes

variable [DecidableEq V]

theorem split_eq (hdepth : t.directory.localDepths b = l)
    (hroom : ¬ (t.directory.getLocalDepth b = t.directory.globalDepth ∧
      directoryArraySize < DirectoryPage.pow 2 (t.directory.globalDepth + 1))) :
    t.split c b =
      match rehashLoop c (l + 1) (flip l b)
        (List.range ((t.buckets (t.directory.bucketPageIds b)).numReadable c.bucketArraySize))
        (t.buckets (t.directory.bucketPageIds b), zeroed c.zero) with
      | .error fault => .error fault
      | .ok (bucket, splitPage) => .ok {
          directory := redirectAll t.directory.globalDepth (flip l b)
            (splitDirectory t.directory b t.nextPageId)
          buckets := Function.update (Function.update (Function.update t.buckets t.nextPageId
            (zeroed c.zero)) (t.directory.bucketPageIds b) bucket) t.nextPageId splitPage
          nextPageId := t.nextPageId + 1 } := by
  have himage : ((if t.directory.getLocalDepth b = t.directory.globalDepth then
      t.directory.incrGlobalDepth else t.directory).incrLocalDepth b).getSplitImageIndex b =
        flip l b := by
    refine getSplitImageIndex_eq _ b ?_
    split <;> simp [incrLocalDepth, incrGlobalDepth, hdepth]
  have hself := (splitDirectory_eq t.directory t.nextPageId hdepth).2.1
  unfold ExtendibleHashTable.split
  dsimp only [newPage, ExtendibleHashTable.setBucket]
  rw [if_neg hroom, Function.update_self]
  unfold splitDirectory at hself ⊢
  dsimp only [getLocalDepth, getBucketPageId] at hself himage ⊢
  rw [himage] at hself ⊢
  rewrite [hself]
  rfl

/-- A split of a full bucket goes through if the directory has room, whatever its local depth. -/
theorem split_of_full
    (hbucket : (t.buckets (t.directory.bucketPageIds b)).WellFormed c.scheme c.bucketArraySize)
    (hdepth : t.directory.localDepths b = l)
    (hroom : ¬ (t.directory.getLocalDepth b = t.directory.globalDepth ∧
      directoryArraySize < DirectoryPage.pow 2 (t.directory.globalDepth + 1)))
    (hfull : (t.buckets (t.directory.bucketPageIds b)).isFull c.bucketArraySize) :
    ∃ final pages, t.split c b = .ok final ∧ SplitPages c t final b l pages := by
  have hcount : (t.buckets (t.directory.bucketPageIds b)).numReadable c.bucketArraySize =
      c.bucketArraySize := by
    unfold isFull at hfull
    exact of_decide_eq_true hfull
  obtain ⟨pages, hloop, hpages⟩ := rehashLoop_spec hbucket hfull (flip_lt l b)
    c.bucketArraySize (Nat.zero_add _) (rehashed_zero hbucket hfull)
  rw [split_eq hdepth hroom, hcount, List.range_eq_range', hloop]
  refine ⟨_, pages, rfl, hpages, rfl, rfl, fun pageId => ?_⟩
  dsimp only
  by_cases hnew : pageId = t.nextPageId
  · rw [if_pos hnew, hnew, Function.update_self]
  · rw [if_neg hnew, Function.update_of_ne hnew]
    by_cases hsame : pageId = t.directory.bucketPageIds b
    · rw [if_pos hsame, hsame, Function.update_self]
    · rw [if_neg hsame, Function.update_of_ne hsame, Function.update_of_ne hnew]

/-- A split of a bucket whose local depth lags by at most one. -/
theorem Valid.split_spec (h : Valid c t) (hb : b < t.directory.size)
    (hdepth : t.directory.localDepths b = l) (hlag : t.directory.globalDepth ≤ l + 1)
    (hfull : (t.buckets (t.directory.bucketPageIds b)).isFull c.bucketArraySize) :
    t.split c b = .error .directoryFull ∨
      ∃ final, t.split c b = .ok final ∧ SplitResult c t final b l := by
  have hle : l ≤ t.directory.globalDepth := hdepth ▸ h.directory.depth_le b hb
  by_cases hstop : t.directory.getLocalDepth b = t.directory.globalDepth ∧
      directoryArraySize < DirectoryPage.pow 2 (t.directory.globalDepth + 1)
  · left
    unfold ExtendibleHashTable.split
    exact if_pos hstop
  · right
    have hroom : 2 ^ (l + 1) ≤ directoryArraySize := by
      rcases Nat.lt_or_eq_of_le hle with hlt | heq
      · have hsize := h.directory.size_le
        rw [size_eq] at hsize
        rwa [show l + 1 = t.directory.globalDepth by omega]
      · unfold getLocalDepth at hstop
        rw [hdepth, ← heq] at hstop
        exact Nat.le_of_not_lt fun hlt => hstop ⟨rfl, hlt⟩
    obtain ⟨final, pages, hsplit, hpages⟩ := split_of_full (h.bucket b hb) hdepth hstop hfull
    exact ⟨final, hsplit, h.splitResult hb hdepth hlag hroom hfull hpages⟩

/-! ## Insertion -/

/-- The bucket of the key is not both full and of a local depth that lags behind
the global depth by two or more. -/
def SplitsClose (c : TableConfig K V) (t : ExtendibleHashTable K V) (key : K) : Prop :=
  (t.buckets (keyToPageId c key t.directory)).isFull c.bucketArraySize →
    t.directory.globalDepth ≤
      t.directory.localDepths (keyToDirectoryIndex c key t.directory) + 1

/-- What the insertion of a pair leads to. -/
structure InsertResult (c : TableConfig K V) (t final : ExtendibleHashTable K V) (key : K)
    (value : V) (success : Bool) : Prop where
  valid : Valid c final
  success_iff : success ↔ ¬ Contains c t key value
  contains : ∀ other value', Contains c final other value' ↔
    Contains c t other value' ∨ c.scheme.cmp other key = 0 ∧ value = value'

theorem insert_of_room (key : K) (value : V)
    (hroom : ¬ (t.buckets (keyToPageId c key t.directory)).isFull c.bucketArraySize) :
    t.insert c key value =
      .ok (((t.buckets (keyToPageId c key t.directory)).insert c.scheme c.bucketArraySize
          key value).1,
        t.setBucket (keyToPageId c key t.directory)
          ((t.buckets (keyToPageId c key t.directory)).insert c.scheme c.bucketArraySize
            key value).2) := by
  unfold ExtendibleHashTable.insert
  dsimp only
  rw [if_neg hroom]

theorem Valid.insert_of_room_spec (h : Valid c t) (key : K) (value : V)
    (hroom : ¬ (t.buckets (keyToPageId c key t.directory)).isFull c.bucketArraySize) :
    ∃ success final, t.insert c key value = .ok (success, final) ∧
      InsertResult c t final key value success := by
  obtain ⟨success, page, hinsert, hsuccess, -, hvalid, hcontains⟩ :=
    h.insert_bucket key value hroom
  rw [insert_of_room key value hroom, hinsert]
  exact ⟨success, _, rfl, hvalid, hsuccess, hcontains⟩

theorem insert_of_full (key : K) (value : V)
    (hfull : (t.buckets (keyToPageId c key t.directory)).isFull c.bucketArraySize) :
    t.insert c key value = splitInsertLoop c key value directoryArraySize t := by
  unfold ExtendibleHashTable.insert
  dsimp only
  rw [if_pos hfull]
  rfl

/-- Where there is room, the loop of `SplitInsert` does what `Insert` does. -/
theorem splitInsertLoop_of_room (key : K) (value : V) (fuel : Nat)
    (hroom : ¬ (t.buckets (keyToPageId c key t.directory)).isFull c.bucketArraySize) :
    splitInsertLoop c key value (fuel + 1) t = t.insert c key value := by
  rw [insert_of_room key value hroom]
  unfold splitInsertLoop
  dsimp only
  rw [if_neg hroom]

theorem splitInsertLoop_of_split (key : K) (value : V) (fuel : Nat)
    (hfull : (t.buckets (keyToPageId c key t.directory)).isFull c.bucketArraySize)
    {final : ExtendibleHashTable K V}
    (hsplit : t.split c (keyToDirectoryIndex c key t.directory) = .ok final) :
    splitInsertLoop c key value (fuel + 1) t = splitInsertLoop c key value fuel final := by
  rw [splitInsertLoop]
  dsimp only
  rw [if_pos hfull, hsplit]

/-- Once a bucket has been split its local depth is the global depth, and one more
with each turn, so that the loop ends before the fuel does. -/
theorem Valid.splitInsertLoop_spec (h : Valid c t) (key : K) (value : V) (fuel : Nat)
    (hfuel : 9 < t.directory.localDepths (keyToDirectoryIndex c key t.directory) + fuel)
    (hclose : SplitsClose c t key) :
    splitInsertLoop c key value fuel t = .error .directoryFull ∨
      ∃ success final, splitInsertLoop c key value fuel t = .ok (success, final) ∧
        InsertResult c t final key value success := by
  induction fuel generalizing t with
  | zero =>
      have hle := h.directory.depth_le _ (keyToDirectoryIndex_lt (c := c) key _)
      have hmax := h.directory.globalDepth_le
      omega
  | succ fuel ih =>
      have hlt := keyToDirectoryIndex_lt (c := c) key t.directory
      by_cases hfull : (t.buckets (keyToPageId c key t.directory)).isFull c.bucketArraySize
      · rcases h.split_spec hlt rfl (hclose hfull) hfull with hstop | ⟨middle, hsplit, hresult⟩
        · left
          rw [splitInsertLoop]
          dsimp only
          rw [if_pos hfull, hstop]
        · rw [splitInsertLoop_of_split key value fuel hfull hsplit]
          have hagree : Agree (t.directory.localDepths (keyToDirectoryIndex c key t.directory))
              (keyToDirectoryIndex c key middle.directory)
              (keyToDirectoryIndex c key t.directory) := by
            refine (agree_keyToDirectoryIndex ?_ key).trans
              (agree_keyToDirectoryIndex (h.directory.depth_le _ hlt) key).symm
            rw [hresult.globalDepth]
            exact Nat.le_succ _
          have hdepth := hresult.depth _ (keyToDirectoryIndex_lt key _) hagree
          have hagain : SplitsClose c middle key := by
            intro _
            rw [hdepth, hresult.globalDepth]
            exact Nat.le_succ _
          rcases ih hresult.valid (by omega) hagain with hstop | ⟨success, final, hloop, hinsert⟩
          · exact Or.inl hstop
          · refine Or.inr ⟨success, final, hloop, hinsert.valid, ?_, ?_⟩
            · rw [hinsert.success_iff, hresult.contains]
            · intro other value'
              rw [hinsert.contains, hresult.contains]
      · rw [splitInsertLoop_of_room key value fuel hfull]
        exact Or.inr (h.insert_of_room_spec key value hfull)

theorem Valid.insert_spec (h : Valid c t) (key : K) (value : V) (hclose : SplitsClose c t key) :
    t.insert c key value = .error .directoryFull ∨
      ∃ success final, t.insert c key value = .ok (success, final) ∧
        InsertResult c t final key value success := by
  by_cases hfull : (t.buckets (keyToPageId c key t.directory)).isFull c.bucketArraySize
  · rw [insert_of_full key value hfull]
    exact h.splitInsertLoop_spec key value _ (by unfold directoryArraySize; omega) hclose
  · exact Or.inr (h.insert_of_room_spec key value hfull)

end Writes

/-! ## Merging -/

/-- The merged table has the pairs that it had before: one of the merged buckets is empty. -/
theorem Valid.mergePair (h : Valid c t) (hi : i < t.directory.size)
    (hdepth : t.directory.localDepths i = l + 1) (hpos : 0 < l)
    (himage : t.directory.localDepths (flip l i) = l + 1)
    (hempty : (t.buckets (t.directory.bucketPageIds i)).isEmpty c.bucketArraySize)
    {d : DirectoryPage} (hmerge : MergeOf t.directory d i l) :
    Valid c { t with directory := d } ∧
      ∀ key value, Contains c { t with directory := d } key value ↔ Contains c t key value := by
  have hflip := flip_lt_size h.directory hi hdepth
  have hsize : d.size = t.directory.size := by rw [size_eq, size_eq, hmerge.globalDepth]
  have hnone := (isEmpty_iff_holds (h.bucket i hi) c.bucketArraySize_pos).mp hempty
  refine ⟨⟨h.directory.merge hi hdepth hpos himage hmerge, ?_, ?_, ?_⟩, ?_⟩
  · intro j hj
    simp only [hsize] at hj ⊢
    rw [hmerge.page j hj]
    split
    · exact h.allocated _ hflip
    · exact h.allocated j hj
  · intro j hj
    simp only [hsize] at hj ⊢
    rw [hmerge.page j hj]
    split
    · exact h.bucket _ hflip
    · exact h.bucket j hj
  · intro j key value hj hholds
    simp only [hsize] at hj hholds ⊢
    rw [hmerge.page j hj] at hholds
    rw [hmerge.depth j hj]
    by_cases hmerged : Agree l j i
    · rw [if_pos hmerged] at hholds ⊢
      have hplaced := h.placed _ key value hflip hholds
      rw [himage] at hplaced
      exact ((hplaced.mono (Nat.le_succ l)).trans (agree_flip l i)).trans hmerged.symm
    · rw [if_neg hmerged] at hholds ⊢
      exact h.placed j key value hj hholds
  · intro key value
    constructor
    · rintro ⟨j, hj, hholds⟩
      simp only [hsize] at hj hholds
      rw [hmerge.page j hj] at hholds
      split at hholds
      · exact ⟨_, hflip, hholds⟩
      · exact ⟨j, hj, hholds⟩
    · rintro ⟨j, hj, hholds⟩
      refine ⟨j, by rwa [hsize], ?_⟩
      dsimp only
      rw [hmerge.page j hj]
      by_cases hmerged : Agree l j i
      · rw [if_pos hmerged]
        rcases agree_iff_succ.mp hmerged with hone | htwo
        · have hpage := (h.directory.agree i j hi hj (hdepth ▸ hone.symm)).1
          rw [← hpage] at hholds
          exact absurd hholds (hnone key value)
        · have hpage := (h.directory.agree _ j hflip hj (himage ▸ htwo.symm)).1
          rwa [hpage]
      · rwa [if_neg hmerged]

theorem Valid.decrGlobalDepth (h : Valid c t) (hshrink : t.directory.canShrink) :
    Valid c { t with directory := t.directory.decrGlobalDepth } ∧
      ∀ key value, Contains c { t with directory := t.directory.decrGlobalDepth } key value ↔
        Contains c t key value := by
  have hcan := (canShrink_iff t.directory).mp hshrink
  have hle : t.directory.decrGlobalDepth.size ≤ t.directory.size :=
    Nat.pow_le_pow_right (by decide) (Nat.sub_le _ _)
  refine ⟨⟨h.directory.decrGlobalDepth hshrink, ?_, ?_, ?_⟩, ?_⟩
  · exact fun i hi => h.allocated i (lt_of_lt_of_le hi hle)
  · exact fun i hi => h.bucket i (lt_of_lt_of_le hi hle)
  · exact fun i key value hi => h.placed i key value (lt_of_lt_of_le hi hle)
  · intro key value
    constructor
    · rintro ⟨i, hi, hholds⟩
      exact ⟨i, lt_of_lt_of_le hi hle, hholds⟩
    · rintro ⟨i, hi, hholds⟩
      have hdepth := h.directory.depth_le i hi
      have hne := hcan i hi
      have hagree : Agree (t.directory.localDepths i) i (i % t.directory.decrGlobalDepth.size) :=
        (agree_mod (m := t.directory.globalDepth - 1) (by omega) i).symm
      have hlt : i % t.directory.decrGlobalDepth.size < t.directory.size :=
        lt_of_lt_of_le (mod_size_lt _ i) hle
      refine ⟨_, mod_size_lt t.directory.decrGlobalDepth i, ?_⟩
      change (t.buckets (t.directory.bucketPageIds _)).Holds _ _ _
      rwa [← (h.directory.agree i _ hi hlt hagree).1]

/-- One turn of the loop of `Merge` keeps the pairs of the table. -/
theorem Valid.mergeTurn (h : Valid c t) (hi : i < t.directory.size) :
    Valid c (t.mergeTurn c i) ∧
      ∀ key value, Contains c (t.mergeTurn c i) key value ↔ Contains c t key value := by
  have hshrunk : ∀ middle : ExtendibleHashTable K V, Valid c middle →
      Valid c { middle with directory := if middle.directory.canShrink then
        middle.directory.decrGlobalDepth else middle.directory } ∧
      ∀ key value, Contains c { middle with directory := if middle.directory.canShrink then
        middle.directory.decrGlobalDepth else middle.directory } key value ↔
          Contains c middle key value := by
    intro middle hmiddle
    by_cases hshrink : middle.directory.canShrink
    · rw [if_pos hshrink]
      exact hmiddle.decrGlobalDepth hshrink
    · rw [if_neg hshrink]
      exact ⟨hmiddle, fun _ _ => Iff.rfl⟩
  unfold ExtendibleHashTable.mergeTurn
  dsimp only
  by_cases hmerge : t.directory.getLocalDepth i > 1 ∧
      (t.buckets (t.directory.getBucketPageId i)).isEmpty c.bucketArraySize
  · rw [if_pos hmerge]
    obtain ⟨l, hl⟩ : ∃ l, t.directory.localDepths i = l + 1 :=
      Nat.exists_eq_add_of_lt (lt_trans Nat.zero_lt_one hmerge.1) |>.imp fun _ heq => by
        simpa [getLocalDepth] using heq
    have hpos : 0 < l := by
      have hdeep : t.directory.localDepths i > 1 := hmerge.1
      omega
    rw [getSplitImageIndex_eq _ i hl]
    by_cases hpair : t.directory.getLocalDepth (flip l i) = t.directory.getLocalDepth i
    · rw [if_pos hpair]
      have himage : t.directory.localDepths (flip l i) = l + 1 := hpair.trans hl
      obtain ⟨hmerged, hsame⟩ := h.mergePair hi hl hpos himage hmerge.2
        (mergeOf_mergePair h.directory hi hl himage)
      obtain ⟨hvalid, hcontains⟩ := hshrunk _ hmerged
      exact ⟨hvalid, fun key value => (hcontains key value).trans (hsame key value)⟩
    · rw [if_neg hpair]
      exact hshrunk t h
  · rw [if_neg hmerge]
    exact ⟨h, fun _ _ => Iff.rfl⟩

theorem Valid.mergeLoop (h : Valid c t) (fuel i : Nat) :
    Valid c (mergeLoop c fuel i t) ∧
      ∀ key value, Contains c (mergeLoop c fuel i t) key value ↔ Contains c t key value := by
  induction fuel generalizing t i with
  | zero => exact ⟨h, fun _ _ => Iff.rfl⟩
  | succ fuel ih =>
      unfold ExtendibleHashTable.mergeLoop
      by_cases hend : i ≥ t.directory.size
      · rw [if_pos hend]
        exact ⟨h, fun _ _ => Iff.rfl⟩
      · rw [if_neg hend]
        obtain ⟨hturn, hsame⟩ := h.mergeTurn (Nat.lt_of_not_le hend)
        obtain ⟨hvalid, hcontains⟩ := ih hturn (i + 1)
        exact ⟨hvalid, fun key value => (hcontains key value).trans (hsame key value)⟩

/-! ## Removal -/

section Writes

variable [DecidableEq V]

/-- What the removal of a pair leads to. -/
structure RemoveResult (c : TableConfig K V) (t final : ExtendibleHashTable K V) (key : K)
    (value : V) (success : Bool) : Prop where
  valid : Valid c final
  success_iff : success ↔ Contains c t key value
  contains : ∀ other value', Contains c final other value' ↔
    Contains c t other value' ∧ ¬ (c.scheme.cmp other key = 0 ∧ value' = value)

/-- A pair is removed from the bucket of its key. -/
theorem Valid.remove_bucket (h : Valid c t) (key : K) (value : V) :
    ∃ success page, (t.buckets (keyToPageId c key t.directory)).remove c.scheme c.bucketArraySize
        key value = (success, page) ∧
      RemoveResult c t (t.setBucket (keyToPageId c key t.directory) page) key value success := by
  have hbucket := h.bucket_of_key key
  have hlt : keyToDirectoryIndex c key t.directory < t.directory.size :=
    keyToDirectoryIndex_lt key _
  by_cases hholds : (t.buckets (keyToPageId c key t.directory)).Holds c.scheme key value
  · obtain ⟨page, hremove, hpage, hpairs⟩ := remove_of_holds hbucket hholds
    have hvalid : Valid c (t.setBucket (keyToPageId c key t.directory) page) := by
      refine h.setBucket hlt hpage ?_
      intro other value' hother
      exact h.placed _ other value' hlt ((hpairs other value').mp hother).1
    refine ⟨true, page, hremove, hvalid, by simpa [h.contains_iff] using hholds, ?_⟩
    intro other value'
    rw [h.contains_setBucket hvalid]
    split
    next hsame => rw [hpairs, h.contains_iff, hsame]
    next hdiff =>
      refine ⟨fun hother => ⟨hother, ?_⟩, And.left⟩
      rintro ⟨heq, -⟩
      unfold keyToPageId at hdiff
      rw [keyToDirectoryIndex_congr heq] at hdiff
      exact hdiff rfl
  · have hsame : t.setBucket (keyToPageId c key t.directory)
        (t.buckets (keyToPageId c key t.directory)) = t := by
      unfold ExtendibleHashTable.setBucket
      rw [Function.update_eq_self]
    refine ⟨false, _, remove_of_not_holds hholds, ?_⟩
    rw [hsame]
    refine ⟨h, by simpa [h.contains_iff] using hholds, fun other value' => ?_⟩
    refine ⟨fun hother => ⟨hother, ?_⟩, And.left⟩
    rintro ⟨heq, rfl⟩
    obtain ⟨i, hi, hpair⟩ := hother
    exact hholds (h.contains_iff.mp ⟨i, hi, (holds_congr heq).mp hpair⟩)

theorem Valid.remove_spec (h : Valid c t) (key : K) (value : V) :
    RemoveResult c t (t.remove c key value).2 key value (t.remove c key value).1 := by
  obtain ⟨success, page, hremove, hresult⟩ := h.remove_bucket key value
  unfold ExtendibleHashTable.remove
  dsimp only
  rw [hremove]
  dsimp only
  split
  · obtain ⟨hvalid, hsame⟩ := hresult.valid.mergeLoop
      (t.setBucket (keyToPageId c key t.directory) page).directory.size 0
    exact ⟨hvalid, hresult.success_iff,
      fun other value' => (hsame other value').trans (hresult.contains other value')⟩
  · exact hresult

end Writes

/-! ## Construction -/

@[simp] theorem buckets_create (pageId : PageId) : (create c).buckets pageId = zeroed c.zero := by
  simp only [create, newPage]
  by_cases htwo : pageId = 2
  · subst htwo
    exact Function.update_self _ _ _
  · refine (Function.update_of_ne (by simpa using htwo) _ _).trans ?_
    by_cases hone : pageId = 1
    · subst hone
      exact Function.update_self _ _ _
    · exact Function.update_of_ne hone _ _

theorem not_contains_create (key : K) (value : V) : ¬ Contains c (create c) key value := by
  rintro ⟨i, -, hholds⟩
  rw [buckets_create] at hholds
  exact not_holds_zeroed _ hholds

theorem valid_create (c : TableConfig K V) : Valid c (create c) := by
  have hdepth : ∀ i, i < 2 → (create c).directory.localDepths i = 1 ∧
      (create c).directory.bucketPageIds i = i + 1 := by
    intro i hi
    rcases Nat.lt_succ_iff_lt_or_eq.mp hi with hlt | heq
    · obtain rfl : i = 0 := by omega
      exact ⟨rfl, rfl⟩
    · subst heq
      exact ⟨rfl, rfl⟩
  have hsize : (create c).directory.size = 2 := rfl
  refine ⟨⟨?_, ?_, ?_, ?_, ?_⟩, ?_, ?_, ?_⟩
  · rw [hsize]
    decide
  · intro i hi
    rw [(hdepth i hi).1]
    exact Nat.one_pos
  · intro i hi
    rw [(hdepth i hi).1]
    exact le_refl _
  · intro i j hi hj hagree
    rw [(hdepth i hi).1] at hagree
    rw [eq_of_agree hagree hi hj]
    exact ⟨rfl, rfl⟩
  · intro i j hi hj hpage
    rw [(hdepth i hi).2, (hdepth j hj).2] at hpage
    obtain rfl : i = j := by exact_mod_cast add_right_cancel hpage
    exact Agree.refl _ _
  · intro i hi
    rw [(hdepth i hi).2]
    have hnext : (create c).nextPageId = 3 := rfl
    rw [hsize] at hi
    rw [hnext]
    have hlt : (i : Int) < 2 := by exact_mod_cast hi
    exact Int.add_lt_add_right hlt 1
  · intro i hi
    rw [buckets_create]
    exact wellFormed_zeroed _
  · intro i key value hi hholds
    rw [buckets_create] at hholds
    exact absurd hholds (not_holds_zeroed _)

end BusTub.ExtendibleHashTable
