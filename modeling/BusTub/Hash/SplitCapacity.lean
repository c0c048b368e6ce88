import BusTub.Hash.BucketRuns

/-! # Where splitting ends

The loop of `SplitInsert` goes on until the bucket of the key has room, and every turn
raises the local depth of that bucket by one. It asks for a directory beyond its array
exactly if no bit below the last one tells a pair of the bucket from the key. This is
said of every table that calls can lead to, whether or not its directory is well formed.
Runs that split close buckets only, all of them in time, keep the directory well formed.
-/

namespace BusTub

/-! ## Pages with some of the pairs of a full page -/

namespace BucketPage

variable {K V : Type} [DecidableEq V] {c : TableConfig K V} {p q : BucketPage K V}

/-- A page with some of the pairs of a full page is full if it has all of them. -/
theorem isFull_iff_of_subset (hp : p.WellFormed c.scheme c.bucketArraySize)
    (hq : q.WellFormed c.scheme c.bucketArraySize) (hfull : p.isFull c.bucketArraySize)
    (hsub : ∀ key value, q.Holds c.scheme key value → p.Holds c.scheme key value) :
    q.isFull c.bucketArraySize ↔
      ∀ key value, p.Holds c.scheme key value → q.Holds c.scheme key value := by
  have hcount : p.numReadable c.bucketArraySize = c.bucketArraySize := of_decide_eq_true hfull
  have hpairs : q.pairs c ⊆ p.pairs c := by
    rintro ⟨first, value⟩ hmem
    obtain ⟨key, rfl⟩ : ∃ key, c.scheme.keyClass key = first := Quotient.exists_rep first
    exact (mem_pairs hp key value).mpr (hsub key value ((mem_pairs hq key value).mp hmem))
  unfold isFull
  rw [decide_eq_true_eq, ← card_pairs hq]
  constructor
  · intro hsame key value hholds
    have heq : q.pairs c = p.pairs c :=
      Finset.eq_of_subset_of_card_le hpairs (by rw [card_pairs hp, hcount, hsame])
    rw [← mem_pairs hq, heq, mem_pairs hp]
    exact hholds
  · intro hall
    have heq : q.pairs c = p.pairs c := by
      apply pairs_ext hq
      intro key value
      rw [mem_pairs hp]
      exact ⟨hsub key value, hall key value⟩
    rw [heq, card_pairs hp, hcount]

end BucketPage

namespace ExtendibleHashTable

open LowBits DirectoryPage BucketPage

variable {K V : Type} {c : TableConfig K V} {t final : ExtendibleHashTable K V} {b i l : Nat}
  {key : K} {value : V}

/-! ## Sound tables -/

/-- What holds of every table that calls lead to: the depths and the pages are in range. -/
structure Sound (c : TableConfig K V) (t : ExtendibleHashTable K V) : Prop where
  size_le : t.directory.size ≤ directoryArraySize
  depth_le : ∀ i, i < t.directory.size → t.directory.localDepths i ≤ t.directory.globalDepth
  allocated : ∀ i, i < t.directory.size → t.directory.bucketPageIds i < t.nextPageId
  bucket : ∀ pageId, (t.buckets pageId).WellFormed c.scheme c.bucketArraySize

theorem sound_create (c : TableConfig K V) : Sound c (create c) := by
  have hvalid := valid_create c
  refine ⟨hvalid.directory.size_le, hvalid.directory.depth_le, hvalid.allocated, ?_⟩
  intro pageId
  rw [buckets_create]
  exact wellFormed_zeroed _

theorem Sound.globalDepth_le (h : Sound c t) : t.directory.globalDepth ≤ 9 := by
  have hsize := h.size_le
  rw [size_eq] at hsize
  by_contra hnot
  have hpow := Nat.pow_le_pow_right (n := 2) (by decide)
    (show 10 ≤ t.directory.globalDepth by omega)
  unfold directoryArraySize at hsize
  omega

theorem Sound.setBucket (h : Sound c t) (pageId : PageId) {page : BucketPage K V}
    (hpage : page.WellFormed c.scheme c.bucketArraySize) : Sound c (t.setBucket pageId page) := by
  refine ⟨h.size_le, h.depth_le, h.allocated, fun other => ?_⟩
  dsimp only [ExtendibleHashTable.setBucket]
  by_cases hsame : other = pageId
  · subst hsame
    rw [Function.update_self]
    exact hpage
  · rw [Function.update_of_ne hsame]
    exact h.bucket other

/-- A directory with depths in range and pages of the old one. -/
structure Within (d d' : DirectoryPage) : Prop where
  size_le : d'.size ≤ d.size
  depth_le : ∀ i, i < d'.size → d'.localDepths i ≤ d'.globalDepth
  page : ∀ i, i < d'.size → ∃ j, j < d.size ∧ d'.bucketPageIds i = d.bucketPageIds j

theorem Sound.setDirectory (h : Sound c t) {d : DirectoryPage} (hwithin : Within t.directory d) :
    Sound c { t with directory := d } := by
  refine ⟨le_trans hwithin.size_le h.size_le, hwithin.depth_le, fun i hi => ?_, h.bucket⟩
  obtain ⟨j, hj, hpage⟩ := hwithin.page i hi
  change d.bucketPageIds i < t.nextPageId
  rw [hpage]
  exact h.allocated j hj

theorem Within.shrink {d d' : DirectoryPage} (h : Within d d') :
    Within d (if d'.canShrink then d'.decrGlobalDepth else d') := by
  split
  next hshrink =>
    have hcan := (canShrink_iff d').mp hshrink
    have hle : d'.decrGlobalDepth.size ≤ d'.size :=
      Nat.pow_le_pow_right (by decide) (Nat.sub_le _ _)
    refine ⟨le_trans hle h.size_le, fun i hi => ?_, fun i hi => ?_⟩
    · have hlt := lt_of_lt_of_le hi hle
      have hdepth := h.depth_le i hlt
      have hne := hcan i hlt
      change d'.localDepths i ≤ d'.globalDepth - 1
      omega
    · exact h.page i (lt_of_lt_of_le hi hle)
  next => exact h

theorem within_refl {d : DirectoryPage}
    (hdepth : ∀ i, i < d.size → d.localDepths i ≤ d.globalDepth) : Within d d :=
  ⟨le_refl _, hdepth, fun i hi => ⟨i, hi, rfl⟩⟩

/-- Merging a pair of entries lowers depths and repeats pages. -/
theorem within_mergePair {d : DirectoryPage} {split : Nat}
    (hdepth : ∀ i, i < d.size → d.localDepths i ≤ d.globalDepth) (hi : i < d.size)
    (hsplit : split < d.size) : Within d (mergePair d i split) := by
  obtain ⟨start, hstart⟩ : ∃ start : DirectoryPage, start =
      ((d.decrLocalDepth i).decrLocalDepth split).setBucketPageId i
        (((d.decrLocalDepth i).decrLocalDepth split).getBucketPageId split) := ⟨_, rfl⟩
  have hglobal : start.globalDepth = d.globalDepth := by
    rw [hstart]
    rfl
  have hsize : start.size = d.size := by rw [size_eq, size_eq, hglobal]
  have hdepths : ∀ j, start.localDepths j ≤ d.localDepths j := by
    intro j
    rw [hstart]
    simp only [decrLocalDepth, localDepths_setBucketPageId, localDepths_setLocalDepth,
      Function.update_apply]
    split
    next hj =>
      subst hj
      split
      next hj => subst hj; omega
      next => omega
    next =>
      split
      next hj => subst hj; omega
      next => exact le_refl _
  have hpages : ∀ j, j < d.size → ∃ k, k < d.size ∧ start.bucketPageIds j = d.bucketPageIds k := by
    intro j hj
    rw [hstart]
    simp only [bucketPageIds_setBucketPageId, Function.update_apply]
    split
    · exact ⟨split, hsplit, rfl⟩
    · exact ⟨j, hj, rfl⟩
  obtain ⟨hfold, hentry⟩ := foldl_mergeAlias (i := i) split (d.getBucketPageId i)
    (start.getBucketPageId i) start start.size
  have hmerge : mergePair d i split = (List.range start.size).foldl
      (mergeAlias i split (d.getBucketPageId i) (start.getBucketPageId i)) start := by
    rw [hstart]
    rfl
  rw [← hmerge] at hfold hentry
  have hfinal : (mergePair d i split).size = d.size := by
    rw [size_eq, size_eq, hfold, hglobal]
  refine ⟨le_of_eq hfinal, fun j hj => ?_, fun j hj => ?_⟩
  · rw [hfinal] at hj
    have hdepth' := congrArg Prod.snd (hentry j)
    rw [hfold, hglobal]
    refine le_trans (le_of_eq hdepth') ?_
    split
    · exact le_trans (hdepths i) (hdepth i hi)
    · exact le_trans (hdepths j) (hdepth j hj)
  · rw [hfinal] at hj
    have hpage := congrArg Prod.fst (hentry j)
    obtain ⟨k, hk, hsame⟩ : ∃ k, k < d.size ∧ (mergePair d i split).bucketPageIds j =
        start.bucketPageIds k := by
      split at hpage
      · exact ⟨i, hi, hpage⟩
      · exact ⟨j, hj, hpage⟩
    obtain ⟨k', hk', hsame'⟩ := hpages k hk
    exact ⟨k', hk', hsame.trans hsame'⟩

theorem Sound.mergeTurn (h : Sound c t) (hi : i < t.directory.size) :
    Sound c (t.mergeTurn c i) := by
  unfold ExtendibleHashTable.mergeTurn getLocalDepth
  dsimp only
  split
  next hmerge =>
    obtain ⟨l, hl⟩ : ∃ l, t.directory.localDepths i = l + 1 :=
      Nat.exists_eq_succ_of_ne_zero (Nat.ne_of_gt (lt_trans Nat.zero_lt_one hmerge.1))
    have hle := h.depth_le i hi
    have hflip : flip l i < t.directory.size :=
      lt_of_lt_of_le (flip_lt l i) (Nat.pow_le_pow_right (by decide) (hl ▸ hle))
    rw [getSplitImageIndex_eq _ i hl]
    refine h.setDirectory (Within.shrink ?_)
    split
    · exact within_mergePair h.depth_le hi hflip
    · exact within_refl h.depth_le
  next => exact h

theorem Sound.mergeLoop (h : Sound c t) (fuel i : Nat) : Sound c (mergeLoop c fuel i t) := by
  induction fuel generalizing t i with
  | zero => exact h
  | succ fuel ih =>
      unfold ExtendibleHashTable.mergeLoop
      split
      next => exact h
      next hend => exact ih (h.mergeTurn (Nat.lt_of_not_le hend)) (i + 1)

/-! ## Splitting -/

/-- The pairs of the key's bucket do not all stay with the key when it is split at the
bit: one of them is moved away if the key stays, and one of them stays if the key moves. -/
def SplitsAt (c : TableConfig K V) (t : ExtendibleHashTable K V) (key : K) (bit : Nat) : Prop :=
  if bit < t.directory.globalDepth ∨ c.hash key % 2 ^ (bit + 1) < 2 ^ bit then
    ∃ other value, (t.buckets (keyToPageId c key t.directory)).Holds c.scheme other value ∧
      Agree (bit + 1) (c.hash other) (flip bit (c.hash key))
  else
    ∃ other value, (t.buckets (keyToPageId c key t.directory)).Holds c.scheme other value ∧
      ¬ Agree (bit + 1) (c.hash other) (c.hash key)

/-- A full bucket is split at one of the bits from its local depth to the last but one of
the largest directory. -/
def SplitsInTime (c : TableConfig K V) (t : ExtendibleHashTable K V) (key : K) : Prop :=
  (t.buckets (keyToPageId c key t.directory)).isFull c.bucketArraySize →
    ∃ bit, t.directory.localDepths (keyToDirectoryIndex c key t.directory) ≤ bit ∧ bit < 9 ∧
      SplitsAt c t key bit

/-- A split of the key's bucket raises its local depth by one, and leaves it full with the
same pairs unless it is split at that bit. -/
structure KeySplit (c : TableConfig K V) (t final : ExtendibleHashTable K V) (key : K) (l : Nat) :
    Prop where
  sound : Sound c final
  globalDepth : final.directory.globalDepth =
    if l = t.directory.globalDepth then t.directory.globalDepth + 1 else t.directory.globalDepth
  depth : final.directory.localDepths (keyToDirectoryIndex c key final.directory) = l + 1
  full_iff : (final.buckets (keyToPageId c key final.directory)).isFull c.bucketArraySize ↔
    ¬ SplitsAt c t key l
  holds : ¬ SplitsAt c t key l → ∀ other value,
    (final.buckets (keyToPageId c key final.directory)).Holds c.scheme other value ↔
      (t.buckets (keyToPageId c key t.directory)).Holds c.scheme other value

theorem Sound.split (h : Sound c t) {pages : BucketPage K V × BucketPage K V}
    (hb : b < t.directory.size) (hdepth : t.directory.localDepths b = l)
    (hroom : ¬ (t.directory.getLocalDepth b = t.directory.globalDepth ∧
      directoryArraySize < DirectoryPage.pow 2 (t.directory.globalDepth + 1)))
    (hpages : SplitPages c t final b l pages) : Sound c final := by
  have hle : l ≤ t.directory.globalDepth := hdepth ▸ h.depth_le b hb
  obtain ⟨hglobal, hentry⟩ := entry_redirectAll t.directory hb hdepth hle t.nextPageId
  rw [← hpages.directory] at hglobal hentry
  unfold getLocalDepth DirectoryPage.pow at hroom
  rw [hdepth] at hroom
  have hdeep : l + 1 ≤ final.directory.globalDepth := by
    rw [hglobal]
    split <;> omega
  refine ⟨?_, fun i hi => ?_, fun i hi => ?_, fun pageId => ?_⟩
  · rw [size_eq, hglobal]
    split
    next heq => exact Nat.le_of_not_lt fun hlt => hroom ⟨heq, hlt⟩
    next => exact h.size_le
  · have hdepth' := congrArg Prod.snd (hentry i hi)
    refine le_trans (le_of_eq hdepth') ?_
    split
    · exact hdeep
    · split
      · exact hdeep
      · have hold := h.depth_le _ (mod_size_lt t.directory i)
        refine le_trans hold ?_
        rw [hglobal]
        split <;> omega
  · have hpage := congrArg Prod.fst (hentry i hi)
    rw [hpages.nextPageId]
    refine lt_of_le_of_lt (le_of_eq hpage) ?_
    split
    · exact Int.lt_succ _
    · split
      · exact lt_trans (h.allocated b hb) (Int.lt_succ _)
      · exact lt_trans (h.allocated _ (mod_size_lt _ i)) (Int.lt_succ _)
  · rw [hpages.buckets]
    split
    · exact hpages.rehashed.image
    · split
      · exact hpages.rehashed.wellFormed
      · exact h.bucket pageId

/-- The entry of the key in the new directory, and the page that it leads to. -/
theorem SplitPages.at_key {pages : BucketPage K V × BucketPage K V}
    (hpages : SplitPages c t final (keyToDirectoryIndex c key t.directory) l pages)
    (h : Sound c t)
    (hdepth : t.directory.localDepths (keyToDirectoryIndex c key t.directory) = l) :
    final.directory.globalDepth =
        (if l = t.directory.globalDepth then t.directory.globalDepth + 1
          else t.directory.globalDepth) ∧
      final.directory.localDepths (keyToDirectoryIndex c key final.directory) = l + 1 ∧
      final.buckets (keyToPageId c key final.directory) =
        if l < t.directory.globalDepth ∨ c.hash key % 2 ^ (l + 1) < 2 ^ l then pages.1
        else pages.2 := by
  have hlt := keyToDirectoryIndex_lt (c := c) key t.directory
  have hle : l ≤ t.directory.globalDepth := hdepth ▸ h.depth_le _ hlt
  have hindex : keyToDirectoryIndex c key t.directory = c.hash key % 2 ^ t.directory.globalDepth :=
    keyToDirectoryIndex_eq key t.directory
  obtain ⟨hglobal, hentry⟩ := entry_redirectAll t.directory hlt hdepth hle t.nextPageId
  rw [← hpages.directory] at hglobal hentry
  have hfinal := hentry _ (keyToDirectoryIndex_lt (c := c) key final.directory)
  have hne : keyToDirectoryIndex c key t.directory ≠
      flip l (keyToDirectoryIndex c key t.directory) := fun heq =>
    not_agree_flip l _ (by rw [← heq]; exact Agree.refl _ _)
  refine ⟨hglobal, ?_⟩
  by_cases hstay : l < t.directory.globalDepth ∨ c.hash key % 2 ^ (l + 1) < 2 ^ l
  · -- the key stays with the index that it had
    have hsame : keyToDirectoryIndex c key final.directory =
        keyToDirectoryIndex c key t.directory := by
      rw [keyToDirectoryIndex_eq, size_eq, hglobal, hindex]
      split
      next heq =>
        subst heq
        have hlow := hstay.resolve_left (lt_irrefl _)
        rw [← Nat.mod_mod_of_dvd (c.hash key) (pow_dvd_pow 2 (Nat.le_succ t.directory.globalDepth))]
        exact (Nat.mod_eq_of_lt hlow).symm
      next => rfl
    rw [hsame, if_neg hne, if_pos rfl] at hfinal
    have hpage : keyToPageId c key final.directory =
        t.directory.bucketPageIds (keyToDirectoryIndex c key t.directory) := by
      unfold keyToPageId getBucketPageId
      rw [hsame]
      exact congrArg Prod.fst hfinal
    refine ⟨by rw [hsame]; exact congrArg Prod.snd hfinal, ?_⟩
    rw [hpage, hpages.buckets, if_neg (ne_of_lt (h.allocated _ hlt)), if_pos rfl, if_pos hstay]
  · -- the key moves to the split image
    obtain ⟨hglobalLe, hhigh⟩ := not_or.mp hstay
    have heq : l = t.directory.globalDepth := le_antisymm hle (Nat.le_of_not_lt hglobalLe)
    have hmoved : keyToDirectoryIndex c key final.directory =
        flip l (keyToDirectoryIndex c key t.directory) := by
      rw [keyToDirectoryIndex_eq, size_eq, hglobal, if_pos heq, hindex, ← heq]
      rcases mod_succ_cases l (c.hash key) with ⟨hmod, -⟩ | ⟨hmod, -⟩
      · have hsmall := Nat.mod_lt (c.hash key) (Nat.two_pow_pos l)
        omega
      · rw [hmod, flip_of_lt (Nat.mod_lt _ (Nat.two_pow_pos l))]
    rw [hmoved, if_pos rfl] at hfinal
    have hpage : keyToPageId c key final.directory = t.nextPageId := by
      unfold keyToPageId getBucketPageId
      rw [hmoved]
      exact congrArg Prod.fst hfinal
    refine ⟨by rw [hmoved]; exact congrArg Prod.snd hfinal, ?_⟩
    rw [hpage, hpages.buckets, if_pos rfl, if_neg hstay]

/-- The hash of the key on the bits that tell the two buckets apart. -/
theorem agree_flip_keyToDirectoryIndex (hle : l ≤ t.directory.globalDepth) :
    if l < t.directory.globalDepth ∨ c.hash key % 2 ^ (l + 1) < 2 ^ l then
      flip l (keyToDirectoryIndex c key t.directory) = flip l (c.hash key)
    else Agree (l + 1) (flip l (keyToDirectoryIndex c key t.directory)) (c.hash key) := by
  have hindex : keyToDirectoryIndex c key t.directory = c.hash key % 2 ^ t.directory.globalDepth :=
    keyToDirectoryIndex_eq key t.directory
  have hagree := agree_keyToDirectoryIndex (c := c) (t := t) hle key
  by_cases hlt : l < t.directory.globalDepth
  · rw [if_pos (Or.inl hlt)]
    exact flip_congr (agree_keyToDirectoryIndex hlt key)
  · obtain rfl : l = t.directory.globalDepth := le_antisymm hle (Nat.le_of_not_lt hlt)
    rcases mod_succ_cases t.directory.globalDepth (c.hash key) with ⟨hmod, -⟩ | ⟨hmod, hflip⟩
    · rw [if_pos (Or.inr (by rw [hmod]; exact Nat.mod_lt _ (Nat.two_pow_pos _)))]
      refine flip_congr ?_
      unfold Agree
      rw [hmod, hindex]
      exact Nat.mod_eq_of_lt (lt_trans (Nat.mod_lt _ (Nat.two_pow_pos _))
        (Nat.pow_lt_pow_succ (by decide)))
    · rw [if_neg (by omega)]
      unfold Agree
      rw [Nat.mod_eq_of_lt (flip_lt _ _), hmod, hindex,
        flip_of_lt (Nat.mod_lt _ (Nat.two_pow_pos _))]

/-- Bits above the local depth tell the same pairs apart after a split that moved none. -/
theorem KeySplit.splitsAt_iff (h : KeySplit c t final key l) (hnone : ¬ SplitsAt c t key l)
    {bit : Nat} (hbit : l < bit) :
    SplitsAt c final key bit ↔ SplitsAt c t key bit := by
  have hbelow : bit < final.directory.globalDepth ↔ bit < t.directory.globalDepth := by
    rw [h.globalDepth]
    split <;> omega
  unfold SplitsAt
  simp only [hbelow, h.holds hnone]

section Writes

variable [DecidableEq V]

theorem Sound.keySplit (h : Sound c t) {pages : BucketPage K V × BucketPage K V}
    (hdepth : t.directory.localDepths (keyToDirectoryIndex c key t.directory) = l)
    (hroom : ¬ (t.directory.getLocalDepth (keyToDirectoryIndex c key t.directory) =
        t.directory.globalDepth ∧
      directoryArraySize < DirectoryPage.pow 2 (t.directory.globalDepth + 1)))
    (hfull : (t.buckets (keyToPageId c key t.directory)).isFull c.bucketArraySize)
    (hpages : SplitPages c t final (keyToDirectoryIndex c key t.directory) l pages) :
    KeySplit c t final key l := by
  have hlt := keyToDirectoryIndex_lt (c := c) key t.directory
  have hle : l ≤ t.directory.globalDepth := hdepth ▸ h.depth_le _ hlt
  have hbucket := h.bucket (keyToPageId c key t.directory)
  have hflip : if l < t.directory.globalDepth ∨ c.hash key % 2 ^ (l + 1) < 2 ^ l then
      flip l (keyToDirectoryIndex c key t.directory) = flip l (c.hash key)
      else Agree (l + 1) (flip l (keyToDirectoryIndex c key t.directory)) (c.hash key) :=
    agree_flip_keyToDirectoryIndex hle
  obtain ⟨hglobal, hdepth', hpage⟩ := hpages.at_key h hdepth
  have hsound := h.split hlt hdepth hroom hpages
  -- the page of the key has the pairs of the bucket that are not told apart from it
  have hpart : ∀ (page : BucketPage K V) (apart : K → Prop),
      final.buckets (keyToPageId c key final.directory) = page →
      (∀ other value, page.Holds c.scheme other value ↔
        (t.buckets (keyToPageId c key t.directory)).Holds c.scheme other value ∧ ¬ apart other) →
      (SplitsAt c t key l ↔ ∃ other value,
        (t.buckets (keyToPageId c key t.directory)).Holds c.scheme other value ∧ apart other) →
      KeySplit c t final key l := by
    intro page apart hfinal hholds hsplits
    subst hfinal
    have hfullIff := isFull_iff_of_subset hbucket (hsound.bucket _) hfull
      (fun other value hother => ((hholds other value).mp hother).1)
    refine ⟨hsound, hglobal, hdepth', ?_, ?_⟩
    · rw [hfullIff, hsplits]
      constructor
      · rintro hall ⟨other, value, hother, hapart⟩
        exact ((hholds other value).mp (hall other value hother)).2 hapart
      · intro hnone other value hother
        exact (hholds other value).mpr ⟨hother, fun hapart => hnone ⟨other, value, hother, hapart⟩⟩
    · intro hnone other value
      rw [hholds]
      refine ⟨And.left, fun hother => ⟨hother, fun hapart => ?_⟩⟩
      exact hnone (hsplits.mpr ⟨other, value, hother, hapart⟩)
  by_cases hstay : l < t.directory.globalDepth ∨ c.hash key % 2 ^ (l + 1) < 2 ^ l
  · rw [if_pos hstay] at hflip hpage
    refine hpart pages.1 (fun other => Agree (l + 1) (c.hash other) (flip l (c.hash key))) hpage
      ?_ ?_
    · intro other value
      rw [← hflip]
      exact hpages.rehashed.holds_bucket hbucket hfull
    · unfold SplitsAt
      rw [if_pos hstay]
  · rw [if_neg hstay] at hflip hpage
    refine hpart pages.2 (fun other => ¬ Agree (l + 1) (c.hash other) (c.hash key)) hpage ?_ ?_
    · intro other value
      rw [not_not]
      refine (hpages.rehashed.holds_image hbucket hfull).trans (and_congr_right fun _ => ?_)
      exact ⟨fun hagree => hagree.trans hflip, fun hagree => hagree.trans hflip.symm⟩
    · unfold SplitsAt
      rw [if_neg hstay]

/-! ## The loop -/

/-- What `Insert` leads to in a sound table: it goes through if the bucket is split in time,
and asks for too large a directory if not. -/
structure Outcome (c : TableConfig K V) (t : ExtendibleHashTable K V) (key : K)
    (result : Except TableFault (Bool × ExtendibleHashTable K V)) : Prop where
  sound : ∀ success final, result = .ok (success, final) → Sound c final
  ok_iff : (∃ success final, result = .ok (success, final)) ↔ SplitsInTime c t key
  error : ∀ fault, result = .error fault → fault = .directoryFull

theorem Sound.insert_of_room (h : Sound c t) (key : K) (value : V)
    (hroom : ¬ (t.buckets (keyToPageId c key t.directory)).isFull c.bucketArraySize) :
    Outcome c t key (t.insert c key value) := by
  have hpage := (insert_pairs (h.bucket (keyToPageId c key t.directory)) key value).2.1
  rw [ExtendibleHashTable.insert_of_room key value hroom]
  refine ⟨?_, ?_, nofun⟩
  · intro success final hok
    cases hok
    exact h.setBucket _ hpage
  · exact ⟨fun _ hfull => absurd hfull hroom, fun _ => ⟨_, _, rfl⟩⟩

theorem Sound.splitInsertLoop (h : Sound c t) (key : K) (value : V) (fuel : Nat)
    (hfuel : 9 < t.directory.localDepths (keyToDirectoryIndex c key t.directory) + fuel) :
    Outcome c t key (splitInsertLoop c key value fuel t) := by
  induction fuel generalizing t with
  | zero =>
      have hle := h.depth_le _ (keyToDirectoryIndex_lt (c := c) key _)
      -- a depth is nine at most, so that the fuel has not run out
      have hmax := h.globalDepth_le
      omega
  | succ fuel ih =>
      by_cases hfull : (t.buckets (keyToPageId c key t.directory)).isFull c.bucketArraySize
      · have hlt := keyToDirectoryIndex_lt (c := c) key t.directory
        have hle := h.depth_le _ hlt
        have hmax := h.globalDepth_le
        by_cases hstop : t.directory.getLocalDepth (keyToDirectoryIndex c key t.directory) =
            t.directory.globalDepth ∧
            directoryArraySize < DirectoryPage.pow 2 (t.directory.globalDepth + 1)
        · -- the directory has as many entries as its array
          have hsplit : t.split c (keyToDirectoryIndex c key t.directory) =
              .error .directoryFull := by
            unfold ExtendibleHashTable.split
            exact if_pos hstop
          have hresult : ExtendibleHashTable.splitInsertLoop c key value (fuel + 1) t =
              .error .directoryFull := by
            rw [ExtendibleHashTable.splitInsertLoop]
            dsimp only
            rw [if_pos hfull, hsplit]
          have hlast : 9 ≤ t.directory.globalDepth := by
            by_contra hnot
            have hpow := Nat.pow_le_pow_right (n := 2) (by decide)
              (show t.directory.globalDepth + 1 ≤ 9 by omega)
            exact absurd hstop.2 (Nat.not_lt.mpr hpow)
          unfold getLocalDepth at hstop
          rw [hresult]
          constructor
          · intro success final hok
            cases hok
          · constructor
            · rintro ⟨success, final, hok⟩
              cases hok
            · intro hintime
              obtain ⟨bit, hbit, hless, -⟩ := hintime hfull
              omega
          · intro fault herror
            cases herror
            rfl
        · -- the bucket is split, and the loop goes on with the half of the key
          obtain ⟨middle, pages, hsplit, hpages⟩ := split_of_full
            (h.bucket (keyToPageId c key t.directory)) rfl hstop hfull
          have hkey := h.keySplit rfl hstop hfull hpages
          have hless : t.directory.localDepths (keyToDirectoryIndex c key t.directory) < 9 := by
            by_contra hnot
            have hglobal : t.directory.globalDepth = 9 := by omega
            refine hstop ⟨?_, ?_⟩
            · unfold getLocalDepth
              omega
            · rw [hglobal]
              decide
          have hloop := ih hkey.sound (by rw [hkey.depth]; omega)
          rw [splitInsertLoop_of_split key value fuel hfull hsplit]
          refine ⟨hloop.sound, ?_, hloop.error⟩
          rw [hloop.ok_iff]
          unfold SplitsInTime
          rw [hkey.full_iff, hkey.depth]
          -- either the keys part at this bit, or one half is as full as before
          by_cases hnow : SplitsAt c t key
              (t.directory.localDepths (keyToDirectoryIndex c key t.directory))
          · exact ⟨fun _ _ => ⟨_, le_refl _, hless, hnow⟩, fun _ hnot => absurd hnow hnot⟩
          · constructor
            · intro hlater _
              obtain ⟨bit, hbit, hbound, hsplits⟩ := hlater hnow
              exact ⟨bit, Nat.le_of_succ_le hbit, hbound,
                (hkey.splitsAt_iff hnow hbit).mp hsplits⟩
            · intro hsome _
              obtain ⟨bit, hbit, hbound, hsplits⟩ := hsome hfull
              have hbelow := lt_of_le_of_ne hbit (by rintro rfl; exact hnow hsplits)
              exact ⟨bit, hbelow, hbound, (hkey.splitsAt_iff hnow hbelow).mpr hsplits⟩
      · rw [splitInsertLoop_of_room key value fuel hfull]
        exact h.insert_of_room key value hfull

theorem splitInsertLoop_of_le {more fuel : Nat} {result : Bool × ExtendibleHashTable K V}
    (hrun : ExtendibleHashTable.splitInsertLoop c key value fuel t = .ok result)
    (hle : fuel ≤ more) :
    ExtendibleHashTable.splitInsertLoop c key value more t = .ok result := by
  induction fuel generalizing t more with
  | zero => cases hrun
  | succ fuel ih =>
      obtain ⟨rest, rfl⟩ : ∃ rest, more = rest + 1 := ⟨more - 1, by omega⟩
      by_cases hfull : (t.buckets (keyToPageId c key t.directory)).isFull c.bucketArraySize
      · cases hsplit : t.split c (keyToDirectoryIndex c key t.directory) with
        | error fault =>
            rw [ExtendibleHashTable.splitInsertLoop] at hrun
            dsimp only at hrun
            rw [if_pos hfull, hsplit] at hrun
            cases hrun
        | ok middle =>
            rw [splitInsertLoop_of_split key value _ hfull hsplit] at hrun ⊢
            exact ih hrun (by omega)
      · rw [splitInsertLoop_of_room key value _ hfull] at hrun ⊢
        exact hrun

/-- However many turns it is given, the loop ends only in a bucket that is split in time. -/
theorem Sound.splitsInTime (h : Sound c t) {fuel : Nat}
    {result : Bool × ExtendibleHashTable K V}
    (hrun : ExtendibleHashTable.splitInsertLoop c key value fuel t = .ok result) :
    SplitsInTime c t key :=
  (h.splitInsertLoop key value (fuel + 10) (by omega)).ok_iff.mp
    ⟨result.1, result.2, splitInsertLoop_of_le hrun (Nat.le_add_right fuel 10)⟩

theorem Sound.insert (h : Sound c t) (key : K) (value : V) :
    Outcome c t key (t.insert c key value) := by
  by_cases hfull : (t.buckets (keyToPageId c key t.directory)).isFull c.bucketArraySize
  · rw [insert_of_full key value hfull]
    exact h.splitInsertLoop key value _ (by unfold directoryArraySize; omega)
  · exact h.insert_of_room key value hfull

theorem Sound.remove (h : Sound c t) (key : K) (value : V) : Sound c (t.remove c key value).2 := by
  have hpage := (remove_pairs (h.bucket (keyToPageId c key t.directory)) key value).2.1
  have hset := h.setBucket (keyToPageId c key t.directory) hpage
  unfold ExtendibleHashTable.remove
  dsimp only
  split
  · exact hset.mergeLoop _ 0
  · exact hset

/-! ## Runs -/

/-- An insertion into a full bucket is split in time. -/
def FitsDirectory (c : TableConfig K V) (t : ExtendibleHashTable K V) (call : TableCall K V) :
    Prop :=
  match call with
  | .insert key _ => SplitsInTime c t key
  | _ => True

theorem Sound.step (h : Sound c t) {call : TableCall K V} {outcome : TableOutcome V}
    (hstep : (machine c).step t call = .ok (outcome, final)) : Sound c final := by
  cases call with
  | insert key value =>
      simp only [machine] at hstep
      split at hstep
      next => cases hstep
      next success middle hinsert =>
        simp only [Except.ok.injEq, Prod.mk.injEq] at hstep
        exact hstep.2 ▸ (h.insert key value).sound success middle hinsert
  | remove key value =>
      simp only [machine, Except.ok.injEq, Prod.mk.injEq] at hstep
      exact hstep.2 ▸ h.remove key value
  | getValue key =>
      simp only [machine, Except.ok.injEq, Prod.mk.injEq] at hstep
      exact hstep.2 ▸ h

theorem Sound.step_ok_iff (h : Sound c t) (call : TableCall K V) :
    (∃ outcome final, (machine c).step t call = .ok (outcome, final)) ↔ FitsDirectory c t call := by
  cases call with
  | insert key value =>
      change _ ↔ SplitsInTime c t key
      rw [← (h.insert key value).ok_iff]
      simp only [machine]
      constructor
      · rintro ⟨outcome, final, hstep⟩
        split at hstep
        next => cases hstep
        next success middle hinsert => exact ⟨success, middle, hinsert⟩
      · rintro ⟨success, middle, hinsert⟩
        rw [hinsert]
        exact ⟨_, _, rfl⟩
  | remove key value => exact ⟨fun _ => trivial, fun _ => ⟨_, _, rfl⟩⟩
  | getValue key => exact ⟨fun _ => trivial, fun _ => ⟨_, _, rfl⟩⟩

theorem sound_of_reaches {calls : List (TableCall K V)}
    (hreach : (machine c).Reaches (create c) calls final) : Sound c final := by
  refine hreach.invariant_of_step (Sound c) ?_ (sound_create c)
  intro t call outcome next h hstep
  exact h.step hstep

theorem exists_reaches_iff_fits (c : TableConfig K V) (calls : List (TableCall K V)) :
    (∃ final, (machine c).Reaches (create c) calls final) ↔
      (machine c).Guarded (FitsDirectory c) (create c) calls :=
  Machine.exists_reaches_iff_guarded (Sound c) (fun _ _ _ _ h hstep => h.step hstep)
    (fun _ call h => h.step_ok_iff call) calls (sound_create c)

/-- A run ends, with a directory in its array, exactly if every insertion into a full
bucket is split in time. -/
theorem run_fits_iff (c : TableConfig K V) (calls : List (TableCall K V)) :
    (∃ final, (machine c).Reaches (create c) calls final ∧
      final.directory.size ≤ directoryArraySize) ↔
      (machine c).Guarded (FitsDirectory c) (create c) calls := by
  rw [← exists_reaches_iff_fits]
  exact exists_congr fun final =>
    ⟨And.left, fun hreach => ⟨hreach, (sound_of_reaches hreach).size_le⟩⟩

end Writes

/-- One value more than a bucket has room for, all of them of the key `0`: the bucket is
split until the directory would have more entries than its array. -/
theorem insert_directoryFull : ∃ t,
    (machine intTable).Reaches (create intTable) (bucketful.map (TableCall.insert 0)) t ∧
      t.insert intTable 0 (-1) = .error .directoryFull := by
  obtain ⟨t, hreach, -, -, hdirectory, -, hfull, -, hkeys⟩ := reaches_fullTable
  refine ⟨t, hreach, ?_⟩
  have hpage : keyToPageId intTable 0 t.directory = 1 := by
    rw [hdirectory]
    decide
  have houtcome := (sound_of_reaches hreach).insert 0 (-1)
  have hnot : ¬ SplitsInTime intTable t 0 := by
    intro hintime
    obtain ⟨bit, -, -, hsplits⟩ := hintime (by rw [hpage]; exact hfull)
    unfold SplitsAt at hsplits
    have hlow : intTable.hash 0 % 2 ^ (bit + 1) < 2 ^ bit := by
      change 0 % 2 ^ (bit + 1) < 2 ^ bit
      rw [Nat.zero_mod]
      exact Nat.two_pow_pos bit
    rw [if_pos (Or.inr hlow)] at hsplits
    obtain ⟨other, value, hholds, hagree⟩ := hsplits
    rw [hkeys other value ⟨_, keyToDirectoryIndex_lt 0 _, hholds⟩] at hagree
    exact not_agree_flip bit _ hagree.symm
  cases hresult : t.insert intTable 0 (-1) with
  | error fault => rw [houtcome.error fault hresult]
  | ok pair => exact absurd (houtcome.ok_iff.mp ⟨pair.1, pair.2, hresult⟩) hnot

/-! ## The directory over runs -/

/-- A run that splits close buckets only, each of them in time, comes to an end with a
well-formed directory, and so does every part of it that starts with a fresh table. -/
theorem directoryOk_of_closeSplits [DecidableEq V] (c : TableConfig K V)
    (calls : List (TableCall K V))
    (hguard : (machine c).Guarded (fun t call => CloseSplits c t call ∧ FitsDirectory c t call)
      (create c) calls) :
    ∃ final, (machine c).Reaches (create c) calls final ∧ DirectoryOk c final := by
  have hclose : (machine c).Guarded (CloseSplits c) (create c) calls :=
    hguard.mono fun _ _ => And.left
  have hfits : (machine c).Guarded (FitsDirectory c) (create c) calls :=
    hguard.mono fun _ _ => And.right
  obtain ⟨final, hreach⟩ := (exists_reaches_iff_fits c calls).mpr hfits
  have hvalid : Valid c final := hreach.invariant (Valid c)
    (fun _ _ _ _ h hcall hstep => valid_step h hcall hstep) hclose (valid_create c)
  exact ⟨final, hreach, hvalid.directoryOk⟩

theorem directoryOk_growingCalls : ∃ final,
    (machine intTable).Reaches (create intTable) growingCalls final ∧
      DirectoryOk intTable final := by
  obtain ⟨t, hreach, hclose, -⟩ := reaches_grownTable
  exact directoryOk_of_closeSplits intTable growingCalls
    (hclose.and ((exists_reaches_iff_fits intTable growingCalls).mp ⟨t, hreach⟩))

/-- After it the entries `3` and `5` lead to one bucket with two local depths. -/
theorem laggingCalls_not_directoryOk : ∃ t,
    (machine intTable).Reaches (create intTable) laggingCalls t ∧ ¬ DirectoryOk intTable t := by
  obtain ⟨t, hreach, -, hvalid, hdirectory, hnext, hfull, hkeys, -⟩ := reaches_laggingTable
  obtain ⟨final, hinsert, hstale, -⟩ := insert_laggingTable hvalid hdirectory hnext hfull hkeys
  have hstep : (machine intTable).step t (.insert 3 0) = .ok (.insert true, final) := by
    simp only [machine, hinsert]
  refine ⟨final, Machine.reaches_append.mpr ⟨t, hreach, Machine.reaches_cons.mpr
    ⟨_, _, hstep, Machine.reaches_nil.mpr rfl⟩⟩, fun hok => ?_⟩
  have hdepths := hok.sameDepth 3 5
  rw [hstale] at hdepths
  exact absurd (hdepths (by decide) (by decide) (by decide)) (by decide)

end ExtendibleHashTable

end BusTub
