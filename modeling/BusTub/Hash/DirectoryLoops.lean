import BusTub.Hash.DirectoryInvariant

/-! # The directory loops

What the loops of `SplitInsert` and `Merge` over the directory amount to: a split
of a bucket whose local depth lags by at most one is a `SplitOf`, a merge of a
bucket pair is a `MergeOf`.
-/

namespace BusTub.ExtendibleHashTable

open LowBits DirectoryPage

variable {d : DirectoryPage} {b i l : Nat}

/-- What the directory says about an index. -/
def entry (d : DirectoryPage) (i : Nat) : PageId × Nat := (d.bucketPageIds i, d.localDepths i)

theorem foldl_redirect (oldGlobalDepth splitBucketIdx : Nat) (d : DirectoryPage) (n : Nat) :
    ((List.range' (2 ^ oldGlobalDepth) n).foldl (redirect oldGlobalDepth splitBucketIdx) d).globalDepth
        = d.globalDepth ∧
      ∀ j, entry ((List.range' (2 ^ oldGlobalDepth) n).foldl
        (redirect oldGlobalDepth splitBucketIdx) d) j =
          if 2 ^ oldGlobalDepth ≤ j ∧ j < 2 ^ oldGlobalDepth + n ∧ j ≠ splitBucketIdx then
            entry d (j % 2 ^ oldGlobalDepth)
          else entry d j := by
  induction n with
  | zero =>
      refine ⟨rfl, fun j => ?_⟩
      rw [if_neg (by omega)]
      rfl
  | succ n ih =>
      obtain ⟨hdepth, hentry⟩ := ih
      rw [List.range'_1_concat, List.foldl_append, List.foldl_cons, List.foldl_nil]
      generalize (List.range' (2 ^ oldGlobalDepth) n).foldl (redirect oldGlobalDepth splitBucketIdx) d
        = middle at hdepth hentry ⊢
      have hpos := Nat.two_pow_pos oldGlobalDepth
      unfold redirect
      by_cases hsplit : 2 ^ oldGlobalDepth + n = splitBucketIdx
      · rw [if_pos hsplit]
        refine ⟨hdepth, fun j => ?_⟩
        rw [hentry j]
        by_cases hj : j = 2 ^ oldGlobalDepth + n
        · rw [if_neg (by omega), if_neg (by omega)]
        · congr 1
          exact propext (by omega)
      · rw [if_neg hsplit]
        refine ⟨hdepth, fun j => ?_⟩
        by_cases hj : j = 2 ^ oldGlobalDepth + n
        · subst hj
          have hlow : (2 ^ oldGlobalDepth + n) % 2 ^ oldGlobalDepth < 2 ^ oldGlobalDepth :=
            Nat.mod_lt _ hpos
          have hread := hentry ((2 ^ oldGlobalDepth + n) % 2 ^ oldGlobalDepth)
          rw [if_neg (by omega)] at hread
          rw [if_pos (by omega), ← hread]
          simp [entry, getBucketPageId, getLocalDepth, pow, Nat.and_two_pow_sub_one_eq_mod]
        · have hsame := hentry j
          simp only [entry] at hsame ⊢
          simp only [localDepths_setLocalDepth, bucketPageIds_setLocalDepth,
            bucketPageIds_setBucketPageId, localDepths_setBucketPageId, Function.update_of_ne hj]
          rw [hsame]
          congr 1
          exact propext (by omega)

theorem foldl_mergeAlias (splitBucketIdx : Nat) (bucketPageId newBucketPageId : PageId)
    (d : DirectoryPage) (n : Nat) :
    ((List.range n).foldl (mergeAlias i splitBucketIdx bucketPageId newBucketPageId) d).globalDepth
        = d.globalDepth ∧
      ∀ j, entry ((List.range n).foldl
        (mergeAlias i splitBucketIdx bucketPageId newBucketPageId) d) j =
          if j < n ∧ j ≠ i ∧ j ≠ splitBucketIdx ∧
            (d.bucketPageIds j = bucketPageId ∨ d.bucketPageIds j = newBucketPageId) then
            (newBucketPageId, d.localDepths i)
          else entry d j := by
  induction n with
  | zero =>
      refine ⟨rfl, fun j => ?_⟩
      rw [if_neg (by omega)]
      rfl
  | succ n ih =>
      obtain ⟨hdepth, hentry⟩ := ih
      rw [List.range_succ, List.foldl_append, List.foldl_cons, List.foldl_nil]
      generalize (List.range n).foldl (mergeAlias i splitBucketIdx bucketPageId newBucketPageId) d
        = middle at hdepth hentry ⊢
      have hself := hentry i
      rw [if_neg (by omega)] at hself
      have hn := hentry n
      rw [if_neg (by omega)] at hn
      simp only [entry, Prod.mk.injEq] at hself hn
      have hlt : ∀ j, j ≠ n → (j < n) = (j < n + 1) := fun j hj => propext (by omega)
      unfold mergeAlias getBucketPageId getLocalDepth
      by_cases hskip : n = i ∨ n = splitBucketIdx
      · rw [if_pos hskip]
        refine ⟨hdepth, fun j => ?_⟩
        rw [hentry j]
        by_cases hj : j = n
        · rw [if_neg (fun h => absurd h.1 (by omega)), if_neg (fun h => hskip.elim
            (fun heq => h.2.1 (hj.trans heq)) (fun heq => h.2.2.1 (hj.trans heq)))]
        · simp only [hlt j hj]
      · rw [if_neg hskip, hn.1, hself.2]
        by_cases hmatch : d.bucketPageIds n = bucketPageId ∨ d.bucketPageIds n = newBucketPageId
        · rw [if_pos hmatch]
          refine ⟨hdepth, fun j => ?_⟩
          by_cases hj : j = n
          · subst hj
            rw [if_pos ⟨by omega, by omega, by omega, hmatch⟩]
            simp [entry]
          · have hsame := hentry j
            simp only [entry] at hsame ⊢
            simp only [localDepths_setLocalDepth, bucketPageIds_setLocalDepth,
              bucketPageIds_setBucketPageId, localDepths_setBucketPageId, Function.update_of_ne hj]
            rw [hsame]
            simp only [hlt j hj]
        · rw [if_neg hmatch]
          refine ⟨hdepth, fun j => ?_⟩
          rw [hentry j]
          by_cases hj : j = n
          · subst hj
            rw [if_neg (fun h => absurd h.1 (by omega)), if_neg (fun h => hmatch h.2.2.2)]
          · simp only [hlt j hj]

/-- The directory of `SplitInsert` once it has found the bucket pair. -/
def splitDirectory (d : DirectoryPage) (bucketIdx : Nat) (splitPageId : PageId) : DirectoryPage :=
  let raised := (if d.getLocalDepth bucketIdx = d.globalDepth then d.incrGlobalDepth
    else d).incrLocalDepth bucketIdx
  let splitBucketIdx := raised.getSplitImageIndex bucketIdx
  (raised.setBucketPageId splitBucketIdx splitPageId).setLocalDepth splitBucketIdx
    ((raised.setBucketPageId splitBucketIdx splitPageId).getLocalDepth bucketIdx)

theorem splitDirectory_eq (d : DirectoryPage) (splitPageId : PageId)
    (hdepth : d.localDepths b = l) :
    (splitDirectory d b splitPageId).globalDepth =
        (if l = d.globalDepth then d.globalDepth + 1 else d.globalDepth) ∧
      (splitDirectory d b splitPageId).localDepths b = l + 1 ∧
      ∀ j, entry (splitDirectory d b splitPageId) j =
        if j = flip l b then (splitPageId, l + 1)
        else if j = b then (d.bucketPageIds b, l + 1) else entry d j := by
  have hraised : ((if d.getLocalDepth b = d.globalDepth then d.incrGlobalDepth
      else d).incrLocalDepth b).localDepths = Function.update d.localDepths b (l + 1) := by
    split <;> simp [incrLocalDepth, incrGlobalDepth, hdepth]
  have hpages : ((if d.getLocalDepth b = d.globalDepth then d.incrGlobalDepth
      else d).incrLocalDepth b).bucketPageIds = d.bucketPageIds := by
    split <;> rfl
  have hglobal : ((if d.getLocalDepth b = d.globalDepth then d.incrGlobalDepth
      else d).incrLocalDepth b).globalDepth =
        if l = d.globalDepth then d.globalDepth + 1 else d.globalDepth := by
    unfold getLocalDepth
    rw [hdepth]
    split <;> rfl
  have hflip : b ≠ flip l b := fun heq => not_agree_flip l b (by rw [← heq]; exact Agree.refl _ _)
  unfold splitDirectory
  generalize (if d.getLocalDepth b = d.globalDepth then d.incrGlobalDepth
    else d).incrLocalDepth b = raised at hraised hpages hglobal ⊢
  have hself : raised.localDepths b = l + 1 := by rw [hraised, Function.update_self]
  dsimp only
  rw [getSplitImageIndex_eq _ b hself]
  refine ⟨hglobal, ?_, ?_⟩
  · simp [hself, hflip]
  · intro j
    simp only [entry, localDepths_setLocalDepth, bucketPageIds_setLocalDepth,
      bucketPageIds_setBucketPageId, localDepths_setBucketPageId, hpages, hraised, getLocalDepth]
    by_cases hj : j = flip l b
    · subst hj
      simp
    · by_cases hjb : j = b
      · subst hjb
        simp [hj]
      · simp [hj, hjb]

/-- The directory after a split: the split image and the split bucket have got their
entries, and every other index has the one of the old directory that it falls back to. -/
theorem entry_redirectAll (d : DirectoryPage) (hb : b < d.size) (hdepth : d.localDepths b = l)
    (hle : l ≤ d.globalDepth) (newPageId : PageId) :
    (redirectAll d.globalDepth (flip l b) (splitDirectory d b newPageId)).globalDepth =
        (if l = d.globalDepth then d.globalDepth + 1 else d.globalDepth) ∧
      ∀ i, i < (redirectAll d.globalDepth (flip l b) (splitDirectory d b newPageId)).size →
        entry (redirectAll d.globalDepth (flip l b) (splitDirectory d b newPageId)) i =
          if i = flip l b then (newPageId, l + 1)
          else if i = b then (d.bucketPageIds b, l + 1) else entry d (i % d.size) := by
  have hsize : d.size = 2 ^ d.globalDepth := size_eq d
  obtain ⟨hglobal, -, hentry⟩ := splitDirectory_eq d newPageId hdepth
  obtain ⟨hdepths, hloop⟩ := foldl_redirect d.globalDepth (flip l b)
    (splitDirectory d b newPageId) ((splitDirectory d b newPageId).size - 2 ^ d.globalDepth)
  have hfinal := hdepths.trans hglobal
  refine ⟨hfinal, fun i hi => ?_⟩
  have hi' : i < 2 ^ (if l = d.globalDepth then d.globalDepth + 1 else d.globalDepth) := by
    rw [← hfinal]
    exact hi
  refine (hloop i).trans ?_
  rw [size_eq, hglobal, hentry, hentry, hsize]
  rcases Nat.lt_or_eq_of_le hle with hlt | heq
  · -- the directory keeps its size
    rw [if_neg (Nat.ne_of_lt hlt)] at hi' ⊢
    rw [if_neg (by omega), Nat.mod_eq_of_lt hi']
  · -- the directory doubles
    subst heq
    rw [if_pos rfl] at hi' ⊢
    rw [hsize] at hb
    have hpow : 2 ^ (d.globalDepth + 1) = 2 ^ d.globalDepth + 2 ^ d.globalDepth := by
      rw [pow_succ]
      omega
    have hflip : flip d.globalDepth b = b + 2 ^ d.globalDepth := by
      unfold LowBits.flip
      exact Nat.mod_eq_of_lt (by omega)
    rw [hflip]
    by_cases hnew : 2 ^ d.globalDepth ≤ i
    · have hlow : i % 2 ^ d.globalDepth = i - 2 ^ d.globalDepth := by
        rw [Nat.mod_eq_sub_mod hnew]
        exact Nat.mod_eq_of_lt (by omega)
      rw [hlow]
      by_cases hib : i = b + 2 ^ d.globalDepth
      · rw [if_neg (by omega), if_pos hib, if_pos hib]
      · rw [if_pos (by omega), if_neg (by omega), if_neg (by omega), if_neg hib,
          if_neg (by omega)]
    · rw [if_neg (by omega), Nat.mod_eq_of_lt (by omega)]

/-- The directory after a split of a bucket whose local depth lags by at most one. -/
theorem splitOf_redirectAll (d : DirectoryPage) (h : d.WellFormed) (hb : b < d.size)
    (hdepth : d.localDepths b = l) (hlag : d.globalDepth ≤ l + 1) (newPageId : PageId) :
    SplitOf d (redirectAll d.globalDepth (flip l b) (splitDirectory d b newPageId)) b l
      newPageId := by
  have hle : l ≤ d.globalDepth := hdepth ▸ h.depth_le b hb
  obtain ⟨hglobal, hall⟩ := entry_redirectAll d hb hdepth hle newPageId
  have hfinal : (redirectAll d.globalDepth (flip l b)
      (splitDirectory d b newPageId)).globalDepth = l + 1 := by
    rw [hglobal]
    split <;> omega
  rw [size_eq, hfinal] at hall
  refine ⟨hfinal, ?_, ?_⟩
  · intro i hi
    have hpage := congrArg Prod.fst (hall i hi)
    refine hpage.trans ?_
    by_cases hflip : i = flip l b
    · rw [if_pos hflip, if_pos hflip]
    · rw [if_neg hflip, if_neg hflip]
      by_cases hib : i = b
      · rw [if_pos hib, hib, Nat.mod_eq_of_lt hb]
      · rw [if_neg hib]
        rfl
  · intro i hi
    have hdepth' := congrArg Prod.snd (hall i hi)
    refine hdepth'.trans ?_
    by_cases hflip : i = flip l b
    · rw [if_pos hflip, if_pos (Or.inl hflip)]
    · rw [if_neg hflip]
      by_cases hib : i = b
      · rw [if_pos hib, if_pos (Or.inr hib)]
      · rw [if_neg hib, if_neg (by simp [hflip, hib])]
        rfl

/-- The directory after a merge of a bucket pair. -/
theorem mergeOf_mergePair (h : d.WellFormed) (hi : i < d.size) (hdepth : d.localDepths i = l + 1)
    (himage : d.localDepths (flip l i) = l + 1) :
    MergeOf d (mergePair d i (flip l i)) i l := by
  have hflip := flip_lt_size h hi hdepth
  have hne : flip l i ≠ i := fun heq =>
    not_agree_flip l i (by rw [heq]; exact Agree.refl _ _)
  have hagree : ∀ j, j < d.size → (Agree l j i ↔
      d.bucketPageIds j = d.bucketPageIds i ∨ d.bucketPageIds j = d.bucketPageIds (flip l i)) := by
    intro j hj
    have hone := h.samePage_iff hi hj
    have htwo := h.samePage_iff hflip hj
    rw [hdepth] at hone
    rw [himage] at htwo
    rw [agree_iff_succ]
    exact or_congr ⟨fun hlow => (hone.mpr hlow.symm).symm, fun hpage => (hone.mp hpage.symm).symm⟩
      ⟨fun hlow => (htwo.mpr hlow.symm).symm, fun hpage => (htwo.mp hpage.symm).symm⟩
  -- the directory that the inner loop starts from
  obtain ⟨start, hstart⟩ : ∃ start : DirectoryPage, start =
      ((d.decrLocalDepth i).decrLocalDepth (flip l i)).setBucketPageId i
        (((d.decrLocalDepth i).decrLocalDepth (flip l i)).getBucketPageId (flip l i)) := ⟨_, rfl⟩
  have hglobal : start.globalDepth = d.globalDepth := by
    rw [hstart]
    rfl
  have hpages : start.bucketPageIds =
      Function.update d.bucketPageIds i (d.bucketPageIds (flip l i)) := by
    rw [hstart]
    rfl
  have hdepths : start.localDepths =
      Function.update (Function.update d.localDepths i l) (flip l i) l := by
    rw [hstart]
    simp [decrLocalDepth, hdepth, himage, hne]
  have hmerge : mergePair d i (flip l i) = (List.range d.size).foldl
      (mergeAlias i (flip l i) (d.bucketPageIds i) (d.bucketPageIds (flip l i))) start := by
    unfold mergePair
    dsimp only
    rw [← hstart, show start.size = d.size by rw [size_eq, size_eq, hglobal],
      show start.getBucketPageId i = d.bucketPageIds (flip l i) by
        simp [getBucketPageId, hpages]]
    rfl
  obtain ⟨hdepthFold, hloop⟩ := foldl_mergeAlias (i := i) (flip l i) (d.bucketPageIds i)
    (d.bucketPageIds (flip l i)) start d.size
  have hall : ∀ j, j < d.size → entry (mergePair d i (flip l i)) j =
      if Agree l j i then (d.bucketPageIds (flip l i), l) else entry d j := by
    intro j hj
    rw [hmerge]
    refine (hloop j).trans ?_
    by_cases hji : j = i
    · subst hji
      rw [if_neg (by simp), if_pos (Agree.refl _ _)]
      simp [entry, hpages, hdepths, hne.symm]
    · by_cases hjs : j = flip l i
      · rw [if_neg (by simp [hjs]), if_pos (hjs ▸ agree_flip l i)]
        simp [entry, hpages, hdepths, hjs, hne]
      · have hself : start.localDepths i = l := by simp [hdepths, hne.symm]
        have hsame : entry start j = entry d j := by simp [entry, hpages, hdepths, hji, hjs]
        rw [hpages, Function.update_of_ne hji, hself, hsame]
        by_cases hlow : Agree l j i
        · rw [if_pos hlow, if_pos ⟨hj, hji, hjs, (hagree j hj).mp hlow⟩]
        · rw [if_neg hlow, if_neg (fun hcond => hlow ((hagree j hj).mpr hcond.2.2.2))]
  refine ⟨by rw [hmerge, hdepthFold, hglobal], ?_, ?_⟩
  · intro j hj
    refine (congrArg Prod.fst (hall j hj)).trans ?_
    split <;> rfl
  · intro j hj
    refine (congrArg Prod.snd (hall j hj)).trans ?_
    split <;> rfl

end BusTub.ExtendibleHashTable
