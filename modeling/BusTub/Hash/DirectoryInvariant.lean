import BusTub.Hash.ExtendibleHashTable

/-! # Well-formed directories

Two entries of a well-formed directory lead to one bucket if and only if their
indices agree on as many low bits as the local depth says. A split keeps this when
the bucket's local depth is at most one less than the global depth; a merge and a
shrinking of the directory always keep it.
-/

namespace BusTub.DirectoryPage

open LowBits

/-- The entries below `size` lead to one bucket exactly when they agree on the
low bits that the local depth counts. -/
structure WellFormed (d : DirectoryPage) : Prop where
  size_le : d.size ≤ directoryArraySize
  depth_pos : ∀ i, i < d.size → 0 < d.localDepths i
  depth_le : ∀ i, i < d.size → d.localDepths i ≤ d.globalDepth
  agree : ∀ i j, i < d.size → j < d.size → Agree (d.localDepths i) i j →
    d.bucketPageIds i = d.bucketPageIds j ∧ d.localDepths i = d.localDepths j
  apart : ∀ i j, i < d.size → j < d.size → d.bucketPageIds i = d.bucketPageIds j →
    Agree (d.localDepths i) i j

instance (d : DirectoryPage) : Decidable d.WellFormed :=
  decidable_of_iff (d.size ≤ directoryArraySize ∧ (∀ i < d.size, 0 < d.localDepths i) ∧
    (∀ i < d.size, d.localDepths i ≤ d.globalDepth) ∧
    (∀ i < d.size, ∀ j < d.size, Agree (d.localDepths i) i j →
      d.bucketPageIds i = d.bucketPageIds j ∧ d.localDepths i = d.localDepths j) ∧
    ∀ i < d.size, ∀ j < d.size, d.bucketPageIds i = d.bucketPageIds j →
      Agree (d.localDepths i) i j)
    ⟨fun h => ⟨h.1, h.2.1, h.2.2.1, fun i j hi hj => h.2.2.2.1 i hi j hj,
      fun i j hi hj => h.2.2.2.2 i hi j hj⟩,
    fun h => ⟨h.size_le, h.depth_pos, h.depth_le, fun i hi j hj => h.agree i j hi hj,
      fun i hi j hj => h.apart i j hi hj⟩⟩

variable {d final : DirectoryPage} {i j b l : Nat}

theorem size_eq (d : DirectoryPage) : d.size = 2 ^ d.globalDepth := rfl

theorem WellFormed.globalDepth_le (h : d.WellFormed) : d.globalDepth ≤ 9 := by
  have hsize := h.size_le
  rw [size_eq] at hsize
  by_contra hnot
  have hpow := Nat.pow_le_pow_right (n := 2) (by decide) (show 10 ≤ d.globalDepth by omega)
  unfold directoryArraySize at hsize
  omega

theorem WellFormed.samePage_iff (h : d.WellFormed) (hi : i < d.size) (hj : j < d.size) :
    d.bucketPageIds i = d.bucketPageIds j ↔ Agree (d.localDepths i) i j :=
  ⟨h.apart i j hi hj, fun hagree => (h.agree i j hi hj hagree).1⟩

theorem WellFormed.sameDepth (h : d.WellFormed) (hi : i < d.size) (hj : j < d.size)
    (hpage : d.bucketPageIds i = d.bucketPageIds j) : d.localDepths i = d.localDepths j :=
  (h.agree i j hi hj (h.apart i j hi hj hpage)).2

/-- A bucket has as many pointers as there are indices that agree on its low bits. -/
theorem WellFormed.card_pointers (h : d.WellFormed) (hi : i < d.size) :
    ((Finset.range d.size).filter (fun j => d.bucketPageIds j = d.bucketPageIds i)).card =
      2 ^ (d.globalDepth - d.localDepths i) := by
  have hfilter : (Finset.range d.size).filter (fun j => d.bucketPageIds j = d.bucketPageIds i) =
      (Finset.range (2 ^ d.globalDepth)).filter (fun j => Agree (d.localDepths i) j i) := by
    refine Finset.filter_congr fun j hj => ?_
    have hlt := Finset.mem_range.mp hj
    exact ⟨fun hpage => (h.apart i j hi hlt hpage.symm).symm,
      fun hagree => (h.agree i j hi hlt hagree.symm).1.symm⟩
  rw [hfilter]
  exact card_agree (h.depth_le i hi) i

/-- The entry that an index beyond the directory falls back to. -/
theorem mod_size_lt (d : DirectoryPage) (i : Nat) : i % d.size < d.size :=
  Nat.mod_lt _ (Nat.two_pow_pos _)

/-! ## Splitting -/

/-- A split of the bucket of `b`, whose local depth `l` is at most one less than
the global depth: the split image gets a new page, and every other entry is that
of its index in the old directory. -/
structure SplitOf (d final : DirectoryPage) (b l : Nat) (newPageId : PageId) : Prop where
  globalDepth : final.globalDepth = l + 1
  page : ∀ i, i < 2 ^ (l + 1) → final.bucketPageIds i =
    if i = flip l b then newPageId else d.bucketPageIds (i % d.size)
  depth : ∀ i, i < 2 ^ (l + 1) → final.localDepths i =
    if i = flip l b ∨ i = b then l + 1 else d.localDepths (i % d.size)

section Split

variable {newPageId : PageId}

/-- An index of the new directory that is neither `b` nor its split image leads to
another bucket than `b`. -/
theorem WellFormed.page_ne_of_ne (h : d.WellFormed) (hb : b < d.size)
    (hdepth : d.localDepths b = l) (hlag : d.globalDepth ≤ l + 1) (hi : i < 2 ^ (l + 1))
    (hne : i ≠ b) (hneFlip : i ≠ flip l b) :
    d.bucketPageIds (i % d.size) ≠ d.bucketPageIds b := by
  intro hpage
  have hle : l ≤ d.globalDepth := hdepth ▸ h.depth_le b hb
  have hagree := h.apart b (i % d.size) hb (mod_size_lt d i) hpage.symm
  rw [hdepth] at hagree
  have hlow : Agree l i b := (agree_mod hle i).symm.trans hagree.symm
  have hb' : b < 2 ^ (l + 1) := lt_of_lt_of_le hb (Nat.pow_le_pow_right (by decide) hlag)
  exact (eq_or_eq_flip hlow hi hb').elim hne hneFlip

/-- The split image led to the bucket of `b` before. -/
theorem WellFormed.page_flip (h : d.WellFormed) (hb : b < d.size)
    (hdepth : d.localDepths b = l) :
    d.bucketPageIds (flip l b % d.size) = d.bucketPageIds b := by
  have hle : l ≤ d.globalDepth := hdepth ▸ h.depth_le b hb
  have hagree : Agree (d.localDepths b) b (flip l b % d.size) := by
    rw [hdepth]
    exact ((agree_mod hle _).trans (agree_flip l b)).symm
  exact (h.agree b _ hb (mod_size_lt d _) hagree).1.symm

theorem WellFormed.split (h : d.WellFormed) (hb : b < d.size) (hdepth : d.localDepths b = l)
    (hlag : d.globalDepth ≤ l + 1) (hroom : 2 ^ (l + 1) ≤ directoryArraySize)
    (hnew : ∀ i, i < d.size → d.bucketPageIds i ≠ newPageId)
    (hsplit : SplitOf d final b l newPageId) : final.WellFormed := by
  have hsize : final.size = 2 ^ (l + 1) := by rw [size_eq, hsplit.globalDepth]
  have hle : l ≤ d.globalDepth := hdepth ▸ h.depth_le b hb
  have hb' : b < 2 ^ (l + 1) := lt_of_lt_of_le hb (Nat.pow_le_pow_right (by decide) hlag)
  have hbmod : b % d.size = b := Nat.mod_eq_of_lt hb
  -- the depth of an entry that the split does not touch
  have hold : ∀ i, i % d.size < d.size ∧ 0 < d.localDepths (i % d.size) ∧
      d.localDepths (i % d.size) ≤ d.globalDepth := fun i =>
    ⟨mod_size_lt d i, h.depth_pos _ (mod_size_lt d i), h.depth_le _ (mod_size_lt d i)⟩
  have hmod : ∀ i j, Agree (d.localDepths (i % d.size)) i j →
      Agree (d.localDepths (i % d.size)) (i % d.size) (j % d.size) := fun i j hagree =>
    ((agree_mod (hold i).2.2 i).trans hagree).trans (agree_mod (hold i).2.2 j).symm
  refine ⟨hsize ▸ hroom, ?_, ?_, ?_, ?_⟩
  · intro i hi
    rw [hsplit.depth i (hsize ▸ hi)]
    split
    · exact Nat.succ_pos l
    · exact (hold i).2.1
  · intro i hi
    rw [hsplit.depth i (hsize ▸ hi), hsplit.globalDepth]
    split
    · exact le_refl _
    · exact le_trans (hold i).2.2 hlag
  · intro i j hi hj hagree
    rw [hsize] at hi hj
    rw [hsplit.depth i hi] at hagree ⊢
    by_cases hpair : i = flip l b ∨ i = b
    · rw [if_pos hpair] at hagree ⊢
      have heq := eq_of_agree hagree hi hj
      subst heq
      rw [hsplit.depth i hi, if_pos hpair]
      exact ⟨rfl, rfl⟩
    · rw [if_neg hpair] at hagree ⊢
      simp only [not_or] at hpair
      have hother := h.page_ne_of_ne hb hdepth hlag hi hpair.2 hpair.1
      obtain ⟨hpage, hdepths⟩ := h.agree _ _ (hold i).1 (hold j).1 (hmod i j hagree)
      have hjflip : j ≠ flip l b := by
        rintro rfl
        exact hother (hpage.trans (h.page_flip hb hdepth))
      have hjb : j ≠ b := by
        rintro rfl
        exact hother (hpage.trans (by rw [hbmod]))
      rw [hsplit.page i hi, hsplit.page j hj, hsplit.depth j hj, if_neg hpair.1, if_neg hjflip,
        if_neg (by simp [hjflip, hjb])]
      exact ⟨hpage, hdepths⟩
  · intro i j hi hj hpage
    rw [hsize] at hi hj
    rw [hsplit.page i hi, hsplit.page j hj] at hpage
    rw [hsplit.depth i hi]
    by_cases hiflip : i = flip l b
    · rw [if_pos hiflip] at hpage
      by_cases hjflip : j = flip l b
      · rw [hiflip, hjflip]
        exact Agree.refl _ _
      · rw [if_neg hjflip] at hpage
        exact absurd hpage.symm (hnew _ (hold j).1)
    · rw [if_neg hiflip] at hpage
      by_cases hjflip : j = flip l b
      · rw [if_pos hjflip] at hpage
        exact absurd hpage (hnew _ (hold i).1)
      · rw [if_neg hjflip] at hpage
        by_cases hib : i = b
        · have hjb : j = b := by
            by_contra hne
            refine h.page_ne_of_ne hb hdepth hlag hj hne hjflip ?_
            rw [← hpage, hib, hbmod]
          rw [hib, hjb]
          exact Agree.refl _ _
        · rw [if_neg (by simp [hiflip, hib])]
          have hagree := h.apart _ _ (hold i).1 (hold j).1 hpage
          exact ((agree_mod (hold i).2.2 i).symm.trans hagree).trans (agree_mod (hold i).2.2 j)

end Split

/-! ## Merging and shrinking -/

/-- The buckets of `i` and its split image are merged into that of the image. -/
structure MergeOf (d final : DirectoryPage) (i l : Nat) : Prop where
  globalDepth : final.globalDepth = d.globalDepth
  page : ∀ j, j < d.size → final.bucketPageIds j =
    if Agree l j i then d.bucketPageIds (flip l i) else d.bucketPageIds j
  depth : ∀ j, j < d.size → final.localDepths j = if Agree l j i then l else d.localDepths j

/-- Entries that agree with neither of the merged ones on their low bits are not touched. -/
theorem WellFormed.page_ne_of_not_agree (h : d.WellFormed) (hi : i < d.size)
    (hdepth : d.localDepths i = l + 1) (hj : j < d.size) (hnot : ¬ Agree l j i) :
    d.bucketPageIds j ≠ d.bucketPageIds i := by
  intro hpage
  have hagree := h.apart i j hi hj hpage.symm
  rw [hdepth] at hagree
  exact hnot (hagree.mono (Nat.le_succ l)).symm

theorem flip_lt_size (h : d.WellFormed) (hi : i < d.size) (hdepth : d.localDepths i = l + 1) :
    flip l i < d.size :=
  lt_of_lt_of_le (flip_lt l i) (Nat.pow_le_pow_right (by decide) (hdepth ▸ h.depth_le i hi))

theorem WellFormed.merge (h : d.WellFormed) (hi : i < d.size) (hdepth : d.localDepths i = l + 1)
    (hpos : 0 < l) (himage : d.localDepths (flip l i) = l + 1) (hmerge : MergeOf d final i l) :
    final.WellFormed := by
  have hsize : final.size = d.size := by rw [size_eq, size_eq, hmerge.globalDepth]
  have hflip := flip_lt_size h hi hdepth
  have hle : l + 1 ≤ d.globalDepth := hdepth ▸ h.depth_le i hi
  -- an entry that is not merged leads to neither of the two buckets
  have hother : ∀ j, j < d.size → ¬ Agree l j i →
      d.bucketPageIds j ≠ d.bucketPageIds (flip l i) := by
    intro j hj hnot hpage
    have hagree := h.apart _ j hflip hj hpage.symm
    rw [himage] at hagree
    exact hnot ((hagree.mono (Nat.le_succ l)).symm.trans (agree_flip l i))
  -- and if it agrees on its own bits with another one, that one is not merged either
  have hstay : ∀ j k, j < d.size → k < d.size → ¬ Agree l j i →
      Agree (d.localDepths j) j k → ¬ Agree l k i := by
    intro j k hj hk hnot hagree hmerged
    have hpage := (h.agree j k hj hk hagree).1
    rcases agree_iff_succ.mp hmerged with hone | htwo
    · have hkpage := (h.agree i k hi hk (hdepth ▸ hone.symm)).1
      exact h.page_ne_of_not_agree hi hdepth hj hnot (hpage.trans hkpage.symm)
    · have hkpage := (h.agree _ k hflip hk (himage ▸ htwo.symm)).1
      exact hother j hj hnot (hpage.trans hkpage.symm)
  refine ⟨hsize ▸ h.size_le, ?_, ?_, ?_, ?_⟩
  · intro j hj
    rw [hmerge.depth j (hsize ▸ hj)]
    split
    · exact hpos
    · exact h.depth_pos j (hsize ▸ hj)
  · intro j hj
    rw [hmerge.depth j (hsize ▸ hj), hmerge.globalDepth]
    split
    · omega
    · exact h.depth_le j (hsize ▸ hj)
  · intro j k hj hk hagree
    rw [hsize] at hj hk
    rw [hmerge.depth j hj] at hagree ⊢
    rw [hmerge.page j hj, hmerge.page k hk, hmerge.depth k hk]
    by_cases hmerged : Agree l j i
    · rw [if_pos hmerged] at hagree
      have hkmerged : Agree l k i := hagree.symm.trans hmerged
      simp only [if_pos hmerged, if_pos hkmerged, and_self]
    · rw [if_neg hmerged] at hagree
      have hkstay := hstay j k hj hk hmerged hagree
      simp only [if_neg hmerged, if_neg hkstay]
      exact h.agree j k hj hk hagree
  · intro j k hj hk hpage
    rw [hsize] at hj hk
    rw [hmerge.page j hj, hmerge.page k hk] at hpage
    rw [hmerge.depth j hj]
    by_cases hmerged : Agree l j i
    · rw [if_pos hmerged] at hpage ⊢
      by_cases hkmerged : Agree l k i
      · exact hmerged.trans hkmerged.symm
      · rw [if_neg hkmerged] at hpage
        exact absurd hpage.symm (hother k hk hkmerged)
    · rw [if_neg hmerged] at hpage ⊢
      by_cases hkmerged : Agree l k i
      · rw [if_pos hkmerged] at hpage
        exact absurd hpage (hother j hj hmerged)
      · rw [if_neg hkmerged] at hpage
        exact h.apart j k hj hk hpage

theorem canShrink_iff (d : DirectoryPage) :
    d.canShrink ↔ ∀ i, i < d.size → d.localDepths i ≠ d.globalDepth := by
  simp [canShrink]

theorem WellFormed.decrGlobalDepth (h : d.WellFormed) (hshrink : d.canShrink) :
    d.decrGlobalDepth.WellFormed := by
  have hcan := (canShrink_iff d).mp hshrink
  have hzero : 0 < d.size := Nat.two_pow_pos _
  have hle : d.decrGlobalDepth.size ≤ d.size := Nat.pow_le_pow_right (by decide) (Nat.sub_le _ _)
  refine ⟨le_trans hle h.size_le, ?_, ?_, ?_, ?_⟩
  · exact fun i hi => h.depth_pos i (lt_of_lt_of_le hi hle)
  · intro i hi
    have hlt := lt_of_lt_of_le hi hle
    have hdepth := h.depth_le i hlt
    have hne := hcan i hlt
    change d.localDepths i ≤ d.globalDepth - 1
    omega
  · exact fun i j hi hj => h.agree i j (lt_of_lt_of_le hi hle) (lt_of_lt_of_le hj hle)
  · exact fun i j hi hj => h.apart i j (lt_of_lt_of_le hi hle) (lt_of_lt_of_le hj hle)

end BusTub.DirectoryPage
