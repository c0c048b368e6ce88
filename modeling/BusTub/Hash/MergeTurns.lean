import BusTub.Hash.TableRuns

/-! # The turns of a merge

`Merge` looks at the entries of the directory in order, up to the size that the
directory has by then. From every well-formed directory whose buckets have only
pairs that belong there it ends, leaves such a directory, and every lookup returns
what it returned before.
-/

namespace BusTub

/-! ## Pages without pairs of a key -/

namespace BucketPage

variable {K V : Type} {s : KeyScheme K} {size : Nat} {p : BucketPage K V} {key : K}

theorem not_isReadable_of_isEmpty (hempty : p.isEmpty size) {i : Nat} (hi : i < size) :
    ¬ p.isReadable i := by
  intro hread
  have hcount : p.numReadable size = 0 := of_decide_eq_true hempty
  unfold numReadable at hcount
  rw [Bitmap.popCount_eq, List.countP_eq_zero] at hcount
  have hlt : i < 8 * getNumofChars size := by
    unfold getNumofChars
    omega
  refine hcount i (List.mem_range.mpr hlt) ?_
  rw [← readBit_eq]
  exact hread

/-- Where no entry that can be read has the key, the result stays as it is. -/
theorem getValueLoop_of_forall_ne (entries : List Nat) (result : List V)
    (hnone : ∀ i ∈ entries, p.isReadable i → s.cmp key (p.keyAt i) ≠ 0) :
    getValueLoop s p key entries result = result := by
  induction entries with
  | nil => rfl
  | cons i rest ih =>
      have hrest := ih fun j hj => hnone j (List.mem_cons_of_mem i hj)
      unfold getValueLoop
      by_cases hread : p.isReadable i
      · rw [if_neg (not_not.mpr hread), if_neg (hnone i List.mem_cons_self hread), hrest]
      · rw [if_pos hread, hrest, ite_self]

theorem getValue_of_forall_ne
    (hnone : ∀ i, i < size → p.isReadable i → s.cmp key (p.keyAt i) ≠ 0) :
    p.getValue s size key [] = (false, []) := by
  unfold getValue
  rw [getValueLoop_of_forall_ne _ _ fun i hi => hnone i (List.mem_range.mp hi)]
  rfl

end BucketPage

namespace ExtendibleHashTable

open LowBits DirectoryPage BucketPage

variable {K V : Type} {c : TableConfig K V} {t : ExtendibleHashTable K V} {i l : Nat} {key : K}

/-! ## One turn -/

/-- The directory after the test for shrinking that ends a turn. -/
def shrinkOnce (d : DirectoryPage) : DirectoryPage := if d.canShrink then d.decrGlobalDepth else d

theorem size_shrinkOnce_le (d : DirectoryPage) : (shrinkOnce d).size ≤ d.size := by
  unfold shrinkOnce
  split
  · exact Nat.pow_le_pow_right (by decide) (Nat.sub_le _ _)
  · exact le_refl _

theorem WellFormed.shrinkOnce {d : DirectoryPage} (h : d.WellFormed) :
    (shrinkOnce d).WellFormed := by
  unfold ExtendibleHashTable.shrinkOnce
  split
  next hshrink => exact h.decrGlobalDepth hshrink
  next => exact h

/-- What a turn does: an empty bucket of a local depth above one is merged with its
split image if that has the same local depth. -/
inductive Turn (c : TableConfig K V) (t : ExtendibleHashTable K V) (i : Nat) :
    DirectoryPage → Prop where
  /-- The bucket is not empty or its local depth is one. -/
  | skip (hskip : ¬ (1 < t.directory.localDepths i ∧
      (t.buckets (t.directory.bucketPageIds i)).isEmpty c.bucketArraySize)) :
      Turn c t i t.directory
  /-- The split image has another local depth. -/
  | apart (l : Nat) (hdepth : t.directory.localDepths i = l + 1) (hpos : 0 < l)
      (hempty : (t.buckets (t.directory.bucketPageIds i)).isEmpty c.bucketArraySize)
      (himage : t.directory.localDepths (flip l i) ≠ l + 1) :
      Turn c t i (shrinkOnce t.directory)
  | merge (l : Nat) (d : DirectoryPage) (hdepth : t.directory.localDepths i = l + 1)
      (hpos : 0 < l)
      (hempty : (t.buckets (t.directory.bucketPageIds i)).isEmpty c.bucketArraySize)
      (himage : t.directory.localDepths (flip l i) = l + 1) (hmerge : MergeOf t.directory d i l) :
      Turn c t i (shrinkOnce d)

/-- A turn writes to the directory alone. -/
theorem mergeTurn_spec (h : t.directory.WellFormed) (hi : i < t.directory.size) :
    ∃ d, t.mergeTurn c i = { t with directory := d } ∧ Turn c t i d := by
  unfold mergeTurn getLocalDepth getBucketPageId
  dsimp only
  by_cases hmerge : 1 < t.directory.localDepths i ∧
      (t.buckets (t.directory.bucketPageIds i)).isEmpty c.bucketArraySize
  · rw [if_pos hmerge]
    obtain ⟨hdeep, hempty⟩ := hmerge
    obtain ⟨l, hl⟩ : ∃ l, t.directory.localDepths i = l + 1 := Nat.exists_eq_add_of_lt
      (lt_trans Nat.zero_lt_one hdeep) |>.imp fun _ heq => by simpa using heq
    have hpos : 0 < l := by omega
    rw [getSplitImageIndex_eq _ i hl, hl]
    by_cases himage : t.directory.localDepths (flip l i) = l + 1
    · rw [if_pos himage]
      exact ⟨_, rfl, .merge l _ hl hpos hempty himage (mergeOf_mergePair h hi hl himage)⟩
    · rw [if_neg himage]
      exact ⟨_, rfl, .apart l hl hpos hempty himage⟩
  · rw [if_neg hmerge]
    exact ⟨_, rfl, .skip hmerge⟩

theorem Turn.wellFormed {d : DirectoryPage} (hturn : Turn c t i d) (h : t.directory.WellFormed)
    (hi : i < t.directory.size) : d.WellFormed := by
  cases hturn with
  | skip => exact h
  | apart => exact WellFormed.shrinkOnce h
  | merge l d hdepth hpos hempty himage hmerge =>
      exact WellFormed.shrinkOnce (h.merge hi hdepth hpos himage hmerge)

theorem Turn.size_le {d : DirectoryPage} (hturn : Turn c t i d) : d.size ≤ t.directory.size := by
  cases hturn with
  | skip => exact le_refl _
  | apart => exact size_shrinkOnce_le _
  | merge l d hdepth hpos hempty himage hmerge =>
      have hsame : d.size = t.directory.size := by rw [size_eq, size_eq, hmerge.globalDepth]
      exact hsame ▸ size_shrinkOnce_le d

/-! ## The loop -/

/-- The table after the first `n` turns. -/
def afterTurns (c : TableConfig K V) (t : ExtendibleHashTable K V) (n : Nat) :
    ExtendibleHashTable K V :=
  (List.range n).foldl (mergeTurn c) t

theorem afterTurns_succ (c : TableConfig K V) (t : ExtendibleHashTable K V) (n : Nat) :
    afterTurns c t (n + 1) = (afterTurns c t n).mergeTurn c n := by
  unfold afterTurns
  rw [List.range_succ, List.foldl_append, List.foldl_cons, List.foldl_nil]

/-- `n` turns are made, each below the size of the directory, and the next would not be. -/
def EndsAfter (c : TableConfig K V) (t : ExtendibleHashTable K V) (n : Nat) : Prop :=
  (∀ k, k < n → k < (afterTurns c t k).directory.size) ∧ (afterTurns c t n).directory.size ≤ n

theorem EndsAfter.unique {m n : Nat} (hm : EndsAfter c t m) (hn : EndsAfter c t n) : m = n := by
  rcases Nat.lt_trichotomy m n with hlt | heq | hlt
  · exact absurd (hn.1 m hlt) (Nat.not_lt.mpr hm.2)
  · exact heq
  · exact absurd (hm.1 n hlt) (Nat.not_lt.mpr hn.2)

theorem wellFormed_afterTurns (h : t.directory.WellFormed) (n : Nat)
    (hbefore : ∀ k, k < n → k < (afterTurns c t k).directory.size) :
    (afterTurns c t n).directory.WellFormed := by
  induction n with
  | zero => exact h
  | succ n ih =>
      have hwell := ih fun k hk => hbefore k (Nat.lt_succ_of_lt hk)
      obtain ⟨d, hd, hturn⟩ := mergeTurn_spec (c := c) hwell (hbefore n (Nat.lt_succ_self n))
      rw [afterTurns_succ, hd]
      exact hturn.wellFormed hwell (hbefore n (Nat.lt_succ_self n))

/-- No turn enlarges the directory, so that its size is fuel enough. -/
theorem mergeLoop_endsAfter (h : t.directory.WellFormed) (fuel n : Nat)
    (hfuel : (afterTurns c t n).directory.size ≤ n + fuel)
    (hbefore : ∀ k, k < n → k < (afterTurns c t k).directory.size) :
    ∃ m, EndsAfter c t m ∧ mergeLoop c fuel n (afterTurns c t n) = afterTurns c t m := by
  induction fuel generalizing n with
  | zero => exact ⟨n, ⟨hbefore, hfuel⟩, rfl⟩
  | succ fuel ih =>
      unfold mergeLoop
      by_cases hend : n ≥ (afterTurns c t n).directory.size
      · rw [if_pos hend]
        exact ⟨n, ⟨hbefore, hend⟩, rfl⟩
      · rw [if_neg hend, ← afterTurns_succ]
        have hlt : n < (afterTurns c t n).directory.size := Nat.lt_of_not_le hend
        obtain ⟨d, hd, hturn⟩ := mergeTurn_spec (c := c) (wellFormed_afterTurns h n hbefore) hlt
        have hsize : (afterTurns c t (n + 1)).directory.size ≤ (afterTurns c t n).directory.size := by
          rw [afterTurns_succ, hd]
          exact hturn.size_le
        refine ih (n + 1) (by omega) ?_
        intro k hk
        rcases Nat.lt_succ_iff_lt_or_eq.mp hk with hkn | rfl
        · exact hbefore k hkn
        · exact hlt

/-- `Merge` ends, and it is the turns that it makes. -/
theorem merge_endsAfter (h : t.directory.WellFormed) :
    ∃ n, EndsAfter c t n ∧ t.merge c = afterTurns c t n :=
  mergeLoop_endsAfter h t.directory.size 0 (by rw [Nat.zero_add]; exact le_refl _)
    fun _ hk => absurd hk (Nat.not_lt_zero _)

/-! ## What belongs in a bucket -/

/-- The directory is well formed, and every pair is in the bucket that its hash selects. -/
structure Placed (c : TableConfig K V) (t : ExtendibleHashTable K V) : Prop where
  directory : t.directory.WellFormed
  placed : ∀ i slot, i < t.directory.size → slot < c.bucketArraySize →
    (t.buckets (t.directory.bucketPageIds i)).isReadable slot →
    Agree (t.directory.localDepths i)
      (c.hash ((t.buckets (t.directory.bucketPageIds i)).keyAt slot)) i

/-- What a change of the directory keeps. -/
structure KeepsLookups (c : TableConfig K V) (t : ExtendibleHashTable K V) (d : DirectoryPage) :
    Prop where
  placed : Placed c { t with directory := d }
  getValue : ∀ key, getValue c { t with directory := d } key = t.getValue c key

/-- The bucket at the merged entries has no pair of a key of the empty bucket. -/
theorem Placed.getValue_image (h : Placed c t) (hi : i < t.directory.size)
    (hdepth : t.directory.localDepths i = l + 1)
    (himage : t.directory.localDepths (flip l i) = l + 1) (hkey : Agree (l + 1) (c.hash key) i) :
    (t.buckets (t.directory.bucketPageIds (flip l i))).getValue c.scheme c.bucketArraySize key [] =
      (false, []) := by
  refine getValue_of_forall_ne fun slot hslot hread hcmp => ?_
  have hplaced := h.placed _ slot (flip_lt_size h.directory hi hdepth) hslot hread
  rw [himage, ← c.hash_eq hcmp] at hplaced
  exact not_agree_flip l i (hplaced.symm.trans hkey)

theorem Placed.merge (h : Placed c t) (hi : i < t.directory.size)
    (hdepth : t.directory.localDepths i = l + 1) (hpos : 0 < l)
    (hempty : (t.buckets (t.directory.bucketPageIds i)).isEmpty c.bucketArraySize)
    (himage : t.directory.localDepths (flip l i) = l + 1) {d : DirectoryPage}
    (hmerge : MergeOf t.directory d i l) : KeepsLookups c t d := by
  have hsize : d.size = t.directory.size := by rw [size_eq, size_eq, hmerge.globalDepth]
  have hflip := flip_lt_size h.directory hi hdepth
  have hle : l + 1 ≤ t.directory.globalDepth := hdepth ▸ h.directory.depth_le i hi
  refine ⟨⟨h.directory.merge hi hdepth hpos himage hmerge, ?_⟩, ?_⟩
  · intro j slot hj hslot hread
    dsimp only at hj hread ⊢
    rw [hsize] at hj
    rw [hmerge.page j hj] at hread ⊢
    rw [hmerge.depth j hj]
    by_cases hmerged : Agree l j i
    · rw [if_pos hmerged] at hread ⊢
      rw [if_pos hmerged]
      have hplaced := h.placed _ slot hflip hslot hread
      rw [himage] at hplaced
      exact ((hplaced.mono (Nat.le_succ l)).trans (agree_flip l i)).trans hmerged.symm
    · rw [if_neg hmerged] at hread ⊢
      rw [if_neg hmerged]
      exact h.placed j slot hj hslot hread
  · intro key
    have hindex : keyToDirectoryIndex c key d = keyToDirectoryIndex c key t.directory := by
      rw [keyToDirectoryIndex_eq, keyToDirectoryIndex_eq, hsize]
    have hlt := keyToDirectoryIndex_lt (c := c) key t.directory
    have hhash := agree_keyToDirectoryIndex (c := c) (t := t) hle key
    unfold ExtendibleHashTable.getValue keyToPageId getBucketPageId
    dsimp only
    rw [hindex, hmerge.page _ hlt]
    by_cases hmerged : Agree l (keyToDirectoryIndex c key t.directory) i
    · rw [if_pos hmerged]
      rcases agree_iff_succ.mp hmerged with hown | hother
      · -- a key of the empty bucket is in neither of the two
        have hpage := (h.directory.agree i _ hi hlt (hdepth ▸ hown.symm)).1
        rw [h.getValue_image hi hdepth himage (hhash.symm.trans hown), ← hpage]
        refine (getValue_of_forall_ne fun slot hslot hread => ?_).symm
        exact absurd hread (not_isReadable_of_isEmpty hempty hslot)
      · rw [(h.directory.agree _ _ hflip hlt (himage ▸ hother.symm)).1]
    · rw [if_neg hmerged]

theorem Placed.shrink (h : Placed c t) : KeepsLookups c t (shrinkOnce t.directory) := by
  unfold shrinkOnce
  split
  next hshrink =>
    have hle : t.directory.decrGlobalDepth.size ≤ t.directory.size :=
      Nat.pow_le_pow_right (by decide) (Nat.sub_le _ _)
    refine ⟨⟨h.directory.decrGlobalDepth hshrink, ?_⟩, ?_⟩
    · exact fun j slot hj => h.placed j slot (lt_of_lt_of_le hj hle)
    · intro key
      have hlt := keyToDirectoryIndex_lt (c := c) key t.directory
      have hlt' := lt_of_lt_of_le
        (keyToDirectoryIndex_lt (c := c) key t.directory.decrGlobalDepth) hle
      have hdepth := h.directory.depth_le _ hlt
      have hne := (canShrink_iff t.directory).mp hshrink _ hlt
      have hhash := agree_keyToDirectoryIndex (c := c) (t := t) hdepth key
      have hshort := agree_keyToDirectoryIndex (c := c)
        (t := { t with directory := t.directory.decrGlobalDepth })
        (show t.directory.localDepths (keyToDirectoryIndex c key t.directory) ≤
          t.directory.globalDepth - 1 by omega) key
      have hpage := (h.directory.agree _ _ hlt hlt' (hhash.trans hshort.symm)).1
      unfold ExtendibleHashTable.getValue keyToPageId getBucketPageId
      dsimp only
      rw [hpage]
      rfl
  next => exact ⟨h, fun _ => rfl⟩

/-- A turn keeps what belongs in a bucket and what every lookup returns. -/
theorem Placed.turn (h : Placed c t) (hi : i < t.directory.size) {d : DirectoryPage}
    (hturn : Turn c t i d) : KeepsLookups c t d := by
  cases hturn with
  | skip => exact ⟨h, fun _ => rfl⟩
  | apart => exact h.shrink
  | merge l d hdepth hpos hempty himage hmerge =>
      have hmerged := h.merge hi hdepth hpos hempty himage hmerge
      have hshrunk := hmerged.placed.shrink
      exact ⟨hshrunk.placed, fun key => (hshrunk.getValue key).trans (hmerged.getValue key)⟩

theorem Placed.mergeTurn (h : Placed c t) (hi : i < t.directory.size) :
    Placed c (t.mergeTurn c i) ∧ ∀ key, (t.mergeTurn c i).getValue c key = t.getValue c key := by
  obtain ⟨d, hd, hturn⟩ := mergeTurn_spec (c := c) h.directory hi
  have hkeeps := h.turn hi hturn
  rw [hd]
  exact ⟨hkeeps.placed, hkeeps.getValue⟩

/-- The turns below the size of the directory, one after the other. -/
theorem Placed.afterTurns (h : Placed c t) (n : Nat)
    (hbefore : ∀ k, k < n → k < (afterTurns c t k).directory.size) :
    Placed c (afterTurns c t n) ∧
      ∀ key, (afterTurns c t n).getValue c key = t.getValue c key := by
  induction n with
  | zero => exact ⟨h, fun _ => rfl⟩
  | succ n ih =>
      obtain ⟨hplaced, hsame⟩ := ih fun k hk => hbefore k (Nat.lt_succ_of_lt hk)
      obtain ⟨hnext, hturn⟩ := hplaced.mergeTurn (hbefore n (Nat.lt_succ_self n))
      rw [afterTurns_succ]
      exact ⟨hnext, fun key => (hturn key).trans (hsame key)⟩

/-- `Merge` ends with a well-formed directory, every pair in the bucket that its hash
selects, and every lookup returns what it returned before. -/
theorem merge_keepsLookups (h : Placed c t) :
    (∃ n, EndsAfter c t n ∧ t.merge c = afterTurns c t n) ∧ Placed c (t.merge c) ∧
      ∀ key, (t.merge c).getValue c key = t.getValue c key := by
  obtain ⟨n, hends, hmerge⟩ := merge_endsAfter (c := c) h.directory
  obtain ⟨hplaced, hsame⟩ := h.afterTurns n hends.1
  refine ⟨⟨n, hends, hmerge⟩, ?_⟩
  rw [hmerge]
  exact ⟨hplaced, hsame⟩

/-- Four buckets, of which the one of the hashes that end in `000` has a pair and the
others are empty: that of `100` is its split image, that of `10` comes before it. -/
def passedTable : ExtendibleHashTable Int Int where
  directory :=
    { globalDepth := 3
      localDepths := fun i => if i % 2 = 1 then 1 else if i % 4 = 2 then 2 else 3
      bucketPageIds := fun i =>
        if i % 2 = 1 then 4 else if i % 4 = 2 then 3 else if i % 8 = 4 then 2 else 1 }
  buckets := fun pageId =>
    if pageId = 1 then
      ((zeroed intTable.zero).insert intTable.scheme intTable.bucketArraySize 0 0).2
    else zeroed intTable.zero
  nextPageId := 5

theorem wellFormed_passedTable : passedTable.directory.WellFormed := by decide +kernel

/-- The key `0` is the only one, and its hash ends in `000`. -/
theorem placed_passedTable : Placed intTable passedTable := by
  have habsent : ¬ (zeroed intTable.zero).Holds intTable.scheme 0 0 := not_holds_zeroed _
  obtain ⟨page, hinsert, -, hpairs, -⟩ := insert_of_not_holds
    (wellFormed_zeroed intTable.zero) intTable.bucketArraySize_pos (by decide +kernel) habsent
  have hpage : ((zeroed intTable.zero).insert intTable.scheme intTable.bucketArraySize 0 0).2 =
      page := congrArg Prod.snd hinsert
  refine ⟨wellFormed_passedTable, fun i slot hi _ hread => ?_⟩
  have hbuckets : ∀ pageId, passedTable.buckets pageId =
      if pageId = 1 then page else zeroed intTable.zero := fun pageId => by
    unfold passedTable
    dsimp only
    rw [hpage]
  rw [hbuckets] at hread ⊢
  split at hread
  next hfirst =>
    rw [if_pos hfirst]
    have hzero : i = 0 :=
      (show ∀ i < 8, passedTable.directory.bucketPageIds i = 1 → i = 0 by decide) i hi hfirst
    rcases (hpairs _ _).mp ⟨slot, hread, intTable.scheme.equality.refl _, rfl⟩ with
      hholds | ⟨hcmp, -⟩
    · exact absurd hholds (not_holds_zeroed _)
    · rw [intTable.hash_eq hcmp, hzero]
      decide
  next => simp at hread

theorem merge_keepsLookups_passedTable :
    (∃ n, EndsAfter intTable passedTable n ∧
      passedTable.merge intTable = afterTurns intTable passedTable n) ∧
    Placed intTable (passedTable.merge intTable) ∧
    ∀ key, (passedTable.merge intTable).getValue intTable key =
      passedTable.getValue intTable key :=
  merge_keepsLookups placed_passedTable

end ExtendibleHashTable

end BusTub
