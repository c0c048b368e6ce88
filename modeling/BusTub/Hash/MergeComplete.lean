import BusTub.Hash.MergeTurns
import BusTub.Library.PrefixPartition

/-! # Which empty buckets a merge leaves

The directory divides the hashes into the buckets, and the loop of `Merge` is a scan
that joins empty buckets with their split images. It passes every entry once, so that
a bucket that is empty can be left next to a split image of its own local depth, if
that has got its depth after the scan had passed the bucket. Whether that happens can
be told from the local depths and from which buckets are empty before.
-/

namespace BusTub.ExtendibleHashTable

open LowBits DirectoryPage BucketPage

variable {K V : Type} {c : TableConfig K V} {t : ExtendibleHashTable K V} {i l n : Nat}
  {P : Partition}

/-- The bucket of the entry is empty, and its split image has the same local depth,
which is above one. -/
def Mergeable (c : TableConfig K V) (t : ExtendibleHashTable K V) (i : Nat) : Prop :=
  (t.buckets (t.directory.getBucketPageId i)).isEmpty c.bucketArraySize ∧
    1 < t.directory.getLocalDepth i ∧
    t.directory.getLocalDepth (t.directory.getSplitImageIndex i) = t.directory.getLocalDepth i

/-- The local depth of the bucket that a hash leads to. -/
def depthAt (d : DirectoryPage) (hash : Nat) : Nat := d.localDepths (hash % d.size)

/-- Whether the bucket that a hash leads to is empty. -/
def emptyAt (c : TableConfig K V) (t : ExtendibleHashTable K V) (hash : Nat) : Bool :=
  (t.buckets (t.directory.bucketPageIds (hash % t.directory.size))).isEmpty c.bucketArraySize

theorem agree_mod_size {d : DirectoryPage} (h : d.WellFormed) {j k : Nat}
    (hagree : Agree (depthAt d j) j k) :
    Agree (d.localDepths (j % d.size)) (j % d.size) (k % d.size) := by
  have hle := h.depth_le _ (mod_size_lt d j)
  exact ((agree_mod hle j).trans hagree).trans (agree_mod hle k).symm

/-- The buckets as cells of hashes. -/
def partitionOf (c : TableConfig K V) (t : ExtendibleHashTable K V)
    (h : t.directory.WellFormed) : Partition where
  depth := depthAt t.directory
  empty := emptyAt c t
  height := t.directory.globalDepth
  depth_pos j := h.depth_pos _ (mod_size_lt _ j)
  depth_le j := h.depth_le _ (mod_size_lt _ j)
  same j k hagree := by
    obtain ⟨hpage, hdepth⟩ := h.agree _ _ (mod_size_lt _ j) (mod_size_lt _ k)
      (agree_mod_size h hagree)
    unfold depthAt emptyAt
    rw [hpage, hdepth]
    exact ⟨rfl, rfl⟩

/-! ## The merge as a scan -/

/-- The partition is that of the table. -/
structure Cells (c : TableConfig K V) (t : ExtendibleHashTable K V) (P : Partition) : Prop where
  directory : t.directory.WellFormed
  depth : ∀ j, P.depth j = depthAt t.directory j
  empty : ∀ j, P.empty j = emptyAt c t j

theorem Cells.of_lt (h : Cells c t P) (hi : i < t.directory.size) :
    P.depth i = t.directory.localDepths i ∧
      P.empty i = (t.buckets (t.directory.bucketPageIds i)).isEmpty c.bucketArraySize := by
  rw [h.depth, h.empty]
  unfold depthAt emptyAt
  rw [Nat.mod_eq_of_lt hi]
  exact ⟨rfl, rfl⟩

/-- Shrinking leads every hash to the bucket that it led to before. -/
theorem Cells.shrink (h : Cells c t P) :
    Cells c { t with directory := shrinkOnce t.directory } P := by
  unfold shrinkOnce
  split
  next hshrink =>
    refine ⟨h.directory.decrGlobalDepth hshrink, fun j => ?_, fun j => ?_⟩
    all_goals
      have hle : t.directory.decrGlobalDepth.size ≤ t.directory.size :=
        Nat.pow_le_pow_right (by decide) (Nat.sub_le _ _)
      have hdepth := h.directory.depth_le _ (mod_size_lt t.directory j)
      have hne := (canShrink_iff t.directory).mp hshrink _ (mod_size_lt t.directory j)
      have hshort : Agree (t.directory.localDepths (j % t.directory.size))
          (j % t.directory.decrGlobalDepth.size) j :=
        agree_mod (m := t.directory.globalDepth - 1) (by omega) j
      obtain ⟨hpage, hsame⟩ := h.directory.agree _ _ (mod_size_lt _ j)
        (lt_of_lt_of_le (mod_size_lt t.directory.decrGlobalDepth j) hle)
        ((agree_mod hdepth j).trans hshort.symm)
    · rw [h.depth]
      exact hsame
    · rw [h.empty]
      unfold emptyAt
      rw [hpage]
      rfl
  next => exact h

theorem Cells.merge (h : Cells c t P) (hi : i < t.directory.size)
    (hdepth : t.directory.localDepths i = l + 1) (hpos : 0 < l)
    (hempty : (t.buckets (t.directory.bucketPageIds i)).isEmpty c.bucketArraySize)
    (himage : t.directory.localDepths (flip l i) = l + 1) {d : DirectoryPage}
    (hmerge : MergeOf t.directory d i l) : Cells c { t with directory := d } (P.turn i) := by
  have hflip := flip_lt_size h.directory hi hdepth
  have hsize : d.size = t.directory.size := by rw [size_eq, size_eq, hmerge.globalDepth]
  have hle : l + 1 ≤ t.directory.globalDepth := hdepth ▸ h.directory.depth_le i hi
  have hself := (h.of_lt hi).1.trans hdepth
  have hjoinable : P.Joinable i := (Partition.joinable_iff hself).mpr
    ⟨hpos, (h.of_lt hi).2.trans hempty, (h.of_lt hflip).1.trans himage⟩
  have hlow : ∀ j, Agree l (j % t.directory.size) i ↔ Agree l j i := fun j =>
    have hmod : Agree l (j % t.directory.size) j := agree_mod (Nat.le_of_succ_le hle) j
    ⟨fun hagree => hmod.symm.trans hagree, fun hagree => hmod.trans hagree⟩
  refine ⟨h.directory.merge hi hdepth hpos himage hmerge, fun j => ?_, fun j => ?_⟩
  · rw [(Partition.turn_of_joinable hjoinable hself j).1]
    unfold depthAt
    dsimp only
    rw [hsize, hmerge.depth _ (mod_size_lt _ j)]
    simp only [hlow, h.depth, depthAt]
  · rw [(Partition.turn_of_joinable hjoinable hself j).2]
    unfold emptyAt
    dsimp only
    rw [hsize, hmerge.page _ (mod_size_lt _ j)]
    simp only [hlow, (h.of_lt hflip).2, h.empty, emptyAt]
    split <;> rfl

/-- The partition is that of the table, and the directory is no larger than it has to be. -/
structure TightCells (c : TableConfig K V) (t : ExtendibleHashTable K V) (P : Partition) :
    Prop where
  cells : Cells c t P
  tight : t.directory.canShrink = false

theorem exists_deepest {d : DirectoryPage} (htight : d.canShrink = false) :
    ∃ j, j < d.size ∧ d.localDepths j = d.globalDepth := by
  have hnot : ¬ d.canShrink = true := by
    rw [htight]
    nofun
  rw [canShrink_iff] at hnot
  simpa using hnot

theorem canShrink_eq_false {d : DirectoryPage} {j : Nat} (hj : j < d.size)
    (hdepth : d.localDepths j = d.globalDepth) : d.canShrink = false := by
  rw [Bool.eq_false_iff, ne_eq, canShrink_iff]
  exact fun hall => hall j hj hdepth

/-- One halving is enough after a merge. -/
theorem tight_of_merge (h : t.directory.WellFormed) (htight : t.directory.canShrink = false)
    (hi : i < t.directory.size) (hdepth : t.directory.localDepths i = l + 1)
    (himage : t.directory.localDepths (flip l i) = l + 1) {d : DirectoryPage}
    (hmerge : MergeOf t.directory d i l) : (shrinkOnce d).canShrink = false := by
  unfold shrinkOnce
  split
  next hshrink =>
    obtain ⟨j, hj, hdeepest⟩ := exists_deepest htight
    have hsize : d.size = t.directory.size := by rw [size_eq, size_eq, hmerge.globalDepth]
    have hflip := flip_lt_size h hi hdepth
    -- the deepest bucket was one of the merged ones
    have hne := (canShrink_iff d).mp hshrink j (hsize ▸ hj)
    rw [hmerge.depth j hj, hmerge.globalDepth] at hne
    by_cases hjoined : Agree l j i
    · have hdeep : t.directory.localDepths j = l + 1 := by
        rcases agree_iff_succ.mp hjoined with hown | hother
        · exact (h.agree i j hi hj (hdepth ▸ hown.symm)).2.symm.trans hdepth
        · exact (h.agree _ j hflip hj (himage ▸ hother.symm)).2.symm.trans himage
      have hglobal : d.decrGlobalDepth.globalDepth = l := by
        change d.globalDepth - 1 = l
        rw [hmerge.globalDepth, ← hdeepest, hdeep, Nat.add_sub_cancel]
      have hlt : j % 2 ^ l < t.directory.size := by
        refine lt_of_le_of_lt (Nat.mod_le _ _) hj
      refine canShrink_eq_false (j := j % 2 ^ l) ?_ ?_
      · rw [size_eq, hglobal]
        exact Nat.mod_lt _ (Nat.two_pow_pos l)
      · have hlow : Agree l (j % 2 ^ l) i := (agree_mod (le_refl l) j).trans hjoined
        rw [hglobal]
        refine (hmerge.depth _ hlt).trans ?_
        rw [if_pos hlow]
    · rw [if_neg hjoined] at hne
      exact absurd hdeepest hne
  next hshrink => exact Bool.eq_false_iff.mpr hshrink

theorem TightCells.turn (h : TightCells c t P) (hi : i < t.directory.size) :
    TightCells c (t.mergeTurn c i) (P.turn i) := by
  obtain ⟨hcells, htight⟩ := h
  obtain ⟨d, hd, hturn⟩ := mergeTurn_spec (c := c) hcells.directory hi
  rw [hd]
  cases hturn with
  | skip hskip =>
      have hnot : ¬ P.Joinable i := by
        rintro ⟨hdeep, hempty, -⟩
        rw [(hcells.of_lt hi).1] at hdeep
        rw [(hcells.of_lt hi).2] at hempty
        exact hskip ⟨hdeep, hempty⟩
      rw [Partition.turn_of_not hnot]
      exact ⟨hcells, htight⟩
  | apart l hdepth hpos hempty himage =>
      have hself := (hcells.of_lt hi).1.trans hdepth
      have hnot : ¬ P.Joinable i := by
        rw [Partition.joinable_iff hself]
        rintro ⟨-, -, hjoin⟩
        rw [(hcells.of_lt (flip_lt_size hcells.directory hi hdepth)).1] at hjoin
        exact himage hjoin
      have hsame : shrinkOnce t.directory = t.directory := by
        unfold shrinkOnce
        rw [htight]
        rfl
      rw [Partition.turn_of_not hnot, hsame]
      exact ⟨hcells, htight⟩
  | merge l d hdepth hpos hempty himage hmerge =>
      exact ⟨(hcells.merge hi hdepth hpos hempty himage hmerge).shrink,
        tight_of_merge hcells.directory htight hi hdepth himage hmerge⟩

theorem TightCells.afterTurns (h : TightCells c t P) (n : Nat)
    (hbefore : ∀ k, k < n → k < (afterTurns c t k).directory.size) :
    TightCells c (afterTurns c t n) (P.afterTurns n) := by
  induction n with
  | zero => exact h
  | succ n ih =>
      have hmiddle := ih fun k hk => hbefore k (Nat.lt_succ_of_lt hk)
      rw [afterTurns_succ, Partition.afterTurns_succ]
      exact hmiddle.turn (hbefore n (Nat.lt_succ_self n))

/-- The size of the directory is that of its deepest bucket. -/
theorem TightCells.lt_size_iff (h : TightCells c t P) (n : Nat) :
    n < t.directory.size ↔ ∃ j, n < 2 ^ P.depth j := by
  constructor
  · intro hn
    obtain ⟨j, hj, hdeepest⟩ := exists_deepest h.tight
    refine ⟨j, ?_⟩
    rw [(h.cells.of_lt hj).1, hdeepest]
    exact hn
  · rintro ⟨j, hj⟩
    refine lt_of_lt_of_le hj ?_
    rw [h.cells.depth]
    exact Nat.pow_le_pow_right (by decide) (h.cells.directory.depth_le _ (mod_size_lt _ j))

theorem TightCells.endsAfter (h : TightCells c t P) (hends : EndsAfter c t n) :
    P.EndsAfter n := by
  constructor
  · intro k hk
    have hcells := h.afterTurns k fun k' hk' => hends.1 k' (lt_trans hk' hk)
    exact (hcells.lt_size_iff k).mp (hends.1 k hk)
  · intro hrunning
    have hcells := h.afterTurns n hends.1
    exact absurd ((hcells.lt_size_iff n).mpr hrunning) (Nat.not_lt.mpr hends.2)

/-- The entries that could be merged are the cells that could be joined. -/
theorem Cells.forall_not_mergeable_iff (h : Cells c t P) :
    (∀ i, i < t.directory.size → ¬ Mergeable c t i) ↔ ∀ i, ¬ P.Joinable i := by
  have hmergeable : ∀ i, i < t.directory.size → (Mergeable c t i ↔ P.Joinable i) := by
    intro i hi
    obtain ⟨l, hl⟩ : ∃ l, t.directory.localDepths i = l + 1 :=
      Nat.exists_eq_succ_of_ne_zero (h.directory.depth_pos i hi).ne'
    have hflip := flip_lt_size h.directory hi hl
    unfold Mergeable getLocalDepth getBucketPageId
    rw [getSplitImageIndex_eq _ i hl, Partition.joinable_iff ((h.of_lt hi).1.trans hl),
      (h.of_lt hi).2, (h.of_lt hflip).1, hl]
    constructor
    · rintro ⟨hempty, hdeep, himage⟩
      exact ⟨by omega, hempty, himage⟩
    · rintro ⟨hpos, hempty, himage⟩
      exact ⟨hempty, by omega, himage⟩
  constructor
  · intro hnone i hjoin
    have hlt := mod_size_lt t.directory i
    obtain ⟨l, hl, hdepth, hempty, himage⟩ := hjoin.exists_depth
    have hle : P.depth i ≤ t.directory.globalDepth := by
      rw [h.depth]
      exact h.directory.depth_le _ (mod_size_lt _ i)
    have hagree : Agree (l + 1) i (i % t.directory.size) :=
      (agree_mod (m := t.directory.globalDepth) (hdepth ▸ hle) i).symm
    obtain ⟨hdepth', hempty'⟩ := P.same i _ (hdepth ▸ hagree)
    refine hnone _ hlt ((hmergeable _ hlt).mpr ?_)
    refine (Partition.joinable_iff (hdepth'.trans hdepth)).mpr ⟨hl, hempty'.trans hempty, ?_⟩
    rw [← flip_congr hagree, himage]
  · exact fun hnone i hi hmerge => hnone i ((hmergeable i hi).mp hmerge)

/-- From a well-formed directory that cannot shrink, `Merge` leaves no empty bucket that
could be merged exactly if the scan is timely. -/
theorem merge_complete_iff (h : t.directory.WellFormed)
    (htight : t.directory.canShrink = false) :
    ((∀ i, i < (t.merge c).directory.size → ¬ Mergeable c (t.merge c) i) ∧
      (t.merge c).directory.canShrink = false) ↔ (partitionOf c t h).Timely := by
  have hstart : TightCells c t (partitionOf c t h) :=
    ⟨⟨h, fun _ => rfl, fun _ => rfl⟩, htight⟩
  obtain ⟨n, hends, hmerge⟩ := merge_endsAfter (c := c) h
  have hfinal := hstart.afterTurns n hends.1
  rw [hmerge, hfinal.cells.forall_not_mergeable_iff,
    (hstart.endsAfter hends).forall_not_joinable_iff]
  exact and_iff_left hfinal.tight

/-- Three buckets: that of the hashes that end in `00` has a pair, and the others are empty. -/
def joinedTable : ExtendibleHashTable Int Int where
  directory :=
    { globalDepth := 2
      localDepths := fun i => if i % 2 = 1 then 1 else 2
      bucketPageIds := fun i => if i % 2 = 1 then 3 else if i % 4 = 2 then 2 else 1 }
  buckets := passedTable.buckets
  nextPageId := 4

theorem wellFormed_joinedTable : joinedTable.directory.WellFormed := by decide +kernel

theorem timely_joinedTable : (partitionOf intTable joinedTable wellFormed_joinedTable).Timely := by
  intro m p hm hp hdeep hsparse
  have hheight : (partitionOf intTable joinedTable wellFormed_joinedTable).depth p ≤ 2 :=
    (partitionOf intTable joinedTable wellFormed_joinedTable).depth_le p
  obtain rfl : m = 1 := by omega
  refine ⟨1, p, hp, hdeep, ?_, .inr (.inr le_rfl)⟩
  have hcases : p = 0 ∨ p = 1 := by omega
  rcases hcases with rfl | rfl
  · decide +kernel
  · exact absurd hdeep (by decide +kernel)

theorem merge_complete_iff_joinedTable :
    (joinedTable.merge intTable).directory.globalDepth = 1 ∧
    (∀ i, i < (joinedTable.merge intTable).directory.size →
        ¬ Mergeable intTable (joinedTable.merge intTable) i) ∧
      (joinedTable.merge intTable).directory.canShrink = false := by
  refine ⟨by decide +kernel, (merge_complete_iff wellFormed_joinedTable ?_).mpr timely_joinedTable⟩
  decide +kernel

/-! ## A bucket that is left -/

theorem canShrink_passedTable : passedTable.directory.canShrink = false := by decide +kernel

/-- The buckets of `000` and `100` are merged when the scan has passed that of `10`, which
then has the local depth of its split image. -/
theorem merge_passedTable : passedTable.directory.WellFormed ∧
    passedTable.directory.canShrink = false ∧
    (passedTable.merge intTable).directory.globalDepth = 2 ∧
    2 < (passedTable.merge intTable).directory.size ∧
    Mergeable intTable (passedTable.merge intTable) 2 := by
  have hmerge : (passedTable.merge intTable).directory.globalDepth = 2 := by decide +kernel
  refine ⟨wellFormed_passedTable, canShrink_passedTable, hmerge, ?_, ?_⟩
  · rw [size_eq, hmerge]
    decide
  · unfold Mergeable
    decide +kernel

end BusTub.ExtendibleHashTable
