import BusTub.Hash.TableInvariant
import BusTub.Library.Machine

/-! # Runs of a table

In every run that splits no bucket whose local depth lags behind the global depth by
two or more, the directory says exactly which indices share a bucket. A split of a
bucket that lags further leaves an index behind.
-/

namespace BusTub

/-- The calls of a table's interface. -/
inductive TableCall (K V : Type) where
  | insert (key : K) (value : V)
  | remove (key : K) (value : V)
  | getValue (key : K)

/-- What the calls return; the values of a key are not ordered. -/
inductive TableOutcome (V : Type) where
  | insert (success : Bool)
  | remove (success : Bool)
  | getValue (found : Bool) (values : Multiset V)
  deriving DecidableEq

variable {K V : Type}

namespace ExtendibleHashTable

/-- The calls of a table one after the other. -/
def machine [DecidableEq V] (c : TableConfig K V) :
    Machine (ExtendibleHashTable K V) (TableCall K V) (TableOutcome V) TableFault where
  step t call :=
    match call with
    | .insert key value =>
        match t.insert c key value with
        | .error fault => .error fault
        | .ok (success, t) => .ok (.insert success, t)
    | .remove key value =>
        let (success, t) := t.remove c key value
        .ok (.remove success, t)
    | .getValue key =>
        let (found, values) := t.getValue c key
        .ok (.getValue found values, t)

/-- Insertions split buckets only whose local depth is at most one less than the global depth. -/
def CloseSplits (c : TableConfig K V) (t : ExtendibleHashTable K V) : TableCall K V → Prop
  | .insert key _ => SplitsClose c t key
  | _ => True

/-! ## The invariant over runs -/

/-- Guarded calls keep a table valid. -/
theorem valid_step [DecidableEq V] {c : TableConfig K V} {t next : ExtendibleHashTable K V}
    {call : TableCall K V} {outcome : TableOutcome V} (h : Valid c t)
    (hclose : CloseSplits c t call) (hstep : (machine c).step t call = .ok (outcome, next)) :
    Valid c next := by
  cases call with
  | insert key value =>
      rcases h.insert_spec key value hclose with hstop | ⟨success, final, hinsert, hresult⟩
      · simp only [machine, hstop] at hstep
        cases hstep
      · simp only [machine, hinsert, Except.ok.injEq, Prod.mk.injEq] at hstep
        exact hstep.2 ▸ hresult.valid
  | remove key value =>
      simp only [machine, Except.ok.injEq, Prod.mk.injEq] at hstep
      exact hstep.2 ▸ (h.remove_spec key value).valid
  | getValue key =>
      simp only [machine, Except.ok.injEq, Prod.mk.injEq] at hstep
      exact hstep.2 ▸ h

/-- What the directory promises about the buckets. -/
structure DirectoryOk (c : TableConfig K V) (t : ExtendibleHashTable K V) : Prop where
  depth_le : ∀ i, i < t.directory.size → t.directory.localDepths i ≤ t.directory.globalDepth
  samePage_iff : ∀ i j, i < t.directory.size → j < t.directory.size →
    (t.directory.bucketPageIds i = t.directory.bucketPageIds j ↔
      LowBits.Agree (t.directory.localDepths i) i j)
  sameDepth : ∀ i j, i < t.directory.size → j < t.directory.size →
    t.directory.bucketPageIds i = t.directory.bucketPageIds j →
    t.directory.localDepths i = t.directory.localDepths j
  pointers : ∀ i, i < t.directory.size →
    ((Finset.range t.directory.size).filter
      (fun j => t.directory.bucketPageIds j = t.directory.bucketPageIds i)).card =
        2 ^ (t.directory.globalDepth - t.directory.localDepths i)
  placed : ∀ i k, i < t.directory.size →
    (t.buckets (t.directory.bucketPageIds i)).isReadable k →
    LowBits.Agree (t.directory.localDepths i)
      (c.hash ((t.buckets (t.directory.bucketPageIds i)).keyAt k)) i

theorem Valid.directoryOk {c : TableConfig K V} {t : ExtendibleHashTable K V} (h : Valid c t) :
    DirectoryOk c t where
  depth_le := h.directory.depth_le
  samePage_iff _ _ hi hj := h.directory.samePage_iff hi hj
  sameDepth _ _ hi hj := h.directory.sameDepth hi hj
  pointers _ hi := h.directory.card_pointers hi
  placed i k hi hread := h.placed i _ _ hi ⟨k, hread, c.scheme.equality.refl _, rfl⟩

/-! ## Filling a bucket -/

section Filling

variable [DecidableEq V] {c : TableConfig K V} {t : ExtendibleHashTable K V}

/-- What the insertion of new pairs of one key leads to while its bucket has room. -/
structure FillResult (c : TableConfig K V) (t final : ExtendibleHashTable K V) (key : K)
    (values : List V) : Prop where
  valid : Valid c final
  directory : final.directory = t.directory
  nextPageId : final.nextPageId = t.nextPageId
  other : ∀ pageId, pageId ≠ keyToPageId c key t.directory →
    final.buckets pageId = t.buckets pageId
  count : (final.buckets (keyToPageId c key t.directory)).numReadable c.bucketArraySize =
    (t.buckets (keyToPageId c key t.directory)).numReadable c.bucketArraySize + values.length
  contains : ∀ other value, Contains c final other value ↔
    Contains c t other value ∨ c.scheme.cmp other key = 0 ∧ value ∈ values

theorem Valid.fill (h : Valid c t) (key : K) {values : List V} (hnodup : values.Nodup)
    (habsent : ∀ value ∈ values, ¬ Contains c t key value)
    (hroom : (t.buckets (keyToPageId c key t.directory)).numReadable c.bucketArraySize +
      values.length ≤ c.bucketArraySize) :
    ∃ final, (machine c).Reaches t (values.map (TableCall.insert key)) final ∧
      (machine c).Guarded (CloseSplits c) t (values.map (TableCall.insert key)) ∧
      FillResult c t final key values := by
  induction values generalizing t with
  | nil =>
      refine ⟨t, Machine.reaches_nil.mpr rfl, trivial, h, rfl, rfl, fun _ _ => rfl, rfl, ?_⟩
      intro other value
      simp
  | cons value rest ih =>
      rw [List.length_cons] at hroom
      rw [List.nodup_cons] at hnodup
      have hfree : ¬ (t.buckets (keyToPageId c key t.directory)).isFull c.bucketArraySize := by
        unfold BucketPage.isFull
        rw [decide_eq_true_eq]
        omega
      obtain ⟨success, page, hinsert, hsuccess, hcount, hvalid, hcontains⟩ :=
        h.insert_bucket key value hfree
      obtain rfl : success = true := hsuccess.mpr (habsent value List.mem_cons_self)
      have hpage : (t.setBucket (keyToPageId c key t.directory) page).buckets
          (keyToPageId c key t.directory) = page := Function.update_self _ _ _
      have hstep : (machine c).step t (.insert key value) =
          .ok (.insert true, t.setBucket (keyToPageId c key t.directory) page) := by
        simp only [machine, ExtendibleHashTable.insert, if_neg hfree, hinsert]
      have habsent' : ∀ value' ∈ rest,
          ¬ Contains c (t.setBucket (keyToPageId c key t.directory) page) key value' := by
        intro value' hmem
        rw [hcontains]
        rintro (hold | ⟨-, rfl⟩)
        · exact habsent value' (List.mem_cons_of_mem _ hmem) hold
        · exact hnodup.1 hmem
      have hroom' : ((t.setBucket (keyToPageId c key t.directory) page).buckets
          (keyToPageId c key t.directory)).numReadable c.bucketArraySize + rest.length ≤
            c.bucketArraySize := by
        rw [hpage, hcount rfl]
        omega
      obtain ⟨final, hreach, hguard, hfill⟩ := ih hvalid hnodup.2 habsent' hroom'
      refine ⟨final, Machine.reaches_cons.mpr ⟨_, _, hstep, hreach⟩,
        (Machine.guarded_cons_of_step hstep _).mpr ⟨fun hfull => absurd hfull hfree, hguard⟩,
        hfill.valid, hfill.directory, hfill.nextPageId, ?_, ?_, ?_⟩
      · intro pageId hne
        exact (hfill.other pageId hne).trans (Function.update_of_ne hne _ _)
      · have hcountRest := hfill.count
        simp only [ExtendibleHashTable.setBucket, Function.update_self] at hcountRest
        rw [hcountRest, hcount rfl, List.length_cons]
        omega
      · intro other value'
        rw [hfill.contains, hcontains, List.mem_cons]
        constructor
        · rintro ((hold | ⟨heq, hvalue⟩) | ⟨heq, hmem⟩)
          · exact Or.inl hold
          · exact Or.inr ⟨heq, Or.inl hvalue.symm⟩
          · exact Or.inr ⟨heq, Or.inr hmem⟩
        · rintro (hold | ⟨heq, hvalue | hmem⟩)
          · exact Or.inl (Or.inl hold)
          · exact Or.inl (Or.inr ⟨heq, hvalue.symm⟩)
          · exact Or.inr ⟨heq, hmem⟩

end Filling

/-! ## A lagging split -/

/-- `IntComparator`. -/
def intComparator (lhs rhs : Int) : Int := if lhs < rhs then -1 else if rhs < lhs then 1 else 0

theorem intComparator_eq_zero_iff (lhs rhs : Int) : intComparator lhs rhs = 0 ↔ lhs = rhs := by
  unfold intComparator
  split
  · omega
  · split <;> omega

/-- The table of `int` keys and values, with the key itself as its hash. -/
def intTable : TableConfig Int Int where
  scheme :=
    { cmp := intComparator
      getHash := fun key => (key % 2 ^ 64).toNat
      equality := by
        simp only [intComparator_eq_zero_iff]
        exact eq_equivalence
      hash_eq := fun lhs rhs heq => by rw [(intComparator_eq_zero_iff lhs rhs).mp heq] }
  mappingSize := 8
  zero := (0, 0)
  fits := by decide

theorem intTable_cmp (lhs rhs : Int) : intTable.scheme.cmp lhs rhs = 0 ↔ lhs = rhs :=
  intComparator_eq_zero_iff lhs rhs

/-- As many values as a bucket has room for. -/
@[irreducible] def bucketful : List Int := (List.range intTable.bucketArraySize).map Int.ofNat

theorem length_bucketful : bucketful.length = intTable.bucketArraySize := by simp [bucketful]

theorem nodup_bucketful : bucketful.Nodup := by
  unfold bucketful
  exact List.Nodup.map (fun _ _ heq => Int.ofNat_injective heq) List.nodup_range

theorem zero_mem_bucketful : 0 ∈ bucketful := by
  unfold bucketful
  exact List.mem_map.mpr ⟨0, List.mem_range.mpr intTable.bucketArraySize_pos, rfl⟩

/-- The directory after two splits of the bucket of hash `0`. -/
def grownDirectory : DirectoryPage :=
  redirectAll 2 4 (splitDirectory (redirectAll 1 2
    (splitDirectory (create intTable).directory 0 3)) 0 4)

/-- The directory after a split of the bucket of hash `3`, whose local depth is `1` of `3`. -/
def staleDirectory : DirectoryPage := redirectAll 3 1 (splitDirectory grownDirectory 3 5)

theorem isFull_of_numReadable {c : TableConfig K V} {p : BucketPage K V}
    (hcount : p.numReadable c.bucketArraySize = c.bucketArraySize) :
    p.isFull c.bucketArraySize := by
  unfold BucketPage.isFull
  rw [decide_eq_true_eq, hcount]

theorem not_isFull_of_not_holds {c : TableConfig K V} {p : BucketPage K V}
    (h : p.WellFormed c.scheme c.bucketArraySize)
    (hnone : ∀ key value, ¬ p.Holds c.scheme key value) : ¬ p.isFull c.bucketArraySize := by
  rw [BucketPage.isFull_iff h c.bucketArraySize_pos]
  intro hall
  exact hnone _ _ ⟨0, hall 0 c.bucketArraySize_pos, c.scheme.equality.refl _, rfl⟩

/-- A bucket that keeps all its pairs in a split is still full. -/
theorem Rehashed.isFull {c : TableConfig K V} {localDepth splitBucketIdx : Nat}
    {bucket : BucketPage K V} {pages : BucketPage K V × BucketPage K V}
    (h : Rehashed c localDepth splitBucketIdx bucket c.bucketArraySize pages)
    (hbucket : bucket.WellFormed c.scheme c.bucketArraySize)
    (hfull : bucket.isFull c.bucketArraySize)
    (hstay : ∀ key value, bucket.Holds c.scheme key value →
      ¬ LowBits.Agree localDepth (c.hash key) splitBucketIdx) :
    pages.1.isFull c.bucketArraySize := by
  have hall := (BucketPage.isFull_iff hbucket c.bucketArraySize_pos).mp hfull
  rw [BucketPage.isFull_iff h.wellFormed c.bucketArraySize_pos]
  intro i hi
  refine (h.readable i).mpr ⟨hi, fun hmoved => ?_⟩
  exact hstay _ _ ⟨i, hall i hi, c.scheme.equality.refl _, rfl⟩ hmoved.2

/-- A bucketful of pairs of key `0` and one pair of key `4`. -/
def growingCalls : List (TableCall Int Int) :=
  bucketful.map (TableCall.insert 0) ++ [.insert 4 0]

/-- The bucket of hash `0` is full after the bucketful. -/
theorem reaches_fullTable : ∃ t, (machine intTable).Reaches (create intTable)
      (bucketful.map (TableCall.insert 0)) t ∧
    (machine intTable).Guarded (CloseSplits intTable) (create intTable)
      (bucketful.map (TableCall.insert 0)) ∧
    Valid intTable t ∧ t.directory = (create intTable).directory ∧ t.nextPageId = 3 ∧
    (t.buckets 1).isFull intTable.bucketArraySize ∧ t.buckets 2 = .zeroed (0, 0) ∧
    ∀ key value, Contains intTable t key value → key = 0 := by
  have hpage : keyToPageId intTable 0 (create intTable).directory = 1 := by decide
  obtain ⟨t, hreach, hguard, hfill⟩ := (valid_create intTable).fill 0 nodup_bucketful
    (fun _ _ => not_contains_create _ _) (by
      rw [buckets_create, BucketPage.numReadable_zeroed, length_bucketful, Nat.zero_add])
  refine ⟨t, hreach, hguard, hfill.valid, hfill.directory, ?_, ?_, ?_, ?_⟩
  · rw [hfill.nextPageId]
    decide
  · refine isFull_of_numReadable ?_
    rw [← hpage, hfill.count, buckets_create, BucketPage.numReadable_zeroed, length_bucketful, Nat.zero_add]
  · rw [hfill.other 2 (by rw [hpage]; decide), buckets_create]
    rfl
  · intro key value hcontains
    rcases (hfill.contains key value).mp hcontains with hold | ⟨heq, -⟩
    · exact absurd hold (not_contains_create key value)
    · exact (intTable_cmp key 0).mp heq

/-- A split of a full bucket with pairs of key `0` only moves none of them. -/
theorem split_zeroBucket {t : ExtendibleHashTable Int Int} {l : Nat} (h : Valid intTable t)
    (hdepth : t.directory.localDepths 0 = l) (hglobal : t.directory.globalDepth = l)
    (hroom : 2 ^ (l + 1) ≤ directoryArraySize) (hpage : t.directory.bucketPageIds 0 = 1)
    (hnew : 1 < t.nextPageId) (hfull : (t.buckets 1).isFull intTable.bucketArraySize)
    (hkeys : ∀ key value, Contains intTable t key value → key = 0) :
    ∃ final, t.split intTable 0 = .ok final ∧ Valid intTable final ∧
      final.directory = redirectAll l (2 ^ l) (splitDirectory t.directory 0 t.nextPageId) ∧
      final.nextPageId = t.nextPageId + 1 ∧
      (final.buckets 1).isFull intTable.bucketArraySize ∧
      ¬ (final.buckets t.nextPageId).isFull intTable.bucketArraySize ∧
      (∀ pageId, pageId ≠ 1 → pageId ≠ t.nextPageId → final.buckets pageId = t.buckets pageId) ∧
      ∀ key value, Contains intTable final key value → key = 0 := by
  have hb : 0 < t.directory.size := Nat.two_pow_pos _
  have hflip : LowBits.flip l 0 = 2 ^ l := by
    unfold LowBits.flip
    rw [Nat.zero_add]
    exact Nat.mod_eq_of_lt (Nat.pow_lt_pow_succ (by decide))
  have hpos := h.directory.depth_pos 0 hb
  rw [hdepth] at hpos
  have hfull' : (t.buckets (t.directory.bucketPageIds 0)).isFull intTable.bucketArraySize := by
    rwa [hpage]
  have hstay : ∀ key value, (t.buckets (t.directory.bucketPageIds 0)).Holds intTable.scheme key value →
      ¬ LowBits.Agree (l + 1) (intTable.hash key) (LowBits.flip l 0) := by
    intro key value hholds
    rw [hkeys key value ⟨0, hb, hholds⟩, hflip]
    intro hagree
    have hlt : 2 ^ l < 2 ^ (l + 1) := Nat.pow_lt_pow_succ (by decide)
    have hzero := LowBits.eq_of_agree hagree (Nat.two_pow_pos _) hlt
    exact absurd hzero (ne_of_lt (Nat.two_pow_pos l))
  obtain ⟨final, pages, hsplit, hpages⟩ := split_of_full (h.bucket 0 hb) hdepth (by
    unfold DirectoryPage.pow
    rw [hglobal]
    omega) hfull'
  have hresult := h.splitResult hb hdepth (by omega) hroom hfull' hpages
  have hbucket := h.bucket 0 hb
  refine ⟨final, hsplit, hresult.valid, ?_, hpages.nextPageId, ?_, ?_, ?_, ?_⟩
  · rw [hpages.directory, hglobal, hflip]
  · rw [hpages.buckets, if_neg (ne_of_lt hnew), if_pos hpage.symm]
    exact hpages.rehashed.isFull hbucket hfull' hstay
  · rw [hpages.buckets, if_pos rfl]
    refine not_isFull_of_not_holds hpages.rehashed.image fun key value hholds => ?_
    obtain ⟨hold, hmoved⟩ := (hpages.rehashed.holds_image hbucket hfull').mp hholds
    exact hstay key value hold hmoved
  · intro pageId hone hne
    rw [hpages.buckets, if_neg hne, if_neg (by rwa [hpage])]
  · intro key value hcontains
    exact hkeys key value ((hresult.contains key value).mp hcontains)

/-- A pair of key `4` splits the full bucket twice. -/
theorem reaches_grownTable : ∃ t, (machine intTable).Reaches (create intTable) growingCalls t ∧
    (machine intTable).Guarded (CloseSplits intTable) (create intTable) growingCalls ∧
    Valid intTable t ∧ t.directory = grownDirectory ∧ t.nextPageId = 5 ∧
    t.buckets 2 = .zeroed (0, 0) ∧ ∀ key value, Contains intTable t key value → key = 0 ∨ key = 4 := by
  obtain ⟨first, hreach, hguard, hvalid, hdirectory, hnext, hfull, hother, hkeys⟩ :=
    reaches_fullTable
  obtain ⟨second, hsplit, hvalid', hdirectory', hnext', hfull', -, hother', hkeys'⟩ :=
    split_zeroBucket (l := 1) hvalid (by rw [hdirectory]; decide) (by rw [hdirectory]; decide)
      (by decide) (by rw [hdirectory]; decide) (by rw [hnext]; decide) hfull hkeys
  rw [hdirectory, hnext] at hdirectory'
  rw [hnext] at hother'
  replace hnext' : second.nextPageId = 4 := by
    rw [hnext', hnext]
    decide
  obtain ⟨third, hsplit'', hvalid'', hdirectory'', hnext'', -, hroom, hother'', hkeys''⟩ :=
    split_zeroBucket (l := 2) hvalid' (by rw [hdirectory']; decide) (by rw [hdirectory']; decide)
      (by decide) (by rw [hdirectory']; decide) (by rw [hnext']; decide) hfull' hkeys'
  rw [hdirectory', hnext'] at hdirectory''
  rw [hnext'] at hother'' hroom
  replace hnext'' : third.nextPageId = 5 := by
    rw [hnext'', hnext']
    decide
  have hfuel : directoryArraySize = 510 + 1 + 1 := rfl
  have hgrown : third.directory = grownDirectory := hdirectory''
  have hpage : keyToPageId intTable 4 third.directory = 4 := by
    rw [hgrown]
    decide
  rw [← hpage] at hroom
  obtain ⟨success, page, hpageInsert, -, -, hfinal, hcontains⟩ := hvalid''.insert_bucket 4 0 hroom
  have hinsert : first.insert intTable 4 0 = .ok (success,
      third.setBucket (keyToPageId intTable 4 third.directory) page) := by
    rw [insert_of_full 4 0 (by rw [hdirectory]; exact hfull), hfuel,
      splitInsertLoop_of_split 4 0 _ (by rw [hdirectory]; exact hfull)
        (by rw [hdirectory]; exact hsplit),
      splitInsertLoop_of_split 4 0 _ (by rw [hdirectory']; exact hfull')
        (by rw [hdirectory']; exact hsplit''), splitInsertLoop_of_room 4 0 _ hroom,
      insert_of_room 4 0 hroom, hpageInsert]
  have hstep : (machine intTable).step first (.insert 4 0) = .ok (.insert success,
      third.setBucket (keyToPageId intTable 4 third.directory) page) := by
    simp only [machine, hinsert]
  refine ⟨_, Machine.reaches_append.mpr ⟨first, hreach, Machine.reaches_cons.mpr
      ⟨_, _, hstep, Machine.reaches_nil.mpr rfl⟩⟩,
    Machine.guarded_append_of hguard hreach
      ((Machine.guarded_cons_of_step hstep []).mpr ⟨?_, trivial⟩),
    hfinal, hgrown, hnext'', ?_, ?_⟩
  · intro _
    rw [hdirectory]
    decide
  · refine (Function.update_of_ne (by rw [hpage]; decide) _ _).trans ?_
    rw [hother'' 2 (by decide) (by decide), hother' 2 (by decide) (by decide), hother]
  · intro key value hcontained
    rcases (hcontains key value).mp hcontained with hold | ⟨heq, -⟩
    · exact Or.inl (hkeys'' key value hold)
    · exact Or.inr ((intTable_cmp key 4).mp heq)

/-- A bucketful of pairs of key `5` after that: their bucket has local depth `1` of `3`. -/
theorem reaches_laggingTable : ∃ t, (machine intTable).Reaches (create intTable)
      (growingCalls ++ bucketful.map (TableCall.insert 5)) t ∧
    (machine intTable).Guarded (CloseSplits intTable) (create intTable)
      (growingCalls ++ bucketful.map (TableCall.insert 5)) ∧
    Valid intTable t ∧ t.directory = grownDirectory ∧ t.nextPageId = 5 ∧
    (t.buckets 2).isFull intTable.bucketArraySize ∧
    (∀ key value, (t.buckets 2).Holds intTable.scheme key value → key = 5) ∧
    Contains intTable t 5 0 := by
  obtain ⟨t, hreach, hguard, hvalid, hdirectory, hnext, hempty, hkeys⟩ := reaches_grownTable
  have hpage : keyToPageId intTable 5 t.directory = 2 := by
    rw [hdirectory]
    decide
  have hcount : (t.buckets (keyToPageId intTable 5 t.directory)).numReadable
      intTable.bucketArraySize = 0 := by
    rw [hpage, hempty, BucketPage.numReadable_zeroed]
  have habsent : ∀ value ∈ bucketful, ¬ Contains intTable t 5 value := by
    intro value _ hcontains
    rcases hkeys 5 value hcontains with heq | heq <;> exact absurd heq (by decide)
  obtain ⟨final, hfillReach, hfillGuard, hfill⟩ := hvalid.fill 5 nodup_bucketful habsent
    (by rw [hcount, length_bucketful, Nat.zero_add])
  have hgrown : final.directory = grownDirectory := hfill.directory.trans hdirectory
  refine ⟨final, Machine.reaches_append.mpr ⟨t, hreach, hfillReach⟩,
    Machine.guarded_append_of hguard hreach hfillGuard, hfill.valid, hgrown,
    hfill.nextPageId.trans hnext, ?_, ?_, ?_⟩
  · refine isFull_of_numReadable ?_
    rw [← hpage, hfill.count, hcount, length_bucketful, Nat.zero_add]
  · intro key value hholds
    have hlt : 3 < final.directory.size := by
      rw [hgrown]
      decide
    have hentry : final.directory.bucketPageIds 3 = 2 := by
      rw [hgrown]
      decide
    rw [← hentry] at hholds
    rcases (hfill.contains key value).mp ⟨3, hlt, hholds⟩ with hold | ⟨heq, -⟩
    · -- the pairs of even keys are in buckets of even hashes
      have hplaced := hfill.valid.placed 3 key value hlt hholds
      rw [hgrown] at hplaced
      rcases hkeys key value hold with rfl | rfl <;> exact absurd hplaced (by decide)
    · exact (intTable_cmp key 5).mp heq
  · exact (hfill.contains 5 0).mpr (Or.inr ⟨(intTable_cmp 5 5).mpr rfl, zero_mem_bucketful⟩)

/-- A pair of key `3` then splits that bucket: entry `5` still leads to the old page,
and the pairs of key `5` are in the new one. -/
theorem insert_laggingTable {t : ExtendibleHashTable Int Int} (h : Valid intTable t)
    (hdirectory : t.directory = grownDirectory) (hnext : t.nextPageId = 5)
    (hfull : (t.buckets 2).isFull intTable.bucketArraySize)
    (hkeys : ∀ key value, (t.buckets 2).Holds intTable.scheme key value → key = 5) :
    ∃ final, t.insert intTable 3 0 = .ok (true, final) ∧ final.directory = staleDirectory ∧
      (final.buckets 2).WellFormed intTable.scheme intTable.bucketArraySize ∧
      ∀ value, ¬ (final.buckets 2).Holds intTable.scheme 5 value := by
  have hentry : t.directory.bucketPageIds 3 = 2 := by
    rw [hdirectory]
    decide
  have hfull' : (t.buckets (t.directory.bucketPageIds 3)).isFull intTable.bucketArraySize := by
    rwa [hentry]
  have hlt : 3 < t.directory.size := by
    rw [hdirectory]
    decide
  obtain ⟨second, pages, hsplit, hpages⟩ := split_of_full (l := 1) (h.bucket _ hlt)
    (by rw [hdirectory]; decide) (by rw [hdirectory]; decide) hfull'
  have hstale : second.directory = staleDirectory := by
    rw [hpages.directory, hdirectory, hnext]
    rfl
  have hbucket : second.buckets 2 = pages.1 := by
    rw [hpages.buckets, hnext, if_neg (by decide), if_pos hentry.symm]
  have hnone : ∀ key value, ¬ pages.1.Holds intTable.scheme key value := by
    intro key value hholds
    obtain ⟨hold, hstay⟩ := (hpages.rehashed.holds_bucket (h.bucket 3 hlt) hfull').mp hholds
    rw [hentry] at hold
    rw [hkeys key value hold] at hstay
    exact hstay (by decide)
  have hpage : keyToPageId intTable 3 second.directory = 2 := by
    rw [hstale]
    decide
  have hroom : ¬ (second.buckets (keyToPageId intTable 3 second.directory)).isFull
      intTable.bucketArraySize := by
    rw [hpage, hbucket]
    exact not_isFull_of_not_holds hpages.rehashed.wellFormed hnone
  have hroom' := hroom
  rw [hpage, hbucket] at hroom'
  obtain ⟨page, hinsert, hwell, hholds, -⟩ := BucketPage.insert_of_not_holds
    hpages.rehashed.wellFormed intTable.bucketArraySize_pos hroom' (hnone 3 0)
  have hfuel : directoryArraySize = 511 + 1 := rfl
  have hsame : (second.setBucket 2 page).buckets 2 = page := by simp [ExtendibleHashTable.setBucket]
  refine ⟨second.setBucket 2 page, ?_, hstale, ?_, ?_⟩
  · rw [insert_of_full 3 0 (by rw [hdirectory]; exact hfull), hfuel,
      splitInsertLoop_of_split 3 0 _ (by rw [hdirectory]; exact hfull)
        (by rw [hdirectory]; exact hsplit), splitInsertLoop_of_room 3 0 _ hroom,
      insert_of_room 3 0 hroom, hpage, hbucket, hinsert]
  · rwa [hsame]
  · intro value hholds'
    rw [hsame] at hholds'
    rcases (hholds 5 value).mp hholds' with hold | ⟨heq, -⟩
    · exact hnone 5 value hold
    · exact absurd ((intTable_cmp 5 3).mp heq) (by decide)

/-- The calls up to the split of a bucket whose local depth lags by two. -/
def laggingCalls : List (TableCall Int Int) :=
  growingCalls ++ bucketful.map (TableCall.insert 5) ++ [.insert 3 0]

end ExtendibleHashTable

end BusTub
