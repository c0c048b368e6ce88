import BusTub.Hash.PairSet

/-! # A bucket page as a finite set of pairs

What holds of a bucket page after any sequence of insertions and removals that
starts from a page of zeros: it is a finite set of pairs of a class of equal keys
and a value, as long as its capacity, and the scans that stop early miss no pair.
Only the value that `GetValue` returns depends on what the result vector held before.
-/

namespace BusTub

variable {K V : Type}

/-- The calls that write to a bucket page. -/
inductive BucketCall (K V : Type) where
  | insert (key : K) (value : V)
  | remove (key : K) (value : V)
  | removeAt (bucketIdx : Nat)

/-- What the calls return. -/
inductive BucketOutcome where
  | insert (success : Bool)
  | remove (success : Bool)
  | removeAt
  deriving DecidableEq

namespace BucketPage

open ExtendibleHashTable (intTable)

/-- A bucket page that performs the calls; none of them faults. -/
def machine [DecidableEq V] (c : TableConfig K V) :
    Machine (BucketPage K V) (BucketCall K V) BucketOutcome Empty where
  step p call :=
    match call with
    | .insert key value =>
        let (success, p) := p.insert c.scheme c.bucketArraySize key value
        .ok (.insert success, p)
    | .remove key value =>
        let (success, p) := p.remove c.scheme c.bucketArraySize key value
        .ok (.remove success, p)
    | .removeAt bucketIdx => .ok (.removeAt, p.removeAt bucketIdx)

@[simp] theorem step_insert [DecidableEq V] (c : TableConfig K V) (p : BucketPage K V) (key : K)
    (value : V) : (machine c).step p (.insert key value) =
      .ok (.insert (p.insert c.scheme c.bucketArraySize key value).1,
        (p.insert c.scheme c.bucketArraySize key value).2) := rfl

@[simp] theorem step_remove [DecidableEq V] (c : TableConfig K V) (p : BucketPage K V) (key : K)
    (value : V) : (machine c).step p (.remove key value) =
      .ok (.remove (p.remove c.scheme c.bucketArraySize key value).1,
        (p.remove c.scheme c.bucketArraySize key value).2) := rfl

@[simp] theorem step_removeAt [DecidableEq V] (c : TableConfig K V) (p : BucketPage K V)
    (bucketIdx : Nat) : (machine c).step p (.removeAt bucketIdx) =
      .ok (.removeAt, p.removeAt bucketIdx) := rfl

/-- `RemoveAt` is called for entries that can be read. -/
def AtReadable (p : BucketPage K V) (call : BucketCall K V) : Prop :=
  match call with
  | .removeAt bucketIdx => p.isReadable bucketIdx
  | _ => True

/-- `GetValue` returns true just when it appends a value to the result. -/
def FoundIfAppended (c : TableConfig K V) (p : BucketPage K V) (key : K) (result : List V) : Prop :=
  (p.getValue c.scheme c.bucketArraySize key result).1 = true ↔
    result.length < (p.getValue c.scheme c.bucketArraySize key result).2.length

variable {c : TableConfig K V} {p : BucketPage K V} {key : K} {value : V} {i : Nat}

/-! ## The pairs of a page -/

section Pairs

variable [DecidableEq V]

/-- The pairs in the entries that can be read. -/
def pairs (c : TableConfig K V) (p : BucketPage K V) : Finset (c.scheme.KeyClass × V) :=
  ((Finset.range c.bucketArraySize).filter (fun i => p.isReadable i)).image
    (fun i => (c.scheme.keyClass (p.keyAt i), p.valueAt i))

theorem mem_pairs (h : p.WellFormed c.scheme c.bucketArraySize) (key : K) (value : V) :
    (c.scheme.keyClass key, value) ∈ p.pairs c ↔ p.Holds c.scheme key value := by
  unfold pairs
  simp only [Finset.mem_image, Finset.mem_filter, Finset.mem_range, Prod.mk.injEq,
    c.scheme.keyClass_eq_iff]
  constructor
  · rintro ⟨i, ⟨-, hread⟩, hcmp, hvalue⟩
    exact ⟨i, hread, c.scheme.equality.symm hcmp, hvalue⟩
  · rintro ⟨i, hread, hcmp, hvalue⟩
    exact ⟨i, ⟨h.lt_size i hread, hread⟩, c.scheme.equality.symm hcmp, hvalue⟩

/-- Two pages have the same pairs if they hold the same ones. -/
theorem pairs_ext {other : Finset (c.scheme.KeyClass × V)}
    (h : p.WellFormed c.scheme c.bucketArraySize)
    (hsame : ∀ key value, p.Holds c.scheme key value ↔ (c.scheme.keyClass key, value) ∈ other) :
    p.pairs c = other := by
  ext ⟨first, value⟩
  obtain ⟨key, rfl⟩ : ∃ key, c.scheme.keyClass key = first := Quotient.exists_rep first
  rw [mem_pairs h, hsame]

/-- Every entry that can be read has a pair of its own. -/
theorem card_pairs (h : p.WellFormed c.scheme c.bucketArraySize) :
    (p.pairs c).card = p.numReadable c.bucketArraySize := by
  have hinjective : Set.InjOn (fun i => (c.scheme.keyClass (p.keyAt i), p.valueAt i))
      ((Finset.range c.bucketArraySize).filter (fun i => p.isReadable i)) := by
    intro i hi j hj heq
    have hi := (Finset.mem_filter.mp (Finset.mem_coe.mp hi)).2
    have hj := (Finset.mem_filter.mp (Finset.mem_coe.mp hj)).2
    simp only [Prod.mk.injEq, c.scheme.keyClass_eq_iff] at heq
    exact h.distinct i j hi hj heq.1 heq.2
  have hfilter : ∀ n, ((Finset.range n).filter (fun i => p.isReadable i)).card =
      (List.range n).countP p.isReadable := by
    intro n
    rw [List.countP_eq_length_filter]
    simp only [Finset.card_def, Finset.filter_val, Finset.range_val, Multiset.range,
      Multiset.filter_coe, Multiset.coe_card, Bool.decide_eq_true]
  unfold pairs
  rw [Finset.card_image_of_injOn hinjective, hfilter, numReadable_eq h c.bucketArraySize_pos]

theorem insert_eq_false_of_full (hfull : p.isFull c.bucketArraySize) (key : K) (value : V) :
    p.insert c.scheme c.bucketArraySize key value = (false, p) := by
  unfold BucketPage.insert
  rw [if_pos hfull]

/-- `Insert` fails on a pair that the page has and on a full page, and adds the pair otherwise. -/
theorem insert_pairs (h : p.WellFormed c.scheme c.bucketArraySize) (key : K) (value : V) :
    ((p.insert c.scheme c.bucketArraySize key value).1 = false ↔
      (c.scheme.keyClass key, value) ∈ p.pairs c ∨
        p.numReadable c.bucketArraySize = c.bucketArraySize) ∧
    (p.insert c.scheme c.bucketArraySize key value).2.WellFormed c.scheme c.bucketArraySize ∧
    (p.insert c.scheme c.bucketArraySize key value).2.pairs c =
      if (p.insert c.scheme c.bucketArraySize key value).1 then
        Insert.insert (c.scheme.keyClass key, value) (p.pairs c)
      else p.pairs c := by
  have hcount : p.isFull c.bucketArraySize ↔ p.numReadable c.bucketArraySize = c.bucketArraySize :=
    decide_eq_true_iff
  by_cases hfull : p.isFull c.bucketArraySize
  · rw [insert_eq_false_of_full hfull]
    exact ⟨⟨fun _ => Or.inr (hcount.mp hfull), fun _ => rfl⟩, h, rfl⟩
  · by_cases hholds : p.Holds c.scheme key value
    · rw [insert_of_holds h hholds]
      exact ⟨⟨fun _ => Or.inl ((mem_pairs h key value).mpr hholds), fun _ => rfl⟩, h, rfl⟩
    · obtain ⟨final, hinsert, hfinal, hpairs, -⟩ :=
        insert_of_not_holds h c.bucketArraySize_pos hfull hholds
      rw [hinsert]
      refine ⟨⟨nofun, ?_⟩, hfinal, ?_⟩
      · rintro (hmem | hsize)
        · exact absurd ((mem_pairs h key value).mp hmem) hholds
        · exact absurd (hcount.mpr hsize) hfull
      · apply pairs_ext hfinal
        intro other value'
        rw [hpairs, if_pos rfl, Finset.mem_insert, Prod.mk.injEq, c.scheme.keyClass_eq_iff,
          mem_pairs h, or_comm, eq_comm (a := value)]

theorem remove_pairs (h : p.WellFormed c.scheme c.bucketArraySize) (key : K) (value : V) :
    ((p.remove c.scheme c.bucketArraySize key value).1 = true ↔
      (c.scheme.keyClass key, value) ∈ p.pairs c) ∧
    (p.remove c.scheme c.bucketArraySize key value).2.WellFormed c.scheme c.bucketArraySize ∧
    (p.remove c.scheme c.bucketArraySize key value).2.pairs c =
      (p.pairs c).erase (c.scheme.keyClass key, value) := by
  rw [mem_pairs h]
  by_cases hholds : p.Holds c.scheme key value
  · obtain ⟨final, hremove, hfinal, hpairs⟩ := remove_of_holds h hholds
    rw [hremove]
    refine ⟨⟨fun _ => hholds, fun _ => rfl⟩, hfinal, ?_⟩
    apply pairs_ext hfinal
    intro other value'
    rw [hpairs, Finset.mem_erase, ne_eq, Prod.mk.injEq, c.scheme.keyClass_eq_iff, mem_pairs h,
      and_comm]
  · rw [remove_of_not_holds hholds]
    refine ⟨⟨nofun, fun hcontra => absurd hcontra hholds⟩, h, ?_⟩
    rw [Finset.erase_eq_of_notMem]
    exact fun hmem => hholds ((mem_pairs h key value).mp hmem)

theorem removeAt_pairs (h : p.WellFormed c.scheme c.bucketArraySize) (hread : p.isReadable i) :
    (p.removeAt i).pairs c =
      (p.pairs c).erase (c.scheme.keyClass (p.keyAt i), p.valueAt i) := by
  apply pairs_ext (h.removeAt hread)
  intro other value'
  have hclear : (p.removeAt i).Holds c.scheme other value' ↔
      (p.setReadable i false).Holds c.scheme other value' := Iff.rfl
  rw [hclear, holds_clear h hread, Finset.mem_erase, ne_eq, Prod.mk.injEq,
    c.scheme.keyClass_eq_iff, mem_pairs h, and_comm]

end Pairs

/-! ## Lookup into a result vector -/

/-- What the result held before stays in front. -/
theorem getValue_append (h : p.WellFormed c.scheme c.bucketArraySize) (key : K) (result : List V) :
    (p.getValue c.scheme c.bucketArraySize key result).2 =
      result ++ (p.getValue c.scheme c.bucketArraySize key []).2 := by
  unfold getValue
  dsimp only
  rw [List.range_eq_range', getValueLoop_eq h, getValueLoop_eq h, List.nil_append]

theorem getValue_pairs [DecidableEq V] (h : p.WellFormed c.scheme c.bucketArraySize) (key : K) :
    (((p.getValue c.scheme c.bucketArraySize key []).2 : List V) : Multiset V) =
      (((p.pairs c).filter (fun pair => pair.1 = c.scheme.keyClass key)).image Prod.snd).val := by
  obtain ⟨hnodup, hmem⟩ := getValue_spec h key
  have hvalues : (⟨_, Multiset.coe_nodup.mpr hnodup⟩ : Finset V) =
      ((p.pairs c).filter (fun pair => pair.1 = c.scheme.keyClass key)).image Prod.snd := by
    ext value
    simp only [Finset.mem_image, Finset.mem_filter]
    refine (hmem value).trans ?_
    rw [← mem_pairs h]
    constructor
    · exact fun hpair => ⟨_, ⟨hpair, rfl⟩, rfl⟩
    · rintro ⟨⟨first, second⟩, ⟨hpair, rfl⟩, rfl⟩
      exact hpair
  exact congrArg Finset.val hvalues

/-- The returned value says whether the result is empty, be its values old or new. -/
theorem foundIfAppended_iff (h : p.WellFormed c.scheme c.bucketArraySize) (key : K)
    (result : List V) :
    FoundIfAppended c p key result ↔ result = [] ∨ ∃ value, p.Holds c.scheme key value := by
  have hmem := (getValue_spec h key).2
  have hfound : (p.getValue c.scheme c.bucketArraySize key result).1 =
      !(p.getValue c.scheme c.bucketArraySize key result).2.isEmpty := rfl
  unfold FoundIfAppended
  rw [hfound, getValue_append h]
  cases hvalues : (p.getValue c.scheme c.bucketArraySize key []).2 with
  | nil =>
      have hnone : ¬ ∃ value, p.Holds c.scheme key value := by
        rintro ⟨value, hholds⟩
        have hvalue := (hmem value).mpr hholds
        rw [hvalues] at hvalue
        cases hvalue
      simp [hnone]
  | cons head tail =>
      have hsome : ∃ value, p.Holds c.scheme key value :=
        ⟨head, (hmem head).mp (hvalues ▸ List.mem_cons_self)⟩
      simp [hsome]

/-! ## Runs -/

section Runs

variable [DecidableEq V]

/-- The page is the set of its pairs: the bitmaps agree, and every operation is that
of the set. -/
structure IsPairSet (c : TableConfig K V) (p : BucketPage K V) : Prop where
  occupied : ∀ i, p.isReadable i → p.isOccupied i
  prefixed : ∀ i j, i < j → p.isOccupied j → p.isOccupied i
  distinct : ∀ i j, p.isReadable i → p.isReadable j →
    c.scheme.cmp (p.keyAt i) (p.keyAt j) = 0 → p.valueAt i = p.valueAt j → i = j
  mem_pairs : ∀ key value, (c.scheme.keyClass key, value) ∈ p.pairs c ↔
    p.Holds c.scheme key value
  card_pairs : (p.pairs c).card = p.numReadable c.bucketArraySize
  insert_fails : ∀ key value, (p.insert c.scheme c.bucketArraySize key value).1 = false ↔
    (c.scheme.keyClass key, value) ∈ p.pairs c ∨ (p.pairs c).card = c.bucketArraySize
  insert : ∀ key value, (p.insert c.scheme c.bucketArraySize key value).2.pairs c =
    if (p.insert c.scheme c.bucketArraySize key value).1 then
      Insert.insert (c.scheme.keyClass key, value) (p.pairs c)
    else p.pairs c
  remove_succeeds : ∀ key value, (p.remove c.scheme c.bucketArraySize key value).1 = true ↔
    (c.scheme.keyClass key, value) ∈ p.pairs c
  remove : ∀ key value, (p.remove c.scheme c.bucketArraySize key value).2.pairs c =
    (p.pairs c).erase (c.scheme.keyClass key, value)
  removeAt : ∀ i, p.isReadable i → (p.removeAt i).pairs c =
    (p.pairs c).erase (c.scheme.keyClass (p.keyAt i), p.valueAt i)
  getValue : ∀ key result, ∃ values : List V,
    (p.getValue c.scheme c.bucketArraySize key result).2 = result ++ values ∧
    (values : Multiset V) =
      (((p.pairs c).filter (fun pair => pair.1 = c.scheme.keyClass key)).image Prod.snd).val

theorem WellFormed.isPairSet (h : p.WellFormed c.scheme c.bucketArraySize) : IsPairSet c p where
  occupied := h.occupied
  prefixed := h.prefixed
  distinct := h.distinct
  mem_pairs := BucketPage.mem_pairs h
  card_pairs := BucketPage.card_pairs h
  insert_fails key value := by
    rw [BucketPage.card_pairs h]
    exact (insert_pairs h key value).1
  insert key value := (insert_pairs h key value).2.2
  remove_succeeds key value := (remove_pairs h key value).1
  remove key value := (remove_pairs h key value).2.2
  removeAt _ hread := removeAt_pairs h hread
  getValue key result := ⟨_, getValue_append h key result, getValue_pairs h key⟩

theorem WellFormed.step {next : BucketPage K V} {call : BucketCall K V} {outcome : BucketOutcome}
    (h : p.WellFormed c.scheme c.bucketArraySize) (hread : AtReadable p call)
    (hstep : (machine c).step p call = .ok (outcome, next)) :
    next.WellFormed c.scheme c.bucketArraySize := by
  cases call with
  | insert key value =>
      simp only [step_insert, Except.ok.injEq, Prod.mk.injEq] at hstep
      exact hstep.2 ▸ (insert_pairs h key value).2.1
  | remove key value =>
      simp only [step_remove, Except.ok.injEq, Prod.mk.injEq] at hstep
      exact hstep.2 ▸ (remove_pairs h key value).2.1
  | removeAt bucketIdx =>
      simp only [step_removeAt, Except.ok.injEq, Prod.mk.injEq] at hstep
      exact hstep.2 ▸ h.removeAt hread

/-- After every run from a page of zeros the page is the set of its pairs, and
`GetValue` says whether it appended a value if the result was empty or it did append one. -/
theorem run_isPairSet {calls : List (BucketCall K V)} {final : BucketPage K V}
    (hreach : (machine c).Reaches (zeroed c.zero) calls final)
    (hguard : (machine c).Guarded AtReadable (zeroed c.zero) calls) :
    IsPairSet c final ∧ ∀ key result, FoundIfAppended c final key result ↔
      result = [] ∨ ∃ value, (c.scheme.keyClass key, value) ∈ final.pairs c := by
  have hfinal : final.WellFormed c.scheme c.bucketArraySize := by
    refine hreach.invariant _ ?_ hguard (wellFormed_zeroed c.zero)
    intro p call outcome next h hread hstep
    exact h.step hread hstep
  refine ⟨hfinal.isPairSet, fun key result => ?_⟩
  rw [foundIfAppended_iff hfinal]
  simp only [mem_pairs hfinal]

end Runs

/-- An insertion and the removal at its entry, which can be read by then. -/
theorem run_isPairSet_insertedAndRemoved : ∃ final,
    (machine intTable).Reaches (zeroed intTable.zero) [.insert 1 2, .removeAt 0] final ∧
      IsPairSet intTable final ∧ ∀ key result, FoundIfAppended intTable final key result ↔
        result = [] ∨ ∃ value, (intTable.scheme.keyClass key, value) ∈ final.pairs intTable := by
  have hreach : (machine intTable).Reaches (zeroed intTable.zero) [.insert 1 2, .removeAt 0]
      (((zeroed intTable.zero).insert intTable.scheme intTable.bucketArraySize 1 2).2.removeAt
        0) :=
    Machine.reaches_cons.mpr ⟨_, _, step_insert .., Machine.reaches_cons.mpr
      ⟨_, _, step_removeAt .., Machine.reaches_nil.mpr rfl⟩⟩
  have hread : AtReadable ((zeroed intTable.zero).insert intTable.scheme intTable.bucketArraySize
      1 2).2 (.removeAt 0) := by
    unfold AtReadable
    decide +kernel
  have hguard : (machine intTable).Guarded AtReadable (zeroed intTable.zero)
      [.insert 1 2, .removeAt 0] := by
    refine (Machine.guarded_cons_of_step (step_insert ..) _).mpr ⟨trivial, ?_⟩
    exact (Machine.guarded_cons_of_step (step_removeAt ..) _).mpr ⟨hread, trivial⟩
  exact ⟨_, hreach, run_isPairSet hreach hguard⟩

/-- A lookup in a page of zeros returns true if the result held a value before. -/
theorem getValue_zeroed_nonempty :
    (machine intTable).Reaches (zeroed intTable.zero) [] (zeroed intTable.zero) ∧
      ((zeroed intTable.zero).getValue intTable.scheme intTable.bucketArraySize 0 [7]) =
        (true, [7]) ∧
      ¬ FoundIfAppended intTable (zeroed intTable.zero) 0 [7] := by
  have hvalues : ((zeroed intTable.zero).getValue intTable.scheme intTable.bucketArraySize 0
      [7]) = (true, [7]) := by decide +kernel
  refine ⟨Machine.reaches_nil.mpr rfl, hvalues, ?_⟩
  unfold FoundIfAppended
  rw [hvalues]
  decide

end BucketPage

end BusTub
