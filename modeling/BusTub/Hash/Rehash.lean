import BusTub.Hash.ExtendibleHashTable

/-! # Rehashing a full bucket

The loop that moves the pairs of a full bucket to its split image: what has been
moved is in the image, what has not is still in the bucket, and no pair is in both.
-/

namespace BusTub.ExtendibleHashTable

open LowBits BucketPage

variable {K V : Type} {c : TableConfig K V} {bucket : BucketPage K V}
  {pages : BucketPage K V × BucketPage K V} {localDepth splitBucketIdx i n : Nat} {key : K}
  {value : V}

/-- The entry belongs to the split image. -/
def Moved (c : TableConfig K V) (localDepth splitBucketIdx : Nat) (bucket : BucketPage K V)
    (i : Nat) : Prop :=
  Agree localDepth (c.hash (bucket.keyAt i)) splitBucketIdx

/-- The pages of a full bucket and its split image when the entries before `n` are done. -/
structure Rehashed (c : TableConfig K V) (localDepth splitBucketIdx : Nat)
    (bucket : BucketPage K V) (n : Nat) (pages : BucketPage K V × BucketPage K V) : Prop where
  array : pages.1.array = bucket.array
  readable : ∀ i, pages.1.isReadable i ↔
    i < c.bucketArraySize ∧ ¬ (i < n ∧ Moved c localDepth splitBucketIdx bucket i)
  wellFormed : pages.1.WellFormed c.scheme c.bucketArraySize
  image : pages.2.WellFormed c.scheme c.bucketArraySize
  holds : ∀ key value, pages.2.Holds c.scheme key value ↔
    ∃ i, i < n ∧ Moved c localDepth splitBucketIdx bucket i ∧
      c.scheme.cmp key (bucket.keyAt i) = 0 ∧ bucket.valueAt i = value
  count : pages.2.numReadable c.bucketArraySize ≤ n

theorem rehashed_zero (h : bucket.WellFormed c.scheme c.bucketArraySize)
    (hfull : bucket.isFull c.bucketArraySize) :
    Rehashed c localDepth splitBucketIdx bucket 0 (bucket, zeroed c.zero) where
  array := rfl
  readable i := by
    have hall := (isFull_iff h c.bucketArraySize_pos).mp hfull
    simpa using ⟨h.lt_size i, hall i⟩
  wellFormed := h
  image := wellFormed_zeroed c.zero
  holds key value := by simpa using not_holds_zeroed c.zero
  count := by
    rw [numReadable_eq (wellFormed_zeroed (s := c.scheme) c.zero) c.bucketArraySize_pos]
    simp

/-- The test of the loop. -/
theorem xor_eq_zero_iff (hash : Nat) (hsplit : splitBucketIdx < 2 ^ localDepth) :
    (hash &&& (DirectoryPage.pow 2 localDepth - 1)) ^^^ splitBucketIdx = 0 ↔
      Agree localDepth hash splitBucketIdx := by
  unfold DirectoryPage.pow Agree
  rw [Nat.and_two_pow_sub_one_eq_mod, Nat.xor_eq_zero_iff, Nat.mod_eq_of_lt hsplit]

/-- One turn of the loop that leaves the entry. -/
theorem Rehashed.stay (h : Rehashed c localDepth splitBucketIdx bucket n pages)
    (hstay : ¬ Moved c localDepth splitBucketIdx bucket n) :
    Rehashed c localDepth splitBucketIdx bucket (n + 1) pages := by
  have hsame : ∀ i, (i < n + 1 ∧ Moved c localDepth splitBucketIdx bucket i) ↔
      (i < n ∧ Moved c localDepth splitBucketIdx bucket i) := by
    intro i
    constructor
    · rintro ⟨hi, hmoved⟩
      have hne : i ≠ n := by
        rintro rfl
        exact hstay hmoved
      exact ⟨by omega, hmoved⟩
    · rintro ⟨hi, hmoved⟩
      exact ⟨by omega, hmoved⟩
  refine ⟨h.array, ?_, h.wellFormed, h.image, ?_, Nat.le_succ_of_le h.count⟩
  · intro i
    rw [h.readable, hsame]
  · intro key value
    rw [h.holds]
    refine exists_congr fun i => ?_
    rw [← and_assoc, ← hsame i, and_assoc]

section Loop

variable [DecidableEq V]

/-- One turn of the loop that moves the entry. -/
theorem Rehashed.move (h : Rehashed c localDepth splitBucketIdx bucket n pages)
    (hbucket : bucket.WellFormed c.scheme c.bucketArraySize)
    (hfull : bucket.isFull c.bucketArraySize) (hlt : n < c.bucketArraySize)
    (hmoved : Moved c localDepth splitBucketIdx bucket n) :
    Rehashed c localDepth splitBucketIdx bucket (n + 1) (pages.1.removeAt n,
      (pages.2.insert c.scheme c.bucketArraySize (bucket.keyAt n) (bucket.valueAt n)).2) := by
  have hall := (isFull_iff hbucket c.bucketArraySize_pos).mp hfull
  have hread : pages.1.isReadable n := (h.readable n).mpr ⟨hlt, fun hbefore => by omega⟩
  have habsent : ¬ pages.2.Holds c.scheme (bucket.keyAt n) (bucket.valueAt n) := by
    rw [h.holds]
    rintro ⟨i, hi, -, hcmp, hvalue⟩
    have heq := hbucket.distinct n i (hall n hlt) (hall i (by omega)) hcmp hvalue.symm
    omega
  have hroom : ¬ pages.2.isFull c.bucketArraySize := by
    have hcount := h.count
    unfold isFull
    rw [decide_eq_true_eq]
    omega
  obtain ⟨final, hinsert, hwell, hholds, hcount⟩ :=
    insert_of_not_holds h.image c.bucketArraySize_pos hroom habsent
  rw [hinsert]
  refine ⟨h.array, ?_, h.wellFormed.removeAt hread, hwell, ?_, ?_⟩
  · intro i
    unfold removeAt
    rw [isReadable_setReadable, isReadable_setOccupied]
    by_cases hi : i = n
    · rw [if_pos hi]
      subst hi
      simp [hmoved]
    · rw [if_neg hi, h.readable]
      have hsame : i < n + 1 ↔ i < n := by omega
      rw [hsame]
  · intro key value
    rw [hholds, h.holds]
    constructor
    · rintro (⟨i, hi, hmatch⟩ | ⟨hcmp, hvalue⟩)
      · exact ⟨i, by omega, hmatch⟩
      · exact ⟨n, Nat.lt_succ_self n, hmoved, hcmp, hvalue⟩
    · rintro ⟨i, hi, hmoved', hcmp, hvalue⟩
      by_cases hin : i = n
      · subst hin
        exact Or.inr ⟨hcmp, hvalue⟩
      · exact Or.inl ⟨i, by omega, hmoved', hcmp, hvalue⟩
  · have hcount' := h.count
    rw [hcount]
    omega

/-- The loop reads every entry, so that it ends, with all of them done. -/
theorem rehashLoop_spec (hbucket : bucket.WellFormed c.scheme c.bucketArraySize)
    (hfull : bucket.isFull c.bucketArraySize) (hsplit : splitBucketIdx < 2 ^ localDepth)
    (m : Nat) (hend : n + m = c.bucketArraySize)
    (h : Rehashed c localDepth splitBucketIdx bucket n pages) :
    ∃ final, rehashLoop c localDepth splitBucketIdx (List.range' n m) pages = .ok final ∧
      Rehashed c localDepth splitBucketIdx bucket c.bucketArraySize final := by
  induction m generalizing n pages with
  | zero =>
      rw [Nat.add_zero] at hend
      exact ⟨pages, rfl, hend ▸ h⟩
  | succ m ih =>
      have hlt : n < c.bucketArraySize := by omega
      have hread : pages.1.isReadable n := (h.readable n).mpr ⟨hlt, fun hbefore => by omega⟩
      have hkey : pages.1.keyAt n = bucket.keyAt n := by unfold keyAt; rw [h.array]
      have hvalue : pages.1.valueAt n = bucket.valueAt n := by unfold valueAt; rw [h.array]
      rw [List.range'_succ]
      unfold rehashLoop
      have htest := xor_eq_zero_iff (c.hash (bucket.keyAt n)) hsplit
      rw [if_neg (not_not.mpr hread)]
      dsimp only
      rw [hkey, hvalue]
      by_cases hmoved : Moved c localDepth splitBucketIdx bucket n
      · rw [if_pos (htest.mpr hmoved)]
        exact ih (by omega) (h.move hbucket hfull hlt hmoved)
      · rw [if_neg (fun hzero => hmoved (htest.mp hzero))]
        exact ih (by omega) (h.stay hmoved)

end Loop

/-- The bucket keeps the pairs whose hash does not lead to the split image. -/
theorem Rehashed.holds_bucket (h : Rehashed c localDepth splitBucketIdx bucket c.bucketArraySize
    pages) (hbucket : bucket.WellFormed c.scheme c.bucketArraySize)
    (hfull : bucket.isFull c.bucketArraySize) :
    pages.1.Holds c.scheme key value ↔
      bucket.Holds c.scheme key value ∧ ¬ Agree localDepth (c.hash key) splitBucketIdx := by
  have hall := (isFull_iff hbucket c.bucketArraySize_pos).mp hfull
  constructor
  · rintro ⟨i, hread, hcmp, hvalue⟩
    have hkey : pages.1.keyAt i = bucket.keyAt i := by unfold keyAt; rw [h.array]
    obtain ⟨hlt, hstay⟩ := (h.readable i).mp hread
    rw [hkey] at hcmp
    unfold valueAt at hvalue
    rw [h.array] at hvalue
    refine ⟨⟨i, hall i hlt, hcmp, hvalue⟩, fun hmoved => hstay ⟨hlt, ?_⟩⟩
    unfold Moved
    rwa [← c.hash_eq hcmp]
  · rintro ⟨⟨i, hread, hcmp, hvalue⟩, hstay⟩
    refine ⟨i, (h.readable i).mpr ⟨hbucket.lt_size i hread, fun hmoved => hstay ?_⟩, ?_, ?_⟩
    · rw [c.hash_eq hcmp]
      exact hmoved.2
    · unfold keyAt
      rwa [h.array]
    · unfold valueAt
      rwa [h.array]

/-- The split image gets those whose hash leads to it. -/
theorem Rehashed.holds_image (h : Rehashed c localDepth splitBucketIdx bucket c.bucketArraySize
    pages) (hbucket : bucket.WellFormed c.scheme c.bucketArraySize)
    (hfull : bucket.isFull c.bucketArraySize) :
    pages.2.Holds c.scheme key value ↔
      bucket.Holds c.scheme key value ∧ Agree localDepth (c.hash key) splitBucketIdx := by
  have hall := (isFull_iff hbucket c.bucketArraySize_pos).mp hfull
  rw [h.holds]
  constructor
  · rintro ⟨i, hlt, hmoved, hcmp, hvalue⟩
    refine ⟨⟨i, hall i hlt, hcmp, hvalue⟩, ?_⟩
    rw [c.hash_eq hcmp]
    exact hmoved
  · rintro ⟨⟨i, hread, hcmp, hvalue⟩, hmoved⟩
    refine ⟨i, hbucket.lt_size i hread, ?_, hcmp, hvalue⟩
    unfold Moved
    rwa [← c.hash_eq hcmp]

end BusTub.ExtendibleHashTable
