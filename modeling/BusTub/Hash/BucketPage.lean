import BusTub.Common
import BusTub.Library.Bitmap

/-! # Bucket pages

`HashTableBucketPage`: an array of pairs with one bitmap that says which entries
can be read and one that says which were ever used. A lookup stops at the first
entry that was never used; insertion takes the first entry that cannot be read.
-/

namespace BusTub

/-- The comparator and the hash function of a table: comparing as `0` is an
equality, and equal keys have equal hashes. -/
structure KeyScheme (K : Type) where
  cmp : K → K → Int
  getHash : K → Nat
  equality : Equivalence (fun a b => cmp a b = 0)
  hash_eq : ∀ a b, cmp a b = 0 → getHash a = getHash b

/-- `HashTableBucketPage`. -/
structure BucketPage (K V : Type) where
  occupied : Nat → BitVec 8
  readable : Nat → BitVec 8
  array : Nat → K × V

namespace BucketPage

variable {K V : Type}

/-- A page of zeros; `zero` is what a pair of zeros reads as. -/
def zeroed (zero : K × V) : BucketPage K V := ⟨fun _ => 0, fun _ => 0, fun _ => zero⟩

/-- `GetLocation`. -/
def getLocation (bucketIdx : Nat) : Nat × Nat := (bucketIdx / 8, bucketIdx % 8)

/-- `GetMask`; a bit other than `0` asks for the mask that sets. -/
def getMask (which : Nat) (bit : Bool) : BitVec 8 :=
  if bit then 1#8 <<< which else ~~~(1#8 <<< which)

/-- The two branches of `SetOccupied` and `SetReadable`. -/
def writeBit (bytes : Nat → BitVec 8) (bucketIdx : Nat) (bit : Bool) : Nat → BitVec 8 :=
  let location := getLocation bucketIdx
  let mask := getMask location.2 bit
  Function.update bytes location.1
    (if bit then bytes location.1 ||| mask else bytes location.1 &&& mask)

/-- The test of `IsOccupied` and `IsReadable`. -/
def readBit (bytes : Nat → BitVec 8) (bucketIdx : Nat) : Bool :=
  let location := getLocation bucketIdx
  bytes location.1 &&& (1#8 <<< location.2) ≠ 0

def isOccupied (p : BucketPage K V) (bucketIdx : Nat) : Bool := readBit p.occupied bucketIdx

def setOccupied (p : BucketPage K V) (bucketIdx : Nat) (bit : Bool) : BucketPage K V :=
  { p with occupied := writeBit p.occupied bucketIdx bit }

def isReadable (p : BucketPage K V) (bucketIdx : Nat) : Bool := readBit p.readable bucketIdx

def setReadable (p : BucketPage K V) (bucketIdx : Nat) (bit : Bool) : BucketPage K V :=
  { p with readable := writeBit p.readable bucketIdx bit }

def keyAt (p : BucketPage K V) (bucketIdx : Nat) : K := (p.array bucketIdx).1

def valueAt (p : BucketPage K V) (bucketIdx : Nat) : V := (p.array bucketIdx).2

/-- `array_[bucket_idx] = pair`. -/
def setEntry (p : BucketPage K V) (bucketIdx : Nat) (pair : K × V) : BucketPage K V :=
  { p with array := Function.update p.array bucketIdx pair }

/-- `RemoveAt`. -/
def removeAt (p : BucketPage K V) (bucketIdx : Nat) : BucketPage K V :=
  (p.setOccupied bucketIdx true).setReadable bucketIdx false

/-- `GetNumofChars`, for `BUCKET_ARRAY_SIZE = size`. -/
def getNumofChars (size : Nat) : Nat := (size - 1) / 8 + 1

/-- `NumReadable`. -/
def numReadable (p : BucketPage K V) (size : Nat) : Nat :=
  Bitmap.popCount p.readable (getNumofChars size)

def isFull (p : BucketPage K V) (size : Nat) : Bool := p.numReadable size = size

def isEmpty (p : BucketPage K V) (size : Nat) : Bool := p.numReadable size = 0

/-- The loop of `GetValue` over the entries that are left. -/
def getValueLoop (s : KeyScheme K) (p : BucketPage K V) (key : K) :
    List Nat → List V → List V
  | [], result => result
  | i :: rest, result =>
      if ¬ p.isReadable i then
        if ¬ p.isOccupied i then result else getValueLoop s p key rest result
      else if s.cmp key (p.keyAt i) = 0 then getValueLoop s p key rest (result ++ [p.valueAt i])
      else getValueLoop s p key rest result

/-- `GetValue`. -/
def getValue (s : KeyScheme K) (size : Nat) (p : BucketPage K V) (key : K) (result : List V) :
    Bool × List V :=
  let result := getValueLoop s p key (List.range size) result
  (!result.isEmpty, result)

section Writes

variable [DecidableEq V]

/-- `Insert`. -/
def insert (s : KeyScheme K) (size : Nat) (p : BucketPage K V) (key : K) (value : V) :
    Bool × BucketPage K V :=
  if p.isFull size then (false, p)
  else if value ∈ (p.getValue s size key []).2 then (false, p)
  else
    match (List.range size).find? (fun i => ¬ p.isReadable i) with
    | some i => (true, ((p.setEntry i (key, value)).setReadable i true).setOccupied i true)
    | none => (true, p)

/-- `Remove`. -/
def remove (s : KeyScheme K) (size : Nat) (p : BucketPage K V) (key : K) (value : V) :
    Bool × BucketPage K V :=
  match (List.range size).find? (fun i =>
    p.isReadable i ∧ s.cmp key (p.keyAt i) = 0 ∧ p.valueAt i = value) with
  | some i => (true, p.setReadable i false)
  | none => (false, p)

end Writes

/-! ## The bitmaps -/

section Bits

variable (p : BucketPage K V) (i j : Nat)

theorem readBit_eq (bytes : Nat → BitVec 8) : readBit bytes i = Bitmap.bit bytes i := by
  unfold readBit getLocation Bitmap.bit
  rw [Bool.eq_iff_iff, decide_eq_true_eq]
  exact Bitmap.and_mask_ne_zero _ (Nat.mod_lt _ (by decide))

theorem readBit_writeBit (bytes : Nat → BitVec 8) (value : Bool) :
    readBit (writeBit bytes i value) j = if j = i then value else readBit bytes j := by
  rw [readBit_eq, readBit_eq]
  cases value with
  | true =>
      refine (Bitmap.bit_set bytes i j).trans ?_
      by_cases h : j = i <;> simp [h]
  | false =>
      refine (Bitmap.bit_clear bytes i j).trans ?_
      by_cases h : j = i <;> simp [h]

@[simp] theorem isReadable_setReadable (value : Bool) :
    (p.setReadable i value).isReadable j = if j = i then value else p.isReadable j :=
  readBit_writeBit i j p.readable value

@[simp] theorem isOccupied_setOccupied (value : Bool) :
    (p.setOccupied i value).isOccupied j = if j = i then value else p.isOccupied j :=
  readBit_writeBit i j p.occupied value

@[simp] theorem isReadable_setOccupied (value : Bool) :
    (p.setOccupied i value).isReadable j = p.isReadable j := rfl

@[simp] theorem isOccupied_setReadable (value : Bool) :
    (p.setReadable i value).isOccupied j = p.isOccupied j := rfl

@[simp] theorem array_setOccupied (value : Bool) : (p.setOccupied i value).array = p.array := rfl

@[simp] theorem array_setReadable (value : Bool) : (p.setReadable i value).array = p.array := rfl

@[simp] theorem isReadable_setEntry (pair : K × V) :
    (p.setEntry i pair).isReadable j = p.isReadable j := rfl

@[simp] theorem isOccupied_setEntry (pair : K × V) :
    (p.setEntry i pair).isOccupied j = p.isOccupied j := rfl

@[simp] theorem array_setEntry (pair : K × V) :
    (p.setEntry i pair).array = Function.update p.array i pair := rfl

@[simp] theorem isReadable_zeroed (zero : K × V) : (zeroed zero).isReadable i = false := by
  unfold isReadable
  rw [readBit_eq]
  simp [zeroed, Bitmap.bit]

@[simp] theorem isOccupied_zeroed (zero : K × V) : (zeroed zero).isOccupied i = false := by
  unfold isOccupied
  rw [readBit_eq]
  simp [zeroed, Bitmap.bit]

end Bits

/-! ## The pairs in a page -/

/-- The page has the pair in an entry that can be read. -/
def Holds (s : KeyScheme K) (p : BucketPage K V) (key : K) (value : V) : Prop :=
  ∃ i, p.isReadable i ∧ s.cmp key (p.keyAt i) = 0 ∧ p.valueAt i = value

/-- Entries are read only below the array size, the entries that were ever used
come first, and no pair is there twice. -/
structure WellFormed (s : KeyScheme K) (size : Nat) (p : BucketPage K V) : Prop where
  lt_size : ∀ i, p.isReadable i → i < size
  occupied : ∀ i, p.isReadable i → p.isOccupied i
  prefixed : ∀ i j, i < j → p.isOccupied j → p.isOccupied i
  distinct : ∀ i j, p.isReadable i → p.isReadable j → s.cmp (p.keyAt i) (p.keyAt j) = 0 →
    p.valueAt i = p.valueAt j → i = j

variable {s : KeyScheme K} {size : Nat} {p : BucketPage K V} {key other : K} {value : V}

theorem holds_congr (heq : s.cmp key other = 0) : p.Holds s key value ↔ p.Holds s other value := by
  constructor
  · rintro ⟨i, hread, hcmp, hvalue⟩
    exact ⟨i, hread, s.equality.trans (s.equality.symm heq) hcmp, hvalue⟩
  · rintro ⟨i, hread, hcmp, hvalue⟩
    exact ⟨i, hread, s.equality.trans heq hcmp, hvalue⟩

theorem not_holds_zeroed (zero : K × V) : ¬ (zeroed zero).Holds s key value := by
  rintro ⟨i, hread, -⟩
  rw [isReadable_zeroed] at hread
  cases hread

theorem wellFormed_zeroed (zero : K × V) : (zeroed zero).WellFormed s size := by
  constructor <;> simp

/-! ## Counting -/

theorem countP_range_update {before after : Nat → Bool} {i n : Nat} (hlt : i < n)
    (hbefore : before i = false) (hafter : after i = true)
    (hsame : ∀ j, j ≠ i → after j = before j) :
    (List.range n).countP after = (List.range n).countP before + 1 := by
  induction n with
  | zero => cases hlt
  | succ n ih =>
      rw [List.range_succ, List.countP_append, List.countP_append, List.countP_singleton,
        List.countP_singleton]
      by_cases hi : i = n
      · subst hi
        have hrest : (List.range i).countP after = (List.range i).countP before :=
          List.countP_congr fun j hj => by rw [hsame j (List.mem_range.mp hj).ne]
        rw [hrest, hbefore, hafter]
        rfl
      · rw [ih (by omega), hsame n (Ne.symm hi)]
        omega

theorem numReadable_eq (h : p.WellFormed s size) (hsize : 0 < size) :
    p.numReadable size = (List.range size).countP p.isReadable := by
  have hbits : Bitmap.bit p.readable = p.isReadable :=
    funext fun i => (readBit_eq i p.readable).symm
  obtain ⟨spare, hspare⟩ : ∃ spare, 8 * getNumofChars size = size + spare :=
    ⟨8 * getNumofChars size - size, by unfold getNumofChars; omega⟩
  have hrest : ∀ i ∈ (List.range spare).map (size + ·), ¬ p.isReadable i = true := by
    intro i hi hread
    obtain ⟨k, -, rfl⟩ := List.mem_map.mp hi
    exact absurd (h.lt_size _ hread) (by omega)
  unfold numReadable
  rw [Bitmap.popCount_eq, hbits, hspare, List.range_add, List.countP_append,
    List.countP_eq_zero.mpr hrest, Nat.add_zero]

theorem numReadable_zeroed (zero : K × V) : (zeroed zero).numReadable size = 0 := by
  unfold numReadable
  rw [Bitmap.popCount_eq, List.countP_eq_zero]
  simp [zeroed, Bitmap.bit]

theorem isFull_iff (h : p.WellFormed s size) (hsize : 0 < size) :
    p.isFull size ↔ ∀ i, i < size → p.isReadable i := by
  have hcount := List.countP_eq_length (p := p.isReadable) (l := List.range size)
  rw [List.length_range] at hcount
  unfold isFull
  rw [decide_eq_true_eq, numReadable_eq h hsize, hcount]
  simp

theorem isEmpty_iff (h : p.WellFormed s size) (hsize : 0 < size) :
    p.isEmpty size ↔ ∀ i, ¬ p.isReadable i := by
  unfold isEmpty
  rw [decide_eq_true_eq, numReadable_eq h hsize, List.countP_eq_zero]
  refine ⟨fun hnone i hread => ?_, fun hnone i _ => hnone i⟩
  exact hnone i (List.mem_range.mpr (h.lt_size i hread)) hread

theorem isEmpty_iff_holds (h : p.WellFormed s size) (hsize : 0 < size) :
    p.isEmpty size ↔ ∀ key value, ¬ p.Holds s key value := by
  rw [isEmpty_iff h hsize]
  constructor
  · rintro hnone key value ⟨i, hread, -⟩
    exact hnone i hread
  · exact fun hnone i hread => hnone (p.keyAt i) (p.valueAt i)
      ⟨i, hread, s.equality.refl _, rfl⟩

/-! ## Lookup -/

theorem getValueLoop_eq (h : p.WellFormed s size) (n i : Nat) (result : List V) :
    getValueLoop s p key (List.range' i n) result = result ++
      ((List.range' i n).filter (fun j => p.isReadable j ∧ s.cmp key (p.keyAt j) = 0)).map
        p.valueAt := by
  induction n generalizing i result with
  | zero => simp [getValueLoop]
  | succ n ih =>
      rw [List.range'_succ]
      unfold getValueLoop
      by_cases hread : p.isReadable i
      · rw [if_neg (not_not.mpr hread)]
        by_cases hcmp : s.cmp key (p.keyAt i) = 0
        · rw [if_pos hcmp, ih, List.filter_cons_of_pos (by simp [hread, hcmp])]
          simp
        · rw [if_neg hcmp, ih, List.filter_cons_of_neg (by simp [hcmp])]
      · rw [if_pos hread, List.filter_cons_of_neg (by simp [hread])]
        by_cases hoccupied : p.isOccupied i
        · rw [if_neg (not_not.mpr hoccupied), ih]
        · -- nothing after an entry that was never used can be read
          have hnone : (List.range' (i + 1) n).filter
              (fun j => p.isReadable j ∧ s.cmp key (p.keyAt j) = 0) = [] := by
            rw [List.filter_eq_nil_iff]
            intro j hj hmatch
            rw [decide_eq_true_eq] at hmatch
            have hlt := (List.mem_range'_1.mp hj).1
            exact hoccupied (h.prefixed i j (by omega) (h.occupied j hmatch.1))
          rw [if_pos hoccupied, hnone]
          simp

/-- `GetValue` collects the values of the key, each of them once. -/
theorem getValue_spec (h : p.WellFormed s size) (key : K) :
    (p.getValue s size key []).2.Nodup ∧
      ∀ value, value ∈ (p.getValue s size key []).2 ↔ p.Holds s key value := by
  have heq : (p.getValue s size key []).2 = ((List.range' 0 size).filter
      (fun j => p.isReadable j ∧ s.cmp key (p.keyAt j) = 0)).map p.valueAt := by
    unfold getValue
    rw [List.range_eq_range', getValueLoop_eq h]
    rfl
  rw [heq]
  constructor
  · refine (List.Nodup.filter _ List.nodup_range').map_on ?_
    intro i hi j hj hvalue
    simp only [List.mem_filter, decide_eq_true_eq] at hi hj
    exact h.distinct i j hi.2.1 hj.2.1 (s.equality.trans (s.equality.symm hi.2.2) hj.2.2) hvalue
  · intro value
    simp only [List.mem_map, List.mem_filter, decide_eq_true_eq]
    constructor
    · rintro ⟨i, ⟨-, hread, hcmp⟩, hvalue⟩
      exact ⟨i, hread, hcmp, hvalue⟩
    · rintro ⟨i, hread, hcmp, hvalue⟩
      have hlt := h.lt_size i hread
      exact ⟨i, ⟨List.mem_range'_1.mpr (by omega), hread, hcmp⟩, hvalue⟩

/-! ## Insertion and removal -/

/-- A pair that the page does not have is written where no unused entry precedes. -/
theorem WellFormed.write (h : p.WellFormed s size) {i : Nat} (hlt : i < size)
    (hbefore : ∀ j, j < i → p.isReadable j)
    (habsent : ¬ p.Holds s key value) :
    (((p.setEntry i (key, value)).setReadable i true).setOccupied i true).WellFormed s size where
  lt_size j hread := by
    by_cases hj : j = i
    · exact hj ▸ hlt
    · simp only [isReadable_setOccupied, isReadable_setReadable, isReadable_setEntry,
        if_neg hj] at hread
      exact h.lt_size j hread
  occupied j hread := by
    by_cases hj : j = i
    · simp [hj]
    · simp only [isReadable_setOccupied, isReadable_setReadable, isReadable_setEntry,
        if_neg hj] at hread
      simpa [hj] using h.occupied j hread
  prefixed j k hjk hoccupied := by
    by_cases hj : j = i
    · simp [hj]
    · simp only [isOccupied_setOccupied, isOccupied_setReadable, isOccupied_setEntry,
        if_neg hj] at hoccupied ⊢
      by_cases hk : k = i
      · exact h.occupied j (hbefore j (hk ▸ hjk))
      · rw [if_neg hk] at hoccupied
        exact h.prefixed j k hjk hoccupied
  distinct j k hj hk hcmp hvalue := by
    simp only [isReadable_setOccupied, isReadable_setReadable, isReadable_setEntry] at hj hk
    simp only [keyAt, valueAt, array_setOccupied, array_setReadable, array_setEntry] at hcmp hvalue
    by_cases hji : j = i
    · by_cases hki : k = i
      · exact hji.trans hki.symm
      · rw [if_neg hki] at hk
        rw [hji, Function.update_self, Function.update_of_ne hki] at hcmp hvalue
        exact absurd ⟨k, hk, hcmp, hvalue.symm⟩ habsent
    · rw [if_neg hji] at hj
      by_cases hki : k = i
      · rw [hki, Function.update_self, Function.update_of_ne hji] at hcmp hvalue
        exact absurd ⟨j, hj, s.equality.symm hcmp, hvalue⟩ habsent
      · rw [if_neg hki] at hk
        rw [Function.update_of_ne hji, Function.update_of_ne hki] at hcmp hvalue
        exact h.distinct j k hj hk hcmp hvalue

theorem holds_write {i : Nat} (hfree : ¬ p.isReadable i) (other : K) (value' : V) :
    (((p.setEntry i (key, value)).setReadable i true).setOccupied i true).Holds s other value' ↔
      p.Holds s other value' ∨ s.cmp other key = 0 ∧ value = value' := by
  constructor
  · rintro ⟨j, hread, hcmp, hvalue⟩
    simp only [isReadable_setOccupied, isReadable_setReadable, isReadable_setEntry] at hread
    simp only [keyAt, valueAt, array_setOccupied, array_setReadable, array_setEntry] at hcmp hvalue
    by_cases hj : j = i
    · rw [hj, Function.update_self] at hcmp hvalue
      exact Or.inr ⟨hcmp, hvalue⟩
    · rw [if_neg hj] at hread
      rw [Function.update_of_ne hj] at hcmp hvalue
      exact Or.inl ⟨j, hread, hcmp, hvalue⟩
  · rintro (⟨j, hread, hcmp, hvalue⟩ | ⟨hcmp, hvalue⟩)
    · have hj : j ≠ i := by
        rintro rfl
        exact hfree hread
      refine ⟨j, by simpa [hj] using hread, ?_, ?_⟩
      · simpa [keyAt, hj] using hcmp
      · simpa [valueAt, hj] using hvalue
    · exact ⟨i, by simp, by simpa [keyAt] using hcmp, by simpa [valueAt] using hvalue⟩

/-- The entry of a pair is no longer readable. -/
theorem WellFormed.clear (h : p.WellFormed s size) (i : Nat) :
    (p.setReadable i false).WellFormed s size where
  lt_size j hread := by
    rw [isReadable_setReadable] at hread
    split at hread
    · cases hread
    · exact h.lt_size j hread
  occupied j hread := by
    rw [isReadable_setReadable] at hread
    split at hread
    · cases hread
    · exact h.occupied j hread
  prefixed j k hjk hoccupied := h.prefixed j k hjk hoccupied
  distinct j k hj hk hcmp hvalue := by
    rw [isReadable_setReadable] at hj hk
    split at hj
    · cases hj
    · split at hk
      · cases hk
      · exact h.distinct j k hj hk hcmp hvalue

theorem holds_clear (h : p.WellFormed s size) {i : Nat} (hread : p.isReadable i) (other : K)
    (value' : V) : (p.setReadable i false).Holds s other value' ↔
      p.Holds s other value' ∧ ¬(s.cmp other (p.keyAt i) = 0 ∧ value' = p.valueAt i) := by
  constructor
  · rintro ⟨j, hj, hcmp, hvalue⟩
    rw [isReadable_setReadable] at hj
    split at hj
    · cases hj
    next hne =>
      refine ⟨⟨j, hj, hcmp, hvalue⟩, ?_⟩
      rintro ⟨hcmp', hvalue'⟩
      exact hne (h.distinct j i hj hread (s.equality.trans (s.equality.symm hcmp) hcmp')
        (hvalue.trans hvalue'))
  · rintro ⟨⟨j, hj, hcmp, hvalue⟩, hnot⟩
    refine ⟨j, ?_, hcmp, hvalue⟩
    have hne : j ≠ i := by
      rintro rfl
      exact hnot ⟨hcmp, hvalue.symm⟩
    simpa [hne] using hj

theorem WellFormed.removeAt (h : p.WellFormed s size) {i : Nat} (hread : p.isReadable i) :
    (p.removeAt i).WellFormed s size := by
  have hset : (p.setOccupied i true).WellFormed s size := by
    refine ⟨h.lt_size, ?_, ?_, h.distinct⟩
    · intro j hj
      by_cases hji : j = i
      · simp [hji]
      · simpa [hji] using h.occupied j hj
    · intro j k hjk hoccupied
      by_cases hji : j = i
      · simp [hji]
      · rw [isOccupied_setOccupied, if_neg hji]
        by_cases hki : k = i
        · exact h.prefixed j i (hki ▸ hjk) (h.occupied i hread)
        · rw [isOccupied_setOccupied, if_neg hki] at hoccupied
          exact h.prefixed j k hjk hoccupied
  exact hset.clear i

section Writes

variable [DecidableEq V]

theorem insert_of_holds (h : p.WellFormed s size) (hholds : p.Holds s key value) :
    p.insert s size key value = (false, p) := by
  unfold insert
  split
  · rfl
  · rw [if_pos (((getValue_spec h key).2 value).mpr hholds)]

/-- `Insert` of a pair that the page does not have, where there is room. -/
theorem insert_of_not_holds (h : p.WellFormed s size) (hsize : 0 < size)
    (hroom : ¬ p.isFull size) (habsent : ¬ p.Holds s key value) :
    ∃ final, p.insert s size key value = (true, final) ∧ final.WellFormed s size ∧
      (∀ other value', final.Holds s other value' ↔
        p.Holds s other value' ∨ s.cmp other key = 0 ∧ value = value') ∧
      final.numReadable size = p.numReadable size + 1 := by
  have hnew : value ∉ (p.getValue s size key []).2 :=
    fun hmem => habsent (((getValue_spec h key).2 value).mp hmem)
  unfold insert
  rw [if_neg hroom, if_neg hnew]
  cases hfind : (List.range size).find? (fun i => ¬ p.isReadable i) with
  | none =>
      refine absurd ((isFull_iff h hsize).mpr fun i hi => ?_) hroom
      simpa using List.find?_eq_none.mp hfind i (List.mem_range.mpr hi)
  | some i =>
      have hfree : ¬ p.isReadable i = true := by simpa using List.find?_some hfind
      have hlt := List.mem_range.mp (List.mem_of_find?_eq_some hfind)
      have hbefore : ∀ j, j < i → p.isReadable j := by
        intro j hj
        have hfirst := (List.find?_range_eq_some.mp hfind).2.2 j hj
        simpa using hfirst
      have hwell := h.write hlt hbefore habsent
      refine ⟨_, rfl, hwell, holds_write hfree, ?_⟩
      rw [numReadable_eq hwell hsize, numReadable_eq h hsize]
      exact countP_range_update hlt (by simpa using hfree) (by simp) (fun j hj => by simp [hj])

theorem remove_of_not_holds (habsent : ¬ p.Holds s key value) :
    p.remove s size key value = (false, p) := by
  unfold remove
  have hnone : (List.range size).find? (fun i =>
      p.isReadable i ∧ s.cmp key (p.keyAt i) = 0 ∧ p.valueAt i = value) = none := by
    rw [List.find?_eq_none]
    intro i _ hmatch
    exact habsent ⟨i, by simpa using hmatch⟩
  rw [hnone]

/-- `Remove` of a pair that the page has. -/
theorem remove_of_holds (h : p.WellFormed s size) (hholds : p.Holds s key value) :
    ∃ final, p.remove s size key value = (true, final) ∧ final.WellFormed s size ∧
      ∀ other value', final.Holds s other value' ↔
        p.Holds s other value' ∧ ¬(s.cmp other key = 0 ∧ value' = value) := by
  unfold remove
  cases hfind : (List.range size).find? (fun i =>
      p.isReadable i ∧ s.cmp key (p.keyAt i) = 0 ∧ p.valueAt i = value) with
  | none =>
      obtain ⟨i, hmatch⟩ := hholds
      have hno := List.find?_eq_none.mp hfind i (List.mem_range.mpr (h.lt_size i hmatch.1))
      exact absurd (by simpa using hmatch) hno
  | some i =>
      have hmatch := List.find?_some hfind
      rw [decide_eq_true_eq] at hmatch
      obtain ⟨hread, hcmp, rfl⟩ := hmatch
      refine ⟨_, rfl, h.clear i, fun other value' => ?_⟩
      rw [holds_clear h hread]
      have hsame : s.cmp other (p.keyAt i) = 0 ↔ s.cmp other key = 0 :=
        ⟨fun heq => s.equality.trans heq (s.equality.symm hcmp),
          fun heq => s.equality.trans heq hcmp⟩
      rw [hsame]

end Writes

end BucketPage

end BusTub
