import BusTub.Storage.DiskManager

/-! # What the file holds of a page

A page is a range of bytes of the file. `WritePage` puts it where the product of a page id and the
page size is, taken as an integer without a bound. `ReadPage` takes what is where that product is
as an `int`, and nothing at all where it passes the file's size as an `int`.
-/

namespace BusTub

namespace DiskManager

variable {d other : DiskManager} {pageId v : Int} {pageData : PageData}

/-- The byte of the file at a position, and zero where it has none. -/
def byteAt (d : DiskManager) (position : Int) : UInt8 :=
  if 0 ≤ position ∧ position < d.size then d.bytes position.toNat else 0

/-- The page as the file has it. -/
def pageOf (d : DiskManager) (pageId : Int) : PageData :=
  fun i => d.byteAt (pageId * pageSize + i)

/-- The page as the stream gives it: an `int` offset, and nothing from a stream that failed. -/
def streamPage (d : DiskManager) (pageId : Int) : PageData :=
  fun i => if d.failed then 0 else d.byteAt (toInt32 (pageId * pageSize) + i)

/-- The page does not begin behind the end of the file; and if its offset overflows an `int`,
or the stream has failed before, what is read instead is the same. -/
def Serves (d : DiskManager) (pageId : Int) : Prop :=
  toInt32 (pageId * pageSize) ≤ d.getFileSize ∧
    (d.failed = true ∨ toInt32 (pageId * pageSize) ≠ pageId * pageSize →
      d.streamPage pageId = d.pageOf pageId)

/-- Behind the end of the file a page is zero. -/
theorem pageOf_of_behind (h : (d.size : Int) ≤ pageId * pageSize) :
    d.pageOf pageId = fun _ => 0 := by
  funext i
  apply if_neg
  rintro ⟨-, hlt⟩
  omega

theorem streamPage_of_sound (hfailed : d.failed = false)
    (hoffset : toInt32 (pageId * pageSize) = pageId * pageSize) :
    d.streamPage pageId = d.pageOf pageId := by
  funext i
  unfold streamPage pageOf
  rw [hfailed, hoffset]
  rfl

theorem Serves.streamPage_eq (h : d.Serves pageId) : d.streamPage pageId = d.pageOf pageId := by
  by_cases hfailed : d.failed = true
  · exact h.2 (Or.inl hfailed)
  · by_cases hoffset : toInt32 (pageId * pageSize) = pageId * pageSize
    · exact streamPage_of_sound (Bool.eq_false_iff.mpr hfailed) hoffset
    · exact h.2 (Or.inr hoffset)

theorem readPage_of_gt (h : d.getFileSize < toInt32 (pageId * pageSize)) :
    d.readPage pageId pageData = (pageData, d) := by
  unfold readPage
  exact if_pos h

/-- A page whose offset is negative ends before the file begins. -/
theorem offset_add_neg (h : toInt32 (pageId * pageSize) < 0) (i : Fin pageSize) :
    toInt32 (pageId * pageSize) + (i : Nat) < 0 := by
  have hi : (i : Nat) < 4096 := i.isLt
  unfold toInt32 pageSize at *
  omega

theorem readPage_of_le (h : toInt32 (pageId * pageSize) ≤ d.getFileSize) :
    (d.readPage pageId pageData).1 = d.streamPage pageId := by
  unfold readPage
  dsimp only
  rw [if_neg (not_lt.mpr h)]
  funext i
  unfold streamPage byteAt
  by_cases hfailed : d.failed = true
  · rw [if_pos (Or.inl hfailed), if_pos hfailed]
  · by_cases hnegative : toInt32 (pageId * pageSize) < 0
    · rw [if_pos (Or.inr hnegative), if_neg hfailed, if_neg]
      exact fun hin => absurd hin.1 (not_le.mpr (offset_add_neg hnegative i))
    · rw [if_neg (not_or.mpr ⟨hfailed, hnegative⟩), if_neg hfailed]
      obtain ⟨offset, hoffset⟩ := Int.eq_ofNat_of_zero_le (not_lt.mp hnegative)
      rw [hoffset, Int.toNat_natCast, ← Int.natCast_add, Int.toNat_natCast]
      exact if_congr (by omega) rfl rfl

/-- Reading leaves the file as it is. -/
theorem pageOf_readPage (v : Int) :
    (d.readPage pageId pageData).2.pageOf v = d.pageOf v := by
  unfold readPage
  dsimp only
  split
  · rfl
  · split <;> rfl

/-! ## Writes -/

/-- A write that takes place puts the data where the page is. -/
theorem pageOf_writePage (hfailed : d.failed = false) (hnonneg : 0 ≤ pageId) :
    (d.writePage pageId pageData).pageOf pageId = pageData := by
  funext i
  have hi : (i : Nat) < pageSize := i.isLt
  obtain ⟨page, rfl⟩ := Int.eq_ofNat_of_zero_le hnonneg
  have hposition : (page : Int) * pageSize + (i : Nat) = ((page * pageSize + i : Nat) : Int) := by
    rw [Int.natCast_add, Int.natCast_mul]
  have hin : page * pageSize ≤ page * pageSize + i ∧
      page * pageSize + i < page * pageSize + pageSize :=
    ⟨Nat.le_add_right _ _, Nat.add_lt_add_left hi _⟩
  unfold writePage pageOf byteAt
  rw [if_neg (Bool.eq_false_iff.mp hfailed), if_neg (not_lt.mpr hnonneg), hposition]
  simp only [Int.toNat_natCast]
  rw [if_pos, dif_pos hin]
  · apply congrArg pageData
    exact Fin.ext (Nat.add_sub_cancel_left _ _)
  · exact ⟨Int.natCast_nonneg _, Int.ofNat_lt.mpr (lt_max_of_lt_right hin.2)⟩

/-- Outside of its page a write changes no byte. -/
theorem byteAt_writePage_of_outside {position : Int}
    (houtside : ∀ i : Fin pageSize, position ≠ pageId * pageSize + i) :
    (d.writePage pageId pageData).byteAt position = d.byteAt position := by
  unfold writePage
  split
  · rfl
  · split
    · rfl
    next hnonneg =>
      obtain ⟨page, rfl⟩ := Int.eq_ofNat_of_zero_le (not_lt.mp hnonneg)
      unfold byteAt
      by_cases hposition : 0 ≤ position
      · obtain ⟨index, rfl⟩ := Int.eq_ofNat_of_zero_le hposition
        have hout : ¬(page * pageSize ≤ index ∧ index < page * pageSize + pageSize) := by
          rintro ⟨hlow, hhigh⟩
          apply houtside ⟨index - page * pageSize, by omega⟩
          rw [← Int.natCast_mul, ← Int.natCast_add, Nat.add_sub_cancel' hlow]
        simp only [Int.toNat_natCast]
        rw [dif_neg hout]
        by_cases hin : index < d.size
        · rw [if_pos hin, if_pos ⟨hposition, Int.ofNat_lt.mpr (lt_max_of_lt_left hin)⟩,
            if_pos ⟨hposition, Int.ofNat_lt.mpr hin⟩]
        · rw [if_neg hin, ite_self, if_neg (fun hboth => hin (Int.ofNat_lt.mp hboth.2))]
      · exact (if_neg (mt And.left hposition)).trans (if_neg (mt And.left hposition)).symm

/-- Different pages have no byte in common. -/
theorem position_ne_of_ne (hne : v ≠ pageId) (i j : Fin pageSize) :
    v * pageSize + (i : Nat) ≠ pageId * pageSize + (j : Nat) := by
  have hi : (i : Nat) < 4096 := i.isLt
  have hj : (j : Nat) < 4096 := j.isLt
  unfold pageSize
  omega

theorem pageOf_writePage_of_ne (hne : v ≠ pageId) :
    (d.writePage pageId pageData).pageOf v = d.pageOf v := by
  funext i
  apply byteAt_writePage_of_outside
  exact position_ne_of_ne hne i

/-- What is written to a negative page id, or through a stream that failed, is lost. -/
theorem pageOf_writePage_of_lost (hlost : d.failed = true ∨ pageId < 0) :
    (d.writePage pageId pageData).pageOf v = d.pageOf v := by
  unfold writePage
  split
  · rfl
  next hworks => rw [if_pos (hlost.resolve_left hworks)]; rfl

/-- The two differ in nothing but the bytes of the page `v`. -/
structure SameBut (v : Int) (d other : DiskManager) : Prop where
  size : other.size = d.size
  failed : other.failed = d.failed
  bytes : ∀ position, (∀ i : Fin pageSize, position ≠ v * pageSize + i) →
    other.byteAt position = d.byteAt position

theorem SameBut.refl (v : Int) (d : DiskManager) : SameBut v d d := ⟨rfl, rfl, fun _ _ => rfl⟩

/-- Other contents of a page leave the other pages alone. -/
theorem sameBut_writePage (d : DiskManager) (v : Int) (one two : PageData) :
    SameBut v (d.writePage v one) (d.writePage v two) := by
  refine ⟨?_, ?_, fun position houtside => ?_⟩
  · unfold writePage
    split
    · rfl
    · split <;> rfl
  · unfold writePage
    split
    · rfl
    · split <;> rfl
  · rw [byteAt_writePage_of_outside houtside, byteAt_writePage_of_outside houtside]

theorem SameBut.pageOf_eq (h : SameBut v d other) (hne : pageId ≠ v) :
    other.pageOf pageId = d.pageOf pageId := by
  funext i
  apply h.bytes
  exact position_ne_of_ne hne i

end DiskManager

end BusTub
