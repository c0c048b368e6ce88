import BusTub.Common

/-! # The disk manager

`WritePage` and `ReadPage` on one database file. Offsets are computed in two
ways: `WritePage` in `size_t`, `ReadPage` in `int`, which also holds the file
size. A seek to a negative offset sets the stream's `failbit`, and until it is
cleared the stream does nothing.
-/

namespace BusTub

/-- The database file and the state of the stream on it. -/
structure DiskManager where
  bytes : Nat → UInt8
  size : Nat
  failed : Bool := false

namespace DiskManager

/-- `GetFileSize` of the database file. -/
def getFileSize (d : DiskManager) : Int := toInt32 d.size

/-- `WritePage`. The bytes between the old end of the file and the page are zero. -/
def writePage (d : DiskManager) (pageId : Int) (pageData : PageData) : DiskManager :=
  if d.failed then d
  else if pageId < 0 then { d with failed := true }
  else
    let offset := pageId.toNat * pageSize
    { d with
      bytes := fun i =>
        if h : offset ≤ i ∧ i < offset + pageSize then pageData ⟨i - offset, by omega⟩
        else if i < d.size then d.bytes i else 0
      size := max d.size (offset + pageSize) }

/-- `ReadPage` into a page that holds `pageData`. Past the end of the file nothing
is read; a short read is filled up with zeros and clears the stream. -/
def readPage (d : DiskManager) (pageId : Int) (pageData : PageData) : PageData × DiskManager :=
  let offset := toInt32 (pageId * pageSize)
  if offset > d.getFileSize then (pageData, d)
  else if d.failed ∨ offset < 0 then (fun _ => 0, { d with failed := false })
  else
    (fun i => if offset.toNat + i < d.size then d.bytes (offset.toNat + i) else 0, d)

/-! ## What is stored under a page id -/

/-- The page and its end have offsets that an `int` can hold. -/
def Addressable (pageId : Int) : Prop := 0 ≤ pageId ∧ (pageId + 1) * pageSize < 2 ^ 31

instance : DecidablePred Addressable := fun _ => inferInstanceAs (Decidable (_ ∧ _))

/-- The stream works, and an `int` can hold the file size. -/
structure Healthy (d : DiskManager) : Prop where
  failed : d.failed = false
  size : d.size < 2 ^ 31

/-- The whole page is in the file. -/
structure Stored (d : DiskManager) (pageId : Int) (pageData : PageData) : Prop where
  size : pageId.toNat * pageSize + pageSize ≤ d.size
  bytes : ∀ i : Fin pageSize, d.bytes (pageId.toNat * pageSize + i) = pageData i

variable {d : DiskManager} {pageId other : Int} {pageData otherData : PageData}

theorem writePage_of_healthy (h : d.Healthy) (haddr : Addressable pageId) :
    d.writePage pageId pageData =
      { d with
        bytes := fun i =>
          if h : pageId.toNat * pageSize ≤ i ∧ i < pageId.toNat * pageSize + pageSize then
            pageData ⟨i - pageId.toNat * pageSize, by omega⟩
          else if i < d.size then d.bytes i else 0
        size := max d.size (pageId.toNat * pageSize + pageSize) } := by
  have hnonneg : ¬ pageId < 0 := not_lt.mpr haddr.1
  unfold writePage
  rw [if_neg (by simp [h.failed]), if_neg hnonneg]

theorem Healthy.writePage (h : d.Healthy) (haddr : Addressable pageId) :
    (d.writePage pageId pageData).Healthy := by
  rw [writePage_of_healthy h haddr]
  obtain ⟨hnonneg, hbound⟩ := haddr
  have hsize := h.size
  refine ⟨h.failed, ?_⟩
  unfold pageSize at hbound ⊢
  dsimp only
  omega

theorem stored_writePage (h : d.Healthy) (haddr : Addressable pageId) :
    (d.writePage pageId pageData).Stored pageId pageData := by
  rw [writePage_of_healthy h haddr]
  refine ⟨le_max_right _ _, fun i => ?_⟩
  have hin : pageId.toNat * pageSize ≤ pageId.toNat * pageSize + i ∧
      pageId.toNat * pageSize + i < pageId.toNat * pageSize + pageSize := by omega
  dsimp only
  rw [dif_pos hin]
  congr 1
  exact Fin.ext (Nat.add_sub_cancel_left _ _)

/-- Writing one page leaves the others. -/
theorem Stored.writePage_of_ne (hstored : d.Stored other otherData) (h : d.Healthy)
    (haddr : Addressable pageId) (haddrOther : Addressable other) (hne : pageId ≠ other) :
    (d.writePage pageId pageData).Stored other otherData := by
  rw [writePage_of_healthy h haddr]
  refine ⟨le_max_of_le_left hstored.size, fun i => ?_⟩
  have hlt := i.isLt
  have hsize := hstored.size
  have hapart : pageId.toNat + 1 ≤ other.toNat ∨ other.toNat + 1 ≤ pageId.toNat := by
    have hone := haddr.1
    have htwo := haddrOther.1
    omega
  have hout : ¬(pageId.toNat * pageSize ≤ other.toNat * pageSize + i ∧
      other.toNat * pageSize + i < pageId.toNat * pageSize + pageSize) := by
    rcases hapart with hless | hless
    · have hmul := Nat.mul_le_mul_right pageSize hless
      rw [Nat.succ_mul] at hmul
      omega
    · have hmul := Nat.mul_le_mul_right pageSize hless
      rw [Nat.succ_mul] at hmul
      omega
  dsimp only
  rw [dif_neg hout, if_pos (by omega)]
  exact hstored.bytes i

theorem readPage_of_stored (h : d.Healthy) (haddr : Addressable pageId)
    (hstored : d.Stored pageId pageData) (old : PageData) :
    d.readPage pageId old = (pageData, d) := by
  obtain ⟨hnonneg, hbound⟩ := haddr
  have hsize := h.size
  have hin := hstored.size
  have hoffset : toInt32 (pageId * pageSize) = pageId * pageSize := by
    unfold pageSize at *
    exact toInt32_of_bounds (by omega) (by omega)
  have hfile : d.getFileSize = d.size := toInt32_of_bounds (by omega) (by omega)
  have htoNat : (pageId * pageSize).toNat = pageId.toNat * pageSize := by
    unfold pageSize
    omega
  have hbegin : ¬ pageId * pageSize > d.getFileSize := by
    rw [hfile]
    unfold pageSize at *
    omega
  have hseek : ¬(d.failed = true ∨ pageId * pageSize < 0) := by
    have hle : 0 ≤ pageId * pageSize := Int.mul_nonneg hnonneg (Int.natCast_nonneg _)
    rw [h.failed]
    simpa using hle
  unfold readPage
  dsimp only
  rw [hoffset, if_neg hbegin, if_neg hseek, htoNat]
  refine Prod.ext (funext fun i => ?_) rfl
  dsimp only
  rw [if_pos (by omega)]
  exact hstored.bytes i

/-- Reading changes no more than the state of the stream. -/
theorem readPage_snd_of_healthy (h : d.Healthy) (haddr : Addressable pageId) (old : PageData) :
    (d.readPage pageId old).2 = d := by
  obtain ⟨hnonneg, hbound⟩ := haddr
  have hoffset : ¬ toInt32 (pageId * pageSize) < 0 := by
    unfold pageSize at *
    rw [toInt32_of_bounds (by omega) (by omega)]
    omega
  unfold readPage
  dsimp only
  split
  · rfl
  · rw [if_neg (by simp [h.failed, hoffset])]

end DiskManager

end BusTub
