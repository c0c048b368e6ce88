import BusTub.Storage.FileImage

/-! # Where a page that was written is read from

`WritePage` multiplies the page id and the page size in `size_t`, so every page id that is not
negative has bytes of its own. `ReadPage` multiplies in `int`, and compares with a file size that
is an `int` too. From page `2 ^ 19` on it reads another page than the one that was written, and
when the file has two gigabytes its size as an `int` is negative: then most pages, the first ones
among them, are not read at all.
-/

namespace BusTub.DiskManager

variable {d : DiskManager} {pageId v : Int} {data other : PageData}

/-! ## What the file holds after writes -/

/-- The calls of `WritePage`, one after the other. -/
def writePages (d : DiskManager) (writes : List (Int × PageData)) : DiskManager :=
  writes.foldl (fun d write => d.writePage write.1 write.2) d

/-- What was written to the page last, if anything was. -/
def lastWritten : List (Int × PageData) → Int → Option PageData
  | [], _ => none
  | (written, data) :: rest, pageId =>
      (lastWritten rest pageId).or (if written = pageId then some data else none)

theorem mem_of_lastWritten {writes : List (Int × PageData)}
    (hlast : lastWritten writes pageId = some data) : (pageId, data) ∈ writes := by
  induction writes with
  | nil => cases hlast
  | cons write rest ih =>
      rcases Option.or_eq_some_iff.mp hlast with hrest | ⟨-, hhere⟩
      · exact List.mem_cons_of_mem _ (ih hrest)
      · split at hhere
        next heq =>
          cases hhere
          cases heq
          exact List.mem_cons_self
        next => cases hhere

theorem failed_writePage (hfailed : d.failed = false) (hnonneg : 0 ≤ pageId) (data : PageData) :
    (d.writePage pageId data).failed = false := by
  unfold writePage
  rw [if_neg (Bool.eq_false_iff.mp hfailed), if_neg (not_lt.mpr hnonneg)]
  exact hfailed

/-- The file holds of each page what was written to it last. -/
theorem writePages_spec {writes : List (Int × PageData)} (hfailed : d.failed = false)
    (hids : ∀ write ∈ writes, 0 ≤ write.1) :
    (d.writePages writes).failed = false ∧ ∀ pageId,
      (d.writePages writes).pageOf pageId = (lastWritten writes pageId).getD (d.pageOf pageId) := by
  induction writes generalizing d with
  | nil => exact ⟨hfailed, fun _ => rfl⟩
  | cons write rest ih =>
      have hnonneg : 0 ≤ write.1 := hids write List.mem_cons_self
      obtain ⟨hsound, hpages⟩ := ih (failed_writePage hfailed hnonneg write.2)
        fun later hmem => hids later (List.mem_cons_of_mem _ hmem)
      refine ⟨hsound, fun pageId => (hpages pageId).trans ?_⟩
      change _ = ((lastWritten rest pageId).or _).getD _
      cases lastWritten rest pageId with
      | some data => rfl
      | none =>
          rw [Option.getD_none, Option.none_or]
          by_cases heq : write.1 = pageId
          · rw [if_pos heq, ← heq]
            exact pageOf_writePage hfailed hnonneg
          · rw [if_neg heq]
            exact pageOf_writePage_of_ne (Ne.symm heq)

/-! ## What is read -/

/-- The page that begins where `ReadPage` looks for this one. -/
def addressedPage (pageId : Int) : Int := toInt32 (pageId * pageSize) / pageSize

theorem addressedPage_mul (pageId : Int) :
    addressedPage pageId * pageSize = toInt32 (pageId * pageSize) := by
  have hsize : (pageSize : Int) = 4096 := rfl
  unfold addressedPage toInt32
  rw [hsize]
  omega

theorem addressedPage_of_lt (hnonneg : 0 ≤ pageId) (hlt : pageId < 2 ^ 19) :
    addressedPage pageId = pageId := by
  have hsize : (pageSize : Int) = 4096 := rfl
  unfold addressedPage toInt32
  rw [hsize]
  omega

theorem streamPage_eq (hfailed : d.failed = false) :
    d.streamPage pageId = d.pageOf (addressedPage pageId) := by
  funext i
  unfold streamPage pageOf
  rw [addressedPage_mul, if_neg (Bool.eq_false_iff.mp hfailed)]

/-- Whatever is in the caller's buffer, the read fills it with the one page exactly if it is not
given up, and the page that it looks at has these contents. -/
theorem forall_readPage_iff (hfailed : d.failed = false) :
    (∀ pageData, (d.readPage pageId pageData).1 = data) ↔
      toInt32 (pageId * pageSize) ≤ d.getFileSize ∧ d.pageOf (addressedPage pageId) = data := by
  constructor
  · intro hall
    have hle : toInt32 (pageId * pageSize) ≤ d.getFileSize := by
      by_contra hgt
      -- nothing is read, so two buffers would have to hold the same page
      have hkept : ∀ pageData, pageData = data := by
        intro pageData
        have hread := hall pageData
        rwa [readPage_of_gt (not_le.mp hgt)] at hread
      have hbytes : (fun _ => 0 : PageData) = fun _ => 1 := (hkept _).trans (hkept _).symm
      have hpos : 0 < pageSize := by
        unfold pageSize
        omega
      have hbyte : (0 : UInt8) = 1 := congrFun hbytes ⟨0, hpos⟩
      exact absurd hbyte (by decide)
    refine ⟨hle, ?_⟩
    rw [← streamPage_eq hfailed, ← readPage_of_le hle]
    exact hall data
  · rintro ⟨hle, hpage⟩ pageData
    rw [readPage_of_le hle, streamPage_eq hfailed, hpage]

/-- The `int` offset of the page does not pass the `int` size of the file and, from page `2 ^ 19`
on, the page that this offset belongs to has these contents. -/
def Addressed (d : DiskManager) (pageId : Int) (data : PageData) : Prop :=
  toInt32 (pageId * pageSize) ≤ d.getFileSize ∧
    (2 ^ 19 ≤ pageId → d.pageOf (addressedPage pageId) = data)

theorem forall_readPage_iff_addressed (hfailed : d.failed = false) (hnonneg : 0 ≤ pageId)
    (hheld : d.pageOf pageId = data) :
    (∀ pageData, (d.readPage pageId pageData).1 = data) ↔ d.Addressed pageId data := by
  rw [forall_readPage_iff hfailed]
  refine and_congr_right fun _ => ?_
  by_cases hlarge : 2 ^ 19 ≤ pageId
  · exact (imp_iff_right hlarge).symm
  · rw [addressedPage_of_lt hnonneg (not_le.mp hlarge)]
    exact ⟨fun _ _ => hheld, fun _ => hheld⟩

/-- After any writes a page that was written is read back exactly if it is addressed; and a write
to another page changes nothing of what is read back from a page that is addressed before and
after it. -/
theorem readPage_writePages_iff (hfailed : d.failed = false) (writes : List (Int × PageData))
    (hids : ∀ write ∈ writes, 0 ≤ write.1 ∧ write.1 < 2 ^ 31) (pageId : Int) (data : PageData)
    (hlast : lastWritten writes pageId = some data) :
    ((∀ pageData, ((d.writePages writes).readPage pageId pageData).1 = data) ↔
      (d.writePages writes).Addressed pageId data) ∧
    ∀ v other, 0 ≤ v → v < 2 ^ 31 → v ≠ pageId → (d.writePages writes).Addressed pageId data →
      ((d.writePages writes).writePage v other).Addressed pageId data → ∀ pageData,
        (((d.writePages writes).writePage v other).readPage pageId pageData).1 =
          ((d.writePages writes).readPage pageId pageData).1 := by
  obtain ⟨hsound, hpages⟩ := writePages_spec hfailed fun write hmem => (hids write hmem).1
  have hnonneg : 0 ≤ pageId := (hids _ (mem_of_lastWritten hlast)).1
  have hheld : (d.writePages writes).pageOf pageId = data := by
    rw [hpages, hlast, Option.getD_some]
  have hread := forall_readPage_iff_addressed hsound hnonneg hheld
  refine ⟨hread, fun v other hv _ hne hbefore hafter pageData => ?_⟩
  have hkept : ((d.writePages writes).writePage v other).pageOf pageId = data := by
    rw [pageOf_writePage_of_ne (Ne.symm hne), hheld]
  have hlater := forall_readPage_iff_addressed (failed_writePage hsound hv other) hnonneg hkept
  rw [hlater.mpr hafter, hread.mpr hbefore]

/-- Page `0` is written, and then the page whose end is at two gigabytes. -/
def twoGigabytes : List (Int × PageData) := [(0, fun _ => 1), (2 ^ 19 - 1, fun _ => 0)]

theorem getFileSize_twoGigabytes :
    (writePages { bytes := fun _ => 0, size := 0 } twoGigabytes).getFileSize = -2 ^ 31 := by
  decide +kernel

/-- The size of the file is then negative as an `int`, and the read of page `0` leaves in the
buffer whatever was in it. -/
theorem readPage_twoGigabytes :
    lastWritten twoGigabytes 0 = some (fun _ => 1) ∧
    (∀ pageData, ((writePages { bytes := fun _ => 0, size := 0 } twoGigabytes).readPage 0
      pageData).1 = pageData) ∧
    ¬ ∀ pageData, ((writePages { bytes := fun _ => 0, size := 0 } twoGigabytes).readPage 0
      pageData).1 = fun _ => 1 := by
  refine ⟨rfl, fun pageData => ?_, fun hall => ?_⟩
  · rw [readPage_of_gt]
    rw [getFileSize_twoGigabytes]
    decide
  · obtain ⟨hle, -⟩ := (forall_readPage_iff (writePages_spec rfl (by decide)).1).mp hall
    rw [getFileSize_twoGigabytes] at hle
    exact absurd hle (by decide)

/-- Page `1` is written before page `0`, and page `2` after both. -/
theorem readPage_writePages_iff_threePages :
    let d := writePages { bytes := fun _ => 0, size := 0 } [(1, fun _ => 2), (0, fun _ => 1)]
    (∀ pageData, (d.readPage 1 pageData).1 = fun _ => 2) ∧
      ∀ pageData, ((d.writePage 2 fun _ => 3).readPage 1 pageData).1 = fun _ => 2 := by
  intro d
  obtain ⟨hread, hkept⟩ := readPage_writePages_iff (d := { bytes := fun _ => 0, size := 0 }) rfl
    [(1, fun _ => 2), (0, fun _ => 1)] (by decide) 1 (fun _ => 2) rfl
  have haddressed : d.Addressed 1 fun _ => 2 :=
    ⟨by decide +kernel, fun hlarge => absurd hlarge (by decide)⟩
  have hlater : (d.writePage 2 fun _ => 3).Addressed 1 fun _ => 2 :=
    ⟨by decide +kernel, fun hlarge => absurd hlarge (by decide)⟩
  refine ⟨hread.mpr haddressed, fun pageData => ?_⟩
  rw [hkept 2 (fun _ => 3) (by decide) (by decide) (by decide) haddressed hlater, hread.mpr haddressed]

end BusTub.DiskManager
