import BusTub.Buffer.FramePartition
import BusTub.Library.Faults
import BusTub.Storage.FileImage

/-! # What a missing page is read into

A `FetchPage` that misses reads the page into a frame that held another one. The bytes that
come back must be the file's, and zero where the file has none, whatever the frame held.
`ReadPage` fills a short read up with zeros, but reads nothing at all from a page that begins
behind the end of the file, and says so only in a log: the frame keeps what was in it.
-/

namespace BusTub

namespace BufferPoolManagerInstance

variable {poolSize : Nat} {b final middle : BufferPoolManagerInstance poolSize}
  {f : Fin poolSize} {pageId : PageId}

/-- The pool with other contents in one frame. -/
def withData (b : BufferPoolManagerInstance poolSize) (f : Fin poolSize) (data : PageData) :
    BufferPoolManagerInstance poolSize :=
  b.setPage f { b.pages f with data := data }

theorem withData_data (b : BufferPoolManagerInstance poolSize) (f : Fin poolSize) :
    b.withData f (b.pages f).data = b := by
  unfold withData setPage
  rw [Function.update_eq_self]

@[simp]
theorem withData_pages_self (b : BufferPoolManagerInstance poolSize) (f : Fin poolSize)
    (data : PageData) : (b.withData f data).pages f = { b.pages f with data := data } :=
  Function.update_self f _ _

theorem withData_pages (b : BufferPoolManagerInstance poolSize) (f g : Fin poolSize)
    (data : PageData) : ((b.withData f data).pages g).pageId = (b.pages g).pageId ∧
      ((b.withData f data).pages g).isDirty = (b.pages g).isDirty ∧
      (g ≠ f → ((b.withData f data).pages g).data = (b.pages g).data) := by
  by_cases hg : g = f
  · subst hg
    rw [withData_pages_self]
    exact ⟨rfl, rfl, fun hne => absurd rfl hne⟩
  · have hsame : (b.withData f data).pages g = b.pages g := Function.update_of_ne hg _ _
    rw [hsame]
    exact ⟨rfl, rfl, fun _ => rfl⟩

/-- The disk when page `v`, resident in frame `g`, has been written back. -/
def flushed (b : BufferPoolManagerInstance poolSize) (g : Fin poolSize) (v : PageId) : DiskManager :=
  if (b.pages g).isDirty then b.diskManager.writePage v (b.pages g).data else b.diskManager

theorem sameBut_flushed (f g : Fin poolSize) (v : PageId) (data : PageData) :
    DiskManager.SameBut v (b.flushed g v) ((b.withData f data).flushed g v) := by
  unfold flushed
  rw [(withData_pages b f g data).2.1]
  split
  · exact DiskManager.sameBut_writePage _ _ _ _
  · exact DiskManager.SameBut.refl _ _

/-- The victim `f` is a fresh frame, and the page it had is flushed from frame `g`. -/
def takeVictim (b : BufferPoolManagerInstance poolSize) (f g : Fin poolSize) :
    BufferPoolManagerInstance poolSize :=
  { b with
    replacer := b.replacer.victim.2
    diskManager := b.flushed g (b.pages f).pageId
    pageTable := Function.update b.pageTable (b.pages f).pageId none
    pages := Function.update b.pages f { b.pages f with isDirty := false } }

theorem findFreshPage_of_free {rest : List (Fin poolSize)} (hfree : b.freeList = f :: rest) :
    b.findFreshPage = .ok (some f, { b with freeList := rest }) := by
  unfold findFreshPage
  rw [hfree]

theorem flushPg_of_resident {g : Fin poolSize} (hmapped : b.pageTable pageId = some g) :
    b.flushPg pageId = .ok { b with diskManager := b.flushed g pageId } := by
  rw [flushPg_of_mapped hmapped]
  rfl

theorem findFreshPage_of_victim {g : Fin poolSize} (hfree : b.freeList = [])
    (hvictim : b.replacer.victim.1 = some f)
    (hmapped : b.pageTable (b.pages f).pageId = some g) :
    b.findFreshPage = .ok (some f, b.takeVictim f g) := by
  obtain ⟨replacer, hreplacer⟩ : ∃ replacer, b.replacer.victim = (some f, replacer) :=
    ⟨_, Prod.ext hvictim rfl⟩
  have hflush : ({ b with replacer := replacer } : BufferPoolManagerInstance poolSize).flushPg
      (b.pages f).pageId = _ := flushPg_of_resident hmapped
  rw [hfree] at hflush
  unfold findFreshPage takeVictim
  rw [hfree, hreplacer]
  dsimp only
  rw [hflush]
  rfl

/-- A fresh frame is a free one, or a victim whose page is resident. -/
theorem findFreshPage_cases (hok : b.findFreshPage = .ok (some f, middle)) :
    (∃ rest, b.freeList = f :: rest) ∨
    ∃ g, b.freeList = [] ∧ b.replacer.victim.1 = some f ∧
      b.pageTable (b.pages f).pageId = some g := by
  unfold findFreshPage at hok
  split at hok
  next rest hfree =>
    cases hok
    exact Or.inl ⟨_, hfree⟩
  next hfree =>
    split at hok
    next => cases hok
    next g replacer hvictim =>
      obtain ⟨flushed, hflush, hmiddle⟩ := Except.bind_eq_ok_iff.mp hok
      cases hmiddle
      refine Or.inr ?_
      unfold flushPg findPage at hflush
      split at hflush
      next => cases hflush
      next g hmapped => exact ⟨g, hfree, congrArg Prod.fst hvictim, hmapped⟩

/-- Without a fresh frame nothing has changed. -/
theorem findFreshPage_eq_none (hok : b.findFreshPage = .ok (none, final)) : final = b := by
  unfold findFreshPage at hok
  split at hok
  next => cases hok
  next =>
    split at hok
    next =>
      cases hok
      rfl
    next =>
      obtain ⟨flushed, -, hnone⟩ := Except.bind_eq_ok_iff.mp hok
      cases hnone

/-- `FindFreshPage` takes the same frame whatever is in it. What it writes back is a page
that was resident. -/
theorem findFreshPage_withData (hok : b.findFreshPage = .ok (some f, middle)) (data : PageData) :
    ∃ middle', (b.withData f data).findFreshPage = .ok (some f, middle') ∧
      (middle'.pages f).data = data ∧ (b.pageTable pageId = none →
        ∃ v, pageId ≠ v ∧ DiskManager.SameBut v middle.diskManager middle'.diskManager) := by
  rcases findFreshPage_cases hok with ⟨rest, hfree⟩ | ⟨g, hfree, hvictim, hmapped⟩
  · have hother : (b.withData f data).freeList = f :: rest := hfree
    cases (findFreshPage_of_free hfree).symm.trans hok
    refine ⟨_, findFreshPage_of_free hother, ?_, fun _ => ⟨pageId + 1, ?_, .refl _ _⟩⟩
    · exact congrArg Page.data (withData_pages_self b f data)
    · exact (Int.lt_succ pageId).ne
  · have hid : ((b.withData f data).pages f).pageId = (b.pages f).pageId :=
      (withData_pages b f f data).1
    have hother : (b.withData f data).pageTable ((b.withData f data).pages f).pageId = some g :=
      hid ▸ hmapped
    cases (findFreshPage_of_victim hfree hvictim hmapped).symm.trans hok
    refine ⟨_, findFreshPage_of_victim hfree hvictim hother, ?_, fun hnone =>
      ⟨(b.pages f).pageId, ?_, ?_⟩⟩
    · simp [takeVictim]
    · rintro rfl
      cases hnone.symm.trans hmapped
    · change DiskManager.SameBut _ _ ((b.withData f data).flushed g _)
      rw [hid]
      exact sameBut_flushed f g _ data

theorem fetchPg_of_fresh (hmiss : b.pageTable pageId = none)
    (hfresh : b.findFreshPage = .ok (some f, middle)) :
    b.fetchPg pageId = .ok (some f, middle.installRead f pageId) := by
  unfold fetchPg findPage
  rw [hmiss]
  dsimp only
  rw [hfresh]
  rfl

theorem installRead_data (b : BufferPoolManagerInstance poolSize) (f : Fin poolSize)
    (pageId : PageId) : ((b.installRead f pageId).pages f).data =
      (b.diskManager.readPage pageId (b.pages f).data).1 := by
  simp [installRead]

theorem pageOf_installRead (b : BufferPoolManagerInstance poolSize) (f : Fin poolSize)
    (pageId : PageId) :
    (b.installRead f pageId).diskManager.pageOf pageId = b.diskManager.pageOf pageId :=
  DiskManager.pageOf_readPage pageId

/-! ## Residue -/

/-- `FetchPage` gives the page as the file has it, and it gives the same page when the frame
that it takes holds something else. -/
def NoResidue (b : BufferPoolManagerInstance poolSize) (pageId : PageId) : Prop :=
  ∀ f final, b.fetchPg pageId = .ok (some f, final) →
    (final.pages f).data = final.diskManager.pageOf pageId ∧
    ∀ data, ∃ final', (b.withData f data).fetchPg pageId = .ok (some f, final') ∧
      (final'.pages f).data = (final.pages f).data

/-- Whatever is in the frame, once room has been made the disk manager serves the page. -/
def ServedOnMiss (b : BufferPoolManagerInstance poolSize) (pageId : PageId) : Prop :=
  ∀ f data middle, (b.withData f data).findFreshPage = .ok (some f, middle) →
    middle.diskManager.Serves pageId

theorem ServedOnMiss.noResidue (h : b.ServedOnMiss pageId)
    (hmiss : b.pageTable pageId = none) : b.NoResidue pageId := by
  intro f final hfetch
  rcases fetchPg_cases hfetch with ⟨g, hmapped, -⟩ | ⟨-, hnone, -⟩ |
    ⟨g, middle, -, hfresh, hframe, rfl⟩
  · cases hmiss.symm.trans hmapped
  · cases hnone
  · cases hframe
    have hserves : middle.diskManager.Serves pageId :=
      h f (b.pages f).data middle ((withData_data b f).symm ▸ hfresh)
    have hread : ∀ (middle : BufferPoolManagerInstance poolSize),
        middle.diskManager.Serves pageId →
        ((middle.installRead f pageId).pages f).data = middle.diskManager.pageOf pageId := by
      intro middle hserves
      rw [installRead_data, DiskManager.readPage_of_le hserves.1, hserves.streamPage_eq]
    refine ⟨?_, fun data => ?_⟩
    · rw [hread middle hserves, pageOf_installRead]
    · obtain ⟨middle', hfresh', -, hdisk⟩ := findFreshPage_withData hfresh data
      obtain ⟨v, hne, hsame⟩ := hdisk hmiss
      refine ⟨_, fetchPg_of_fresh hmiss hfresh', ?_⟩
      rw [hread middle' (h f data middle' hfresh'), hread middle hserves, hsame.pageOf_eq hne]

theorem NoResidue.servedOnMiss (h : b.NoResidue pageId)
    (hmiss : b.pageTable pageId = none) : b.ServedOnMiss pageId := by
  intro f data middle hfresh
  have hback : (b.withData f data).withData f (b.pages f).data = b := by
    simp [withData, setPage]
  obtain ⟨first, hfirst, hfirstData, hdisk⟩ :=
    findFreshPage_withData hfresh (b.pages f).data
  obtain ⟨v, hne, hsame⟩ := hdisk hmiss
  rw [hback] at hfirst
  obtain ⟨hpage, hall⟩ := h f _ (fetchPg_of_fresh hmiss hfirst)
  rw [pageOf_installRead] at hpage
  -- what comes back with any contents is the page of the file
  have hread : ∀ data middle, (b.withData f data).findFreshPage = .ok (some f, middle) →
      (middle.diskManager.readPage pageId (middle.pages f).data).1 =
        first.diskManager.pageOf pageId := by
    intro data middle hfresh
    obtain ⟨final', hfinal, heq⟩ := hall data
    have hfetch : (b.withData f data).fetchPg pageId = .ok (some f, middle.installRead f pageId) :=
      fetchPg_of_fresh hmiss hfresh
    cases hfetch.symm.trans hfinal
    rw [← installRead_data, heq, hpage]
  have hle : toInt32 (pageId * pageSize) ≤ middle.diskManager.getFileSize := by
    by_contra hgt
    have hkept : ∀ data, data = first.diskManager.pageOf pageId := by
      intro data
      obtain ⟨middle', hfresh', hdata, hdisk'⟩ := findFreshPage_withData hfirst data
      obtain ⟨v', -, hsame'⟩ := hdisk' hmiss
      have hfile : middle'.diskManager.getFileSize = middle.diskManager.getFileSize := by
        unfold DiskManager.getFileSize
        rw [hsame'.size, hsame.size]
      have hbehind : middle'.diskManager.getFileSize < toInt32 (pageId * pageSize) :=
        hfile.trans_lt (not_le.mp hgt)
      have hold := hread data middle' hfresh'
      rw [DiskManager.readPage_of_gt hbehind] at hold
      exact hdata.symm.trans hold
    have hbytes : (fun _ => 0 : PageData) = fun _ => 1 := (hkept _).trans (hkept _).symm
    have hpos : 0 < pageSize := by
      unfold pageSize
      omega
    have hbyte : (0 : UInt8) = 1 := congrFun hbytes ⟨0, hpos⟩
    exact absurd hbyte (by decide)
  refine ⟨hle, fun _ => ?_⟩
  have hstream : (middle.diskManager.readPage pageId (middle.pages f).data).1 =
      middle.diskManager.streamPage pageId := DiskManager.readPage_of_le hle
  rw [← hstream, hread data middle hfresh, hsame.pageOf_eq hne]

/-! ## Runs -/

/-- A call of the pool, or a client that fills a frame. -/
inductive Access (poolSize : Nat) where
  | call (e : Event)
  | write (f : Fin poolSize) (data : PageData)

/-- One access. -/
def access (b : BufferPoolManagerInstance poolSize) :
    Access poolSize → Except PoolFault (Outcome poolSize × BufferPoolManagerInstance poolSize)
  | .call e => b.step e
  | .write f data => .ok (.done true, b.withData f data)

/-- The pool and the memory of its frames as a machine. -/
def memory (poolSize : Nat) :
    Machine (BufferPoolManagerInstance poolSize) (Access poolSize) (Outcome poolSize) PoolFault :=
  ⟨access⟩

/-- Each `FetchPage` that misses asks for a page that the disk manager serves then. -/
def ServesMisses (b : BufferPoolManagerInstance poolSize) (a : Access poolSize) : Prop :=
  ∀ pageId, a = .call (.fetchPage pageId) → b.pageTable pageId = none → b.ServedOnMiss pageId

/-- Over any run, what the misses return is free of what their frames held exactly if each of
them asks for a page that the disk manager serves. -/
theorem run_noResidue_iff (numInstances instanceIndex : Nat) (diskManager : DiskManager)
    (accesses : List (Access poolSize)) :
    (∀ before pageId after b, accesses = before ++ .call (.fetchPage pageId) :: after →
      (memory poolSize).Reaches (create poolSize numInstances instanceIndex diskManager) before b →
      b.pageTable pageId = none → b.NoResidue pageId) ↔
    (memory poolSize).Guarded ServesMisses
      (create poolSize numInstances instanceIndex diskManager) accesses := by
  rw [Machine.guarded_iff_forall]
  constructor
  · rintro hall before a after b hsplit hreach pageId rfl hmiss
    exact (hall before pageId after b hsplit hreach hmiss).servedOnMiss hmiss
  · intro hall before pageId after b hsplit hreach hmiss
    exact (hall before _ after b hsplit hreach pageId rfl hmiss).noResidue hmiss

/-- A page is written and goes back to the disk; its frame is free for another one. -/
def writtenBack : List (Access 1) :=
  [.call .newPage, .write 0 (fun _ => 1), .call (.unpinPage 0 true)]

/-- The file ends where page `1` begins. Page `2` comes back with the bytes of page `0`. -/
theorem fetchPage_residue : ∃ b final : BufferPoolManagerInstance 1,
    (memory 1).Reaches oneFrame writtenBack b ∧ b.pageTable 2 = none ∧
      b.fetchPg 2 = .ok (some 0, final) ∧ ((final.pages 0).data = fun _ => 1) ∧
      (final.diskManager.pageOf 2 = fun _ => 0) ∧ ¬ b.NoResidue 2 := by
  refine ⟨_, _, ⟨_, rfl⟩, rfl, rfl, rfl, ?_, fun hclean => ?_⟩
  · exact DiskManager.pageOf_of_behind (by decide +kernel)
  · obtain ⟨hserved, -⟩ := hclean.servedOnMiss rfl 0 (fun _ => 1) _ rfl
    exact absurd hserved (by decide +kernel)

end BufferPoolManagerInstance

end BusTub
