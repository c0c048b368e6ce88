import BusTub.Buffer.Residue

/-! # What a flush leaves on the disk

After `FlushPage` and `FlushAllPages` the file must hold what the frames hold, also of a page that
a client has written to and still has pinned. A flush writes a frame only if it is marked dirty.
`FetchPage` of a resident page marks it; `NewPage` and a `FetchPage` that misses do not, and until
the unpin nothing else says that the client writes: such a page is flushed without a write.
-/

namespace BusTub.BufferPoolManagerInstance

variable {poolSize : Nat} {b final middle : BufferPoolManagerInstance poolSize}
  {f g : Fin poolSize} {pageId v : PageId} {ids rest : List PageId}

/-- `FlushAllPgsImp`: one `FlushPgImp` for each page, in the order in which the page table is
iterated. -/
def flushAllPgsImp : List PageId → BufferPoolManagerInstance poolSize →
    Except PoolFault (BufferPoolManagerInstance poolSize)
  | [], b => .ok b
  | pageId :: rest, b => do
      let (_, b) ← b.flushPgImp pageId
      flushAllPgsImp rest b

/-! ## The page table is injective -/

/-- A page table entry agrees with the page id of its frame, which is in use. This also outlives
`DeletePage`. -/
structure Keyed (b : BufferPoolManagerInstance poolSize) : Prop where
  freeNodup : b.freeList.Nodup
  mapped : ∀ pageId f, b.pageTable pageId = some f → (b.pages f).pageId = pageId ∧ f ∉ b.freeList

theorem Keyed.injective (h : b.Keyed) (hone : b.pageTable pageId = some f)
    (htwo : b.pageTable v = some f) : pageId = v :=
  (h.mapped _ _ hone).1.symm.trans (h.mapped _ _ htwo).1

theorem keyed_create (numInstances instanceIndex : Nat) (diskManager : DiskManager) :
    (create poolSize numInstances instanceIndex diskManager).Keyed :=
  ⟨List.nodup_finRange poolSize, nofun⟩

theorem Keyed.of_same (h : b.Keyed) (htable : final.pageTable = b.pageTable)
    (hfree : final.freeList = b.freeList)
    (hids : ∀ f, (final.pages f).pageId = (b.pages f).pageId) : final.Keyed where
  freeNodup := hfree ▸ h.freeNodup
  mapped pageId f hmapped := by
    rw [hfree, hids]
    exact h.mapped pageId f (htable ▸ hmapped)

theorem Keyed.setPage (h : b.Keyed) {page : Page} (hid : page.pageId = (b.pages f).pageId) :
    (b.setPage f page).Keyed := by
  refine h.of_same rfl rfl fun g => ?_
  by_cases hg : g = f
  · subst hg
    simpa [BufferPoolManagerInstance.setPage] using hid
  · simp [BufferPoolManagerInstance.setPage, hg]

/-- A fresh frame is mapped by no page. -/
theorem Keyed.findFreshPage (h : b.Keyed) (hok : b.findFreshPage = .ok (some f, middle)) :
    middle.Keyed ∧ (∀ pageId, middle.pageTable pageId ≠ some f) ∧ f ∉ middle.freeList := by
  rcases findFreshPage_cases hok with ⟨rest, hfree⟩ | ⟨g, hfree, hvictim, hmapped⟩
  · cases (findFreshPage_of_free hfree).symm.trans hok
    have hnodup := h.freeNodup
    rw [hfree, List.nodup_cons] at hnodup
    refine ⟨⟨hnodup.2, fun pageId g hmapped => ?_⟩, fun pageId hmapped => ?_, hnodup.1⟩
    · obtain ⟨hid, hused⟩ := h.mapped pageId g hmapped
      rw [hfree] at hused
      exact ⟨hid, fun hmem => hused (List.mem_cons_of_mem _ hmem)⟩
    · apply (h.mapped pageId f hmapped).2
      rw [hfree]
      exact List.mem_cons_self
  · cases (findFreshPage_of_victim hfree hvictim hmapped).symm.trans hok
    have hids : ∀ g, ((b.takeVictim f g).pages g).pageId = (b.pages g).pageId := by
      intro g
      by_cases hg : g = f
      · simp [takeVictim, hg]
      · simp [takeVictim, hg]
    have hfreeList : (b.takeVictim f g).freeList = [] := hfree
    have htable : ∀ pageId h, (b.takeVictim f g).pageTable pageId = some h →
        pageId ≠ (b.pages f).pageId ∧ b.pageTable pageId = some h := by
      intro pageId h hmap
      by_cases hpage : pageId = (b.pages f).pageId
      · simp [takeVictim, hpage] at hmap
      · exact ⟨hpage, by simpa [takeVictim, hpage] using hmap⟩
    refine ⟨⟨hfreeList ▸ List.nodup_nil, fun pageId other hmap => ?_⟩, fun pageId hmap => ?_,
      hfreeList ▸ List.not_mem_nil⟩
    · refine ⟨?_, hfreeList ▸ List.not_mem_nil⟩
      obtain ⟨-, hbefore⟩ := htable pageId other hmap
      exact (hids other).trans (h.mapped pageId other hbefore).1
    · obtain ⟨hne, hbefore⟩ := htable pageId f hmap
      exact hne (h.mapped pageId f hbefore).1.symm

theorem Keyed.install (h : b.Keyed) (hunmapped : ∀ pageId, b.pageTable pageId ≠ some f)
    (hused : f ∉ b.freeList) (htable : final.pageTable = Function.update b.pageTable pageId (some f))
    (hfree : final.freeList = b.freeList) (hid : (final.pages f).pageId = pageId)
    (hpages : ∀ g, g ≠ f → final.pages g = b.pages g) : final.Keyed where
  freeNodup := hfree ▸ h.freeNodup
  mapped other g hmapped := by
    rw [hfree]
    rw [htable] at hmapped
    by_cases hother : other = pageId
    · subst hother
      rw [Function.update_self] at hmapped
      cases hmapped
      exact ⟨hid, hused⟩
    · rw [Function.update_of_ne hother] at hmapped
      have hg : g ≠ f := by
        rintro rfl
        exact hunmapped other hmapped
      rw [hpages g hg]
      exact h.mapped other g hmapped

theorem Keyed.deletePg (h : b.Keyed) : (b.deletePg pageId).2.Keyed := by
  unfold BufferPoolManagerInstance.deletePg findPage
  split
  · exact h
  next f hmapped =>
    dsimp only
    split
    · exact h
    · obtain ⟨-, hused⟩ := h.mapped pageId f hmapped
      refine ⟨?_, fun other g hother => ?_⟩
      · exact List.nodup_append.mpr ⟨h.freeNodup, List.nodup_singleton f, by
          rintro g hg _ hsingle rfl
          exact hused (List.mem_singleton.mp hsingle ▸ hg)⟩
      · have hne : other ≠ pageId := by
          rintro rfl
          simp [BufferPoolManagerInstance.setPage] at hother
        have hbefore : b.pageTable other = some g := by
          simpa [BufferPoolManagerInstance.setPage, hne] using hother
        have hg : g ≠ f := by
          rintro rfl
          exact hne (h.injective hbefore hmapped)
        obtain ⟨hid, hgused⟩ := h.mapped other g hbefore
        refine ⟨?_, ?_⟩
        · simpa [BufferPoolManagerInstance.setPage, hg] using hid
        · simpa [BufferPoolManagerInstance.setPage, hg] using hgused

theorem Keyed.flushPgImp (h : b.Keyed) {result : Bool}
    (hok : b.flushPgImp pageId = .ok (result, final)) : final.Keyed := by
  rcases flushPgImp_cases hok with ⟨-, -, rfl⟩ | ⟨f, -, -, rfl⟩
  · exact h
  · have hback : (b.writeBack f pageId).Keyed := h.of_same rfl rfl fun _ => rfl
    exact hback.setPage rfl

theorem Keyed.step (h : b.Keyed) {e : Event} {outcome : Outcome poolSize}
    (hstep : b.step e = .ok (outcome, final)) : final.Keyed := by
  cases e with
  | newPage =>
      obtain ⟨⟨result, next⟩, hok, heq⟩ := map_ok hstep
      cases heq
      rcases newPg_cases hok with ⟨-, hfresh⟩ | ⟨f, middle, hfresh, -, rfl⟩
      · exact (findFreshPage_eq_none hfresh) ▸ h
      · obtain ⟨hmiddle, hunmapped, hused⟩ := h.findFreshPage hfresh
        refine hmiddle.install hunmapped hused rfl rfl ?_ fun g hg => Function.update_of_ne hg _ _
        simp [installNew]
  | fetchPage pageId =>
      obtain ⟨⟨result, next⟩, hok, heq⟩ := map_ok hstep
      cases heq
      rcases fetchPg_cases hok with ⟨f, -, -, rfl⟩ | ⟨-, -, hfresh⟩ | ⟨f, middle, -, hfresh, -, rfl⟩
      · have hpinned : (b.setPage f { b.pages f with
            pinCount := (b.pages f).pinCount + 1, isDirty := true }).Keyed := h.setPage rfl
        exact hpinned.of_same rfl rfl fun _ => rfl
      · exact (findFreshPage_eq_none hfresh) ▸ h
      · obtain ⟨hmiddle, hunmapped, hused⟩ := h.findFreshPage hfresh
        refine hmiddle.install hunmapped hused rfl rfl ?_ fun g hg => Function.update_of_ne hg _ _
        simp [installRead]
  | unpinPage pageId isDirty =>
      obtain ⟨⟨result, next⟩, hok, heq⟩ := map_ok hstep
      cases heq
      rcases unpinPg_cases hok with ⟨-, rfl, -⟩ | ⟨f, -, -, -, ⟨-, rfl⟩ | ⟨-, rfl⟩⟩
      · exact h
      · have hunpinned : (b.unpinned f isDirty).Keyed := h.setPage rfl
        exact hunpinned.of_same rfl rfl fun _ => rfl
      · exact h.setPage rfl
  | flushPage pageId =>
      obtain ⟨⟨result, next⟩, hok, heq⟩ := map_ok hstep
      cases heq
      exact h.flushPgImp hok
  | deletePage pageId =>
      cases hstep
      exact h.deletePg

/-! ## Flushes -/

/-- What flushes of these pages do, apart from what they write. -/
structure Flushed (b final : BufferPoolManagerInstance poolSize) (ids : List PageId) : Prop where
  table : final.pageTable = b.pageTable
  pinCount : ∀ f, (final.pages f).pinCount = (b.pages f).pinCount
  data : ∀ f, (final.pages f).data = (b.pages f).data
  dirty : ∀ f, (final.pages f).isDirty = true ↔
    (b.pages f).isDirty = true ∧ ∀ pageId ∈ ids, b.pageTable pageId ≠ some f
  image : ∀ v ∉ ids, final.diskManager.pageOf v = b.diskManager.pageOf v
  failed : final.diskManager.failed = true ↔ b.diskManager.failed = true ∨
    ∃ pageId ∈ ids, pageId < 0 ∧ ∃ f, b.pageTable pageId = some f ∧ (b.pages f).isDirty = true

theorem Flushed.refl (b : BufferPoolManagerInstance poolSize) : b.Flushed b [] :=
  ⟨rfl, fun _ => rfl, fun _ => rfl, fun _ => by simp, fun _ _ => rfl, by simp⟩

theorem Flushed.trans (h : b.Keyed) (hone : b.Flushed middle ids) (htwo : middle.Flushed final rest) :
    b.Flushed final (ids ++ rest) where
  table := htwo.table.trans hone.table
  pinCount f := (htwo.pinCount f).trans (hone.pinCount f)
  data f := (htwo.data f).trans (hone.data f)
  dirty f := by
    rw [htwo.dirty, hone.dirty, hone.table]
    simp only [List.mem_append, or_imp, forall_and, and_assoc]
  image v hv := by
    rw [List.mem_append, not_or] at hv
    rw [htwo.image v hv.2, hone.image v hv.1]
  failed := by
    rw [htwo.failed, hone.failed, hone.table, or_assoc]
    refine or_congr_right ?_
    constructor
    · rintro (⟨pageId, hmem, hall⟩ | ⟨pageId, hmem, hneg, f, hmapped, hdirty⟩)
      · exact ⟨pageId, List.mem_append_left _ hmem, hall⟩
      · exact ⟨pageId, List.mem_append_right _ hmem, hneg, f, hmapped, ((hone.dirty f).mp hdirty).1⟩
    · rintro ⟨pageId, hmem, hneg, f, hmapped, hdirty⟩
      by_cases hfirst : pageId ∈ ids
      · exact Or.inl ⟨pageId, hfirst, hneg, f, hmapped, hdirty⟩
      · refine Or.inr ⟨pageId, (List.mem_append.mp hmem).resolve_left hfirst, hneg, f, hmapped, ?_⟩
        refine (hone.dirty f).mpr ⟨hdirty, fun other hother hsame => hfirst ?_⟩
        -- no other page has the frame, so it has not been cleaned under another name
        exact h.injective hsame hmapped ▸ hother

theorem flushPgImp_eq_ok (b : BufferPoolManagerInstance poolSize) (pageId : PageId) :
    ∃ final, b.flushPgImp pageId = .ok ((b.pageTable pageId).isSome, final) := by
  unfold flushPgImp findPage
  cases hmapped : b.pageTable pageId with
  | none => exact ⟨b, rfl⟩
  | some f =>
      dsimp only
      rw [flushPg_of_mapped hmapped]
      exact ⟨_, rfl⟩

theorem flushed_flushPgImp {result : Bool} (hok : b.flushPgImp pageId = .ok (result, final)) :
    b.Flushed final [pageId] := by
  rcases flushPgImp_cases hok with ⟨hmissing, -, rfl⟩ | ⟨f, hmapped, -, rfl⟩
  · refine ⟨rfl, fun _ => rfl, fun _ => rfl, fun f => ?_, fun _ _ => rfl, ?_⟩
    · simp [hmissing]
    · simp [hmissing]
  · have hpages : ∀ g, (((b.writeBack f pageId).setPage f
        { b.pages f with isDirty := false }).pages g).pinCount = (b.pages g).pinCount ∧
        (((b.writeBack f pageId).setPage f
          { b.pages f with isDirty := false }).pages g).data = (b.pages g).data := by
      intro g
      by_cases hg : g = f
      · simp [setPage, hg]
      · simp [setPage, writeBack, hg]
    refine ⟨rfl, fun g => (hpages g).1, fun g => (hpages g).2, fun g => ?_, fun v hv => ?_, ?_⟩
    · by_cases hg : g = f
      · simp [setPage, hg, hmapped]
      · simp [setPage, writeBack, hg, hmapped, Ne.symm hg]
    · change (b.flushed f pageId).pageOf v = _
      unfold flushed
      split
      · exact DiskManager.pageOf_writePage_of_ne (List.ne_of_not_mem_cons hv)
      · rfl
    · change (b.flushed f pageId).failed = true ↔ _
      simp only [List.mem_singleton, exists_eq_left, hmapped, Option.some.injEq, exists_eq_left']
      unfold flushed DiskManager.writePage
      by_cases hdirty : (b.pages f).isDirty = true
      · rw [if_pos hdirty]
        by_cases hfailed : b.diskManager.failed = true
        · simp [hfailed]
        · by_cases hneg : pageId < 0
          · simp [hfailed, hneg, hdirty]
          · simp [hfailed, hneg]
      · simp [hdirty]

theorem flushAllPgsImp_eq_ok (ids : List PageId) (b : BufferPoolManagerInstance poolSize) :
    ∃ final, flushAllPgsImp ids b = .ok final := by
  induction ids generalizing b with
  | nil => exact ⟨b, rfl⟩
  | cons pageId rest ih =>
      obtain ⟨middle, hflush⟩ := flushPgImp_eq_ok b pageId
      obtain ⟨final, hrest⟩ := ih middle
      exact ⟨final, Except.bind_eq_ok_iff.mpr ⟨_, hflush, hrest⟩⟩

theorem flushAllPgsImp_append (ids rest : List PageId) (b : BufferPoolManagerInstance poolSize) :
    flushAllPgsImp (ids ++ rest) b = flushAllPgsImp ids b >>= flushAllPgsImp rest := by
  induction ids generalizing b with
  | nil => rfl
  | cons pageId ids ih =>
      obtain ⟨middle, hflush⟩ := flushPgImp_eq_ok b pageId
      rw [List.cons_append, flushAllPgsImp, flushAllPgsImp, hflush]
      exact ih middle

theorem Keyed.flushAllPgsImp (h : b.Keyed) (hok : flushAllPgsImp ids b = .ok final) :
    final.Keyed ∧ b.Flushed final ids := by
  induction ids generalizing b with
  | nil =>
      cases hok
      exact ⟨h, .refl _⟩
  | cons pageId rest ih =>
      obtain ⟨⟨result, middle⟩, hflush, hrest⟩ := Except.bind_eq_ok_iff.mp hok
      obtain ⟨hfinal, hflushed⟩ := ih (h.flushPgImp hflush) hrest
      exact ⟨hfinal, (flushed_flushPgImp hflush).trans h hflushed⟩

/-! ## What is written -/

/-- If the page is resident, the file has it as its frame does. -/
def Mirrors (b : BufferPoolManagerInstance poolSize) (pageId : PageId) : Prop :=
  ∀ f, b.pageTable pageId = some f → b.diskManager.pageOf pageId = (b.pages f).data

/-- If the page is resident, its frame is marked dirty and the write takes place, which also
depends on the pages that are flushed before it; or the file has the page as its frame does. -/
def WritesOut (b : BufferPoolManagerInstance poolSize) (earlier : List PageId) (pageId : PageId) :
    Prop :=
  ∀ f, b.pageTable pageId = some f →
    ((b.pages f).isDirty = true ∧ 0 ≤ pageId ∧ b.diskManager.failed = false ∧
      ∀ v ∈ earlier, v < 0 → ∀ g, b.pageTable v = some g → (b.pages g).isDirty = false) ∨
    b.diskManager.pageOf pageId = (b.pages f).data

/-- One flush. -/
theorem mirrors_flushPgImp_iff {result : Bool}
    (hok : b.flushPgImp pageId = .ok (result, final)) : final.Mirrors pageId ↔ b.WritesOut [] pageId := by
  rcases flushPgImp_cases hok with ⟨hmissing, -, rfl⟩ | ⟨f, hmapped, -, rfl⟩
  · exact iff_of_true (fun f hf => nomatch hmissing.symm.trans hf)
      fun f hf => nomatch hmissing.symm.trans hf
  · have hmirrors : ((b.writeBack f pageId).setPage f { b.pages f with isDirty := false }).Mirrors
        pageId ↔ (b.flushed f pageId).pageOf pageId = (b.pages f).data := by
      unfold Mirrors
      change (∀ g, b.pageTable pageId = some g → _) ↔ _
      simp [hmapped, setPage, writeBack, flushed]
    rw [hmirrors]
    simp only [WritesOut, hmapped, Option.some.injEq, forall_eq', List.not_mem_nil,
      false_imp_iff, implies_true, and_true]
    unfold flushed
    by_cases hdirty : (b.pages f).isDirty = true
    · rw [if_pos hdirty]
      by_cases hlost : b.diskManager.failed = true ∨ pageId < 0
      · rw [DiskManager.pageOf_writePage_of_lost hlost]
        refine (or_iff_right ?_).symm
        rintro ⟨-, hnonneg, hsound⟩
        rcases hlost with hfailed | hneg
        · exact Bool.eq_false_iff.mp hsound hfailed
        · exact not_lt.mpr hnonneg hneg
      · rw [not_or] at hlost
        have hsound := Bool.eq_false_iff.mpr hlost.1
        have hnonneg := not_lt.mp hlost.2
        exact iff_of_true (DiskManager.pageOf_writePage hsound hnonneg)
          (Or.inl ⟨hdirty, hnonneg, hsound⟩)
    · rw [if_neg hdirty]
      exact (or_iff_right fun hboth => hdirty hboth.1).symm

theorem Flushed.mirrors_iff (h : b.Flushed final ids) (hout : pageId ∉ ids) :
    final.Mirrors pageId ↔ b.Mirrors pageId := by
  unfold Mirrors
  rw [h.table, h.image pageId hout]
  simp only [h.data]

theorem Flushed.writesOut_iff (h : b.Flushed final ids) (hkeyed : b.Keyed) (hout : pageId ∉ ids) :
    final.WritesOut [] pageId ↔ b.WritesOut ids pageId := by
  unfold WritesOut
  rw [h.table, h.image pageId hout]
  refine forall₂_congr fun f hmapped => ?_
  have hdirty : (final.pages f).isDirty = true ↔ (b.pages f).isDirty = true := by
    rw [h.dirty]
    refine and_iff_left fun v hv hsame => hout ?_
    exact hkeyed.injective hsame hmapped ▸ hv
  have hfailed : final.diskManager.failed = false ↔ b.diskManager.failed = false ∧
      ∀ v ∈ ids, v < 0 → ∀ g, b.pageTable v = some g → (b.pages g).isDirty = false := by
    rw [← Bool.not_eq_true, h.failed]
    simp only [not_or, not_exists, not_and, Bool.not_eq_true]
  rw [hdirty, hfailed, h.data]
  simp only [List.not_mem_nil, false_imp_iff, implies_true, and_true]

/-- A page among those that are flushed ends up on the disk exactly if its frame can be written
in its turn, or need not be. -/
theorem mirrors_flushAllPgsImp_iff (h : b.Keyed) {before after : List PageId}
    (hnodup : (before ++ pageId :: after).Nodup)
    (hok : flushAllPgsImp (before ++ pageId :: after) b = .ok final) :
    final.Mirrors pageId ↔ b.WritesOut before pageId := by
  rw [flushAllPgsImp_append] at hok
  obtain ⟨middle, hbefore, hmiddle⟩ := Except.bind_eq_ok_iff.mp hok
  obtain ⟨⟨result, next⟩, hflush, hafter⟩ := Except.bind_eq_ok_iff.mp hmiddle
  obtain ⟨hkeyed, hflushed⟩ := h.flushAllPgsImp hbefore
  obtain ⟨-, hlater⟩ := (hkeyed.flushPgImp hflush).flushAllPgsImp hafter
  obtain ⟨-, htail, hdisjoint⟩ := List.nodup_append.mp hnodup
  have hnotBefore : pageId ∉ before := fun hmem => hdisjoint _ hmem _ List.mem_cons_self rfl
  rw [hlater.mirrors_iff (List.nodup_cons.mp htail).1, mirrors_flushPgImp_iff hflush,
    hflushed.writesOut_iff h hnotBefore]

/-! ## Runs -/

/-- An access of the pool, or a `FlushAllPages` that comes to the pages in this order. With other
ids than the resident ones the latter stands for as many calls of `FlushPage`. -/
inductive Activity (poolSize : Nat) where
  | access (a : Access poolSize)
  | flushAllPages (order : List PageId)

def act (b : BufferPoolManagerInstance poolSize) :
    Activity poolSize → Except PoolFault (Outcome poolSize × BufferPoolManagerInstance poolSize)
  | .access a => b.access a
  | .flushAllPages order => (flushAllPgsImp order b).map fun b => (.done true, b)

/-- The pool with clients that write to frames and call `FlushAllPages` as a machine. -/
def flushing (poolSize : Nat) :
    Machine (BufferPoolManagerInstance poolSize) (Activity poolSize) (Outcome poolSize) PoolFault :=
  ⟨act⟩

/-- An order in which the page table can be iterated. -/
structure Lists (b : BufferPoolManagerInstance poolSize) (order : List PageId) : Prop where
  nodup : order.Nodup
  mem : ∀ pageId, pageId ∈ order ↔ b.pageTable pageId ≠ none

/-- The file has these pages as their frames do, and nothing else has changed. -/
structure FlushesTo (b final : BufferPoolManagerInstance poolSize) (ids : List PageId) : Prop where
  mirrors : ∀ pageId ∈ ids, final.Mirrors pageId
  image : ∀ v ∉ ids, final.diskManager.pageOf v = b.diskManager.pageOf v
  table : final.pageTable = b.pageTable
  pinCount : ∀ f, (final.pages f).pinCount = (b.pages f).pinCount
  data : ∀ f, (final.pages f).data = (b.pages f).data

theorem Flushed.flushesTo (h : b.Flushed final ids)
    (hmirrors : ∀ pageId ∈ ids, final.Mirrors pageId) : b.FlushesTo final ids :=
  ⟨hmirrors, h.image, h.table, h.pinCount, h.data⟩

/-- A flush makes the file equal to the frames. -/
def FlushesToDisk (b : BufferPoolManagerInstance poolSize) : Activity poolSize → Prop
  | .access (.call (.flushPage pageId)) =>
      ∀ final, b.flushPgImp pageId = .ok (true, final) → b.FlushesTo final [pageId]
  | .flushAllPages order =>
      b.Lists order → ∀ final, flushAllPgsImp order b = .ok final → b.FlushesTo final order
  | _ => True

/-- The frames that a flush comes to are marked dirty and can be written, or the file has their
pages as they are. -/
def Flushable (b : BufferPoolManagerInstance poolSize) : Activity poolSize → Prop
  | .access (.call (.flushPage pageId)) => b.WritesOut [] pageId
  | .flushAllPages order => b.Lists order → ∀ before pageId after,
      order = before ++ pageId :: after → b.WritesOut before pageId
  | _ => True

theorem Keyed.act (h : b.Keyed) {a : Activity poolSize} {outcome : Outcome poolSize}
    (hstep : b.act a = .ok (outcome, final)) : final.Keyed := by
  cases a with
  | access a =>
      cases a with
      | call e => exact h.step hstep
      | write f data =>
          cases hstep
          exact h.setPage rfl
  | flushAllPages order =>
      obtain ⟨next, hok, heq⟩ := map_ok hstep
      cases heq
      exact (h.flushAllPgsImp hok).1

theorem Keyed.flushesToDisk_iff (h : b.Keyed) (a : Activity poolSize) :
    b.FlushesToDisk a ↔ b.Flushable a := by
  rcases a with (⟨e⟩ | ⟨f, data⟩) | order
  · cases e with
    | flushPage pageId =>
        obtain ⟨final, hflush⟩ := flushPgImp_eq_ok b pageId
        change (∀ final, _ → _) ↔ _
        constructor
        · intro hall f hmapped
          rw [hmapped] at hflush
          have hmirrors := (hall final hflush).mirrors pageId List.mem_cons_self
          exact (mirrors_flushPgImp_iff hflush).mp hmirrors f hmapped
        · intro hwrites final hflush
          refine (flushed_flushPgImp hflush).flushesTo fun other hmem => ?_
          cases List.mem_singleton.mp hmem
          exact (mirrors_flushPgImp_iff hflush).mpr hwrites
    | newPage | fetchPage _ | unpinPage _ _ | deletePage _ => exact Iff.rfl
  · exact Iff.rfl
  · refine forall_congr' fun hlists => ?_
    constructor
    · rintro hall before pageId after rfl
      obtain ⟨final, hflush⟩ := flushAllPgsImp_eq_ok (before ++ pageId :: after) b
      apply (mirrors_flushAllPgsImp_iff h hlists.nodup hflush).mp
      exact (hall final hflush).mirrors pageId (List.mem_append_right _ List.mem_cons_self)
    · intro hwrites final hflush
      refine (h.flushAllPgsImp hflush).2.flushesTo fun pageId hmem => ?_
      obtain ⟨before, after, rfl⟩ := List.append_of_mem hmem
      exact (mirrors_flushAllPgsImp_iff h hlists.nodup hflush).mpr (hwrites before pageId after rfl)

/-- Over any run, each flush makes the file equal to the frames exactly if each frame that a
flush comes to is marked dirty and can be written, or holds what the file has. -/
theorem run_flushesToDisk_iff (numInstances instanceIndex : Nat) (diskManager : DiskManager)
    (activities : List (Activity poolSize)) :
    (∀ before a after b, activities = before ++ a :: after →
      (flushing poolSize).Reaches (create poolSize numInstances instanceIndex diskManager) before b →
      b.FlushesToDisk a) ↔
    (flushing poolSize).Guarded Flushable
      (create poolSize numInstances instanceIndex diskManager) activities := by
  rw [Machine.guarded_iff_forall]
  refine forall₅_congr fun before a after b hsplit => forall_congr' fun hreach => ?_
  have hkeyed : b.Keyed := hreach.invariant_of_step Keyed
    (fun _ _ _ _ h hstep => h.act hstep) (keyed_create _ _ _)
  exact hkeyed.flushesToDisk_iff a

/-- A client writes to the new page that it has pinned. -/
def writtenNewPage : List (Activity 1) :=
  [.access (.call .newPage), .access (.write ⟨0, Nat.one_pos⟩ fun _ => 1)]

/-- `FlushPage` returns true, and the file has nothing of what was written. -/
theorem flushPage_writtenNewPage : ∃ b final : BufferPoolManagerInstance 1,
    (flushing 1).Reaches oneFrame writtenNewPage b ∧ b.flushPgImp 0 = .ok (true, final) ∧
      final.pageTable 0 = some 0 ∧ ((final.pages 0).data = fun _ => 1) ∧
      (final.diskManager.pageOf 0 = fun _ => 0) ∧
      ¬ b.FlushesToDisk (.access (.call (.flushPage 0))) := by
  have hzero : DiskManager.pageOf { bytes := fun _ => 0, size := 0 } 0 = fun _ => 0 :=
    DiskManager.pageOf_of_behind (by decide)
  refine ⟨_, _, ⟨_, rfl⟩, rfl, rfl, rfl, hzero, fun hflush => ?_⟩
  have hpage : (fun _ => 0 : PageData) = fun _ => 1 :=
    hzero.symm.trans ((hflush _ rfl).mirrors 0 List.mem_cons_self 0 rfl)
  have hpos : 0 < pageSize := by
    unfold pageSize
    omega
  have hbyte : (0 : UInt8) = 1 := congrFun hpage ⟨0, hpos⟩
  exact absurd hbyte (by decide)

end BusTub.BufferPoolManagerInstance
