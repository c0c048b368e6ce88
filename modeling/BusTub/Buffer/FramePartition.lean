import BusTub.Buffer.BufferPoolManagerInstance
import BusTub.Library.Machine

/-! # The partition of the frames

Free list, replacer and pin counts divide the frames among them, and the page
table is the inverse of the frames' page ids. Two operations can end this:
`DeletePage` of a resident page, which leaves the frame in the replacer, and
`NewPage` when the id that comes next is resident already.
-/

namespace BusTub.BufferPoolManagerInstance

variable {poolSize : Nat} {b final : BufferPoolManagerInstance poolSize}
  {out : Option (Fin poolSize)} {frameId f : Fin poolSize} {pageId : PageId}

/-! ## The frames and their places -/

/-- The frame's contents go to the disk if the frame is dirty. -/
def writeBack (b : BufferPoolManagerInstance poolSize) (frameId : Fin poolSize)
    (pageId : PageId) : BufferPoolManagerInstance poolSize :=
  { b with diskManager :=
      if (b.pages frameId).isDirty then b.diskManager.writePage pageId (b.pages frameId).data
      else b.diskManager }

theorem flushPg_of_mapped (hmapped : b.pageTable pageId = some frameId) :
    b.flushPg pageId = .ok (b.writeBack frameId pageId) := by
  unfold flushPg findPage writeBack
  rw [hmapped]
  dsimp only
  split <;> rfl

/-- What is left of the pool when a victim has been made a fresh frame. -/
def evict (b : BufferPoolManagerInstance poolSize) (frameId : Fin poolSize) :
    BufferPoolManagerInstance poolSize :=
  { b.writeBack frameId (b.pages frameId).pageId with
    replacer := b.replacer.victim.2
    pageTable := Function.update b.pageTable (b.pages frameId).pageId none
    pages := Function.update b.pages frameId { b.pages frameId with isDirty := false } }

/-- Every frame but `out`, which is in no place at all, is in the free list, in
the replacer, or pinned. -/
structure Frames (b : BufferPoolManagerInstance poolSize) (out : Option (Fin poolSize)) :
    Prop where
  replacer : b.replacer.WellFormed
  freeNodup : b.freeList.Nodup
  mapped : ∀ pageId f, b.pageTable pageId = some f ↔
    (b.pages f).pageId = pageId ∧ f ∉ b.freeList ∧ out ≠ some f
  freeId : ∀ f ∈ b.freeList, (b.pages f).pageId = invalidPageId
  freePin : ∀ f ∈ b.freeList, (b.pages f).pinCount = 0
  lru : ∀ f, f ∈ b.replacer.frames ↔ (b.pages f).pinCount = 0 ∧ f ∉ b.freeList ∧ out ≠ some f
  outside : ∀ f, out = some f → f ∉ b.freeList ∧ (b.pages f).pinCount = 0

theorem frames_create (numInstances instanceIndex : Nat) (diskManager : DiskManager) :
    (create poolSize numInstances instanceIndex diskManager).Frames none where
  replacer := LRUReplacer.wellFormed_empty
  freeNodup := List.nodup_finRange poolSize
  mapped pageId f := by simp [create]
  freeId f _ := rfl
  freePin f _ := rfl
  lru f := by simp [create, LRUReplacer.frames]
  outside f hout := nomatch hout

/-- Dirty flags, data and the disk do not matter. -/
theorem Frames.congr (h : b.Frames out) (htable : final.pageTable = b.pageTable)
    (hfree : final.freeList = b.freeList) (hreplacer : final.replacer = b.replacer)
    (hpages : ∀ f, (final.pages f).pageId = (b.pages f).pageId ∧
      (final.pages f).pinCount = (b.pages f).pinCount) : final.Frames out where
  replacer := hreplacer ▸ h.replacer
  freeNodup := hfree ▸ h.freeNodup
  mapped pageId f := by rw [htable, hfree, (hpages f).1]; exact h.mapped pageId f
  freeId f := by rw [hfree, (hpages f).1]; exact h.freeId f
  freePin f := by rw [hfree, (hpages f).2]; exact h.freePin f
  lru f := by rw [hreplacer, hfree, (hpages f).2]; exact h.lru f
  outside f := by rw [hfree, (hpages f).2]; exact h.outside f

theorem Frames.setPage (h : b.Frames out) {page : Page}
    (hid : page.pageId = (b.pages frameId).pageId)
    (hpin : page.pinCount = (b.pages frameId).pinCount) : (b.setPage frameId page).Frames out := by
  refine h.congr rfl rfl rfl (fun f => ?_)
  by_cases hf : f = frameId
  · subst hf
    simp [BufferPoolManagerInstance.setPage, hid, hpin]
  · simp [BufferPoolManagerInstance.setPage, hf]

theorem Frames.writeBack (h : b.Frames out) (frameId : Fin poolSize) (pageId : PageId) :
    (b.writeBack frameId pageId).Frames out :=
  h.congr rfl rfl rfl (fun _ => ⟨rfl, rfl⟩)

/-- The page table is injective. -/
theorem Frames.injective (h : b.Frames out) {other : PageId}
    (hone : b.pageTable pageId = some f) (htwo : b.pageTable other = some f) : pageId = other :=
  ((h.mapped _ _).mp hone).1.symm.trans ((h.mapped _ _).mp htwo).1

theorem Frames.takeFree (h : b.Frames none) {rest : List (Fin poolSize)}
    (hfree : b.freeList = frameId :: rest) :
    ({ b with freeList := rest } : BufferPoolManagerInstance poolSize).Frames (some frameId) := by
  have hmem : ∀ f, f ∈ b.freeList ↔ f = frameId ∨ f ∈ rest := by
    intro f
    rw [hfree, List.mem_cons]
  have hnodup := h.freeNodup
  rw [hfree, List.nodup_cons] at hnodup
  have hself := (hmem frameId).mpr (Or.inl rfl)
  refine ⟨h.replacer, hnodup.2, ?_, ?_, ?_, ?_, ?_⟩
  · intro pageId f
    rw [h.mapped, hmem]
    simp only [ne_eq, reduceCtorEq, not_false_eq_true, and_true, Option.some.injEq, not_or]
    tauto
  · exact fun f hf => h.freeId f ((hmem f).mpr (Or.inr hf))
  · exact fun f hf => h.freePin f ((hmem f).mpr (Or.inr hf))
  · intro f
    rw [h.lru, hmem]
    simp only [ne_eq, reduceCtorEq, not_false_eq_true, and_true, Option.some.injEq, not_or]
    tauto
  · rintro f hout
    cases hout
    exact ⟨hnodup.1, h.freePin _ hself⟩

theorem Frames.evict (h : b.Frames none) (hfree : b.freeList = [])
    (hvictim : b.replacer.victim.1 = some frameId) :
    (b.evict frameId).Frames (some frameId) := by
  obtain ⟨hlast, hrest⟩ := LRUReplacer.frames_victim (r := b.replacer)
  rw [hvictim] at hlast
  have hsplit : b.replacer.frames = b.replacer.victim.2.frames ++ [frameId] := by
    rw [hrest]
    exact (List.dropLast_append_getLast? frameId hlast.symm).symm
  have hnodup := h.replacer.nodup_frames
  rw [hsplit, List.nodup_append] at hnodup
  have hself := (h.lru frameId).mp (hsplit ▸ List.mem_append_right _ (List.mem_singleton_self _))
  have hpages : ∀ f, ((b.evict frameId).pages f).pageId = (b.pages f).pageId ∧
      ((b.evict frameId).pages f).pinCount = (b.pages f).pinCount := by
    intro f
    by_cases hf : f = frameId
    · subst hf
      simp [BufferPoolManagerInstance.evict]
    · simp [BufferPoolManagerInstance.evict, hf]
  have hnone : ∀ f : Fin poolSize, f ∉ (b.evict frameId).freeList := by
    intro f
    change f ∉ b.freeList
    rw [hfree]
    exact List.not_mem_nil
  refine ⟨h.replacer.victim, ?_, ?_, ?_, ?_, ?_, ?_⟩
  · change b.freeList.Nodup
    exact h.freeNodup
  · intro pageId f
    change Function.update b.pageTable (b.pages frameId).pageId none pageId = some f ↔ _
    rw [(hpages f).1]
    by_cases hpage : pageId = (b.pages frameId).pageId
    · subst hpage
      rw [Function.update_self]
      constructor
      · exact fun hno => nomatch hno
      · rintro ⟨hid, -, hne⟩
        -- two frames with one page id would both be the page table's answer
        have hother := (h.mapped _ f).mpr ⟨hid, by simp [hfree], by simp⟩
        have hvictimMapped := (h.mapped _ frameId).mpr ⟨rfl, by simp [hfree], by simp⟩
        rw [hvictimMapped] at hother
        exact absurd hother hne
    · rw [Function.update_of_ne hpage, h.mapped]
      constructor
      · rintro ⟨hid, -, -⟩
        refine ⟨hid, hnone f, ?_⟩
        rintro heq
        cases heq
        exact hpage hid.symm
      · rintro ⟨hid, -, -⟩
        exact ⟨hid, by simp [hfree], by simp⟩
  · exact fun f hf => absurd hf (hnone f)
  · exact fun f hf => absurd hf (hnone f)
  · intro f
    change f ∈ b.replacer.victim.2.frames ↔ _
    rw [(hpages f).2]
    have hlru := h.lru f
    rw [hsplit, List.mem_append, List.mem_singleton] at hlru
    constructor
    · intro hf
      refine ⟨(hlru.mp (Or.inl hf)).1, hnone f, ?_⟩
      rintro heq
      cases heq
      exact hnodup.2.2 _ hf _ (List.mem_singleton_self _) rfl
    · rintro ⟨hpin, -, hne⟩
      refine (hlru.mpr ⟨hpin, by simp [hfree], by simp⟩).resolve_right ?_
      rintro rfl
      exact hne rfl
  · rintro f hout
    cases hout
    exact ⟨hnone _, (hpages _).2 ▸ hself.1⟩

/-- `FindFreshPage` takes a free frame, or else the least recently used unpinned
one; it has no frame to give only when every frame is pinned. -/
theorem findFreshPage_spec (h : b.Frames none) :
    (∃ frameId rest, b.freeList = frameId :: rest ∧
      b.findFreshPage = .ok (some frameId, { b with freeList := rest })) ∨
    (∃ frameId, b.freeList = [] ∧ b.replacer.victim.1 = some frameId ∧
      b.findFreshPage = .ok (some frameId, b.evict frameId)) ∨
    (b.freeList = [] ∧ b.replacer.victim.1 = none ∧ b.findFreshPage = .ok (none, b)) := by
  cases hfree : b.freeList with
  | cons frameId rest =>
      refine Or.inl ⟨frameId, rest, rfl, ?_⟩
      unfold findFreshPage
      rw [hfree]
  | nil =>
      refine Or.inr ?_
      rcases hvictim : b.replacer.victim with ⟨result, replacer⟩
      cases result with
      | none =>
          refine Or.inr ⟨rfl, rfl, ?_⟩
          unfold findFreshPage
          rw [hfree, hvictim]
      | some frameId =>
          refine Or.inl ⟨frameId, rfl, rfl, ?_⟩
          have hmem : frameId ∈ b.replacer.frames := by
            have hlast := (LRUReplacer.frames_victim (r := b.replacer)).1
            rw [hvictim] at hlast
            exact List.mem_of_getLast? hlast.symm
          have hmapped := (h.mapped (b.pages frameId).pageId frameId).mpr
            ⟨rfl, ((h.lru frameId).mp hmem).2⟩
          have hflush := @flushPg_of_mapped _ { b with replacer := replacer } frameId _ hmapped
          have hreplacer : replacer = b.replacer.victim.2 := by rw [hvictim]
          subst hreplacer
          unfold findFreshPage
          split
          next hcons => exact absurd (hfree.symm.trans hcons) (by simp)
          next =>
            rw [hvictim]
            dsimp only
            rw [hflush]
            rfl

theorem findFreshPage_fresh (h : b.Frames none)
    (hok : b.findFreshPage = .ok (some frameId, final)) :
    final.Frames (some frameId) ∧ (b.pages frameId).pinCount = 0 ∧
      final.nextPageId = b.nextPageId := by
  rcases findFreshPage_spec h with
    ⟨f, rest, hfree, hresult⟩ | ⟨f, hfree, hvictim, hresult⟩ | ⟨-, -, hresult⟩
  · cases hresult.symm.trans hok
    exact ⟨h.takeFree hfree, h.freePin _ (hfree ▸ List.mem_cons_self), rfl⟩
  · cases hresult.symm.trans hok
    refine ⟨h.evict hfree hvictim, ?_, rfl⟩
    refine ((h.lru frameId).mp ?_).1
    have hlast := (LRUReplacer.frames_victim (r := b.replacer)).1
    rw [hvictim] at hlast
    exact List.mem_of_getLast? hlast.symm
  · cases hresult.symm.trans hok

theorem findFreshPage_none (h : b.Frames none) (hok : b.findFreshPage = .ok (none, final)) :
    final = b := by
  rcases findFreshPage_spec h with ⟨f, rest, -, hresult⟩ | ⟨f, -, -, hresult⟩ | ⟨-, -, hresult⟩
  · cases hresult.symm.trans hok
  · cases hresult.symm.trans hok
  · cases hresult.symm.trans hok
    rfl

/-- Making room maps no page. -/
theorem findFreshPage_unmapped (h : b.Frames none)
    (hok : b.findFreshPage = .ok (some frameId, final)) (hnone : b.pageTable pageId = none) :
    final.pageTable pageId = none := by
  rcases findFreshPage_spec h with ⟨f, rest, -, hresult⟩ | ⟨f, -, -, hresult⟩ | ⟨-, -, hresult⟩
  · cases hresult.symm.trans hok
    exact hnone
  · cases hresult.symm.trans hok
    change Function.update b.pageTable (b.pages frameId).pageId none pageId = none
    by_cases hpage : pageId = (b.pages frameId).pageId
    · rw [hpage, Function.update_self]
    · rw [Function.update_of_ne hpage, hnone]
  · cases hresult.symm.trans hok

/-! ## The operations -/

/-- A fresh frame gets a page that is not resident, with its first pin. -/
theorem Frames.install (h : b.Frames (some frameId)) (hnone : b.pageTable pageId = none)
    (htable : final.pageTable = Function.update b.pageTable pageId (some frameId))
    (hfree : final.freeList = b.freeList) (hreplacer : final.replacer.WellFormed)
    (hlru : ∀ f, f ∈ final.replacer.frames ↔ f ∈ b.replacer.frames)
    (hpages : ∀ f, f ≠ frameId → final.pages f = b.pages f)
    (hid : (final.pages frameId).pageId = pageId)
    (hpin : (final.pages frameId).pinCount = (b.pages frameId).pinCount + 1) :
    final.Frames none := by
  obtain ⟨hout, hzero⟩ := h.outside frameId rfl
  have hne : ∀ f ∈ b.freeList, f ≠ frameId := by
    rintro f hf rfl
    exact hout hf
  refine ⟨hreplacer, hfree ▸ h.freeNodup, ?_, ?_, ?_, ?_, fun f hnot => nomatch hnot⟩
  · intro other f
    rw [htable, hfree]
    simp only [ne_eq, reduceCtorEq, not_false_eq_true, and_true]
    by_cases hf : f = frameId
    · subst hf
      rw [hid]
      by_cases hother : other = pageId
      · simp [hother, hout]
      · have hunmapped : b.pageTable other ≠ some f := fun hmap => ((h.mapped _ _).mp hmap).2.2 rfl
        simp [hother, hunmapped, Ne.symm hother]
    · have hsome : (some frameId : Option (Fin poolSize)) ≠ some f :=
        fun heq => hf (Option.some.inj heq).symm
      have hmapped := h.mapped other f
      rw [hpages f hf]
      by_cases hother : other = pageId
      · subst hother
        rw [hnone] at hmapped
        simp only [reduceCtorEq, false_iff, not_and] at hmapped
        rw [Function.update_self]
        simp only [hsome, false_iff, not_and]
        exact fun hone htwo => hmapped hone htwo hsome
      · rw [Function.update_of_ne hother, hmapped]
        simp [hsome]
  · intro f hf
    rw [hfree] at hf
    rw [hpages f (hne f hf)]
    exact h.freeId f hf
  · intro f hf
    rw [hfree] at hf
    rw [hpages f (hne f hf)]
    exact h.freePin f hf
  · intro f
    rw [hlru, hfree, h.lru]
    by_cases hf : f = frameId
    · subst hf
      simp [hpin]
    · have hsome : (some frameId : Option (Fin poolSize)) ≠ some f :=
        fun heq => hf (Option.some.inj heq).symm
      simp [hpages f hf, hsome]

/-- The pin count of a resident frame changes, and the replacer follows it. -/
theorem Frames.repin (h : b.Frames none) (hmapped : b.pageTable pageId = some frameId)
    (htable : final.pageTable = b.pageTable) (hfree : final.freeList = b.freeList)
    (hreplacer : final.replacer.WellFormed)
    (hlru : ∀ f, f ≠ frameId → (f ∈ final.replacer.frames ↔ f ∈ b.replacer.frames))
    (hself : frameId ∈ final.replacer.frames ↔ (final.pages frameId).pinCount = 0)
    (hpages : ∀ f, f ≠ frameId → final.pages f = b.pages f)
    (hid : (final.pages frameId).pageId = (b.pages frameId).pageId) : final.Frames none := by
  have hout := ((h.mapped _ _).mp hmapped).2.1
  have hids : ∀ f, (final.pages f).pageId = (b.pages f).pageId := by
    intro f
    by_cases hf : f = frameId
    · rw [hf, hid]
    · rw [hpages f hf]
  refine ⟨hreplacer, hfree ▸ h.freeNodup, ?_, ?_, ?_, ?_, fun f hnot => nomatch hnot⟩
  · intro other f
    rw [htable, hfree, hids]
    exact h.mapped other f
  · intro f
    rw [hfree, hids]
    exact h.freeId f
  · intro f hf
    rw [hfree] at hf
    rw [hpages f (fun heq => hout (heq ▸ hf))]
    exact h.freePin f hf
  · intro f
    by_cases hf : f = frameId
    · subst hf
      simp [hself, hfree, hout]
    · rw [hlru f hf, hfree, hpages f hf]
      exact h.lru f

/-- `NewPage` with a fresh frame. -/
def installNew (b : BufferPoolManagerInstance poolSize) (frameId : Fin poolSize) :
    BufferPoolManagerInstance poolSize :=
  { b with
    nextPageId := toInt32 (b.nextPageId + b.numInstances)
    pageTable := Function.update b.pageTable b.nextPageId (some frameId)
    pages := Function.update b.pages frameId { b.pages frameId with
      pinCount := (b.pages frameId).pinCount + 1, pageId := b.nextPageId, data := fun _ => 0 } }

theorem newPg_cases {result : Option (PageId × Fin poolSize)}
    (hok : b.newPg = .ok (result, final)) :
    (result = none ∧ b.findFreshPage = .ok (none, final)) ∨
    ∃ frameId middle, b.findFreshPage = .ok (some frameId, middle) ∧
      result = some (middle.nextPageId, frameId) ∧ final = middle.installNew frameId := by
  unfold newPg at hok
  rcases hfresh : b.findFreshPage with fault | ⟨_ | frameId, middle⟩
  · rw [hfresh] at hok
    cases hok
  · rw [hfresh] at hok
    cases hok
    exact Or.inl ⟨rfl, rfl⟩
  · rw [hfresh] at hok
    refine Or.inr ⟨frameId, middle, rfl, ?_⟩
    change (middle.allocatePage >>= fun allocated => _) = _ at hok
    unfold allocatePage at hok
    split at hok
    · cases hok
      exact ⟨rfl, rfl⟩
    · cases hok

/-- `FetchPage` of a resident page. -/
def pinHit (b : BufferPoolManagerInstance poolSize) (frameId : Fin poolSize) :
    BufferPoolManagerInstance poolSize :=
  { b with
    replacer := b.replacer.pin frameId
    pages := Function.update b.pages frameId { b.pages frameId with
      pinCount := (b.pages frameId).pinCount + 1, isDirty := true } }

/-- `FetchPage` with a fresh frame. -/
def installRead (b : BufferPoolManagerInstance poolSize) (frameId : Fin poolSize)
    (pageId : PageId) : BufferPoolManagerInstance poolSize :=
  let (data, diskManager) := b.diskManager.readPage pageId (b.pages frameId).data
  { b with
    pageTable := Function.update b.pageTable pageId (some frameId)
    replacer := b.replacer.pin frameId
    diskManager := diskManager
    pages := Function.update b.pages frameId { b.pages frameId with
      data := data, pageId := pageId, pinCount := (b.pages frameId).pinCount + 1
      isDirty := false } }

theorem fetchPg_cases {result : Option (Fin poolSize)}
    (hok : b.fetchPg pageId = .ok (result, final)) :
    (∃ frameId, b.pageTable pageId = some frameId ∧ result = some frameId ∧
      final = b.pinHit frameId) ∨
    (b.pageTable pageId = none ∧ result = none ∧ b.findFreshPage = .ok (none, final)) ∨
    ∃ frameId middle, b.pageTable pageId = none ∧
      b.findFreshPage = .ok (some frameId, middle) ∧ result = some frameId ∧
      final = middle.installRead frameId pageId := by
  unfold fetchPg findPage at hok
  cases hpage : b.pageTable pageId with
  | some frameId =>
      rw [hpage] at hok
      cases hok
      exact Or.inl ⟨frameId, rfl, rfl, rfl⟩
  | none =>
      rw [hpage] at hok
      refine Or.inr ?_
      rcases hfresh : b.findFreshPage with fault | ⟨_ | frameId, middle⟩
      · rw [hfresh] at hok
        cases hok
      · rw [hfresh] at hok
        cases hok
        exact Or.inl ⟨rfl, rfl, rfl⟩
      · rw [hfresh] at hok
        cases hok
        exact Or.inr ⟨frameId, middle, rfl, rfl, rfl, rfl⟩

/-- `UnpinPage` up to the test of the pin count. -/
def unpinned (b : BufferPoolManagerInstance poolSize) (frameId : Fin poolSize) (isDirty : Bool) :
    BufferPoolManagerInstance poolSize :=
  b.setPage frameId { b.pages frameId with
    isDirty := isDirty, pinCount := (b.pages frameId).pinCount - 1 }

/-- `UnpinPage` that gave back the last pin. -/
def released (b : BufferPoolManagerInstance poolSize) (frameId : Fin poolSize)
    (pageId : PageId) (isDirty : Bool) : BufferPoolManagerInstance poolSize :=
  { (b.unpinned frameId isDirty).writeBack frameId pageId with
    replacer := b.replacer.unpin frameId }

theorem unpinPg_cases {isDirty result : Bool}
    (hok : b.unpinPg pageId isDirty = .ok (result, final)) :
    (result = false ∧ final = b ∧
      ∀ frameId, b.pageTable pageId = some frameId → (b.pages frameId).pinCount = 0) ∨
    ∃ frameId, b.pageTable pageId = some frameId ∧ (b.pages frameId).pinCount ≠ 0 ∧
      result = true ∧
      ((b.pages frameId).pinCount - 1 = 0 ∧ final = b.released frameId pageId isDirty ∨
        (b.pages frameId).pinCount - 1 ≠ 0 ∧ final = b.unpinned frameId isDirty) := by
  unfold unpinPg findPage at hok
  cases hpage : b.pageTable pageId with
  | none =>
      rw [hpage] at hok
      cases hok
      exact Or.inl ⟨rfl, rfl, fun _ hnot => nomatch hnot⟩
  | some frameId =>
      rw [hpage] at hok
      dsimp only at hok
      by_cases hzero : (b.pages frameId).pinCount = 0
      · rw [if_pos hzero] at hok
        cases hok
        refine Or.inl ⟨rfl, rfl, ?_⟩
        rintro f hf
        cases hf
        exact hzero
      · rw [if_neg hzero] at hok
        refine Or.inr ⟨frameId, rfl, hzero, ?_⟩
        by_cases hlast : (b.pages frameId).pinCount - 1 = 0
        · rw [if_pos hlast] at hok
          change (flushPg { b.unpinned frameId isDirty with
            replacer := b.replacer.unpin frameId } pageId >>= fun flushed => _) = _ at hok
          rw [@flushPg_of_mapped _ { b.unpinned frameId isDirty with
            replacer := b.replacer.unpin frameId } frameId pageId hpage] at hok
          cases hok
          exact ⟨rfl, Or.inl ⟨hlast, rfl⟩⟩
        · rw [if_neg hlast] at hok
          cases hok
          exact ⟨rfl, Or.inr ⟨hlast, rfl⟩⟩

theorem flushPgImp_cases {result : Bool} (hok : b.flushPgImp pageId = .ok (result, final)) :
    (b.pageTable pageId = none ∧ result = false ∧ final = b) ∨
    ∃ frameId, b.pageTable pageId = some frameId ∧ result = true ∧
      final = (b.writeBack frameId pageId).setPage frameId
        { b.pages frameId with isDirty := false } := by
  unfold flushPgImp findPage at hok
  cases hpage : b.pageTable pageId with
  | none =>
      rw [hpage] at hok
      cases hok
      exact Or.inl ⟨rfl, rfl, rfl⟩
  | some frameId =>
      rw [hpage] at hok
      dsimp only at hok
      rw [flushPg_of_mapped hpage] at hok
      cases hok
      exact Or.inr ⟨frameId, rfl, rfl, rfl⟩

theorem Frames.installNew (h : b.Frames (some frameId))
    (hnone : b.pageTable b.nextPageId = none) : (b.installNew frameId).Frames none := by
  refine h.install hnone rfl rfl h.replacer (fun _ => Iff.rfl) ?_ ?_ ?_
  · exact fun f hf => Function.update_of_ne hf _ _
  · simp [BufferPoolManagerInstance.installNew]
  · simp [BufferPoolManagerInstance.installNew]

theorem Frames.installRead (h : b.Frames (some frameId)) (hnone : b.pageTable pageId = none) :
    (b.installRead frameId pageId).Frames none := by
  refine h.install hnone rfl rfl h.replacer.pin ?_ ?_ ?_ ?_
  · intro f
    change f ∈ (b.replacer.pin frameId).frames ↔ _
    rw [h.replacer.mem_frames_pin]
    refine ⟨And.left, fun hf => ⟨hf, ?_⟩⟩
    rintro rfl
    exact ((h.lru f).mp hf).2.2 rfl
  · exact fun f hf => Function.update_of_ne hf _ _
  · simp [BufferPoolManagerInstance.installRead]
  · simp [BufferPoolManagerInstance.installRead]

theorem Frames.pinHit (h : b.Frames none) (hmapped : b.pageTable pageId = some frameId) :
    (b.pinHit frameId).Frames none := by
  refine h.repin hmapped rfl rfl h.replacer.pin ?_ ?_ ?_ ?_
  · intro f hf
    change f ∈ (b.replacer.pin frameId).frames ↔ _
    rw [h.replacer.mem_frames_pin]
    exact ⟨And.left, fun hmem => ⟨hmem, hf⟩⟩
  · change frameId ∈ (b.replacer.pin frameId).frames ↔ _
    rw [h.replacer.mem_frames_pin]
    simp [BufferPoolManagerInstance.pinHit]
  · exact fun f hf => Function.update_of_ne hf _ _
  · simp [BufferPoolManagerInstance.pinHit]

theorem Frames.unpinned (h : b.Frames none) (hmapped : b.pageTable pageId = some frameId)
    (hpinned : (b.pages frameId).pinCount ≠ 0) (hlast : (b.pages frameId).pinCount - 1 ≠ 0)
    (isDirty : Bool) : (b.unpinned frameId isDirty).Frames none := by
  refine h.repin hmapped rfl rfl h.replacer (fun _ _ => Iff.rfl) ?_ ?_ ?_
  · change frameId ∈ b.replacer.frames ↔ _
    rw [h.lru]
    simp [BufferPoolManagerInstance.unpinned, BufferPoolManagerInstance.setPage, hpinned, hlast]
  · exact fun f hf => Function.update_of_ne hf _ _
  · simp [BufferPoolManagerInstance.unpinned, BufferPoolManagerInstance.setPage]

theorem Frames.released (h : b.Frames none) (hmapped : b.pageTable pageId = some frameId)
    (hlast : (b.pages frameId).pinCount - 1 = 0) (isDirty : Bool) :
    (b.released frameId pageId isDirty).Frames none := by
  refine h.repin hmapped rfl rfl h.replacer.unpin ?_ ?_ ?_ ?_
  · intro f hf
    change f ∈ (b.replacer.unpin frameId).frames ↔ _
    rw [h.replacer.mem_frames_unpin]
    simp [hf]
  · change frameId ∈ (b.replacer.unpin frameId).frames ↔ _
    rw [h.replacer.mem_frames_unpin]
    simp [BufferPoolManagerInstance.released, BufferPoolManagerInstance.writeBack,
      BufferPoolManagerInstance.unpinned, BufferPoolManagerInstance.setPage, hlast]
  · exact fun f hf => Function.update_of_ne hf _ _
  · simp [BufferPoolManagerInstance.released, BufferPoolManagerInstance.writeBack,
      BufferPoolManagerInstance.unpinned, BufferPoolManagerInstance.setPage]

theorem Frames.fetchPg (h : b.Frames none) {result : Option (Fin poolSize)}
    (hok : b.fetchPg pageId = .ok (result, final)) : final.Frames none := by
  rcases fetchPg_cases hok with ⟨f, hpage, -, rfl⟩ | ⟨-, -, hfresh⟩ |
    ⟨f, middle, hpage, hfresh, -, rfl⟩
  · exact h.pinHit hpage
  · exact (findFreshPage_none h hfresh) ▸ h
  · refine (findFreshPage_fresh h hfresh).1.installRead ?_
    exact findFreshPage_unmapped h hfresh hpage

theorem Frames.unpinPg (h : b.Frames none) {isDirty result : Bool}
    (hok : b.unpinPg pageId isDirty = .ok (result, final)) : final.Frames none := by
  rcases unpinPg_cases hok with ⟨-, rfl, -⟩ |
    ⟨f, hpage, hpinned, -, ⟨hlast, rfl⟩ | ⟨hlast, rfl⟩⟩
  · exact h
  · exact h.released hpage hlast isDirty
  · exact h.unpinned hpage hpinned hlast isDirty

theorem Frames.flushPgImp (h : b.Frames none) {result : Bool}
    (hok : b.flushPgImp pageId = .ok (result, final)) : final.Frames none := by
  rcases flushPgImp_cases hok with ⟨-, -, rfl⟩ | ⟨f, -, -, rfl⟩
  · exact h
  · exact (h.writeBack f pageId).setPage rfl rfl

/-! ## Runs -/

/-- The calls of the public interface. -/
inductive Event where
  | newPage
  | fetchPage (pageId : PageId)
  | unpinPage (pageId : PageId) (isDirty : Bool)
  | flushPage (pageId : PageId)
  | deletePage (pageId : PageId)
  deriving DecidableEq, Repr

/-- What a call returns; a page is its id and its frame. -/
inductive Outcome (poolSize : Nat) where
  | page (result : Option (PageId × Fin poolSize))
  | done (result : Bool)

/-- One call. -/
def step (b : BufferPoolManagerInstance poolSize) :
    Event → Except PoolFault (Outcome poolSize × BufferPoolManagerInstance poolSize)
  | .newPage => b.newPg.map (fun (result, b) => (.page result, b))
  | .fetchPage pageId => (b.fetchPg pageId).map
      (fun (result, b) => (.page (result.map (fun frameId => (pageId, frameId))), b))
  | .unpinPage pageId isDirty => (b.unpinPg pageId isDirty).map
      (fun (result, b) => (.done result, b))
  | .flushPage pageId => (b.flushPgImp pageId).map (fun (result, b) => (.done result, b))
  | .deletePage pageId =>
      let (result, b) := b.deletePg pageId
      .ok (.done result, b)

/-- The buffer pool instance as a machine. -/
def machine (poolSize : Nat) :
    Machine (BufferPoolManagerInstance poolSize) Event (Outcome poolSize) PoolFault := ⟨step⟩

/-- `DeletePage` meets no resident page that nobody has pinned, and `NewPage`
comes to no page id that is resident once it has made room. -/
def KeepsFrames (b : BufferPoolManagerInstance poolSize) : Event → Prop
  | .newPage => ∀ frameId middle, b.findFreshPage = .ok (some frameId, middle) →
      middle.pageTable middle.nextPageId = none
  | .deletePage pageId => ∀ frameId, b.pageTable pageId = some frameId →
      (b.pages frameId).pinCount ≠ 0
  | _ => True

/-- Some page id is mapped to the frame. -/
def Resident (b : BufferPoolManagerInstance poolSize) (frameId : Fin poolSize) : Prop :=
  ∃ pageId, b.pageTable pageId = some frameId

/-- Each frame is in exactly one place: once in the free list, once in the
replacer, or pinned; the page table is the inverse of the resident frames' ids. -/
structure FramePartition (b : BufferPoolManagerInstance poolSize) : Prop where
  free : ∀ f ∈ b.freeList, b.freeList.count f = 1 ∧ f ∉ b.replacer.frames ∧
    (b.pages f).pinCount = 0
  lru : ∀ f ∈ b.replacer.frames, b.replacer.frames.count f = 1 ∧ f ∉ b.freeList ∧
    (b.pages f).pinCount = 0 ∧ b.Resident f
  pinned : ∀ f, 0 < (b.pages f).pinCount → f ∉ b.freeList ∧ f ∉ b.replacer.frames ∧ b.Resident f
  somewhere : ∀ f, f ∈ b.freeList ∨ f ∈ b.replacer.frames ∨ 0 < (b.pages f).pinCount
  injective : ∀ pageId other f, b.pageTable pageId = some f → b.pageTable other = some f →
    pageId = other
  mapped : ∀ pageId f, b.pageTable pageId = some f ↔
    (b.pages f).pageId = pageId ∧ f ∉ b.freeList
  freeId : ∀ f ∈ b.freeList, (b.pages f).pageId = invalidPageId

/-- `NewPage` and a `FetchPage` that misses hand out frames that nobody has pinned. -/
structure ReusesUnpinned (b : BufferPoolManagerInstance poolSize) : Prop where
  newPage : ∀ pageId frameId next, b.newPg = .ok (some (pageId, frameId), next) →
    (b.pages frameId).pinCount = 0
  fetchPage : ∀ pageId frameId next, b.pageTable pageId = none →
    b.fetchPg pageId = .ok (some frameId, next) → (b.pages frameId).pinCount = 0

theorem Frames.framePartition (h : b.Frames none) : b.FramePartition := by
  have hresident : ∀ f, f ∉ b.freeList → b.Resident f :=
    fun f hf => ⟨_, (h.mapped _ f).mpr ⟨rfl, hf, by simp⟩⟩
  refine ⟨?_, ?_, ?_, ?_, fun _ _ _ => h.injective, ?_, h.freeId⟩
  · intro f hf
    refine ⟨List.count_eq_one_of_mem h.freeNodup hf, ?_, h.freePin f hf⟩
    exact fun hmem => ((h.lru f).mp hmem).2.1 hf
  · intro f hf
    obtain ⟨hpin, hfree, -⟩ := (h.lru f).mp hf
    exact ⟨List.count_eq_one_of_mem h.replacer.nodup_frames hf, hfree, hpin, hresident f hfree⟩
  · intro f hf
    have hfree : f ∉ b.freeList := fun hmem => absurd (h.freePin f hmem) (by omega)
    refine ⟨hfree, fun hmem => ?_, hresident f hfree⟩
    exact absurd ((h.lru f).mp hmem).1 (by omega)
  · intro f
    by_cases hfree : f ∈ b.freeList
    · exact Or.inl hfree
    · by_cases hpin : (b.pages f).pinCount = 0
      · exact Or.inr (Or.inl ((h.lru f).mpr ⟨hpin, hfree, by simp⟩))
      · exact Or.inr (Or.inr (Nat.pos_of_ne_zero hpin))
  · intro pageId f
    simpa using h.mapped pageId f

theorem Frames.reusesUnpinned (h : b.Frames none) : b.ReusesUnpinned where
  newPage pageId frameId next hok := by
    rcases newPg_cases hok with ⟨hnone, -⟩ | ⟨f, middle, hfresh, hsome, -⟩
    · cases hnone
    · cases hsome
      exact (findFreshPage_fresh h hfresh).2.1
  fetchPage pageId frameId next hmiss hok := by
    rcases fetchPg_cases hok with ⟨f, hpage, -⟩ | ⟨-, hnone, -⟩ | ⟨f, middle, -, hfresh, hsome, -⟩
    · cases hmiss.symm.trans hpage
    · cases hnone
    · cases hsome
      exact (findFreshPage_fresh h hfresh).2.1

theorem map_ok {α β : Type} {result : Except PoolFault α} {g : α → β} {value : β}
    (hok : result.map g = .ok value) : ∃ raw, result = .ok raw ∧ g raw = value := by
  cases result with
  | error fault => cases hok
  | ok raw => exact ⟨raw, rfl, Except.ok.inj hok⟩

theorem Frames.step (h : b.Frames none) {e : Event} {outcome : Outcome poolSize}
    (hguard : b.KeepsFrames e) (hstep : b.step e = .ok (outcome, final)) : final.Frames none := by
  cases e with
  | newPage =>
      obtain ⟨⟨result, next⟩, hok, heq⟩ := map_ok hstep
      cases heq
      rcases newPg_cases hok with ⟨-, hfresh⟩ | ⟨f, middle, hfresh, -, rfl⟩
      · exact (findFreshPage_none h hfresh) ▸ h
      · exact (findFreshPage_fresh h hfresh).1.installNew (hguard f middle hfresh)
  | fetchPage pageId =>
      obtain ⟨⟨result, next⟩, hok, heq⟩ := map_ok hstep
      cases heq
      exact h.fetchPg hok
  | unpinPage pageId isDirty =>
      obtain ⟨⟨result, next⟩, hok, heq⟩ := map_ok hstep
      cases heq
      exact h.unpinPg hok
  | flushPage pageId =>
      obtain ⟨⟨result, next⟩, hok, heq⟩ := map_ok hstep
      cases heq
      exact h.flushPgImp hok
  | deletePage pageId =>
      cases hpage : b.pageTable pageId with
      | none =>
          simp only [BufferPoolManagerInstance.step, deletePg, findPage, hpage] at hstep
          cases hstep
          exact h
      | some f =>
          simp only [BufferPoolManagerInstance.step, deletePg, findPage, hpage,
            if_pos (hguard f hpage)] at hstep
          cases hstep
          exact h

/-- A step that does not meet the guard ends the partition at once. -/
theorem not_framePartition_of_step (h : b.Frames none) {e : Event} {outcome : Outcome poolSize}
    (hguard : ¬ b.KeepsFrames e) (hstep : b.step e = .ok (outcome, final)) :
    ¬ final.FramePartition := by
  cases e with
  | newPage =>
      obtain ⟨⟨result, next⟩, hok, heq⟩ := map_ok hstep
      cases heq
      simp only [KeepsFrames, not_forall] at hguard
      obtain ⟨f, middle, hfresh, hmapped⟩ := hguard
      obtain ⟨hframes, -, -⟩ := findFreshPage_fresh h hfresh
      obtain ⟨other, hother⟩ := Option.ne_none_iff_exists'.mp hmapped
      obtain ⟨hid, hfree, hne⟩ := (hframes.mapped _ _).mp hother
      rcases newPg_cases hok with ⟨-, hnone⟩ | ⟨f', middle', hfresh', -, rfl⟩
      · cases hnone.symm.trans hfresh
      · cases hfresh'.symm.trans hfresh
        -- the old frame of the page id is resident no longer, but carries the id
        intro hpartition
        have hdiffer : other ≠ f := fun heq => hne (heq ▸ rfl)
        have hkept := (hpartition.mapped middle.nextPageId other).mpr ?_
        · simp only [BufferPoolManagerInstance.installNew, Function.update_self,
            Option.some.injEq] at hkept
          exact hdiffer hkept.symm
        · simp [BufferPoolManagerInstance.installNew, hdiffer, hid, hfree]
  | deletePage pageId =>
      simp only [KeepsFrames, not_forall, not_not] at hguard
      obtain ⟨f, hpage, hzero⟩ := hguard
      simp only [BufferPoolManagerInstance.step, deletePg, findPage, hpage, hzero, ne_eq,
        not_true_eq_false, if_false] at hstep
      cases hstep
      -- the frame goes to the free list and stays in the replacer
      intro hpartition
      have hlru := (h.lru f).mpr ⟨hzero, ((h.mapped _ _).mp hpage).2⟩
      exact (hpartition.lru f hlru).2.1 (List.mem_append_right _ (List.mem_singleton_self f))
  | fetchPage _ | unpinPage _ _ | flushPage _ => exact absurd trivial hguard

/-- The partition of the frames holds throughout exactly the runs that delete no
resident unpinned page and allocate no resident page id. -/
theorem framePartition_iff {numInstances instanceIndex : Nat} {diskManager : DiskManager}
    {events : List Event}
    (hreach : (machine poolSize).Reaches (create poolSize numInstances instanceIndex diskManager)
      events final) :
    (∀ before after middle, events = before ++ after →
      (machine poolSize).Reaches (create poolSize numInstances instanceIndex diskManager) before
        middle → middle.FramePartition ∧ middle.ReusesUnpinned) ↔
    (machine poolSize).Guarded KeepsFrames
      (create poolSize numInstances instanceIndex diskManager) events := by
  refine hreach.guarded_iff (fun b => b.Frames none)
    (fun b => b.FramePartition ∧ b.ReusesUnpinned) ?_ ?_ ?_ (frames_create _ _ _)
  · exact fun b h => ⟨h.framePartition, h.reusesUnpinned⟩
  · exact fun b e outcome next h hguard hstep => h.step hguard hstep
  · exact fun b e outcome next h hguard hstep hboth =>
      not_framePartition_of_step h hguard hstep hboth.1

/-- One frame on an empty file. -/
def oneFrame : BufferPoolManagerInstance 1 := create 1 1 0 { bytes := fun _ => 0, size := 0 }

/-- The page of the only frame makes way for a new one, and is deleted afterwards. -/
def replacedPage : List Event :=
  [.newPage, .unpinPage 0 true, .newPage, .deletePage 0]

theorem framePartition_iff_replacedPage : ∃ final,
    (machine 1).Reaches oneFrame replacedPage final ∧ (final.pages 0).pinCount = 1 ∧
      ∀ before after middle, replacedPage = before ++ after →
        (machine 1).Reaches oneFrame before middle →
          middle.FramePartition ∧ middle.ReusesUnpinned := by
  refine ⟨_, ⟨_, rfl⟩, rfl, (framePartition_iff ⟨_, rfl⟩).mpr ?_⟩
  refine (Machine.guarded_cons_of_step rfl _).mpr ⟨?_, ?_⟩
  · rintro _ _ ⟨⟩
    rfl
  refine (Machine.guarded_cons_of_step rfl _).mpr ⟨trivial, ?_⟩
  refine (Machine.guarded_cons_of_step rfl _).mpr ⟨?_, ?_⟩
  · rintro _ _ ⟨⟩
    rfl
  exact (Machine.guarded_cons_of_step rfl _).mpr ⟨nofun, trivial⟩

/-- A page is deleted, and its frame is used for a new page. -/
def deletedPage : List Event := [.newPage, .unpinPage 0 false, .deletePage 0, .newPage]

/-- The deleted page's frame is still in the replacer, from where the next
`NewPage` takes it although it is pinned. -/
theorem deletedPage_not_framePartition : ∃ final,
    (machine 1).Reaches oneFrame deletedPage final ∧ (final.pages 0).pinCount = 1 ∧
      ¬ final.FramePartition ∧ ¬ final.ReusesUnpinned := by
  refine ⟨_, ⟨_, rfl⟩, rfl, fun hpartition => ?_, fun hreuses => ?_⟩
  · exact (hpartition.pinned 0 (by decide)).2.1 (by decide)
  · exact absurd (hreuses.newPage _ 0 _ rfl) (by decide)

end BusTub.BufferPoolManagerInstance
