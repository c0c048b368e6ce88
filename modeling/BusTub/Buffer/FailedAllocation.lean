import BusTub.Buffer.Residue

/-! # When the pool has no frame to give

`NewPage`, and `FetchPage` of a page that is not resident, give nothing exactly when every frame
is pinned, and then they have changed nothing. That a frame without pins can be found is the part
of the frame partition that needs no care of the callers: while no page is deleted it holds also
when `NewPage` allocates the id of a resident page.
-/

namespace BusTub.BufferPoolManagerInstance

variable {poolSize : Nat} {b final middle : BufferPoolManagerInstance poolSize}
  {out : Option (Fin poolSize)} {f : Fin poolSize} {pageId : PageId}

/-- The frames without pins are those in the free list, those in the replacer and `out`, which is
in neither. -/
structure Placed (b : BufferPoolManagerInstance poolSize) (out : Option (Fin poolSize)) :
    Prop where
  replacer : b.replacer.WellFormed
  freeNodup : b.freeList.Nodup
  zero : ∀ f, (b.pages f).pinCount = 0 ↔
    f ∈ b.freeList ∨ f ∈ b.replacer.frames ∨ out = some f
  apart : ∀ f ∈ b.freeList, f ∉ b.replacer.frames
  outside : ∀ f, out = some f → f ∉ b.freeList ∧ f ∉ b.replacer.frames
  used : ∀ pageId f, b.pageTable pageId = some f → f ∉ b.freeList

theorem placed_create (numInstances instanceIndex : Nat) (diskManager : DiskManager) :
    (create poolSize numInstances instanceIndex diskManager).Placed none where
  replacer := LRUReplacer.wellFormed_empty
  freeNodup := List.nodup_finRange poolSize
  zero f := by simp [create]
  apart f _ := List.not_mem_nil
  outside f hout := nomatch hout
  used pageId f hmapped := nomatch hmapped

/-- One frame in use gets other pins, and the replacer follows it. -/
theorem Placed.settle (h : b.Placed out) (hout : ∀ g, out = some g → g = f)
    (hused : f ∉ b.freeList) (hfree : final.freeList = b.freeList)
    (hreplacer : final.replacer.WellFormed)
    (hlru : ∀ g, g ≠ f → (g ∈ final.replacer.frames ↔ g ∈ b.replacer.frames))
    (hself : f ∈ final.replacer.frames ↔ (final.pages f).pinCount = 0)
    (hpins : ∀ g, g ≠ f → (final.pages g).pinCount = (b.pages g).pinCount)
    (htable : ∀ pageId g, final.pageTable pageId = some g →
      g = f ∨ b.pageTable pageId = some g) : final.Placed none where
  replacer := hreplacer
  freeNodup := hfree ▸ h.freeNodup
  zero g := by
    rw [hfree]
    by_cases hg : g = f
    · subst hg
      simp [hself, hused]
    · have hother : out ≠ some g := fun heq => hg (hout g heq)
      rw [hpins g hg, hlru g hg, h.zero]
      simp [hother]
  apart g hmem := by
    rw [hfree] at hmem
    have hg : g ≠ f := fun heq => hused (heq ▸ hmem)
    rw [hlru g hg]
    exact h.apart g hmem
  outside g hnone := nomatch hnone
  used pageId g hmapped := by
    rw [hfree]
    rcases htable pageId g hmapped with rfl | hbefore
    · exact hused
    · exact h.used pageId g hbefore

/-- The frame that is taken has no pins. -/
theorem Placed.findFreshPage (h : b.Placed none)
    (hok : b.findFreshPage = .ok (some f, middle)) : middle.Placed (some f) := by
  rcases findFreshPage_cases hok with ⟨rest, hfree⟩ | ⟨g, hfree, hvictim, hmapped⟩
  · cases (findFreshPage_of_free hfree).symm.trans hok
    have hmem : ∀ g, g ∈ b.freeList ↔ g = f ∨ g ∈ rest := by
      intro g
      rw [hfree, List.mem_cons]
    have hnodup := h.freeNodup
    rw [hfree, List.nodup_cons] at hnodup
    refine ⟨h.replacer, hnodup.2, fun g => ?_, fun g hg => ?_, ?_, fun pageId g hg hrest => ?_⟩
    · rw [h.zero, hmem]
      simp only [reduceCtorEq, or_false, Option.some.injEq]
      tauto
    · exact h.apart g ((hmem g).mpr (Or.inr hg))
    · rintro g hout
      cases hout
      exact ⟨hnodup.1, h.apart f ((hmem f).mpr (Or.inl rfl))⟩
    · exact h.used pageId g hg ((hmem g).mpr (Or.inr hrest))
  · cases (findFreshPage_of_victim hfree hvictim hmapped).symm.trans hok
    obtain ⟨hlast, hrest⟩ := LRUReplacer.frames_victim (r := b.replacer)
    rw [hvictim] at hlast
    have hsplit : b.replacer.frames = b.replacer.victim.2.frames ++ [f] := by
      rw [hrest]
      exact (List.dropLast_append_getLast? f hlast.symm).symm
    have hnodup := h.replacer.nodup_frames
    rw [hsplit, List.nodup_append] at hnodup
    have hnone : ∀ g, g ∉ (b.takeVictim f g).freeList := by
      intro g
      change g ∉ b.freeList
      exact hfree ▸ List.not_mem_nil
    refine ⟨h.replacer.victim, h.freeNodup, fun h' => ?_, ?_, ?_, ?_⟩
    · have hpin : ((b.takeVictim f g).pages h').pinCount = (b.pages h').pinCount := by
        by_cases hf : h' = f
        · simp [takeVictim, hf]
        · simp [takeVictim, hf]
      change _ ↔ h' ∈ b.freeList ∨ h' ∈ b.replacer.victim.2.frames ∨ _
      rw [hpin, h.zero, hsplit, hfree, List.mem_append, List.mem_singleton]
      simp only [reduceCtorEq, or_false, Option.some.injEq, eq_comm]
    · intro h' hmem
      exact absurd (hfree ▸ hmem : h' ∈ ([] : List (Fin poolSize))) List.not_mem_nil
    · rintro h' hout
      cases hout
      refine ⟨?_, fun hmem => hnodup.2.2 _ hmem _ (List.mem_singleton_self _) rfl⟩
      change f ∉ b.freeList
      exact hfree ▸ List.not_mem_nil
    · intro pageId h' _
      change h' ∉ b.freeList
      exact hfree ▸ List.not_mem_nil

theorem Placed.setPage (h : b.Placed none) {page : Page}
    (hpin : page.pinCount = (b.pages f).pinCount) : (b.setPage f page).Placed none where
  replacer := h.replacer
  freeNodup := h.freeNodup
  zero g := by
    have hsame : ((b.setPage f page).pages g).pinCount = (b.pages g).pinCount := by
      by_cases hg : g = f
      · simp [BufferPoolManagerInstance.setPage, hg, hpin]
      · simp [BufferPoolManagerInstance.setPage, hg]
    exact hsame ▸ h.zero g
  apart := h.apart
  outside := h.outside
  used := h.used

theorem Placed.installNew (h : b.Placed (some f)) : (b.installNew f).Placed none := by
  obtain ⟨hfree, hlru⟩ := h.outside f rfl
  refine h.settle (fun g hg => (Option.some.inj hg).symm) hfree rfl h.replacer (fun _ _ => Iff.rfl)
    ?_ (fun g hg => ?_) fun pageId g hmapped => ?_
  · exact iff_of_false hlru (by simp [BufferPoolManagerInstance.installNew])
  · simp [BufferPoolManagerInstance.installNew, hg]
  · by_cases hpage : pageId = b.nextPageId
    · left
      simpa [BufferPoolManagerInstance.installNew, hpage, eq_comm] using hmapped
    · right
      simpa [BufferPoolManagerInstance.installNew, hpage] using hmapped

theorem Placed.installRead (h : b.Placed (some f)) : (b.installRead f pageId).Placed none := by
  obtain ⟨hfree, hlru⟩ := h.outside f rfl
  refine h.settle (fun g hg => (Option.some.inj hg).symm) hfree rfl h.replacer.pin
    (fun g hg => ?_) ?_ (fun g hg => ?_) fun v g hmapped => ?_
  · change g ∈ (b.replacer.pin f).frames ↔ _
    rw [h.replacer.mem_frames_pin]
    exact and_iff_left hg
  · change f ∈ (b.replacer.pin f).frames ↔ _
    rw [h.replacer.mem_frames_pin]
    simp [BufferPoolManagerInstance.installRead]
  · simp [BufferPoolManagerInstance.installRead, hg]
  · by_cases hpage : v = pageId
    · left
      simpa [BufferPoolManagerInstance.installRead, hpage, eq_comm] using hmapped
    · right
      simpa [BufferPoolManagerInstance.installRead, hpage] using hmapped

theorem Placed.pinHit (h : b.Placed none) (hmapped : b.pageTable pageId = some f) :
    (b.pinHit f).Placed none := by
  refine h.settle nofun (h.used pageId f hmapped) rfl h.replacer.pin (fun g hg => ?_) ?_
    (fun g hg => ?_) fun v g hv => Or.inr hv
  · change g ∈ (b.replacer.pin f).frames ↔ _
    rw [h.replacer.mem_frames_pin]
    exact and_iff_left hg
  · change f ∈ (b.replacer.pin f).frames ↔ _
    rw [h.replacer.mem_frames_pin]
    simp [BufferPoolManagerInstance.pinHit]
  · simp [BufferPoolManagerInstance.pinHit, hg]

theorem Placed.unpinPg (h : b.Placed none) {isDirty result : Bool}
    (hok : b.unpinPg pageId isDirty = .ok (result, final)) : final.Placed none := by
  rcases unpinPg_cases hok with ⟨-, rfl, -⟩ |
    ⟨f, hmapped, hpinned, -, ⟨hlast, rfl⟩ | ⟨hlast, rfl⟩⟩
  · exact h
  · refine h.settle nofun (h.used pageId f hmapped) rfl h.replacer.unpin (fun g hg => ?_) ?_
      (fun g hg => ?_) fun v g hv => Or.inr hv
    · change g ∈ (b.replacer.unpin f).frames ↔ _
      rw [h.replacer.mem_frames_unpin]
      exact or_iff_left hg
    · change f ∈ (b.replacer.unpin f).frames ↔ _
      rw [h.replacer.mem_frames_unpin]
      simp [released, writeBack, unpinned, BufferPoolManagerInstance.setPage, hlast]
    · simp [released, writeBack, unpinned, BufferPoolManagerInstance.setPage, hg]
  · have hlru : f ∉ b.replacer.frames :=
      fun hmem => hpinned ((h.zero f).mpr (Or.inr (Or.inl hmem)))
    refine h.settle nofun (h.used pageId f hmapped) rfl h.replacer (fun _ _ => Iff.rfl) ?_
      (fun g hg => ?_) fun v g hv => Or.inr hv
    · refine iff_of_false hlru ?_
      simpa [unpinned, BufferPoolManagerInstance.setPage] using hlast
    · simp [unpinned, BufferPoolManagerInstance.setPage, hg]

/-- No call but `DeletePage` takes a frame from where it is found. -/
theorem Placed.access (h : b.Placed none) {a : Access poolSize} {outcome : Outcome poolSize}
    (hdelete : ∀ pageId, a ≠ .call (.deletePage pageId))
    (hstep : b.access a = .ok (outcome, final)) : final.Placed none := by
  cases a with
  | write f data =>
      cases hstep
      exact h.setPage rfl
  | call e =>
      cases e with
      | newPage =>
          obtain ⟨⟨result, next⟩, hok, heq⟩ := map_ok hstep
          cases heq
          rcases newPg_cases hok with ⟨-, hfresh⟩ | ⟨f, middle, hfresh, -, rfl⟩
          · exact (findFreshPage_eq_none hfresh) ▸ h
          · exact (h.findFreshPage hfresh).installNew
      | fetchPage pageId =>
          obtain ⟨⟨result, next⟩, hok, heq⟩ := map_ok hstep
          cases heq
          rcases fetchPg_cases hok with ⟨f, hmapped, -, rfl⟩ | ⟨-, -, hfresh⟩ |
            ⟨f, middle, -, hfresh, -, rfl⟩
          · exact h.pinHit hmapped
          · exact (findFreshPage_eq_none hfresh) ▸ h
          · exact (h.findFreshPage hfresh).installRead
      | unpinPage pageId isDirty =>
          obtain ⟨⟨result, next⟩, hok, heq⟩ := map_ok hstep
          cases heq
          exact h.unpinPg hok
      | flushPage pageId =>
          obtain ⟨⟨result, next⟩, hok, heq⟩ := map_ok hstep
          cases heq
          rcases flushPgImp_cases hok with ⟨-, -, rfl⟩ | ⟨f, -, -, rfl⟩
          · exact h
          · have hback : (b.writeBack f pageId).Placed none :=
              ⟨h.replacer, h.freeNodup, h.zero, h.apart, h.outside, h.used⟩
            exact hback.setPage rfl
      | deletePage pageId => exact absurd rfl (hdelete pageId)

/-! ## When nothing is given -/

theorem findFreshPage_none_iff : (∃ final, b.findFreshPage = .ok (none, final)) ↔
    b.freeList = [] ∧ b.replacer.frames = [] := by
  have hvictim : b.replacer.victim.1 = b.replacer.frames.getLast? := LRUReplacer.frames_victim.1
  constructor
  · rintro ⟨final, hok⟩
    unfold findFreshPage at hok
    split at hok
    next => cases hok
    next hfree =>
      split at hok
      next replacer hnone =>
        rw [hnone] at hvictim
        exact ⟨hfree, List.getLast?_eq_none_iff.mp hvictim.symm⟩
      next =>
        obtain ⟨flushed, -, hsome⟩ := Except.bind_eq_ok_iff.mp hok
        cases hsome
  · rintro ⟨hfree, hframes⟩
    rw [hframes] at hvictim
    refine ⟨b, ?_⟩
    unfold findFreshPage
    split
    next rest hcons => cases hfree.symm.trans hcons
    next =>
      split
      next => rfl
      next f replacer hsome =>
        rw [hsome] at hvictim
        cases hvictim

theorem Placed.findFreshPage_none_iff (h : b.Placed none) :
    (∃ final, b.findFreshPage = .ok (none, final)) ↔ ∀ f, 0 < (b.pages f).pinCount := by
  rw [BufferPoolManagerInstance.findFreshPage_none_iff]
  simp only [List.eq_nil_iff_forall_not_mem, ← forall_and, Nat.pos_iff_ne_zero, ne_eq, h.zero,
    not_or, reduceCtorEq, not_false_eq_true, and_true]

theorem newPg_none_iff : b.newPg = .ok (none, final) ↔ b.findFreshPage = .ok (none, final) := by
  constructor
  · intro hok
    rcases newPg_cases hok with ⟨-, hfresh⟩ | ⟨f, middle, -, hsome, -⟩
    · exact hfresh
    · cases hsome
  · intro hfresh
    unfold newPg
    rw [hfresh]
    rfl

theorem fetchPg_none_iff : b.fetchPg pageId = .ok (none, final) ↔
    b.pageTable pageId = none ∧ b.findFreshPage = .ok (none, final) := by
  constructor
  · intro hok
    rcases fetchPg_cases hok with ⟨f, -, hsome, -⟩ | ⟨hmiss, -, hfresh⟩ |
      ⟨f, middle, -, -, hsome, -⟩
    · cases hsome
    · exact ⟨hmiss, hfresh⟩
    · cases hsome
  · rintro ⟨hmiss, hfresh⟩
    unfold fetchPg findPage
    rw [hmiss]
    dsimp only
    rw [hfresh]
    rfl

/-- After any run without `DeletePage`, `NewPage` gives nothing exactly when every frame is
pinned, `FetchPage` exactly when moreover the page is not resident, and then the pool is as it
was. -/
theorem run_allocation_fails_iff (numInstances instanceIndex : Nat) (diskManager : DiskManager)
    {accesses : List (Access poolSize)}
    (hcalls : ∀ pageId, .call (.deletePage pageId) ∉ accesses)
    (hreach : (memory poolSize).Reaches (create poolSize numInstances instanceIndex diskManager)
      accesses b) :
    ((∃ final, b.newPg = .ok (none, final)) ↔ ∀ f, 0 < (b.pages f).pinCount) ∧
    (∀ final, b.newPg = .ok (none, final) → final = b) ∧
    ∀ pageId,
      ((∃ final, b.fetchPg pageId = .ok (none, final)) ↔
        b.pageTable pageId = none ∧ ∀ f, 0 < (b.pages f).pinCount) ∧
      ∀ final, b.fetchPg pageId = .ok (none, final) → final = b := by
  have hguarded : (memory poolSize).Guarded
      (fun _ a => ∀ pageId, a ≠ .call (.deletePage pageId))
      (create poolSize numInstances instanceIndex diskManager) accesses := by
    refine Machine.guarded_of_forall_mem _ fun a ha pageId heq => ?_
    exact hcalls pageId (heq ▸ ha)
  have hplaced : b.Placed none := hreach.invariant (fun b => b.Placed none)
    (fun _ _ _ _ h hdelete hstep => h.access hdelete hstep) hguarded (placed_create _ _ _)
  have hfresh := hplaced.findFreshPage_none_iff
  refine ⟨?_, fun final hok => findFreshPage_eq_none (newPg_none_iff.mp hok), fun pageId =>
    ⟨?_, fun final hok => findFreshPage_eq_none (fetchPg_none_iff.mp hok).2⟩⟩
  · simp only [newPg_none_iff]
    exact hfresh
  · simp only [fetchPg_none_iff, exists_and_left]
    exact and_congr_right fun _ => hfresh

/-- The one frame is pinned. -/
theorem run_allocation_fails_iff_oneFrame : ∃ b final other : BufferPoolManagerInstance 1,
    (memory 1).Reaches oneFrame [.call .newPage] b ∧
      b.newPg = .ok (none, final) ∧ final = b ∧
      b.fetchPg 1 = .ok (none, other) ∧ other = b := by
  have hreach : (memory 1).Reaches oneFrame [.call .newPage]
      (BufferPoolManagerInstance.installNew { oneFrame with freeList := [] } 0) := ⟨_, rfl⟩
  obtain ⟨hnew, hnewSame, hfetch⟩ := run_allocation_fails_iff 1 0 _ (by simp) hreach
  obtain ⟨final, hfinal⟩ := hnew.mpr (by decide)
  obtain ⟨other, hother⟩ := (hfetch 1).1.mpr ⟨rfl, by decide⟩
  exact ⟨_, final, other, hreach, hfinal, hnewSame final hfinal, hother, (hfetch 1).2 other hother⟩

end BusTub.BufferPoolManagerInstance
