import BusTub.Buffer.UnsavedPages

/-! # Clients that declare their changes

A client that gives back its last pin of a page with `is_dirty` whenever the page has
changed since it was last given back so never has a page evicted unsaved. A small pool then
gives it what a pool that never evicts would.
-/

namespace BusTub

open DiskManager (Addressable Stored)

/-- A pool that never evicts, with the pages as they were last given back with `is_dirty`. -/
structure TrackedPool extends KeepingPool where
  declared : PageId → Option PageData := fun _ => none

namespace TrackedPool

/-- The pool before the client's first call. -/
def of {poolSize : Nat} (b : BufferPoolManagerInstance poolSize) : TrackedPool where
  toKeepingPool := .of b

/-- What is declared after a call. -/
def declaredAfter {ε : Type} (t : TrackedPool) : PoolCall ε → PageId → Option PageData
  | .unpinPage pageId true =>
      if t.pins pageId = 1 then Function.update t.declared pageId (t.pages pageId) else t.declared
  | _ => t.declared

/-- The calls of the client, one after the other. -/
def handler (ε : Type) :
    Handler (PoolCall.Returns (ε := ε)) TrackedPool (PoolCall.Fault ε) where
  step t call :=
    match (KeepingPool.handler ε).step t.toKeepingPool call with
    | .error fault => .error fault
    | .ok (result, k) => .ok (result, { k with declared := t.declaredAfter call })

/-- The last pin of a page that has changed is given back with `is_dirty`. -/
def Declares {ε : Type} (t : TrackedPool) : PoolCall ε → Prop
  | .unpinPage pageId false => t.pins pageId = 1 → t.declared pageId = t.pages pageId
  | _ => True

instance : DecidableEq PageData := fun first second =>
  decidable_of_iff (∀ i, first i = second i) funext_iff.symm

instance {ε : Type} (t : TrackedPool) : DecidablePred (Declares (ε := ε) t)
  | .unpinPage pageId false =>
      inferInstanceAs (Decidable (t.pins pageId = 1 → t.declared pageId = t.pages pageId))
  | .unpinPage _ true | .newPage | .fetchPage _ | .access _ _ | .fetchOther _ | .unpinOther _ _
  | .fail _ => inferInstanceAs (Decidable True)

variable {ε α : Type} {t t' : TrackedPool} {k' : KeepingPool}

theorem exists_step {call : PoolCall ε} {result : call.Returns}
    (hstep : (KeepingPool.handler ε).step t.toKeepingPool call = .ok (result, k')) :
    (handler ε).step t call = .ok (result, { k' with declared := t.declaredAfter call }) := by
  simp only [handler, hstep]

theorem step_of_ok {call : PoolCall ε} {result : call.Returns}
    (hstep : (handler ε).step t call = .ok (result, t')) :
    (KeepingPool.handler ε).step t.toKeepingPool call = .ok (result, t'.toKeepingPool) ∧
      t'.declared = t.declaredAfter call := by
  cases hkeeping : (KeepingPool.handler ε).step t.toKeepingPool call with
  | error fault =>
      simp only [handler, hkeeping] at hstep
      cases hstep
  | ok answer =>
      obtain ⟨returned, k⟩ := answer
      simp only [handler, hkeeping] at hstep
      cases hstep
      exact ⟨rfl, rfl⟩

theorem declaredAfter_unpin_of_ne {pageId : PageId} {isDirty : Bool}
    (hkept : ¬ (isDirty = true ∧ t.pins pageId = 1)) :
    t.declaredAfter (ε := ε) (.unpinPage pageId isDirty) = t.declared := by
  cases isDirty with
  | true => exact if_neg fun hone => hkept ⟨rfl, hone⟩
  | false => rfl

theorem declaredAfter_unpin_other {pageId other : PageId} (hne : other ≠ pageId) {isDirty : Bool} :
    t.declaredAfter (ε := ε) (.unpinPage pageId isDirty) other = t.declared other := by
  by_cases hlast : isDirty = true ∧ t.pins pageId = 1
  · obtain ⟨rfl, hone⟩ := hlast
    simp only [declaredAfter, if_pos hone, Function.update_of_ne hne]
  · rw [declaredAfter_unpin_of_ne hlast]

/-- A page without pins is as it was declared. -/
def Idle (t : TrackedPool) : Prop :=
  ∀ pageId, t.pins pageId = 0 → t.declared pageId = t.pages pageId

theorem Idle.step (h : t.Idle) {call : PoolCall ε} {result : call.Returns}
    (hdeclares : t.Declares call) (hstep : (handler ε).step t call = .ok (result, t')) :
    t'.Idle := by
  obtain ⟨hkeeping, hdeclared⟩ := step_of_ok hstep
  intro other hzero
  rw [hdeclared]
  cases call with
  | newPage =>
      rw [(KeepingPool.newPage_spec hkeeping).2] at hzero ⊢
      have hne : other ≠ t.nextPageId := by
        rintro rfl
        simp at hzero
      dsimp only at hzero ⊢
      rw [Function.update_of_ne hne] at hzero ⊢
      exact h other hzero
  | fetchPage pageId =>
      rw [(KeepingPool.fetchPage_spec hkeeping).2] at hzero ⊢
      have hne : other ≠ pageId := by
        rintro rfl
        simp at hzero
      dsimp only at hzero ⊢
      rw [Function.update_of_ne hne] at hzero
      exact h other hzero
  | access pageId change =>
      obtain ⟨-, hpins, hk⟩ := KeepingPool.access_spec hkeeping
      rw [hk] at hzero ⊢
      have hne : other ≠ pageId := by
        rintro rfl
        exact hpins hzero
      dsimp only at hzero ⊢
      rw [Function.update_of_ne hne]
      exact h other hzero
  | unpinPage pageId isDirty =>
      rw [KeepingPool.unpinPage_spec hkeeping] at hzero ⊢
      dsimp only at hzero ⊢
      by_cases heq : other = pageId
      · subst heq
        rw [Function.update_self] at hzero
        by_cases hone : t.pins other = 1
        · cases isDirty with
          | true => simp only [declaredAfter, if_pos hone, Function.update_self]
          | false => exact hdeclares hone
        · rw [declaredAfter_unpin_of_ne fun hlast => hone hlast.2]
          exact h other (by omega)
      · rw [Function.update_of_ne heq] at hzero
        rw [declaredAfter_unpin_other heq]
        exact h other hzero
  | fetchOther pageId =>
      rw [KeepingPool.others_spec false (Or.inl hkeeping)] at hzero ⊢
      exact h other hzero
  | unpinOther pageId isDirty =>
      rw [KeepingPool.others_spec isDirty (Or.inr hkeeping)] at hzero ⊢
      exact h other hzero
  | fail fault => cases hkeeping

end TrackedPool

namespace BufferPoolManagerInstance

variable {poolSize : Nat} {b final : BufferPoolManagerInstance poolSize}
  {declared declared' : PageId → Option PageData} {pins pins' : PageId → Nat}
  {own own' : List PageId} {frameId : Fin poolSize} {pageId : PageId}

/-- The frames of the client's pages have the pins of the client and no others, and what is
declared is on the disk. -/
structure Saves (b : BufferPoolManagerInstance poolSize) (declared : PageId → Option PageData)
    (pins : PageId → Nat) (own : List PageId) : Prop where
  pinned : ∀ pageId ∈ own, ∀ frameId, b.pageTable pageId = some frameId →
    (b.pages frameId).pinCount = pins pageId
  stored : ∀ pageId data, declared pageId = some data → b.diskManager.Stored pageId data
  addressable : ∀ pageId data, declared pageId = some data → Addressable pageId
  own : ∀ pageId data, declared pageId = some data → pageId ∈ own

/-- What a page holds when it is written to the disk is what will be declared, if anything. -/
theorem Saves.stored_writePage (h : b.Saves declared pins own) (hdisk : b.diskManager.Healthy)
    (haddr : Addressable pageId) {data : PageData}
    (hothers : ∀ other, other ≠ pageId → declared' other = declared other)
    (hself : ∀ saved, declared' pageId = some saved → saved = data) {other : PageId}
    {saved : PageData} (hother : declared' other = some saved) :
    (b.diskManager.writePage pageId data).Stored other saved := by
  by_cases heq : other = pageId
  · subst heq
    rw [hself saved hother]
    exact DiskManager.stored_writePage hdisk haddr
  · rw [hothers other heq] at hother
    exact (h.stored other saved hother).writePage_of_ne hdisk haddr
      (h.addressable other saved hother) (Ne.symm heq)

/-- The victim's page is one of others, or it is on the disk as it was declared. -/
theorem Saves.evict (h : b.Saves declared pins own) (hdisk : b.diskManager.Healthy)
    (haddr : Addressable (b.pages frameId).pageId)
    (hclean : ∀ saved, declared (b.pages frameId).pageId = some saved →
      saved = (b.pages frameId).data) : (b.evict frameId).Saves declared pins own where
  pinned other hmem f hmapped := by
    rw [(pages_evict f).2]
    exact h.pinned other hmem f (pageTable_of_evict hmapped)
  stored other saved hother := by
    change (b.writeBack frameId (b.pages frameId).pageId).diskManager.Stored other saved
    unfold writeBack
    dsimp only
    split
    · exact h.stored_writePage hdisk haddr (fun _ _ => rfl) hclean hother
    · exact h.stored other saved hother
  addressable := h.addressable
  own := h.own

/-- The state of a pool between two calls, where a page without pins holds what was declared of
it. -/
structure Settled (b : BufferPoolManagerInstance poolSize)
    (declared : PageId → Option PageData) : Prop where
  frames : b.Frames none
  disk : b.diskManager.Healthy
  resident : ∀ pageId frameId, b.pageTable pageId = some frameId → Addressable pageId
  clean : ∀ pageId frameId, b.pageTable pageId = some frameId → (b.pages frameId).pinCount = 0 →
    ∀ saved, declared pageId = some saved → saved = (b.pages frameId).data

theorem Settled.healthy_findFreshPage (hb : b.Settled declared)
    {result : Option (Fin poolSize)} (hok : b.findFreshPage = .ok (result, final)) :
    final.diskManager.Healthy := by
  have hsaves : b.SavesVictim [] := by
    intro _ _ _ hmem
    cases hmem
  refine ((keeps_none hb.disk hb.resident).findFreshPage hb.frames hsaves ?_ hok).disk
  intro _ _ hpage
  cases hpage

theorem Saves.findFreshPage (h : b.Saves declared pins own) (hb : b.Settled declared)
    {result : Option (Fin poolSize)}
    (hok : b.findFreshPage = .ok (result, final)) : final.Saves declared pins own := by
  rcases findFreshPage_spec hb.frames with
    ⟨f, rest, -, hresult⟩ | ⟨f, hfree, hvictim, hresult⟩ | ⟨-, -, hresult⟩
  · cases hresult.symm.trans hok
    exact ⟨h.pinned, h.stored, h.addressable, h.own⟩
  · cases hresult.symm.trans hok
    have hlast := (LRUReplacer.frames_victim (r := b.replacer)).1
    rw [hvictim] at hlast
    have hlru := (hb.frames.lru f).mp (List.mem_of_getLast? hlast.symm)
    have hmapped := (hb.frames.mapped _ f).mpr ⟨rfl, hlru.2⟩
    exact h.evict hb.disk (hb.resident _ f hmapped) (hb.clean _ f hmapped hlru.1)
  · cases hresult.symm.trans hok
    exact h

/-- A fresh frame gets a page with its first pin, which may be the client's. -/
theorem Saves.install (h : b.Saves declared pins own) (hframes : b.Frames (some frameId))
    (hdisk : final.diskManager = b.diskManager)
    (htable : final.pageTable = Function.update b.pageTable pageId (some frameId))
    (hpages : ∀ f, f ≠ frameId → final.pages f = b.pages f)
    (hothers : ∀ other, other ≠ pageId → pins' other = pins other ∧ (other ∈ own' → other ∈ own))
    (hsub : ∀ other ∈ own, other ∈ own')
    (hpins : pageId ∈ own' → (final.pages frameId).pinCount = pins' pageId) :
    final.Saves declared pins' own' := by
  refine ⟨?_, ?_, h.addressable, fun other saved hother => hsub other (h.own other saved hother)⟩
  · intro other hmem f hmapped
    rw [htable] at hmapped
    by_cases heq : other = pageId
    · subst heq
      rw [Function.update_self, Option.some.injEq] at hmapped
      subst hmapped
      exact hpins hmem
    · rw [Function.update_of_ne heq] at hmapped
      have hne : f ≠ frameId := by
        rintro rfl
        exact ((hframes.mapped _ _).mp hmapped).2.2 rfl
      rw [hpages f hne, (hothers other heq).1]
      exact h.pinned other ((hothers other heq).2 hmem) f hmapped
  · intro other saved hother
    rw [hdisk]
    exact h.stored other saved hother

/-- The pins of a resident page change. -/
theorem Saves.repin (h : b.Saves declared pins own) (hframes : b.Frames none)
    (hmapped : b.pageTable pageId = some frameId) (htable : final.pageTable = b.pageTable)
    (hpages : ∀ f, f ≠ frameId → final.pages f = b.pages f)
    (hothers : ∀ other, other ≠ pageId →
      pins' other = pins other ∧ declared' other = declared other)
    (hpins : pageId ∈ own → (final.pages frameId).pinCount = pins' pageId)
    (hself : ∀ saved, declared' pageId = some saved →
      Addressable pageId ∧ pageId ∈ own ∧ final.diskManager.Stored pageId saved)
    (hstored : ∀ other saved, other ≠ pageId → declared other = some saved →
      final.diskManager.Stored other saved) : final.Saves declared' pins' own := by
  refine ⟨?_, ?_, ?_, ?_⟩
  · intro other hmem f hother
    rw [htable] at hother
    by_cases heq : other = pageId
    · subst heq
      cases hmapped.symm.trans hother
      exact hpins hmem
    · have hne : f ≠ frameId := by
        rintro rfl
        exact heq (hframes.injective hother hmapped)
      rw [hpages f hne, (hothers other heq).1]
      exact h.pinned other hmem f hother
  · intro other saved hother
    by_cases heq : other = pageId
    · subst heq
      exact (hself saved hother).2.2
    · rw [(hothers other heq).2] at hother
      exact hstored other saved heq hother
  · intro other saved hother
    by_cases heq : other = pageId
    · subst heq
      exact (hself saved hother).1
    · rw [(hothers other heq).2] at hother
      exact h.addressable other saved hother
  · intro other saved hother
    by_cases heq : other = pageId
    · subst heq
      exact (hself saved hother).2.1
    · rw [(hothers other heq).2] at hother
      exact h.own other saved hother

/-! ## The calls of the pool -/

/-- `NewPage` for the client. -/
theorem Saves.newPg (h : b.Saves declared pins own) (hb : b.Settled declared)
    (hzero : pins b.nextPageId = 0)
    (hok : b.newPg = .ok (some (pageId, frameId), final)) :
    final.Saves declared (Function.update pins b.nextPageId (pins b.nextPageId + 1))
      (b.nextPageId :: own) := by
  obtain ⟨⟨⟩, -⟩ | ⟨f, middle, hfresh, hresult, rfl⟩ := newPg_cases hok
  cases hresult
  obtain ⟨hout, -, hnext⟩ := findFreshPage_fresh hb.frames hfresh
  have hmiddle := h.findFreshPage hb hfresh
  have hpin : ((middle.installNew frameId).pages frameId).pinCount = 1 := by
    simp [installNew, (hout.outside frameId rfl).2]
  have htable : (middle.installNew frameId).pageTable =
      Function.update middle.pageTable b.nextPageId (some frameId) := by
    rw [← hnext]
    rfl
  refine hmiddle.install hout rfl htable ?_ ?_ ?_ ?_
  · exact fun f hf => Function.update_of_ne hf _ _
  · exact fun other hne =>
      ⟨Function.update_of_ne hne _ _, fun hmem => List.mem_of_ne_of_mem hne hmem⟩
  · exact fun other hmem => List.mem_cons_of_mem _ hmem
  · intro _
    rw [hpin, Function.update_self, hzero]

/-- `FetchPage`, by the client or by another one, which takes no pin of the client. -/
theorem Saves.fetchPg (h : b.Saves declared pins own) (hb : b.Settled declared)
    (haddr : Addressable pageId)
    (hzero : b.pageTable pageId = none → pins pageId = 0)
    (hothers : ∀ other, other ≠ pageId → pins' other = pins other)
    (hpins : pageId ∈ own → pins' pageId = pins pageId + 1)
    (hok : b.fetchPg pageId = .ok (some frameId, final)) : final.Saves declared pins' own := by
  obtain ⟨f, hmapped, hresult, rfl⟩ | ⟨-, ⟨⟩, -⟩ | ⟨f, middle, hnone, hfresh, hresult, rfl⟩ :=
    fetchPg_cases hok
  · cases hresult
    have hpin : ((b.pinHit frameId).pages frameId).pinCount = (b.pages frameId).pinCount + 1 := by
      simp [pinHit]
    refine h.repin hb.frames hmapped rfl ?_ (fun other hne => ⟨hothers other hne, rfl⟩) ?_ ?_ ?_
    · exact fun f hf => Function.update_of_ne hf _ _
    · intro hmem
      rw [hpin, hpins hmem, h.pinned pageId hmem frameId hmapped]
    · exact fun saved hsaved =>
        ⟨haddr, h.own pageId saved hsaved, h.stored pageId saved hsaved⟩
    · exact fun other saved _ hother => h.stored other saved hother
  · cases hresult
    obtain ⟨hout, -, -⟩ := findFreshPage_fresh hb.frames hfresh
    have hmiddle := h.findFreshPage hb hfresh
    have hdisk := hb.healthy_findFreshPage hfresh
    have hpin : ((middle.installRead frameId pageId).pages frameId).pinCount = 1 := by
      simp [installRead, (hout.outside frameId rfl).2]
    refine hmiddle.install hout ?_ rfl ?_ (fun other hne => ⟨hothers other hne, id⟩)
      (fun _ => id) ?_
    · exact DiskManager.readPage_snd_of_healthy hdisk haddr _
    · exact fun f hf => Function.update_of_ne hf _ _
    · intro hmem
      rw [hpin, hpins hmem, hzero hnone]

/-- `UnpinPage`. What is declared changes only with the last pin, if it is given back dirty. -/
theorem Saves.unpinPg (h : b.Saves declared pins own) (hb : b.Settled declared)
    {isDirty result : Bool}
    (hunpinned : (∀ frameId, b.pageTable pageId = some frameId → (b.pages frameId).pinCount = 0) →
      pins pageId = 0)
    (hothers : ∀ other, other ≠ pageId →
      pins' other = pins other ∧ declared' other = declared other)
    (hpins : pins' pageId = pins pageId - 1)
    (hdirty : isDirty = true → pins pageId = 1 → ∀ saved, declared' pageId = some saved →
      pageId ∈ own ∧
        ∀ frameId, b.pageTable pageId = some frameId → saved = (b.pages frameId).data)
    (hkept : ¬ (isDirty = true ∧ pins pageId = 1) → declared' pageId = declared pageId)
    (hok : b.unpinPg pageId isDirty = .ok (result, final)) :
    final.Saves declared' pins' own := by
  rcases unpinPg_cases hok with ⟨-, rfl, hzero⟩ |
    ⟨f, hmapped, hpinned, -, ⟨hlast, rfl⟩ | ⟨hlast, rfl⟩⟩
  · have hsame : pins pageId = 0 := hunpinned hzero
    have hpinsEq : pins' = pins := by
      funext other
      by_cases heq : other = pageId
      · rw [heq, hpins, hsame]
      · exact (hothers other heq).1
    have hdeclaredEq : declared' = declared := by
      funext other
      by_cases heq : other = pageId
      · rw [heq]
        exact hkept fun hlast => by omega
      · exact (hothers other heq).2
    rw [hpinsEq, hdeclaredEq]
    exact h
  · have haddr := hb.resident pageId f hmapped
    have hpin : ((b.released f pageId isDirty).pages f).pinCount = (b.pages f).pinCount - 1 := by
      simp [BufferPoolManagerInstance.released, BufferPoolManagerInstance.unpinned,
        BufferPoolManagerInstance.setPage, BufferPoolManagerInstance.writeBack]
    have hone : pageId ∈ own → pins pageId = 1 := by
      intro hmem
      rw [← h.pinned pageId hmem f hmapped]
      omega
    -- a page of the client has lost its last pin
    have hself : ∀ saved, declared' pageId = some saved → isDirty = true →
        saved = (b.pages f).data := by
      intro saved hsaved htrue
      by_cases hpin1 : pins pageId = 1
      · exact (hdirty htrue hpin1 saved hsaved).2 f hmapped
      · rw [hkept fun hboth => hpin1 hboth.2] at hsaved
        exact absurd (hone (h.own pageId saved hsaved)) hpin1
    have hdiskEq : (b.released f pageId isDirty).diskManager =
        if isDirty then b.diskManager.writePage pageId (b.pages f).data else b.diskManager := by
      simp [BufferPoolManagerInstance.released, BufferPoolManagerInstance.unpinned,
        BufferPoolManagerInstance.setPage, BufferPoolManagerInstance.writeBack]
    have hstored : ∀ other saved, declared' other = some saved →
        (b.released f pageId isDirty).diskManager.Stored other saved := by
      intro other saved hsaved
      rw [hdiskEq]
      cases isDirty with
      | true =>
          exact h.stored_writePage hb.disk haddr (fun other hne => (hothers other hne).2)
            (fun saved hsaved => hself saved hsaved rfl) hsaved
      | false =>
          have heq : declared' other = declared other := by
            by_cases hpage : other = pageId
            · rw [hpage]
              exact hkept fun hboth => by simp at hboth
            · exact (hothers other hpage).2
          exact h.stored other saved (heq ▸ hsaved)
    refine h.repin hb.frames hmapped rfl ?_ hothers ?_ ?_ ?_
    · exact fun g hg => Function.update_of_ne hg _ _
    · intro hmem
      rw [hpin, hpins, h.pinned pageId hmem f hmapped]
    · intro saved hsaved
      refine ⟨haddr, ?_, hstored pageId saved hsaved⟩
      by_cases hboth : isDirty = true ∧ pins pageId = 1
      · exact (hdirty hboth.1 hboth.2 saved hsaved).1
      · exact h.own pageId saved ((hkept hboth) ▸ hsaved)
    · intro other saved hne hsaved
      exact hstored other saved ((hothers other hne).2.trans hsaved)
  · have hpin : ((b.unpinned f isDirty).pages f).pinCount = (b.pages f).pinCount - 1 := by
      simp [BufferPoolManagerInstance.unpinned, BufferPoolManagerInstance.setPage]
    refine h.repin hb.frames hmapped rfl ?_ hothers ?_ ?_ ?_
    · exact fun g hg => Function.update_of_ne hg _ _
    · intro hmem
      rw [hpin, hpins, h.pinned pageId hmem f hmapped]
    · intro saved hsaved
      have heq : declared' pageId = declared pageId := by
        by_cases hmem : pageId ∈ own
        · refine hkept fun hboth => ?_
          rw [← h.pinned pageId hmem f hmapped] at hboth
          omega
        · refine hkept fun hboth => hmem ?_
          exact (hdirty hboth.1 hboth.2 saved hsaved).1
      rw [heq] at hsaved
      exact ⟨hb.resident pageId f hmapped, h.own pageId saved hsaved, h.stored pageId saved hsaved⟩
    · exact fun other saved _ hsaved => h.stored other saved hsaved

end BufferPoolManagerInstance

namespace SmallPool

open BufferPoolManagerInstance

variable {poolSize : Nat} {ε α : Type} {t t' : TrackedPool} {s s' : SmallPool poolSize}
  {pool : BufferPoolManagerInstance poolSize} {pageId : PageId}

/-- The small pool has what the other one has, and what is declared is on its disk. -/
structure Tracks (t : TrackedPool) (s : SmallPool poolSize) : Prop extends
    Backs t.toKeepingPool s where
  saves : s.pool.Saves t.declared t.pins s.own
  idle : t.Idle
  pages : ∀ pageId ∈ s.own, ∃ data, t.pages pageId = some data

theorem tracks_start (hframes : pool.Frames none) (hdisk : pool.diskManager.Healthy)
    (hresident : ∀ pageId frameId, pool.pageTable pageId = some frameId → Addressable pageId) :
    Tracks (.of pool) { pool } where
  toBacks := backs_start hframes hdisk hresident
  saves :=
    { pinned := fun _ hmem => by cases hmem
      stored := fun _ _ hsaved => by cases hsaved
      addressable := fun _ _ hsaved => by cases hsaved
      own := fun _ _ hsaved => by cases hsaved }
  idle _ _ := rfl
  pages _ hmem := by cases hmem

/-- A page of the client that is in an unpinned frame is on the disk. -/
theorem Tracks.stored (h : Tracks t s) (hmem : pageId ∈ s.own) {frameId : Fin poolSize}
    (hmapped : s.pool.pageTable pageId = some frameId)
    (hunpinned : (s.pool.pages frameId).pinCount = 0) :
    t.declared pageId = some (s.pool.pages frameId).data := by
  obtain ⟨data, hpage⟩ := h.pages pageId hmem
  have hzero : t.pins pageId = 0 := by rw [← h.saves.pinned pageId hmem frameId hmapped, hunpinned]
  rw [h.idle pageId hzero, h.keeps.frame pageId data frameId hpage hmapped]
  exact hpage

theorem Tracks.settled (h : Tracks t s) : s.pool.Settled t.declared where
  frames := h.frames
  disk := h.keeps.disk
  resident := h.keeps.resident
  clean pageId frameId hmapped hunpinned saved hsaved := by
    have hdeclared := h.stored (h.saves.own pageId saved hsaved) hmapped hunpinned
    rw [hsaved, Option.some.injEq] at hdeclared
    exact hdeclared

theorem Tracks.savesVictim (h : Tracks t s) : s.pool.SavesVictim s.own := by
  intro _ frameId hvictim hmem
  have hlast := (LRUReplacer.frames_victim (r := s.pool.replacer)).1
  rw [hvictim] at hlast
  have hlru := (h.frames.lru frameId).mp (List.mem_of_getLast? hlast.symm)
  have hmapped := (h.frames.mapped _ frameId).mpr ⟨rfl, hlru.2⟩
  exact Or.inr (h.saves.stored _ _ (h.stored hmem hmapped hlru.1))

/-- No page of a client that declares its changes is evicted unsaved. -/
theorem Tracks.savesPages (h : Tracks t s) (call : PoolCall ε) : s.SavesPages call := by
  cases call with
  | newPage => exact h.savesVictim
  | fetchPage pageId => exact fun _ => h.savesVictim
  | fetchOther pageId => exact fun _ => h.savesVictim
  | access pageId change => exact trivial
  | unpinPage pageId isDirty => exact trivial
  | unpinOther pageId isDirty => exact trivial
  | fail fault => exact trivial

/-! ## The calls of the small pool -/

theorem newPage_spec {result : PageId}
    (hstep : (handler poolSize ε).step s .newPage = .ok (result, s')) :
    ∃ frameId, s.pool.newPg = .ok (some (result, frameId), s'.pool) ∧ s'.own = result :: s.own := by
  rcases hnew : s.pool.newPg with fault | ⟨_ | ⟨newId, f⟩, final⟩
  · simp only [handler, hnew] at hstep
    cases hstep
  · simp only [handler, hnew] at hstep
    cases hstep
  · simp only [handler, hnew] at hstep
    cases hstep
    exact ⟨f, rfl, rfl⟩

theorem fetchPage_spec {result : Unit}
    (hstep : (handler poolSize ε).step s (.fetchPage pageId) = .ok (result, s')) :
    ∃ frameId, s.pool.fetchPg pageId = .ok (some frameId, s'.pool) ∧ s'.own = s.own := by
  rcases hfetch : s.pool.fetchPg pageId with fault | ⟨_ | f, final⟩
  · simp only [handler, hfetch] at hstep
    cases hstep
  · simp only [handler, hfetch] at hstep
    cases hstep
  · simp only [handler, hfetch] at hstep
    cases hstep
    exact ⟨f, rfl, rfl⟩

theorem access_spec {change : PageData → PageData} {result : PageData}
    (hstep : (handler poolSize ε).step s (.access pageId change) = .ok (result, s')) :
    ∃ frameId, s'.pool = s.pool.setPage frameId { s.pool.pages frameId with
      data := change (s.pool.pages frameId).data } ∧ s'.own = s.own := by
  cases hfind : s.pool.findPage pageId with
  | none =>
      simp only [handler, hfind] at hstep
      cases hstep
  | some f =>
      simp only [handler, hfind] at hstep
      cases hstep
      exact ⟨f, rfl, rfl⟩

theorem unpinPage_spec {isDirty : Bool} {result : Unit}
    (hstep : (handler poolSize ε).step s (.unpinPage pageId isDirty) = .ok (result, s') ∨
      (handler poolSize ε).step s (.unpinOther pageId isDirty) = .ok (result, s')) :
    ∃ success, s.pool.unpinPg pageId isDirty = .ok (success, s'.pool) ∧ s'.own = s.own := by
  rcases hunpin : s.pool.unpinPg pageId isDirty with fault | ⟨success, final⟩
  · simp only [handler, hunpin] at hstep
    rcases hstep with hstep | hstep <;> cases hstep
  · simp only [handler, hunpin] at hstep
    rcases hstep with hstep | hstep
    · cases hstep
      exact ⟨success, rfl, rfl⟩
    · cases hstep
      exact ⟨success, rfl, rfl⟩

theorem fetchOther_spec {result : Unit}
    (hstep : (handler poolSize ε).step s (.fetchOther pageId) = .ok (result, s')) :
    ∃ found, s.pool.fetchPg pageId = .ok (found, s'.pool) ∧ s'.own = s.own := by
  rcases hfetch : s.pool.fetchPg pageId with fault | ⟨found, final⟩
  · simp only [handler, hfetch] at hstep
    cases hstep
  · simp only [handler, hfetch] at hstep
    cases hstep
    exact ⟨found, rfl, rfl⟩

/-! ## The small pool against the tracked one -/

theorem Tracks.saves_newPage (h : Tracks t s) (hapart : s.Apart (ε := ε) .newPage)
    {result : PageId} (hstep : (handler poolSize ε).step s .newPage = .ok (result, s'))
    (hresult : result = t.nextPageId) :
    s'.pool.Saves t.declared
      (Function.update t.pins t.nextPageId (t.pins t.nextPageId + 1)) s'.own := by
  obtain ⟨f, hnew, hown⟩ := newPage_spec hstep
  have hzero := h.keeps.pins_eq_zero hapart.2
  rw [hown, hresult, ← h.nextPageId]
  exact h.saves.newPg h.settled hzero hnew

theorem Tracks.saves_fetchPage (h : Tracks t s) {data : PageData}
    (hpage : t.pages pageId = some data) {result : Unit}
    (hstep : (handler poolSize ε).step s (.fetchPage pageId) = .ok (result, s')) :
    s'.pool.Saves t.declared (Function.update t.pins pageId (t.pins pageId + 1)) s'.own := by
  obtain ⟨f, hfetch, hown⟩ := fetchPage_spec hstep
  rw [hown]
  refine h.saves.fetchPg h.settled (h.keeps.addressable pageId data hpage)
    (fun hnone => h.keeps.pins_eq_zero hnone) ?_ ?_ hfetch
  · exact fun other hne => Function.update_of_ne hne _ _
  · exact fun _ => Function.update_self _ _ _

theorem Tracks.saves_access (h : Tracks t s) {change : PageData → PageData} {result : PageData}
    (hstep : (handler poolSize ε).step s (.access pageId change) = .ok (result, s')) :
    s'.pool.Saves t.declared t.pins s'.own := by
  obtain ⟨f, hpool, hown⟩ := access_spec hstep
  rw [hpool, hown]
  refine ⟨?_, h.saves.stored, h.saves.addressable, h.saves.own⟩
  intro other hmem g hmapped
  have hsame : ((s.pool.setPage f { s.pool.pages f with
      data := change (s.pool.pages f).data }).pages g).pinCount = (s.pool.pages g).pinCount := by
    by_cases hg : g = f
    · subst hg
      simp [BufferPoolManagerInstance.setPage]
    · simp [BufferPoolManagerInstance.setPage, hg]
  exact hsame.trans (h.saves.pinned other hmem g hmapped)

theorem Tracks.saves_unpinPage (h : Tracks t s) {isDirty : Bool} {result : Unit}
    (hstep : (handler poolSize ε).step s (.unpinPage pageId isDirty) = .ok (result, s')) :
    s'.pool.Saves (t.declaredAfter (ε := ε) (.unpinPage pageId isDirty))
      (Function.update t.pins pageId (t.pins pageId - 1)) s'.own := by
  obtain ⟨success, hunpin, hown⟩ := unpinPage_spec (Or.inl hstep)
  rw [hown]
  refine h.saves.unpinPg h.settled ?_ ?_ (Function.update_self _ _ _) ?_ ?_ hunpin
  · intro hzero
    by_contra hpins
    obtain ⟨f, hmapped, hle⟩ := h.keeps.pinned pageId hpins
    rw [hzero f hmapped] at hle
    omega
  · exact fun other hne =>
      ⟨Function.update_of_ne hne _ _, TrackedPool.declaredAfter_unpin_other hne⟩
  · -- what the frame holds is declared with the last pin
    rintro rfl hone saved hsaved
    simp only [TrackedPool.declaredAfter, if_pos hone, Function.update_self] at hsaved
    exact ⟨h.own pageId saved hsaved,
      fun f hmapped => (h.keeps.frame pageId saved f hsaved hmapped).symm⟩
  · intro hkept
    rw [TrackedPool.declaredAfter_unpin_of_ne hkept]

theorem Tracks.saves_fetchOther (h : Tracks t s) (hapart : s.Apart (ε := ε) (.fetchOther pageId))
    {result : Unit}
    (hstep : (handler poolSize ε).step s (.fetchOther pageId) = .ok (result, s')) :
    s'.pool.Saves t.declared t.pins s'.own := by
  obtain ⟨found, hfetch, hown⟩ := fetchOther_spec hstep
  rw [hown]
  cases found with
  | some f =>
      exact h.saves.fetchPg h.settled hapart.1 (fun hnone => h.keeps.pins_eq_zero hnone)
        (fun _ _ => rfl) (fun hmem => absurd hmem hapart.2) hfetch
  | none =>
      obtain ⟨f, -, hresult, -⟩ | ⟨-, -, hfresh⟩ | ⟨f, -, -, -, hresult, -⟩ :=
        fetchPg_cases hfetch
      · cases hresult
      · rw [findFreshPage_none h.frames hfresh]
        exact h.saves
      · cases hresult

theorem Tracks.saves_unpinOther (h : Tracks t s) {isDirty : Bool}
    (hapart : s.Apart (ε := ε) (.unpinOther pageId isDirty)) {result : Unit}
    (hstep : (handler poolSize ε).step s (.unpinOther pageId isDirty) = .ok (result, s')) :
    s'.pool.Saves t.declared t.pins s'.own := by
  obtain ⟨success, hunpin, hown⟩ := unpinPage_spec (Or.inr hstep)
  rw [hown]
  have hzero := h.pins_of_not_mem hapart
  refine h.saves.unpinPg h.settled (fun _ => hzero) (fun _ _ => ⟨rfl, rfl⟩) ?_ ?_ (fun _ => rfl)
    hunpin
  · rw [hzero]
  · intro _ hone
    omega

/-- Call by call, the small pool returns to a client that declares its changes what the pool
that never evicts returns, unless it has no page for a call. -/
theorem tracked_agrees : (TrackedPool.handler ε).Agrees (handler poolSize ε) Tracks
    TrackedPool.Declares fun s call => s.Serves call ∧ s.Apart call := by
  rintro t s call result t' h hdeclares ⟨hserves, hapart⟩ hstep
  obtain ⟨hkeeping, hdeclared⟩ := TrackedPool.step_of_ok hstep
  obtain ⟨s', hsmall, hbacks⟩ := handler_agrees t.toKeepingPool s call result t'.toKeepingPool
    h.toBacks trivial ⟨hserves, hapart, h.savesPages call⟩ hkeeping
  have hidle := h.idle.step hdeclares hstep
  suffices hrest : s'.pool.Saves t'.declared t'.pins s'.own ∧
      ∀ pageId ∈ s'.own, ∃ data, t'.pages pageId = some data from
    ⟨s', hsmall, ⟨hbacks, hrest.1, hidle, hrest.2⟩⟩
  rw [hdeclared]
  cases call with
  | newPage =>
      obtain ⟨hresult, hk⟩ := KeepingPool.newPage_spec hkeeping
      rw [hk]
      refine ⟨h.saves_newPage hapart hsmall hresult, ?_⟩
      obtain ⟨f, -, hown⟩ := newPage_spec hsmall
      intro other hmem
      by_cases heq : other = t.nextPageId
      · rw [heq]
        exact ⟨_, Function.update_self _ _ _⟩
      · rw [hown, hresult] at hmem
        obtain ⟨data, hpage⟩ := h.pages other (List.mem_of_ne_of_mem heq hmem)
        exact ⟨data, (Function.update_of_ne heq _ _).trans hpage⟩
  | fetchPage pageId =>
      obtain ⟨⟨data, hpage⟩, hk⟩ := KeepingPool.fetchPage_spec hkeeping
      obtain ⟨f, -, hown⟩ := fetchPage_spec hsmall
      rw [hk]
      exact ⟨h.saves_fetchPage hpage hsmall, hown ▸ h.pages⟩
  | access pageId change =>
      obtain ⟨hpage, -, hk⟩ := KeepingPool.access_spec hkeeping
      obtain ⟨f, -, hown⟩ := access_spec hsmall
      rw [hk]
      refine ⟨h.saves_access hsmall, ?_⟩
      intro other hmem
      rw [hown] at hmem
      by_cases heq : other = pageId
      · rw [heq]
        exact ⟨_, Function.update_self _ _ _⟩
      · obtain ⟨data, hother⟩ := h.pages other hmem
        exact ⟨data, (Function.update_of_ne heq _ _).trans hother⟩
  | unpinPage pageId isDirty =>
      obtain ⟨success, -, hown⟩ := unpinPage_spec (Or.inl hsmall)
      rw [KeepingPool.unpinPage_spec hkeeping]
      exact ⟨h.saves_unpinPage hsmall, hown ▸ h.pages⟩
  | fetchOther pageId =>
      obtain ⟨found, -, hown⟩ := fetchOther_spec hsmall
      rw [KeepingPool.others_spec false (Or.inl hkeeping)]
      exact ⟨h.saves_fetchOther hapart hsmall, hown ▸ h.pages⟩
  | unpinOther pageId isDirty =>
      obtain ⟨success, -, hown⟩ := unpinPage_spec (Or.inr hsmall)
      rw [KeepingPool.others_spec isDirty (Or.inr hkeeping)]
      exact ⟨h.saves_unpinOther hapart hsmall, hown ▸ h.pages⟩
  | fail fault => cases hkeeping

/-- A page is changed and left, evicted by a second one and read again through two pins. -/
def twoPages : PoolM Unit UInt8 := do
  let first ← PoolM.newPage
  PoolM.modifyPage first fun _ _ => 7
  PoolM.unpinPage first true
  let second ← PoolM.newPage
  PoolM.unpinPage second true
  PoolM.fetchPage first
  PoolM.fetchPage first
  let data ← PoolM.readPage first
  PoolM.unpinPage first false
  PoolM.unpinPage first true
  pure (data ⟨0, by decide⟩)

end SmallPool

end BusTub
