import BusTub.Buffer.PoolCalls

/-! # Pages that are evicted unsaved

A pool with few frames gives a client what a pool that never evicts would give it, as
long as no page of the client is evicted while its frame is clean and holds bytes that
the file does not. What is written to a page gets there only through `is_dirty`.
-/

namespace BusTub

open DiskManager (Addressable Stored)

instance (d : DiskManager) (pageId : PageId) (data : PageData) : Decidable (d.Stored pageId data) :=
  decidable_of_iff (pageId.toNat * pageSize + pageSize ≤ d.size ∧
      ∀ i : Fin pageSize, d.bytes (pageId.toNat * pageSize + i) = data i)
    ⟨fun h => ⟨h.1, h.2⟩, fun h => ⟨h.size, h.bytes⟩⟩

namespace BufferPoolManagerInstance

variable {poolSize : Nat} {b final : BufferPoolManagerInstance poolSize}
  {pages pages' : PageId → Option PageData} {pins pins' : PageId → Nat} {own : List PageId}
  {frameId : Fin poolSize} {pageId : PageId}

/-- If `FindFreshPage` evicts one of the pages, its bytes are on the disk or go there. -/
def SavesVictim (b : BufferPoolManagerInstance poolSize) (own : List PageId) : Prop :=
  b.freeList = [] → ∀ frameId, b.replacer.victim.1 = some frameId →
    (b.pages frameId).pageId ∈ own → (b.pages frameId).isDirty = true ∨
      b.diskManager.Stored (b.pages frameId).pageId (b.pages frameId).data

instance (b : BufferPoolManagerInstance poolSize) (own : List PageId) :
    Decidable (b.SavesVictim own) := by
  unfold SavesVictim
  infer_instance

/-- The pages are in their frames, or on the disk if they have none, and the pins of the
client hold them in their frames. -/
structure Keeps (b : BufferPoolManagerInstance poolSize) (pages : PageId → Option PageData)
    (pins : PageId → Nat) : Prop where
  disk : b.diskManager.Healthy
  resident : ∀ pageId frameId, b.pageTable pageId = some frameId → Addressable pageId
  addressable : ∀ pageId data, pages pageId = some data → Addressable pageId
  frame : ∀ pageId data frameId, pages pageId = some data →
    b.pageTable pageId = some frameId → (b.pages frameId).data = data
  stored : ∀ pageId data, pages pageId = some data → b.pageTable pageId = none →
    b.diskManager.Stored pageId data
  pinned : ∀ pageId, pins pageId ≠ 0 →
    ∃ frameId, b.pageTable pageId = some frameId ∧ pins pageId ≤ (b.pages frameId).pinCount

/-- The client has no pages yet. -/
theorem keeps_none (hdisk : b.diskManager.Healthy)
    (hresident : ∀ pageId frameId, b.pageTable pageId = some frameId → Addressable pageId) :
    b.Keeps (fun _ => none) fun _ => 0 where
  disk := hdisk
  resident := hresident
  addressable _ _ hpage := by cases hpage
  frame _ _ _ hpage := by cases hpage
  stored _ _ hpage := by cases hpage
  pinned _ hpins := absurd rfl hpins

theorem Keeps.pins_eq_zero (h : b.Keeps pages pins) (hnone : b.pageTable pageId = none) :
    pins pageId = 0 := by
  by_contra hpins
  obtain ⟨f, hmapped, -⟩ := h.pinned pageId hpins
  rw [hnone] at hmapped
  cases hmapped

theorem Keeps.pins_le (h : b.Keeps pages pins) (hmapped : b.pageTable pageId = some frameId) :
    pins pageId ≤ (b.pages frameId).pinCount := by
  by_cases hpins : pins pageId = 0
  · rw [hpins]
    exact Nat.zero_le _
  · obtain ⟨f, hmapped', hle⟩ := h.pinned pageId hpins
    cases hmapped.symm.trans hmapped'
    exact hle

/-- A page that is written back leaves the bytes of the other pages on the disk. -/
theorem Keeps.stored_writeBack (h : b.Keeps pages pins) (haddr : Addressable pageId)
    {other : PageId} {data : PageData} (hstored : b.diskManager.Stored other data)
    (hother : Addressable other) (hne : other ≠ pageId) :
    (b.writeBack frameId pageId).diskManager.Stored other data := by
  unfold writeBack
  dsimp only
  split
  · exact hstored.writePage_of_ne h.disk haddr hother (Ne.symm hne)
  · exact hstored

theorem Keeps.healthy_writeBack (h : b.Keeps pages pins) (haddr : Addressable pageId) :
    (b.writeBack frameId pageId).diskManager.Healthy := by
  unfold writeBack
  dsimp only
  split
  · exact h.disk.writePage haddr
  · exact h.disk

theorem pageTable_of_evict {f : Fin poolSize}
    (hmapped : (b.evict frameId).pageTable pageId = some f) : b.pageTable pageId = some f := by
  change Function.update b.pageTable (b.pages frameId).pageId none pageId = some f at hmapped
  by_cases heq : pageId = (b.pages frameId).pageId
  · rw [heq, Function.update_self] at hmapped
    cases hmapped
  · rwa [Function.update_of_ne heq] at hmapped

theorem pages_evict (f : Fin poolSize) :
    ((b.evict frameId).pages f).data = (b.pages f).data ∧
      ((b.evict frameId).pages f).pinCount = (b.pages f).pinCount := by
  by_cases hf : f = frameId
  · subst hf
    simp [BufferPoolManagerInstance.evict]
  · simp [BufferPoolManagerInstance.evict, hf]

/-- The victim's page goes to the disk, or was there before. -/
theorem Keeps.evict (h : b.Keeps pages pins)
    (hmapped : b.pageTable (b.pages frameId).pageId = some frameId)
    (hunpinned : (b.pages frameId).pinCount = 0)
    (hsaved : ∀ data, pages (b.pages frameId).pageId = some data →
      (b.pages frameId).isDirty = true ∨
        b.diskManager.Stored (b.pages frameId).pageId (b.pages frameId).data) :
    (b.evict frameId).Keeps pages pins := by
  have haddr := h.resident _ _ hmapped
  refine ⟨h.healthy_writeBack haddr, ?_, h.addressable, ?_, ?_, ?_⟩
  · exact fun other f hother => h.resident other f (pageTable_of_evict hother)
  · intro other data f hpage hother
    rw [(pages_evict f).1]
    exact h.frame other data f hpage (pageTable_of_evict hother)
  · intro other data hpage hother
    change (b.writeBack frameId (b.pages frameId).pageId).diskManager.Stored other data
    by_cases heq : other = (b.pages frameId).pageId
    · subst heq
      have hdata := h.frame _ data frameId hpage hmapped
      unfold writeBack
      dsimp only
      split
      next => exact hdata ▸ DiskManager.stored_writePage h.disk haddr
      next hclean => exact hdata ▸ (hsaved data hpage).resolve_left hclean
    · refine h.stored_writeBack haddr (h.stored other data hpage ?_)
        (h.addressable other data hpage) heq
      change Function.update b.pageTable (b.pages frameId).pageId none other = none at hother
      rwa [Function.update_of_ne heq] at hother
  · intro other hpins
    obtain ⟨f, hother, hle⟩ := h.pinned other hpins
    refine ⟨f, ?_, ?_⟩
    · change Function.update b.pageTable (b.pages frameId).pageId none other = some f
      rw [Function.update_of_ne, hother]
      rintro rfl
      rw [hmapped] at hother
      cases hother
      omega
    · rwa [(pages_evict f).2]

theorem Keeps.findFreshPage (h : b.Keeps pages pins) (hframes : b.Frames none)
    (hsaves : b.SavesVictim own) (hown : ∀ pageId data, pages pageId = some data → pageId ∈ own)
    {result : Option (Fin poolSize)} (hok : b.findFreshPage = .ok (result, final)) :
    final.Keeps pages pins := by
  rcases findFreshPage_spec hframes with
    ⟨f, rest, -, hresult⟩ | ⟨f, hfree, hvictim, hresult⟩ | ⟨-, -, hresult⟩
  · cases hresult.symm.trans hok
    exact ⟨h.disk, h.resident, h.addressable, h.frame, h.stored, h.pinned⟩
  · cases hresult.symm.trans hok
    have hlast := (LRUReplacer.frames_victim (r := b.replacer)).1
    rw [hvictim] at hlast
    have hlru := (hframes.lru f).mp (List.mem_of_getLast? hlast.symm)
    refine h.evict ((hframes.mapped _ f).mpr ⟨rfl, hlru.2⟩) hlru.1 ?_
    exact fun data hpage => hsaves hfree f hvictim (hown _ data hpage)
  · cases hresult.symm.trans hok
    exact h

/-- A fresh frame gets a page, with its bytes and its first pin. -/
theorem Keeps.install (h : b.Keeps pages pins) (hframes : b.Frames (some frameId))
    (haddr : Addressable pageId) (hdisk : final.diskManager = b.diskManager)
    (htable : final.pageTable = Function.update b.pageTable pageId (some frameId))
    (hpages : ∀ f, f ≠ frameId → final.pages f = b.pages f)
    (hothers : ∀ other, other ≠ pageId → pages' other = pages other ∧ pins' other = pins other)
    (hdata : ∀ data, pages' pageId = some data → (final.pages frameId).data = data)
    (hpins : pins' pageId ≤ (final.pages frameId).pinCount) : final.Keeps pages' pins' := by
  have hself : final.pageTable pageId = some frameId := by rw [htable, Function.update_self]
  have htableOf : ∀ other, other ≠ pageId → final.pageTable other = b.pageTable other := by
    intro other hne
    rw [htable, Function.update_of_ne hne]
  have hne : ∀ other f, b.pageTable other = some f → f ≠ frameId := by
    rintro other f hother rfl
    exact ((hframes.mapped _ _).mp hother).2.2 rfl
  refine ⟨hdisk ▸ h.disk, ?_, ?_, ?_, ?_, ?_⟩
  · intro other f hother
    by_cases heq : other = pageId
    · exact heq ▸ haddr
    · rw [htableOf other heq] at hother
      exact h.resident other f hother
  · intro other data hpage
    by_cases heq : other = pageId
    · exact heq ▸ haddr
    · rw [(hothers other heq).1] at hpage
      exact h.addressable other data hpage
  · intro other data f hpage hother
    by_cases heq : other = pageId
    · subst heq
      cases hself.symm.trans hother
      exact hdata data hpage
    · rw [(hothers other heq).1] at hpage
      rw [htableOf other heq] at hother
      rw [hpages f (hne other f hother)]
      exact h.frame other data f hpage hother
  · intro other data hpage hother
    by_cases heq : other = pageId
    · subst heq
      rw [hself] at hother
      cases hother
    · rw [(hothers other heq).1] at hpage
      rw [htableOf other heq] at hother
      rw [hdisk]
      exact h.stored other data hpage hother
  · intro other hpinsOther
    by_cases heq : other = pageId
    · subst heq
      exact ⟨frameId, hself, hpins⟩
    · rw [(hothers other heq).2] at hpinsOther ⊢
      obtain ⟨f, hother, hle⟩ := h.pinned other hpinsOther
      refine ⟨f, (htableOf other heq).trans hother, ?_⟩
      rwa [hpages f (hne other f hother)]

/-- A resident page stays in its frame, where its bytes and its pins may change. -/
theorem Keeps.update (h : b.Keeps pages pins) (hframes : b.Frames none)
    (hmapped : b.pageTable pageId = some frameId) (htable : final.pageTable = b.pageTable)
    (hdisk : final.diskManager = b.diskManager ∨
      ∃ data, final.diskManager = b.diskManager.writePage pageId data)
    (hpages : ∀ f, f ≠ frameId → final.pages f = b.pages f)
    (hothers : ∀ other, other ≠ pageId → pages' other = pages other ∧ pins' other = pins other)
    (hdata : ∀ data, pages' pageId = some data → (final.pages frameId).data = data)
    (hpins : pins' pageId ≤ (final.pages frameId).pinCount) : final.Keeps pages' pins' := by
  have haddr := h.resident pageId frameId hmapped
  have hne : ∀ other f, other ≠ pageId → b.pageTable other = some f → f ≠ frameId := by
    rintro other f hother hmapped' rfl
    exact hother (hframes.injective hmapped' hmapped)
  refine ⟨?_, htable ▸ h.resident, ?_, ?_, ?_, ?_⟩
  · rcases hdisk with hdisk | ⟨data, hdisk⟩
    · exact hdisk ▸ h.disk
    · exact hdisk ▸ h.disk.writePage haddr
  · intro other data hpage
    by_cases heq : other = pageId
    · exact heq ▸ haddr
    · rw [(hothers other heq).1] at hpage
      exact h.addressable other data hpage
  · intro other data f hpage hother
    rw [htable] at hother
    by_cases heq : other = pageId
    · subst heq
      cases hmapped.symm.trans hother
      exact hdata data hpage
    · rw [(hothers other heq).1] at hpage
      rw [hpages f (hne other f heq hother)]
      exact h.frame other data f hpage hother
  · intro other data hpage hother
    rw [htable] at hother
    have heq : other ≠ pageId := by
      rintro rfl
      rw [hmapped] at hother
      cases hother
    rw [(hothers other heq).1] at hpage
    have hstored := h.stored other data hpage hother
    rcases hdisk with hdisk | ⟨written, hdisk⟩
    · exact hdisk ▸ hstored
    · exact hdisk ▸ hstored.writePage_of_ne h.disk haddr (h.addressable other data hpage)
        (Ne.symm heq)
  · intro other hpinsOther
    by_cases heq : other = pageId
    · subst heq
      exact ⟨frameId, htable ▸ hmapped, hpins⟩
    · rw [(hothers other heq).2] at hpinsOther ⊢
      obtain ⟨f, hother, hle⟩ := h.pinned other hpinsOther
      refine ⟨f, htable ▸ hother, ?_⟩
      rwa [hpages f (hne other f heq hother)]

/-! ## The calls of the pool -/

theorem numInstances_findFreshPage (hframes : b.Frames none) {result : Option (Fin poolSize)}
    (hok : b.findFreshPage = .ok (result, final)) : final.numInstances = b.numInstances := by
  rcases findFreshPage_spec hframes with
    ⟨f, rest, -, hresult⟩ | ⟨f, -, -, hresult⟩ | ⟨-, -, hresult⟩
  · cases hresult.symm.trans hok
    rfl
  · cases hresult.symm.trans hok
    rfl
  · cases hresult.symm.trans hok
    rfl

/-- `NewPage` with an id that can be addressed and is not in use. -/
theorem Keeps.newPg (h : b.Keeps pages pins) (hframes : b.Frames none)
    (hsaves : b.SavesVictim own) (hown : ∀ pageId data, pages pageId = some data → pageId ∈ own)
    (haddr : Addressable b.nextPageId) (hnone : b.pageTable b.nextPageId = none)
    (hok : b.newPg = .ok (some (pageId, frameId), final)) :
    pageId = b.nextPageId ∧ final.nextPageId = toInt32 (b.nextPageId + b.numInstances) ∧
      final.numInstances = b.numInstances ∧ final.Frames none ∧
      final.Keeps (Function.update pages b.nextPageId (some fun _ => 0))
        (Function.update pins b.nextPageId (pins b.nextPageId + 1)) := by
  obtain ⟨⟨⟩, -⟩ | ⟨f, middle, hfresh, hresult, rfl⟩ := newPg_cases hok
  cases hresult
  obtain ⟨hout, -, hnext⟩ := findFreshPage_fresh hframes hfresh
  have hinstances := numInstances_findFreshPage hframes hfresh
  have hmiddle := h.findFreshPage hframes hsaves hown hfresh
  have hzero := h.pins_eq_zero hnone
  have hfree : middle.pageTable middle.nextPageId = none := by
    rw [hnext]
    exact findFreshPage_unmapped hframes hfresh hnone
  have hself : (middle.installNew frameId).pages frameId = { middle.pages frameId with
      pinCount := (middle.pages frameId).pinCount + 1, pageId := middle.nextPageId
      data := fun _ => 0 } := Function.update_self _ _ _
  refine ⟨hnext, ?_, hinstances, hout.installNew hfree, ?_⟩
  · rw [← hnext, ← hinstances]
    rfl
  · refine hmiddle.install hout haddr rfl ?_ ?_ ?_ ?_ ?_
    · rw [← hnext]
      rfl
    · exact fun g hg => Function.update_of_ne hg _ _
    · intro other hne
      exact ⟨Function.update_of_ne hne _ _, Function.update_of_ne hne _ _⟩
    · intro data hdata
      rw [Function.update_self, Option.some.injEq] at hdata
      rw [hself, ← hdata]
    · rw [Function.update_self, hzero, hself]
      exact Nat.add_le_add_right (Nat.zero_le _) 1

/-- `FetchPage`, by the client or by another one, which takes no pin of the client. -/
theorem Keeps.fetchPg (h : b.Keeps pages pins) (hframes : b.Frames none)
    (haddr : Addressable pageId)
    (hsaves : b.pageTable pageId = none → b.SavesVictim own)
    (hown : ∀ pageId data, pages pageId = some data → pageId ∈ own)
    (hothers : ∀ other, other ≠ pageId → pins' other = pins other)
    (hpins : pins' pageId ≤ pins pageId + 1)
    (hok : b.fetchPg pageId = .ok (some frameId, final)) : final.Keeps pages pins' := by
  obtain ⟨f, hmapped, hresult, rfl⟩ | ⟨-, ⟨⟩, -⟩ | ⟨f, middle, hnone, hfresh, hresult, rfl⟩ :=
    fetchPg_cases hok
  · cases hresult
    have hself : (b.pinHit frameId).pages frameId = { b.pages frameId with
        pinCount := (b.pages frameId).pinCount + 1, isDirty := true } :=
      Function.update_self _ _ _
    refine h.update hframes hmapped rfl (Or.inl rfl) ?_ (fun other hne => ⟨rfl, hothers other hne⟩)
      ?_ ?_
    · exact fun g hg => Function.update_of_ne hg _ _
    · intro data hdata
      rw [hself]
      exact h.frame pageId data frameId hdata hmapped
    · rw [hself]
      exact hpins.trans (Nat.add_le_add_right (h.pins_le hmapped) 1)
  · cases hresult
    obtain ⟨hout, -, -⟩ := findFreshPage_fresh hframes hfresh
    have hmiddle := h.findFreshPage hframes (hsaves hnone) hown hfresh
    have hfree := findFreshPage_unmapped hframes hfresh hnone
    have hpin : ((middle.installRead frameId pageId).pages frameId).pinCount =
        (middle.pages frameId).pinCount + 1 := by
      simp [installRead]
    refine hmiddle.install hout haddr ?_ rfl ?_ (fun other hne => ⟨rfl, hothers other hne⟩) ?_ ?_
    · exact DiskManager.readPage_snd_of_healthy hmiddle.disk haddr _
    · exact fun g hg => Function.update_of_ne hg _ _
    · -- the bytes come back from the disk
      intro data hdata
      have hstored := hmiddle.stored pageId data hdata hfree
      simp [installRead, DiskManager.readPage_of_stored hmiddle.disk haddr hstored]
    · have hzero := h.pins_eq_zero hnone
      omega

/-- `UnpinPage` leaves the bytes in the frame, whatever it makes of the flag. -/
theorem Keeps.unpinPg (h : b.Keeps pages pins) (hframes : b.Frames none) {isDirty result : Bool}
    (hok : b.unpinPg pageId isDirty = .ok (result, final)) :
    final.Keeps pages (Function.update pins pageId (pins pageId - 1)) := by
  have hothers : ∀ other, other ≠ pageId → pages other = pages other ∧
      Function.update pins pageId (pins pageId - 1) other = pins other :=
    fun other hne => ⟨rfl, Function.update_of_ne hne _ _⟩
  rcases unpinPg_cases hok with ⟨-, rfl, hzero⟩ |
    ⟨f, hmapped, hpinned, -, ⟨hlast, rfl⟩ | ⟨hlast, rfl⟩⟩
  · have hpins : pins pageId = 0 := by
      by_contra hpins
      obtain ⟨f, hmapped, hle⟩ := h.pinned pageId hpins
      rw [hzero f hmapped] at hle
      omega
    have hsame : Function.update pins pageId (pins pageId - 1) = pins :=
      Function.update_eq_self_iff.mpr (by rw [hpins])
    rw [hsame]
    exact h
  · have hself : (b.released f pageId isDirty).pages f = { b.pages f with
        isDirty, pinCount := (b.pages f).pinCount - 1 } := Function.update_self _ _ _
    refine h.update hframes hmapped rfl ?_ ?_ hothers ?_ ?_
    · -- the page is flushed with its last pin if it is dirty
      unfold BufferPoolManagerInstance.released writeBack
      dsimp only
      split
      · exact Or.inr ⟨_, rfl⟩
      · exact Or.inl rfl
    · exact fun g hg => Function.update_of_ne hg _ _
    · intro data hdata
      rw [hself]
      exact h.frame pageId data f hdata hmapped
    · rw [Function.update_self, hself]
      exact Nat.sub_le_sub_right (h.pins_le hmapped) 1
  · have hself : (b.unpinned f isDirty).pages f = { b.pages f with
        isDirty, pinCount := (b.pages f).pinCount - 1 } := Function.update_self _ _ _
    refine h.update hframes hmapped rfl (Or.inl rfl) ?_ hothers ?_ ?_
    · exact fun g hg => Function.update_of_ne hg _ _
    · intro data hdata
      rw [hself]
      exact h.frame pageId data f hdata hmapped
    · rw [Function.update_self, hself]
      exact Nat.sub_le_sub_right (h.pins_le hmapped) 1

/-- The client changes the bytes of a page in its frame. -/
theorem Keeps.write (h : b.Keeps pages pins) (hframes : b.Frames none)
    (hmapped : b.pageTable pageId = some frameId) (data : PageData) :
    (b.setPage frameId { b.pages frameId with data }).Keeps
      (Function.update pages pageId (some data)) pins := by
  have hself : (b.setPage frameId { b.pages frameId with data }).pages frameId =
      { b.pages frameId with data } := Function.update_self _ _ _
  refine h.update hframes hmapped rfl (Or.inl rfl) ?_ ?_ ?_ ?_
  · exact fun g hg => Function.update_of_ne hg _ _
  · exact fun other hne => ⟨Function.update_of_ne hne _ _, rfl⟩
  · intro written hwritten
    rw [Function.update_self, Option.some.injEq] at hwritten
    rw [hself, hwritten]
  · rw [hself]
    exact h.pins_le hmapped

/-! ## The calls return -/

theorem exists_fetchPg (hframes : b.Frames none) (pageId : PageId) :
    ∃ result final, b.fetchPg pageId = .ok (result, final) := by
  unfold BufferPoolManagerInstance.fetchPg
  cases b.findPage pageId with
  | some f => exact ⟨_, _, rfl⟩
  | none =>
      obtain ⟨result, middle, hfresh⟩ :
          ∃ result middle, b.findFreshPage = .ok (result, middle) := by
        rcases findFreshPage_spec hframes with ⟨f, rest, -, h⟩ | ⟨f, -, -, h⟩ | ⟨-, -, h⟩
        · exact ⟨_, _, h⟩
        · exact ⟨_, _, h⟩
        · exact ⟨_, _, h⟩
      rw [hfresh]
      cases result with
      | none => exact ⟨_, _, rfl⟩
      | some f => exact ⟨_, _, rfl⟩

theorem exists_unpinPg (b : BufferPoolManagerInstance poolSize) (pageId : PageId)
    (isDirty : Bool) : ∃ result final, b.unpinPg pageId isDirty = .ok (result, final) := by
  unfold BufferPoolManagerInstance.unpinPg findPage
  cases hmapped : b.pageTable pageId with
  | none => exact ⟨_, _, rfl⟩
  | some f =>
      dsimp only
      split
      · exact ⟨_, _, rfl⟩
      · split
        · change ∃ result final, (flushPg { b.unpinned f isDirty with
            replacer := b.replacer.unpin f } pageId >>= fun flushed => _) = .ok (result, final)
          rw [@flushPg_of_mapped _ { b.unpinned f isDirty with
            replacer := b.replacer.unpin f } f pageId hmapped]
          exact ⟨_, _, rfl⟩
        · exact ⟨_, _, rfl⟩

theorem counters_fetchPg (hframes : b.Frames none) {result : Option (Fin poolSize)}
    (hok : b.fetchPg pageId = .ok (result, final)) :
    final.nextPageId = b.nextPageId ∧ final.numInstances = b.numInstances := by
  obtain ⟨f, -, -, rfl⟩ | ⟨-, -, hfresh⟩ | ⟨f, middle, -, hfresh, -, rfl⟩ := fetchPg_cases hok
  · exact ⟨rfl, rfl⟩
  · obtain rfl := findFreshPage_none hframes hfresh
    exact ⟨rfl, rfl⟩
  · obtain ⟨-, -, hnext⟩ := findFreshPage_fresh hframes hfresh
    have hinstances := numInstances_findFreshPage hframes hfresh
    exact ⟨hnext, hinstances⟩

theorem counters_unpinPg {isDirty result : Bool}
    (hok : b.unpinPg pageId isDirty = .ok (result, final)) :
    final.nextPageId = b.nextPageId ∧ final.numInstances = b.numInstances := by
  rcases unpinPg_cases hok with ⟨-, rfl, -⟩ | ⟨f, -, -, -, ⟨-, rfl⟩ | ⟨-, rfl⟩⟩
  · exact ⟨rfl, rfl⟩
  · exact ⟨rfl, rfl⟩
  · exact ⟨rfl, rfl⟩

end BufferPoolManagerInstance

/-! ## The small pool against the one that never evicts -/

namespace SmallPool

open BufferPoolManagerInstance

variable {poolSize : Nat} {ε : Type} {k : KeepingPool} {s : SmallPool poolSize}
  {pool : BufferPoolManagerInstance poolSize} {pageId : PageId}

/-- The page ids can be addressed, a new one is of no page in a frame, and the pages of
others are not those of the client. -/
def Apart (s : SmallPool poolSize) : PoolCall ε → Prop
  | .newPage => Addressable s.pool.nextPageId ∧ s.pool.pageTable s.pool.nextPageId = none
  | .fetchOther pageId => Addressable pageId ∧ pageId ∉ s.own
  | .unpinOther pageId _ => pageId ∉ s.own
  | _ => True

/-- The call evicts no page of the client unsaved. -/
def SavesPages (s : SmallPool poolSize) : PoolCall ε → Prop
  | .newPage => s.pool.SavesVictim s.own
  | .fetchPage pageId => s.pool.pageTable pageId = none → s.pool.SavesVictim s.own
  | .fetchOther pageId => s.pool.pageTable pageId = none → s.pool.SavesVictim s.own
  | _ => True

instance (s : SmallPool poolSize) : DecidablePred (Apart (ε := ε) s)
  | .newPage => inferInstanceAs (Decidable (_ ∧ _))
  | .fetchOther _ => inferInstanceAs (Decidable (_ ∧ _))
  | .unpinOther _ _ => inferInstanceAs (Decidable (_ ∉ _))
  | .fetchPage _ | .access _ _ | .unpinPage _ _ | .fail _ => inferInstanceAs (Decidable True)

instance (s : SmallPool poolSize) : DecidablePred (SavesPages (ε := ε) s)
  | .newPage => inferInstanceAs (Decidable (s.pool.SavesVictim s.own))
  | .fetchPage pageId | .fetchOther pageId =>
      inferInstanceAs (Decidable (s.pool.pageTable pageId = none → s.pool.SavesVictim s.own))
  | .access _ _ | .unpinPage _ _ | .unpinOther _ _ | .fail _ => inferInstanceAs (Decidable True)

/-- The small pool has in its frames and on its disk what the other one has. -/
structure Backs (k : KeepingPool) (s : SmallPool poolSize) : Prop where
  frames : s.pool.Frames none
  keeps : s.pool.Keeps k.pages k.pins
  nextPageId : s.pool.nextPageId = k.nextPageId
  numInstances : s.pool.numInstances = k.numInstances
  own : ∀ pageId data, k.pages pageId = some data → pageId ∈ s.own
  pinned : ∀ pageId, k.pins pageId ≠ 0 → pageId ∈ s.own

/-- A pool before the client's first call. -/
theorem backs_start (hframes : pool.Frames none) (hdisk : pool.diskManager.Healthy)
    (hresident : ∀ pageId frameId, pool.pageTable pageId = some frameId → Addressable pageId) :
    Backs (.of pool) { pool } where
  frames := hframes
  keeps := keeps_none hdisk hresident
  nextPageId := rfl
  numInstances := rfl
  own _ _ hpage := nomatch hpage
  pinned _ hpins := absurd rfl hpins

theorem Backs.pins_of_not_mem (h : Backs k s) (hother : pageId ∉ s.own) : k.pins pageId = 0 := by
  by_contra hpins
  exact hother (h.pinned pageId hpins)

theorem Backs.newPage (h : Backs k s) (hserves : s.Serves (ε := ε) .newPage)
    (hapart : s.Apart (ε := ε) .newPage) (hsaves : s.SavesPages (ε := ε) .newPage)
    {k' : KeepingPool} {result : PageId}
    (hstep : (KeepingPool.handler ε).step k .newPage = .ok (result, k')) :
    ∃ s', (handler poolSize ε).step s .newPage = .ok (result, s') ∧ Backs k' s' := by
  cases hstep
  obtain ⟨⟨newId, f⟩, final, hnew⟩ := found_iff.mp hserves
  obtain ⟨rfl, hnext, hinstances, hframes, hkeeps⟩ :=
    h.keeps.newPg h.frames hsaves h.own hapart.1 hapart.2 hnew
  refine ⟨{ pool := final, own := s.pool.nextPageId :: s.own }, ?_, ?_⟩
  · simp only [handler, hnew, h.nextPageId]
  · rw [h.nextPageId] at hkeeps hnext ⊢
    refine ⟨hframes, hkeeps, ?_, hinstances.trans h.numInstances, ?_, ?_⟩
    · rw [hnext, h.numInstances]
    · intro other data hpage
      by_cases heq : other = k.nextPageId
      · exact heq ▸ List.mem_cons_self
      · dsimp only at hpage
        rw [Function.update_of_ne heq] at hpage
        exact List.mem_cons_of_mem _ (h.own other data hpage)
    · intro other hpins
      by_cases heq : other = k.nextPageId
      · exact heq ▸ List.mem_cons_self
      · dsimp only at hpins
        rw [Function.update_of_ne heq] at hpins
        exact List.mem_cons_of_mem _ (h.pinned other hpins)

/-- A call that hands out no page and keeps the client's own, with the pins that it leaves. -/
theorem Backs.of_keeps (h : Backs k s) {final : BufferPoolManagerInstance poolSize}
    {pages : PageId → Option PageData} {pins : PageId → Nat} (hframes : final.Frames none)
    (hkeeps : final.Keeps pages pins)
    (hcounters : final.nextPageId = s.pool.nextPageId ∧ final.numInstances = s.pool.numInstances)
    (hown : ∀ pageId data, pages pageId = some data → pageId ∈ s.own)
    (hpinned : ∀ pageId, pins pageId ≠ 0 → pageId ∈ s.own) :
    Backs { k with pages, pins } { s with pool := final } where
  frames := hframes
  keeps := hkeeps
  nextPageId := hcounters.1.trans h.nextPageId
  numInstances := hcounters.2.trans h.numInstances
  own := hown
  pinned := hpinned

theorem Backs.fetchPage (h : Backs k s) (hserves : s.Serves (ε := ε) (.fetchPage pageId))
    (hsaves : s.SavesPages (ε := ε) (.fetchPage pageId)) {k' : KeepingPool} {result : Unit}
    (hstep : (KeepingPool.handler ε).step k (.fetchPage pageId) = .ok (result, k')) :
    ∃ s', (handler poolSize ε).step s (.fetchPage pageId) = .ok (result, s') ∧ Backs k' s' := by
  obtain ⟨f, final, hfetch⟩ := found_iff.mp hserves
  obtain ⟨⟨data, hpage⟩, rfl⟩ := KeepingPool.fetchPage_spec hstep
  refine ⟨{ s with pool := final }, ?_, ?_⟩
  · simp only [handler, hfetch]
  · refine h.of_keeps (h.frames.fetchPg hfetch) ?_ (counters_fetchPg h.frames hfetch) h.own ?_
    · refine h.keeps.fetchPg h.frames (h.keeps.addressable pageId data hpage) hsaves h.own
        ?_ ?_ hfetch
      · exact fun other hne => Function.update_of_ne hne _ _
      · rw [Function.update_self]
    · intro other hpins
      by_cases heq : other = pageId
      · exact heq ▸ h.own pageId data hpage
      · rw [Function.update_of_ne heq] at hpins
        exact h.pinned other hpins

theorem Backs.access (h : Backs k s) {change : PageData → PageData} {k' : KeepingPool}
    {result : PageData}
    (hstep : (KeepingPool.handler ε).step k (.access pageId change) = .ok (result, k')) :
    ∃ s', (handler poolSize ε).step s (.access pageId change) = .ok (result, s') ∧
      Backs k' s' := by
  obtain ⟨hpage, hpins, rfl⟩ := KeepingPool.access_spec hstep
  -- the pin holds the page in its frame
  obtain ⟨f, hmapped, -⟩ := h.keeps.pinned pageId hpins
  have hdata := h.keeps.frame pageId result f hpage hmapped
  let page := { s.pool.pages f with data := change result }
  refine ⟨{ s with pool := s.pool.setPage f page }, ?_, ?_⟩
  · simp only [handler, findPage, hmapped, hdata, page]
  · refine h.of_keeps (h.frames.setPage rfl rfl) (h.keeps.write h.frames hmapped _)
      ⟨rfl, rfl⟩ ?_ h.pinned
    intro other written hwritten
    by_cases heq : other = pageId
    · exact heq ▸ h.own pageId result hpage
    · rw [Function.update_of_ne heq] at hwritten
      exact h.own other written hwritten

theorem Backs.unpinPage (h : Backs k s) {isDirty : Bool} {k' : KeepingPool} {result : Unit}
    (hstep : (KeepingPool.handler ε).step k (.unpinPage pageId isDirty) = .ok (result, k')) :
    ∃ s', (handler poolSize ε).step s (.unpinPage pageId isDirty) = .ok (result, s') ∧
      Backs k' s' := by
  cases hstep
  obtain ⟨success, final, hunpin⟩ := exists_unpinPg s.pool pageId isDirty
  refine ⟨{ s with pool := final }, ?_, ?_⟩
  · simp only [handler, hunpin]
  · refine h.of_keeps (h.frames.unpinPg hunpin) (h.keeps.unpinPg h.frames hunpin)
      (counters_unpinPg hunpin) h.own ?_
    intro other hpins
    by_cases heq : other = pageId
    · subst heq
      rw [Function.update_self] at hpins
      exact h.pinned other (by omega)
    · rw [Function.update_of_ne heq] at hpins
      exact h.pinned other hpins

theorem Backs.fetchOther (h : Backs k s) (hapart : s.Apart (ε := ε) (.fetchOther pageId))
    (hsaves : s.SavesPages (ε := ε) (.fetchOther pageId)) :
    ∃ s', (handler poolSize ε).step s (.fetchOther pageId) = .ok ((), s') ∧ Backs k s' := by
  obtain ⟨found, final, hfetch⟩ := exists_fetchPg h.frames pageId
  refine ⟨{ s with pool := final }, ?_, ?_⟩
  · simp only [handler, hfetch]
  · refine h.of_keeps (h.frames.fetchPg hfetch) ?_ (counters_fetchPg h.frames hfetch) h.own
      h.pinned
    cases found with
    | some f =>
        exact h.keeps.fetchPg h.frames hapart.1 hsaves h.own (fun _ _ => rfl) (Nat.le_succ _) hfetch
    | none =>
        obtain ⟨f, -, hresult, -⟩ | ⟨-, -, hfresh⟩ | ⟨f, -, -, -, hresult, -⟩ :=
          fetchPg_cases hfetch
        · cases hresult
        · rw [findFreshPage_none h.frames hfresh]
          exact h.keeps
        · cases hresult

theorem Backs.unpinOther (h : Backs k s) {isDirty : Bool}
    (hapart : s.Apart (ε := ε) (.unpinOther pageId isDirty)) :
    ∃ s', (handler poolSize ε).step s (.unpinOther pageId isDirty) = .ok ((), s') ∧
      Backs k s' := by
  obtain ⟨success, final, hunpin⟩ := exists_unpinPg s.pool pageId isDirty
  refine ⟨{ s with pool := final }, ?_, ?_⟩
  · simp only [handler, hunpin]
  · have hkeeps := h.keeps.unpinPg h.frames hunpin
    -- the client has no pin there to lose
    have hsame : Function.update k.pins pageId (k.pins pageId - 1) = k.pins :=
      Function.update_eq_self_iff.mpr (by rw [h.pins_of_not_mem hapart])
    rw [hsame] at hkeeps
    exact h.of_keeps (h.frames.unpinPg hunpin) hkeeps (counters_unpinPg hunpin) h.own h.pinned

/-- Call by call, the small pool returns what the one that never evicts returns, unless it
has no page for a call or evicts a page of the client unsaved. -/
theorem handler_agrees : (KeepingPool.handler ε).Agrees (handler poolSize ε) Backs
    (fun _ _ => True) fun s call => s.Serves call ∧ s.Apart call ∧ s.SavesPages call := by
  rintro k s call result k' h - ⟨hserves, hapart, hsaves⟩ hstep
  cases call with
  | newPage => exact h.newPage hserves hapart hsaves hstep
  | fetchPage pageId => exact h.fetchPage hserves hsaves hstep
  | access pageId change => exact h.access hstep
  | unpinPage pageId isDirty => exact h.unpinPage hstep
  | fetchOther pageId =>
      cases hstep
      exact h.fetchOther hapart hsaves
  | unpinOther pageId isDirty =>
      cases hstep
      exact h.unpinOther hapart
  | fail fault => cases hstep

end SmallPool

end BusTub
