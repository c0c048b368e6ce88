import BusTub.Buffer.FramePartition
import BusTub.Library.Counted

/-! # Pins

What the callers of a buffer pool do to the pin counts, page by page. A page that is
not resident has no pin. In a pool whose frames are in order, the calls that succeed take
and give back one pin of the page they name.
-/

namespace BusTub

/-- A computation that pins and unpins pages of a buffer pool whose calls do not fail:
a pin that nobody has cannot be given back. -/
abbrev PinM (ε α : Type) : Type := Counted PageId ε α

/-- `FetchPage`, as far as pins are concerned; `NewPage` does the same with the page id
that it gives out. -/
def fetchPage {ε : Type} (pageId : PageId) : PinM ε Unit := Counted.acquire pageId

/-- `UnpinPage`; what it does to the dirty flag does not concern pins. -/
def unpinPage {ε : Type} (pageId : PageId) : PinM ε Unit := Counted.release pageId

/-- A page that is only looked at. -/
theorem fetchPage_unpinPage {ε β : Type} (pageId : PageId) (k : PinM ε β) :
    (do fetchPage pageId; unpinPage pageId; k) = k :=
  Counted.acquire_release pageId k

theorem fetchPage_lift_unpinPage {ε α β : Type} (pageId : PageId) (x : Except ε α)
    (k : α → PinM ε β) :
    (do fetchPage pageId; let a ← Counted.lift x; unpinPage pageId; k a) =
      (do let a ← Counted.lift x; k a) :=
  Counted.acquire_lift_release pageId x k

namespace BufferPoolManagerInstance

variable {poolSize : Nat} {b final middle : BufferPoolManagerInstance poolSize}
  {f : Fin poolSize} {pageId : PageId} {ε : Type}

/-- The pin count of each page. -/
def pins (b : BufferPoolManagerInstance poolSize) (pageId : PageId) : Nat :=
  match b.findPage pageId with
  | none => 0
  | some frameId => (b.pages frameId).pinCount

theorem pins_of_none (hnone : b.pageTable pageId = none) : b.pins pageId = 0 := by
  unfold pins findPage
  rw [hnone]

theorem pins_of_some (hmapped : b.pageTable pageId = some f) :
    b.pins pageId = (b.pages f).pinCount := by
  unfold pins findPage
  rw [hmapped]

theorem pins_congr (htable : final.pageTable pageId = b.pageTable pageId)
    (hpages : ∀ g, b.pageTable pageId = some g →
      (final.pages g).pinCount = (b.pages g).pinCount) : final.pins pageId = b.pins pageId := by
  cases hpage : b.pageTable pageId with
  | none => rw [pins_of_none hpage, pins_of_none (htable.trans hpage)]
  | some g => rw [pins_of_some hpage, pins_of_some (htable.trans hpage), hpages g hpage]

/-- A frame that is made fresh had no pin. -/
theorem Frames.pins_findFreshPage (h : b.Frames none)
    (hok : b.findFreshPage = .ok (some f, middle)) : middle.pins = b.pins := by
  funext pageId
  rcases findFreshPage_spec h with ⟨g, rest, -, hresult⟩ | ⟨g, hfree, -, hresult⟩ | ⟨-, -, hresult⟩
  · cases hresult.symm.trans hok
    exact pins_congr rfl fun _ _ => rfl
  · have hzero := (findFreshPage_fresh h hok).2.1
    cases hresult.symm.trans hok
    by_cases hpage : pageId = (b.pages f).pageId
    · subst hpage
      rw [pins_of_none (Function.update_self ..)]
      have hvictim := (h.mapped (b.pages f).pageId f).mpr
        ⟨rfl, hfree ▸ List.not_mem_nil, by simp⟩
      rw [pins_of_some hvictim, hzero]
    · apply pins_congr (Function.update_of_ne hpage _ _)
      intro g' _
      by_cases hg : g' = f
      · simp [BufferPoolManagerInstance.evict, hg]
      · simp [BufferPoolManagerInstance.evict, hg]
  · cases hresult.symm.trans hok

/-- Only the pins of a page change when only the frame of that page does. -/
theorem Frames.pins_eq_update (h : final.Frames none) (hmapped : final.pageTable pageId = some f)
    (htable : ∀ other, other ≠ pageId → final.pageTable other = b.pageTable other)
    (hpages : ∀ g, g ≠ f → final.pages g = b.pages g) :
    final.pins = Function.update b.pins pageId (final.pages f).pinCount := by
  funext other
  by_cases heq : other = pageId
  · subst heq
    rw [pins_of_some hmapped, Function.update_self]
  · rw [Function.update_of_ne heq]
    apply pins_congr (htable other heq)
    intro g hother
    have hne : g ≠ f := fun hg =>
      heq (h.injective ((htable other heq).trans (hg ▸ hother)) hmapped)
    rw [hpages g hne]

theorem Frames.pins_fetchPg (h : b.Frames none) (hok : b.fetchPg pageId = .ok (some f, final)) :
    (fetchPage pageId : PinM ε Unit) b.pins = .ok ((), final.pins) := by
  have hframes := h.fetchPg hok
  rcases fetchPg_cases hok with ⟨g, hpage, hresult, rfl⟩ | ⟨-, hresult, -⟩ |
    ⟨g, middle, hpage, hfresh, hresult, rfl⟩
  · cases hresult
    rw [hframes.pins_eq_update (b := b) hpage (fun _ _ => rfl) fun g hg => Function.update_of_ne hg _ _]
    simp [fetchPage, Counted.acquire, BufferPoolManagerInstance.pinHit,
      pins_of_some hpage]
  · cases hresult
  · cases hresult
    have hzero := ((findFreshPage_fresh h hfresh).1.outside f rfl).2
    rw [← h.pins_findFreshPage hfresh, hframes.pins_eq_update (b := middle)
      (Function.update_self ..) (fun other hne => Function.update_of_ne hne _ _)
      fun g hg => Function.update_of_ne hg _ _]
    have hunmapped := findFreshPage_unmapped h hfresh hpage
    simp [fetchPage, Counted.acquire, BufferPoolManagerInstance.installRead,
      pins_of_none hunmapped, hzero]

theorem Frames.pins_newPg (h : b.Frames none) (hnone : b.pageTable b.nextPageId = none)
    (hok : b.newPg = .ok (some (pageId, f), final)) :
    (fetchPage pageId : PinM ε Unit) b.pins = .ok ((), final.pins) := by
  rcases newPg_cases hok with ⟨hresult, -⟩ | ⟨g, middle, hfresh, hresult, rfl⟩
  · cases hresult
  · cases hresult
    obtain ⟨hframes, -, hnext⟩ := findFreshPage_fresh h hfresh
    have hunmapped : middle.pageTable middle.nextPageId = none :=
      hnext ▸ findFreshPage_unmapped h hfresh hnone
    have hzero := (hframes.outside f rfl).2
    rw [← h.pins_findFreshPage hfresh, (hframes.installNew hunmapped).pins_eq_update (b := middle)
      (Function.update_self ..) (fun other hne => Function.update_of_ne hne _ _)
      fun g hg => Function.update_of_ne hg _ _]
    simp [fetchPage, Counted.acquire, BufferPoolManagerInstance.installNew,
      pins_of_none hunmapped, hzero]

theorem Frames.pins_unpinPg (h : b.Frames none) {isDirty : Bool}
    (hok : b.unpinPg pageId isDirty = .ok (true, final)) :
    (unpinPage pageId : PinM ε Unit) b.pins = .ok ((), final.pins) := by
  have hframes := h.unpinPg hok
  rcases unpinPg_cases hok with ⟨hresult, -⟩ |
    ⟨g, hpage, hpinned, -, ⟨-, rfl⟩ | ⟨-, rfl⟩⟩
  · cases hresult
  · rw [hframes.pins_eq_update (b := b) hpage (fun _ _ => rfl) fun f hf => Function.update_of_ne hf _ _]
    simp [unpinPage, Counted.release, BufferPoolManagerInstance.released,
      BufferPoolManagerInstance.writeBack, BufferPoolManagerInstance.unpinned,
      BufferPoolManagerInstance.setPage, pins_of_some hpage, hpinned]
  · rw [hframes.pins_eq_update (b := b) hpage (fun _ _ => rfl) fun f hf => Function.update_of_ne hf _ _]
    simp [unpinPage, Counted.release, BufferPoolManagerInstance.unpinned,
      BufferPoolManagerInstance.setPage, pins_of_some hpage, hpinned]

/-- `UnpinPage` returns false exactly for a page without pins. -/
theorem unpinPg_false_iff {isDirty : Bool} :
    b.unpinPg pageId isDirty = .ok (false, b) ↔
      (unpinPage pageId : PinM ε Unit) b.pins = .error .notHeld := by
  have hcount : (unpinPage pageId : PinM ε Unit) b.pins = .error .notHeld ↔ b.pins pageId = 0 := by
    unfold unpinPage Counted.release
    split
    next hzero => exact iff_of_true rfl hzero
    next hpos => exact iff_of_false (fun heq => nomatch heq) hpos
  rw [hcount]
  constructor
  · intro hok
    rcases unpinPg_cases hok with ⟨-, -, hzero⟩ | ⟨f, -, -, hresult, -⟩
    · cases hpage : b.pageTable pageId with
      | none => exact pins_of_none hpage
      | some f => rw [pins_of_some hpage, hzero f hpage]
    · cases hresult
  · intro hzero
    unfold unpinPg
    unfold pins at hzero
    split
    next => rfl
    next f hpage =>
      rw [hpage] at hzero
      exact if_pos hzero

end BufferPoolManagerInstance

end BusTub
