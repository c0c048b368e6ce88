import BusTub.Table.HeapInsertion
import BusTub.Table.TableIterator

/-! # Scans of a table heap

In every state of a heap that does not change meanwhile, the iteration from `Begin` to `End`
comes to each visible tuple once, in the order of the pages and of the slots in them.
-/

namespace BusTub.TableHeap

open TablePage TableIterator

/-- The order of the record ids: that of the pages in the chain, then that of the slots. -/
def Before (pageIds : List PageId) (rid other : RID) : Prop :=
  pageIds.idxOf rid.pageId < pageIds.idxOf other.pageId ∨
    rid.pageId = other.pageId ∧ rid.slotNum < other.slotNum

instance (pageIds : List PageId) (rid other : RID) : Decidable (Before pageIds rid other) :=
  inferInstanceAs (Decidable (_ ∨ _))

variable {pool : PagePool} {table : TableHeap} {pageIds : List PageId}
  {heap : PageId → List Slot} {rid : RID} {pageId : PageId}

theorem not_before_self (pageIds : List PageId) (rid : RID) : ¬ Before pageIds rid rid := by
  intro hbefore
  rcases hbefore with hpage | ⟨-, hslot⟩
  · exact lt_irrefl _ hpage
  · exact lt_irrefl _ hslot

/-- The rows of a page are in the order of their slots. -/
theorem pageRows_pairwise (pageIds : List PageId) (heap : PageId → List Slot) (pageId : PageId) :
    (pageRows heap pageId 0).Pairwise fun row other => Before pageIds row.1 other.1 := by
  unfold pageRows Slots.liveFrom
  rw [List.pairwise_map, List.pairwise_filterMap]
  apply (List.pairwise_lt_range' 1).imp
  intro i j hlt row hrow other hother
  obtain ⟨data, -, rfl⟩ := Option.map_eq_some_iff.mp hrow
  obtain ⟨data', -, rfl⟩ := Option.map_eq_some_iff.mp hother
  exact Or.inr ⟨rfl, hlt⟩

/-- Pages that are not repeated are in the order of their places. -/
theorem pairwise_idxOf (hnodup : pageIds.Nodup) :
    pageIds.Pairwise fun pageId other => pageIds.idxOf pageId < pageIds.idxOf other := by
  rw [List.pairwise_iff_getElem]
  intro i j hi hj hlt
  rwa [hnodup.idxOf_getElem i hi, hnodup.idxOf_getElem j hj]

theorem liveRows_pairwise (heap : PageId → List Slot) (hnodup : pageIds.Nodup) :
    (liveRows heap pageIds).Pairwise fun row other => Before pageIds row.1 other.1 := by
  unfold liveRows
  rw [List.pairwise_flatMap]
  refine ⟨fun pageId _ => pageRows_pairwise pageIds heap pageId, ?_⟩
  apply (pairwise_idxOf hnodup).imp
  intro pageId other hlt row hrow row' hrow'
  obtain ⟨hpage, -⟩ := mem_pageRows.mp hrow
  obtain ⟨hpage', -⟩ := mem_pageRows.mp hrow'
  left
  rwa [hpage, hpage']

theorem visible?_eq_some_iff {s : Slot} {data : Tuple} :
    s.visible? = some data ↔ s = .full false data := by
  rcases s with _ | ⟨_ | _, stored⟩
  · simp [Slot.visible?]
  · simp [Slot.visible?]
  · simp [Slot.visible?]

/-- The rows of the heap are the slots with a tuple and without a mark. -/
theorem HeapOk.mem_liveRows_iff {data : Tuple}
    (h : HeapOk pool table.firstPageId pageIds heap) :
    (rid, data) ∈ liveRows heap pageIds ↔ table.slotIn pool rid = .full false data := by
  have hvisible := h.visible_eq rid
  unfold visible at hvisible
  rw [h.pageIds_eq] at hvisible
  rw [h.mem_liveRows, h.slotIn_eq, ← visible?_eq_some_iff, ← hvisible]
  split
  next hmem => exact and_iff_right hmem
  next hnot => exact iff_of_false (fun hrow => hnot hrow.1) nofun

/-- The iteration from `Begin` ends, and what it comes to are the visible tuples, each once and
in order. -/
theorem scan_complete (h : Reached table pool) : ∃ it rows,
    TableIterator.first table pool = .ok it ∧ Walks pool it rows ∧
      (∀ rid data, (rid, data) ∈ rows ↔ table.slotIn pool rid = .full false data) ∧
      (rows.map Prod.fst).Nodup ∧
      rows.Pairwise fun row other => Before (table.pageIds pool) row.1 other.1 := by
  obtain ⟨pageIds, heap, hlinked⟩ := h.linked
  have hok := hlinked.toHeapOk
  obtain ⟨it, hfirst, hwalks⟩ := hok.first_walks
  have horder := liveRows_pairwise heap hok.nodup
  refine ⟨it, _, hfirst, hwalks, fun rid data => hok.mem_liveRows_iff, ?_, ?_⟩
  · refine List.pairwise_map.mpr (horder.imp ?_)
    intro row other hbefore heq
    rw [heq] at hbefore
    exact not_before_self pageIds _ hbefore
  · rwa [hok.pageIds_eq]

/-- A scan of two pages passes over the marked tuple and the empty slot. -/
theorem scan_complete_mixed : ∃ pool it rows,
    HeapContents.mixed.OfTable smallTable pool ∧
      TableIterator.first smallTable pool = .ok it ∧ Walks pool it rows ∧
      ((∀ rid data, (rid, data) ∈ rows ↔ smallTable.slotIn pool rid = .full false data) ∧
        (rows.map Prod.fst).Nodup ∧
        rows.Pairwise fun row other => Before (smallTable.pageIds pool) row.1 other.1) ∧
      smallTable.slotIn pool ⟨0, 0⟩ = .full true [1] ∧
      smallTable.slotIn pool ⟨0, 1⟩ = .empty ∧
      (⟨0, 2⟩, HeapContents.wideTuple) ∈ rows ∧ (⟨1, 0⟩, List.replicate 60 5) ∈ rows := by
  obtain ⟨pool, hreached, hmixed⟩ := HeapContents.exists_mixed
  have hslot : ∀ rid, smallTable.slotIn pool rid = slotAt HeapContents.mixed.slots rid :=
    hmixed.linked.slotIn_eq
  obtain ⟨it, rows, hfirst, hwalks, hrows, horder⟩ := scan_complete hreached
  refine ⟨pool, it, rows, hmixed, hfirst, hwalks, ⟨hrows, horder⟩, ?_, ?_, ?_, ?_⟩
  · rw [hslot]
    rfl
  · rw [hslot]
    rfl
  · rw [hrows, hslot]
    rfl
  · rw [hrows, hslot]
    rfl

end BusTub.TableHeap
