import BusTub.Library.StrictOrder
import BusTub.Table.HeapScan

/-! # The contents of a table

The rows of a table are the live tuples of its chain of pages. A scan that stands at a row comes
to the rows behind it, also to those that were inserted after it got there.
-/

namespace BusTub

open TableHeap TablePage TableIterator

variable {pool pool' : PagePool} {table : TableHeap} {contents following : HeapContents}
  {tuple : Tuple} {rid : RID} {pageIds : List PageId}

namespace HeapContents

/-! ## Rows -/

/-- The live tuples in the order of a scan. -/
def rows (contents : HeapContents) : List (RID × Tuple) := liveRows contents.slots contents.pageIds

theorem OfTable.mem_rows_iff (h : contents.OfTable table pool) {row : RID × Tuple} :
    row ∈ contents.rows ↔ slotAt contents.slots row.1 = .full false row.2 := by
  rw [← h.linked.slotIn_eq]
  exact h.linked.toHeapOk.mem_liveRows_iff

/-- The rows of a table are in the order of their record ids. -/
def RowsBefore (pageIds : List PageId) (row other : RID × Tuple) : Prop :=
  Before pageIds row.1 other.1

theorem OfTable.rows_pairwise (h : contents.OfTable table pool) :
    contents.rows.Pairwise (RowsBefore contents.pageIds) :=
  liveRows_pairwise contents.slots h.linked.nodup

instance (pageIds : List PageId) : Std.Asymm (RowsBefore pageIds) where
  asymm row other hbefore hafter := by
    rcases hbefore with hpage | ⟨hsame, hslot⟩ <;> rcases hafter with hpage' | ⟨hsame', hslot'⟩
    · omega
    · rw [hsame'] at hpage
      exact lt_irrefl _ hpage
    · rw [hsame] at hpage'
      exact lt_irrefl _ hpage'
    · omega

instance (pageIds : List PageId) : IsTrans (RID × Tuple) (RowsBefore pageIds) where
  trans row other third hbefore hafter := by
    rcases hbefore with hpage | ⟨hsame, hslot⟩ <;> rcases hafter with hpage' | ⟨hsame', hslot'⟩
    · exact Or.inl (hpage.trans hpage')
    · exact Or.inl (hsame' ▸ hpage)
    · left
      rw [hsame]
      exact hpage'
    · exact Or.inr ⟨hsame.trans hsame', hslot.trans hslot'⟩

/-- A page more at the end does not change the order of the others, nor that it is the last. -/
theorem idxOf_append_new {pageId newPageId : PageId} (hnew : newPageId ∉ pageIds)
    (hmem : pageId ∈ pageIds ++ [newPageId]) :
    (pageIds ++ [newPageId]).idxOf pageId = pageIds.idxOf pageId := by
  rcases List.mem_append.mp hmem with hold | hlast
  · exact List.idxOf_append_of_mem hold
  · rw [List.mem_singleton.mp hlast, List.idxOf_append_of_notMem hnew,
      List.idxOf_eq_length_iff.mpr hnew, List.idxOf_cons_self, Nat.add_zero]

theorem pageId_mem_of_mem_rows {row : RID × Tuple} (hrow : row ∈ contents.rows) :
    row.1.pageId ∈ contents.pageIds := by
  obtain ⟨pageId, hmem, hpage⟩ := List.mem_flatMap.mp hrow
  obtain ⟨hsame, -⟩ := mem_pageRows.mp hpage
  rwa [hsame]

/-- An insertion adds one row; it leaves the others and their order alone. -/
theorem OfTable.rows_insert (h : contents.OfTable table pool)
    (hinsert : contents.insert tuple = some (rid, following))
    (hfollowing : following.OfTable table pool') :
    slotAt contents.slots rid = .empty ∧
      (∀ row, row ∈ following.rows ↔ row ∈ contents.rows ∨ row = (rid, tuple)) ∧
      following.rows.Pairwise (RowsBefore contents.pageIds) := by
  obtain ⟨-, slots, hslots, hupdate, hids⟩ := insert_spec hinsert
  have hempty := slotAt_of_insert hslots
  refine ⟨hempty, fun row => ?_, ?_⟩
  · rw [hfollowing.mem_rows_iff, h.mem_rows_iff, hupdate, slotAt_insert hslots]
    by_cases heq : row.1 = rid
    · rw [if_pos heq, heq, hempty]
      constructor
      · intro hfull
        cases hfull
        exact Or.inr (Prod.ext heq rfl)
      · rintro (hfull | rfl)
        · cases hfull
        · rfl
    · rw [if_neg heq]
      refine ⟨Or.inl, ?_⟩
      rintro (hfull | rfl)
      · exact hfull
      · exact absurd rfl heq
  · have horder := hfollowing.rows_pairwise
    rcases hids with hids | hids
    · rwa [hids] at horder
    · have hnew : contents.nextPageId ∉ contents.pageIds := by
        intro hmem
        have hlt := (h.linked.bounds _ hmem).2
        rw [h.nextPageId_eq] at hlt
        exact lt_irrefl _ hlt
      refine horder.imp_of_mem ?_
      intro row other hrow hother hbefore
      have hrowPage := pageId_mem_of_mem_rows hrow
      have hotherPage := pageId_mem_of_mem_rows hother
      rw [hids] at hrowPage hotherPage hbefore
      unfold RowsBefore Before at hbefore ⊢
      rwa [idxOf_append_new hnew hrowPage, idxOf_append_new hnew hotherPage] at hbefore

theorem OfTable.rows_insert_perm (h : contents.OfTable table pool)
    (hinsert : contents.insert tuple = some (rid, following))
    (hfollowing : following.OfTable table pool') :
    following.rows.Perm (contents.rows ++ [(rid, tuple)]) := by
  have : ∀ pageIds, Std.Irrefl (RowsBefore pageIds) :=
    fun pageIds => ⟨fun row hself => asymm hself hself⟩
  obtain ⟨hempty, hmem, horder⟩ := h.rows_insert hinsert hfollowing
  have hfresh : (rid, tuple) ∉ contents.rows := by
    rw [h.mem_rows_iff, hempty]
    simp
  apply (List.perm_ext_iff_of_nodup horder.nodup ?_).mpr
  · intro row
    rw [hmem, List.mem_append, List.mem_singleton]
  · refine List.nodup_append.mpr ⟨h.rows_pairwise.nodup, List.nodup_singleton _, ?_⟩
    rintro row hrow other hother rfl
    rw [List.mem_singleton] at hother
    exact hfresh (hother ▸ hrow)

end HeapContents

/-! ## Iterators -/

namespace TableIterator

variable {it it' : TableIterator} {rows before after : List (RID × Tuple)}

/-- The iterator is at the first of the rows, or at the end when there are none. -/
def StandsAt (it : TableIterator) (rows : List (RID × Tuple)) : Prop :=
  match rows.head? with
  | none => it.rid = endRid
  | some row => (it.rid, it.tuple) = row

theorem Walks.standsAt (h : Walks pool it rows) : StandsAt it rows := by
  cases h with
  | done hend => exact hend
  | step => rfl

/-- Where an iterator goes depends on its place and the tuple there only. -/
theorem Walks.of_standsAt (h : Walks pool it rows) (hstands : StandsAt it' rows) :
    Walks pool it' rows := by
  cases h with
  | done => exact .done hstands
  | step hne hnext hrest =>
      obtain ⟨rid, tuple⟩ := it
      obtain ⟨rid', tuple'⟩ := it'
      cases hstands
      exact .step hne hnext hrest

theorem Walks.behind (h : Walks pool it (before ++ after)) : ∃ it', Walks pool it' after := by
  induction before generalizing it with
  | nil => exact ⟨it, h⟩
  | cons row rest ih =>
      cases h with
      | step _ _ hrest => exact ih hrest

end TableIterator

/-- Whoever stands at a row of the contents walks over the rest of them. -/
theorem HeapContents.OfTable.walks (h : contents.OfTable table pool)
    {it : TableIterator} {before after : List (RID × Tuple)}
    (hrows : contents.rows = before ++ after) (hstands : StandsAt it after) :
    Walks pool it after := by
  obtain ⟨first, -, hwalks⟩ := h.linked.toHeapOk.first_walks
  change Walks pool first contents.rows at hwalks
  rw [hrows] at hwalks
  obtain ⟨it', hbehind⟩ := hwalks.behind
  exact hbehind.of_standsAt hstands

end BusTub
