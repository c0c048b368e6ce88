import BusTub.Table.HeapRefinement
import Mathlib.Algebra.Order.BigOperators.Group.List
import Mathlib.Algebra.Order.Group.Nat
import Mathlib.Algebra.Group.Action.Defs

/-! # Table iterators

`TableIterator` walks over the live tuples of a heap, page by page and slot by slot.
The tuple is copied when the iterator arrives at it. The assertion that a page is the
one of the record id holds, since the page is fetched by that id.
-/

namespace BusTub

namespace TablePage

/-- `GetFirstTupleRid`; `none` stands for `false`. -/
def getFirstTupleRid (p : Memory) : Option RID :=
  ((List.range' 0 (getTupleCount p)).find? fun i => !isDeleted (getTupleSize p i)).map
    fun i => ⟨getTablePageId p, i⟩

/-- `GetNextTupleRid`; `none` stands for `false`. -/
def getNextTupleRid (p : Memory) (curRid : RID) : Option RID :=
  ((List.range' (curRid.slotNum + 1) (getTupleCount p - (curRid.slotNum + 1))).find?
    fun i => !isDeleted (getTupleSize p i)).map fun i => ⟨getTablePageId p, i⟩

end TablePage

/-- `TableIterator`: the tuple and its record id. -/
structure TableIterator where
  rid : RID
  tuple : Tuple
  deriving DecidableEq, Repr

namespace TableIterator

open TablePage

/-- The record id that `End` has. -/
def endRid : RID := ⟨invalidPageId, 0⟩

/-- The constructor from a record id. -/
def ofRid (pool : PagePool) (rid : RID) : TableIterator :=
  { rid, tuple := if rid.pageId ≠ invalidPageId then (TableHeap.getTuple pool rid).getD [] else [] }

/-- The loop of `Begin` over the pages, at most `fuel` turns of it. -/
def firstRid (pool : PagePool) : Nat → PageId → Except HeapFault RID
  | 0, _ => .error .diverges
  | fuel + 1, pageId =>
      if pageId = invalidPageId then .ok endRid
      else
        match getFirstTupleRid (pool.pages pageId) with
        | some rid => .ok rid
        | none => firstRid pool fuel (getNextPageId (pool.pages pageId))

/-- `Begin`. -/
def first (table : TableHeap) (pool : PagePool) : Except HeapFault TableIterator :=
  match firstRid pool (pool.nextPageId.toNat + 1) table.firstPageId with
  | .error fault => .error fault
  | .ok rid => .ok (ofRid pool rid)

/-- The loop of `operator++` over the pages behind one, at most `fuel` turns of it. -/
def ridBehind (pool : PagePool) : Nat → PageId → Except HeapFault RID
  | 0, _ => .error .diverges
  | fuel + 1, pageId =>
      let nextPageId := getNextPageId (pool.pages pageId)
      if nextPageId = invalidPageId then .ok endRid
      else
        match getFirstTupleRid (pool.pages nextPageId) with
        | some rid => .ok rid
        | none => ridBehind pool fuel nextPageId

/-- `operator++`. -/
def advance (pool : PagePool) (it : TableIterator) : Except HeapFault TableIterator :=
  let next : Except HeapFault RID :=
    match getNextTupleRid (pool.pages it.rid.pageId) it.rid with
    | some rid => .ok rid
    | none => ridBehind pool (pool.nextPageId.toNat + 1) it.rid.pageId
  match next with
  | .error fault => .error fault
  | .ok rid =>
      .ok { rid, tuple := if rid ≠ endRid then (TableHeap.getTuple pool rid).getD it.tuple
        else it.tuple }

/-- The iterator visits the rows, one after the other, and comes to the end. -/
inductive Walks (pool : PagePool) : TableIterator → List (RID × Tuple) → Prop
  | done {it : TableIterator} (hend : it.rid = endRid) : Walks pool it []
  | step {it next : TableIterator} {rows : List (RID × Tuple)} (hne : it.rid ≠ endRid)
      (hnext : advance pool it = .ok next) (hrest : Walks pool next rows) :
      Walks pool it ((it.rid, it.tuple) :: rows)

end TableIterator

namespace Slots

/-- The live tuples from slot `k` on. -/
def liveFrom (slots : List Slot) (k : Nat) : List (Nat × Tuple) :=
  (List.range' k (slots.length - k)).filterMap fun i => (getTuple slots i).map (i, ·)

theorem liveFrom_cons {slots : List Slot} {k i : Nat} {tuple : Tuple} {rest : List (Nat × Tuple)}
    (h : liveFrom slots k = (i, tuple) :: rest) :
    getTuple slots i = some tuple ∧ rest = liveFrom slots (i + 1) := by
  obtain ⟨n, hn⟩ : ∃ n, n = slots.length - k := ⟨_, rfl⟩
  induction n generalizing k with
  | zero =>
      unfold liveFrom at h
      rw [← hn] at h
      cases h
  | succ n ih =>
      have hnext : liveFrom slots (k + 1) =
          (List.range' (k + 1) n).filterMap fun i => (getTuple slots i).map (i, ·) := by
        unfold liveFrom
        rw [show slots.length - (k + 1) = n by omega]
      unfold liveFrom at h
      rw [← hn, List.range'_succ, List.filterMap_cons] at h
      cases hget : getTuple slots k with
      | none =>
          rw [hget, Option.map_none, ← hnext] at h
          exact ih h (by omega)
      | some t =>
          rw [hget, Option.map_some, ← hnext] at h
          cases h
          exact ⟨hget, rfl⟩

end Slots

namespace TableHeap

open TablePage TableIterator

variable {pool : PagePool} {first cur : PageId} {pageIds ids before after : List PageId}
  {heap : PageId → List Slot} {rid : RID} {tuple : Tuple} {rest : List (RID × Tuple)}

/-- The live tuples of a page from slot `k` on. -/
def pageRows (heap : PageId → List Slot) (pageId : PageId) (k : Nat) : List (RID × Tuple) :=
  (Slots.liveFrom (heap pageId) k).map fun row => (⟨pageId, row.1⟩, row.2)

/-- The live tuples of the pages. -/
def liveRows (heap : PageId → List Slot) (pageIds : List PageId) : List (RID × Tuple) :=
  pageIds.flatMap fun pageId => pageRows heap pageId 0

theorem liveRows_cons (heap : PageId → List Slot) (pageId : PageId) (rest : List PageId) :
    liveRows heap (pageId :: rest) = pageRows heap pageId 0 ++ liveRows heap rest :=
  List.flatMap_cons

/-- The search for a live slot finds the first of them. -/
theorem find?_live {p : Memory} {slots : List Slot} (h : Represents p slots) (k : Nat) :
    (List.range' k (getTupleCount p - k)).find? (fun i => !isDeleted (getTupleSize p i)) =
      (Slots.liveFrom slots k).head?.map Prod.fst := by
  unfold Slots.liveFrom
  rw [h.count, List.head?_filterMap]
  have hbound : ∀ i ∈ List.range' k (slots.length - k), i < slots.length := by
    intro i hmem
    have := List.mem_range'_1.mp hmem
    omega
  generalize List.range' k (slots.length - k) = indices at hbound ⊢
  induction indices with
  | nil => rfl
  | cons i rest ih =>
      have hrest := ih fun j hmem => hbound j (List.mem_cons_of_mem _ hmem)
      have hlt : i < slots.length := hbound i List.mem_cons_self
      have hslot := List.getElem?_eq_getElem hlt
      rw [List.find?_cons, List.findSome?_cons, h.isDeleted_eq hslot]
      unfold Slots.getTuple
      rw [hslot, Option.bind_some]
      cases hvisible : slots[i].visible? with
      | none => exact hrest
      | some t => rfl

theorem find?_live_rows {p : Memory} {pageId : PageId}
    (h : Represents p (heap pageId)) (hid : getTablePageId p = pageId) (k : Nat) :
    ((List.range' k (getTupleCount p - k)).find? fun i => !isDeleted (getTupleSize p i)).map
        (fun i => (⟨getTablePageId p, i⟩ : RID)) =
      (pageRows heap pageId k).head?.map Prod.fst := by
  rw [find?_live h, hid]
  unfold pageRows
  rw [List.head?_map, Option.map_map, Option.map_map]
  rfl

/-- The record id of the first of the rows, or that of `End`. -/
def headRid (rows : List (RID × Tuple)) : RID := (rows.head?.map Prod.fst).getD endRid

theorem HeapOk.ne_invalid (h : HeapOk pool first pageIds heap) {pageId : PageId}
    (hmem : pageId ∈ pageIds) : pageId ≠ invalidPageId := by
  rintro rfl
  exact absurd (h.bounds _ hmem).1 (by decide)

/-- The loop of `Begin` stops at the first live tuple of the pages that are left. -/
theorem firstRid_eq (h : HeapOk pool first pageIds heap) (hids : pageIds = before ++ ids)
    {fuel : Nat} (hfuel : ids.length < fuel) :
    firstRid pool fuel (ids.headD invalidPageId) = .ok (headRid (liveRows heap ids)) := by
  induction ids generalizing before fuel with
  | nil =>
      obtain ⟨fuel, rfl⟩ := Nat.exists_eq_add_of_lt hfuel
      rfl
  | cons pageId rest ih =>
      obtain ⟨fuel, rfl⟩ : ∃ n, fuel = n + 1 := ⟨fuel - 1, by omega⟩
      rw [List.length_cons] at hfuel
      have hmem : pageId ∈ pageIds := by simp [hids]
      have hlinks := h.links
      rw [hids] at hlinks
      obtain ⟨hid, hnext⟩ := hlinks.next
      have hfound := find?_live_rows (h.represents pageId hmem) hid 0
      rw [List.headD_cons, firstRid, if_neg (h.ne_invalid hmem)]
      unfold getFirstTupleRid
      rw [Nat.sub_zero] at hfound
      rw [hfound, liveRows_cons]
      cases hrows : pageRows heap pageId 0 with
      | nil =>
          rw [hnext]
          have hids' : pageIds = (before ++ [pageId]) ++ rest := by simp [hids]
          exact ih hids' (by omega)
      | cons row rows => rfl

theorem ridBehind_eq_firstRid (pool : PagePool) (fuel : Nat) (pageId : PageId) :
    ridBehind pool fuel pageId = firstRid pool fuel (getNextPageId (pool.pages pageId)) := by
  induction fuel generalizing pageId with
  | zero => rfl
  | succ fuel ih =>
      rw [ridBehind, firstRid]
      split
      · rfl
      · split
        next => rfl
        next => exact ih _

/-- Where the first row of the rest of a heap is, and what is behind it. -/
theorem rows_cons {pageId : PageId} {k : Nat} (hids : pageIds = before ++ pageId :: after)
    (hrows : pageRows heap pageId k ++ liveRows heap after = (rid, tuple) :: rest) :
    ∃ before' after', pageIds = before' ++ rid.pageId :: after' ∧
      Slots.getTuple (heap rid.pageId) rid.slotNum = some tuple ∧
      rest = pageRows heap rid.pageId (rid.slotNum + 1) ++ liveRows heap after' := by
  induction after generalizing before pageId k with
  | nil =>
      cases hlive : Slots.liveFrom (heap pageId) k with
      | nil =>
          unfold pageRows at hrows
          rw [hlive] at hrows
          cases hrows
      | cons row more =>
          obtain ⟨i, t⟩ := row
          have hrow := Slots.liveFrom_cons hlive
          unfold pageRows at hrows
          rw [hlive] at hrows
          cases hrows
          exact ⟨before, [], hids, hrow.1, by rw [hrow.2]; rfl⟩
  | cons next more ih =>
      cases hlive : Slots.liveFrom (heap pageId) k with
      | nil =>
          unfold pageRows at hrows
          rw [hlive, List.map_nil, List.nil_append, liveRows_cons] at hrows
          have hids' : pageIds = (before ++ [pageId]) ++ next :: more := by simp [hids]
          exact ih hids' hrows
      | cons row others =>
          obtain ⟨i, t⟩ := row
          have hrow := Slots.liveFrom_cons hlive
          unfold pageRows at hrows
          rw [hlive] at hrows
          cases hrows
          exact ⟨before, next :: more, hids, hrow.1, by rw [hrow.2]; rfl⟩

/-- The iterator is at the first of the rows, with its tuple; the other rows are
those behind it. -/
def Arrived (heap : PageId → List Slot) (pageIds : List PageId) (it : TableIterator) :
    List (RID × Tuple) → Prop
  | [] => it.rid = endRid
  | (rid, tuple) :: rest => it.rid = rid ∧ it.tuple = tuple ∧
      ∃ before after, pageIds = before ++ rid.pageId :: after ∧
        Slots.getTuple (heap rid.pageId) rid.slotNum = some tuple ∧
        rest = pageRows heap rid.pageId (rid.slotNum + 1) ++ liveRows heap after

theorem Arrived.ne_end {it : TableIterator} (h : HeapOk pool first pageIds heap)
    (hat : Arrived heap pageIds it ((rid, tuple) :: rest)) : it.rid ≠ endRid := by
  obtain ⟨hrid, -, before, after, hids, -⟩ := hat
  intro hend
  have hmem : rid.pageId ∈ pageIds := by simp [hids]
  have hvalid := h.ne_invalid hmem
  rw [hrid] at hend
  rw [hend] at hvalid
  exact hvalid rfl

/-- From any place of a heap, `operator++` goes to the next row behind it. -/
theorem HeapOk.advance_arrived {it : TableIterator} (h : HeapOk pool first pageIds heap)
    (hids : pageIds = before ++ it.rid.pageId :: after) :
    ∃ next, TableIterator.advance pool it = .ok next ∧ Arrived heap pageIds next
      (pageRows heap it.rid.pageId (it.rid.slotNum + 1) ++ liveRows heap after) := by
  have hmem : it.rid.pageId ∈ pageIds := by simp [hids]
  have hlinks := h.links
  rw [hids] at hlinks
  obtain ⟨hid, hnextPage⟩ := hlinks.next
  have hfound := find?_live_rows (h.represents _ hmem) hid (it.rid.slotNum + 1)
  have hafter : after.length < pool.nextPageId.toNat + 1 := by
    have hlength := h.length_le
    rw [hids, List.length_append, List.length_cons] at hlength
    omega
  have hids' : pageIds = (before ++ [it.rid.pageId]) ++ after := by simp [hids]
  have hbehind := firstRid_eq h hids' hafter
  have hnext : (match getNextTupleRid (pool.pages it.rid.pageId) it.rid with
      | some rid => .ok rid
      | none => ridBehind pool (pool.nextPageId.toNat + 1) it.rid.pageId) =
      (.ok (headRid (pageRows heap it.rid.pageId (it.rid.slotNum + 1) ++ liveRows heap after)) :
        Except HeapFault RID) := by
    unfold getNextTupleRid
    rw [hfound]
    cases hrows : pageRows heap it.rid.pageId (it.rid.slotNum + 1) with
    | nil =>
        rw [ridBehind_eq_firstRid, hnextPage]
        exact hbehind
    | cons row rows => rfl
  unfold TableIterator.advance
  rw [hnext]
  refine ⟨_, rfl, ?_⟩
  cases hrows : pageRows heap it.rid.pageId (it.rid.slotNum + 1) ++ liveRows heap after with
  | nil => rfl
  | cons row rows =>
      obtain ⟨rid', tuple'⟩ := row
      obtain ⟨before', after', hids', htuple, hrest'⟩ := rows_cons hids hrows
      have hmem' : rid'.pageId ∈ pageIds := by simp [hids']
      have hne : rid' ≠ endRid := by
        rintro rfl
        exact h.ne_invalid hmem' rfl
      refine ⟨rfl, ?_, before', after', hids', htuple, hrest'⟩
      have hget : TableHeap.getTuple pool rid' = some tuple' := (h.getTuple_eq hmem').trans htuple
      refine (if_pos hne).trans ?_
      exact congrArg (Option.getD · it.tuple) hget

/-- `operator++` goes to the next row. -/
theorem Arrived.advance {it : TableIterator} (h : HeapOk pool first pageIds heap)
    (hat : Arrived heap pageIds it ((rid, tuple) :: rest)) :
    ∃ next, TableIterator.advance pool it = .ok next ∧ Arrived heap pageIds next rest := by
  obtain ⟨rfl, -, before, after, hids, -, rfl⟩ := hat
  exact h.advance_arrived hids

theorem Arrived.walks {it : TableIterator} {rows : List (RID × Tuple)}
    (h : HeapOk pool first pageIds heap) (hat : Arrived heap pageIds it rows) :
    Walks pool it rows := by
  induction rows generalizing it with
  | nil => exact .done hat
  | cons row rest ih =>
      obtain ⟨rid, tuple⟩ := row
      obtain ⟨next, hnext, hrest⟩ := hat.advance h
      have hstep := Walks.step (hat.ne_end h) hnext (ih hrest)
      obtain ⟨hrid, htuple, -⟩ := hat
      rwa [hrid, htuple] at hstep

/-- `Begin` arrives at the first live tuple of the heap. -/
theorem HeapOk.first_arrived {table : TableHeap}
    (h : HeapOk pool table.firstPageId pageIds heap) :
    ∃ it, TableIterator.first table pool = .ok it ∧
      Arrived heap pageIds it (liveRows heap pageIds) := by
  obtain ⟨after, rfl⟩ : ∃ after, pageIds = table.firstPageId :: after := by
    have hhead := h.head
    cases pageIds with
    | nil => cases hhead
    | cons head after =>
        rw [List.head?_cons, Option.some.injEq] at hhead
        exact ⟨after, by rw [hhead]⟩
  have hall : table.firstPageId :: after = [] ++ table.firstPageId :: after := rfl
  have hfirst := firstRid_eq h hall (Nat.lt_succ_of_le h.length_le)
  unfold TableIterator.first
  rw [List.headD_cons] at hfirst
  rw [hfirst]
  refine ⟨_, rfl, ?_⟩
  cases hrows : liveRows heap (table.firstPageId :: after) with
  | nil => rfl
  | cons row rows =>
      obtain ⟨rid, tuple⟩ := row
      obtain ⟨before', after', hids, htuple, hrest⟩ :=
        rows_cons hall ((liveRows_cons _ _ _).symm.trans hrows)
      have hmem : rid.pageId ∈ table.firstPageId :: after := by simp [hids]
      refine ⟨rfl, ?_, before', after', hids, htuple, hrest⟩
      dsimp only [headRid, List.head?_cons, Option.map_some, Option.getD_some, ofRid]
      rw [if_pos (h.ne_invalid hmem), h.getTuple_eq hmem, htuple]
      rfl

/-- An iteration over a heap that nobody changes visits its live tuples. -/
theorem HeapOk.first_walks {table : TableHeap}
    (h : HeapOk pool table.firstPageId pageIds heap) :
    ∃ it, TableIterator.first table pool = .ok it ∧ Walks pool it (liveRows heap pageIds) := by
  obtain ⟨it, hfirst, hat⟩ := h.first_arrived
  exact ⟨it, hfirst, hat.walks h⟩

theorem mem_pageRows {pageId : PageId} : (rid, tuple) ∈ pageRows heap pageId 0 ↔
    rid.pageId = pageId ∧ Slots.getTuple (heap pageId) rid.slotNum = some tuple := by
  unfold pageRows Slots.liveFrom
  rw [List.mem_map]
  constructor
  · rintro ⟨⟨i, tuple'⟩, hrow, heq⟩
    cases heq
    obtain ⟨i', -, hget⟩ := List.mem_filterMap.mp hrow
    obtain ⟨tuple', hget, hpair⟩ := Option.map_eq_some_iff.mp hget
    cases hpair
    exact ⟨rfl, hget⟩
  · rintro ⟨rfl, hget⟩
    refine ⟨(rid.slotNum, tuple), List.mem_filterMap.mpr ⟨rid.slotNum, ?_, ?_⟩, rfl⟩
    · have hslot : ∃ s, (heap rid.pageId)[rid.slotNum]? = some s := by
        obtain ⟨s, hslot, -⟩ := Option.bind_eq_some_iff.mp hget
        exact ⟨s, hslot⟩
      obtain ⟨s, hslot⟩ := hslot
      have hlt := (List.getElem?_eq_some_iff.mp hslot).1
      rw [List.mem_range'_1]
      omega
    · rw [hget]
      rfl

/-- The live tuples are those that a reader of the table sees. -/
theorem HeapOk.mem_liveRows {table : TableHeap} (h : HeapOk pool table.firstPageId pageIds heap) :
    (rid, tuple) ∈ liveRows heap pageIds ↔
      rid.pageId ∈ pageIds ∧ TableHeap.getTuple pool rid = some tuple := by
  unfold liveRows
  rw [List.mem_flatMap]
  constructor
  · rintro ⟨pageId, hmem, hrow⟩
    obtain ⟨rfl, hget⟩ := mem_pageRows.mp hrow
    exact ⟨hmem, (h.getTuple_eq hmem).trans hget⟩
  · rintro ⟨hmem, hget⟩
    refine ⟨rid.pageId, hmem, mem_pageRows.mpr ⟨rfl, ?_⟩⟩
    rw [← h.getTuple_eq hmem, hget]

/-- A page has fewer live tuples than bytes. -/
theorem HeapOk.length_liveRows_le (h : HeapOk pool first pageIds heap) :
    (liveRows heap pageIds).length ≤ pool.nextPageId.toNat * pageSize := by
  have hpage : ∀ pageId ∈ pageIds, (pageRows heap pageId 0).length ≤ pageSize := by
    intro pageId hmem
    have hlive : (Slots.liveFrom (heap pageId) 0).length ≤ (heap pageId).length := by
      unfold Slots.liveFrom
      refine (List.length_filterMap_le _ _).trans ?_
      rw [List.length_range', Nat.sub_zero]
    have hfree := (h.represents pageId hmem).free
    have hroom := (h.represents pageId hmem).room
    unfold Slots.headerSize at hroom
    unfold pageRows
    rw [List.length_map]
    omega
  have hsum : (liveRows heap pageIds).length ≤ pageIds.length * pageSize := by
    unfold liveRows
    rw [List.length_flatMap]
    refine (List.sum_le_card_nsmul _ pageSize ?_).trans ?_
    · intro n hn
      obtain ⟨pageId, hmem, rfl⟩ := List.mem_map.mp hn
      exact hpage pageId hmem
    · rw [List.length_map, smul_eq_mul]
  exact hsum.trans (Nat.mul_le_mul_right _ h.length_le)

end TableHeap

end BusTub
