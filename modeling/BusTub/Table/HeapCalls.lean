import BusTub.Table.HeapRefinement
import BusTub.Table.SlottedPage

/-! # Calls of a transaction on a table

What `InsertTuple`, `MarkDelete` and `UpdateTuple` can do, said once: which slot changes
and which write record the transaction gets.
-/

namespace BusTub

/-- `AppendTableWriteRecord`. -/
def Transaction.appendTableWriteRecord (txn : Transaction) (record : TableWriteRecord) :
    Transaction :=
  { txn with tableWriteSet := txn.tableWriteSet ++ [record] }

namespace TablePage

theorem unsetDeletedFlag_of_lt {size : Nat} (hlt : size < 2 ^ 31) :
    unsetDeletedFlag size = size := by
  unfold unsetDeletedFlag deleteMask
  exact (Nat.and_two_pow_sub_one_eq_mod size 31).trans (Nat.mod_eq_of_lt hlt)

/-- A slot as its bytes say; one beyond the tuple count is empty. -/
def slot (p : Memory) (i : Nat) : Slot :=
  if i < getTupleCount p ∧ getTupleSize p i ≠ 0 then
    .full (isDeleted (getTupleSize p i))
      (p.read (getTupleOffsetAtSlot p i) (unsetDeletedFlag (getTupleSize p i)))
  else .empty

theorem Represents.slot_eq {p : Memory} {slots : List Slot} (h : Represents p slots) (i : Nat) :
    slot p i = slots[i]?.getD .empty := by
  unfold slot
  cases hslot : slots[i]? with
  | none =>
      refine if_neg fun hfull => ?_
      obtain ⟨s, hsome⟩ := h.slot_lt_iff.mp hfull.1
      rw [hslot] at hsome
      cases hsome
  | some s =>
      have hlt := h.slot_lt_iff.mpr ⟨s, hslot⟩
      have hword := h.sizes i s hslot
      cases s with
      | empty => exact if_neg fun hfull => hfull.2 hword
      | full deleted data =>
          obtain ⟨hpos, -, -, hread⟩ := h.slotAt i _ hslot
          have hsmall : data.length < deleteMask :=
            lt_of_le_of_lt (h.size_le hslot) (by decide)
          have hunset : unsetDeletedFlag (sizeWord (.full deleted data)) = data.length := by
            cases deleted with
            | true => exact unsetDeletedFlag_add_deleteMask hsmall
            | false => exact unsetDeletedFlag_of_lt hsmall
          have hnonzero := (sizeWord_pos deleted hpos).ne'
          rw [if_pos ⟨hlt, by rwa [hword]⟩, h.isDeleted_eq hslot, hword, hunset, hread]
          cases deleted <;> rfl

end TablePage

namespace TableHeap

/-- The slot of a record id as the bytes of its page say. -/
def slot (pool : PagePool) (rid : RID) : Slot := TablePage.slot (pool.pages rid.pageId) rid.slotNum

/-- The slot of a record id among the slots of the pages. -/
def slotAt (heap : PageId → List Slot) (rid : RID) : Slot :=
  (heap rid.pageId)[rid.slotNum]?.getD .empty

/-- The tuple that a reader of the table sees at a record id. -/
def visible (table : TableHeap) (pool : PagePool) (rid : RID) : Option Tuple :=
  if rid.pageId ∈ table.pageIds pool then getTuple pool rid else none

end TableHeap

/-- A call of a transaction on a table heap. -/
inductive HeapCall where
  | insertTuple (tuple : Tuple)
  | markDelete (rid : RID)
  | updateTuple (tuple : Tuple) (rid : RID)
  deriving DecidableEq, Repr

/-- What such a call returns. -/
inductive HeapResult where
  | inserted (rid? : Option RID)
  | marked (isMarked : Bool)
  | updated (isUpdated : Bool)
  deriving DecidableEq, Repr

namespace TableHeap

/-- A call of a transaction on a table. -/
def call (table : TableHeap) (state : PagePool × Transaction) :
    HeapCall → Except HeapFault (HeapResult × (PagePool × Transaction))
  | .insertTuple tuple =>
      match table.insertTuple state.1 state.2 tuple with
      | .error fault => .error fault
      | .ok (rid?, pool, txn) => .ok (.inserted rid?, pool, txn)
  | .markDelete rid =>
      match markDelete table.oid state.1 state.2 rid with
      | (isMarked, pool, txn) => .ok (.marked isMarked, pool, txn)
  | .updateTuple tuple rid =>
      match updateTuple table.oid state.1 state.2 tuple rid with
      | .error fault => .error fault
      | .ok (isUpdated, pool, txn) => .ok (.updated isUpdated, pool, txn)

section Call

variable {table : TableHeap} {pool pool' : PagePool} {txn txn' : Transaction} {tuple : Tuple}
  {rid : RID}

theorem call_of_insertTuple {rid? : Option RID}
    (h : table.insertTuple pool txn tuple = .ok (rid?, pool', txn')) :
    table.call (pool, txn) (.insertTuple tuple) = .ok (.inserted rid?, pool', txn') := by
  simp only [call, h]

theorem call_of_markDelete {isMarked : Bool}
    (h : markDelete table.oid pool txn rid = (isMarked, pool', txn')) :
    table.call (pool, txn) (.markDelete rid) = .ok (.marked isMarked, pool', txn') := by
  simp only [call, h]

theorem call_of_updateTuple {isUpdated : Bool}
    (h : updateTuple table.oid pool txn tuple rid = .ok (isUpdated, pool', txn')) :
    table.call (pool, txn) (.updateTuple tuple rid) = .ok (.updated isUpdated, pool', txn') := by
  simp only [call, h]

end Call

/-- The calls of a transaction on a table. -/
def machine (table : TableHeap) :
    Machine (PagePool × Transaction) HeapCall HeapResult HeapFault where
  step := table.call

/-- The record id of a call is on a page of the table. -/
def OnPages (table : TableHeap) (state : PagePool × Transaction) : HeapCall → Prop
  | .insertTuple _ => True
  | .markDelete rid => rid.pageId ∈ table.pageIds state.1
  | .updateTuple _ rid => rid.pageId ∈ table.pageIds state.1

/-- A call of `MarkDelete` is about a tuple that a reader sees. -/
def MarksLive (state : PagePool × Transaction) : HeapCall → Prop
  | .markDelete rid => (getTuple state.1 rid).isSome
  | _ => True

instance (table : TableHeap) (state : PagePool × Transaction) (request : HeapCall) :
    Decidable (table.OnPages state request) :=
  match request with
  | .insertTuple _ => inferInstanceAs (Decidable True)
  | .markDelete rid => inferInstanceAs (Decidable (rid.pageId ∈ table.pageIds state.1))
  | .updateTuple _ rid => inferInstanceAs (Decidable (rid.pageId ∈ table.pageIds state.1))

instance (state : PagePool × Transaction) (request : HeapCall) :
    Decidable (MarksLive state request) :=
  match request with
  | .insertTuple _ => inferInstanceAs (Decidable True)
  | .markDelete rid => inferInstanceAs (Decidable ((getTuple state.1 rid).isSome = true))
  | .updateTuple _ _ => inferInstanceAs (Decidable True)

/-- What a call does to the slots of the pages and to the transaction. -/
inductive Effect (table : TableOid) (heap : PageId → List Slot) (txn : Transaction) :
    HeapCall → HeapResult → (PageId → List Slot) → Transaction → Prop
  | inserted {tuple : Tuple} {rid : RID} {slots : List Slot} (hpos : 0 < tuple.length)
      (hinsert : Slots.insert (heap rid.pageId) tuple = some (rid.slotNum, slots)) :
      Effect table heap txn (.insertTuple tuple) (.inserted (some rid))
        (Function.update heap rid.pageId slots)
        (txn.appendTableWriteRecord { rid, wtype := .insert, tuple := [], table })
  | rejected {tuple : Tuple} :
      Effect table heap txn (.insertTuple tuple) (.inserted none) heap
        { txn with state := .aborted }
  | marked {rid : RID} {data : Tuple} (hlive : slotAt heap rid = .full false data) :
      Effect table heap txn (.markDelete rid) (.marked true)
        (Function.update heap rid.pageId ((heap rid.pageId).set rid.slotNum (.full true data)))
        (txn.appendTableWriteRecord { rid, wtype := .delete, tuple := [], table })
  | unmarked {rid : RID} (hdead : ∀ data, slotAt heap rid ≠ .full false data) :
      Effect table heap txn (.markDelete rid) (.marked true) heap
        (txn.appendTableWriteRecord { rid, wtype := .delete, tuple := [], table })
  | updated {tuple old : Tuple} {rid : RID} {slots : List Slot} (hpos : 0 < tuple.length)
      (hupdate : Slots.update (heap rid.pageId) rid.slotNum tuple = some (old, slots)) :
      Effect table heap txn (.updateTuple tuple rid) (.updated true)
        (Function.update heap rid.pageId slots)
        (if txn.state ≠ .aborted then
          txn.appendTableWriteRecord { rid, wtype := .update, tuple := old, table }
        else txn)
  | unchanged {tuple : Tuple} {rid : RID} :
      Effect table heap txn (.updateTuple tuple rid) (.updated false) heap txn

variable {pool pool' : PagePool} {first : PageId} {pageIds : List PageId}
  {heap heap' : PageId → List Slot} {rid other : RID} {data : Tuple} {s : Slot}

/-! ## Slots of record ids -/

theorem HeapOk.slot_eq (h : HeapOk pool first pageIds heap) (hmem : rid.pageId ∈ pageIds) :
    slot pool rid = slotAt heap rid :=
  (h.represents _ hmem).slot_eq _

theorem slotAt_eq_full_iff {deleted : Bool} : slotAt heap rid = .full deleted data ↔
    (heap rid.pageId)[rid.slotNum]? = some (.full deleted data) := by
  unfold slotAt
  cases (heap rid.pageId)[rid.slotNum]? with
  | none => exact ⟨nofun, nofun⟩
  | some s => rw [Option.getD_some, Option.some.injEq]

/-- Writing one list of slots changes no slot of another page. -/
theorem slotAt_update_of_ne {pageId : PageId} (slots : List Slot) (hne : rid.pageId ≠ pageId) :
    slotAt (Function.update heap pageId slots) rid = slotAt heap rid := by
  unfold slotAt
  rw [Function.update_of_ne hne]

theorem slotAt_update_self (slots : List Slot) :
    slotAt (Function.update heap rid.pageId slots) rid = slots[rid.slotNum]?.getD .empty := by
  unfold slotAt
  rw [Function.update_self]

/-- Two record ids of one page differ in their slots. -/
theorem slotNum_ne (hne : other ≠ rid) (hpage : other.pageId = rid.pageId) :
    other.slotNum ≠ rid.slotNum := by
  intro hslot
  apply hne
  cases other
  cases rid
  cases hpage
  cases hslot
  rfl

/-- Writing a slot that exists writes that slot only. -/
theorem slotAt_set (hlt : rid.slotNum < (heap rid.pageId).length) (s : Slot) (other : RID) :
    slotAt (Function.update heap rid.pageId ((heap rid.pageId).set rid.slotNum s)) other =
      if other = rid then s else slotAt heap other := by
  by_cases heq : other = rid
  · subst heq
    rw [if_pos rfl, slotAt_update_self, List.getElem?_set_self hlt]
    rfl
  · rw [if_neg heq]
    by_cases hpage : other.pageId = rid.pageId
    · unfold slotAt
      rw [hpage, Function.update_self, List.getElem?_set_ne (slotNum_ne heq hpage).symm]
    · exact slotAt_update_of_ne _ hpage

/-- An insertion writes the slot of its record id only. -/
theorem slotAt_insert {tuple : Tuple} {slots : List Slot}
    (hinsert : Slots.insert (heap rid.pageId) tuple = some (rid.slotNum, slots)) (other : RID) :
    slotAt (Function.update heap rid.pageId slots) other =
      if other = rid then .full false tuple else slotAt heap other := by
  obtain ⟨-, hfree, rfl⟩ := Slots.insert_eq_some_iff.mp hinsert
  by_cases heq : other = rid
  · subst heq
    have hlt := (List.getElem?_eq_some_iff.mp
      (Slots.getElem?_grow_firstFree (heap other.pageId))).1
    rw [← hfree] at hlt
    rw [if_pos rfl, slotAt_update_self, List.getElem?_set_self hlt]
    rfl
  · rw [if_neg heq]
    by_cases hpage : other.pageId = rid.pageId
    · unfold slotAt
      rw [hpage, Function.update_self]
      exact congrArg (·.getD .empty) (Slots.getElem?_grow_set_of_ne _ _ (slotNum_ne heq hpage))
    · exact slotAt_update_of_ne _ hpage

/-- The slot that an insertion takes is an empty one. -/
theorem slotAt_of_insert {tuple : Tuple} {slots : List Slot}
    (hinsert : Slots.insert (heap rid.pageId) tuple = some (rid.slotNum, slots)) :
    slotAt heap rid = .empty := by
  obtain ⟨-, hfree, -⟩ := Slots.insert_eq_some_iff.mp hinsert
  unfold slotAt
  rw [hfree]
  by_cases hlt : Slots.firstFree (heap rid.pageId) < (heap rid.pageId).length
  · rw [Slots.getElem?_firstFree hlt]
    rfl
  · rw [List.getElem?_eq_none (by omega)]
    rfl

theorem slotAt_lt {deleted : Bool} (hfull : slotAt heap rid = .full deleted data) :
    rid.slotNum < (heap rid.pageId).length :=
  (List.getElem?_eq_some_iff.mp (slotAt_eq_full_iff.mp hfull)).1

theorem HeapOk.visible_eq {table : TableHeap} (h : HeapOk pool table.firstPageId pageIds heap)
    (rid : RID) : table.visible pool rid = (slotAt heap rid).visible? := by
  unfold visible
  rw [h.pageIds_eq]
  by_cases hmem : rid.pageId ∈ pageIds
  · rw [if_pos hmem, h.getTuple_eq hmem]
    unfold Slots.getTuple slotAt
    cases (heap rid.pageId)[rid.slotNum]? <;> rfl
  · rw [if_neg hmem]
    unfold slotAt
    rw [h.outside _ hmem]
    rfl

/-- A tuple that a reader sees is one without a mark. -/
theorem HeapOk.isSome_getTuple_iff (h : HeapOk pool first pageIds heap)
    (hmem : rid.pageId ∈ pageIds) :
    (getTuple pool rid).isSome ↔ ∃ data, slotAt heap rid = .full false data := by
  rw [h.getTuple_eq hmem]
  unfold Slots.getTuple slotAt
  cases (heap rid.pageId)[rid.slotNum]? with
  | none => simp
  | some s => rcases s with _ | ⟨_ | _, data⟩ <;> simp [Slot.visible?]

/-! ## Views by pages -/

/-- A view of a pool by its pages: it gives the slots of the pages that it is about, and a
page of these may be written if it stays a table page with the same links. -/
structure Pagewise (view : PagePool → (PageId → List Slot) → Prop) (pages : Set PageId) :
    Prop where
  represents : ∀ {pool heap pageId}, view pool heap → pageId ∈ pages →
    TablePage.Represents (pool.pages pageId) (heap pageId)
  outside : ∀ {pool heap pageId}, view pool heap → pageId ∉ pages → heap pageId = []
  setPage : ∀ {pool heap pageId page slots}, view pool heap → pageId ∈ pages →
    TablePage.Represents page slots → TablePage.SameLinks (pool.pages pageId) page →
    view (pool.setPage pageId page) (Function.update heap pageId slots)

/-- A heap is such a view of the pages of its chain. -/
theorem HeapOk.pagewise (first : PageId) (pageIds : List PageId) :
    Pagewise (fun pool heap => HeapOk pool first pageIds heap) { pageId | pageId ∈ pageIds } where
  represents h hmem := h.represents _ hmem
  outside h hnot := h.outside _ hnot
  setPage h hmem hpage hlinks := (h.setPage hmem hpage hlinks).1

section Pagewise

variable {view : PagePool → (PageId → List Slot) → Prop} {pages : Set PageId}
  {slots : List Slot} {tuple old : Tuple}

/-- A page with a tuple is one of those that the view is about. -/
theorem Pagewise.mem_of_full (hview : Pagewise view pages) (h : view pool heap) {deleted : Bool}
    (hfull : slotAt heap rid = .full deleted data) : rid.pageId ∈ pages := by
  by_contra hnot
  have hlt := slotAt_lt hfull
  rw [hview.outside h hnot] at hlt
  exact absurd hlt (Nat.not_lt_zero _)

/-- No tuple of a page is empty. -/
theorem Pagewise.data_pos (hview : Pagewise view pages) (h : view pool heap) {deleted : Bool}
    (hfull : slotAt heap rid = .full deleted data) : 0 < data.length :=
  (hview.represents h (hview.mem_of_full h hfull)).data_pos (slotAt_eq_full_iff.mp hfull)

theorem Pagewise.applyDelete_of_full (hview : Pagewise view pages) (h : view pool heap)
    {deleted : Bool} (hfull : slotAt heap rid = .full deleted data) :
    ∃ pool', applyDelete pool rid = .ok pool' ∧
      view pool' (Function.update heap rid.pageId
        ((heap rid.pageId).set rid.slotNum .empty)) := by
  have hmem := hview.mem_of_full h hfull
  have happly : Slots.applyDelete (heap rid.pageId) rid.slotNum =
      .ok ((heap rid.pageId).set rid.slotNum .empty) := by
    unfold Slots.applyDelete
    rw [slotAt_eq_full_iff.mp hfull]
  obtain ⟨page, hok, hpage, hlinks⟩ := (hview.represents h hmem).applyDelete_of_ok happly
  refine ⟨_, ?_, hview.setPage h hmem hpage hlinks⟩
  unfold applyDelete
  rw [hok]

theorem Pagewise.applyDelete_of_empty (hview : Pagewise view pages) (h : view pool heap)
    (hmem : rid.pageId ∈ pages) (hempty : slotAt heap rid = .empty) :
    ∃ fault, applyDelete pool rid = .error fault := by
  cases happly : Slots.applyDelete (heap rid.pageId) rid.slotNum with
  | error fault =>
      refine ⟨fault, ?_⟩
      unfold applyDelete
      rw [(hview.represents h hmem).applyDelete_of_error happly]
  | ok slots =>
      unfold Slots.applyDelete at happly
      split at happly
      · cases happly
      · cases happly
      next deleted data hfull =>
        rw [slotAt_eq_full_iff.mpr hfull] at hempty
        cases hempty

theorem Pagewise.rollbackDelete_of_marked (hview : Pagewise view pages) (h : view pool heap)
    (hfull : slotAt heap rid = .full true data) :
    ∃ pool', rollbackDelete pool rid = .ok pool' ∧
      view pool' (Function.update heap rid.pageId
        ((heap rid.pageId).set rid.slotNum (.full false data))) := by
  have hmem := hview.mem_of_full h hfull
  have hrollback : Slots.rollbackDelete (heap rid.pageId) rid.slotNum =
      .ok ((heap rid.pageId).set rid.slotNum (.full false data)) := by
    unfold Slots.rollbackDelete
    rw [slotAt_eq_full_iff.mp hfull]
  obtain ⟨page, hok, hpage, hlinks⟩ := (hview.represents h hmem).rollbackDelete_of_ok hrollback
  refine ⟨_, ?_, hview.setPage h hmem hpage hlinks⟩
  unfold rollbackDelete
  rw [hok]

theorem Pagewise.updateTuple_of_some (hview : Pagewise view pages) (h : view pool heap)
    (hpos : 0 < tuple.length)
    (hsome : Slots.update (heap rid.pageId) rid.slotNum tuple = some (old, slots))
    (table : TableOid) (txn : Transaction) :
    ∃ pool', updateTuple table pool txn tuple rid = .ok (true, pool',
        if txn.state ≠ .aborted then
          txn.appendTableWriteRecord { rid, wtype := .update, tuple := old, table }
        else txn) ∧
      view pool' (Function.update heap rid.pageId slots) := by
  have hfull := slotAt_eq_full_iff.mpr (Slots.update_eq_some_iff.mp hsome).1
  have hmem := hview.mem_of_full h hfull
  obtain ⟨page, hok, hpage, hlinks⟩ :=
    (hview.represents h hmem).updateTuple_of_some hpos hsome
  refine ⟨_, ?_, hview.setPage h hmem hpage hlinks⟩
  unfold updateTuple
  rw [hok]
  dsimp only
  split <;> rfl

end Pagewise

/-! ## Calls -/

/-- An empty tuple is inserted nowhere. -/
theorem insertTuple_nil (table : TableHeap) (pool : PagePool) (txn : Transaction) :
    table.insertTuple pool txn [] = .error .emptyTuple := rfl

theorem HeapOk.call_markDelete {table : TableHeap}
    (h : HeapOk pool table.firstPageId pageIds heap) (hmem : rid.pageId ∈ pageIds)
    (txn : Transaction) :
    ∃ pool' txn' heap', table.call (pool, txn) (.markDelete rid) = .ok (.marked true, pool', txn') ∧
      HeapOk pool' table.firstPageId pageIds heap' ∧ Grown pool pool' pageIds pageIds ∧
      Effect table.oid heap txn (.markDelete rid) (.marked true) heap' txn' := by
  obtain ⟨pool', hmark, hfinal, hgrown⟩ := h.markDelete_spec hmem table.oid txn
  have hcall : table.call (pool, txn) (.markDelete rid) = .ok (.marked true, pool',
      txn.appendTableWriteRecord { rid, wtype := .delete, tuple := [], table := table.oid }) := by
    unfold call
    dsimp only
    rw [hmark]
    rfl
  refine ⟨pool', _, _, hcall, hfinal, hgrown, ?_⟩
  by_cases hlive : ∃ data, slotAt heap rid = .full false data
  · obtain ⟨data, hslot⟩ := hlive
    rw [Slots.markDelete_of_live (slotAt_eq_full_iff.mp hslot)]
    exact Effect.marked hslot
  · have hdead : ∀ data, slotAt heap rid ≠ .full false data := fun data hslot =>
      hlive ⟨data, hslot⟩
    have hnot : ∀ data, (heap rid.pageId)[rid.slotNum]? ≠ some (.full false data) :=
      fun data hslot => hdead data (slotAt_eq_full_iff.mpr hslot)
    rw [Slots.markDelete_of_not_live hnot, Function.update_eq_self]
    exact Effect.unmarked hdead

/-- What a call that returns has done. -/
theorem HeapOk.call_effect {table : TableHeap} {txn txn' : Transaction} {request : HeapCall}
    {result : HeapResult} (h : HeapOk pool table.firstPageId pageIds heap)
    (hon : table.OnPages (pool, txn) request)
    (hcall : table.call (pool, txn) request = .ok (result, pool', txn')) :
    ∃ pageIds' heap', HeapOk pool' table.firstPageId pageIds' heap' ∧
      Grown pool pool' pageIds pageIds' ∧ Effect table.oid heap txn request result heap' txn' := by
  cases request with
  | insertTuple tuple =>
      simp only [call] at hcall
      by_cases hempty : tuple = []
      · subst hempty
        rw [insertTuple_nil] at hcall
        cases hcall
      · have hpos := List.length_pos_iff.mpr hempty
        rcases h.insertTuple_spec hpos txn with ⟨hstop, -⟩ |
          ⟨rid?, pool'', txn'', pageIds', heap', hok, hfinal, hgrown, hstored, htxn⟩
        · rw [hstop] at hcall
          cases hcall
        · rw [hok] at hcall
          cases hcall
          refine ⟨pageIds', heap', hfinal, hgrown, ?_⟩
          cases rid? with
          | none =>
              cases hstored
              rw [htxn]
              exact Effect.rejected
          | some rid =>
              obtain ⟨-, slots, hinsert, rfl⟩ := hstored
              rw [htxn]
              exact Effect.inserted hpos hinsert
  | markDelete rid =>
      unfold OnPages at hon
      rw [h.pageIds_eq] at hon
      obtain ⟨pool'', txn'', heap', hok, hfinal, hgrown, heffect⟩ := h.call_markDelete hon txn
      rw [hok] at hcall
      cases hcall
      exact ⟨pageIds, heap', hfinal, hgrown, heffect⟩
  | updateTuple tuple rid =>
      unfold OnPages at hon
      rw [h.pageIds_eq] at hon
      simp only [call] at hcall
      by_cases hempty : tuple = []
      · subst hempty
        cases hcall
      · have hpos := List.length_pos_iff.mpr hempty
        cases hupdate : Slots.update (heap rid.pageId) rid.slotNum tuple with
        | none =>
            rw [h.updateTuple_of_none hpos hon hupdate] at hcall
            cases hcall
            exact ⟨pageIds, heap, h, Grown.refl _ _, Effect.unchanged⟩
        | some replaced =>
            obtain ⟨old, slots⟩ := replaced
            obtain ⟨pool'', hok, hfinal, hgrown⟩ :=
              h.updateTuple_of_some hpos hon hupdate table.oid txn
            rw [hok] at hcall
            cases hcall
            exact ⟨pageIds, _, hfinal, hgrown, Effect.updated hpos hupdate⟩

/-! ## A small table -/

/-- A table on page `0`. -/
def smallTable : TableHeap where
  oid := 0
  firstPageId := 0

/-- The pool in which the small table is made. -/
def smallPool : PagePool :=
  PagePool.setPage { pages := fun _ => Memory.zeros, nextPageId := 1 } 0
    (TablePage.init Memory.zeros 0 pageSize invalidPageId)

theorem create_smallPool : create { pages := fun _ => Memory.zeros, nextPageId := 0 } 0 =
    some (smallTable, smallPool) := by
  have hempty : Function.update (fun _ => Memory.zeros) (0 : PageId) (fun _ => 0) =
      fun _ => Memory.zeros := Function.update_eq_self 0 fun _ => Memory.zeros
  unfold create PagePool.newPage
  rw [if_pos (by decide)]
  dsimp only
  rw [hempty]
  rfl

theorem smallPool_heapOk : HeapOk smallPool smallTable.firstPageId [0] fun _ => [] :=
  (create_heapOk (le_refl 0) create_smallPool).2

end TableHeap

end BusTub
