import BusTub.Table.HeapStates
import BusTub.Table.PagedHeap

/-! # A table as the slots of its pages

What a table heap is for: a chain of pages with slots, where a tuple goes to the first page
with room for it, or to a new page at the end, and where an iterator goes from row to row.
-/

namespace BusTub

open TableHeap (firstFit liveRows pageRows headRid)

/-- The pages of a table with their slots, and the page ids that are given out. -/
structure TableSlots where
  pageIds : List PageId
  slots : PageId → List Slot
  nextPageId : PageId
  numInstances : Nat

namespace TableSlots

/-- A page gets other slots. -/
def put (h : TableSlots) (pageId : PageId) (slots : List Slot) : TableSlots :=
  { h with slots := Function.update h.slots pageId slots }

/-- A new page behind the last one. -/
def grow (h : TableSlots) : TableSlots :=
  { h with
    pageIds := h.pageIds ++ [h.nextPageId]
    nextPageId := toInt32 (h.nextPageId + h.numInstances) }

/-- A table with one page. -/
def create (nextPageId : PageId) (numInstances : Nat) : TableSlots :=
  grow { pageIds := [], slots := fun _ => [], nextPageId, numInstances }

/-- Why a call does not return. -/
inductive Fault where
  | heap (fault : HeapFault)
  /-- The record id is on no page of the table. -/
  | notOnPages
  /-- There is no page id left for a new page. -/
  | noPageId

/-- The page that a tuple goes to. -/
def target (h : TableSlots) (tuple : Tuple) : Except Fault (PageId × TableSlots) :=
  match firstFit h.slots h.pageIds tuple with
  | some pageId => .ok (pageId, h)
  | none => if h.nextPageId < 0 then .error .noPageId else .ok (h.nextPageId, h.grow)

/-- `InsertTuple`. -/
def insert (h : TableSlots) (tuple : Tuple) : Except Fault (RID × TableSlots) :=
  if tuple = [] then .error (.heap .emptyTuple)
  else
    match h.target tuple with
    | .error fault => .error fault
    | .ok (pageId, h) =>
        match Slots.insert (h.slots pageId) tuple with
        | some (slotNum, slots) => .ok (⟨pageId, slotNum⟩, h.put pageId slots)
        | none => .error (.heap .diverges)

/-- The pages behind a page. -/
def behind (h : TableSlots) (pageId : PageId) : List PageId :=
  (h.pageIds.dropWhile (· ≠ pageId)).tail

/-- An iterator at the first of the rows, or at the end. -/
def arrive (rows : List (RID × Tuple)) (old : Tuple) : TableIterator where
  rid := headRid rows
  tuple := (rows.head?.map Prod.snd).getD old

/-- A call about a record id. -/
def onPage {α : Type} (h : TableSlots) (rid : RID) (call : Except HeapFault α) : Except Fault α :=
  if rid.pageId ∈ h.pageIds then call.mapError .heap else .error .notOnPages

/-- One call of the table. -/
def serve (oid : TableOid) (h : TableSlots) :
    PagedHeap.Request → Except Fault (PagedHeap.Response × TableSlots)
  | .insertTuple tuple txn =>
      if pageSize < toUInt32 (tuple.length + 32) then
        .ok (.inserted none { txn with state := .aborted }, h)
      else do
        let (rid, h) ← h.insert tuple
        let record := { rid, wtype := .insert, tuple := [], table := oid }
        pure (.inserted (some rid) { txn with tableWriteSet := txn.tableWriteSet ++ [record] }, h)
  | .markDelete rid txn =>
      let record := { rid, wtype := .delete, tuple := [], table := oid }
      h.onPage rid (.ok
        (.marked { txn with tableWriteSet := txn.tableWriteSet ++ [record] },
          h.put rid.pageId (Slots.markDelete (h.slots rid.pageId) rid.slotNum).2))
  | .updateTuple tuple rid txn =>
      h.onPage rid (
        if tuple = [] then .error .emptyTuple
        else
          match Slots.update (h.slots rid.pageId) rid.slotNum tuple with
          | none => .ok (.updated false txn, h)
          | some (oldTuple, slots) =>
              let record := { rid, wtype := .update, tuple := oldTuple, table := oid }
              let logged := { txn with tableWriteSet := txn.tableWriteSet ++ [record] }
              .ok (.updated true (if txn.state ≠ .aborted then logged else txn),
                h.put rid.pageId slots))
  | .applyDelete rid =>
      h.onPage rid (do
        let slots ← Slots.applyDelete (h.slots rid.pageId) rid.slotNum
        pure (.done, h.put rid.pageId slots))
  | .rollbackDelete rid =>
      h.onPage rid (do
        let slots ← Slots.rollbackDelete (h.slots rid.pageId) rid.slotNum
        pure (.done, h.put rid.pageId slots))
  | .getTuple rid =>
      h.onPage rid (.ok (.tuple (Slots.getTuple (h.slots rid.pageId) rid.slotNum), h))
  | .first => .ok (.iterator (arrive (liveRows h.slots h.pageIds) []), h)
  | .advance it =>
      let rows := pageRows h.slots it.rid.pageId (it.rid.slotNum + 1) ++
        liveRows h.slots (h.behind it.rid.pageId)
      h.onPage it.rid (.ok (.iterator (arrive rows it.tuple), h))
  | .fetchOther _ | .unpinOther _ _ => .ok (.done, h)

/-- Calls one after the other. -/
def serveAll (oid : TableOid) (h : TableSlots) :
    List PagedHeap.Request → Except Fault (List PagedHeap.Response × TableSlots)
  | [] => .ok ([], h)
  | request :: rest => do
      let (response, h) ← h.serve oid request
      let (responses, h) ← h.serveAll oid rest
      pure (response :: responses, h)

/-! ## What every call keeps -/

/-- The chain has a first page, no page twice, and slots on its pages only; a page id that is
given out is of none of them. -/
structure Ok (h : TableSlots) (first : PageId) : Prop where
  head : h.pageIds.head? = some first
  nodup : h.pageIds.Nodup
  bounds : ∀ pageId ∈ h.pageIds, 0 ≤ pageId ∧ pageId < 2 ^ 31
  fresh : 0 ≤ h.nextPageId → ∀ pageId ∈ h.pageIds, pageId < h.nextPageId
  outside : ∀ pageId, pageId ∉ h.pageIds → h.slots pageId = []
  numInstances : 0 < h.numInstances ∧ h.numInstances < 2 ^ 31
  next : -2 ^ 31 ≤ h.nextPageId ∧ h.nextPageId < 2 ^ 31

theorem toInt32_bounds (value : Int) : -2 ^ 31 ≤ toInt32 value ∧ toInt32 value < 2 ^ 31 := by
  unfold toInt32
  omega

/-- A counter that has not wrapped around has gone on. -/
theorem lt_toInt32_add {next other : Int} {step : Nat} (hnonneg : 0 ≤ next) (hlt : next < 2 ^ 31)
    (hstep : 0 < step ∧ step < 2 ^ 31) (hafter : 0 ≤ toInt32 (next + step)) (hle : other ≤ next) :
    other < toInt32 (next + step) := by
  unfold toInt32 at hafter ⊢
  omega

variable {h h' : TableSlots} {first pageId : PageId} {slots : List Slot}

theorem behind_of_split {before after : List PageId} (hids : h.pageIds = before ++ pageId :: after)
    (hnot : pageId ∉ before) : h.behind pageId = after := by
  have hdrop : (before ++ pageId :: after).dropWhile (· ≠ pageId) = pageId :: after := by
    rw [List.dropWhile_append_of_pos, List.dropWhile_cons_of_neg]
    · simp
    · intro other hmem
      simp only [ne_eq, decide_eq_true_eq]
      rintro rfl
      exact hnot hmem
  unfold behind
  rw [hids, hdrop, List.tail_cons]

theorem Ok.behind_eq (hok : h.Ok first) {before after : List PageId}
    (hids : h.pageIds = before ++ pageId :: after) : h.behind pageId = after := by
  refine behind_of_split hids fun hmem => ?_
  have hnodup := hok.nodup
  rw [hids, List.nodup_append] at hnodup
  exact hnodup.2.2 _ hmem _ List.mem_cons_self rfl

/-- Every page of the chain is somewhere in it. -/
theorem Ok.exists_split (hok : h.Ok first) (hmem : pageId ∈ h.pageIds) :
    ∃ before, h.pageIds = before ++ pageId :: h.behind pageId := by
  obtain ⟨before, after, hids⟩ := List.append_of_mem hmem
  exact ⟨before, by rw [hok.behind_eq hids]; exact hids⟩

theorem Ok.put (hok : h.Ok first) (hmem : pageId ∈ h.pageIds) : (h.put pageId slots).Ok first := by
  refine ⟨hok.head, hok.nodup, hok.bounds, hok.fresh, ?_, hok.numInstances, hok.next⟩
  intro other hother
  have hne : other ≠ pageId := by
    rintro rfl
    exact hother hmem
  exact (Function.update_of_ne hne _ _).trans (hok.outside other hother)

theorem Ok.not_mem_next (hok : h.Ok first) (hnonneg : 0 ≤ h.nextPageId) :
    h.nextPageId ∉ h.pageIds := fun hmem => lt_irrefl _ (hok.fresh hnonneg _ hmem)

theorem Ok.grow (hok : h.Ok first) (hnonneg : 0 ≤ h.nextPageId) : h.grow.Ok first := by
  have hnext := hok.next
  have hmem : ∀ other, other ∈ h.grow.pageIds ↔ other ∈ h.pageIds ∨ other = h.nextPageId := by
    intro other
    simp [TableSlots.grow]
  refine ⟨?_, ?_, ?_, ?_, ?_, hok.numInstances, ?_⟩
  · have hhead := hok.head
    unfold TableSlots.grow
    rw [List.head?_append, hhead]
    rfl
  · refine List.Nodup.append hok.nodup (List.nodup_singleton _) ?_
    intro other hold hnew
    rw [List.mem_singleton.mp hnew] at hold
    exact hok.not_mem_next hnonneg hold
  · intro other hother
    rcases (hmem other).mp hother with hold | rfl
    · exact hok.bounds other hold
    · exact ⟨hnonneg, hnext.2⟩
  · intro hafter other hother
    refine lt_toInt32_add hnonneg hok.next.2 hok.numInstances hafter ?_
    rcases (hmem other).mp hother with hold | rfl
    · exact le_of_lt (hok.fresh hnonneg other hold)
    · exact le_refl _
  · intro other hother
    exact hok.outside other fun hold => hother ((hmem other).mpr (Or.inl hold))
  · exact toInt32_bounds _

theorem ok_create {nextPageId : PageId} {numInstances : Nat} (hnonneg : 0 ≤ nextPageId)
    (hlt : nextPageId < 2 ^ 31) (hinstances : 0 < numInstances ∧ numInstances < 2 ^ 31) :
    (create nextPageId numInstances).Ok nextPageId where
  head := rfl
  nodup := List.nodup_singleton _
  bounds other hother := by
    rw [List.mem_singleton.mp hother]
    exact ⟨hnonneg, hlt⟩
  fresh hafter other hother := by
    rw [List.mem_singleton.mp hother]
    exact lt_toInt32_add hnonneg hlt hinstances hafter (le_refl _)
  outside _ _ := rfl
  numInstances := hinstances
  next := toInt32_bounds _

theorem put_self (h : TableSlots) (pageId : PageId) : h.put pageId (h.slots pageId) = h := by
  unfold put
  rw [Function.update_eq_self]

theorem Ok.behind_grow (hok : h.Ok first) (hmem : pageId ∈ h.pageIds) :
    h.grow.behind pageId = h.behind pageId ++ [h.nextPageId] := by
  obtain ⟨before, hids⟩ := hok.exists_split hmem
  have hgrown : h.grow.pageIds = before ++ pageId :: (h.behind pageId ++ [h.nextPageId]) := by
    change h.pageIds ++ [h.nextPageId] = _
    conv_lhs => rw [hids]
    rw [List.append_assoc]
    rfl
  refine behind_of_split hgrown fun hbefore => ?_
  have hnodup := hok.nodup
  rw [hids, List.nodup_append] at hnodup
  exact hnodup.2.2 _ hbefore _ List.mem_cons_self rfl

/-! ## Insertion -/

section Insertion

variable {tuple : Tuple} {rid : RID} {before after : List PageId} {cur : PageId} {slotNum : Nat}

theorem firstFit_append (hfull : ∀ other ∈ before, Slots.insert (h.slots other) tuple = none)
    (ids : List PageId) : firstFit h.slots (before ++ ids) tuple = firstFit h.slots ids tuple := by
  unfold firstFit
  rw [List.find?_append, List.find?_eq_none.mpr, Option.none_or]
  intro other hmem
  rw [hfull other hmem]
  exact Bool.false_ne_true

/-- The first page with room for the tuple gets it. -/
theorem insert_of_room (hids : h.pageIds = before ++ cur :: after)
    (hfull : ∀ other ∈ before, Slots.insert (h.slots other) tuple = none) (hne : tuple ≠ [])
    (hroom : Slots.insert (h.slots cur) tuple = some (slotNum, slots)) :
    h.insert tuple = .ok (⟨cur, slotNum⟩, h.put cur slots) := by
  have hfit : firstFit h.slots h.pageIds tuple = some cur := by
    rw [hids, firstFit_append hfull, TableHeap.firstFit_cons_of_some hroom]
  unfold insert target
  rw [if_neg hne, hfit]
  dsimp only
  rw [hroom]

/-- Where no page has room, the tuple goes to a new one. -/
theorem insert_of_full (hfull : ∀ other ∈ h.pageIds, Slots.insert (h.slots other) tuple = none)
    (hne : tuple ≠ []) (hinsert : h.insert tuple = .ok (rid, h')) :
    0 ≤ h.nextPageId ∧ ∃ slotNum slots,
      Slots.insert (h.slots h.nextPageId) tuple = some (slotNum, slots) ∧
      rid = ⟨h.nextPageId, slotNum⟩ ∧ h' = h.grow.put h.nextPageId slots := by
  have hfit : firstFit h.slots h.pageIds tuple = none := by
    have happend := firstFit_append hfull []
    rwa [List.append_nil] at happend
  unfold insert target at hinsert
  rw [if_neg hne, hfit] at hinsert
  dsimp only at hinsert
  by_cases hneg : h.nextPageId < 0
  · rw [if_pos hneg] at hinsert
    cases hinsert
  · rw [if_neg hneg] at hinsert
    dsimp only at hinsert
    change (match Slots.insert (h.slots h.nextPageId) tuple with
      | some (slotNum, slots) => _
      | none => _) = _ at hinsert
    cases hroom : Slots.insert (h.slots h.nextPageId) tuple with
    | none =>
        rw [hroom] at hinsert
        cases hinsert
    | some placed =>
        rw [hroom] at hinsert
        cases hinsert
        exact ⟨not_lt.mp hneg, placed.1, placed.2, rfl, rfl, rfl⟩

/-- An insertion keeps the chain in order, with one more page at most. -/
theorem Ok.insert (hok : h.Ok first) (hinsert : h.insert tuple = .ok (rid, h')) :
    h'.Ok first ∧ h'.pageIds.length ≤ h.pageIds.length + 1 := by
  have hne : tuple ≠ [] := by
    rintro rfl
    unfold TableSlots.insert at hinsert
    rw [if_pos rfl] at hinsert
    cases hinsert
  by_cases hfull : ∀ other ∈ h.pageIds, Slots.insert (h.slots other) tuple = none
  · obtain ⟨hnonneg, slotNum, slots, -, -, rfl⟩ := insert_of_full hfull hne hinsert
    refine ⟨(hok.grow hnonneg).put (List.mem_append_right _ (List.mem_singleton_self _)), ?_⟩
    change (h.pageIds ++ [h.nextPageId]).length ≤ _
    rw [List.length_append, List.length_singleton]
  · cases hfit : firstFit h.slots h.pageIds tuple with
    | none =>
        refine absurd (fun other hmem => ?_) hfull
        unfold firstFit at hfit
        have hnone := List.find?_eq_none.mp hfit other hmem
        simpa using hnone
    | some pageId =>
        have hmem : pageId ∈ h.pageIds := List.mem_of_find?_eq_some hfit
        unfold TableSlots.insert target at hinsert
        rw [if_neg hne, hfit] at hinsert
        dsimp only at hinsert
        split at hinsert
        · cases hinsert
          exact ⟨hok.put hmem, Nat.le_succ _⟩
        · cases hinsert

end Insertion

end TableSlots

end BusTub
