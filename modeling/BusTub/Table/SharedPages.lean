import BusTub.Table.Heaps

/-! # The slots of all tables

The tables of a pool as one map from pages to slots. A call on one of them does to this
map what it does to the slots of the table, and readers of the other tables see what they
saw before.
-/

namespace BusTub.TableHeap

open TablePage

/-- The slots of the pages of a chain. -/
def restrict (pageIds : List PageId) (heap : PageId → List Slot) (pageId : PageId) : List Slot :=
  if pageId ∈ pageIds then heap pageId else []

/-- Each table has a chain of its own, and its slots are those of the pages of the chain. -/
structure Shared (pool : PagePool) (tables : Set TableHeap) (chains : TableHeap → List PageId)
    (heap : PageId → List Slot) : Prop where
  heapsOk : HeapsOk pool tables chains fun table => restrict (chains table) heap
  outside : ∀ pageId, (∀ table ∈ tables, pageId ∉ chains table) → heap pageId = []

/-- The pages of the chains. -/
def chainPages (tables : Set TableHeap) (chains : TableHeap → List PageId) : Set PageId :=
  { pageId | ∃ table ∈ tables, pageId ∈ chains table }

/-- What a reader of the table sees after a call, with what it saw before. -/
def Shows (before after : RID → Option Tuple) : HeapCall → HeapResult → Prop
  | .insertTuple tuple, .inserted (some rid) => before rid = none ∧
      ∀ other, after other = if other = rid then some tuple else before other
  | .insertTuple _, .inserted none => ∀ other, after other = before other
  | .markDelete rid, .marked true =>
      ∀ other, after other = if other = rid then none else before other
  | .updateTuple tuple rid, .updated true =>
      ∀ other, after other = if other = rid then some tuple else before other
  | .updateTuple _ _, .updated false => ∀ other, after other = before other
  | _, _ => False

variable {pool pool' : PagePool} {tables : Set TableHeap} {chains chains' : TableHeap → List PageId}
  {heaps heaps' : TableHeap → PageId → List Slot} {heap heap' : PageId → List Slot}
  {table other : TableHeap} {pageIds pageIds' : List PageId} {pageId : PageId} {slots : List Slot}
  {rid : RID} {oid : TableOid} {txn txn' : Transaction} {request : HeapCall} {result : HeapResult}

/-! ## Slots of a chain -/

theorem restrict_of_mem (hmem : pageId ∈ pageIds) (heap : PageId → List Slot) :
    restrict pageIds heap pageId = heap pageId := if_pos hmem

theorem restrict_of_not_mem (hnot : pageId ∉ pageIds) (heap : PageId → List Slot) :
    restrict pageIds heap pageId = [] := if_neg hnot

theorem slotAt_restrict_of_mem (hmem : rid.pageId ∈ pageIds) (heap : PageId → List Slot) :
    slotAt (restrict pageIds heap) rid = slotAt heap rid := by
  unfold slotAt
  rw [restrict_of_mem hmem]

theorem slotAt_restrict_of_not_mem (hnot : rid.pageId ∉ pageIds) (heap : PageId → List Slot) :
    slotAt (restrict pageIds heap) rid = .empty := by
  unfold slotAt
  rw [restrict_of_not_mem hnot]
  rfl

theorem restrict_update_of_mem (hmem : pageId ∈ pageIds) (slots : List Slot) :
    restrict pageIds (Function.update heap pageId slots) =
      Function.update (restrict pageIds heap) pageId slots := by
  funext other
  by_cases heq : other = pageId
  · subst heq
    rw [restrict_of_mem hmem, Function.update_self, Function.update_self]
  · unfold restrict
    rw [Function.update_of_ne heq, Function.update_of_ne heq]

theorem restrict_update_of_not_mem (hnot : pageId ∉ pageIds) (slots : List Slot) :
    restrict pageIds (Function.update heap pageId slots) = restrict pageIds heap := by
  funext other
  by_cases hmem : other ∈ pageIds
  · have hne : other ≠ pageId := by
      rintro rfl
      exact hnot hmem
    rw [restrict_of_mem hmem, restrict_of_mem hmem, Function.update_of_ne hne]
  · rw [restrict_of_not_mem hmem, restrict_of_not_mem hmem]

/-- Only the slots of the tables count. -/
theorem HeapsOk.congr (h : HeapsOk pool tables chains heaps)
    (hsame : ∀ table ∈ tables, heaps' table = heaps table) : HeapsOk pool tables chains heaps' where
  heapOk table hmem := by
    rw [hsame table hmem]
    exact h.heapOk table hmem
  apart := h.apart
  nonneg := h.nonneg

namespace Shared

theorem heapOk (h : Shared pool tables chains heap) (hmem : table ∈ tables) :
    HeapOk pool table.firstPageId (chains table) (restrict (chains table) heap) :=
  h.heapsOk.heapOk table hmem

theorem visible_eq (h : Shared pool tables chains heap) (hmem : table ∈ tables) (rid : RID) :
    table.visible pool rid = (slotAt (restrict (chains table) heap) rid).visible? :=
  (h.heapOk hmem).visible_eq rid

/-- A page that is not in use has no slots. -/
theorem fresh (h : Shared pool tables chains heap) (hle : pool.nextPageId ≤ pageId) :
    heap pageId = [] := by
  apply h.outside
  intro table hmem hin
  exact absurd ((h.heapOk hmem).bounds pageId hin).2 (not_lt.mpr hle)

/-- The tables are a view of the pages of their chains. -/
theorem pagewise (tables : Set TableHeap) (chains : TableHeap → List PageId) :
    Pagewise (fun pool heap => Shared pool tables chains heap) (chainPages tables chains) where
  represents := by
    rintro pool heap pageId h ⟨table, hmem, hin⟩
    have hpage := (h.heapOk hmem).represents pageId hin
    rwa [restrict_of_mem hin] at hpage
  outside := by
    intro pool heap pageId h hnot
    apply h.outside
    intro table hmem hin
    exact hnot ⟨table, hmem, hin⟩
  setPage := by
    rintro pool heap pageId page slots h ⟨owner, howner, hin⟩ hpage hlinks
    refine ⟨⟨?_, h.heapsOk.apart, h.heapsOk.nonneg⟩, ?_⟩
    · intro table hmem
      by_cases hchain : pageId ∈ chains table
      · rw [restrict_update_of_mem hchain]
        exact ((h.heapOk hmem).setPage hchain hpage hlinks).1
      · rw [restrict_update_of_not_mem hchain]
        exact (h.heapOk hmem).setPage_of_not_mem hchain page
    · intro other hnot
      have hne : other ≠ pageId := by
        rintro rfl
        exact hnot owner howner hin
      rw [Function.update_of_ne hne]
      exact h.outside other hnot

end Shared

/-! ## Calls -/

/-- What a call does to the slots of a table, it does to a map that has the same slots on
the pages of the chain. -/
theorem Effect.lift {part part' : PageId → List Slot}
    (heffect : Effect oid part txn request result part' txn')
    (hsame : ∀ pageId ∈ pageIds, part pageId = heap pageId)
    (hnone : ∀ pageId, pageId ∉ pageIds → part pageId = [])
    (hnone' : ∀ pageId, pageId ∉ pageIds → part' pageId = [])
    (hon : ∀ rid, request = .markDelete rid → rid.pageId ∈ pageIds) :
    Effect oid heap txn request result
      (fun pageId => if pageId ∈ pageIds then part' pageId else heap pageId) txn' := by
  have hmem : ∀ {rid : RID} {deleted : Bool} {data : Tuple},
      slotAt part rid = .full deleted data → rid.pageId ∈ pageIds := by
    intro rid deleted data hfull
    by_contra hnot
    have hlt := slotAt_lt hfull
    rw [hnone _ hnot] at hlt
    exact absurd hlt (Nat.not_lt_zero _)
  have hslot : ∀ {rid : RID}, rid.pageId ∈ pageIds → slotAt part rid = slotAt heap rid := by
    intro rid hin
    unfold slotAt
    rw [hsame _ hin]
  have hstays : (fun pageId => if pageId ∈ pageIds then part pageId else heap pageId) = heap := by
    funext pageId
    split
    next hin => exact hsame pageId hin
    next => rfl
  -- a write to a page of the part is the same write to the whole
  have hwritten : ∀ {pageId : PageId} {slots : List Slot}, pageId ∈ pageIds →
      (fun other => if other ∈ pageIds then Function.update part pageId slots other
        else heap other) = Function.update heap pageId slots := by
    intro pageId slots hin
    funext other
    by_cases heq : other = pageId
    · subst heq
      rw [if_pos hin, Function.update_self, Function.update_self]
    · rw [Function.update_of_ne heq, Function.update_of_ne heq]
      exact congrFun hstays other
  cases heffect with
  | @inserted tuple rid slots hpos hinsert =>
      have hin : rid.pageId ∈ pageIds := by
        by_contra hnot
        have hfull := slotAt_insert hinsert rid
        rw [if_pos rfl] at hfull
        have hlt := slotAt_lt hfull
        rw [hnone' _ hnot] at hlt
        exact absurd hlt (Nat.not_lt_zero _)
      rw [hwritten hin]
      rw [hsame _ hin] at hinsert
      exact .inserted hpos hinsert
  | rejected =>
      rw [hstays]
      exact .rejected
  | @marked rid data hlive =>
      have hin := hmem hlive
      rw [hwritten hin, hsame _ hin]
      rw [hslot hin] at hlive
      exact .marked hlive
  | @unmarked rid hdead =>
      rw [hstays]
      refine .unmarked ?_
      rw [← hslot (hon rid rfl)]
      exact hdead
  | @updated tuple old rid slots hpos hupdate =>
      have hin := hmem (slotAt_eq_full_iff.mpr (Slots.update_eq_some_iff.mp hupdate).1)
      rw [hwritten hin]
      rw [hsame _ hin] at hupdate
      exact .updated hpos hupdate
  | unchanged =>
      rw [hstays]
      exact .unchanged

/-- What a reader of the slots sees after a call. -/
theorem Effect.shows (heffect : Effect oid heap txn request result heap' txn') :
    Shows (fun rid => (slotAt heap rid).visible?) (fun rid => (slotAt heap' rid).visible?)
      request result := by
  cases heffect with
  | @inserted tuple rid slots hpos hinsert =>
      refine ⟨congrArg Slot.visible? (slotAt_of_insert hinsert), ?_⟩
      intro other
      dsimp only
      rw [slotAt_insert hinsert]
      exact apply_ite Slot.visible? _ _ _
  | rejected => exact fun other => rfl
  | marked hlive =>
      intro other
      dsimp only
      rw [slotAt_set (slotAt_lt hlive)]
      exact apply_ite Slot.visible? _ _ _
  | @unmarked rid hdead =>
      intro other
      split
      next heq =>
        subst heq
        dsimp only
        cases hslot : slotAt heap other with
        | empty => rfl
        | full deleted data =>
            cases deleted with
            | true => rfl
            | false => exact absurd hslot (hdead data)
      next => rfl
  | updated hpos hupdate =>
      obtain ⟨hslot, -, rfl⟩ := Slots.update_eq_some_iff.mp hupdate
      intro other
      dsimp only
      rw [slotAt_set (slotAt_lt (slotAt_eq_full_iff.mpr hslot))]
      exact apply_ite Slot.visible? _ _ _
  | unchanged => exact fun other => rfl

namespace Shared

/-- What a call on one of the tables has done. -/
theorem call_spec (h : Shared pool tables chains heap) (hmem : table ∈ tables)
    (hon : table.OnPages (pool, txn) request)
    (hcall : table.call (pool, txn) request = .ok (result, pool', txn')) :
    ∃ chains' heap', Shared pool' tables chains' heap' ∧
      (∀ other ∈ tables, chains other ⊆ chains' other) ∧
      Effect table.oid heap txn request result heap' txn' ∧
      Shows (table.visible pool) (table.visible pool') request result ∧
      ∀ other ∈ tables, other ≠ table → other.visible pool' = other.visible pool := by
  have htable := h.heapOk hmem
  obtain ⟨pageIds', part', hpart, hgrown, heffect⟩ := htable.call_effect hon hcall
  have hgrownAll := h.heapsOk.grown hmem hpart hgrown
  -- a page that the chain has gained held nothing before
  have hsame : ∀ pageId ∈ pageIds', restrict (chains table) heap pageId = heap pageId := by
    intro pageId hin
    by_cases hold : pageId ∈ chains table
    · exact restrict_of_mem hold heap
    · have hnew := (hgrown.fresh pageId hin).resolve_left hold
      rw [restrict_of_not_mem hold, h.fresh hnew]
  have hnone : ∀ pageId, pageId ∉ pageIds' → restrict (chains table) heap pageId = [] :=
    fun pageId hnot => restrict_of_not_mem (fun hold => hnot (hgrown.mem hold)) heap
  have honPages : ∀ rid, request = .markDelete rid → rid.pageId ∈ pageIds' := by
    rintro rid rfl
    have hold : rid.pageId ∈ chains table := htable.pageIds_eq ▸ hon
    exact hgrown.mem hold
  -- the chains of the other tables stay apart from the pages of this one
  have hother : ∀ other ∈ tables, other ≠ table → ∀ pageId ∈ chains other, pageId ∉ pageIds' := by
    intro other hin hne pageId hpage
    have hapart := hgrownAll.apart other hin table hmem hne pageId
    rw [Function.update_self, Function.update_of_ne hne] at hapart
    exact hapart hpage
  refine ⟨Function.update chains table pageIds',
    fun pageId => if pageId ∈ pageIds' then part' pageId else heap pageId, ⟨?_, ?_⟩, ?_,
    heffect.lift hsame hnone hpart.outside honPages, ?_, ?_⟩
  · refine hgrownAll.congr ?_
    intro other hin
    funext pageId
    by_cases heq : other = table
    · subst heq
      rw [Function.update_self, Function.update_self]
      by_cases hpage : pageId ∈ pageIds'
      · rw [restrict_of_mem hpage, if_pos hpage]
      · rw [restrict_of_not_mem hpage, hpart.outside pageId hpage]
    · rw [Function.update_of_ne heq, Function.update_of_ne heq]
      by_cases hpage : pageId ∈ chains other
      · rw [restrict_of_mem hpage, restrict_of_mem hpage,
          if_neg (hother other hin heq pageId hpage)]
      · rw [restrict_of_not_mem hpage, restrict_of_not_mem hpage]
  · intro pageId hnot
    have hnew : pageId ∉ pageIds' := by
      have hthis := hnot table hmem
      rwa [Function.update_self] at hthis
    rw [if_neg hnew]
    apply h.outside
    intro other hin hpage
    by_cases heq : other = table
    · subst heq
      exact hnew (hgrown.mem hpage)
    · have hthis := hnot other hin
      rw [Function.update_of_ne heq] at hthis
      exact hthis hpage
  · intro other _
    by_cases heq : other = table
    · rw [heq, Function.update_self]
      exact hgrown.isPrefix.subset
    · rw [Function.update_of_ne heq]
      exact List.Subset.refl _
  · have hshows := heffect.shows
    have hbefore : (fun rid => (slotAt (restrict (chains table) heap) rid).visible?) =
        table.visible pool := funext fun rid => (htable.visible_eq rid).symm
    have hafter : (fun rid => (slotAt part' rid).visible?) = table.visible pool' :=
      funext fun rid => (hpart.visible_eq rid).symm
    rwa [hbefore, hafter] at hshows
  · intro other hin hne
    have hkept := hgrownAll.heapOk other hin
    rw [Function.update_of_ne hne, Function.update_of_ne hne] at hkept
    funext rid
    rw [hkept.visible_eq, h.visible_eq hin]

/-! ## New tables -/

/-- A new table has no tuples, and the others are as they were. -/
theorem create (h : Shared pool tables chains heap)
    (hcreate : create pool oid = some (table, pool')) :
    table ∉ tables ∧
      Shared pool' (insert table tables) (Function.update chains table [table.firstPageId]) heap ∧
      (∀ rid, table.visible pool' rid = none) ∧
      ∀ other ∈ tables, other.visible pool' = other.visible pool := by
  obtain ⟨hnew, hheaps⟩ := h.heapsOk.create hcreate
  have hne : ∀ other ∈ tables, other ≠ table := by
    rintro other hmem rfl
    exact hnew hmem
  have hself := Set.mem_insert table tables
  -- the first page of the new table belonged to no chain
  have hempty : heap table.firstPageId = [] := by
    apply h.outside
    intro other hmem hpage
    have hapart := hheaps.apart other (Set.mem_insert_of_mem _ hmem) table hself (hne other hmem)
      table.firstPageId
    rw [Function.update_of_ne (hne other hmem), Function.update_self] at hapart
    exact hapart hpage List.mem_cons_self
  have hnone : restrict [table.firstPageId] heap = fun _ => [] := by
    funext pageId
    by_cases hpage : pageId ∈ [table.firstPageId]
    · rw [restrict_of_mem hpage, List.mem_singleton.mp hpage, hempty]
    · rw [restrict_of_not_mem hpage]
  have hshared : Shared pool' (insert table tables)
      (Function.update chains table [table.firstPageId]) heap := by
    refine ⟨hheaps.congr ?_, ?_⟩
    · rintro other (rfl | hmem)
      · rw [Function.update_self, Function.update_self, hnone]
      · rw [Function.update_of_ne (hne other hmem), Function.update_of_ne (hne other hmem)]
    · intro pageId hnot
      apply h.outside
      intro other hmem
      have hthis := hnot other (Set.mem_insert_of_mem _ hmem)
      rwa [Function.update_of_ne (hne other hmem)] at hthis
  refine ⟨hnew, hshared, ?_, ?_⟩
  · intro rid
    rw [hshared.visible_eq hself, Function.update_self, hnone]
    rfl
  · intro other hmem
    funext rid
    rw [hshared.visible_eq (Set.mem_insert_of_mem _ hmem), h.visible_eq hmem,
      Function.update_of_ne (hne other hmem)]

end Shared

end BusTub.TableHeap
