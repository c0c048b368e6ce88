import BusTub.Table.HeapStates

/-! # Insertion into a table heap

An insertion takes the first page that has room for the tuple, or a new page at the end of the
chain. `InsertTuple` does so in every state that a heap comes to, for every size of a tuple
that is a positive `int32_t`: the test for tuples that are too large and the room in an empty
page match, so that one new page is enough.
-/

namespace BusTub

open TableHeap TablePage

/-- The pages of a table with their slots, and the page id that is given out next. -/
structure HeapContents where
  pageIds : List PageId
  slots : PageId → List Slot
  nextPageId : PageId

namespace HeapContents

/-- A tuple is put on a page. -/
def put (contents : HeapContents) (pageId : PageId) (tuple : Tuple) : Option (RID × HeapContents) :=
  (Slots.insert (contents.slots pageId) tuple).map fun placed => (⟨pageId, placed.1⟩,
    { contents with slots := Function.update contents.slots pageId placed.2 })

/-- A new page is put behind the last one. -/
def grow (contents : HeapContents) : HeapContents :=
  { contents with
    pageIds := contents.pageIds ++ [contents.nextPageId]
    nextPageId := contents.nextPageId + 1 }

/-- `InsertTuple`; `none` when the tuple is not stored. -/
def insert (contents : HeapContents) (tuple : Tuple) : Option (RID × HeapContents) :=
  if tuple = [] then none
  else
    match firstFit contents.slots contents.pageIds tuple with
    | some pageId => contents.put pageId tuple
    | none =>
        if contents.nextPageId + 1 < 2 ^ 31 then contents.grow.put contents.nextPageId tuple
        else none

end HeapContents

/-- The contents of a table, as the bytes of its pages say. -/
def TableHeap.contents (table : TableHeap) (pool : PagePool) : HeapContents where
  pageIds := table.pageIds pool
  slots pageId :=
    if pageId ∈ table.pageIds pool then
      (List.range (getTupleCount (pool.pages pageId))).map (TablePage.slot (pool.pages pageId))
    else []
  nextPageId := pool.nextPageId

/-- The table has the contents. -/
structure HeapContents.OfTable (contents : HeapContents) (table : TableHeap) (pool : PagePool) :
    Prop where
  linked : HeapLinked pool table.firstPageId contents.pageIds contents.slots
  nextPageId_eq : contents.nextPageId = pool.nextPageId

variable {pool pool' : PagePool} {table : TableHeap} {contents following : HeapContents}
  {tuple : Tuple} {rid : RID} {pageIds : List PageId}

theorem TablePage.Represents.slots_eq {p : Memory} {slots : List Slot} (h : Represents p slots) :
    (List.range (getTupleCount p)).map (TablePage.slot p) = slots := by
  rw [h.count]
  apply List.ext_getElem
  · rw [List.length_map, List.length_range]
  · intro i _ hlt
    rw [List.getElem_map, List.getElem_range, h.slot_eq, List.getElem?_eq_getElem hlt]
    rfl

theorem HeapContents.OfTable.contents_eq (h : contents.OfTable table pool) :
    table.contents pool = contents := by
  have hok := h.linked.toHeapOk
  obtain ⟨pageIds, slots, nextPageId⟩ := contents
  have hids : table.pageIds pool = pageIds := hok.pageIds_eq
  have hslots : (table.contents pool).slots = slots := by
    funext pageId
    unfold TableHeap.contents
    rw [hids]
    dsimp only
    by_cases hmem : pageId ∈ pageIds
    · rw [if_pos hmem]
      exact (hok.represents pageId hmem).slots_eq
    · rw [if_neg hmem]
      exact (hok.outside pageId hmem).symm
  have hnext : pool.nextPageId = nextPageId := h.nextPageId_eq.symm
  rw [← hids, ← hslots, ← hnext]
  rfl

/-- Every state that a heap comes to has contents. -/
theorem TableHeap.Reached.ofTable (h : Reached table pool) :
    (table.contents pool).OfTable table pool := by
  obtain ⟨pageIds, slots, hlinked⟩ := h.linked
  have hcontents : HeapContents.OfTable ⟨pageIds, slots, pool.nextPageId⟩ table pool :=
    ⟨hlinked, rfl⟩
  rwa [hcontents.contents_eq]

namespace HeapContents

/-! ## Insertion -/

/-- An insertion fills a slot that is empty, and the chain gets one page at most. -/
theorem insert_spec (hinsert : contents.insert tuple = some (rid, following)) :
    tuple ≠ [] ∧ ∃ slots,
      Slots.insert (contents.slots rid.pageId) tuple = some (rid.slotNum, slots) ∧
      following.slots = Function.update contents.slots rid.pageId slots ∧
      (following.pageIds = contents.pageIds ∨
        following.pageIds = contents.pageIds ++ [contents.nextPageId]) := by
  unfold insert at hinsert
  split at hinsert
  · cases hinsert
  next hne =>
    refine ⟨hne, ?_⟩
    split at hinsert
    next pageId hfit =>
      obtain ⟨⟨i, slots⟩, hslots, heq⟩ := Option.map_eq_some_iff.mp hinsert
      cases heq
      exact ⟨slots, hslots, rfl, Or.inl rfl⟩
    next hfull =>
      split at hinsert
      · obtain ⟨⟨i, slots⟩, hslots, heq⟩ := Option.map_eq_some_iff.mp hinsert
        cases heq
        exact ⟨slots, hslots, rfl, Or.inr rfl⟩
      · cases hinsert

theorem length_of_slots_insert {slots slots' : List Slot} {i : Nat}
    (hinsert : Slots.insert slots tuple = some (i, slots')) : tuple.length + 32 ≤ pageSize := by
  obtain ⟨hroom, -⟩ := Slots.insert_eq_some_iff.mp hinsert
  unfold Slots.freeSpace Slots.headerSize at hroom
  omega

theorem firstFit_eq_none {heap : PageId → List Slot} (hnone : firstFit heap pageIds tuple = none)
    {pageId : PageId} (hmem : pageId ∈ pageIds) : Slots.insert (heap pageId) tuple = none := by
  have hroom := List.find?_eq_none.mp hnone pageId hmem
  rwa [Option.not_isSome_iff_eq_none] at hroom

/-- What the loop of `InsertTuple` comes to is what an insertion into the contents does. -/
theorem OfTable.inserted (h : contents.OfTable table pool) (hne : tuple ≠ [])
    {rid? : Option RID} (hinserted : Inserted pool contents.slots tuple contents.pageIds rid? pool')
    (hpageId : rid?.map RID.pageId =
      (firstFit contents.slots contents.pageIds tuple).or (pool.newPage.map Prod.fst)) :
    rid? = none ∧ contents.insert tuple = none ∨
      ∃ rid following, rid? = some rid ∧ contents.insert tuple = some (rid, following) ∧
        following.OfTable table pool' := by
  have hbounds := h.linked.bounds
  unfold insert
  rw [if_neg hne]
  cases hinserted with
  | @stored pageId i slots page hmem hinsert hpage hlinks =>
      right
      cases hfit : firstFit contents.slots contents.pageIds tuple with
      | none =>
          rw [firstFit_eq_none hfit hmem] at hinsert
          cases hinsert
      | some found =>
          rw [hfit] at hpageId
          cases hpageId
          dsimp only
          unfold put
          rw [hinsert]
          exact ⟨_, _, rfl, rfl, h.linked.setPage hmem hpage hlinks, h.nextPageId_eq⟩
  | @appended last newPageId newPool i slots page hlast hnew hinsert hpage hlinks =>
      right
      obtain ⟨before, hids⟩ := List.getLast?_eq_some_iff.mp hlast
      have hlastMem : last ∈ contents.pageIds := by simp [hids]
      obtain ⟨-, -, -, rfl, hnext, hlimit⟩ := pages_linkNew hnew (ne_of_lt (hbounds _ hlastMem).2)
      rw [hnew] at hpageId
      cases hfit : firstFit contents.slots contents.pageIds tuple with
      | some found =>
          rw [hfit] at hpageId
          cases hpageId
          exact absurd (hbounds _ (List.mem_of_find?_eq_some hfit)).2 (lt_irrefl _)
      | none =>
          dsimp only
          rw [h.nextPageId_eq, if_pos hlimit]
          unfold put grow
          dsimp only
          rw [hinsert, h.nextPageId_eq]
          refine ⟨_, _, rfl, rfl, ?_, hnext.symm⟩
          have hlinked := h.linked
          rw [hids] at hlinked
          have hgrown := (hlinked.newPage hnew).setPage (by simp) hpage hlinks
          have hids' : before ++ [last, pool.nextPageId] =
              contents.pageIds ++ [pool.nextPageId] := by simp [hids]
          rwa [hids'] at hgrown
  | failed hnew =>
      left
      rw [hnew, Option.map_none, Option.map_none, Option.or_none] at hpageId
      rw [← hpageId, h.nextPageId_eq]
      unfold PagePool.newPage at hnew
      split at hnew
      · cases hnew
      next hlimit => exact ⟨rfl, if_neg hlimit⟩

/-- `InsertTuple` is an insertion into the contents. -/
theorem OfTable.insertTuple (h : contents.OfTable table pool) (tuple : Tuple) (txn : Transaction) :
    match contents.insert tuple with
    | none => ∀ rid pool' txn', table.insertTuple pool txn tuple ≠ .ok (some rid, pool', txn')
    | some (rid, following) => ∃ pool' txn',
        table.insertTuple pool txn tuple = .ok (some rid, pool', txn') ∧
          following.OfTable table pool' := by
  have hcases : tuple ≠ [] → tuple.length + 32 ≤ pageSize → ∃ rid? pool' txn',
      table.insertTuple pool txn tuple = .ok (rid?, pool', txn') ∧
      (rid? = none ∧ contents.insert tuple = none ∨
        ∃ rid following, rid? = some rid ∧ contents.insert tuple = some (rid, following) ∧
          following.OfTable table pool') := by
    intro hne hfits
    have hpos := List.length_pos_iff.mpr hne
    have hsize : tuple.length < 2 ^ 31 := by
      unfold pageSize at hfits
      omega
    rcases h.linked.toHeapOk.insertTuple_cases hpos hsize txn with ⟨hlarge, -⟩ |
      ⟨-, rid?, pool', txn', hok, hinserted, hpageId⟩
    · omega
    · exact ⟨rid?, pool', txn', hok, h.inserted hne hinserted hpageId⟩
  cases hinsert : contents.insert tuple with
  | none =>
      dsimp only
      intro rid pool' txn' hok
      have hne : tuple ≠ [] := by
        rintro rfl
        rw [insertTuple_nil] at hok
        cases hok
      have hfits : tuple.length + 32 ≤ pageSize := by
        rcases h.linked.toHeapOk.insertTuple_spec (List.length_pos_iff.mpr hne) txn with
          ⟨hstop, -⟩ | ⟨rid?, pool'', txn'', pageIds', heap', hok', -, -, hstored, -⟩
        · cases hok.symm.trans hstop
        · cases hok.symm.trans hok'
          obtain ⟨-, slots, hslots, -⟩ := hstored
          exact length_of_slots_insert hslots
      obtain ⟨rid?, pool'', txn'', hok', hfound⟩ := hcases hne hfits
      cases hok.symm.trans hok'
      rcases hfound with ⟨hnone, -⟩ | ⟨rid', following, -, hsome, -⟩
      · cases hnone
      · cases hinsert.symm.trans hsome
  | some stored =>
      obtain ⟨rid, following⟩ := stored
      dsimp only
      obtain ⟨hne, slots, hslots, -⟩ := insert_spec hinsert
      obtain ⟨rid?, pool', txn', hok, hfound⟩ := hcases hne (length_of_slots_insert hslots)
      rcases hfound with ⟨-, hnone⟩ | ⟨rid', following', rfl, hsome, hfinal⟩
      · cases hinsert.symm.trans hnone
      · cases hinsert.symm.trans hsome
        exact ⟨pool', txn', hok, hfinal⟩

/-! ## Tables with contents -/

/-- An insertion leads on from a state that a heap comes to. -/
theorem OfTable.reached_insert (h : contents.OfTable table pool) (hreached : Reached table pool)
    (hinsert : contents.insert tuple = some (rid, following)) (txn : Transaction) :
    ∃ pool' txn', table.insertTuple pool txn tuple = .ok (some rid, pool', txn') ∧
      Reached table pool' ∧ following.OfTable table pool' := by
  have hstored := h.insertTuple tuple txn
  rw [hinsert] at hstored
  obtain ⟨pool', txn', hok, hfollowing⟩ := hstored
  obtain ⟨-, slots, hslots, -⟩ := insert_spec hinsert
  have hfits := length_of_slots_insert hslots
  have hsize : tuple.length < 2 ^ 31 := by
    unfold pageSize at hfits
    omega
  exact ⟨pool', txn', hok, hreached.insertTuple hsize hok, hfollowing⟩

/-- One page with these slots. -/
def onePage (slots : List Slot) : HeapContents where
  pageIds := [0]
  slots := Function.update (fun _ => []) 0 slots
  nextPageId := 1

/-- Two pages with these slots. -/
def twoPages (slots slots' : List Slot) : HeapContents where
  pageIds := [0, 1]
  slots := Function.update (Function.update (fun _ => []) 0 slots) 1 slots'
  nextPageId := 2

@[simp] theorem onePage_slots_zero (slots : List Slot) : (onePage slots).slots 0 = slots := by
  simp [onePage]

@[simp] theorem onePage_slots_one (slots : List Slot) : (onePage slots).slots 1 = [] := by
  simp [onePage]

theorem onePage_write (slots slots' : List Slot) :
    { onePage slots with slots := Function.update (onePage slots).slots 0 slots' } =
      onePage slots' := by
  unfold onePage
  rw [Function.update_idem]

section OnePage

variable {slots slots' : List Slot} {i : Nat}

theorem onePage_insert (hne : tuple ≠ []) (hinsert : Slots.insert slots tuple = some (i, slots')) :
    (onePage slots).insert tuple = some (⟨0, i⟩, onePage slots') := by
  have hfit : firstFit (onePage slots).slots (onePage slots).pageIds tuple = some 0 := by
    apply firstFit_cons_of_some
    rwa [onePage_slots_zero]
  unfold insert put
  rw [if_neg hne, hfit]
  dsimp only
  rw [onePage_slots_zero, hinsert, Option.map_some, onePage_write]

theorem onePage_grow (hne : tuple ≠ []) (hfull : Slots.insert slots tuple = none)
    (hinsert : Slots.insert [] tuple = some (i, slots')) :
    (onePage slots).insert tuple = some (⟨1, i⟩, twoPages slots slots') := by
  have hfit : firstFit (onePage slots).slots (onePage slots).pageIds tuple = none := by
    refine (firstFit_cons_of_none ?_).trans rfl
    rwa [onePage_slots_zero]
  unfold insert
  rw [if_neg hne, hfit]
  change (if (1 : Int) + 1 < 2 ^ 31 then
    (Slots.insert ((onePage slots).slots 1) tuple).map _ else none) = _
  rw [if_pos (by decide), onePage_slots_one, hinsert]
  rfl

theorem OfTable.reached_markDelete (h : (onePage slots).OfTable table pool)
    (hreached : Reached table pool) (i : Nat) :
    ∃ pool', Reached table pool' ∧
      (onePage (Slots.markDelete slots i).2).OfTable table pool' := by
  have hrepresents := h.linked.represents 0 (List.mem_singleton_self 0)
  rw [onePage_slots_zero] at hrepresents
  obtain ⟨-, hpage, hlinks⟩ := hrepresents.markDelete_spec ⟨0, i⟩
  have hmark : TableHeap.markDelete table.oid pool {} ⟨0, i⟩ = (true, _, _) := rfl
  refine ⟨_, hreached.markDelete hmark, ?_⟩
  rw [← onePage_write slots]
  exact ⟨h.linked.setPage (List.mem_singleton_self 0) hpage hlinks, h.nextPageId_eq⟩

theorem OfTable.reached_applyDelete (h : (onePage slots).OfTable table pool)
    (hreached : Reached table pool) (hdelete : Slots.applyDelete slots i = .ok slots') :
    ∃ pool', Reached table pool' ∧ (onePage slots').OfTable table pool' := by
  have hrepresents := h.linked.represents 0 (List.mem_singleton_self 0)
  rw [onePage_slots_zero] at hrepresents
  obtain ⟨page, hok, hpage, hlinks⟩ :=
    hrepresents.applyDelete_of_ok
      (show Slots.applyDelete slots (⟨0, i⟩ : RID).slotNum = _ from hdelete)
  have happly : TableHeap.applyDelete pool ⟨0, i⟩ = .ok (pool.setPage 0 page) := by
    unfold TableHeap.applyDelete
    dsimp only
    rw [hok]
  refine ⟨_, hreached.applyDelete happly, ?_⟩
  rw [← onePage_write slots]
  exact ⟨h.linked.setPage (List.mem_singleton_self 0) hpage hlinks, h.nextPageId_eq⟩

end OnePage

theorem smallPool_onePage : (onePage []).OfTable smallTable smallPool := by
  have hslots : (onePage []).slots = fun _ => [] := Function.update_eq_self 0 fun _ => []
  refine ⟨?_, rfl⟩
  rw [hslots]
  exact create_linked (le_refl 0) create_smallPool

/-- A tuple that leaves hardly any room on its page. -/
def wideTuple : Tuple := List.replicate 4000 0

@[simp] theorem length_wideTuple : wideTuple.length = 4000 := List.length_replicate

theorem wideTuple_ne_nil : wideTuple ≠ [] :=
  List.ne_nil_of_length_pos (by rw [length_wideTuple]; decide)

/-- On the first page a marked tuple, an empty slot and a tuple that leaves hardly any room, and
on the second page one more tuple. -/
def mixed : HeapContents :=
  twoPages [.full true [1], .empty, .full false wideTuple] [.full false (List.replicate 60 5)]

theorem exists_mixed : ∃ pool, Reached smallTable pool ∧ mixed.OfTable smallTable pool := by
  have hfirst : Slots.insert [] [1] = some (0, [.full false [1]]) := by decide
  have hsecond : Slots.insert [.full false [1]] [2] =
      some (1, [.full false [1], .full false [2]]) := by decide
  have hwide : Slots.insert [.full false [1], .full false [2]] wideTuple =
      some (2, [.full false [1], .full false [2], .full false wideTuple]) :=
    Slots.insert_eq_some_iff.mpr
      ⟨by simp [Slots.freeSpace, Slots.headerSize, pageSize], by decide, rfl⟩
  have hfull : Slots.insert [.full true [1], .empty, .full false wideTuple]
      (List.replicate 60 5) = none :=
    Slots.insert_eq_none_iff.mpr (by simp [Slots.freeSpace, Slots.headerSize, pageSize])
  have hlast : Slots.insert [] (List.replicate 60 5) =
      some (0, [.full false (List.replicate 60 5)]) := by decide
  obtain ⟨pool, -, -, hreached, h⟩ := smallPool_onePage.reached_insert smallPool_reached
    (onePage_insert (by decide) hfirst) {}
  obtain ⟨pool, -, -, hreached, h⟩ := h.reached_insert hreached
    (onePage_insert (by decide) hsecond) {}
  obtain ⟨pool, -, -, hreached, h⟩ := h.reached_insert hreached
    (onePage_insert wideTuple_ne_nil hwide) {}
  obtain ⟨pool, hreached, h⟩ := h.reached_markDelete hreached 0
  obtain ⟨pool, hreached, h⟩ := h.reached_applyDelete (i := 1) hreached rfl
  obtain ⟨pool, -, -, hreached, h⟩ := h.reached_insert hreached
    (onePage_grow (by decide) hfull hlast) {}
  exact ⟨pool, hreached, h⟩

end HeapContents

namespace TableHeap

/-- The slot of a record id in the table; there is none on pages of others. -/
def slotIn (table : TableHeap) (pool : PagePool) (rid : RID) : Slot :=
  if rid.pageId ∈ table.pageIds pool then slot pool rid else .empty

/-- The pages of the table are a chain: from the first page on each leads to the next one and
back, the last one to no page, and none is passed twice. -/
structure Chained (table : TableHeap) (pool : PagePool) : Prop where
  head : (table.pageIds pool).head? = some table.firstPageId
  nodup : (table.pageIds pool).Nodup
  linked : LinkedPages pool (table.pageIds pool)

variable {pool pool' : PagePool} {table : TableHeap} {pageIds : List PageId}
  {heap heap' : PageId → List Slot} {rid : RID} {tuple : Tuple}

theorem HeapOk.slotIn_eq (h : HeapOk pool table.firstPageId pageIds heap) (rid : RID) :
    table.slotIn pool rid = slotAt heap rid := by
  unfold slotIn
  rw [h.pageIds_eq]
  by_cases hmem : rid.pageId ∈ pageIds
  · rw [if_pos hmem, h.slot_eq hmem]
  · rw [if_neg hmem]
    unfold slotAt
    rw [h.outside _ hmem]
    rfl

theorem HeapLinked.chained (h : HeapLinked pool table.firstPageId pageIds heap) :
    table.Chained pool := by
  constructor
  · rw [h.pageIds_eq]
    exact h.head
  · rw [h.pageIds_eq]
    exact h.nodup
  · rw [h.pageIds_eq]
    exact h.linked

/-- `InsertTuple` returns. It rejects exactly the tuples that fit on no page, and then changes
nothing. Otherwise it puts the tuple in an empty slot, allocates one page at most, changes
no other slot and keeps the chain. -/
theorem insertTuple_stores (h : Reached table pool) (hpos : 0 < tuple.length)
    (hsize : tuple.length < 2 ^ 31) (hnew : pool.newPage.isSome) (txn : Transaction) :
    ∃ rid? pool' txn', table.insertTuple pool txn tuple = .ok (rid?, pool', txn') ∧
      (rid? = none ↔ pageSize < tuple.length + 32) ∧
      (rid? = none → pool' = pool) ∧
      (∀ rid, rid? = some rid → table.slotIn pool rid = .empty ∧
        ∀ other, table.slotIn pool' other =
          if other = rid then .full false tuple else table.slotIn pool other) ∧
      (pool'.nextPageId = pool.nextPageId ∨ pool'.nextPageId = pool.nextPageId + 1) ∧
      table.Chained pool' := by
  obtain ⟨pageIds, heap, hlinked⟩ := h.linked
  rcases hlinked.toHeapOk.insertTuple_cases hpos hsize txn with ⟨hlarge, hok⟩ |
    ⟨hfits, rid?, pool', txn', hok, hinserted, -⟩
  · refine ⟨none, pool, _, hok, iff_of_true rfl hlarge, fun _ => rfl, ?_, Or.inl rfl,
      hlinked.chained⟩
    intro rid hnone
    cases hnone
  · obtain ⟨pageIds', heap', hfinal, -, hstored, hpages⟩ := hlinked.inserted hinserted
    cases rid? with
    | none =>
        -- only a page that cannot be made keeps the tuple out
        cases hinserted with
        | failed hfailed =>
            rw [hfailed] at hnew
            cases hnew
    | some rid =>
        obtain ⟨-, slots, hinsert, rfl⟩ := hstored
        refine ⟨some rid, pool', txn', hok, iff_of_false nofun (by omega), nofun, ?_, hpages,
          hfinal.chained⟩
        rintro _ ⟨⟩
        rw [hlinked.slotIn_eq]
        refine ⟨slotAt_of_insert hinsert, fun other => ?_⟩
        rw [hfinal.slotIn_eq, hlinked.slotIn_eq]
        exact slotAt_insert hinsert other

/-- The first page has no room for the tuple, and the second one has. -/
theorem mixed_insert : ∃ following,
    HeapContents.mixed.insert (List.replicate 50 7) = some (⟨1, 1⟩, following) := by
  have hfull : Slots.insert (HeapContents.mixed.slots 0) (List.replicate 50 7) = none :=
    Slots.insert_eq_none_iff.mpr (by
      simp [HeapContents.mixed, HeapContents.twoPages, Slots.freeSpace, Slots.headerSize, pageSize])
  have hroom : Slots.insert (HeapContents.mixed.slots 1) (List.replicate 50 7) =
      some (1, [.full false (List.replicate 60 5), .full false (List.replicate 50 7)]) := by
    decide
  have hfit : firstFit HeapContents.mixed.slots HeapContents.mixed.pageIds (List.replicate 50 7) =
      some 1 :=
    (firstFit_cons_of_none hfull).trans (firstFit_cons_of_some hroom)
  unfold HeapContents.insert
  rw [if_neg (by decide), hfit]
  unfold HeapContents.put
  dsimp only
  rw [hroom]
  exact ⟨_, rfl⟩

theorem insertTuple_stores_mixed : ∃ pool rid? pool' txn',
    HeapContents.mixed.OfTable smallTable pool ∧
      smallTable.insertTuple pool {} (List.replicate 50 7) = .ok (rid?, pool', txn') ∧
      rid? = some ⟨1, 1⟩ ∧
      (rid? = none ↔ pageSize < (List.replicate 50 (7 : UInt8)).length + 32) ∧
      (rid? = none → pool' = pool) ∧
      (∀ rid, rid? = some rid → smallTable.slotIn pool rid = .empty ∧
        ∀ other, smallTable.slotIn pool' other =
          if other = rid then .full false (List.replicate 50 7)
          else smallTable.slotIn pool other) ∧
      (pool'.nextPageId = pool.nextPageId ∨ pool'.nextPageId = pool.nextPageId + 1) ∧
      smallTable.Chained pool' := by
  obtain ⟨pool, hreached, hmixed⟩ := HeapContents.exists_mixed
  have hnew : pool.newPage.isSome := by
    have hnext : pool.nextPageId = 2 := hmixed.nextPageId_eq.symm
    unfold PagePool.newPage
    rw [hnext]
    rfl
  have hlength : (List.replicate 50 (7 : UInt8)).length = 50 := List.length_replicate
  obtain ⟨rid?, pool', txn', hok, hstored⟩ := insertTuple_stores hreached
    (hlength ▸ (by decide : 0 < 50)) (hlength ▸ (by decide : 50 < 2 ^ 31)) hnew {}
  obtain ⟨following, hinsert⟩ := mixed_insert
  obtain ⟨final, last, hfound, -⟩ := hmixed.reached_insert hreached hinsert {}
  cases hok.symm.trans hfound
  exact ⟨pool, _, pool', txn', hmixed, hok, rfl, hstored⟩

end TableHeap

end BusTub
