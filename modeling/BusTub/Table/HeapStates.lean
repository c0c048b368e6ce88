import BusTub.Library.LinkedChain
import BusTub.Table.Heaps

/-! # The states of a table heap

A heap is made with one page. From then on its operations are called, with any record ids and
by any transactions, and whoever else uses the pool leaves its pages alone. In every state that
comes of this the pages form a chain that is linked both ways.
-/

namespace BusTub.TableHeap

open TablePage

/-- The pages lead to each other in both directions. -/
def LinkedPages (pool : PagePool) (pageIds : List PageId) : Prop :=
  LinkedFrom (fun pageId => getNextPageId (pool.pages pageId))
    (fun pageId => getPrevPageId (pool.pages pageId)) invalidPageId invalidPageId pageIds

/-- A heap in order whose pages also lead back. -/
structure HeapLinked (pool : PagePool) (first : PageId) (pageIds : List PageId)
    (heap : PageId → List Slot) : Prop extends HeapOk pool first pageIds heap where
  linked : LinkedPages pool pageIds

variable {pool pool' newPool : PagePool} {first cur newPageId pageId : PageId}
  {pageIds before after : List PageId} {heap : PageId → List Slot} {slots : List Slot}
  {page : Memory} {rid : RID} {tuple : Tuple} {table : TableHeap}

theorem linkedPages_congr (h : LinkedPages pool pageIds)
    (hsame : ∀ pageId ∈ pageIds, SameLinks (pool.pages pageId) (pool'.pages pageId)) :
    LinkedPages pool' pageIds :=
  h.congr fun pageId hmem => ⟨(hsame pageId hmem).getNextPageId, (hsame pageId hmem).getPrevPageId⟩

/-- A page of the chain is written. -/
theorem HeapLinked.setPage (h : HeapLinked pool first pageIds heap) (hmem : pageId ∈ pageIds)
    (hpage : Represents page slots) (hlinks : SameLinks (pool.pages pageId) page) :
    HeapLinked (pool.setPage pageId page) first pageIds (Function.update heap pageId slots) := by
  refine ⟨(h.toHeapOk.setPage hmem hpage hlinks).1, linkedPages_congr h.linked ?_⟩
  intro other _
  by_cases heq : other = pageId
  · subst heq
    simpa [PagePool.setPage] using hlinks
  · simpa [PagePool.setPage, heq] using SameLinks.refl _

/-- A chain whose pages are the same is as it was. -/
theorem HeapLinked.frame (h : HeapLinked pool first pageIds heap)
    (hle : pool.nextPageId ≤ pool'.nextPageId) (hlimit : pool'.nextPageId < 2 ^ 31)
    (hsame : ∀ pageId ∈ pageIds, pool'.pages pageId = pool.pages pageId) :
    HeapLinked pool' first pageIds heap := by
  refine ⟨h.toHeapOk.frame hle hlimit hsame, linkedPages_congr h.linked ?_⟩
  intro pageId hmem
  rw [hsame pageId hmem]
  exact SameLinks.refl _

theorem HeapLinked.touches (h : HeapLinked pool first pageIds heap)
    (htouches : Touches pool pool' pageId) : ∃ heap', HeapLinked pool' first pageIds heap' := by
  obtain ⟨page, rfl, hpage⟩ := htouches
  by_cases hmem : pageId ∈ pageIds
  · obtain ⟨slots', hslots, hlinks⟩ := hpage _ (h.represents pageId hmem)
    exact ⟨_, h.setPage hmem hslots hlinks⟩
  · refine ⟨heap, h.frame (le_refl _) h.limit ?_⟩
    intro other hother
    have hne : other ≠ pageId := by
      rintro rfl
      exact hmem hother
    exact Function.update_of_ne hne _ _

theorem create_linked {oid : TableOid} (hnonneg : 0 ≤ pool.nextPageId)
    (hcreate : create pool oid = some (table, pool')) :
    HeapLinked pool' table.firstPageId [table.firstPageId] fun _ => [] := by
  obtain ⟨htable, hok⟩ := create_heapOk hnonneg hcreate
  refine ⟨hok, ?_, hok.links.2.1, trivial⟩
  unfold create at hcreate
  split at hcreate
  next => cases hcreate
  next pageId created hnew =>
    cases hcreate
    refine (congrArg getPrevPageId (Function.update_self _ _ _)).trans ?_
    exact getPrevPageId_init _ _ (by decide) (by decide)

/-- A new page behind the last one leads back to it. -/
theorem HeapLinked.newPage (h : HeapLinked pool first (before ++ [cur]) heap)
    (hnew : pool.newPage = some (newPageId, newPool)) :
    HeapLinked (linkNew newPool cur newPageId) first (before ++ [cur, newPageId]) heap := by
  have hmem : cur ∈ before ++ [cur] := by simp
  have hbounds := h.bounds cur hmem
  obtain ⟨⟨p, hnewPage⟩, hcur, hother, rfl, -, hlimit⟩ := pages_linkNew hnew (ne_of_lt hbounds.2)
  have hlow : (-2 ^ 31 : Int) ≤ cur := le_trans (by decide) hbounds.1
  have hid : getTablePageId (pool.pages cur) = cur := (h.links.next).1
  refine ⟨(h.toHeapOk.newPage hnew).1, LinkedFrom.append h.linked ?_ ?_ ?_ ?_ ?_⟩
  · intro pageId hin
    have hne : pageId ≠ cur := by
      rintro rfl
      have hnodup := h.nodup
      rw [List.nodup_append] at hnodup
      exact hnodup.2.2 _ hin _ List.mem_cons_self rfl
    have hold : pageId ≠ pool.nextPageId :=
      ne_of_lt (h.bounds pageId (List.mem_append_left _ hin)).2
    rw [hother pageId hne hold]
    exact ⟨rfl, rfl⟩
  · have hnextLow : (-2 ^ 31 : Int) ≤ pool.nextPageId := le_trans hlow (le_of_lt hbounds.2)
    rw [hcur, getNextPageId_setNextPageId _ hnextLow h.limit]
  · rw [hcur, getPrevPageId_setNextPageId]
  · rw [hnewPage, getNextPageId_init]
  · rw [hnewPage, hid, getPrevPageId_init _ _ hlow (lt_trans hbounds.2 h.limit)]

/-! ## Insertion -/

/-- What the loop of `InsertTuple` comes to, from a page of the chain on: the tuple is in the
first page with room for it, or in a new page behind the last one. -/
inductive Inserted (pool : PagePool) (heap : PageId → List Slot) (tuple : Tuple)
    (ids : List PageId) : Option RID → PagePool → Prop
  | stored {pageId : PageId} {i : Nat} {slots : List Slot} {page : Memory} (hmem : pageId ∈ ids)
      (hinsert : Slots.insert (heap pageId) tuple = some (i, slots))
      (hpage : Represents page slots) (hlinks : SameLinks (pool.pages pageId) page) :
      Inserted pool heap tuple ids (some ⟨pageId, i⟩) (pool.setPage pageId page)
  | appended {last newPageId : PageId} {newPool : PagePool} {i : Nat} {slots : List Slot}
      {page : Memory} (hlast : ids.getLast? = some last)
      (hnew : pool.newPage = some (newPageId, newPool))
      (hinsert : Slots.insert (heap newPageId) tuple = some (i, slots))
      (hpage : Represents page slots)
      (hlinks : SameLinks ((linkNew newPool last newPageId).pages newPageId) page) :
      Inserted pool heap tuple ids (some ⟨newPageId, i⟩)
        ((linkNew newPool last newPageId).setPage newPageId page)
  | failed (hnew : pool.newPage = none) : Inserted pool heap tuple ids none pool

theorem Inserted.behind {ids : List PageId} {next : PageId} {rid? : Option RID}
    (h : Inserted pool heap tuple (next :: ids) rid? pool') :
    Inserted pool heap tuple (cur :: next :: ids) rid? pool' := by
  cases h with
  | stored hmem hinsert hpage hlinks =>
      exact .stored (List.mem_cons_of_mem _ hmem) hinsert hpage hlinks
  | appended hlast hnew hinsert hpage hlinks =>
      exact .appended (List.getLast?_cons_cons.trans hlast) hnew hinsert hpage hlinks
  | failed hnew => exact .failed hnew

/-- The first page that has room for a tuple. -/
def firstFit (heap : PageId → List Slot) (pageIds : List PageId) (tuple : Tuple) : Option PageId :=
  pageIds.find? fun pageId => (Slots.insert (heap pageId) tuple).isSome

theorem firstFit_cons_of_some {ids : List PageId} {placed : Nat × List Slot}
    (hinsert : Slots.insert (heap pageId) tuple = some placed) :
    firstFit heap (pageId :: ids) tuple = some pageId := by
  unfold firstFit
  rw [List.find?_cons, hinsert]
  rfl

theorem firstFit_cons_of_none {ids : List PageId}
    (hinsert : Slots.insert (heap pageId) tuple = none) :
    firstFit heap (pageId :: ids) tuple = firstFit heap ids tuple := by
  unfold firstFit
  rw [List.find?_cons, hinsert]
  rfl

/-- A tuple of a legal size is in the chain after one turn for each page and one more, on the
first page with room for it or else on a new one. -/
theorem HeapOk.insertLoop_cases (h : HeapOk pool first (before ++ cur :: after) heap)
    (hpos : 0 < tuple.length) (hsize : tuple.length + 32 ≤ pageSize) {fuel : Nat}
    (hfuel : after.length + 2 ≤ fuel) :
    ∃ rid? pool', insertLoop tuple fuel cur pool = .ok (rid?, pool') ∧
      Inserted pool heap tuple (cur :: after) rid? pool' ∧
      rid?.map RID.pageId =
        (firstFit heap (cur :: after) tuple).or (pool.newPage.map Prod.fst) := by
  induction fuel generalizing before cur after with
  | zero => omega
  | succ fuel ih =>
      have hmem : cur ∈ before ++ cur :: after := by simp
      have hpage := h.represents cur hmem
      obtain ⟨hid, hnext⟩ := h.links.next
      unfold insertLoop
      cases hinsert : Slots.insert (heap cur) tuple with
      | some placed =>
          obtain ⟨i, slots⟩ := placed
          obtain ⟨page, hpageInsert, hpage', hlinks⟩ := hpage.insertTuple_of_some hpos hinsert
          rw [hpageInsert, hid, firstFit_cons_of_some hinsert]
          exact ⟨_, _, rfl, .stored List.mem_cons_self hinsert hpage' hlinks, rfl⟩
      | none =>
          rw [hpage.insertTuple_of_none hpos hinsert, firstFit_cons_of_none hinsert]
          dsimp only
          rw [hnext]
          cases after with
          | cons next rest =>
              -- the page is full, and the loop goes on with the next one of the chain
              have hne : next ≠ invalidPageId := by
                have hbound := (h.bounds next (by simp)).1
                rintro rfl
                exact absurd hbound (by decide)
              have hsplit : before ++ cur :: next :: rest = (before ++ [cur]) ++ next :: rest := by
                simp
              rw [hsplit] at h
              rw [List.headD_cons, if_pos hne]
              rw [List.length_cons] at hfuel
              obtain ⟨rid?, pool', hloop, hinserted, hpageId⟩ := ih h (by omega)
              exact ⟨rid?, pool', hloop, hinserted.behind, hpageId⟩
          | nil =>
              rw [List.headD_nil, if_neg (not_not.mpr rfl)]
              cases hnew : pool.newPage with
              | none => exact ⟨none, _, rfl, .failed hnew, rfl⟩
              | some created =>
                  obtain ⟨newPageId, newPool⟩ := created
                  obtain ⟨fuel, rfl⟩ : ∃ n, fuel = n + 1 := ⟨fuel - 1, by omega⟩
                  -- the last page is full: a new one is linked, which has room
                  obtain ⟨hlinked, -⟩ := h.newPage hnew
                  change HeapOk (linkNew newPool cur newPageId) _ _ _ at hlinked
                  have hsplit : before ++ [cur, newPageId] =
                      (before ++ [cur]) ++ newPageId :: [] := by simp
                  rw [hsplit] at hlinked
                  have hnewPage := hlinked.represents newPageId (by simp)
                  have hslots : heap newPageId = [] := by
                    refine h.outside newPageId fun hin => ?_
                    have hnodup := hlinked.nodup
                    rw [List.nodup_append] at hnodup
                    exact hnodup.2.2 _ hin _ List.mem_cons_self rfl
                  obtain ⟨placed, hroom⟩ := Option.isSome_iff_exists.mp (insert_nil_isSome hsize)
                  rw [← hslots] at hroom
                  obtain ⟨page, hstored, hpage', hlinks⟩ :=
                    hnewPage.insertTuple_of_some hpos hroom
                  dsimp only
                  change ∃ rid? pool', insertLoop tuple (fuel + 1) newPageId
                    (linkNew newPool cur newPageId) = _ ∧ _ ∧ _
                  unfold insertLoop
                  rw [hstored, hlinked.links.next.1]
                  exact ⟨_, _, rfl, .appended rfl hnew hroom hpage' hlinks, rfl⟩

/-- An insertion keeps the chain, but for one more page at most. -/
theorem HeapLinked.inserted {rid? : Option RID} (h : HeapLinked pool first pageIds heap)
    (hinserted : Inserted pool heap tuple pageIds rid? pool') :
    ∃ pageIds' heap', HeapLinked pool' first pageIds' heap' ∧ pageIds <+: pageIds' ∧
      Stored heap heap' pageIds' tuple rid? ∧
      (pool'.nextPageId = pool.nextPageId ∨ pool'.nextPageId = pool.nextPageId + 1) := by
  cases hinserted with
  | stored hmem hinsert hpage hlinks =>
      exact ⟨pageIds, _, h.setPage hmem hpage hlinks, List.prefix_rfl,
        ⟨hmem, _, hinsert, rfl⟩, Or.inl rfl⟩
  | @appended last newPageId newPool i slots page hlast hnew hinsert hpage hlinks =>
      obtain ⟨before, rfl⟩ := List.getLast?_eq_some_iff.mp hlast
      have hcur := ne_of_lt (h.bounds _ (List.mem_append_right _ (List.mem_singleton_self _))).2
      have hnext := (pages_linkNew hnew hcur).2.2.2.2.1
      exact ⟨_, _, (h.newPage hnew).setPage (by simp) hpage hlinks, ⟨[newPageId], by simp⟩,
        ⟨by simp, _, hinsert, rfl⟩, Or.inr hnext⟩
  | failed hnew => exact ⟨pageIds, heap, h, List.prefix_rfl, rfl, Or.inl rfl⟩

/-- `InsertTuple` rejects what fits on no page, and stores the rest. -/
theorem HeapOk.insertTuple_cases (h : HeapOk pool table.firstPageId pageIds heap)
    (hpos : 0 < tuple.length) (hsize : tuple.length < 2 ^ 31) (txn : Transaction) :
    pageSize < tuple.length + 32 ∧
        table.insertTuple pool txn tuple = .ok (none, pool, { txn with state := .aborted }) ∨
      tuple.length + 32 ≤ pageSize ∧ ∃ rid? pool' txn',
        table.insertTuple pool txn tuple = .ok (rid?, pool', txn') ∧
        Inserted pool heap tuple pageIds rid? pool' ∧
        rid?.map RID.pageId = (firstFit heap pageIds tuple).or (pool.newPage.map Prod.fst) := by
  have hword : toUInt32 (tuple.length + 32) = tuple.length + 32 := Nat.mod_eq_of_lt (by omega)
  unfold insertTuple
  rw [hword]
  by_cases hlarge : tuple.length + 32 > pageSize
  · rw [if_pos hlarge]
    exact Or.inl ⟨hlarge, rfl⟩
  · rw [if_neg hlarge]
    have hlength := h.length_le
    obtain ⟨after, rfl⟩ : ∃ after, pageIds = table.firstPageId :: after := by
      have hhead := h.head
      cases pageIds with
      | nil => cases hhead
      | cons head after =>
          rw [List.head?_cons, Option.some.injEq] at hhead
          exact ⟨after, by rw [hhead]⟩
    rw [List.length_cons] at hlength
    have hstart : HeapOk pool table.firstPageId ([] ++ table.firstPageId :: after) heap := h
    obtain ⟨rid?, pool', hloop, hinserted, hpageId⟩ :=
      hstart.insertLoop_cases hpos (not_lt.mp hlarge) (Nat.succ_le_succ hlength)
    rw [hloop]
    cases rid? with
    | none => exact Or.inr ⟨not_lt.mp hlarge, none, _, _, rfl, hinserted, hpageId⟩
    | some rid => exact Or.inr ⟨not_lt.mp hlarge, some rid, _, _, rfl, hinserted, hpageId⟩

theorem HeapLinked.insertTuple {txn txn' : Transaction} {rid? : Option RID}
    (h : HeapLinked pool table.firstPageId pageIds heap) (hsize : tuple.length < 2 ^ 31)
    (hinsert : table.insertTuple pool txn tuple = .ok (rid?, pool', txn')) :
    ∃ pageIds' heap', HeapLinked pool' table.firstPageId pageIds' heap' := by
  have hpos : 0 < tuple.length := by
    rw [List.length_pos_iff]
    rintro rfl
    rw [insertTuple_nil] at hinsert
    cases hinsert
  rcases h.toHeapOk.insertTuple_cases hpos hsize txn with ⟨-, hok⟩ |
    ⟨-, rid?', pool'', txn'', hok, hinserted, -⟩
  · cases hok.symm.trans hinsert
    exact ⟨pageIds, heap, h⟩
  · cases hok.symm.trans hinsert
    obtain ⟨pageIds', heap', hfinal, -⟩ := h.inserted hinserted
    exact ⟨pageIds', heap', hfinal⟩

/-! ## The states that a heap comes to -/

/-- The heap can come to be in this state of the pool. -/
inductive Reached (table : TableHeap) : PagePool → Prop
  | create {pool pool' : PagePool} {oid : TableOid} (hnonneg : 0 ≤ pool.nextPageId)
      (hcreate : create pool oid = some (table, pool')) : Reached table pool'
  | insertTuple {pool pool' : PagePool} {txn txn' : Transaction} {tuple : Tuple}
      {rid? : Option RID} (h : Reached table pool) (hsize : tuple.length < 2 ^ 31)
      (hinsert : table.insertTuple pool txn tuple = .ok (rid?, pool', txn')) :
      Reached table pool'
  | markDelete {pool pool' : PagePool} {txn txn' : Transaction} {rid : RID} {isMarked : Bool}
      (h : Reached table pool)
      (hmark : markDelete table.oid pool txn rid = (isMarked, pool', txn')) : Reached table pool'
  | updateTuple {pool pool' : PagePool} {txn txn' : Transaction} {tuple : Tuple} {rid : RID}
      {isUpdated : Bool} (h : Reached table pool)
      (hupdate : updateTuple table.oid pool txn tuple rid = .ok (isUpdated, pool', txn')) :
      Reached table pool'
  | applyDelete {pool pool' : PagePool} {rid : RID} (h : Reached table pool)
      (happly : applyDelete pool rid = .ok pool') : Reached table pool'
  | rollbackDelete {pool pool' : PagePool} {rid : RID} (h : Reached table pool)
      (hrollback : rollbackDelete pool rid = .ok pool') : Reached table pool'
  /-- The pool is used for other pages; page ids are given out in order. -/
  | others {pool pool' : PagePool} (h : Reached table pool)
      (hsame : ∀ pageId ∈ table.pageIds pool, pool'.pages pageId = pool.pages pageId)
      (hle : pool.nextPageId ≤ pool'.nextPageId) (hlimit : pool'.nextPageId < 2 ^ 31) :
      Reached table pool'

/-- In every state of a heap its pages are linked both ways. -/
theorem Reached.linked (h : Reached table pool) :
    ∃ pageIds heap, HeapLinked pool table.firstPageId pageIds heap := by
  induction h with
  | create hnonneg hcreate => exact ⟨_, _, create_linked hnonneg hcreate⟩
  | insertTuple _ hsize hinsert ih =>
      obtain ⟨pageIds, heap, hlinked⟩ := ih
      exact hlinked.insertTuple hsize hinsert
  | markDelete _ hmark ih =>
      obtain ⟨pageIds, heap, hlinked⟩ := ih
      obtain ⟨heap', hfinal⟩ := hlinked.touches (markDelete_touches hmark)
      exact ⟨pageIds, heap', hfinal⟩
  | updateTuple _ hupdate ih =>
      obtain ⟨pageIds, heap, hlinked⟩ := ih
      rcases updateTuple_touches hupdate with rfl | htouches
      · exact ⟨pageIds, heap, hlinked⟩
      · obtain ⟨heap', hfinal⟩ := hlinked.touches htouches
        exact ⟨pageIds, heap', hfinal⟩
  | applyDelete _ happly ih =>
      obtain ⟨pageIds, heap, hlinked⟩ := ih
      obtain ⟨heap', hfinal⟩ := hlinked.touches (applyDelete_touches happly)
      exact ⟨pageIds, heap', hfinal⟩
  | rollbackDelete _ hrollback ih =>
      obtain ⟨pageIds, heap, hlinked⟩ := ih
      obtain ⟨heap', hfinal⟩ := hlinked.touches (rollbackDelete_touches hrollback)
      exact ⟨pageIds, heap', hfinal⟩
  | others _ hsame hle hlimit ih =>
      obtain ⟨pageIds, heap, hlinked⟩ := ih
      rw [hlinked.pageIds_eq] at hsame
      exact ⟨pageIds, heap, hlinked.frame hle hlimit hsame⟩

theorem smallPool_reached : Reached smallTable smallPool := .create (le_refl 0) create_smallPool

end BusTub.TableHeap
