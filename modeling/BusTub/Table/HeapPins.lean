import BusTub.Table.PinnedHeap

/-! # Which operations of a table heap keep the pins

An operation takes a pin of each page by the id that it fetches the page by and gives back
a pin of the id that it finds in the page. So the pins are as before exactly if those ids
are the same ids, each as often.
-/

namespace BusTub

open Counted (lift Moved)

namespace TableHeap.Pinned

open TablePage Memory

variable {pool pool' : PagePool} {tuple : Tuple} {cur : PageId} {fuel : Nat}
  {pins pins' : PageId → Nat} {rid? : Option RID}

/-- The pages that the loop of `InsertTuple` goes over before it makes a new one: the id that
a page is fetched by, and what is in it when it is unpinned. -/
def passed (tuple : Tuple) (pool : PagePool) : Nat → PageId → List (PageId × Memory)
  | 0, _ => []
  | fuel + 1, curPageId =>
      match TablePage.insertTuple (pool.pages curPageId) tuple with
      | .error _ => []
      | .ok (some (_, page)) => [(curPageId, page)]
      | .ok none =>
          let nextPageId := getNextPageId (pool.pages curPageId)
          (curPageId, pool.pages curPageId) ::
            if nextPageId ≠ invalidPageId then passed tuple pool fuel nextPageId else []

/-- The ids that the pages are fetched by. -/
def fetchedIds (pages : List (PageId × Memory)) : List PageId := pages.map Prod.fst

/-- The ids that are in the pages. -/
def storedIds (pages : List (PageId × Memory)) : List PageId :=
  pages.map fun page => getTablePageId page.2

/-- The page has just been made. -/
structure Made (pool : PagePool) (pageId : PageId) : Prop where
  page : ∃ p prevPageId, pool.pages pageId = init p pageId pageSize prevPageId
  nonneg : 0 ≤ pageId
  lt : pageId < pool.nextPageId
  limit : pool.nextPageId < 2 ^ 31

theorem Made.getTablePageId (h : Made pool cur) : getTablePageId (pool.pages cur) = cur := by
  obtain ⟨p, prevPageId, hpage⟩ := h.page
  rw [hpage]
  exact getTablePageId_init _ _ (le_trans (by decide) h.nonneg) (lt_trans h.lt h.limit)

theorem Made.getNextPageId (h : Made pool cur) :
    getNextPageId (pool.pages cur) = invalidPageId := by
  obtain ⟨p, prevPageId, hpage⟩ := h.page
  rw [hpage]
  exact getNextPageId_init _ _ _

/-- An insertion leaves its id to a page that has just been made. -/
theorem Made.getTablePageId_insertTuple (h : Made pool cur) {rid : RID} {page : Memory}
    (hinsert : TablePage.insertTuple (pool.pages cur) tuple = .ok (some (rid, page))) :
    TablePage.getTablePageId page = cur := by
  obtain ⟨p, prevPageId, hpage⟩ := h.page
  have hslots : Represents (pool.pages cur) [] := hpage ▸ represents_init _ _ _
  by_cases hpos : 0 < tuple.length
  · cases hroom : Slots.insert [] tuple with
    | none =>
        rw [hslots.insertTuple_of_none hpos hroom] at hinsert
        cases hinsert
    | some placed =>
        obtain ⟨p', hinsert', -, hlinks⟩ := hslots.insertTuple_of_some hpos hroom
        rw [hinsert', Except.ok.injEq, Option.some.injEq, Prod.mk.injEq] at hinsert
        rw [← hinsert.2, hlinks.getTablePageId]
        exact h.getTablePageId
  · have hempty : TablePage.insertTuple (pool.pages cur) tuple = .error .emptyTuple := if_pos hpos
    cases hempty.symm.trans hinsert

/-- What the loop has when it has made a page. -/
theorem made_newPage {newPageId : PageId} {newPool : PagePool} (cur : PageId)
    (hnonneg : 0 ≤ pool.nextPageId)
    (hnew : pool.newPage = some (newPageId, newPool)) (curPage : Memory) (prevPageId : PageId) :
    newPageId = pool.nextPageId ∧ Made ((newPool.setPage cur curPage).setPage newPageId
      (init ((newPool.setPage cur curPage).pages newPageId) newPageId pageSize prevPageId))
      newPageId := by
  unfold PagePool.newPage at hnew
  split at hnew
  next hlimit =>
    cases hnew
    exact ⟨rfl, ⟨_, _, Function.update_self _ _ _⟩, hnonneg, Int.lt_succ _, hlimit⟩
  next => cases hnew

/-- A new page is none of those that were there. -/
theorem newPage_pages {newPageId : PageId} {newPool : PagePool}
    (hnew : pool.newPage = some (newPageId, newPool)) (hne : cur ≠ pool.nextPageId) :
    newPool.pages cur = pool.pages cur := by
  unfold PagePool.newPage at hnew
  split at hnew
  next =>
    cases hnew
    exact Function.update_of_ne hne _ _
  next => cases hnew

/-- From a page that it has just made, the loop gives back the pin of that page and those
of the pages that it makes. -/
theorem Made.insertLoop (h : Made pool cur)
    (hrun : insertLoop tuple fuel cur pool pins = .ok ((rid?, pool'), pins')) :
    TableHeap.insertLoop tuple fuel cur pool = .ok (rid?, pool') ∧ Moved [] [cur] pins pins' := by
  induction fuel generalizing pool cur pins with
  | zero => cases hrun
  | succ fuel ih =>
      unfold Pinned.insertLoop at hrun
      unfold TableHeap.insertLoop
      obtain ⟨placed, hinsert, hrun⟩ := Counted.lift_bind_eq_ok_iff.mp hrun
      rw [hinsert]
      cases placed with
      | some placed =>
          obtain ⟨between, hmoved, hrun⟩ := Counted.release_bind hrun
          rw [h.getTablePageId_insertTuple hinsert] at hmoved
          cases hrun
          exact ⟨rfl, hmoved⟩
      | none =>
          dsimp only at hrun ⊢
          rw [if_neg (not_not.mpr h.getNextPageId)] at hrun ⊢
          cases hnew : pool.newPage with
          | none =>
              rw [hnew] at hrun
              obtain ⟨between, hmoved, hrun⟩ := Counted.release_bind hrun
              rw [h.getTablePageId] at hmoved
              cases hrun
              exact ⟨rfl, hmoved⟩
          | some created =>
              obtain ⟨newPageId, newPool⟩ := created
              rw [hnew] at hrun
              have hnonneg := le_trans h.nonneg (le_of_lt h.lt)
              obtain ⟨first, hfirst, hrun⟩ := Counted.acquire_bind hrun
              obtain ⟨second, hsecond, hrun⟩ := Counted.release_bind hrun
              rw [getTablePageId_setNextPageId, h.getTablePageId] at hsecond
              have hmade := (made_newPage cur hnonneg hnew
                (setNextPageId (pool.pages cur) newPageId)
                (TablePage.getTablePageId (setNextPageId (pool.pages cur) newPageId))).2
              obtain ⟨hloop, hlast⟩ := ih hmade hrun
              rw [← newPage_pages hnew (ne_of_lt h.lt)] at hloop
              refine ⟨hloop, Moved.cancel [newPageId] ?_⟩
              exact (hfirst.trans hsecond).trans hlast

/-- The loop takes a pin of each page that it goes over and gives back one of the id in it. -/
theorem insertLoop_spec (hnonneg : 0 ≤ pool.nextPageId)
    (hrun : (do fetchPage cur; insertLoop tuple fuel cur pool) pins =
      .ok ((rid?, pool'), pins')) :
    (pool.nextPageId ∉ fetchedIds (passed tuple pool fuel cur) →
      TableHeap.insertLoop tuple fuel cur pool = .ok (rid?, pool')) ∧
    Moved (fetchedIds (passed tuple pool fuel cur)) (storedIds (passed tuple pool fuel cur))
      pins pins' := by
  induction fuel generalizing cur pins with
  | zero =>
      obtain ⟨first, -, hrun⟩ := Counted.acquire_bind hrun
      cases hrun
  | succ fuel ih =>
      obtain ⟨first, hfirst, hrun⟩ := Counted.acquire_bind hrun
      unfold insertLoop at hrun
      unfold TableHeap.insertLoop passed
      obtain ⟨placed, hinsert, hrun⟩ := Counted.lift_bind_eq_ok_iff.mp hrun
      rw [hinsert]
      cases placed with
      | some placed =>
          obtain ⟨second, hsecond, hrun⟩ := Counted.release_bind hrun
          cases hrun
          exact ⟨fun _ => rfl, hfirst.trans hsecond⟩
      | none =>
          dsimp only at hrun ⊢
          by_cases hnext : getNextPageId (pool.pages cur) ≠ invalidPageId
          · rw [if_pos hnext] at hrun ⊢
            obtain ⟨second, hsecond, hrun⟩ := Counted.release_bind hrun
            obtain ⟨hloop, hrest⟩ := ih hrun
            rw [if_pos hnext]
            refine ⟨fun hfresh => hloop fun hmem => hfresh (List.mem_cons_of_mem _ hmem), ?_⟩
            exact (hfirst.trans hsecond).trans hrest
          · rw [if_neg hnext] at hrun ⊢
            rw [if_neg hnext]
            cases hnew : pool.newPage with
            | none =>
                rw [hnew] at hrun
                obtain ⟨second, hsecond, hrun⟩ := Counted.release_bind hrun
                cases hrun
                exact ⟨fun _ => rfl, hfirst.trans hsecond⟩
            | some created =>
                obtain ⟨newPageId, newPool⟩ := created
                rw [hnew] at hrun
                obtain ⟨second, hsecond, hrun⟩ := Counted.acquire_bind hrun
                obtain ⟨third, hthird, hrun⟩ := Counted.release_bind hrun
                rw [getTablePageId_setNextPageId] at hthird
                have hmade := (made_newPage cur hnonneg hnew
                  (setNextPageId (pool.pages cur) newPageId)
                  (TablePage.getTablePageId (setNextPageId (pool.pages cur) newPageId))).2
                obtain ⟨hloop, hlast⟩ := hmade.insertLoop hrun
                constructor
                · intro hfresh
                  have hne : cur ≠ pool.nextPageId := fun heq =>
                    hfresh (heq ▸ List.mem_singleton_self _)
                  rwa [← newPage_pages hnew hne] at hloop
                · -- the pins of the pages that are made cancel out
                  apply Moved.cancel [newPageId]
                  exact (hfirst.trans (hsecond.trans hthird)).trans hlast

/-- The pages that `InsertTuple` goes over. -/
def insertPages (fuel : Nat) (table : TableHeap) (pool : PagePool) (tuple : Tuple) :
    List (PageId × Memory) :=
  if toUInt32 (tuple.length + 32) > pageSize then []
  else passed tuple pool fuel table.firstPageId

/-- With as many turns as there are pages, and when the new page is none of those gone over,
the result is that of the operation on the pages. -/
theorem insertTuple_spec {table : TableHeap} {txn : Transaction}
    {result : Option RID × PagePool × Transaction} (hnonneg : 0 ≤ pool.nextPageId)
    (hrun : insertTuple fuel table pool txn tuple pins = .ok (result, pins')) :
    (fuel = pool.nextPageId.toNat + 1 →
      pool.nextPageId ∉ fetchedIds (insertPages fuel table pool tuple) →
      table.insertTuple pool txn tuple = .ok result) ∧
    Moved (fetchedIds (insertPages fuel table pool tuple))
      (storedIds (insertPages fuel table pool tuple)) pins pins' := by
  unfold insertTuple at hrun
  unfold insertPages TableHeap.insertTuple
  by_cases hlarge : toUInt32 (tuple.length + 32) > pageSize
  · rw [if_pos hlarge] at hrun ⊢
    rw [if_pos hlarge]
    cases hrun
    exact ⟨fun _ _ => rfl, Moved.refl pins⟩
  · rw [if_neg hlarge] at hrun ⊢
    rw [if_neg hlarge, ← bind_assoc] at *
    obtain ⟨⟨rid?, pool'⟩, between, hloop, hrun⟩ := Counted.bind_eq_ok_iff.mp hrun
    obtain ⟨hresult, hmoved⟩ := insertLoop_spec hnonneg hloop
    cases rid? with
    | none =>
        cases hrun
        refine ⟨fun hfuel hfresh => ?_, hmoved⟩
        rw [← hfuel, hresult hfresh]
    | some rid =>
        cases hrun
        refine ⟨fun hfuel hfresh => ?_, hmoved⟩
        rw [← hfuel, hresult hfresh]

/-- What the operations that work on the page of a record id have in it at the end, if
they return. -/
def ridPages {ε : Type} (rid : RID) : Except ε Memory → List (PageId × Memory)
  | .error _ => []
  | .ok page => [(rid.pageId, page)]

/-- What `UpdateTuple` has in the page at the end. -/
def updatedPage (pool : PagePool) (tuple : Tuple) (rid : RID) : Except HeapFault Memory :=
  match TablePage.updateTuple (pool.pages rid.pageId) tuple rid with
  | .error fault => .error fault
  | .ok none => .ok (pool.pages rid.pageId)
  | .ok (some (_, page)) => .ok page

variable {rid : RID} {txn : Transaction} {table : TableOid}

/-- Flags of slots are no ids of pages. -/
theorem getTablePageId_setTupleSize (p : Memory) (slotNum size : Nat) :
    getTablePageId (setTupleSize p slotNum size) = getTablePageId p := by
  unfold getTablePageId setTupleSize offsetTupleSize
  rw [read32_write32_disjoint (by omega)]

theorem getTablePageId_markDelete (p : Memory) (rid : RID) :
    getTablePageId (TablePage.markDelete p rid).2 = getTablePageId p := by
  unfold TablePage.markDelete
  dsimp only
  split
  next => rfl
  next =>
    split
    next => rfl
    next =>
      split
      next => exact getTablePageId_setTupleSize _ _ _
      next => rfl

theorem getTablePageId_rollbackDelete {p page : Memory}
    (hrollback : TablePage.rollbackDelete p rid = .ok page) :
    getTablePageId page = getTablePageId p := by
  unfold TablePage.rollbackDelete at hrollback
  dsimp only at hrollback
  split at hrollback
  next => cases hrollback
  next =>
    split at hrollback
    next =>
      cases hrollback
      exact getTablePageId_setTupleSize _ _ _
    next =>
      cases hrollback
      rfl

theorem markDelete_eq (table : TableOid) (pool : PagePool) (txn : Transaction) (rid : RID) :
    markDelete table pool txn rid = (do
      fetchPage rid.pageId
      unpinPage (getTablePageId (pool.pages rid.pageId))
      pure (TableHeap.markDelete table pool txn rid)) := by
  unfold markDelete
  dsimp only
  rw [getTablePageId_markDelete]
  rfl

theorem markDelete_spec {result : Bool × PagePool × Transaction}
    (hrun : markDelete table pool txn rid pins = .ok (result, pins')) :
    result = TableHeap.markDelete table pool txn rid ∧
      Moved [rid.pageId] [getTablePageId (pool.pages rid.pageId)] pins pins' := by
  rw [markDelete_eq] at hrun
  obtain ⟨first, hfirst, hrun⟩ := Counted.acquire_bind hrun
  obtain ⟨second, hsecond, hrun⟩ := Counted.release_bind hrun
  obtain ⟨rfl, rfl⟩ := Counted.pure_eq_ok_iff.mp hrun
  exact ⟨rfl, hfirst.trans hsecond⟩

theorem updateTuple_spec {result : Bool × PagePool × Transaction}
    (hrun : updateTuple table pool txn tuple rid pins = .ok (result, pins')) :
    TableHeap.updateTuple table pool txn tuple rid = .ok result ∧
      ∃ page, updatedPage pool tuple rid = .ok page ∧
        Moved [rid.pageId] [getTablePageId page] pins pins' := by
  obtain ⟨first, hfirst, hrun⟩ := Counted.acquire_bind hrun
  obtain ⟨updated, hupdate, hrun⟩ := Counted.lift_bind_eq_ok_iff.mp hrun
  unfold TableHeap.updateTuple updatedPage
  rw [hupdate]
  cases updated with
  | none =>
      obtain ⟨second, hsecond, hrun⟩ := Counted.release_bind hrun
      cases hrun
      exact ⟨rfl, _, rfl, hfirst.trans hsecond⟩
  | some updated =>
      obtain ⟨second, hsecond, hrun⟩ := Counted.release_bind hrun
      dsimp only at hrun ⊢
      split at hrun
      next hstate =>
        rw [if_pos hstate]
        cases hrun
        exact ⟨rfl, _, rfl, hfirst.trans hsecond⟩
      next hstate =>
        rw [if_neg hstate]
        cases hrun
        exact ⟨rfl, _, rfl, hfirst.trans hsecond⟩

theorem applyDelete_spec (hrun : applyDelete pool rid pins = .ok (pool', pins')) :
    TableHeap.applyDelete pool rid = .ok pool' ∧
      ∃ page, TablePage.applyDelete (pool.pages rid.pageId) rid = .ok page ∧
        Moved [rid.pageId] [getTablePageId page] pins pins' := by
  obtain ⟨first, hfirst, hrun⟩ := Counted.acquire_bind hrun
  obtain ⟨page, hpage, hrun⟩ := Counted.lift_bind_eq_ok_iff.mp hrun
  obtain ⟨second, hsecond, hrun⟩ := Counted.release_bind hrun
  unfold TableHeap.applyDelete
  rw [hpage]
  cases hrun
  exact ⟨rfl, page, rfl, hfirst.trans hsecond⟩

theorem rollbackDelete_spec (hrun : rollbackDelete pool rid pins = .ok (pool', pins')) :
    TableHeap.rollbackDelete pool rid = .ok pool' ∧
      Moved [rid.pageId] [getTablePageId (pool.pages rid.pageId)] pins pins' := by
  obtain ⟨first, hfirst, hrun⟩ := Counted.acquire_bind hrun
  obtain ⟨page, hpage, hrun⟩ := Counted.lift_bind_eq_ok_iff.mp hrun
  obtain ⟨second, hsecond, hrun⟩ := Counted.release_bind hrun
  rw [getTablePageId_rollbackDelete hpage] at hsecond
  unfold TableHeap.rollbackDelete
  rw [hpage]
  cases hrun
  exact ⟨rfl, hfirst.trans hsecond⟩

/-! ## The pages of a heap in order -/

variable {first : PageId} {pageIds before after : List PageId} {heap : PageId → List Slot}

/-- A page of a heap keeps its id when a tuple is inserted. -/
theorem passed_heapOk (h : HeapOk pool first pageIds heap) (hids : pageIds = before ++ cur :: after)
    {page : PageId × Memory} (hmem : page ∈ passed tuple pool fuel cur) :
    getTablePageId page.2 = page.1 := by
  induction fuel generalizing before cur after with
  | zero => exact absurd hmem List.not_mem_nil
  | succ fuel ih =>
      have hin : cur ∈ pageIds := by simp [hids]
      have hpage := h.represents cur hin
      have hlinks := h.links
      rw [hids] at hlinks
      obtain ⟨hid, hnext⟩ := hlinks.next
      unfold passed at hmem
      by_cases hpos : 0 < tuple.length
      · cases hinsert : Slots.insert (heap cur) tuple with
        | some placed =>
            obtain ⟨p', hinserted, -, hsame⟩ := hpage.insertTuple_of_some hpos hinsert
            rw [hinserted] at hmem
            rw [List.mem_singleton.mp hmem, hsame.getTablePageId]
            exact hid
        | none =>
            rw [hpage.insertTuple_of_none hpos hinsert] at hmem
            dsimp only at hmem
            rcases List.mem_cons.mp hmem with rfl | hrest
            · exact hid
            · rw [hnext] at hrest
              cases after with
              | nil => exact absurd hrest List.not_mem_nil
              | cons next rest =>
                  rw [List.headD_cons] at hrest
                  split at hrest
                  next =>
                    have hids' : pageIds = (before ++ [cur]) ++ next :: rest := by simp [hids]
                    exact ih hids' hrest
                  next => exact absurd hrest List.not_mem_nil
      · have hempty : TablePage.insertTuple (pool.pages cur) tuple = .error .emptyTuple :=
          if_pos hpos
        rw [hempty] at hmem
        exact absurd hmem List.not_mem_nil

theorem storedIds_eq {pages : List (PageId × Memory)}
    (h : ∀ page ∈ pages, getTablePageId page.2 = page.1) : storedIds pages = fetchedIds pages :=
  List.map_congr_left h

theorem updatedPage_heapOk (h : HeapOk pool first pageIds heap) (hmem : rid.pageId ∈ pageIds)
    {page : Memory} (hpage : updatedPage pool tuple rid = .ok page) :
    getTablePageId page = getTablePageId (pool.pages rid.pageId) := by
  have hslots := h.represents rid.pageId hmem
  unfold updatedPage at hpage
  by_cases hpos : 0 < tuple.length
  · cases hupdate : Slots.update (heap rid.pageId) rid.slotNum tuple with
    | none =>
        rw [hslots.updateTuple_of_none hpos hupdate] at hpage
        cases hpage
        rfl
    | some updated =>
        obtain ⟨p', hupdated, -, hsame⟩ := hslots.updateTuple_of_some hpos hupdate
        rw [hupdated] at hpage
        cases hpage
        exact hsame.getTablePageId
  · have hempty : TablePage.updateTuple (pool.pages rid.pageId) tuple rid = .error .emptyTuple :=
      if_pos hpos
    rw [hempty] at hpage
    cases hpage

theorem applyDelete_heapOk (h : HeapOk pool first pageIds heap) (hmem : rid.pageId ∈ pageIds)
    {page : Memory} (hpage : TablePage.applyDelete (pool.pages rid.pageId) rid = .ok page) :
    getTablePageId page = getTablePageId (pool.pages rid.pageId) := by
  have hslots := h.represents rid.pageId hmem
  cases hdelete : Slots.applyDelete (heap rid.pageId) rid.slotNum with
  | error fault =>
      rw [hslots.applyDelete_of_error hdelete] at hpage
      cases hpage
  | ok slots =>
      obtain ⟨p', hdeleted, -, hsame⟩ := hslots.applyDelete_of_ok hdelete
      rw [hdeleted] at hpage
      cases hpage
      exact hsame.getTablePageId

end TableHeap.Pinned

namespace TableIterator.Pinned

open TablePage TableHeap.Pinned

variable {pool : PagePool} {cur last : PageId} {fuel : Nat} {pins pins' : PageId → Nat}
  {rid : RID}

theorem firstRid_eq (pool : PagePool) (fuel : Nat) (pageId : PageId) :
    firstRid pool fuel pageId = lift (TableIterator.firstRid pool fuel pageId) := by
  induction fuel generalizing pageId with
  | zero => rfl
  | succ fuel ih =>
      unfold firstRid TableIterator.firstRid
      split
      next => rfl
      next =>
        dsimp only
        rw [fetchPage_unpinPage]
        cases getFirstTupleRid (pool.pages pageId) with
        | some rid => rfl
        | none => exact ih _

theorem ofRid_eq (pool : PagePool) (rid : RID) :
    ofRid pool rid = pure (TableIterator.ofRid pool rid) := by
  unfold ofRid TableIterator.ofRid
  rw [getTuple_eq]
  split
  next => rfl
  next => rfl

theorem first_eq (fuel : Nat) (table : TableHeap) (pool : PagePool) :
    first fuel table pool = lift ((TableIterator.firstRid pool fuel table.firstPageId).map
      (TableIterator.ofRid pool)) := by
  unfold first
  rw [firstRid_eq]
  cases TableIterator.firstRid pool fuel table.firstPageId with
  | error fault => rfl
  | ok rid =>
      rw [Counted.lift_ok, pure_bind]
      exact ofRid_eq pool rid

/-- The pages behind a page that `operator++` goes over. -/
def pagesBehind (pool : PagePool) : Nat → PageId → List (PageId × Memory)
  | 0, _ => []
  | fuel + 1, curPageId =>
      let nextPageId := getNextPageId (pool.pages curPageId)
      if nextPageId = invalidPageId then []
      else (nextPageId, pool.pages nextPageId) ::
        match getFirstTupleRid (pool.pages nextPageId) with
        | some _ => []
        | none => pagesBehind pool fuel nextPageId

/-- The loop of `operator++` gives back a pin of the id in each page but the last. -/
theorem ridBehind_spec (hrun : ridBehind pool fuel cur pins = .ok ((rid, last), pins')) :
    TableIterator.ridBehind pool fuel cur = .ok rid ∧
      ∃ given, given ++ [getTablePageId (pool.pages last)] =
          getTablePageId (pool.pages cur) :: storedIds (pagesBehind pool fuel cur) ∧
        Moved (fetchedIds (pagesBehind pool fuel cur)) given pins pins' := by
  induction fuel generalizing cur pins with
  | zero => cases hrun
  | succ fuel ih =>
      unfold ridBehind at hrun
      unfold TableIterator.ridBehind pagesBehind
      dsimp only at hrun ⊢
      by_cases hnext : getNextPageId (pool.pages cur) = invalidPageId
      · rw [if_pos hnext] at hrun
        rw [if_pos hnext, if_pos hnext]
        cases hrun
        exact ⟨rfl, [], rfl, Moved.refl _⟩
      · rw [if_neg hnext] at hrun
        rw [if_neg hnext, if_neg hnext]
        obtain ⟨first, hfirst, hrun⟩ := Counted.acquire_bind hrun
        obtain ⟨second, hsecond, hrun⟩ := Counted.release_bind hrun
        have hmoved := hfirst.trans hsecond
        cases hfound : getFirstTupleRid (pool.pages (getNextPageId (pool.pages cur))) with
        | some found =>
            rw [hfound] at hrun
            cases hrun
            exact ⟨rfl, _, rfl, hmoved⟩
        | none =>
            rw [hfound] at hrun
            obtain ⟨hloop, given, hgiven, hrest⟩ := ih hrun
            refine ⟨hloop, getTablePageId (pool.pages cur) :: given, ?_, hmoved.trans hrest⟩
            rw [List.cons_append, hgiven]
            rfl

/-- The pages that `operator++` goes over. -/
def advancePages (fuel : Nat) (pool : PagePool) (it : TableIterator) : List (PageId × Memory) :=
  (it.rid.pageId, pool.pages it.rid.pageId) ::
    match getNextTupleRid (pool.pages it.rid.pageId) it.rid with
    | some _ => []
    | none => pagesBehind pool fuel it.rid.pageId

theorem nextRid_spec {it : TableIterator}
    (hrun : (do fetchPage it.rid.pageId; nextRid fuel pool it.rid) pins =
      .ok ((rid, last), pins')) :
    (match getNextTupleRid (pool.pages it.rid.pageId) it.rid with
      | some nextTupleRid => .ok nextTupleRid
      | none => TableIterator.ridBehind pool fuel it.rid.pageId) =
        (.ok rid : Except HeapFault RID) ∧
    ∃ given, given ++ [getTablePageId (pool.pages last)] = storedIds (advancePages fuel pool it) ∧
      Moved (fetchedIds (advancePages fuel pool it)) given pins pins' := by
  obtain ⟨first, hfirst, hrun⟩ := Counted.acquire_bind hrun
  unfold nextRid at hrun
  unfold advancePages
  cases hnext : getNextTupleRid (pool.pages it.rid.pageId) it.rid with
  | some found =>
      rw [hnext] at hrun
      cases hrun
      exact ⟨rfl, [], rfl, hfirst⟩
  | none =>
      rw [hnext] at hrun
      obtain ⟨hloop, given, hgiven, hmoved⟩ := ridBehind_spec hrun
      exact ⟨hloop, given, hgiven, hfirst.trans hmoved⟩

/-- The pages behind a page of a heap have their ids. -/
theorem pagesBehind_heapOk {first : PageId} {pageIds before after : List PageId}
    {heap : PageId → List Slot} (h : TableHeap.HeapOk pool first pageIds heap)
    (hids : pageIds = before ++ cur :: after) {page : PageId × Memory}
    (hmem : page ∈ pagesBehind pool fuel cur) : getTablePageId page.2 = page.1 := by
  induction fuel generalizing before cur after with
  | zero => exact absurd hmem List.not_mem_nil
  | succ fuel ih =>
      have hlinks := h.links
      rw [hids] at hlinks
      unfold pagesBehind at hmem
      rw [hlinks.next.2] at hmem
      cases after with
      | nil => exact absurd hmem List.not_mem_nil
      | cons next rest =>
          rw [List.headD_cons] at hmem
          dsimp only at hmem
          split at hmem
          next => exact absurd hmem List.not_mem_nil
          next =>
            have hids' : pageIds = (before ++ [cur]) ++ next :: rest := by simp [hids]
            rcases List.mem_cons.mp hmem with rfl | hrest
            · have hlinks' := h.links
              rw [hids'] at hlinks'
              exact hlinks'.next.1
            · split at hrest
              next => exact absurd hrest List.not_mem_nil
              next => exact ih hids' hrest

/-- With as many turns as there are pages, the result is that of the operation on the pages. -/
theorem advance_spec {it next : TableIterator}
    (hrun : advance fuel pool it pins = .ok (next, pins')) :
    (fuel = pool.nextPageId.toNat + 1 → TableIterator.advance pool it = .ok next) ∧
    Moved (fetchedIds (advancePages fuel pool it)) (storedIds (advancePages fuel pool it))
      pins pins' := by
  unfold advance at hrun
  rw [← bind_assoc] at hrun
  obtain ⟨⟨rid, last⟩, between, hnext, hrun⟩ := Counted.bind_eq_ok_iff.mp hrun
  obtain ⟨hresult, given, hgiven, hmoved⟩ := nextRid_spec hnext
  have hlast : next = { rid, tuple := if rid ≠ endRid then
        (TableHeap.getTuple pool rid).getD it.tuple else it.tuple } ∧
      Moved [] [getTablePageId (pool.pages last)] between pins' := by
    dsimp only at hrun
    by_cases hend : rid ≠ endRid
    · rw [if_pos hend, getTuple_eq, pure_bind] at hrun
      obtain ⟨final, hfinal, hrun⟩ := Counted.release_bind hrun
      cases hrun
      rw [if_pos hend]
      exact ⟨rfl, hfinal⟩
    · rw [if_neg hend] at hrun
      obtain ⟨final, hfinal, hrun⟩ := Counted.release_bind hrun
      cases hrun
      rw [if_neg hend]
      exact ⟨rfl, hfinal⟩
  constructor
  · intro hfuel
    unfold TableIterator.advance
    rw [hlast.1, ← hfuel]
    cases hfound : getNextTupleRid (pool.pages it.rid.pageId) it.rid with
    | some found =>
        rw [hfound] at hresult
        cases hresult
        rfl
    | none =>
        rw [hfound] at hresult
        dsimp only at hresult ⊢
        rw [hresult]
  · have htotal := hmoved.trans hlast.2
    rwa [List.append_nil, hgiven] at htotal

end TableIterator.Pinned

end BusTub
