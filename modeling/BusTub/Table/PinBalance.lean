import BusTub.Hash.PinnedTable
import BusTub.Hash.SplitCapacity
import BusTub.Table.HeapCalls
import BusTub.Table.HeapPins

/-! # Which operations keep the pins

The public operations of a hash table and of a table heap, whatever pages they find. An
insertion into a hash table returns if its bucket is split in time. An operation that returns
has the pins as before, but for those that unpin a page by the id in it: they need the page to
have that id.
-/

namespace BusTub

open TableHeap.Pinned TableIterator.Pinned

/-- A call of an operation of a hash table or of a table heap, with the state that it finds.
A loop has at most `fuel` turns. -/
inductive PinnedCall (K V : Type) where
  | getValue (directoryPageId : PageId) (t : ExtendibleHashTable K V) (key : K)
  | insert (directoryPageId : PageId) (fuel : Nat) (t : ExtendibleHashTable K V) (key : K)
      (value : V)
  | remove (directoryPageId : PageId) (t : ExtendibleHashTable K V) (key : K) (value : V)
  /-- Page ids are given out from `0` on. -/
  | insertTuple (fuel : Nat) (table : TableHeap) (pool : PagePool)
      (nonneg : 0 ≤ pool.nextPageId) (txn : Transaction) (tuple : Tuple)
  | markDelete (table : TableOid) (pool : PagePool) (txn : Transaction) (rid : RID)
  | updateTuple (table : TableOid) (pool : PagePool) (txn : Transaction) (tuple : Tuple)
      (rid : RID)
  | applyDelete (pool : PagePool) (rid : RID)
  | rollbackDelete (pool : PagePool) (rid : RID)
  | getTuple (pool : PagePool) (rid : RID)
  | first (fuel : Nat) (table : TableHeap) (pool : PagePool)
  | advance (fuel : Nat) (pool : PagePool) (it : TableIterator)

namespace PinnedCall

variable {K V : Type}

/-- The pin counts when the call has returned; none if it does not return, or has to unpin a
page that nobody has pinned. -/
def pinsAfter [DecidableEq V] (c : TableConfig K V) :
    PinnedCall K V → (PageId → Nat) → Option (PageId → Nat)
  | getValue directoryPageId t key =>
      (ExtendibleHashTable.Pinned.getValue c directoryPageId t key).after
  | insert directoryPageId fuel t key value =>
      (ExtendibleHashTable.Pinned.insert c directoryPageId fuel t key value).after
  | remove directoryPageId t key value =>
      (ExtendibleHashTable.Pinned.remove c directoryPageId t key value).after
  | insertTuple fuel table pool _ txn tuple =>
      (TableHeap.Pinned.insertTuple fuel table pool txn tuple).after
  | markDelete table pool txn rid => (TableHeap.Pinned.markDelete table pool txn rid).after
  | updateTuple table pool txn tuple rid =>
      (TableHeap.Pinned.updateTuple table pool txn tuple rid).after
  | applyDelete pool rid => (TableHeap.Pinned.applyDelete pool rid).after
  | rollbackDelete pool rid => (TableHeap.Pinned.rollbackDelete pool rid).after
  | getTuple pool rid => (TableHeap.Pinned.getTuple pool rid).after
  | first fuel table pool => (TableIterator.Pinned.first fuel table pool).after
  | advance fuel pool it => (TableIterator.Pinned.advance fuel pool it).after

/-- The pages that the call unpins by the id in them, each with the id that it is fetched by
and with what `TablePage` leaves in it. -/
def pages : PinnedCall K V → List (PageId × Memory)
  | getValue .. => []
  | insert .. => []
  | remove .. => []
  | insertTuple fuel table pool _ _ tuple => insertPages fuel table pool tuple
  | markDelete _ pool _ rid => [(rid.pageId, pool.pages rid.pageId)]
  | updateTuple _ pool _ tuple rid => ridPages rid (updatedPage pool tuple rid)
  | applyDelete pool rid => ridPages rid (TablePage.applyDelete (pool.pages rid.pageId) rid)
  | rollbackDelete pool rid => [(rid.pageId, pool.pages rid.pageId)]
  | getTuple .. => []
  | first .. => []
  | advance fuel pool it => advancePages fuel pool it

/-- Every call takes a pin by each id that it fetches a page by and gives back one by each id
that it finds in a page. -/
theorem moved [DecidableEq V] (c : TableConfig K V) (call : PinnedCall K V)
    {pins pins' : PageId → Nat} (h : call.pinsAfter c pins = some pins') :
    Counted.Moved (fetchedIds call.pages) (storedIds call.pages) pins pins' := by
  cases call with
  | getValue directoryPageId t key =>
      exact Counted.moved_of_eq_pure (ExtendibleHashTable.Pinned.getValue_eq c _ t key) h
  | insert directoryPageId fuel t key value =>
      exact Counted.moved_of_eq_lift (ExtendibleHashTable.Pinned.insert_eq c _ fuel t key value) h
  | remove directoryPageId t key value =>
      exact Counted.moved_of_eq_pure (ExtendibleHashTable.Pinned.remove_eq c _ t key value) h
  | getTuple pool rid =>
      exact Counted.moved_of_eq_pure (TableHeap.Pinned.getTuple_eq pool rid) h
  | first fuel table pool =>
      exact Counted.moved_of_eq_lift (TableIterator.Pinned.first_eq fuel table pool) h
  | insertTuple fuel table pool nonneg txn tuple =>
      obtain ⟨result, hrun⟩ := Counted.after_eq_some_iff.mp h
      exact (insertTuple_spec nonneg hrun).2
  | markDelete table pool txn rid =>
      change (TableHeap.Pinned.markDelete table pool txn rid).after pins = some pins' at h
      obtain ⟨result, hrun⟩ := Counted.after_eq_some_iff.mp h
      exact (markDelete_spec hrun).2
  | updateTuple table pool txn tuple rid =>
      obtain ⟨result, hrun⟩ := Counted.after_eq_some_iff.mp h
      obtain ⟨-, page, hpage, hmoved⟩ := updateTuple_spec hrun
      dsimp only [pages]
      rw [hpage]
      exact hmoved
  | applyDelete pool rid =>
      obtain ⟨result, hrun⟩ := Counted.after_eq_some_iff.mp h
      obtain ⟨-, page, hpage, hmoved⟩ := applyDelete_spec hrun
      dsimp only [pages]
      rw [hpage]
      exact hmoved
  | rollbackDelete pool rid =>
      obtain ⟨result, hrun⟩ := Counted.after_eq_some_iff.mp h
      exact (rollbackDelete_spec hrun).2
  | advance fuel pool it =>
      obtain ⟨next, hrun⟩ := Counted.after_eq_some_iff.mp h
      exact (advance_spec hrun).2

/-- The call does not ask the directory to exceed `DIRECTORY_ARRAY_SIZE`. -/
def FitsDirectory (c : TableConfig K V) : PinnedCall K V → Prop
  | insert _ _ t key _ => t.Sound c → t.SplitsInTime c key
  | _ => True

/-- A call that returns has not asked the directory to exceed its array. -/
theorem fitsDirectory [DecidableEq V] (c : TableConfig K V) (call : PinnedCall K V)
    {pins pins' : PageId → Nat} (h : call.pinsAfter c pins = some pins') :
    call.FitsDirectory c := by
  cases call with
  | insert directoryPageId fuel t key value =>
      intro hsound hfull
      obtain ⟨result, hrun⟩ := Counted.after_eq_some_iff.mp h
      rw [ExtendibleHashTable.Pinned.insert_eq] at hrun
      dsimp only at hrun
      rw [if_pos hfull] at hrun
      exact hsound.splitsInTime (Counted.lift_eq_ok_iff.mp hrun).1 hfull
  | _ => trivial

/-- With ten turns of the loop of `SplitInsert`, an insertion that does not ask the directory
to exceed its array returns, and leaves the pins as they were. -/
theorem pinsAfter_insert [DecidableEq V] {c : TableConfig K V} {t : ExtendibleHashTable K V}
    (hsound : t.Sound c) (directoryPageId : PageId) {fuel : Nat} (hfuel : 10 ≤ fuel) {key : K}
    (value : V) (hfits : (insert directoryPageId fuel t key value).FitsDirectory c)
    (pins : PageId → Nat) :
    (insert directoryPageId fuel t key value).pinsAfter c pins = some pins := by
  apply Counted.after_eq_some_iff.mpr
  rw [ExtendibleHashTable.Pinned.insert_eq]
  dsimp only
  by_cases hfull :
      (t.buckets (ExtendibleHashTable.keyToPageId c key t.directory)).isFull c.bucketArraySize
  · obtain ⟨success, final, hloop⟩ :=
      (hsound.splitInsertLoop key value fuel (by omega)).ok_iff.mpr (hfits hsound)
    rw [if_pos hfull, hloop]
    exact ⟨_, rfl⟩
  · rw [if_neg hfull]
    exact ⟨_, rfl⟩

/-- A call that returns, or that asks the directory to exceed its array: it returns with the
pins as they were if and only if it does not ask for that, and the ids in the pages that it
unpins by those ids are the ids that it fetched them by. -/
theorem pinsAfter_eq_iff [DecidableEq V] (c : TableConfig K V) (call : PinnedCall K V)
    {pins : PageId → Nat}
    (h : (∃ pins', call.pinsAfter c pins = some pins') ∨ ¬ call.FitsDirectory c) :
    call.pinsAfter c pins = some pins ↔
      call.FitsDirectory c ∧ (storedIds call.pages).Perm (fetchedIds call.pages) := by
  constructor
  · intro hafter
    exact ⟨call.fitsDirectory c hafter, (call.moved c hafter).eq_iff_perm.mp rfl⟩
  · rintro ⟨hfits, hperm⟩
    rcases h with ⟨pins', hafter⟩ | hexceeds
    · rw [hafter, (call.moved c hafter).eq_iff_perm.mpr hperm]
    · exact absurd hfits hexceeds

/-! ## Calls on a heap in order -/

/-- The call finds the pool, and is about the heap or about one of its pages. -/
def On (pool : PagePool) (start : PageId) (pageIds : List PageId) : PinnedCall K V → Prop
  | getValue .. => True
  | insert .. => True
  | remove .. => True
  | insertTuple _ table pool' _ _ _ => pool' = pool ∧ table.firstPageId = start
  | markDelete _ pool' _ rid => pool' = pool ∧ rid.pageId ∈ pageIds
  | updateTuple _ pool' _ _ rid => pool' = pool ∧ rid.pageId ∈ pageIds
  | applyDelete pool' rid => pool' = pool ∧ rid.pageId ∈ pageIds
  | rollbackDelete pool' rid => pool' = pool ∧ rid.pageId ∈ pageIds
  | getTuple .. => True
  | first .. => True
  | advance _ pool' it => pool' = pool ∧ it.rid.pageId ∈ pageIds

variable {pool : PagePool} {start : PageId} {pageIds : List PageId} {heap : PageId → List Slot}

/-- The pages of a heap have the ids that they are fetched by. -/
theorem stored_of_heapOk (h : TableHeap.HeapOk pool start pageIds heap) {call : PinnedCall K V}
    (hon : call.On pool start pageIds) :
    ∀ page ∈ call.pages, TablePage.getTablePageId page.2 = page.1 := by
  -- each page of the chain stores its own id
  have hown : ∀ pageId ∈ pageIds, TablePage.getTablePageId (pool.pages pageId) = pageId := by
    intro pageId hmem
    obtain ⟨before, after, hids⟩ := List.append_of_mem hmem
    have hlinks := h.links
    rw [hids] at hlinks
    exact hlinks.next.1
  intro page hmem
  cases call with
  | insertTuple fuel table pool' nonneg txn tuple =>
      obtain ⟨rfl, hfirst⟩ := hon
      have hpages : page ∈ insertPages fuel table pool' tuple := hmem
      unfold insertPages at hpages
      split at hpages
      next => exact absurd hpages List.not_mem_nil
      next =>
        rw [hfirst] at hpages
        obtain ⟨after, hids⟩ : ∃ after, pageIds = [] ++ start :: after := by
          have hhead := h.head
          cases pageIds with
          | nil => cases hhead
          | cons head after =>
              rw [List.head?_cons, Option.some.injEq] at hhead
              exact ⟨after, by rw [hhead, List.nil_append]⟩
        exact passed_heapOk h hids hpages
  | markDelete table pool' txn rid =>
      obtain ⟨rfl, hin⟩ := hon
      rw [List.mem_singleton.mp hmem]
      exact hown _ hin
  | updateTuple table pool' txn tuple rid =>
      obtain ⟨rfl, hin⟩ := hon
      dsimp only [pages] at hmem
      cases hpage : updatedPage pool' tuple rid with
      | error fault =>
          rw [hpage] at hmem
          exact absurd hmem List.not_mem_nil
      | ok updated =>
          rw [hpage] at hmem
          rw [List.mem_singleton.mp hmem, updatedPage_heapOk h hin hpage]
          exact hown _ hin
  | applyDelete pool' rid =>
      obtain ⟨rfl, hin⟩ := hon
      dsimp only [pages] at hmem
      cases hpage : TablePage.applyDelete (pool'.pages rid.pageId) rid with
      | error fault =>
          rw [hpage] at hmem
          exact absurd hmem List.not_mem_nil
      | ok deleted =>
          rw [hpage] at hmem
          rw [List.mem_singleton.mp hmem, applyDelete_heapOk h hin hpage]
          exact hown _ hin
  | rollbackDelete pool' rid =>
      obtain ⟨rfl, hin⟩ := hon
      rw [List.mem_singleton.mp hmem]
      exact hown _ hin
  | advance fuel pool' it =>
      obtain ⟨rfl, hin⟩ := hon
      obtain ⟨before, after, hids⟩ := List.append_of_mem hin
      have hpages : page ∈ advancePages fuel pool' it := hmem
      unfold advancePages at hpages
      rcases List.mem_cons.mp hpages with rfl | hrest
      · exact hown _ hin
      · split at hrest
        next => exact absurd hrest List.not_mem_nil
        next => exact pagesBehind_heapOk h hids hrest
  | getValue | insert | remove | getTuple | first => exact absurd hmem List.not_mem_nil

/-- On a heap in order, every call that returns leaves the pins as they were. -/
theorem keepsPins_of_heapOk [DecidableEq V] (c : TableConfig K V)
    (h : TableHeap.HeapOk pool start pageIds heap) {call : PinnedCall K V}
    (hon : call.On pool start pageIds) {pins pins' : PageId → Nat}
    (hafter : call.pinsAfter c pins = some pins') : pins' = pins := by
  have hmoved := call.moved c hafter
  rw [storedIds_eq (stored_of_heapOk h hon)] at hmoved
  exact hmoved.eq_iff_perm.mpr (List.Perm.refl _)

/-! ## A record id of no page -/

/-- A caller has page `0` pinned. -/
def onePin : PageId → Nat := Function.update (fun _ => 0) 0 1

theorem pinsAfter_markDelete [DecidableEq V] (c : TableConfig K V) (table : TableOid)
    (pool : PagePool) (txn : Transaction) (rid : RID) (pins : PageId → Nat) :
    (markDelete table pool txn rid : PinnedCall K V).pinsAfter c pins =
      Counted.after (do
        fetchPage rid.pageId
        unpinPage (TablePage.getTablePageId (pool.pages rid.pageId))
        pure (TableHeap.markDelete table pool txn rid) : PinM HeapFault _) pins := by
  rw [← markDelete_eq]
  rfl

/-- `MarkDelete` of the record id that a tuple has by default. The page that it fetches is full
of zeros, so that the id in it is `0`: the other caller's pin is given back. -/
theorem markDelete_defaultRid : ∃ pins' : PageId → Nat,
    (markDelete 0 TableHeap.smallPool {} ⟨invalidPageId, 0⟩ : PinnedCall Int Int).pinsAfter
      ExtendibleHashTable.intTable onePin = some pins' ∧
    onePin invalidPageId = 0 ∧ pins' invalidPageId = 1 ∧ onePin 0 = 1 ∧ pins' 0 = 0 := by
  have hne : invalidPageId ≠ 0 := by decide
  have hpage : TableHeap.smallPool.pages invalidPageId = Memory.zeros := by
    unfold TableHeap.smallPool PagePool.setPage
    exact Function.update_of_ne hne (TablePage.init Memory.zeros 0 pageSize invalidPageId) _
  have hid : TablePage.getTablePageId Memory.zeros = 0 := by decide
  rw [pinsAfter_markDelete]
  dsimp only
  rw [hpage, hid]
  refine ⟨_, rfl, ?_⟩
  decide

theorem pinsAfter_markDelete_firstPage : ∃ pins' : PageId → Nat,
    (markDelete 0 TableHeap.smallPool {} ⟨0, 0⟩ : PinnedCall Int Int).pinsAfter
      ExtendibleHashTable.intTable onePin = some pins' := by
  have hid : TablePage.getTablePageId (TableHeap.smallPool.pages 0) = 0 :=
    TableHeap.smallPool_heapOk.links.1
  rw [pinsAfter_markDelete]
  dsimp only
  rw [hid]
  exact ⟨_, rfl⟩

open ExtendibleHashTable in
/-- An insertion that splits a full bucket twice, and `MarkDelete` on the first page of a heap. -/
theorem pinsAfter_eq_iff_growingCalls : ∃ t,
    (machine intTable).Reaches (create intTable) (bucketful.map (TableCall.insert 0)) t ∧
    (t.buckets 1).isFull intTable.bucketArraySize ∧
    (insert 0 directoryArraySize t 4 0).pinsAfter intTable onePin = some onePin ∧
    (markDelete 0 TableHeap.smallPool {} ⟨0, 0⟩ : PinnedCall Int Int).pinsAfter intTable onePin =
      some onePin := by
  obtain ⟨t, hreach, -, -, -, -, hfull, -, -⟩ := reaches_fullTable
  obtain ⟨final, hgrown, -⟩ := reaches_grownTable
  -- the calls go through, so that the last of them splits its bucket in time
  have hfits : SplitsInTime intTable t 4 :=
    (Machine.guarded_append ((exists_reaches_iff_fits intTable growingCalls).mp ⟨final, hgrown⟩)
      hreach).2.1
  have hinsert := pinsAfter_insert (sound_of_reaches hreach) 0
    (show 10 ≤ directoryArraySize by decide) 0 (fun _ => hfits) onePin
  refine ⟨t, hreach, hfull, ?_, ?_⟩
  · exact (pinsAfter_eq_iff intTable _ (Or.inl ⟨onePin, hinsert⟩)).mpr
      ⟨fun _ => hfits, List.Perm.nil⟩
  · refine (pinsAfter_eq_iff intTable _ (Or.inl pinsAfter_markDelete_firstPage)).mpr
      ⟨trivial, ?_⟩
    rw [storedIds_eq]
    intro page hmem
    rw [List.mem_singleton.mp hmem]
    exact TableHeap.smallPool_heapOk.links.1

end PinnedCall

end BusTub
