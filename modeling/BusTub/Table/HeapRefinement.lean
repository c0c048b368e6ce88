import BusTub.Table.PageOperations
import BusTub.Table.TableHeap
import Mathlib.Data.List.Infix
import Mathlib.Data.Finset.Card
import Mathlib.Data.Finset.Range

/-! # Table heaps are maps from pages to slots

A heap is a chain of distinct pages, each of them a list of slots. A page that is
not on the chain counts as one without slots, so that a new page changes nothing
but the chain.
-/

namespace BusTub.TableHeap

open TablePage

/-- Each page of the chain has its own id and leads to the next one. -/
def Links (pool : PagePool) : List PageId → Prop
  | [] => True
  | pageId :: rest => getTablePageId (pool.pages pageId) = pageId ∧
      getNextPageId (pool.pages pageId) = rest.headD invalidPageId ∧ Links pool rest

/-- The chain of the heap has the page ids and represents the slots of each page. -/
structure HeapOk (pool : PagePool) (first : PageId) (pageIds : List PageId)
    (heap : PageId → List Slot) : Prop where
  head : pageIds.head? = some first
  nodup : pageIds.Nodup
  bounds : ∀ pageId ∈ pageIds, 0 ≤ pageId ∧ pageId < pool.nextPageId
  links : Links pool pageIds
  represents : ∀ pageId ∈ pageIds, Represents (pool.pages pageId) (heap pageId)
  outside : ∀ pageId, pageId ∉ pageIds → heap pageId = []
  limit : pool.nextPageId < 2 ^ 31

/-- The chain may have got new pages; pages of other chains are the same. -/
structure Grown (pool pool' : PagePool) (pageIds pageIds' : List PageId) : Prop where
  isPrefix : pageIds <+: pageIds'
  le : pool.nextPageId ≤ pool'.nextPageId
  fresh : ∀ pageId ∈ pageIds', pageId ∈ pageIds ∨ pool.nextPageId ≤ pageId
  frame : ∀ pageId, pageId < pool.nextPageId → pageId ∉ pageIds →
    pool'.pages pageId = pool.pages pageId

variable {pool pool' pool'' : PagePool} {first cur : PageId}
  {pageIds pageIds' pageIds'' before after : List PageId} {heap : PageId → List Slot}
  {slots : List Slot} {page : Memory} {rid : RID} {tuple old : Tuple}

theorem Grown.refl (pool : PagePool) (pageIds : List PageId) : Grown pool pool pageIds pageIds :=
  ⟨List.prefix_rfl, le_refl _, fun _ hmem => Or.inl hmem, fun _ _ _ => rfl⟩

theorem Grown.trans (h : Grown pool pool' pageIds pageIds')
    (h' : Grown pool' pool'' pageIds' pageIds'') : Grown pool pool'' pageIds pageIds'' := by
  refine ⟨h.isPrefix.trans h'.isPrefix, le_trans h.le h'.le, ?_, ?_⟩
  · intro pageId hmem
    rcases h'.fresh pageId hmem with hold | hnew
    · exact h.fresh pageId hold
    · exact Or.inr (le_trans h.le hnew)
  · intro pageId hlt hnot
    rw [h'.frame pageId (lt_of_lt_of_le hlt h.le), h.frame pageId hlt hnot]
    intro hmem
    rcases h.fresh pageId hmem with hold | hnew
    · exact hnot hold
    · exact absurd hlt (not_lt.mpr hnew)

theorem Grown.mem (h : Grown pool pool' pageIds pageIds') {pageId : PageId}
    (hmem : pageId ∈ pageIds) : pageId ∈ pageIds' :=
  h.isPrefix.subset hmem

/-! ## Chains -/

theorem links_congr {ids : List PageId}
    (hsame : ∀ pageId ∈ ids, SameLinks (pool.pages pageId) (pool'.pages pageId))
    (h : Links pool ids) : Links pool' ids := by
  induction ids with
  | nil => trivial
  | cons pageId rest ih =>
      obtain ⟨hid, hnext, hrest⟩ := h
      have hlinks := hsame pageId List.mem_cons_self
      refine ⟨hlinks.getTablePageId.trans hid, hlinks.getNextPageId.trans hnext, ?_⟩
      exact ih (fun other hmem => hsame other (List.mem_cons_of_mem _ hmem)) hrest

theorem Links.next (h : Links pool (before ++ cur :: after)) :
    getTablePageId (pool.pages cur) = cur ∧
      getNextPageId (pool.pages cur) = after.headD invalidPageId := by
  induction before with
  | nil => exact ⟨h.1, h.2.1⟩
  | cons _ _ ih => exact ih h.2.2

/-- The last page of a chain gets a new one behind it. -/
theorem Links.append (h : Links pool (before ++ [cur])) {newPageId : PageId}
    (hother : ∀ pageId ∈ before, SameLinks (pool.pages pageId) (pool'.pages pageId))
    (hcur : getTablePageId (pool'.pages cur) = getTablePageId (pool.pages cur))
    (hcurNext : getNextPageId (pool'.pages cur) = newPageId)
    (hnew : getTablePageId (pool'.pages newPageId) = newPageId)
    (hnewNext : getNextPageId (pool'.pages newPageId) = invalidPageId) :
    Links pool' (before ++ [cur, newPageId]) := by
  induction before with
  | nil => exact ⟨hcur.trans h.1, hcurNext, hnew, hnewNext, trivial⟩
  | cons pageId rest ih =>
      obtain ⟨hid, hnext, hrest⟩ := h
      have hlinks := hother pageId List.mem_cons_self
      refine ⟨hlinks.getTablePageId.trans hid, ?_, ?_⟩
      · rw [hlinks.getNextPageId, hnext]
        cases rest <;> rfl
      · exact ih hrest (fun other hmem => hother other (List.mem_cons_of_mem _ hmem))

/-- The pages are distinct numbers below the next page id. -/
theorem HeapOk.length_le (h : HeapOk pool first pageIds heap) :
    pageIds.length ≤ pool.nextPageId.toNat := by
  have hsubset : pageIds.map Int.toNat ⊆ List.range pool.nextPageId.toNat := by
    intro n hn
    obtain ⟨pageId, hmem, rfl⟩ := List.mem_map.mp hn
    have hbounds := h.bounds pageId hmem
    rw [List.mem_range]
    generalize pool.nextPageId = limit at hbounds ⊢
    exact (Int.toNat_lt_toNat (lt_of_le_of_lt hbounds.1 hbounds.2)).mpr hbounds.2
  have hnodup : (pageIds.map Int.toNat).Nodup := by
    refine h.nodup.map_on ?_
    intro first hfirst second hsecond heq
    have hone := Int.toNat_of_nonneg (h.bounds first hfirst).1
    have htwo := Int.toNat_of_nonneg (h.bounds second hsecond).1
    rw [← hone, ← htwo, heq]
  have hle := (hnodup.subperm hsubset).length_le
  rwa [List.length_map, List.length_range] at hle

/-- A page of the chain is written. -/
theorem HeapOk.setPage (h : HeapOk pool first pageIds heap) {pageId : PageId}
    (hmem : pageId ∈ pageIds) (hpage : Represents page slots)
    (hlinks : SameLinks (pool.pages pageId) page) :
    HeapOk (pool.setPage pageId page) first pageIds (Function.update heap pageId slots) ∧
      Grown pool (pool.setPage pageId page) pageIds pageIds := by
  refine ⟨⟨h.head, h.nodup, h.bounds, ?_, ?_, ?_, h.limit⟩, List.prefix_rfl, le_refl _,
    fun _ hmem => Or.inl hmem, ?_⟩
  · refine links_congr ?_ h.links
    intro other _
    by_cases heq : other = pageId
    · subst heq
      simpa [PagePool.setPage] using hlinks
    · simpa [PagePool.setPage, heq] using SameLinks.refl _
  · intro other hother
    by_cases heq : other = pageId
    · subst heq
      simpa [PagePool.setPage] using hpage
    · simpa [PagePool.setPage, heq] using h.represents other hother
  · intro other hother
    have hne : other ≠ pageId := by
      rintro rfl
      exact hother hmem
    rw [Function.update_of_ne hne]
    exact h.outside other hother
  · intro other _ hnot
    have hne : other ≠ pageId := by
      rintro rfl
      exact hnot hmem
    simp [PagePool.setPage, hne]

/-- What `InsertTuple` does when it has a new page: the current page leads to it. -/
def linkNew (pool : PagePool) (cur newPageId : PageId) : PagePool :=
  let curPage := setNextPageId (pool.pages cur) newPageId
  let linked := pool.setPage cur curPage
  linked.setPage newPageId (init (linked.pages newPageId) newPageId pageSize
    (getTablePageId curPage))

/-- What is in the pages when a new one is linked behind `cur`. -/
theorem pages_linkNew {newPageId : PageId} (hnew : pool.newPage = some (newPageId, pool'))
    (hne : cur ≠ pool.nextPageId) :
    (∃ p, (linkNew pool' cur newPageId).pages newPageId = init p newPageId pageSize
      (getTablePageId (pool.pages cur))) ∧
    (linkNew pool' cur newPageId).pages cur = setNextPageId (pool.pages cur) newPageId ∧
    (∀ pageId, pageId ≠ cur → pageId ≠ newPageId →
      (linkNew pool' cur newPageId).pages pageId = pool.pages pageId) ∧
    newPageId = pool.nextPageId ∧
    (linkNew pool' cur newPageId).nextPageId = pool.nextPageId + 1 ∧
    pool.nextPageId + 1 < 2 ^ 31 := by
  unfold PagePool.newPage at hnew
  split at hnew
  next hlimit =>
    rw [Option.some.injEq, Prod.mk.injEq] at hnew
    obtain ⟨rfl, rfl⟩ := hnew
    have hzeroed : ∀ pageId, pageId ≠ pool.nextPageId →
        Function.update pool.pages pool.nextPageId (fun _ => 0) pageId = pool.pages pageId :=
      fun pageId hne => Function.update_of_ne hne _ _
    have hid : getTablePageId (setNextPageId
        (Function.update pool.pages pool.nextPageId (fun _ => 0) cur) pool.nextPageId) =
        getTablePageId (pool.pages cur) := by
      rw [getTablePageId_setNextPageId, hzeroed cur hne]
    refine ⟨⟨_, (Function.update_self _ _ _).trans (congrArg (init _ _ _) hid)⟩, ?_, ?_, rfl, rfl,
      hlimit⟩
    · refine (Function.update_of_ne hne _ _).trans ((Function.update_self _ _ _).trans ?_)
      exact congrArg (setNextPageId · pool.nextPageId) (hzeroed cur hne)
    · intro pageId hcur hnext
      exact (Function.update_of_ne hnext _ _).trans
        ((Function.update_of_ne hcur _ _).trans (hzeroed pageId hnext))
  next => cases hnew

/-- A new page behind the last one. -/
theorem HeapOk.newPage (h : HeapOk pool first (before ++ [cur]) heap) {newPageId : PageId}
    (hnew : pool.newPage = some (newPageId, pool')) :
    let linked := pool'.setPage cur (setNextPageId (pool'.pages cur) newPageId)
    let final := linked.setPage newPageId (init (linked.pages newPageId) newPageId pageSize
      (getTablePageId (setNextPageId (pool'.pages cur) newPageId)))
    HeapOk final first (before ++ [cur, newPageId]) heap ∧
      Grown pool final (before ++ [cur]) (before ++ [cur, newPageId]) := by
  intro linked final
  have hmem : cur ∈ before ++ [cur] := by simp
  have hcurBounds := h.bounds cur hmem
  obtain ⟨⟨p, hnewPage⟩, hcurPage, hother, rfl, hnext, hlimit⟩ :=
    pages_linkNew hnew (ne_of_lt hcurBounds.2)
  change final.pages pool.nextPageId = _ at hnewPage
  change final.pages cur = _ at hcurPage
  change ∀ pageId, _ → _ → final.pages pageId = _ at hother
  change final.nextPageId = _ at hnext
  have hnonneg : (0 : Int) ≤ pool.nextPageId := le_trans hcurBounds.1 (le_of_lt hcurBounds.2)
  have hlow : (-2 ^ 31 : Int) ≤ pool.nextPageId := le_trans (by decide) hnonneg
  have hnotMem : pool.nextPageId ∉ before ++ [cur] := fun hin =>
    absurd (h.bounds _ hin).2 (lt_irrefl _)
  have hbefore : ∀ pageId ∈ before, pageId ≠ cur ∧ pageId ≠ pool.nextPageId := by
    intro pageId hin
    refine ⟨?_, fun heq => hnotMem (by simp [← heq, hin])⟩
    rintro rfl
    have hnodup := h.nodup
    rw [List.nodup_append] at hnodup
    exact hnodup.2.2 _ hin _ List.mem_cons_self rfl
  -- the old last page points to the new one, which points nowhere
  have hlinks : Links final (before ++ [cur, pool.nextPageId]) := by
    refine h.links.append ?_ ?_ ?_ ?_ ?_
    · intro pageId hin
      rw [hother pageId (hbefore pageId hin).1 (hbefore pageId hin).2]
      exact SameLinks.refl _
    · rw [hcurPage, getTablePageId_setNextPageId]
    · rw [hcurPage, getNextPageId_setNextPageId _ hlow h.limit]
    · rw [hnewPage, getTablePageId_init _ _ hlow h.limit]
    · rw [hnewPage, getNextPageId_init]
  have happend : before ++ [cur, pool.nextPageId] = (before ++ [cur]) ++ [pool.nextPageId] := by
    simp
  rw [happend] at hlinks ⊢
  refine ⟨⟨?_, ?_, ?_, hlinks, ?_, ?_, hnext ▸ hlimit⟩, List.prefix_append _ _, ?_, ?_, ?_⟩
  · rw [List.head?_append, h.head]
    rfl
  · refine List.nodup_append.mpr ⟨h.nodup, List.nodup_singleton _, ?_⟩
    rintro pageId hin _ hlast rfl
    rw [List.mem_singleton] at hlast
    exact hnotMem (hlast ▸ hin)
  · intro pageId hin
    rw [hnext]
    rcases List.mem_append.mp hin with hold | hlast
    · exact ⟨(h.bounds pageId hold).1, lt_trans (h.bounds pageId hold).2 (Int.lt_succ _)⟩
    · rw [List.mem_singleton] at hlast
      rw [hlast]
      exact ⟨hnonneg, Int.lt_succ _⟩
  · intro pageId hin
    rcases List.mem_append.mp hin with hold | hlast
    · -- only the next page id of the old last page has changed
      have hpage := h.represents pageId hold
      by_cases hcur : pageId = cur
      · rw [hcur] at hpage ⊢
        rw [hcurPage]
        exact hpage.congr fun a ha => setNextPageId_apply ha
      · rwa [hother pageId hcur (fun heq => hnotMem (heq ▸ hold))]
    · rw [List.mem_singleton] at hlast
      rw [hlast, hnewPage, h.outside _ hnotMem]
      exact represents_init _ _ _
  · intro pageId hnot
    exact h.outside pageId fun hin => hnot (List.mem_append_left _ hin)
  · rw [hnext]
    exact le_of_lt (Int.lt_succ _)
  · intro pageId hin
    rcases List.mem_append.mp hin with hold | hlast
    · exact Or.inl hold
    · rw [List.mem_singleton] at hlast
      exact Or.inr (le_of_eq hlast.symm)
  · intro pageId hlt hnot
    refine hother pageId ?_ (ne_of_lt hlt)
    rintro rfl
    exact hnot hmem

/-! ## Insertion -/

/-- The tuple is in the slot of the record id, or there was no page for it. -/
def Stored (heap heap' : PageId → List Slot) (pageIds : List PageId) (tuple : Tuple) :
    Option RID → Prop
  | none => heap' = heap
  | some rid => rid.pageId ∈ pageIds ∧
      ∃ slots, Slots.insert (heap rid.pageId) tuple = some (rid.slotNum, slots) ∧
        heap' = Function.update heap rid.pageId slots

/-- A page without slots has room for every tuple of a legal size. -/
theorem insert_nil_isSome (hsize : tuple.length + 32 ≤ pageSize) :
    (Slots.insert [] tuple).isSome := by
  rw [Option.isSome_iff_ne_none, ne_eq, Slots.insert_eq_none_iff]
  have hfree : Slots.freeSpace [] = 4096 - 24 := rfl
  unfold pageSize at hsize
  omega

/-- The loop ends, for a tuple of a legal size, when it may go once through the rest
of the chain and over one new page. -/
theorem insertLoop_spec (hpos : 0 < tuple.length) (fuel : Nat)
    (h : HeapOk pool first (before ++ cur :: after) heap) :
    (insertLoop tuple fuel cur pool = .error .diverges ∧
        ¬ (tuple.length + 32 ≤ pageSize ∧ (after.length + 2 ≤ fuel ∨
          1 ≤ fuel ∧ (Slots.insert (heap cur) tuple).isSome))) ∨
      ∃ rid? pool' pageIds' heap', insertLoop tuple fuel cur pool = .ok (rid?, pool') ∧
        HeapOk pool' first pageIds' heap' ∧ Grown pool pool' (before ++ cur :: after) pageIds' ∧
        Stored heap heap' pageIds' tuple rid? := by
  induction fuel generalizing before cur after pool with
  | zero => exact Or.inl ⟨rfl, by omega⟩
  | succ fuel ih =>
      have hmem : cur ∈ before ++ cur :: after := by simp
      have hpage := h.represents cur hmem
      obtain ⟨hid, hnext⟩ := h.links.next
      unfold insertLoop
      cases hinsert : Slots.insert (heap cur) tuple with
      | some placed =>
          obtain ⟨i, slots⟩ := placed
          obtain ⟨page, hpageInsert, hpage', hlinks⟩ := hpage.insertTuple_of_some hpos hinsert
          obtain ⟨hfinal, hgrown⟩ := h.setPage hmem hpage' hlinks
          rw [hpageInsert, hid]
          exact Or.inr ⟨some ⟨cur, i⟩, _, _, _, rfl, hfinal, hgrown, hmem, slots, hinsert, rfl⟩
      | none =>
          rw [hpage.insertTuple_of_none hpos hinsert]
          dsimp only
          rw [hnext]
          cases after with
          | cons next rest =>
              have hne : next ≠ invalidPageId := by
                have hbound := (h.bounds next (by simp)).1
                rintro rfl
                exact absurd hbound (by decide)
              have hsplit : before ++ cur :: next :: rest = (before ++ [cur]) ++ next :: rest := by
                simp
              rw [hsplit] at h ⊢
              rw [List.headD_cons, if_pos hne]
              rcases ih h with ⟨hstop, hfew⟩ | hok
              · refine Or.inl ⟨hstop, ?_⟩
                rintro ⟨hsize, hfuel | ⟨-, hroom⟩⟩
                · rw [List.length_cons] at hfuel
                  exact hfew ⟨hsize, Or.inl (by omega)⟩
                · cases hroom
              · exact Or.inr hok
          | nil =>
              rw [List.headD_nil, if_neg (not_not.mpr rfl)]
              cases hnew : pool.newPage with
              | none => exact Or.inr ⟨none, _, _, _, rfl, h, Grown.refl _ _, rfl⟩
              | some created =>
                  obtain ⟨newPageId, pool'⟩ := created
                  obtain ⟨hlinked, hgrown⟩ := h.newPage hnew
                  have hsplit : before ++ [cur, newPageId] =
                      (before ++ [cur]) ++ newPageId :: [] := by simp
                  have hslots : heap newPageId = [] := by
                    refine h.outside newPageId fun hin => ?_
                    have hnodup := hlinked.nodup
                    rw [hsplit, List.nodup_append] at hnodup
                    exact hnodup.2.2 _ hin _ List.mem_cons_self rfl
                  rw [hsplit] at hlinked hgrown
                  dsimp only
                  rcases ih hlinked with ⟨hstop, hfew⟩ | ⟨rid?, final, ids, heap', hloop, hfinal,
                    hgrown', hstored⟩
                  · refine Or.inl ⟨hstop, ?_⟩
                    rintro ⟨hsize, hfuel | ⟨-, hroom⟩⟩
                    · rw [List.length_nil] at hfuel
                      rw [hslots] at hfew
                      exact hfew ⟨hsize, Or.inr ⟨by omega, insert_nil_isSome hsize⟩⟩
                    · cases hroom
                  · exact Or.inr ⟨rid?, final, ids, heap', hloop, hfinal, hgrown.trans hgrown',
                      hstored⟩

/-- `InsertTuple` of a heap: the tuple is in the slot of the record id and the
transaction knows of it, or the transaction is aborted. -/
theorem HeapOk.insertTuple_spec {table : TableHeap}
    (h : HeapOk pool table.firstPageId pageIds heap) (hpos : 0 < tuple.length) (txn : Transaction) :
    (table.insertTuple pool txn tuple = .error .diverges ∧ 2 ^ 32 ≤ tuple.length + 32) ∨
      ∃ rid? pool' txn' pageIds' heap',
        table.insertTuple pool txn tuple = .ok (rid?, pool', txn') ∧
        HeapOk pool' table.firstPageId pageIds' heap' ∧ Grown pool pool' pageIds pageIds' ∧
        Stored heap heap' pageIds' tuple rid? ∧
        txn' = match rid? with
          | none => { txn with state := .aborted }
          | some rid => { txn with tableWriteSet := txn.tableWriteSet ++
              [{ rid, wtype := .insert, tuple := [], table := table.oid }] } := by
  unfold insertTuple
  by_cases hlarge : toUInt32 (tuple.length + 32) > pageSize
  · rw [if_pos hlarge]
    exact Or.inr ⟨none, _, _, _, _, rfl, h, Grown.refl _ _, rfl, rfl⟩
  · rw [if_neg hlarge]
    have hlength := h.length_le
    obtain ⟨after, rfl⟩ : ∃ after, pageIds = table.firstPageId :: after := by
      have hhead := h.head
      cases pageIds with
      | nil => cases hhead
      | cons head after =>
          rw [List.head?_cons, Option.some.injEq] at hhead
          exact ⟨after, by rw [hhead]⟩
    rw [List.length_cons] at hlength
    have hstart : HeapOk pool table.firstPageId ([] ++ table.firstPageId :: after) heap := h
    rcases insertLoop_spec hpos (pool.nextPageId.toNat + 1) hstart with
      ⟨hstop, hfew⟩ | ⟨rid?, pool', ids, heap', hloop, hfinal, hgrown, hstored⟩
    · rw [hstop]
      refine Or.inl ⟨rfl, ?_⟩
      by_contra hsmall
      unfold toUInt32 at hlarge
      rw [Nat.mod_eq_of_lt (by omega)] at hlarge
      exact hfew ⟨by omega, Or.inl (by omega)⟩
    · rw [hloop]
      cases rid? with
      | none => exact Or.inr ⟨none, _, _, _, _, rfl, hfinal, hgrown, hstored, rfl⟩
      | some rid => exact Or.inr ⟨some rid, _, _, _, _, rfl, hfinal, hgrown, hstored, rfl⟩

/-! ## The other operations -/

theorem HeapOk.updateTuple_of_none (h : HeapOk pool first pageIds heap) (hpos : 0 < tuple.length)
    (hmem : rid.pageId ∈ pageIds)
    (hnone : Slots.update (heap rid.pageId) rid.slotNum tuple = none) (table : TableOid)
    (txn : Transaction) : updateTuple table pool txn tuple rid = .ok (false, pool, txn) := by
  unfold updateTuple
  rw [(h.represents _ hmem).updateTuple_of_none hpos hnone]

theorem HeapOk.updateTuple_of_some (h : HeapOk pool first pageIds heap) (hpos : 0 < tuple.length)
    (hmem : rid.pageId ∈ pageIds)
    (hsome : Slots.update (heap rid.pageId) rid.slotNum tuple = some (old, slots))
    (table : TableOid) (txn : Transaction) :
    ∃ pool', updateTuple table pool txn tuple rid = .ok (true, pool',
        if txn.state ≠ .aborted then { txn with tableWriteSet := txn.tableWriteSet ++
          [{ rid, wtype := .update, tuple := old, table }] } else txn) ∧
      HeapOk pool' first pageIds (Function.update heap rid.pageId slots) ∧
      Grown pool pool' pageIds pageIds := by
  obtain ⟨page, hupdate, hpage, hlinks⟩ :=
    (h.represents _ hmem).updateTuple_of_some hpos hsome
  obtain ⟨hfinal, hgrown⟩ := h.setPage hmem hpage hlinks
  refine ⟨_, ?_, hfinal, hgrown⟩
  unfold updateTuple
  rw [hupdate]
  dsimp only
  split <;> rfl

theorem HeapOk.markDelete_spec (h : HeapOk pool first pageIds heap) (hmem : rid.pageId ∈ pageIds)
    (table : TableOid) (txn : Transaction) :
    ∃ pool', markDelete table pool txn rid = (true, pool', { txn with
        tableWriteSet := txn.tableWriteSet ++ [{ rid, wtype := .delete, tuple := [], table }] }) ∧
      HeapOk pool' first pageIds (Function.update heap rid.pageId
        (Slots.markDelete (heap rid.pageId) rid.slotNum).2) ∧
      Grown pool pool' pageIds pageIds := by
  obtain ⟨-, hpage, hlinks⟩ := (h.represents _ hmem).markDelete_spec rid
  obtain ⟨hfinal, hgrown⟩ := h.setPage hmem hpage hlinks
  exact ⟨_, rfl, hfinal, hgrown⟩

theorem HeapOk.getTuple_eq (h : HeapOk pool first pageIds heap) (hmem : rid.pageId ∈ pageIds) :
    getTuple pool rid = Slots.getTuple (heap rid.pageId) rid.slotNum :=
  (h.represents _ hmem).getTuple_eq rid

/-- A table starts with one page without slots. -/
theorem create_heapOk {table : TableHeap} {oid : TableOid} (hnonneg : 0 ≤ pool.nextPageId)
    (hcreate : create pool oid = some (table, pool')) :
    table = { oid, firstPageId := pool.nextPageId } ∧
      HeapOk pool' table.firstPageId [table.firstPageId] fun _ => [] := by
  unfold create PagePool.newPage at hcreate
  split at hcreate
  · cases hcreate
  next pageId created hnew =>
    split at hnew
    next hlimit =>
      cases hnew
      cases hcreate
      have hlt : pool.nextPageId < 2 ^ 31 := lt_trans (Int.lt_succ _) hlimit
      refine ⟨rfl, rfl, List.nodup_singleton _, ?_, ⟨?_, ?_, trivial⟩, ?_, fun _ _ => rfl, hlimit⟩
      · intro pageId hmem
        rw [List.mem_singleton.mp hmem]
        exact ⟨hnonneg, Int.lt_succ _⟩
      · refine (congrArg getTablePageId (Function.update_self _ _ _)).trans ?_
        exact getTablePageId_init _ _ (le_trans (by decide) hnonneg) hlt
      · refine (congrArg getNextPageId (Function.update_self _ _ _)).trans ?_
        exact getNextPageId_init _ _ _
      · intro pageId hmem
        rw [List.mem_singleton.mp hmem]
        refine (congrArg (Represents · []) (Function.update_self _ _ _)).mpr ?_
        exact represents_init _ _ _
    · cases hnew

/-! ## The pages of a heap -/

theorem chainFrom_eq {ids : List PageId} (h : Links pool ids) (hvalid : invalidPageId ∉ ids)
    {fuel : Nat} (hfuel : ids.length ≤ fuel) :
    chainFrom pool fuel (ids.headD invalidPageId) = ids := by
  induction ids generalizing fuel with
  | nil => cases fuel <;> rfl
  | cons pageId rest ih =>
      obtain ⟨fuel, rfl⟩ : ∃ n, fuel = n + 1 :=
        ⟨fuel - 1, by rw [List.length_cons] at hfuel; omega⟩
      have hne : pageId ≠ invalidPageId := by
        rintro rfl
        exact hvalid List.mem_cons_self
      rw [List.headD_cons, chainFrom, if_neg hne, h.2.1]
      rw [ih h.2.2 (fun hmem => hvalid (List.mem_cons_of_mem _ hmem))
        (by rw [List.length_cons] at hfuel; omega)]

/-- The pages that an iterator visits are those of the chain. -/
theorem HeapOk.pageIds_eq {table : TableHeap}
    (h : HeapOk pool table.firstPageId pageIds heap) : table.pageIds pool = pageIds := by
  have hvalid : invalidPageId ∉ pageIds := fun hmem =>
    absurd (h.bounds _ hmem).1 (by decide)
  have hchain := chainFrom_eq h.links hvalid h.length_le
  have hhead : pageIds.headD invalidPageId = table.firstPageId := by
    rw [List.headD_eq_head?_getD, h.head]
    rfl
  rwa [hhead] at hchain

end BusTub.TableHeap
