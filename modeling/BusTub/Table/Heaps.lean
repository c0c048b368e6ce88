import BusTub.Concurrency.TransactionManager
import BusTub.Table.HeapCalls

/-! # Tables that share a pool

No two tables share a page. A call on one of them, whatever the record id, leaves all of
them in order, and no chain loses a page.
-/

namespace BusTub.TableHeap

open TablePage

/-- Each table has a chain of its own. -/
structure HeapsOk (pool : PagePool) (tables : Set TableHeap) (chains : TableHeap → List PageId)
    (heaps : TableHeap → PageId → List Slot) : Prop where
  heapOk : ∀ table ∈ tables, HeapOk pool table.firstPageId (chains table) (heaps table)
  apart : ∀ table ∈ tables, ∀ other ∈ tables, table ≠ other →
    ∀ pageId ∈ chains table, pageId ∉ chains other
  nonneg : 0 ≤ pool.nextPageId

/-- The tables stay in order, and their chains keep their pages. -/
def Keeps (tables : Set TableHeap) (pool pool' : PagePool) : Prop :=
  ∀ chains heaps, HeapsOk pool tables chains heaps →
    ∃ chains' heaps', HeapsOk pool' tables chains' heaps' ∧
      ∀ table ∈ tables, chains table ⊆ chains' table

/-- One page is written, and it stays a table page if it was one. -/
def Touches (pool pool' : PagePool) (pageId : PageId) : Prop :=
  ∃ page, pool' = pool.setPage pageId page ∧ ∀ slots, Represents (pool.pages pageId) slots →
    ∃ slots', Represents page slots' ∧ SameLinks (pool.pages pageId) page

variable {pool pool' pool'' : PagePool} {tables : Set TableHeap}
  {chains : TableHeap → List PageId} {heaps : TableHeap → PageId → List Slot}
  {table : TableHeap} {first : PageId} {pageIds : List PageId} {heap : PageId → List Slot}
  {pageId : PageId} {rid : RID} {tuple : Tuple} {txn txn' : Transaction}

theorem Keeps.refl (tables : Set TableHeap) (pool : PagePool) : Keeps tables pool pool :=
  fun chains heaps h => ⟨chains, heaps, h, fun _ _ => List.Subset.refl _⟩

theorem Keeps.trans (h : Keeps tables pool pool') (h' : Keeps tables pool' pool'') :
    Keeps tables pool pool'' := by
  intro chains heaps hheaps
  obtain ⟨chains', heaps', hheaps', hsubset⟩ := h chains heaps hheaps
  obtain ⟨chains'', heaps'', hheaps'', hsubset'⟩ := h' chains' heaps' hheaps'
  refine ⟨chains'', heaps'', hheaps'', ?_⟩
  intro table hmem
  exact List.Subset.trans (hsubset table hmem) (hsubset' table hmem)

/-- A chain whose pages are the same is as it was. -/
theorem HeapOk.frame (h : HeapOk pool first pageIds heap)
    (hle : pool.nextPageId ≤ pool'.nextPageId) (hlimit : pool'.nextPageId < 2 ^ 31)
    (hsame : ∀ pageId ∈ pageIds, pool'.pages pageId = pool.pages pageId) :
    HeapOk pool' first pageIds heap where
  head := h.head
  nodup := h.nodup
  bounds pageId hmem := ⟨(h.bounds pageId hmem).1, lt_of_lt_of_le (h.bounds pageId hmem).2 hle⟩
  links := by
    refine links_congr ?_ h.links
    intro pageId hmem
    rw [hsame pageId hmem]
    exact SameLinks.refl _
  represents pageId hmem := by
    rw [hsame pageId hmem]
    exact h.represents pageId hmem
  outside := h.outside
  limit := hlimit

/-- One table changes, and the others do not. -/
theorem HeapsOk.grown (h : HeapsOk pool tables chains heaps) (hmem : table ∈ tables)
    (hfinal : HeapOk pool' table.firstPageId pageIds heap)
    (hgrown : Grown pool pool' (chains table) pageIds) :
    HeapsOk pool' tables (Function.update chains table pageIds)
      (Function.update heaps table heap) := by
  have hother : ∀ other ∈ tables, other ≠ table → ∀ pageId ∈ chains other,
      pageId < pool.nextPageId ∧ pageId ∉ chains table ∧ pageId ∉ pageIds := by
    intro other hin hne pageId hpage
    have hlt := ((h.heapOk other hin).bounds pageId hpage).2
    have hnot := h.apart other hin table hmem hne pageId hpage
    refine ⟨hlt, hnot, ?_⟩
    intro hnew
    rcases hgrown.fresh pageId hnew with hold | hle
    · exact hnot hold
    · exact absurd hlt (not_lt.mpr hle)
  constructor
  case nonneg => exact le_trans h.nonneg hgrown.le
  case heapOk =>
    intro other hin
    by_cases heq : other = table
    · subst heq
      rw [Function.update_self, Function.update_self]
      exact hfinal
    · rw [Function.update_of_ne heq, Function.update_of_ne heq]
      refine (h.heapOk other hin).frame hgrown.le hfinal.limit ?_
      intro pageId hpage
      obtain ⟨hlt, hnot, -⟩ := hother other hin heq pageId hpage
      exact hgrown.frame pageId hlt hnot
  case apart =>
    intro one hone two htwo hne pageId hpage
    by_cases heq : one = table
    · subst heq
      rw [Function.update_self] at hpage
      rw [Function.update_of_ne hne.symm]
      intro hin
      exact (hother two htwo hne.symm pageId hin).2.2 hpage
    · rw [Function.update_of_ne heq] at hpage
      by_cases heq' : two = table
      · subst heq'
        rw [Function.update_self]
        exact (hother one hone heq pageId hpage).2.2
      · rw [Function.update_of_ne heq']
        exact h.apart one hone two htwo hne pageId hpage

/-- Writing a page of no chain changes nothing. -/
theorem HeapOk.setPage_of_not_mem (h : HeapOk pool first pageIds heap) (hnot : pageId ∉ pageIds)
    (page : Memory) : HeapOk (pool.setPage pageId page) first pageIds heap := by
  refine h.frame (le_refl _) h.limit ?_
  intro other hmem
  have hne : other ≠ pageId := by
    rintro rfl
    exact hnot hmem
  exact Function.update_of_ne hne _ _

theorem Touches.keeps (h : Touches pool pool' pageId) (tables : Set TableHeap) :
    Keeps tables pool pool' := by
  obtain ⟨page, rfl, hpage⟩ := h
  intro chains heaps hheaps
  by_cases hin : ∃ table ∈ tables, pageId ∈ chains table
  · obtain ⟨table, hmem, hchain⟩ := hin
    have hheap := hheaps.heapOk table hmem
    obtain ⟨slots', hslots, hlinks⟩ := hpage _ (hheap.represents pageId hchain)
    obtain ⟨hfinal, hgrown⟩ := hheap.setPage hchain hslots hlinks
    refine ⟨_, _, hheaps.grown hmem hfinal hgrown, ?_⟩
    intro other _
    by_cases heq : other = table
    · rw [heq, Function.update_self]
      exact List.Subset.refl _
    · rw [Function.update_of_ne heq]
      exact List.Subset.refl _
  · refine ⟨chains, heaps, ⟨?_, hheaps.apart, hheaps.nonneg⟩, fun _ _ => List.Subset.refl _⟩
    intro table hmem
    exact (hheaps.heapOk table hmem).setPage_of_not_mem (fun hchain => hin ⟨table, hmem, hchain⟩) _

/-! ## Calls -/

theorem insertTuple_keeps {rid? : Option RID} (hmem : table ∈ tables)
    (hinsert : table.insertTuple pool txn tuple = .ok (rid?, pool', txn')) :
    Keeps tables pool pool' := by
  intro chains heaps hheaps
  have hpos : 0 < tuple.length := by
    rw [List.length_pos_iff]
    rintro rfl
    rw [insertTuple_nil] at hinsert
    cases hinsert
  rcases (hheaps.heapOk table hmem).insertTuple_spec hpos txn with ⟨hstop, -⟩ |
    ⟨rid?', pool'', txn'', pageIds', heap', hok, hfinal, hgrown, -, -⟩
  · rw [hstop] at hinsert
    cases hinsert
  · rw [hok] at hinsert
    cases hinsert
    refine ⟨_, _, hheaps.grown hmem hfinal hgrown, ?_⟩
    intro other _
    by_cases heq : other = table
    · rw [heq, Function.update_self]
      exact hgrown.isPrefix.subset
    · rw [Function.update_of_ne heq]
      exact List.Subset.refl _

theorem markDelete_touches {oid : TableOid} {isMarked : Bool}
    (hmark : markDelete oid pool txn rid = (isMarked, pool', txn')) :
    Touches pool pool' rid.pageId := by
  cases hmark
  refine ⟨_, rfl, ?_⟩
  intro slots hslots
  obtain ⟨-, hpage, hlinks⟩ := hslots.markDelete_spec rid
  exact ⟨_, hpage, hlinks⟩

theorem updateTuple_touches {oid : TableOid} {isUpdated : Bool}
    (hupdate : updateTuple oid pool txn tuple rid = .ok (isUpdated, pool', txn')) :
    pool' = pool ∨ Touches pool pool' rid.pageId := by
  unfold updateTuple at hupdate
  cases hpage : TablePage.updateTuple (pool.pages rid.pageId) tuple rid with
  | error fault =>
      rw [hpage] at hupdate
      cases hupdate
  | ok replaced =>
      rw [hpage] at hupdate
      cases replaced with
      | none =>
          cases hupdate
          exact Or.inl rfl
      | some replaced =>
          obtain ⟨old, page⟩ := replaced
          have hpos : 0 < tuple.length := by
            rw [List.length_pos_iff]
            rintro rfl
            cases hpage
          have htouches : Touches pool (pool.setPage rid.pageId page) rid.pageId := by
            refine ⟨page, rfl, ?_⟩
            intro slots hslots
            cases hslot : Slots.update slots rid.slotNum tuple with
            | none =>
                rw [hslots.updateTuple_of_none hpos hslot] at hpage
                cases hpage
            | some replaced =>
                obtain ⟨page', hok, hfinal, hlinks⟩ := hslots.updateTuple_of_some hpos hslot
                rw [hok] at hpage
                cases hpage
                exact ⟨_, hfinal, hlinks⟩
          dsimp only at hupdate
          split at hupdate
          · cases hupdate
            exact Or.inr htouches
          · cases hupdate
            exact Or.inr htouches

theorem updateTuple_keeps {oid : TableOid} {isUpdated : Bool}
    (hupdate : updateTuple oid pool txn tuple rid = .ok (isUpdated, pool', txn'))
    (tables : Set TableHeap) : Keeps tables pool pool' := by
  rcases updateTuple_touches hupdate with rfl | htouches
  · exact Keeps.refl tables pool'
  · exact htouches.keeps tables

theorem applyDelete_touches (happly : applyDelete pool rid = .ok pool') :
    Touches pool pool' rid.pageId := by
  unfold applyDelete at happly
  cases hpage : TablePage.applyDelete (pool.pages rid.pageId) rid with
  | error fault =>
      rw [hpage] at happly
      cases happly
  | ok page =>
      rw [hpage] at happly
      cases happly
      refine ⟨page, rfl, ?_⟩
      intro slots hslots
      cases hslot : Slots.applyDelete slots rid.slotNum with
      | error fault =>
          rw [hslots.applyDelete_of_error hslot] at hpage
          cases hpage
      | ok slots' =>
          obtain ⟨page', hok, hfinal, hlinks⟩ := hslots.applyDelete_of_ok hslot
          rw [hok] at hpage
          cases hpage
          exact ⟨_, hfinal, hlinks⟩

theorem rollbackDelete_touches (hrollback : rollbackDelete pool rid = .ok pool') :
    Touches pool pool' rid.pageId := by
  unfold rollbackDelete at hrollback
  cases hpage : TablePage.rollbackDelete (pool.pages rid.pageId) rid with
  | error fault =>
      rw [hpage] at hrollback
      cases hrollback
  | ok page =>
      rw [hpage] at hrollback
      cases hrollback
      refine ⟨page, rfl, ?_⟩
      intro slots hslots
      cases hslot : Slots.rollbackDelete slots rid.slotNum with
      | error fault =>
          rw [hslots.rollbackDelete_of_error hslot] at hpage
          cases hpage
      | ok slots' =>
          obtain ⟨page', hok, hfinal, hlinks⟩ := hslots.rollbackDelete_of_ok hslot
          rw [hok] at hpage
          cases hpage
          exact ⟨_, hfinal, hlinks⟩

/-! ## The ends of transactions -/

open TransactionManager

theorem applyDeletes_keeps {records : List TableWriteRecord}
    (happly : applyDeletes records pool = .ok pool') (tables : Set TableHeap) :
    Keeps tables pool pool' := by
  induction records generalizing pool with
  | nil =>
      cases happly
      exact Keeps.refl _ _
  | cons item rest ih =>
      unfold applyDeletes at happly
      split at happly
      · split at happly
        · cases happly
        next middle hmiddle => exact ((applyDelete_touches hmiddle).keeps tables).trans (ih happly)
      · exact ih happly

theorem commit_keeps (hcommit : commit pool txn = .ok (pool', txn')) (tables : Set TableHeap) :
    Keeps tables pool pool' := by
  unfold commit at hcommit
  split at hcommit
  · cases hcommit
  next final happly =>
    cases hcommit
    exact applyDeletes_keeps happly tables

theorem undoWrite_keeps {item : TableWriteRecord}
    (hundo : undoWrite pool txn item = .ok (pool', txn')) (tables : Set TableHeap) :
    Keeps tables pool pool' := by
  unfold undoWrite at hundo
  split at hundo
  · split at hundo
    · cases hundo
    next middle hmiddle =>
      cases hundo
      exact (rollbackDelete_touches hmiddle).keeps tables
  · split at hundo
    · cases hundo
    next middle hmiddle =>
      cases hundo
      exact (applyDelete_touches hmiddle).keeps tables
  · split at hundo
    · cases hundo
    next isUpdated middle txn'' hmiddle =>
      cases hundo
      exact updateTuple_keeps hmiddle tables

theorem undoWrites_keeps {records : List TableWriteRecord}
    (hundo : undoWrites records pool txn = .ok (pool', txn')) (tables : Set TableHeap) :
    Keeps tables pool pool' := by
  induction records generalizing pool txn with
  | nil =>
      cases hundo
      exact Keeps.refl _ _
  | cons item rest ih =>
      unfold undoWrites at hundo
      split at hundo
      · cases hundo
      next middle txn'' hmiddle => exact (undoWrite_keeps hmiddle tables).trans (ih hundo)

theorem abort_keeps {catalog catalog' : Catalog}
    (habort : abort pool catalog txn = .ok (pool', catalog', txn')) (tables : Set TableHeap) :
    Keeps tables pool pool' := by
  unfold abort at habort
  split at habort
  · cases habort
  next final txn'' hundo =>
    split at habort
    · cases habort
    · cases habort
      exact undoWrites_keeps hundo tables

/-! ## New tables -/

/-- A new table writes the next page only. -/
theorem create_frame {oid : TableOid} (hcreate : create pool oid = some (table, pool')) :
    pool.nextPageId ≤ pool'.nextPageId ∧
      ∀ pageId, pageId < pool.nextPageId → pool'.pages pageId = pool.pages pageId := by
  unfold create PagePool.newPage at hcreate
  split at hcreate
  · cases hcreate
  next firstPageId created hnew =>
    split at hnew
    · cases hnew
      cases hcreate
      refine ⟨le_of_lt (Int.lt_succ _), ?_⟩
      intro pageId hlt
      have hne := ne_of_lt hlt
      exact (Function.update_of_ne hne _ _).trans (Function.update_of_ne hne _ _)
    · cases hnew

/-- A new table takes a page that no chain has. -/
theorem HeapsOk.create {oid : TableOid} (h : HeapsOk pool tables chains heaps)
    (hcreate : create pool oid = some (table, pool')) :
    table ∉ tables ∧ HeapsOk pool' (insert table tables)
      (Function.update chains table [table.firstPageId])
      (Function.update heaps table fun _ => []) := by
  obtain ⟨htable, hnew⟩ := create_heapOk h.nonneg hcreate
  obtain ⟨hle, hframe⟩ := create_frame hcreate
  have hfirst : table.firstPageId = pool.nextPageId := by rw [htable]
  have hbelow : ∀ other ∈ tables, ∀ pageId ∈ chains other, pageId < pool.nextPageId :=
    fun other hmem pageId hpage => ((h.heapOk other hmem).bounds pageId hpage).2
  have hfresh : table ∉ tables := by
    intro hmem
    have hhead := (h.heapOk table hmem).head
    have hlt := hbelow table hmem _ (List.mem_of_mem_head? hhead)
    rw [hfirst] at hlt
    exact lt_irrefl _ hlt
  have hne : ∀ other ∈ tables, other ≠ table := by
    rintro other hmem rfl
    exact hfresh hmem
  refine ⟨hfresh, ?_⟩
  constructor
  case nonneg => exact le_trans h.nonneg hle
  case heapOk =>
    rintro other (rfl | hmem)
    · rw [Function.update_self, Function.update_self]
      exact hnew
    · rw [Function.update_of_ne (hne other hmem), Function.update_of_ne (hne other hmem)]
      refine (h.heapOk other hmem).frame hle hnew.limit ?_
      exact fun pageId hpage => hframe pageId (hbelow other hmem pageId hpage)
  case apart =>
    rintro one (rfl | hone) two (rfl | htwo) hdiff pageId hpage
    · exact absurd rfl hdiff
    · rw [Function.update_self, List.mem_singleton] at hpage
      rw [Function.update_of_ne (hne two htwo)]
      intro hin
      have hlt := hbelow two htwo pageId hin
      rw [hpage, hfirst] at hlt
      exact lt_irrefl _ hlt
    · rw [Function.update_of_ne (hne one hone)] at hpage
      rw [Function.update_self, List.mem_singleton]
      rintro rfl
      have hlt := hbelow one hone _ hpage
      rw [hfirst] at hlt
      exact lt_irrefl _ hlt
    · rw [Function.update_of_ne (hne one hone)] at hpage
      rw [Function.update_of_ne (hne two htwo)]
      exact h.apart one hone two htwo hdiff pageId hpage

end BusTub.TableHeap
