import BusTub.Concurrency.CommitDeletes
import BusTub.Execution.Scripts
import BusTub.Execution.UncommittedReads

/-! # Indexes and tables

While a transaction runs alone, every index follows its table from one call to the next.
`Commit` only removes tuples that no reader sees. `Abort` brings the tuples back but not
the entries of the indexes, since no executor records what it does to an index.
-/

namespace BusTub

open TableHeap

namespace Executor

/-- The indexes that the executor has fetched, if it has. -/
def indexInfoArray : Executor → Option (List IndexOid)
  | .seqScan _ => none
  | .insert exec => some exec.indexInfoArray
  | .delete exec => some exec.indexInfoArray
  | .update exec => some exec.indexInfoArray

/-- The table of the executor exists, and the indexes are all of those on it. -/
structure Current (catalog : Catalog) (executor : Executor) : Prop where
  table : ∃ oid, catalog.tables oid = some executor.tableInfo
  lists : ∀ array, executor.indexInfoArray = some array →
    catalog.Lists executor.tableInfo.name array

variable {catalog : Catalog} {pool : PagePool} {plan : Plan} {executor executor' : Executor}
  {ctx ctx' : ExecutorContext} {child row : Option (Tuple × RID)}

theorem create_current (hwf : catalog.WellFormed)
    (hcreate : create pool catalog plan = .ok executor) : executor.Current catalog := by
  refine ⟨Database.create_tableInfo hcreate, ?_⟩
  intro array harray
  cases plan with
  | seqScan plan =>
      simp only [create] at hcreate
      split at hcreate
      · cases hcreate
      · split at hcreate
        · cases hcreate
        · cases hcreate
          cases harray
  | insert plan =>
      simp only [create, InsertExecutor.new] at hcreate
      cases hfound : catalog.fetchTable plan.tableOid with
      | error fault =>
          rw [hfound] at hcreate
          cases hcreate
      | ok found =>
          rw [hfound] at hcreate
          cases hcreate
          cases harray
          exact (hwf.fetchTable hfound).2
  | delete tableOid =>
      simp only [create, DeleteExecutor.new] at hcreate
      cases hfound : catalog.fetchTable tableOid with
      | error fault =>
          rw [hfound] at hcreate
          cases hcreate
      | ok found =>
          rw [hfound] at hcreate
          cases hcreate
          cases harray
          exact (hwf.fetchTable hfound).2
  | update plan =>
      simp only [create, UpdateExecutor.new] at hcreate
      cases hfound : catalog.fetchTable plan.tableOid with
      | error fault =>
          rw [hfound] at hcreate
          cases hcreate
      | ok found =>
          rw [hfound] at hcreate
          cases hcreate
          cases harray
          exact (hwf.fetchTable hfound).2

variable [DoubleText] [ValueArithmetic]

/-- The indexes of a statement are those that it was opened with. -/
theorem next_indexInfoArray (hnext : executor.next ctx child = .ok (row, executor', ctx')) :
    executor'.indexInfoArray = executor.indexInfoArray := by
  cases executor with
  | seqScan exec =>
      simp only [next] at hnext
      split at hnext
      · cases hnext
      · cases hnext
        rfl
  | insert exec =>
      simp only [next] at hnext
      split at hnext
      · cases hnext
      next output exec' ctx'' hinsert =>
        cases hnext
        unfold InsertExecutor.next at hinsert
        split at hinsert
        · cases hinsert
        -- no tuple is left to insert
        next exec'' htuple =>
          cases hinsert
          exact congrArg some (nextTuple_tableInfo htuple).2
        next tuple exec'' htuple =>
          have harray := congrArg some (nextTuple_tableInfo htuple).2
          split at hinsert
          · cases hinsert
          · cases hinsert
            exact harray
          · split at hinsert
            · cases hinsert
            · cases hinsert
              exact harray
  | delete exec =>
      simp only [next] at hnext
      split at hnext
      · cases hnext
      · cases hnext
        rfl
  | update exec =>
      simp only [next] at hnext
      split at hnext
      · cases hnext
      · cases hnext
        rfl

end Executor

namespace Catalog

theorem SameNames.refl (catalog : Catalog) : SameNames catalog catalog := by
  refine ⟨.refl _, rfl, rfl, ?_⟩
  intro i
  cases catalog.indexes i with
  | none => exact ⟨∅, rfl⟩
  | some info => exact ⟨info.index.pairs, rfl⟩

theorem SameNames.trans {first second third : Catalog} (h : SameNames first second)
    (h' : SameNames second third) : SameNames first third := by
  refine ⟨h.toSameTables.trans h'.toSameTables, h'.indexNames.trans h.indexNames,
    h'.nextIndexOid.trans h.nextIndexOid, ?_⟩
  intro i
  obtain ⟨pairs, hpairs⟩ := h.indexes i
  obtain ⟨pairs', hpairs'⟩ := h'.indexes i
  refine ⟨pairs', ?_⟩
  rw [hpairs', hpairs, Option.map_map]
  rfl

theorem SameTables.heaps_eq {catalog catalog' : Catalog} (h : SameTables catalog catalog') :
    catalog'.heaps = catalog.heaps := by
  unfold heaps
  rw [h.tables]

end Catalog

namespace Database

/-! ## Calls of a transaction that runs alone -/

/-- A call of a statement that the transaction has opened, or that opens one. -/
def InTransaction (txnId : TxnId) (first : Nat) : Request → Prop
  | .openStatement id _ => id = txnId
  | .next k _ => first ≤ k
  | _ => False

/-- The tables and indexes while a transaction runs alone. -/
structure Running (start : Database) (txnId : TxnId) (chains : TableHeap → List PageId)
    (heap : PageId → List Slot) (db : Database) : Prop where
  shared : Shared db.pool start.catalog.heaps chains heap
  names : Catalog.SameNames start.catalog db.catalog
  consistent : db.IndexesConsistent
  statements : ∀ k statement, start.statements.length ≤ k → db.statements[k]? = some statement →
    statement.txnId = txnId ∧ statement.executor.Current start.catalog
  indexWriteSet : (db.transactions txnId).indexWriteSet = []
  marked : ∀ rid ∈ deletedRids (db.transactions txnId).tableWriteSet,
    ∃ data, slotAt heap rid = .full true data

/-- The next state of a transaction, and how its new write records are undone. -/
def Advances (start : Database) (txnId : TxnId) (chains : TableHeap → List PageId)
    (heap : PageId → List Slot) (db db' : Database) (fits : PagePool → Prop) : Prop :=
  ∃ chains' heap' records, Running start txnId chains' heap' db' ∧
    (∀ table ∈ start.catalog.heaps, chains table ⊆ chains' table) ∧
    (db'.transactions txnId).tableWriteSet = (db.transactions txnId).tableWriteSet ++ records ∧
    ∀ aborting counts, fits aborting →
      (∀ pageId ∈ chainPages start.catalog.heaps chains',
        TablePage.getTupleCount (aborting.pages pageId) = counts pageId) →
      ∀ view pages, Pagewise view pages → Undoes view records counts heap heap'

variable {start db db' : Database} {txnId : TxnId} {chains : TableHeap → List PageId}
  {heap : PageId → List Slot} {request : Request} {row : Option (Tuple × RID)}
  {tableInfo : TableInfo} {oid : TableOid} {pool' : PagePool} {catalog' : Catalog}
  {txn' : Transaction} {call : HeapCall} {result : HeapResult} {statements' : List Statement}

/-- A call that does not write. -/
theorem Running.advances_of_same (h' : Running start txnId chains heap db')
    (hsame : (db'.transactions txnId).tableWriteSet = (db.transactions txnId).tableWriteSet)
    (fits : PagePool → Prop) : Advances start txnId chains heap db db' fits := by
  refine ⟨chains, heap, [], h', fun _ _ => List.Subset.refl _, ?_, ?_⟩
  · rw [hsame, List.append_nil]
  · intro aborting counts _ _ view pages _
    exact undoes_nil view counts heap

/-- A reader of a table sees the tuple of a live slot on its chain. -/
theorem Running.slot_of_visible (h : Running start txnId chains heap db)
    (hinfo : start.catalog.tables oid = some tableInfo) {rid : RID} {tuple : Tuple}
    (hvisible : tableInfo.table.visible db.pool rid = some tuple) :
    rid.pageId ∈ tableInfo.table.pageIds db.pool ∧ slotAt heap rid = .full false tuple := by
  have hmem : tableInfo.table ∈ start.catalog.heaps := ⟨oid, tableInfo, hinfo, rfl⟩
  have hheap := h.shared.heapOk hmem
  rw [h.shared.visible_eq hmem] at hvisible
  rw [hheap.pageIds_eq]
  by_cases hpage : rid.pageId ∈ chains tableInfo.table
  · refine ⟨hpage, ?_⟩
    rw [slotAt_restrict_of_mem hpage] at hvisible
    cases hslot : slotAt heap rid with
    | empty =>
        rw [hslot] at hvisible
        cases hvisible
    | full deleted data =>
        rw [hslot] at hvisible
        cases deleted with
        | true => cases hvisible
        | false =>
            cases hvisible
            rfl
  · rw [slotAt_restrict_of_not_mem hpage] at hvisible
    cases hvisible

/-- A call of a heap whose indexes keep up. -/
theorem Running.advances_of_call (h : Running start txnId chains heap db)
    (hinfo : start.catalog.tables oid = some tableInfo)
    (hon : tableInfo.table.OnPages (db.pool, db.transactions txnId) call)
    (hlive : ∀ rid, call = .markDelete rid → ∃ data, slotAt heap rid = .full false data)
    (hcall : tableInfo.table.call (db.pool, db.transactions txnId) call =
      .ok (result, pool', txn'))
    (hcatalog : Shows (tableInfo.table.visible db.pool) (tableInfo.table.visible pool') call result →
      (∀ other ∈ db.catalog.heaps, other ≠ tableInfo.table →
        other.visible pool' = other.visible db.pool) →
      Catalog.SameNames db.catalog catalog' ∧
        catalog'.Mirrored fun table => table.visible pool')
    (hdb : db' = { db with
      pool := pool'
      catalog := catalog'
      transactions := Function.update db.transactions txnId txn'
      statements := statements' })
    (hstatements : ∀ k statement, start.statements.length ≤ k →
      statements'[k]? = some statement →
      statement.txnId = txnId ∧ statement.executor.Current start.catalog) :
    Advances start txnId chains heap db db' fun aborting =>
      LeavesRoom aborting (db.pool, db.transactions txnId) call := by
  have hmem : tableInfo.table ∈ start.catalog.heaps := ⟨oid, tableInfo, hinfo, rfl⟩
  obtain ⟨chains', heap', hshared, hsubset, heffect, hshows, hothers⟩ :=
    h.shared.call_spec hmem hon hcall
  have hpositive : ∀ rid deleted data, slotAt heap rid = .full deleted data → 0 < data.length :=
    fun rid deleted data hfull =>
      (Shared.pagewise start.catalog.heaps chains).data_pos h.shared hfull
  obtain ⟨records, hwrites, hundo⟩ := undo_step heffect hpositive hlive
  obtain ⟨records', hwrites', hdeletes⟩ := heffect.writeSet
  have hrecords : records' = records :=
    List.append_cancel_left (hwrites'.symm.trans hwrites)
  subst hrecords
  have hothersNow : ∀ other ∈ db.catalog.heaps, other ≠ tableInfo.table →
      other.visible pool' = other.visible db.pool := by
    rw [h.names.heaps_eq]
    exact hothers
  obtain ⟨hnames, hmirrored⟩ := hcatalog hshows hothersNow
  subst hdb
  refine ⟨chains', heap', records', ?_, hsubset, ?_, ?_⟩
  · constructor
    case shared => exact hshared
    case names => exact h.names.trans hnames
    case consistent => exact hmirrored
    case statements => exact hstatements
    -- no executor records what it does to an index
    case indexWriteSet =>
      dsimp only
      rw [Function.update_self, heffect.indexWriteSet]
      exact h.indexWriteSet
    case marked =>
      intro rid hrid
      dsimp only at hrid
      rw [Function.update_self, hwrites, deletedRids_append, List.mem_append] at hrid
      -- a tuple marked before stays marked, the one marked now was live
      rcases hrid with hold | hnew
      · obtain ⟨data, hmarked⟩ := h.marked rid hold
        exact ⟨data, heffect.stays_marked hmarked⟩
      · rw [hdeletes] at hnew
        cases call with
        | insertTuple tuple => cases hnew
        | updateTuple tuple other => cases hnew
        | markDelete other =>
            rw [deleteRequest, List.mem_singleton] at hnew
            subst hnew
            obtain ⟨data, hslot⟩ := hlive rid rfl
            cases heffect with
            | @marked _ data' hslot' =>
                refine ⟨data', ?_⟩
                rw [slotAt_set (slotAt_lt hslot'), if_pos rfl]
            | unmarked hdead => exact absurd hslot (hdead data)
  · dsimp only
    rw [Function.update_self, hwrites]
  · intro aborting counts hroom hcounts view pages hview
    refine hundo counts ?_ view pages hview
    have hcountsHere : ∀ pageId ∈ chains tableInfo.table,
        TablePage.getTupleCount (aborting.pages pageId) = counts pageId :=
      fun pageId hpage => hcounts pageId ⟨tableInfo.table, hmem, hsubset _ hmem hpage⟩
    have hlocal := (h.shared.heapOk hmem).roomFor hon hroom hcountsHere
    cases call with
    | insertTuple tuple => trivial
    | markDelete rid => trivial
    | updateTuple tuple rid =>
        have hpage : rid.pageId ∈ chains tableInfo.table :=
          (h.shared.heapOk hmem).pageIds_eq ▸ hon
        dsimp only [RoomFor] at hlocal ⊢
        rwa [restrict_of_mem hpage] at hlocal

theorem Advances.mono {fits weaker : PagePool → Prop}
    (h : Advances start txnId chains heap db db' fits)
    (himp : ∀ aborting, weaker aborting → fits aborting) :
    Advances start txnId chains heap db db' weaker := by
  obtain ⟨chains', heap', records, hrunning, hsubset, hwrites, hundo⟩ := h
  refine ⟨chains', heap', records, hrunning, hsubset, hwrites, ?_⟩
  intro aborting counts hfits
  exact hundo aborting counts (himp aborting hfits)

/-- The statement that is set stands for the same transaction, on the same table. -/
theorem Running.statements_set {k : Nat} {executor executor' : Executor}
    (h : Running start txnId chains heap db)
    (hstatement : db.statements[k]? = some { txnId, executor })
    (hcurrent : executor'.Current start.catalog) :
    ∀ i statement, start.statements.length ≤ i →
      (db.statements.set k { txnId, executor := executor' })[i]? = some statement →
      statement.txnId = txnId ∧ statement.executor.Current start.catalog := by
  intro i statement hle hi
  by_cases heq : k = i
  · subst heq
    have hlt := (List.getElem?_eq_some_iff.mp hstatement).1
    rw [List.getElem?_set_self hlt, Option.some.injEq] at hi
    subst hi
    exact ⟨rfl, hcurrent⟩
  · rw [List.getElem?_set_ne heq] at hi
    exact h.statements i statement hle hi

/-- A statement that leaves its context as it was. -/
theorem Running.of_context (h : Running start txnId chains heap db)
    (hstatements : ∀ k statement, start.statements.length ≤ k →
      statements'[k]? = some statement →
      statement.txnId = txnId ∧ statement.executor.Current start.catalog)
    (hdb : db' = { db.setContext txnId (db.context txnId) with statements := statements' })
    (fits : PagePool → Prop) : Advances start txnId chains heap db db' fits := by
  have hself : Function.update db.transactions txnId (db.transactions txnId) =
      db.transactions := Function.update_eq_self txnId db.transactions
  have htransactions : db'.transactions = db.transactions := by
    rw [hdb]
    exact hself
  refine Running.advances_of_same ?_ (by rw [htransactions]) _
  constructor
  case shared =>
    rw [hdb]
    exact h.shared
  case names =>
    rw [hdb]
    exact h.names
  case consistent =>
    rw [hdb]
    exact h.consistent
  case statements =>
    rw [hdb]
    exact hstatements
  case indexWriteSet =>
    rw [htransactions]
    exact h.indexWriteSet
  case marked =>
    rw [htransactions]
    exact h.marked

/-- The indexes stay as they are when no reader of the table sees a change. -/
theorem Running.mirrored_of_same {table : TableHeap} (h : Running start txnId chains heap db)
    (hsame : ∀ rid, table.visible pool' rid = table.visible db.pool rid)
    (hothers : ∀ other ∈ db.catalog.heaps, other ≠ table →
      other.visible pool' = other.visible db.pool) :
    Catalog.SameNames db.catalog db.catalog ∧
      db.catalog.Mirrored fun table => table.visible pool' := by
  refine ⟨.refl _, Catalog.Mirrored.of_rows h.consistent ?_⟩
  intro other hmem
  by_cases heq : other = table
  · rw [heq]
    exact funext hsame
  · exact hothers other hmem heq

/-- The indexes of a table follow it when each of them is changed as the table is. -/
theorem Running.mirrored_of_indexes {change : IndexInfo → Except EvalFault IndexInfo}
    {indexOids : List IndexOid} (h : Running start txnId chains heap db)
    (hwf : start.catalog.WellFormed) (hinfo : start.catalog.tables oid = some tableInfo)
    (hlists : start.catalog.Lists tableInfo.name indexOids)
    (hkeeps : Catalog.KeepsUp change tableInfo.schema (tableInfo.table.visible db.pool)
      (tableInfo.table.visible pool'))
    (hchange : Catalog.forIndexes change indexOids db.catalog = .ok catalog')
    (hothers : ∀ other ∈ db.catalog.heaps, other ≠ tableInfo.table →
      other.visible pool' = other.visible db.pool) :
    Catalog.SameNames db.catalog catalog' ∧
      catalog'.Mirrored fun table => table.visible pool' := by
  have hinfoNow : db.catalog.tables oid = some tableInfo := by
    rw [h.names.tables]
    exact hinfo
  have hlistsNow := h.names.lists hlists
  exact ⟨Catalog.forIndexes_sameNames hlistsNow.1 hkeeps hchange,
    Catalog.Mirrored.forIndexes h.consistent (h.names.wellFormed hwf) hinfoNow hlistsNow hkeeps
      hothers hchange⟩

variable [DoubleText] [ValueArithmetic]

/-- What a statement of the transaction does. -/
theorem Running.next {k : Nat} {executor executor' : Executor} {ctx' : ExecutorContext}
    {child : Option (Tuple × RID)} (hwf : start.catalog.WellFormed)
    (h : Running start txnId chains heap db) (hfirst : start.statements.length ≤ k)
    (hstatement : db.statements[k]? = some { txnId, executor })
    (hrow : WholeRow db (.next k child))
    (hnext : executor.next (db.context txnId) child = .ok (row, executor', ctx'))
    (hdb : db' = { db.setContext txnId ctx' with
      statements := db.statements.set k { txnId, executor := executor' } }) :
    Advances start txnId chains heap db db' fun aborting =>
      UndoFits aborting db (.next k child) := by
  have hcurrent : executor.Current start.catalog := (h.statements k _ hfirst hstatement).2
  have hdoes := Executor.does_of_next hnext
  have hcurrent' : executor'.Current start.catalog := by
    refine ⟨?_, ?_⟩
    · rw [hdoes.tableInfo_eq]
      exact hcurrent.table
    · rw [hdoes.tableInfo_eq, Executor.next_indexInfoArray hnext]
      exact hcurrent.lists
  have hstatements := h.statements_set hstatement hcurrent'
  obtain ⟨oid, hinfo⟩ := hcurrent.table
  cases hdoes with
  | scanned hscan => exact h.of_context hstatements hdb _
  | idle hinfo' hscan => exact h.of_context hstatements hdb _
  -- the tuple is too long for a page, or there is no new page for it
  | @rejected exec _ tuple bpm transaction hinfo' hinsert =>
      have hcall := call_of_insertTuple hinsert
      refine (h.advances_of_call hinfo ?_ ?_ hcall ?_ hdb hstatements).mono fun _ _ => trivial
      · trivial
      · intro rid hmark
        cases hmark
      · exact fun hshows hothers => h.mirrored_of_same hshows hothers
  | @inserted exec _ tuple rid bpm transaction catalog hinfo' hinsert hindexes =>
      have hcall := call_of_insertTuple hinsert
      refine (h.advances_of_call hinfo ?_ ?_ hcall ?_ hdb hstatements).mono fun _ _ => trivial
      · trivial
      · intro rid hmark
        cases hmark
      · intro hshows hothers
        exact h.mirrored_of_indexes hwf hinfo (hcurrent.lists _ rfl)
          (InsertExecutor.insertEntry_keepsUp hshows) hindexes hothers
  | @deleted exec tuple rid bpm transaction catalog hchild hmark hindexes =>
      subst hchild
      have hvisible := hrow.of_delete hstatement
      obtain ⟨hpage, hslot⟩ := h.slot_of_visible hinfo hvisible
      have hcall := call_of_markDelete hmark
      refine (h.advances_of_call hinfo ?_ ?_ hcall ?_ hdb hstatements).mono fun _ _ => trivial
      · exact hpage
      · intro other heq
        cases heq
        exact ⟨tuple, hslot⟩
      · intro hshows hothers
        exact h.mirrored_of_indexes hwf hinfo (hcurrent.lists _ rfl)
          (DeleteExecutor.deleteEntry_keepsUp hvisible hshows) hindexes hothers
  -- the update does not fit, so that the indexes are left alone
  | @unchanged exec tuple newTuple rid bpm transaction hchild hnew hupdate =>
      subst hchild
      have hvisible := hrow.of_update hstatement
      obtain ⟨hpage, -⟩ := h.slot_of_visible hinfo hvisible
      have hcall := call_of_updateTuple hupdate
      refine (h.advances_of_call hinfo ?_ ?_ hcall ?_ hdb hstatements).mono ?_
      · exact hpage
      · intro rid hmark
        cases hmark
      · exact fun hshows hothers => h.mirrored_of_same hshows hothers
      · intro aborting hfits
        exact hfits.of_update hstatement hnew
  | @updated exec tuple newTuple rid bpm transaction catalog hchild hnew hupdate hindexes =>
      subst hchild
      have hvisible := hrow.of_update hstatement
      obtain ⟨hpage, -⟩ := h.slot_of_visible hinfo hvisible
      have hcall := call_of_updateTuple hupdate
      refine (h.advances_of_call hinfo ?_ ?_ hcall ?_ hdb hstatements).mono ?_
      · exact hpage
      · intro rid hmark
        cases hmark
      · intro hshows hothers
        exact h.mirrored_of_indexes hwf hinfo (hcurrent.lists _ rfl)
          (UpdateExecutor.replaceEntry_keepsUp hvisible hshows) hindexes hothers
      · intro aborting hfits
        exact hfits.of_update hstatement hnew

/-- What a call of the transaction does. -/
theorem Running.step (hwf : start.catalog.WellFormed) (h : Running start txnId chains heap db)
    (hin : InTransaction txnId start.statements.length request) (hrow : WholeRow db request)
    (hstep : db.step request = .ok (row, db')) :
    Advances start txnId chains heap db db' fun aborting => UndoFits aborting db request := by
  cases request with
  | createTable tableName schema => cases hin
  | createIndex indexName tableName schema keySchema keyAttrs => cases hin
  | begin isolationLevel => cases hin
  | commit id => cases hin
  | abort id => cases hin
  | openStatement id plan =>
      have hid : id = txnId := hin
      subst hid
      simp only [Database.step] at hstep
      split at hstep
      · cases hstep
      next executor hcreate =>
        cases hstep
        have hrunning : Running start id chains heap
            { db with statements := db.statements ++ [{ txnId := id, executor }] } := by
          refine ⟨h.shared, h.names, h.consistent, ?_, h.indexWriteSet, h.marked⟩
          intro k statement hle hk
          dsimp only at hk
          by_cases hlt : k < db.statements.length
          · rw [List.getElem?_append_left hlt] at hk
            exact h.statements k statement hle hk
          · rw [List.getElem?_append_right (by omega)] at hk
            -- the statement that is opened looks up its table in the catalog as it is now
            have hnew := List.mem_of_getElem? hk
            rw [List.mem_singleton] at hnew
            subst hnew
            have hcurrent := Executor.create_current (h.names.wellFormed hwf) hcreate
            refine ⟨rfl, ?_, ?_⟩
            · rw [← h.names.tables]
              exact hcurrent.table
            · intro array harray
              obtain ⟨hnodup, hlisted⟩ := hcurrent.lists array harray
              refine ⟨hnodup, ?_⟩
              intro i
              rw [hlisted, h.names.exists_iff]
        exact Running.advances_of_same hrunning rfl _
  | next k child =>
      simp only [Database.step] at hstep
      split at hstep
      · cases hstep
        exact Running.advances_of_same h rfl _
      next id executor hstatement =>
        have hid : id = txnId := (h.statements k _ hin hstatement).1
        subst hid
        split at hstep
        · cases hstep
        next row' executor' ctx' hnext =>
          cases hstep
          exact h.next hwf hin hstatement hrow hnext rfl

/-- What the calls of a transaction do. -/
theorem Running.run {requests : List Request} (hwf : start.catalog.WellFormed)
    (h : Running start txnId chains heap db)
    (hin : ∀ request ∈ requests, InTransaction txnId start.statements.length request)
    (hrow : machine.Guarded WholeRow db requests) (hreach : machine.Reaches db requests db') :
    Advances start txnId chains heap db db' fun aborting =>
      machine.Guarded (UndoFits aborting) db requests := by
  induction requests generalizing db chains heap with
  | nil =>
      cases Machine.reaches_nil.mp hreach
      exact Running.advances_of_same h rfl _
  | cons request rest ih =>
      obtain ⟨row, middle, hstep, hrest⟩ := Machine.reaches_cons.mp hreach
      obtain ⟨chains₁, heap₁, records₁, hrunning₁, hsubset₁, hwrites₁, hundo₁⟩ :=
        h.step hwf (hin request List.mem_cons_self) hrow.1 hstep
      obtain ⟨chains', heap', records, hrunning, hsubset, hwrites, hundo⟩ :=
        ih hrunning₁ (fun other hmem => hin other (List.mem_cons_of_mem _ hmem))
          (hrow.2 row middle hstep) hrest
      refine ⟨chains', heap', records₁ ++ records, hrunning, ?_, ?_, ?_⟩
      · intro table hmem
        exact List.Subset.trans (hsubset₁ table hmem) (hsubset table hmem)
      · rw [hwrites, hwrites₁, List.append_assoc]
      · intro aborting counts hfits hcounts view pages hview
        have hcounts₁ : ∀ pageId ∈ chainPages start.catalog.heaps chains₁,
            TablePage.getTupleCount (aborting.pages pageId) = counts pageId := by
          rintro pageId ⟨table, hmem, hpage⟩
          exact hcounts pageId ⟨table, hmem, hsubset table hmem hpage⟩
        exact (hundo₁ aborting counts hfits.1 hcounts₁ view pages hview).append
          (hundo aborting counts (hfits.2 row middle hstep) hcounts view pages hview)

/-! ## The end of a transaction -/

omit [DoubleText] [ValueArithmetic] in
/-- No reader sees a tuple that `Commit` removes. -/
theorem Running.commit (h : Running start txnId chains heap db)
    (hcommit : TransactionManager.commit db.pool (db.transactions txnId) = .ok (pool', txn')) :
    ∃ heap', Shared pool' start.catalog.heaps chains heap' ∧
      ∀ table ∈ start.catalog.heaps, table.visible pool' = table.visible db.pool := by
  have hview := Shared.pagewise start.catalog.heaps chains
  have hmarked : ∀ rid ∈ deletedRids (db.transactions txnId).tableWriteSet.reverse,
      ∃ data, slotAt heap rid = .full true data := by
    intro rid hrid
    rw [deletedRids_reverse, List.mem_reverse] at hrid
    exact h.marked rid hrid
  have hon : ∀ rid ∈ deletedRids (db.transactions txnId).tableWriteSet.reverse,
      rid.pageId ∈ chainPages start.catalog.heaps chains := by
    intro rid hrid
    obtain ⟨data, hslot⟩ := hmarked rid hrid
    exact hview.mem_of_full h.shared hslot
  unfold TransactionManager.commit at hcommit
  rcases hview.applyDeletes_spec h.shared hon with ⟨-, fault, hstop⟩ |
    ⟨final, heap', -, -, hok, hshared, hslots⟩
  · rw [hstop] at hcommit
    cases hcommit
  · rw [hok] at hcommit
    cases hcommit
    refine ⟨heap', hshared, ?_⟩
    intro table hmem
    funext rid
    rw [hshared.visible_eq hmem, h.shared.visible_eq hmem]
    by_cases hpage : rid.pageId ∈ chains table
    · rw [slotAt_restrict_of_mem hpage, slotAt_restrict_of_mem hpage, hslots]
      split
      next hrid =>
        obtain ⟨data, hslot⟩ := hmarked rid hrid
        rw [hslot]
        rfl
      next => rfl
    · rw [slotAt_restrict_of_not_mem hpage, slotAt_restrict_of_not_mem hpage]

omit [DoubleText] [ValueArithmetic] in
/-- The pages that a chain has got since then had no slots. -/
theorem visible_of_restored {pool : PagePool} {chains' : TableHeap → List PageId}
    {heap' : PageId → List Slot} {counts : PageId → Nat} {tables : Set TableHeap}
    (h : Shared pool tables chains heap) (h' : Shared pool' tables chains' heap')
    (hsubset : ∀ table ∈ tables, chains table ⊆ chains' table)
    (hrestored : Restored counts heap heap') :
    ∀ table ∈ tables, table.visible pool' = table.visible pool := by
  intro table hmem
  funext rid
  rw [h'.visible_eq hmem, h.visible_eq hmem]
  by_cases hold : rid.pageId ∈ chains table
  · rw [slotAt_restrict_of_mem hold, slotAt_restrict_of_mem (hsubset table hmem hold),
      hrestored.same]
  · rw [slotAt_restrict_of_not_mem hold]
    by_cases hnew : rid.pageId ∈ chains' table
    · have hempty : heap rid.pageId = [] := by
        apply h.outside
        intro other hin hpage
        by_cases heq : table = other
        · exact hold (heq ▸ hpage)
        · exact h'.heapsOk.apart table hmem other hin heq _ hnew (hsubset other hin hpage)
      rw [slotAt_restrict_of_mem hnew, hrestored.same]
      unfold slotAt
      rw [hempty]
      rfl
    · rw [slotAt_restrict_of_not_mem hnew]

omit [DoubleText] [ValueArithmetic] in
/-- `Abort` brings the tuples back and leaves the indexes as they are. -/
theorem Running.abort {chains' : TableHeap → List PageId} {heap' : PageId → List Slot}
    (hstart : Shared start.pool start.catalog.heaps chains heap)
    (h : Running start txnId chains' heap' db)
    (hsubset : ∀ table ∈ start.catalog.heaps, chains table ⊆ chains' table)
    (hundo : ∀ counts, (∀ pageId ∈ chainPages start.catalog.heaps chains',
        TablePage.getTupleCount (db.pool.pages pageId) = counts pageId) →
      ∀ view pages, Pagewise view pages →
        Undoes view (db.transactions txnId).tableWriteSet counts heap heap')
    (habort : TransactionManager.abort db.pool db.catalog (db.transactions txnId) =
      .ok (pool', catalog', txn')) :
    catalog' = db.catalog ∧ ∃ undone, Shared pool' start.catalog.heaps chains' undone ∧
      ∀ table ∈ start.catalog.heaps, table.visible pool' = table.visible start.pool := by
  have hview := Shared.pagewise start.catalog.heaps chains'
  have hbegin : Restored (fun pageId => (heap' pageId).length) heap' heap' :=
    ⟨fun _ => rfl, fun _ => le_refl _, fun _ => rfl⟩
  have hcounts : ∀ pageId ∈ chainPages start.catalog.heaps chains',
      TablePage.getTupleCount (db.pool.pages pageId) = (heap' pageId).length :=
    fun pageId hmem => (hview.represents h.shared hmem).count
  obtain ⟨final, undone, hwrites, hfinal, hrestored⟩ :=
    hundo _ hcounts _ _ hview db.pool heap'
      { db.transactions txnId with state := .aborted } h.shared hbegin rfl
  unfold TransactionManager.abort at habort
  rw [hwrites] at habort
  dsimp only at habort
  rw [h.indexWriteSet] at habort
  cases habort
  exact ⟨rfl, undone, hfinal, visible_of_restored hstart hfinal hsubset hrestored⟩

/-! ## Scripts -/

omit [DoubleText] [ValueArithmetic] in
/-- Between two steps of a script. -/
structure Settled (db : Database) : Prop where
  shared : ∃ chains heap, Shared db.pool db.catalog.heaps chains heap
  wellFormed : db.catalog.WellFormed
  consistent : db.IndexesConsistent

omit [DoubleText] [ValueArithmetic] in
theorem empty_settled : empty.Settled where
  shared := by
    refine ⟨fun _ => [], fun _ => [], ⟨?_, ?_, le_refl _⟩, fun _ _ => rfl⟩
    · rintro table ⟨oid, info, hinfo, -⟩
      cases hinfo
    · rintro table ⟨oid, info, hinfo, -⟩
      cases hinfo
  wellFormed := Catalog.empty_wellFormed
  consistent := nofun

omit [DoubleText] [ValueArithmetic] in
theorem Settled.heapOk (h : db.Settled) : ∀ table ∈ db.catalog.heaps, ∃ pageIds heap,
    HeapOk db.pool table.firstPageId pageIds heap := by
  obtain ⟨chains, heap, hshared⟩ := h.shared
  intro table hmem
  exact ⟨_, _, hshared.heapOk hmem⟩

omit [DoubleText] [ValueArithmetic] in
/-- `Begin` changes no table and no index. -/
theorem Settled.begins (h : db.Settled)
    (hshared : Shared db.pool db.catalog.heaps chains heap) (isolationLevel : IsolationLevel) :
    Running db db.nextTxnId chains heap
      { db.setTransaction db.nextTxnId { isolationLevel } with nextTxnId := db.nextTxnId + 1 } := by
  have hfresh : Function.update db.transactions db.nextTxnId { isolationLevel } db.nextTxnId =
      { isolationLevel } := Function.update_self _ _ _
  constructor
  case shared => exact hshared
  case names => exact .refl _
  case consistent => exact h.consistent
  case statements =>
    intro k statement hle hk
    have hlt : k < db.statements.length := (List.getElem?_eq_some_iff.mp hk).1
    omega
  case indexWriteSet =>
    dsimp only [setTransaction]
    rw [hfresh]
  case marked =>
    dsimp only [setTransaction]
    rw [hfresh]
    exact nofun

omit [DoubleText] [ValueArithmetic] in
theorem inTransaction_of_mem {statements : List ScriptStatement} {k first : Nat} (hle : first ≤ k)
    (hmem : request ∈ Script.statementRequests txnId k statements) :
    InTransaction txnId first request := by
  induction statements generalizing k with
  | nil => cases hmem
  | cons statement rest ih =>
      rw [Script.statementRequests] at hmem
      rcases List.mem_cons.mp hmem with rfl | hmem
      · rfl
      · rcases List.mem_append.mp hmem with hnext | hrest
        · obtain ⟨child, -, rfl⟩ := List.mem_map.mp hnext
          exact hle
        · exact ih (Nat.le_succ_of_le hle) hrest

/-- A transaction of a script, at its end and after it. -/
theorem Settled.transaction {isolationLevel : IsolationLevel} {statements : List ScriptStatement}
    {commits : Bool} {rows : List (Option (Tuple × RID))} (h : db.Settled)
    (hpromised : Promised db (.transaction isolationLevel statements commits))
    (hundoable : UpdatesUndoable db (.transaction isolationLevel statements commits))
    (hstep : scripts.step db (.transaction isolationLevel statements commits) = .ok (rows, db')) :
    ∃ ending, machine.Reaches db (Script.bodyRequests db isolationLevel statements) ending ∧
      Catalog.SameNames db.catalog ending.catalog ∧ db'.catalog = ending.catalog ∧
      (∃ chains heap, Shared db'.pool db.catalog.heaps chains heap) ∧
      if commits then db'.IndexesConsistent
      else ∀ table ∈ db.catalog.heaps, table.visible db'.pool = table.visible db.pool := by
  obtain ⟨chains, heap, hshared⟩ := h.shared
  have hreach : machine.Reaches db (Script.bodyRequests db isolationLevel statements ++
      [if commits then .commit db.nextTxnId else .abort db.nextTxnId]) db' := ⟨rows, hstep⟩
  obtain ⟨ending, hbody, hend⟩ := Machine.reaches_append.mp hreach
  obtain ⟨hrows, -⟩ := Machine.guarded_append hpromised hbody
  have hbodySplit := hbody
  unfold Script.bodyRequests at hrows hbodySplit
  obtain ⟨row, begun, hbegin, hrest⟩ := Machine.reaches_cons.mp hbodySplit
  have hrunning := h.begins hshared isolationLevel
  -- the transaction begins with an empty write set, so that the records are all its own
  have hfresh : (begun.transactions db.nextTxnId).tableWriteSet = [] := by
    have hself : Function.update db.transactions db.nextTxnId { isolationLevel } db.nextTxnId =
        { isolationLevel } := Function.update_self _ _ _
    cases hbegin
    dsimp only [setTransaction]
    rw [hself]
  have hguards := hrows.2 row begun hbegin
  have hbegun : Running db db.nextTxnId chains heap begun := by
    cases hbegin
    exact hrunning
  obtain ⟨chains', heap', records, hending, hsubset, hwrites, hundo⟩ :=
    hbegun.run h.wellFormed (fun request hmem => inTransaction_of_mem (le_refl _) hmem) hguards
      hrest
  rw [hfresh, List.nil_append] at hwrites
  obtain ⟨row', last, hlast, hdone⟩ := Machine.reaches_cons.mp hend
  cases Machine.reaches_nil.mp hdone
  have hheaps := hending.names.heaps_eq
  refine ⟨ending, hbody, hending.names, ?_⟩
  cases commits with
  | true =>
      have hcommit : ending.step (.commit db.nextTxnId) = .ok (row', db') := hlast
      simp only [Database.step] at hcommit
      split at hcommit
      · cases hcommit
      next pool txn hok =>
        cases hcommit
        -- Commit takes away marked tuples only, which no reader sees
        obtain ⟨heap'', hfinal, hsame⟩ := hending.commit hok
        refine ⟨rfl, ⟨_, _, hfinal⟩, ?_⟩
        rw [if_pos rfl]
        have hrows : ∀ table ∈ ending.catalog.heaps,
            table.visible pool = table.visible ending.pool := by
          rw [hheaps]
          exact hsame
        exact Catalog.Mirrored.of_rows hending.consistent hrows
  | false =>
      have habort : ending.step (.abort db.nextTxnId) = .ok (row', db') := hlast
      obtain ⟨outputs, hrun⟩ := hbody
      unfold UpdatesUndoable at hundoable
      dsimp only at hundoable
      rw [hrun] at hundoable
      have hfits : machine.Guarded (UndoFits ending.pool) db
        (Script.bodyRequests db isolationLevel statements) := hundoable
      unfold Script.bodyRequests at hfits
      -- the records are undone on the pages as the transaction leaves them
      have hundoAll := fun counts => hundo ending.pool counts (hfits.2 row begun hbegin)
      rw [← hwrites] at hundoAll
      simp only [Database.step] at habort
      split at habort
      · cases habort
      next pool catalog txn hok =>
        cases habort
        obtain ⟨hcatalog, heap'', hfinal, hsame⟩ :=
          Running.abort hshared hending hsubset hundoAll hok
        refine ⟨hcatalog, ⟨_, _, hfinal⟩, ?_⟩
        rw [if_neg Bool.false_ne_true]
        exact hsame

/-- A step of a script other than an abort that finds the indexes changed. -/
theorem Settled.step {script : Script} {rows : List (Option (Tuple × RID))} (h : db.Settled)
    (hpromised : Promised db script) (hundoable : UpdatesUndoable db script)
    (huntouched : IndexesUntouched db script)
    (hstep : scripts.step db script = .ok (rows, db')) : db'.Settled := by
  cases script with
  | createTable tableName schema =>
      have hreach : machine.Reaches db [.createTable tableName schema] db' := ⟨rows, hstep⟩
      obtain ⟨row, last, hlast, hdone⟩ := Machine.reaches_cons.mp hreach
      cases Machine.reaches_nil.mp hdone
      have hcall : db.step (.createTable tableName schema) = .ok (row, db') := hlast
      simp only [Database.step] at hcall
      split at hcall
      · cases hcall
        exact h
      next info catalog pool hcreate =>
        cases hcall
        obtain ⟨table, hheap, rfl, hfree, rfl⟩ := createTable_cases hcreate
        obtain ⟨chains, heap, hshared⟩ := h.shared
        obtain ⟨-, hsharedNew, -, hsame⟩ := hshared.create hheap
        have hoid : table.oid = db.catalog.nextTableOid := by
          rw [(create_heapOk hshared.heapsOk.nonneg hheap).1]
        -- the new table has an id that no table had
        have hunused := h.wellFormed.freshTable db.catalog.nextTableOid (le_refl _)
        obtain ⟨-, hinsert⟩ := Catalog.heaps_insert hunused
          { schema, name := tableName, table, oid := db.catalog.nextTableOid }
        constructor
        case shared =>
          rw [hinsert _ rfl]
          exact ⟨_, _, hsharedNew⟩
        case wellFormed => exact h.wellFormed.addTable hfree hoid
        case consistent =>
          exact Catalog.Mirrored.addTable h.consistent h.wellFormed hfree hsame rfl rfl
  | createIndex indexName tableName schema keySchema keyAttrs =>
      have hreach : machine.Reaches db
          [.createIndex indexName tableName schema keySchema keyAttrs] db' := ⟨rows, hstep⟩
      obtain ⟨row, last, hlast, hdone⟩ := Machine.reaches_cons.mp hreach
      cases Machine.reaches_nil.mp hdone
      have hcall : db.step (.createIndex indexName tableName schema keySchema keyAttrs) =
          .ok (row, db') := hlast
      simp only [Database.step] at hcall
      split at hcall
      · cases hcall
      next info? catalog hcreate =>
        cases hcall
        -- the caller has promised to pass the schema of the table
        have hschema : ∀ tableInfo, db.catalog.getTableNamed tableName = .ok (some tableInfo) →
            tableInfo.schema = schema := by
          intro tableInfo hnamed
          unfold Promised at hpromised
          dsimp only at hpromised
          rwa [hnamed] at hpromised
        obtain ⟨hwellFormed, hconsistent⟩ :=
          Catalog.Mirrored.createIndex h.wellFormed h.consistent h.heapOk hschema hcreate
        refine ⟨?_, hwellFormed, hconsistent⟩
        rw [(Catalog.createIndex_sameTables hcreate).heaps_eq]
        exact h.shared
  | transaction isolationLevel statements commits =>
      obtain ⟨ending, hbody, hnames, hcatalog, hshared, hend⟩ :=
        h.transaction hpromised hundoable hstep
      refine ⟨?_, ?_, ?_⟩
      · rw [hcatalog, hnames.heaps_eq]
        exact hshared
      · rw [hcatalog]
        exact hnames.wellFormed h.wellFormed
      · cases commits with
        | true => exact hend
        | false =>
            intro i info oid tableInfo hinfo htable hname
            rw [hcatalog] at hinfo htable
            obtain ⟨outputs, hrun⟩ := hbody
            unfold IndexesUntouched at huntouched
            dsimp only at huntouched
            rw [hrun] at huntouched
            -- the transaction has touched no index, and its tuples are back as they were
            have hindexes : ending.catalog.indexes = db.catalog.indexes := huntouched
            rw [hindexes] at hinfo
            rw [hnames.tables] at htable
            have hsame : tableInfo.table.visible db'.pool = tableInfo.table.visible db.pool :=
              hend _ ⟨oid, tableInfo, htable, rfl⟩
            dsimp only
            rw [hsame]
            exact h.consistent i info oid tableInfo hinfo htable hname

/-- After an abort that finds the indexes changed, one of them is not that of its table. -/
theorem Settled.not_consistent {script : Script} {rows : List (Option (Tuple × RID))}
    (h : db.Settled) (hpromised : Promised db script) (hundoable : UpdatesUndoable db script)
    (htouched : ¬ IndexesUntouched db script)
    (hstep : scripts.step db script = .ok (rows, db')) : ¬ db'.IndexesConsistent := by
  cases script with
  | createTable tableName schema => exact absurd trivial htouched
  | createIndex indexName tableName schema keySchema keyAttrs => exact absurd trivial htouched
  | transaction isolationLevel statements commits =>
      cases commits with
      | true => exact absurd trivial htouched
      | false =>
          intro hconsistent
          apply htouched
          obtain ⟨ending, hbody, hnames, hcatalog, -, hend⟩ :=
            h.transaction hpromised hundoable hstep
          obtain ⟨outputs, hrun⟩ := hbody
          unfold IndexesUntouched
          dsimp only
          rw [hrun]
          funext i
          -- the table is back as it was, so that an index that follows it has its old pairs
          obtain ⟨pairs, hpairs⟩ := hnames.indexes i
          rw [hpairs]
          cases hinfo : db.catalog.indexes i with
          | none => rfl
          | some info =>
              obtain ⟨oid, hname⟩ := h.wellFormed.hasTable i info hinfo
              obtain ⟨tableInfo, htable, hnamed⟩ := h.wellFormed.named _ oid hname
              have hbefore := h.consistent i info oid tableInfo hinfo htable hnamed
              have hafter := hconsistent i (info.setPairs pairs) oid tableInfo
                (by rw [hcatalog, hpairs, hinfo]; rfl) (by rw [hcatalog, hnames.tables, htable])
                hnamed
              have hsame : tableInfo.table.visible db'.pool = tableInfo.table.visible db.pool :=
                hend _ ⟨oid, tableInfo, htable, rfl⟩
              have heq : pairs = info.index.pairs := by
                ext ⟨key, rid⟩
                have hkey := hafter key rid
                dsimp only at hkey
                rw [hsame] at hkey
                exact hkey.trans (hbefore key rid).symm
              rw [heq]
              rfl

/-- The indexes are those of the tables after every step of a script exactly when each
abort finds the indexes as they were when its transaction began. -/
theorem indexes_consistent_iff {inputs : List Script} (hreach : scripts.Reaches empty inputs db)
    (hpromised : scripts.Guarded Promised empty inputs)
    (hundoable : scripts.Guarded UpdatesUndoable empty inputs) :
    (∀ before after middle, inputs = before ++ after → scripts.Reaches empty before middle →
      middle.IndexesConsistent) ↔ scripts.Guarded IndexesUntouched empty inputs := by
  refine hreach.guarded_iff_within Settled IndexesConsistent (fun _ h => h.consistent) ?_ ?_
    (hpromised.and hundoable) empty_settled
  · intro state input output next hstate hallowed hmet hstep
    exact hstate.step hallowed.1 hallowed.2 hmet hstep
  · intro state input output next hstate hallowed hmet hstep
    exact hstate.not_consistent hallowed.1 hallowed.2 hmet hstep

/-- Scripts on values where nothing is added and no double is written as text. -/
abbrev simpleScripts : Machine Database Script (List (Option (Tuple × RID))) CatalogFault :=
  @scripts noDoubleText noArithmetic

/-- A row is inserted, another transaction updates it, and a third one aborts that has done
nothing. -/
def insertedAndUpdated : List Script :=
  [.createTable "t" oneColumn, .createIndex "i" "t" oneColumn oneColumn [0],
    .transaction .readCommitted
      [{ plan := .insert { rawValues := some [[.integer 5]], tableOid := 0 }, rows := [none] }] true,
    .transaction .readCommitted
      [{ plan := .update { tableOid := 0, updateAttrs := [(0, { type := .set, updateVal := 7 })] }
         rows := [some (fiveTuple, ⟨0, 0⟩), none] }] true,
    .transaction .readCommitted [] false]

omit [DoubleText] [ValueArithmetic] in
theorem indexes_consistent_iff_insertedAndUpdated :
    ∃ db, simpleScripts.Reaches empty insertedAndUpdated db ∧
      ∀ before after middle, insertedAndUpdated = before ++ after →
        simpleScripts.Reaches empty before middle → middle.IndexesConsistent := by
  have hok : (simpleScripts.run empty insertedAndUpdated).isOk = true := by decide +kernel
  have hpromised : simpleScripts.Guarded (@Promised noDoubleText noArithmetic) empty
      insertedAndUpdated := by decide +kernel
  have hundoable : simpleScripts.Guarded (@UpdatesUndoable noDoubleText noArithmetic) empty
      insertedAndUpdated := by decide +kernel
  have huntouched : simpleScripts.Guarded (@IndexesUntouched noDoubleText noArithmetic) empty
      insertedAndUpdated := by
    refine ⟨trivial, fun _ _ _ => ⟨trivial, fun _ _ _ => ⟨trivial, fun _ _ _ => ⟨trivial, ?_⟩⟩⟩⟩
    exact fun _ _ _ => ⟨rfl, fun _ _ _ => trivial⟩
  cases hrun : simpleScripts.run empty insertedAndUpdated with
  | error fault =>
      rw [hrun] at hok
      cases hok
  | ok final =>
      obtain ⟨outputs, db⟩ := final
      exact ⟨db, ⟨outputs, hrun⟩, (@indexes_consistent_iff db noDoubleText noArithmetic _
        ⟨outputs, hrun⟩ hpromised hundoable).mpr huntouched⟩

/-- A row is inserted into a table with an index, and the transaction aborts. -/
def insertedAndAborted : List Script :=
  [.createTable "t" oneColumn, .createIndex "i" "t" oneColumn oneColumn [0],
    .transaction .readCommitted
      [{ plan := .insert { rawValues := some [[.integer 5]], tableOid := 0 }, rows := [none] }] false]

omit [DoubleText] [ValueArithmetic] in
/-- The index keeps the entry of the row that no reader sees any more. -/
theorem insertedAndAborted_not_consistent :
    ∃ db, simpleScripts.Reaches empty insertedAndAborted db ∧
      simpleScripts.Guarded (@Promised noDoubleText noArithmetic) empty insertedAndAborted ∧
      ¬ db.IndexesConsistent := by
  have hrun : (simpleScripts.run empty insertedAndAborted).toOption.bind (fun reached =>
      (reached.2.catalog.indexes 0).bind fun info =>
        (reached.2.catalog.tables 0).map fun tableInfo => decide
          (tableInfo.name = info.tableName ∧ (fiveTuple, ⟨0, 0⟩) ∈ info.index.pairs ∧
            tableInfo.table.visible reached.2.pool ⟨0, 0⟩ = none)) = some true := by
    decide +kernel
  have hpromised : simpleScripts.Guarded (@Promised noDoubleText noArithmetic) empty
      insertedAndAborted := by decide +kernel
  obtain ⟨⟨outputs, db⟩, hreach, hfound⟩ := Option.bind_eq_some_iff.mp hrun
  obtain ⟨info, hinfo, htables⟩ := Option.bind_eq_some_iff.mp hfound
  obtain ⟨tableInfo, htable, hfacts⟩ := Option.map_eq_some_iff.mp htables
  obtain ⟨hname, hpair, hnone⟩ := of_decide_eq_true hfacts
  refine ⟨db, ⟨outputs, Except.toOption_eq_some_iff.mp hreach⟩, hpromised, ?_⟩
  intro hconsistent
  obtain ⟨tuple, hvisible, -⟩ :=
    (hconsistent 0 info 0 tableInfo hinfo htable hname _ _).mp hpair
  cases hnone.symm.trans hvisible

end Database

end BusTub
