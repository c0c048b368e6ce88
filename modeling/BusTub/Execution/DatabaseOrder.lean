import BusTub.Execution.Database
import BusTub.Table.Heaps

/-! # The order that a database keeps

Whatever the users call, every table keeps a chain of its own, a table that exists stays
as it is in the catalog, and the statements are about tables that exist.
-/

namespace BusTub

namespace Catalog

/-- The heaps of the tables. -/
def heaps (catalog : Catalog) : Set TableHeap :=
  { table | ∃ oid info, catalog.tables oid = some info ∧ info.table = table }

/-- A new id for a table adds its heap, and the others stay. -/
theorem heaps_insert {catalog : Catalog} {oid : TableOid} (hfree : catalog.tables oid = none)
    (info : TableInfo) :
    (∀ other info', catalog.tables other = some info' →
      Function.update catalog.tables oid (some info) other = some info') ∧
    ∀ catalog' : Catalog, catalog'.tables = Function.update catalog.tables oid (some info) →
      catalog'.heaps = insert info.table catalog.heaps := by
  have hold : ∀ other info', catalog.tables other = some info' →
      Function.update catalog.tables oid (some info) other = some info' := by
    intro other info' hinfo
    rw [Function.update_of_ne, hinfo]
    rintro rfl
    rw [hfree] at hinfo
    cases hinfo
  refine ⟨hold, ?_⟩
  intro catalog' htables
  ext table
  constructor
  · rintro ⟨other, info', hinfo, rfl⟩
    rw [htables] at hinfo
    by_cases heq : other = oid
    · rw [heq, Function.update_self, Option.some.injEq] at hinfo
      exact Or.inl (congrArg TableInfo.table hinfo.symm)
    · rw [Function.update_of_ne heq] at hinfo
      exact Or.inr ⟨other, info', hinfo, rfl⟩
  · rintro (rfl | ⟨other, info', hinfo, rfl⟩)
    · exact ⟨oid, info, by rw [htables, Function.update_self], rfl⟩
    · exact ⟨other, info', by rw [htables, hold other info' hinfo], rfl⟩

/-- The tables are the same, only indexes may differ. -/
structure SameTables (catalog catalog' : Catalog) : Prop where
  tables : catalog'.tables = catalog.tables
  tableNames : catalog'.tableNames = catalog.tableNames
  nextTableOid : catalog'.nextTableOid = catalog.nextTableOid

theorem SameTables.refl (catalog : Catalog) : SameTables catalog catalog := ⟨rfl, rfl, rfl⟩

theorem SameTables.trans {first second third : Catalog} (h : SameTables first second)
    (h' : SameTables second third) : SameTables first third :=
  ⟨h'.tables.trans h.tables, h'.tableNames.trans h.tableNames,
    h'.nextTableOid.trans h.nextTableOid⟩

theorem forIndexes_sameTables {change : IndexInfo → Except EvalFault IndexInfo}
    {indexOids : List IndexOid} {catalog catalog' : Catalog}
    (hchange : forIndexes change indexOids catalog = .ok catalog') :
    SameTables catalog catalog' := by
  induction indexOids generalizing catalog with
  | nil =>
      cases hchange
      exact SameTables.refl _
  | cons indexOid rest ih =>
      unfold forIndexes at hchange
      split at hchange
      · cases hchange
      · split at hchange
        · cases hchange
        · have hrest := ih hchange
          exact ⟨hrest.tables, hrest.tableNames, hrest.nextTableOid⟩

theorem createIndex_sameTables {catalog catalog' : Catalog} {pool : PagePool}
    {indexName tableName : String} {schema keySchema : Schema} {keyAttrs : List Nat}
    {info? : Option IndexInfo}
    (hcreate : catalog.createIndex pool indexName tableName schema keySchema keyAttrs =
      .ok (info?, catalog')) : SameTables catalog catalog' := by
  unfold createIndex at hcreate
  split at hcreate
  · cases hcreate
    exact SameTables.refl _
  · split at hcreate
    · cases hcreate
    · split at hcreate
      · cases hcreate
        exact SameTables.refl _
      · split at hcreate
        · cases hcreate
        · cases hcreate
          exact ⟨rfl, rfl, rfl⟩

end Catalog

namespace TransactionManager

open Catalog

theorem undoIndexWrite_sameTables {catalog catalog' : Catalog} {item : IndexWriteRecord}
    (hundo : undoIndexWrite catalog item = .ok catalog') : SameTables catalog catalog' := by
  unfold undoIndexWrite at hundo
  split at hundo
  · dsimp only at hundo
    split at hundo
    · cases hundo
    · split at hundo
      · cases hundo
        exact ⟨rfl, rfl, rfl⟩
      · cases hundo
        exact ⟨rfl, rfl, rfl⟩
      · split at hundo
        · cases hundo
        · cases hundo
          exact ⟨rfl, rfl, rfl⟩
  · cases hundo

theorem undoIndexWrites_sameTables {records : List IndexWriteRecord} {catalog catalog' : Catalog}
    (hundo : undoIndexWrites records catalog = .ok catalog') : SameTables catalog catalog' := by
  induction records generalizing catalog with
  | nil =>
      cases hundo
      exact SameTables.refl _
  | cons item rest ih =>
      unfold undoIndexWrites at hundo
      split at hundo
      · cases hundo
      next middle hmiddle => exact (undoIndexWrite_sameTables hmiddle).trans (ih hundo)

theorem abort_sameTables {pool pool' : PagePool} {catalog catalog' : Catalog}
    {txn txn' : Transaction} (habort : abort pool catalog txn = .ok (pool', catalog', txn')) :
    SameTables catalog catalog' := by
  unfold abort at habort
  split at habort
  · cases habort
  · split at habort
    · cases habort
    next final hundo =>
      cases habort
      exact undoIndexWrites_sameTables hundo

end TransactionManager

/-! ## Executors -/

namespace Executor

variable [DoubleText] [ValueArithmetic]

/-- What a call of `Next` can do. -/
inductive Does (ctx : ExecutorContext) (child : Option (Tuple × RID)) :
    Executor → Option (Tuple × RID) → Executor → ExecutorContext → Prop
  | scanned {exec exec' : SeqScanExecutor} {row : Option (Tuple × RID)}
      (hnext : exec.next ctx.bpm = .ok (row, exec')) :
      Does ctx child (.seqScan exec) row (.seqScan exec') ctx
  | idle {executor executor' : Executor} (hinfo : executor'.tableInfo = executor.tableInfo)
      (hscan : ∀ exec, executor' ≠ .seqScan exec) :
      Does ctx child executor none executor' ctx
  | rejected {exec exec' : InsertExecutor} {tuple : Tuple} {bpm : PagePool}
      {transaction : Transaction} (hinfo : exec'.tableInfo = exec.tableInfo)
      (hinsert : exec.tableInfo.table.insertTuple ctx.bpm ctx.transaction tuple =
        .ok (none, bpm, transaction)) :
      Does ctx child (.insert exec) none (.insert exec') { ctx with bpm, transaction }
  | inserted {exec exec' : InsertExecutor} {tuple : Tuple} {rid : RID} {bpm : PagePool}
      {transaction : Transaction} {catalog : Catalog} (hinfo : exec'.tableInfo = exec.tableInfo)
      (hinsert : exec.tableInfo.table.insertTuple ctx.bpm ctx.transaction tuple =
        .ok (some rid, bpm, transaction))
      (hindexes : Catalog.forIndexes (InsertExecutor.insertEntry exec.tableInfo.schema tuple rid)
        exec.indexInfoArray ctx.catalog = .ok catalog) :
      Does ctx child (.insert exec) (some (tuple, rid)) (.insert exec')
        { transaction, catalog, bpm }
  | deleted {exec : DeleteExecutor} {tuple : Tuple} {rid : RID} {bpm : PagePool}
      {transaction : Transaction} {catalog : Catalog} (hchild : child = some (tuple, rid))
      (hmark : TableHeap.markDelete exec.tableInfo.table.oid ctx.bpm ctx.transaction rid =
        (true, bpm, transaction))
      (hindexes : Catalog.forIndexes (DeleteExecutor.deleteEntry exec.tableInfo.schema tuple rid)
        exec.indexInfoArray ctx.catalog = .ok catalog) :
      Does ctx child (.delete exec) (some (tuple, rid)) (.delete exec)
        { transaction, catalog, bpm }
  | unchanged {exec : UpdateExecutor} {tuple newTuple : Tuple} {rid : RID} {bpm : PagePool}
      {transaction : Transaction} (hchild : child = some (tuple, rid))
      (hnew : exec.generateUpdatedTuple tuple = .ok newTuple)
      (hupdate : TableHeap.updateTuple exec.tableInfo.table.oid ctx.bpm ctx.transaction newTuple
        rid = .ok (false, bpm, transaction)) :
      Does ctx child (.update exec) none (.update exec) { ctx with bpm, transaction }
  | updated {exec : UpdateExecutor} {tuple newTuple : Tuple} {rid : RID} {bpm : PagePool}
      {transaction : Transaction} {catalog : Catalog} (hchild : child = some (tuple, rid))
      (hnew : exec.generateUpdatedTuple tuple = .ok newTuple)
      (hupdate : TableHeap.updateTuple exec.tableInfo.table.oid ctx.bpm ctx.transaction newTuple
        rid = .ok (true, bpm, transaction))
      (hindexes : Catalog.forIndexes
        (UpdateExecutor.replaceEntry exec.tableInfo.schema tuple newTuple rid)
        exec.indexInfoArray ctx.catalog = .ok catalog) :
      Does ctx child (.update exec) (some (tuple, rid)) (.update exec)
        { transaction, catalog, bpm }

variable {ctx ctx' : ExecutorContext} {child row : Option (Tuple × RID)}
  {executor executor' : Executor}

omit [DoubleText] [ValueArithmetic] in
theorem nextTuple_tableInfo {exec exec' : InsertExecutor} {tuple? : Option Tuple}
    (hnext : exec.nextTuple child = .ok (tuple?, exec')) :
    exec'.tableInfo = exec.tableInfo ∧ exec'.indexInfoArray = exec.indexInfoArray := by
  unfold InsertExecutor.nextTuple at hnext
  split at hnext
  · cases hnext
    exact ⟨rfl, rfl⟩
  · split at hnext
    · cases hnext
      exact ⟨rfl, rfl⟩
    · split at hnext
      · cases hnext
      · cases hnext
        exact ⟨rfl, rfl⟩

theorem does_insert {exec exec' : InsertExecutor}
    (hnext : exec.next ctx child = .ok (row, exec', ctx')) :
    Does ctx child (.insert exec) row (.insert exec') ctx' := by
  unfold InsertExecutor.next at hnext
  cases htuple : exec.nextTuple child with
  | error fault =>
      rw [htuple] at hnext
      cases hnext
  | ok found =>
      obtain ⟨tuple?, exec₁⟩ := found
      obtain ⟨hinfo, harray⟩ := nextTuple_tableInfo htuple
      rw [htuple] at hnext
      cases tuple? with
      | none =>
          cases hnext
          exact .idle hinfo nofun
      | some tuple =>
          dsimp only at hnext
          rw [hinfo, harray] at hnext
          split at hnext
          · cases hnext
          next hinsert =>
            cases hnext
            exact .rejected hinfo hinsert
          next rid bpm transaction hinsert =>
            split at hnext
            · cases hnext
            next catalog hindexes =>
              cases hnext
              exact .inserted hinfo hinsert hindexes

theorem does_delete {exec : DeleteExecutor} (hnext : exec.next ctx child = .ok (row, ctx')) :
    Does ctx child (.delete exec) row (.delete exec) ctx' := by
  unfold DeleteExecutor.next at hnext
  split at hnext
  · cases hnext
    exact .idle rfl nofun
  next tuple rid =>
    split at hnext
    next hmark => cases hmark
    next bpm transaction hmark =>
      split at hnext
      · cases hnext
      next catalog hindexes =>
        cases hnext
        exact .deleted rfl hmark hindexes

theorem does_update {exec : UpdateExecutor} (hnext : exec.next ctx child = .ok (row, ctx')) :
    Does ctx child (.update exec) row (.update exec) ctx' := by
  unfold UpdateExecutor.next at hnext
  split at hnext
  · cases hnext
    exact .idle rfl nofun
  next tuple rid =>
    split at hnext
    · cases hnext
    next newTuple hnew =>
      split at hnext
      · cases hnext
      next bpm transaction hupdate =>
        cases hnext
        exact .unchanged rfl hnew hupdate
      next bpm transaction hupdate =>
        split at hnext
        · cases hnext
        next catalog hindexes =>
          cases hnext
          exact .updated rfl hnew hupdate hindexes

/-- `Next` does nothing else. -/
theorem does_of_next (hnext : executor.next ctx child = .ok (row, executor', ctx')) :
    Does ctx child executor row executor' ctx' := by
  cases executor with
  | seqScan exec =>
      simp only [next] at hnext
      split at hnext
      · cases hnext
      next output exec' hscan =>
        cases hnext
        exact .scanned hscan
  | insert exec =>
      simp only [next] at hnext
      split at hnext
      · cases hnext
      next output exec' ctx'' hinsert =>
        cases hnext
        exact does_insert hinsert
  | delete exec =>
      simp only [next] at hnext
      split at hnext
      · cases hnext
      next output ctx'' hdelete =>
        cases hnext
        exact does_delete hdelete
  | update exec =>
      simp only [next] at hnext
      split at hnext
      · cases hnext
      next output ctx'' hupdate =>
        cases hnext
        exact does_update hupdate

/-- The table of a statement is the one that it was opened for. -/
theorem Does.tableInfo_eq (hdoes : Does ctx child executor row executor' ctx') :
    executor'.tableInfo = executor.tableInfo := by
  cases hdoes with
  | scanned hnext =>
      unfold SeqScanExecutor.next at hnext
      split at hnext
      · cases hnext
      · cases hnext
        rfl
  | idle hinfo hscan => exact hinfo
  | rejected hinfo hinsert => exact hinfo
  | inserted hinfo hinsert hindexes => exact hinfo
  | deleted hchild hmark hindexes => rfl
  | unchanged hchild hnew hupdate => rfl
  | updated hchild hnew hupdate hindexes => rfl

theorem Does.sameTables (hdoes : Does ctx child executor row executor' ctx') :
    ctx.catalog.SameTables ctx'.catalog := by
  cases hdoes with
  | scanned hnext => exact .refl _
  | idle hinfo hscan => exact .refl _
  | rejected hinfo hinsert => exact .refl _
  | inserted hinfo hinsert hindexes => exact Catalog.forIndexes_sameTables hindexes
  | deleted hchild hmark hindexes => exact Catalog.forIndexes_sameTables hindexes
  | unchanged hchild hnew hupdate => exact .refl _
  | updated hchild hnew hupdate hindexes => exact Catalog.forIndexes_sameTables hindexes

theorem Does.keeps (hdoes : Does ctx child executor row executor' ctx') {tables : Set TableHeap}
    (hmem : executor.tableInfo.table ∈ tables) : TableHeap.Keeps tables ctx.bpm ctx'.bpm := by
  cases hdoes with
  | scanned hnext => exact .refl _ _
  | idle hinfo hscan => exact .refl _ _
  | rejected hinfo hinsert => exact TableHeap.insertTuple_keeps hmem hinsert
  | inserted hinfo hinsert hindexes => exact TableHeap.insertTuple_keeps hmem hinsert
  | deleted hchild hmark hindexes => exact (TableHeap.markDelete_touches hmark).keeps _
  | unchanged hchild hnew hupdate => exact TableHeap.updateTuple_keeps hupdate _
  | updated hchild hnew hupdate hindexes => exact TableHeap.updateTuple_keeps hupdate _

end Executor

/-! ## Databases -/

namespace Database

/-- The tables have chains of their own, and statements are about tables that exist. -/
structure Ordered (db : Database) : Prop where
  fresh : ∀ oid, db.catalog.nextTableOid ≤ oid → db.catalog.tables oid = none
  heapsOk : ∃ chains heaps, TableHeap.HeapsOk db.pool db.catalog.heaps chains heaps
  statements : ∀ statement ∈ db.statements,
    ∃ oid, db.catalog.tables oid = some statement.executor.tableInfo

/-- What every call leaves as it is: tables do not vanish, and chains keep their pages. -/
structure Grows (db db' : Database) : Prop where
  tables : ∀ oid info, db.catalog.tables oid = some info → db'.catalog.tables oid = some info
  pageIds : ∀ table ∈ db.catalog.heaps, table.pageIds db.pool ⊆ table.pageIds db'.pool

theorem empty_ordered : empty.Ordered where
  fresh _ _ := rfl
  heapsOk := by
    refine ⟨fun _ => [], fun _ _ => [], ?_, ?_, le_refl _⟩
    · rintro table ⟨oid, info, hinfo, -⟩
      cases hinfo
    · rintro table ⟨oid, info, hinfo, -⟩
      cases hinfo
  statements := nofun

variable {db db' : Database}

theorem Ordered.pageIds_subset (h : db.Ordered) {pool' : PagePool}
    (hkeeps : TableHeap.Keeps db.catalog.heaps db.pool pool') :
    (∃ chains heaps, TableHeap.HeapsOk pool' db.catalog.heaps chains heaps) ∧
      ∀ table ∈ db.catalog.heaps, table.pageIds db.pool ⊆ table.pageIds pool' := by
  obtain ⟨chains, heaps, hheaps⟩ := h.heapsOk
  obtain ⟨chains', heaps', hheaps', hsubset⟩ := hkeeps chains heaps hheaps
  refine ⟨⟨chains', heaps', hheaps'⟩, ?_⟩
  intro table hmem
  rw [(hheaps.heapOk table hmem).pageIds_eq, (hheaps'.heapOk table hmem).pageIds_eq]
  exact hsubset table hmem

/-- A call that leaves the tables of the catalog as they are keeps the order. -/
theorem Ordered.of_keeps (h : db.Ordered)
    (hkeeps : TableHeap.Keeps db.catalog.heaps db.pool db'.pool)
    (hsame : db.catalog.SameTables db'.catalog)
    (hstatements : ∀ statement ∈ db'.statements,
      ∃ oid, db.catalog.tables oid = some statement.executor.tableInfo) :
    db'.Ordered ∧ Grows db db' := by
  obtain ⟨hheaps, hsubset⟩ := h.pageIds_subset hkeeps
  have htables : db'.catalog.heaps = db.catalog.heaps := by
    unfold Catalog.heaps
    rw [hsame.tables]
  refine ⟨⟨?_, ?_, ?_⟩, ?_, hsubset⟩
  · rw [hsame.nextTableOid, hsame.tables]
    exact h.fresh
  · rw [htables]
    exact hheaps
  · rw [hsame.tables]
    exact hstatements
  · intro oid info hinfo
    rw [hsame.tables]
    exact hinfo

/-- What `CreateTable` does when it makes a table. -/
theorem createTable_cases {tableName : String} {schema : Schema} {info : TableInfo}
    {catalog : Catalog} {pool : PagePool}
    (hcreate : db.catalog.createTable db.pool tableName schema = some (info, catalog, pool)) :
    ∃ table, TableHeap.create db.pool db.catalog.nextTableOid = some (table, pool) ∧
      info = { schema, name := tableName, table, oid := db.catalog.nextTableOid } ∧
      db.catalog.tableNames tableName = none ∧
      catalog = { db.catalog with
        nextTableOid := db.catalog.nextTableOid + 1
        tables := Function.update db.catalog.tables db.catalog.nextTableOid (some info)
        tableNames := Function.update db.catalog.tableNames tableName
          (some db.catalog.nextTableOid)
        indexNames := Function.update db.catalog.indexNames tableName (some []) } := by
  unfold Catalog.createTable at hcreate
  split at hcreate
  · cases hcreate
  next hname =>
    dsimp only at hcreate
    split at hcreate
    · cases hcreate
    next table pool' hheap =>
      cases hcreate
      exact ⟨table, hheap, rfl, hname, rfl⟩

theorem Ordered.createTable (h : db.Ordered) {tableName : String} {schema : Schema}
    {info : TableInfo} {catalog : Catalog} {pool : PagePool}
    (hcreate : db.catalog.createTable db.pool tableName schema = some (info, catalog, pool)) :
    Ordered { db with catalog, pool } ∧ Grows db { db with catalog, pool } := by
  obtain ⟨table, hheap, rfl, -, rfl⟩ := createTable_cases hcreate
  obtain ⟨chains, heaps, hheaps⟩ := h.heapsOk
  obtain ⟨hnew, hheaps'⟩ := hheaps.create hheap
  have hfree := h.fresh db.catalog.nextTableOid (le_refl _)
  obtain ⟨hold, hset⟩ := Catalog.heaps_insert hfree
    { schema, name := tableName, table, oid := db.catalog.nextTableOid }
  refine ⟨⟨?_, ?_, ?_⟩, ⟨hold, ?_⟩⟩
  · intro oid hle
    have hlt : db.catalog.nextTableOid < oid := Nat.lt_of_succ_le hle
    dsimp only
    rw [Function.update_of_ne hlt.ne']
    exact h.fresh oid hlt.le
  · rw [hset _ rfl]
    exact ⟨_, _, hheaps'⟩
  · intro statement hin
    obtain ⟨oid, hinfo⟩ := h.statements statement hin
    exact ⟨oid, hold oid _ hinfo⟩
  · intro other hin
    have hne : other ≠ table := by
      rintro rfl
      exact hnew hin
    have hafter := hheaps'.heapOk other (Set.mem_insert_of_mem _ hin)
    rw [Function.update_of_ne hne, Function.update_of_ne hne] at hafter
    dsimp only
    rw [(hheaps.heapOk other hin).pageIds_eq, hafter.pageIds_eq]
    exact List.Subset.refl _

variable [DoubleText] [ValueArithmetic]

omit [DoubleText] [ValueArithmetic] in
/-- An executor is made for a table that exists. -/
theorem create_tableInfo {pool : PagePool} {catalog : Catalog} {plan : Plan} {executor : Executor}
    (hcreate : Executor.create pool catalog plan = .ok executor) :
    ∃ oid, catalog.tables oid = some executor.tableInfo := by
  have hfetch : ∀ oid info array, catalog.fetchTable oid = .ok (info, array) →
      catalog.tables oid = some info := by
    intro oid info array hfetch
    unfold Catalog.fetchTable at hfetch
    split at hfetch
    · cases hfetch
    next tableInfo hinfo =>
      split at hfetch
      · cases hfetch
      · cases hfetch
        exact hinfo
  cases plan with
  | seqScan plan =>
      simp only [Executor.create] at hcreate
      split at hcreate
      · cases hcreate
      next tableInfo hinfo =>
        split at hcreate
        · cases hcreate
        next exec hinit =>
          cases hcreate
          refine ⟨plan.tableOid, hinfo.trans ?_⟩
          unfold SeqScanExecutor.init at hinit
          split at hinit
          · cases hinit
          · cases hinit
            rfl
  | insert plan =>
      simp only [Executor.create, InsertExecutor.new] at hcreate
      cases hfound : catalog.fetchTable plan.tableOid with
      | error fault =>
          rw [hfound] at hcreate
          cases hcreate
      | ok found =>
          rw [hfound] at hcreate
          cases hcreate
          exact ⟨_, hfetch _ _ _ hfound⟩
  | delete tableOid =>
      simp only [Executor.create, DeleteExecutor.new] at hcreate
      cases hfound : catalog.fetchTable tableOid with
      | error fault =>
          rw [hfound] at hcreate
          cases hcreate
      | ok found =>
          rw [hfound] at hcreate
          cases hcreate
          exact ⟨_, hfetch _ _ _ hfound⟩
  | update plan =>
      simp only [Executor.create, UpdateExecutor.new] at hcreate
      cases hfound : catalog.fetchTable plan.tableOid with
      | error fault =>
          rw [hfound] at hcreate
          cases hcreate
      | ok found =>
          rw [hfound] at hcreate
          cases hcreate
          exact ⟨_, hfetch _ _ _ hfound⟩

/-- Every call keeps the order. -/
theorem Ordered.step (h : db.Ordered) {request : Request} {row : Option (Tuple × RID)}
    (hstep : db.step request = .ok (row, db')) : db'.Ordered ∧ Grows db db' := by
  have hrefl : db.Ordered ∧ Grows db db :=
    h.of_keeps (.refl _ _) (.refl _) h.statements
  cases request with
  | createTable tableName schema =>
      simp only [Database.step] at hstep
      split at hstep
      · cases hstep
        exact hrefl
      next info catalog pool hcreate =>
        cases hstep
        exact h.createTable hcreate
  | createIndex indexName tableName schema keySchema keyAttrs =>
      simp only [Database.step] at hstep
      split at hstep
      · cases hstep
      next info? catalog hcreate =>
        cases hstep
        exact h.of_keeps (.refl _ _) (Catalog.createIndex_sameTables hcreate) h.statements
  | begin isolationLevel =>
      cases hstep
      exact h.of_keeps (.refl _ _) (.refl _) h.statements
  | openStatement txnId plan =>
      simp only [Database.step] at hstep
      split at hstep
      · cases hstep
      next executor hcreate =>
        cases hstep
        refine h.of_keeps (.refl _ _) (.refl _) ?_
        intro statement hmem
        rcases List.mem_append.mp hmem with hold | hnew
        · exact h.statements statement hold
        · rw [List.mem_singleton] at hnew
          rw [hnew]
          exact create_tableInfo hcreate
  | next i child =>
      simp only [Database.step] at hstep
      split at hstep
      · cases hstep
        exact hrefl
      next txnId executor hstatement =>
        split at hstep
        · cases hstep
        next row' executor' ctx' hnext =>
          cases hstep
          have hdoes := Executor.does_of_next hnext
          obtain ⟨oid, hinfo⟩ := h.statements _ (List.mem_of_getElem? hstatement)
          refine h.of_keeps (hdoes.keeps ⟨oid, _, hinfo, rfl⟩) hdoes.sameTables ?_
          intro statement hmem
          -- a call replaces its own statement, which keeps its table
          rcases List.mem_or_eq_of_mem_set hmem with hold | hnew
          · exact h.statements statement hold
          · rw [hnew]
            exact ⟨oid, hdoes.tableInfo_eq ▸ hinfo⟩
  | commit txnId =>
      simp only [Database.step] at hstep
      split at hstep
      · cases hstep
      next pool txn hcommit =>
        cases hstep
        exact h.of_keeps (TableHeap.commit_keeps hcommit _) (.refl _) h.statements
  | abort txnId =>
      simp only [Database.step] at hstep
      split at hstep
      · cases hstep
      next pool catalog txn habort =>
        cases hstep
        exact h.of_keeps (TableHeap.abort_keeps habort _)
          (TransactionManager.abort_sameTables habort) h.statements

end Database

end BusTub
