import BusTub.Execution.DatabaseOrder
import BusTub.Library.SecondaryIndex
import BusTub.Table.SharedPages

/-! # The indexes of the tables

The catalog knows the indexes of each table by its name. A loop over the indexes of one
table keeps each of them an index of the tuples that a reader of the table sees.
-/

namespace BusTub

open SecondaryIndex

/-- An index with other pairs. -/
def IndexInfo.setPairs (info : IndexInfo) (pairs : Finset (Tuple × RID)) : IndexInfo :=
  { info with index := { info.index with pairs } }

@[simp] theorem IndexInfo.setPairs_keyOf (info : IndexInfo) (pairs : Finset (Tuple × RID)) :
    (info.setPairs pairs).keyOf = info.keyOf := rfl

@[simp] theorem IndexInfo.setPairs_tableName (info : IndexInfo) (pairs : Finset (Tuple × RID)) :
    (info.setPairs pairs).tableName = info.tableName := rfl

@[simp] theorem IndexInfo.setPairs_pairs (info : IndexInfo) (pairs : Finset (Tuple × RID)) :
    (info.setPairs pairs).index.pairs = pairs := rfl

namespace Catalog

/-- The ids are those of the indexes on a table, each of them once. -/
def Lists (catalog : Catalog) (tableName : String) (indexOids : List IndexOid) : Prop :=
  indexOids.Nodup ∧ ∀ i, i ∈ indexOids ↔
    ∃ info, catalog.indexes i = some info ∧ info.tableName = tableName

/-- Names and ids of tables and indexes fit together. -/
structure WellFormed (catalog : Catalog) : Prop where
  heapOid : ∀ oid info, catalog.tables oid = some info → info.table.oid = oid
  tableName : ∀ oid info, catalog.tables oid = some info →
    catalog.tableNames info.name = some oid
  named : ∀ tableName oid, catalog.tableNames tableName = some oid →
    ∃ info, catalog.tables oid = some info ∧ info.name = tableName
  indexNames : ∀ tableName tableIndexes, catalog.indexNames tableName = some tableIndexes →
    catalog.Lists tableName (tableIndexes.map Prod.snd)
  hasTable : ∀ i info, catalog.indexes i = some info →
    ∃ oid, catalog.tableNames info.tableName = some oid
  freshTable : ∀ oid, catalog.nextTableOid ≤ oid → catalog.tables oid = none
  freshIndex : ∀ i, catalog.nextIndexOid ≤ i → catalog.indexes i = none

/-- Nothing but the pairs of indexes may differ. -/
structure SameNames (catalog catalog' : Catalog) : Prop extends SameTables catalog catalog' where
  indexNames : catalog'.indexNames = catalog.indexNames
  nextIndexOid : catalog'.nextIndexOid = catalog.nextIndexOid
  indexes : ∀ i, ∃ pairs, catalog'.indexes i = (catalog.indexes i).map (·.setPairs pairs)

/-- Every index holds the keys of the tuples that a reader of its table sees. -/
def Mirrored (catalog : Catalog) (rows : TableHeap → RID → Option Tuple) : Prop :=
  ∀ i info oid tableInfo, catalog.indexes i = some info → catalog.tables oid = some tableInfo →
    tableInfo.name = info.tableName →
    Mirrors (info.keyOf tableInfo.schema) (rows tableInfo.table) info.index.pairs

variable {catalog catalog' : Catalog} {tableName : String} {indexOids : List IndexOid}
  {tableInfo : TableInfo} {oid : TableOid} {rows rows' : TableHeap → RID → Option Tuple}
  {change : IndexInfo → Except EvalFault IndexInfo} {pool : PagePool}

/-! ## Names -/

theorem empty_wellFormed : WellFormed empty where
  heapOid := nofun
  tableName := nofun
  named := nofun
  indexNames := nofun
  hasTable := nofun
  freshTable _ _ := rfl
  freshIndex _ _ := rfl

theorem SameNames.exists_iff (h : SameNames catalog catalog') (i : IndexOid) (tableName : String) :
    (∃ info, catalog'.indexes i = some info ∧ info.tableName = tableName) ↔
      ∃ info, catalog.indexes i = some info ∧ info.tableName = tableName := by
  obtain ⟨pairs, hpairs⟩ := h.indexes i
  rw [hpairs]
  cases catalog.indexes i with
  | none => exact Iff.rfl
  | some info =>
      constructor
      · rintro ⟨_, hinfo, hname⟩
        cases hinfo
        exact ⟨info, rfl, hname⟩
      · rintro ⟨_, hinfo, hname⟩
        cases hinfo
        exact ⟨info.setPairs pairs, rfl, hname⟩

theorem SameNames.lists (h : SameNames catalog catalog')
    (hlists : catalog.Lists tableName indexOids) : catalog'.Lists tableName indexOids := by
  refine ⟨hlists.1, ?_⟩
  intro i
  rw [hlists.2, h.exists_iff]

theorem SameNames.wellFormed (h : SameNames catalog catalog') (hwf : catalog.WellFormed) :
    catalog'.WellFormed := by
  constructor
  case heapOid =>
    rw [h.tables]
    exact hwf.heapOid
  case tableName =>
    rw [h.tables, h.tableNames]
    exact hwf.tableName
  case named =>
    rw [h.tables, h.tableNames]
    exact hwf.named
  case indexNames =>
    rw [h.indexNames]
    intro tableName tableIndexes hnames
    exact h.lists (hwf.indexNames tableName tableIndexes hnames)
  case hasTable =>
    intro i info hinfo
    obtain ⟨old, hold, hname⟩ := (h.exists_iff i info.tableName).mp ⟨info, hinfo, rfl⟩
    rw [h.tableNames, ← hname]
    exact hwf.hasTable i old hold
  case freshTable =>
    rw [h.nextTableOid, h.tables]
    exact hwf.freshTable
  case freshIndex =>
    intro i hle
    rw [h.nextIndexOid] at hle
    obtain ⟨pairs, hpairs⟩ := h.indexes i
    rw [hpairs, hwf.freshIndex i hle]
    rfl

/-- A name stands for one table. -/
theorem WellFormed.tableInfo_eq (h : catalog.WellFormed) {other : TableOid} {otherInfo : TableInfo}
    (hinfo : catalog.tables oid = some tableInfo) (hother : catalog.tables other = some otherInfo)
    (hname : tableInfo.name = otherInfo.name) : tableInfo = otherInfo := by
  have hoid := h.tableName oid tableInfo hinfo
  rw [hname, h.tableName other otherInfo hother, Option.some.injEq] at hoid
  rw [hoid, hinfo, Option.some.injEq] at hother
  exact hother

/-- A heap belongs to one table. -/
theorem WellFormed.table_ne (h : catalog.WellFormed) {other : TableOid} {otherInfo : TableInfo}
    (hinfo : catalog.tables oid = some tableInfo) (hother : catalog.tables other = some otherInfo)
    (hname : tableInfo.name ≠ otherInfo.name) : otherInfo.table ≠ tableInfo.table := by
  intro htable
  have hoid := h.heapOid oid tableInfo hinfo
  rw [← htable, h.heapOid other otherInfo hother] at hoid
  rw [hoid, hinfo, Option.some.injEq] at hother
  exact hname (congrArg TableInfo.name hother)

/-- What a constructor of an executor fetches. -/
theorem WellFormed.fetchTable (h : catalog.WellFormed)
    (hfetch : catalog.fetchTable oid = .ok (tableInfo, indexOids)) :
    catalog.tables oid = some tableInfo ∧ catalog.Lists tableInfo.name indexOids := by
  unfold Catalog.fetchTable at hfetch
  split at hfetch
  · cases hfetch
  next info hinfo =>
    split at hfetch
    · cases hfetch
    next array harray =>
      cases hfetch
      refine ⟨hinfo, ?_⟩
      unfold getTableIndexes at harray
      rw [h.tableName oid tableInfo hinfo] at harray
      dsimp only at harray
      split at harray
      · cases harray
      next tableIndexes hnames =>
        split at harray
        · cases harray
          exact h.indexNames _ tableIndexes hnames
        · cases harray

/-- Rows of tables that are not in the catalog do not count. -/
theorem Mirrored.of_rows (h : catalog.Mirrored rows)
    (hsame : ∀ table ∈ catalog.heaps, rows' table = rows table) : catalog.Mirrored rows' := by
  intro i info oid info' hinfo htable hname
  rw [hsame _ ⟨oid, info', htable, rfl⟩]
  exact h i info oid info' hinfo htable hname

/-! ## Loops over indexes -/

/-- The loop changes each index of the list once, and no other one. -/
theorem forIndexes_spec (hnodup : indexOids.Nodup)
    (hchange : forIndexes change indexOids catalog = .ok catalog') :
    (∀ i ∈ indexOids, ∃ info info', catalog.indexes i = some info ∧ change info = .ok info' ∧
      catalog'.indexes i = some info') ∧
    (∀ i, i ∉ indexOids → catalog'.indexes i = catalog.indexes i) ∧
    catalog'.indexNames = catalog.indexNames ∧ catalog'.nextIndexOid = catalog.nextIndexOid := by
  induction indexOids generalizing catalog with
  | nil =>
      cases hchange
      exact ⟨nofun, fun _ _ => rfl, rfl, rfl⟩
  | cons first rest ih =>
      rw [List.nodup_cons] at hnodup
      unfold forIndexes at hchange
      split at hchange
      · cases hchange
      next info hinfo =>
        split at hchange
        · cases hchange
        next info' hinfo' =>
          obtain ⟨hrest, hother, hnames, hnext⟩ := ih hnodup.2 hchange
          refine ⟨?_, ?_, hnames, hnext⟩
          · intro i hmem
            rcases List.mem_cons.mp hmem with rfl | hlater
            · refine ⟨info, info', hinfo, hinfo', ?_⟩
              rw [hother i hnodup.1]
              exact Function.update_self _ _ _
            · have hne : i ≠ first := by
                rintro rfl
                exact hnodup.1 hlater
              obtain ⟨old, new, hold, hnew⟩ := hrest i hlater
              dsimp only at hold
              rw [Function.update_of_ne hne] at hold
              exact ⟨old, new, hold, hnew⟩
          · intro i hnot
            have hne : i ≠ first := List.ne_of_not_mem_cons hnot
            rw [hother i (List.not_mem_of_not_mem_cons hnot)]
            exact Function.update_of_ne hne _ _

/-- A change of the pairs of indexes that keeps up with the rows of one table. -/
def KeepsUp (change : IndexInfo → Except EvalFault IndexInfo) (schema : Schema)
    (before after : RID → Option Tuple) : Prop :=
  ∀ info info', change info = .ok info' → ∃ pairs, info' = info.setPairs pairs ∧
    (Mirrors (info.keyOf schema) before info.index.pairs →
      Mirrors (info.keyOf schema) after pairs)

theorem forIndexes_sameNames {schema : Schema} {before after : RID → Option Tuple}
    (hnodup : indexOids.Nodup) (hkeeps : KeepsUp change schema before after)
    (hchange : forIndexes change indexOids catalog = .ok catalog') :
    SameNames catalog catalog' := by
  obtain ⟨hlisted, hother, hnames, hnext⟩ := forIndexes_spec hnodup hchange
  refine ⟨forIndexes_sameTables hchange, hnames, hnext, ?_⟩
  intro i
  by_cases hmem : i ∈ indexOids
  · obtain ⟨info, info', hinfo, hok, hinfo'⟩ := hlisted i hmem
    obtain ⟨pairs, rfl, -⟩ := hkeeps info info' hok
    refine ⟨pairs, ?_⟩
    rw [hinfo', hinfo]
    rfl
  · rw [hother i hmem]
    cases catalog.indexes i with
    | none => exact ⟨∅, rfl⟩
    | some info => exact ⟨info.index.pairs, rfl⟩

/-- When one table changes and the loop over its indexes keeps up, all indexes do. -/
theorem Mirrored.forIndexes (h : catalog.Mirrored rows) (hwf : catalog.WellFormed)
    (hinfo : catalog.tables oid = some tableInfo)
    (hlists : catalog.Lists tableInfo.name indexOids)
    (hkeeps : KeepsUp change tableInfo.schema (rows tableInfo.table) (rows' tableInfo.table))
    (hothers : ∀ other ∈ catalog.heaps, other ≠ tableInfo.table → rows' other = rows other)
    (hchange : forIndexes change indexOids catalog = .ok catalog') : catalog'.Mirrored rows' := by
  obtain ⟨hlisted, hother, -, -⟩ := forIndexes_spec hlists.1 hchange
  have htables := (forIndexes_sameTables hchange).tables
  intro i info' oid' tableInfo' hinfo' htable' hname
  rw [htables] at htable'
  by_cases hmem : i ∈ indexOids
  · obtain ⟨info, new, hold, hok, hnew⟩ := hlisted i hmem
    rw [hinfo', Option.some.injEq] at hnew
    subst hnew
    obtain ⟨old, hold', holdName⟩ := (hlists.2 i).mp hmem
    rw [hold, Option.some.injEq] at hold'
    subst hold'
    obtain ⟨pairs, rfl, hfollows⟩ := hkeeps info info' hok
    have hsame : tableInfo = tableInfo' :=
      hwf.tableInfo_eq hinfo htable' (holdName.symm.trans hname.symm)
    subst hsame
    exact hfollows (h i info oid tableInfo hold hinfo holdName.symm)
  · rw [hother i hmem] at hinfo'
    have hne : tableInfo.name ≠ tableInfo'.name := by
      intro heq
      exact hmem ((hlists.2 i).mpr ⟨info', hinfo', (heq.trans hname).symm⟩)
    rw [hothers _ ⟨oid', tableInfo', htable', rfl⟩ (hwf.table_ne hinfo htable' hne)]
    exact h i info' oid' tableInfo' hinfo' htable' hname

/-! ## New indexes -/

/-- The loop of `CreateIndex` adds the key of each tuple that the iterator visits. -/
theorem populate_spec {keySchema schema : Schema} {visited : List (RID × Tuple)} {fuel : Nat}
    {cur : TableIterator} {index index' : Index} (hwalks : TableIterator.Walks pool cur visited)
    (hpopulate : populate pool schema keySchema fuel cur index = .ok index') :
    index'.metadata = index.metadata ∧ ∀ key rid, (key, rid) ∈ index'.pairs ↔
      (key, rid) ∈ index.pairs ∨ ∃ tuple : Tuple, (rid, tuple) ∈ visited ∧
        tuple.keyFromTuple schema keySchema index.metadata.keyAttrs = .ok key := by
  induction hwalks generalizing fuel index with
  | done hend =>
      cases fuel with
      | zero => cases hpopulate
      | succ fuel =>
          rw [populate, if_pos hend] at hpopulate
          cases hpopulate
          refine ⟨rfl, ?_⟩
          intro key rid
          refine (or_iff_left ?_).symm
          rintro ⟨tuple, hnone, -⟩
          cases hnone
  | @step it next others hne hnext hrest ih =>
      cases fuel with
      | zero => cases hpopulate
      | succ fuel =>
          rw [populate, if_neg hne, hnext] at hpopulate
          split at hpopulate
          · cases hpopulate
          next key hkey =>
            obtain ⟨hmetadata, hpairs⟩ := ih hpopulate
            refine ⟨hmetadata, ?_⟩
            intro key' rid
            rw [hpairs]
            unfold Index.insertEntry
            dsimp only
            rw [Finset.mem_insert, Prod.mk.injEq, or_comm (b := (key', rid) ∈ index.pairs),
              or_assoc]
            refine or_congr_right ?_
            constructor
            · rintro (⟨rfl, rfl⟩ | ⟨tuple, hmem, hkey'⟩)
              · exact ⟨it.tuple, List.mem_cons_self, hkey⟩
              · exact ⟨tuple, List.mem_cons_of_mem _ hmem, hkey'⟩
            · rintro ⟨tuple, hmem, hkey'⟩
              rcases List.mem_cons.mp hmem with heq | hmem
              · cases heq
                rw [hkey] at hkey'
                cases hkey'
                exact Or.inl ⟨rfl, rfl⟩
              · exact Or.inr ⟨tuple, hmem, hkey'⟩

/-- The index of `CreateIndex` holds the keys of the tuples that a reader of the table
sees. -/
theorem newIndex_spec {indexName : String} {schema keySchema : Schema} {keyAttrs : List Nat}
    {index : Index}
    (hheaps : ∀ table ∈ catalog.heaps, ∃ pageIds heap,
      TableHeap.HeapOk pool table.firstPageId pageIds heap)
    (hnew : catalog.newIndex pool indexName tableName schema keySchema keyAttrs = .ok index) :
    ∃ oid tableInfo, catalog.tableNames tableName = some oid ∧
      catalog.tables oid = some tableInfo ∧
      Mirrors (fun tuple : Tuple => tuple.keyFromTuple schema keySchema index.metadata.keyAttrs)
        (tableInfo.table.visible pool) index.pairs := by
  unfold newIndex at hnew
  split at hnew
  · cases hnew
  next metadataSchema _ =>
    split at hnew
    · cases hnew
    · cases hnew
    next tableMeta hmeta =>
      unfold getTableNamed at hmeta
      split at hmeta
      · cases hmeta
      next oid hname =>
        split at hmeta
        · cases hmeta
        next tableInfo hinfo =>
          cases hmeta
          obtain ⟨pageIds, heap, hheap⟩ := hheaps tableMeta.table ⟨oid, tableMeta, hinfo, rfl⟩
          obtain ⟨cur, hfirst, hwalks⟩ := hheap.first_walks
          rw [hfirst] at hnew
          obtain ⟨hmetadata, hpairs⟩ := populate_spec hwalks hnew
          refine ⟨oid, tableMeta, hname, hinfo, ?_⟩
          intro key rid
          -- the loop over the table has entered every live tuple, and nothing else
          rw [hpairs, hmetadata]
          refine (or_iff_right (Finset.notMem_empty _)).trans (exists_congr fun tuple => ?_)
          refine and_congr_left fun _ => ?_
          unfold TableHeap.visible
          rw [hheap.mem_liveRows, hheap.pageIds_eq]
          by_cases hmem : rid.pageId ∈ pageIds
          · rw [if_pos hmem]
            exact and_iff_right hmem
          · rw [if_neg hmem]
            exact iff_of_false (fun hand => hmem hand.1) nofun

/-- What `CreateIndex` does when it makes an index. -/
theorem createIndex_cases {indexName : String} {schema keySchema : Schema} {keyAttrs : List Nat}
    {info? : Option IndexInfo}
    (hcreate : catalog.createIndex pool indexName tableName schema keySchema keyAttrs =
      .ok (info?, catalog')) :
    catalog' = catalog ∨ ∃ tableIndexes index info,
      catalog.indexNames tableName = some tableIndexes ∧
      catalog.newIndex pool indexName tableName schema keySchema keyAttrs = .ok index ∧
      info = { keySchema, name := indexName, index, indexOid := catalog.nextIndexOid, tableName } ∧
      catalog' = { catalog with
        nextIndexOid := catalog.nextIndexOid + 1
        indexes := Function.update catalog.indexes catalog.nextIndexOid (some info)
        indexNames := Function.update catalog.indexNames tableName
          (some (tableIndexes ++ [(indexName, catalog.nextIndexOid)])) } := by
  unfold createIndex at hcreate
  split at hcreate
  · cases hcreate
    exact Or.inl rfl
  · split at hcreate
    · cases hcreate
    next tableIndexes hnames =>
      split at hcreate
      · cases hcreate
        exact Or.inl rfl
      · split at hcreate
        · cases hcreate
        next index hnew =>
          cases hcreate
          exact Or.inr ⟨tableIndexes, index, _, hnames, hnew, rfl, rfl⟩

/-- A new index gets the next id. -/
theorem WellFormed.addIndex {info : IndexInfo} {tableIndexes : List (String × IndexOid)}
    (h : catalog.WellFormed) (hname : catalog.tableNames info.tableName = some oid)
    (hnames : catalog.indexNames info.tableName = some tableIndexes) (indexName : String) :
    WellFormed { catalog with
      nextIndexOid := catalog.nextIndexOid + 1
      indexes := Function.update catalog.indexes catalog.nextIndexOid (some info)
      indexNames := Function.update catalog.indexNames info.tableName
        (some (tableIndexes ++ [(indexName, catalog.nextIndexOid)])) } := by
  have hfree := h.freshIndex catalog.nextIndexOid (le_refl _)
  -- the indexes on a table of this name are the old ones and the new one
  have hexists : ∀ i name, (∃ info', Function.update catalog.indexes catalog.nextIndexOid
      (some info) i = some info' ∧ info'.tableName = name) ↔
      (i = catalog.nextIndexOid ∧ info.tableName = name) ∨
      ∃ info', catalog.indexes i = some info' ∧ info'.tableName = name := by
    intro i name
    by_cases heq : i = catalog.nextIndexOid
    · subst heq
      rw [Function.update_self, hfree]
      simp
    · rw [Function.update_of_ne heq]
      exact (or_iff_right fun hand => heq hand.1).symm
  constructor
  case heapOid => exact h.heapOid
  case tableName => exact h.tableName
  case named => exact h.named
  case indexNames =>
    intro name others hothers
    dsimp only at hothers
    by_cases heq : name = info.tableName
    · subst heq
      rw [Function.update_self, Option.some.injEq] at hothers
      subst hothers
      obtain ⟨hnodup, hlisted⟩ := h.indexNames _ _ hnames
      rw [List.map_append]
      refine ⟨?_, ?_⟩
      · refine List.nodup_append.mpr ⟨hnodup, List.nodup_singleton _, ?_⟩
        rintro i hmem j hnew rfl
        obtain ⟨old, hold, -⟩ := (hlisted i).mp hmem
        rw [List.map_singleton, List.mem_singleton] at hnew
        rw [hnew, hfree] at hold
        cases hold
      · intro i
        rw [List.mem_append, hlisted, hexists, or_comm, List.map_singleton, List.mem_singleton]
        exact or_congr_left (and_iff_left rfl).symm
    · rw [Function.update_of_ne heq] at hothers
      obtain ⟨hnodup, hlisted⟩ := h.indexNames name others hothers
      refine ⟨hnodup, ?_⟩
      intro i
      rw [hlisted, hexists]
      exact (or_iff_right fun hand => heq hand.2.symm).symm
  case hasTable =>
    intro i info' hinfo'
    rcases (hexists i info'.tableName).mp ⟨info', hinfo', rfl⟩ with ⟨-, heq⟩ | ⟨old, hold, heq⟩
    · rw [← heq]
      exact ⟨oid, hname⟩
    · rw [← heq]
      exact h.hasTable i old hold
  case freshTable => exact h.freshTable
  case freshIndex =>
    intro i hle
    have hlt : catalog.nextIndexOid < i := Nat.lt_of_succ_le hle
    dsimp only
    rw [Function.update_of_ne hlt.ne']
    exact h.freshIndex i hlt.le

/-- `CreateIndex` for the schema of the table. -/
theorem Mirrored.createIndex {indexName : String} {schema keySchema : Schema}
    {keyAttrs : List Nat} {info? : Option IndexInfo} (hwf : catalog.WellFormed)
    (h : catalog.Mirrored fun table => table.visible pool)
    (hheaps : ∀ table ∈ catalog.heaps, ∃ pageIds heap,
      TableHeap.HeapOk pool table.firstPageId pageIds heap)
    (hschema : ∀ tableInfo, catalog.getTableNamed tableName = .ok (some tableInfo) →
      tableInfo.schema = schema)
    (hcreate : catalog.createIndex pool indexName tableName schema keySchema keyAttrs =
      .ok (info?, catalog')) :
    catalog'.WellFormed ∧ catalog'.Mirrored fun table => table.visible pool := by
  rcases createIndex_cases hcreate with rfl | ⟨tableIndexes, index, info, hnames, hnew, rfl, rfl⟩
  · exact ⟨hwf, h⟩
  · obtain ⟨oid, tableInfo, hname, hinfo, hmirrors⟩ := newIndex_spec hheaps hnew
    refine ⟨hwf.addIndex hname hnames indexName, ?_⟩
    intro i info' oid' tableInfo' hinfo' htable' hname'
    dsimp only at hinfo' htable'
    by_cases heq : i = catalog.nextIndexOid
    · subst heq
      rw [Function.update_self, Option.some.injEq] at hinfo'
      subst hinfo'
      have hoid := hwf.tableName oid' tableInfo' htable'
      rw [hname', hname, Option.some.injEq] at hoid
      subst hoid
      rw [hinfo, Option.some.injEq] at htable'
      subst htable'
      have hnamed : catalog.getTableNamed tableName = .ok (some tableInfo) := by
        unfold getTableNamed
        rw [hname]
        dsimp only
        rw [hinfo]
      have hsame := hschema tableInfo hnamed
      subst hsame
      exact hmirrors
    · rw [Function.update_of_ne heq] at hinfo'
      exact h i info' oid' tableInfo' hinfo' htable' hname'

/-! ## New tables -/

/-- A new table gets the next id and a name of its own. -/
theorem WellFormed.addTable (h : catalog.WellFormed)
    (hfree : catalog.tableNames tableInfo.name = none)
    (hoid : tableInfo.table.oid = catalog.nextTableOid) :
    WellFormed { catalog with
      nextTableOid := catalog.nextTableOid + 1
      tables := Function.update catalog.tables catalog.nextTableOid (some tableInfo)
      tableNames := Function.update catalog.tableNames tableInfo.name (some catalog.nextTableOid)
      indexNames := Function.update catalog.indexNames tableInfo.name (some []) } := by
  have hne : ∀ {name oid}, catalog.tableNames name = some oid → name ≠ tableInfo.name := by
    rintro name oid hname rfl
    rw [hfree] at hname
    cases hname
  constructor
  case heapOid =>
    intro oid info hinfo
    dsimp only at hinfo
    by_cases heq : oid = catalog.nextTableOid
    · subst heq
      rw [Function.update_self, Option.some.injEq] at hinfo
      rw [← hinfo, hoid]
    · rw [Function.update_of_ne heq] at hinfo
      exact h.heapOid oid info hinfo
  case tableName =>
    intro oid info hinfo
    dsimp only at hinfo ⊢
    by_cases heq : oid = catalog.nextTableOid
    · subst heq
      rw [Function.update_self, Option.some.injEq] at hinfo
      rw [← hinfo, Function.update_self]
    · rw [Function.update_of_ne heq] at hinfo
      have hname := h.tableName oid info hinfo
      rw [Function.update_of_ne (hne hname), hname]
  case named =>
    intro name oid hname
    dsimp only at hname ⊢
    by_cases heq : name = tableInfo.name
    · rw [heq, Function.update_self, Option.some.injEq] at hname
      rw [← hname, Function.update_self, heq]
      exact ⟨tableInfo, rfl, rfl⟩
    · rw [Function.update_of_ne heq] at hname
      obtain ⟨info, hinfo, hnamed⟩ := h.named name oid hname
      have hneOid : oid ≠ catalog.nextTableOid := by
        rintro rfl
        rw [h.freshTable _ (le_refl _)] at hinfo
        cases hinfo
      rw [Function.update_of_ne hneOid]
      exact ⟨info, hinfo, hnamed⟩
  case indexNames =>
    intro name others hothers
    dsimp only at hothers
    by_cases heq : name = tableInfo.name
    · rw [heq, Function.update_self, Option.some.injEq] at hothers
      subst hothers
      refine ⟨List.nodup_nil, ?_⟩
      intro i
      -- an index on the new name would have a table of that name
      refine iff_of_false nofun ?_
      rintro ⟨info, hinfo, rfl⟩
      obtain ⟨oid, hname⟩ := h.hasTable i info hinfo
      exact hne hname heq
    · rw [Function.update_of_ne heq] at hothers
      exact h.indexNames name others hothers
  case hasTable =>
    intro i info hinfo
    obtain ⟨oid, hname⟩ := h.hasTable i info hinfo
    refine ⟨oid, ?_⟩
    dsimp only
    rw [Function.update_of_ne (hne hname), hname]
  case freshTable =>
    intro oid hle
    have hlt : catalog.nextTableOid < oid := Nat.lt_of_succ_le hle
    dsimp only
    rw [Function.update_of_ne hlt.ne']
    exact h.freshTable oid hlt.le
  case freshIndex => exact h.freshIndex

/-- No index is about a new table. -/
theorem Mirrored.addTable (h : catalog.Mirrored rows) (hwf : catalog.WellFormed)
    (hfree : catalog.tableNames tableInfo.name = none)
    (hsame : ∀ table ∈ catalog.heaps, rows' table = rows table)
    (htables : catalog'.tables =
      Function.update catalog.tables catalog.nextTableOid (some tableInfo))
    (hindexes : catalog'.indexes = catalog.indexes) : catalog'.Mirrored rows' := by
  intro i info oid info' hinfo htable hname
  rw [hindexes] at hinfo
  rw [htables] at htable
  obtain ⟨oid', hoid'⟩ := hwf.hasTable i info hinfo
  by_cases heq : oid = catalog.nextTableOid
  · subst heq
    rw [Function.update_self, Option.some.injEq] at htable
    rw [← hname, ← htable, hfree] at hoid'
    cases hoid'
  · rw [Function.update_of_ne heq] at htable
    rw [hsame _ ⟨oid, info', htable, rfl⟩]
    exact h i info oid info' hinfo htable hname

end Catalog

/-! ## The changes of the executors -/

open TableHeap Catalog

variable {before after : RID → Option Tuple} {schema : Schema} {tuple newTuple : Tuple} {rid : RID}

theorem InsertExecutor.insertEntry_keepsUp
    (hshows : Shows before after (.insertTuple tuple) (.inserted (some rid))) :
    KeepsUp (insertEntry schema tuple rid) schema before after := by
  intro info info' hok
  unfold insertEntry at hok
  split at hok
  · cases hok
  next key hkey =>
    cases hok
    exact ⟨_, rfl, fun hbefore => hbefore.add hshows.1 hkey hshows.2⟩

theorem DeleteExecutor.deleteEntry_keepsUp (hold : before rid = some tuple)
    (hshows : Shows before after (.markDelete rid) (.marked true)) :
    KeepsUp (deleteEntry schema tuple rid) schema before after := by
  intro info info' hok
  unfold deleteEntry at hok
  split at hok
  · cases hok
  next key hkey =>
    cases hok
    exact ⟨_, rfl, fun hbefore => hbefore.remove hold hkey hshows⟩

theorem UpdateExecutor.replaceEntry_keepsUp (hold : before rid = some tuple)
    (hshows : Shows before after (.updateTuple newTuple rid) (.updated true)) :
    KeepsUp (replaceEntry schema tuple newTuple rid) schema before after := by
  intro info info' hok
  unfold replaceEntry at hok
  split at hok
  · cases hok
  next key hkey =>
    split at hok
    · cases hok
    next oldKey holdKey =>
      cases hok
      exact ⟨_, rfl, fun hbefore => hbefore.replace hold holdKey hkey hshows⟩

end BusTub
