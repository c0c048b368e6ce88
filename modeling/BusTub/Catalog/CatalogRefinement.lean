import BusTub.Catalog.Catalog
import BusTub.Catalog.ObjectIds

/-! # Catalogs without wraparound

The catalog that executors and transactions use counts its ids without a bound. It creates
what the maps with words as ids create, as long as its counters are words.
-/

namespace BusTub.CatalogMaps

/-- `TableInfo` with its id as a word. -/
def entryOf (info : TableInfo) : TableEntry (Schema × TableHeap) where
  name := info.name
  content := (info.schema, info.table)
  oid := UInt32.ofNat info.oid

/-- `IndexInfo` with its id as a word. -/
def indexEntryOf (info : IndexInfo) : IndexEntry (Schema × Index) where
  content := (info.keySchema, info.index)
  name := info.name
  indexOid := UInt32.ofNat info.indexOid
  tableName := info.tableName

/-- The indexes of a table with their ids as words. -/
def wordIndexes (tableIndexes : List (String × IndexOid)) : List (String × UInt32) :=
  tableIndexes.map fun named => (named.1, UInt32.ofNat named.2)

/-- The maps are those of the catalog. -/
structure Mirrors (maps : CatalogMaps (Schema × TableHeap) (Schema × Index)) (catalog : Catalog) :
    Prop where
  tables : ∀ oid < 2 ^ 32, maps.tables (UInt32.ofNat oid) = (catalog.tables oid).map entryOf
  tableNames : ∀ tableName,
    maps.tableNames tableName = (catalog.tableNames tableName).map UInt32.ofNat
  nextTableOid : maps.nextTableOid = UInt32.ofNat catalog.nextTableOid
  indexes : ∀ oid < 2 ^ 32, maps.indexes (UInt32.ofNat oid) = (catalog.indexes oid).map indexEntryOf
  indexNames : ∀ tableName,
    maps.indexNames tableName = (catalog.indexNames tableName).map wordIndexes
  nextIndexOid : maps.nextIndexOid = UInt32.ofNat catalog.nextIndexOid
  newTables : ∀ oid, catalog.nextTableOid ≤ oid → catalog.tables oid = none
  newIndexes : ∀ oid, catalog.nextIndexOid ≤ oid → catalog.indexes oid = none
  named : ∀ tableName oid, catalog.tableNames tableName = some oid → oid < catalog.nextTableOid
  indexed : ∀ tableName, catalog.tableNames tableName = none → catalog.indexNames tableName = none
  tableCount : catalog.nextTableOid ≤ 2 ^ 32
  indexCount : catalog.nextIndexOid ≤ 2 ^ 32

theorem mirrors_empty : Mirrors empty Catalog.empty where
  tables _ _ := rfl
  tableNames _ := rfl
  nextTableOid := rfl
  indexes _ _ := rfl
  indexNames _ := rfl
  nextIndexOid := rfl
  newTables _ _ := rfl
  newIndexes _ _ := rfl
  named _ _ h := by cases h
  indexed _ _ := rfl
  tableCount := Nat.zero_le _
  indexCount := Nat.zero_le _

variable {maps : CatalogMaps (Schema × TableHeap) (Schema × Index)} {catalog : Catalog}

/-- Words of different numbers below the bound are different. -/
theorem ofNat_ne {i k : Nat} (hi : i < 2 ^ 32) (hk : k < 2 ^ 32) (hne : i ≠ k) :
    UInt32.ofNat i ≠ UInt32.ofNat k := by
  intro hsame
  have hword := congrArg UInt32.toNat hsame
  rw [UInt32.toNat_ofNat_of_lt' (by simpa using hi),
    UInt32.toNat_ofNat_of_lt' (by simpa using hk)] at hword
  exact hne hword

/-- Maps that agree below the bound agree there after an update. -/
theorem update_word {V W : Type} {words : UInt32 → Option V} {numbers : Nat → Option W}
    {f : W → V} (h : ∀ oid < 2 ^ 32, words (UInt32.ofNat oid) = (numbers oid).map f) {n : Nat}
    (hn : n < 2 ^ 32) (value : W) :
    ∀ oid < 2 ^ 32, Function.update words (UInt32.ofNat n) (some (f value)) (UInt32.ofNat oid) =
      (Function.update numbers n (some value) oid).map f := by
  intro oid hoid
  by_cases heq : oid = n
  · subst heq
    rw [Function.update_self, Function.update_self]
    rfl
  · rw [Function.update_of_ne heq, Function.update_of_ne (ofNat_ne hoid hn heq)]
    exact h oid hoid

/-- Maps that agree on all names do so after an update. -/
theorem update_name {V W : Type} {words : String → Option V} {numbers : String → Option W}
    {f : W → V} (h : ∀ name, words name = (numbers name).map f) (tableName : String) (value : W) :
    ∀ name, Function.update words tableName (some (f value)) name =
      (Function.update numbers tableName (some value) name).map f := by
  intro name
  by_cases heq : name = tableName
  · subst heq
    rw [Function.update_self, Function.update_self]
    rfl
  · rw [Function.update_of_ne heq, Function.update_of_ne heq]
    exact h name

/-- A table whose name is taken is rejected by both. -/
theorem Mirrors.createTable_of_taken (h : Mirrors maps catalog) {tableName : String}
    (htaken : (catalog.tableNames tableName).isSome) (pool : PagePool) (schema : Schema)
    (content : Option (Schema × TableHeap)) :
    catalog.createTable pool tableName schema = none ∧
      maps.createTable tableName content = .ok (none, maps) := by
  obtain ⟨oid, hoid⟩ := Option.isSome_iff_exists.mp htaken
  have hword := h.tableNames tableName
  rw [hoid, Option.map_some] at hword
  constructor
  · simp only [Catalog.createTable, hoid]
  · simp only [createTable, hword]

/-- Both have the table under the next id, while the counter is a word. -/
theorem Mirrors.addTable (h : Mirrors maps catalog) {tableName : String}
    (hroom : catalog.nextTableOid < 2 ^ 32) (hname : catalog.tableNames tableName = none)
    (schema : Schema) (table : TableHeap) :
    Mirrors (maps.addTable tableName (schema, table)) { catalog with
      nextTableOid := catalog.nextTableOid + 1
      tables := Function.update catalog.tables catalog.nextTableOid
        (some { schema, name := tableName, table, oid := catalog.nextTableOid })
      tableNames := Function.update catalog.tableNames tableName (some catalog.nextTableOid)
      indexNames := Function.update catalog.indexNames tableName (some []) } := by
  have hname' := h.tableNames tableName
  rw [hname, Option.map_none] at hname'
  have hindexes := h.indexNames tableName
  rw [h.indexed tableName hname, Option.map_none] at hindexes
  have hoid := h.tables catalog.nextTableOid hroom
  rw [h.newTables _ (le_refl _), Option.map_none, ← h.nextTableOid] at hoid
  unfold CatalogMaps.addTable
  simp only [emplace_of_none hname', emplace_of_none hoid, emplace_of_none hindexes]
  refine ⟨?_, ?_, ?_, h.indexes, ?_, h.nextIndexOid, ?_, h.newIndexes, ?_, ?_, hroom,
    h.indexCount⟩ <;> dsimp only
  · rw [h.nextTableOid]
    exact update_word h.tables hroom
      { schema, name := tableName, table, oid := catalog.nextTableOid }
  · rw [h.nextTableOid]
    exact update_name h.tableNames tableName catalog.nextTableOid
  · rw [h.nextTableOid, UInt32.ofNat_add]
    rfl
  · exact update_name h.indexNames tableName []
  · intro oid hle
    have hlt : catalog.nextTableOid < oid := hle
    rw [Function.update_of_ne hlt.ne']
    exact h.newTables oid hlt.le
  · intro other oid hother
    rcases update_some_iff.mp hother with ⟨rfl, rfl⟩ | ⟨-, hother⟩
    · exact Nat.lt_succ_self _
    · exact Nat.lt_succ_of_lt (h.named other oid hother)
  · intro other hother
    by_cases heq : other = tableName
    · subst heq
      rw [Function.update_self] at hother
      cases hother
    · rw [Function.update_of_ne heq] at hother ⊢
      exact h.indexed other hother

/-- A table is created by both, while the counter is a word. -/
theorem Mirrors.createTable_of_ok (h : Mirrors maps catalog) {pool pool' : PagePool}
    {tableName : String} {schema : Schema} {info : TableInfo} {catalog' : Catalog}
    (hroom : catalog.nextTableOid < 2 ^ 32)
    (hcreate : catalog.createTable pool tableName schema = some (info, catalog', pool')) :
    ∃ maps', maps.createTable tableName (some (schema, info.table)) =
        .ok (some (entryOf info), maps') ∧ Mirrors maps' catalog' := by
  unfold Catalog.createTable at hcreate
  split at hcreate
  · cases hcreate
  next hname =>
    dsimp only at hcreate
    split at hcreate
    · cases hcreate
    next table made hmade =>
      cases hcreate
      have hname' := h.tableNames tableName
      rw [hname, Option.map_none] at hname'
      refine ⟨maps.addTable tableName (schema, table), ?_, h.addTable hroom hname schema table⟩
      simp only [createTable, hname', entryOf, h.nextTableOid]

theorem lookup_wordIndexes (tableIndexes : List (String × IndexOid)) (indexName : String) :
    (wordIndexes tableIndexes).lookup indexName = none ↔
      (tableIndexes.any fun named => named.1 == indexName) = false := by
  rw [List.lookup_eq_none_iff, List.any_eq_false]
  unfold wordIndexes
  constructor
  · intro hnone named hmem
    have hne := bne_iff_ne.mp (hnone _ (List.mem_map_of_mem hmem))
    exact fun heq => hne (beq_iff_eq.mp heq).symm
  · rintro hnone named hmem
    obtain ⟨old, hold, rfl⟩ := List.mem_map.mp hmem
    exact bne_iff_ne.mpr fun heq => hnone old hold (beq_iff_eq.mpr heq.symm)

/-- The metadata of a table that has a name. -/
theorem Mirrors.getTableNamed_of_ok (h : Mirrors maps catalog) {tableName : String}
    {info : TableInfo} (hinfo : catalog.getTableNamed tableName = .ok (some info)) :
    maps.getTableNamed tableName = .ok (some (entryOf info)) := by
  unfold Catalog.getTableNamed at hinfo
  split at hinfo
  · cases hinfo
  next oid hname =>
    split at hinfo
    · cases hinfo
    next info' htable =>
      cases hinfo
      have hname' := h.tableNames tableName
      rw [hname, Option.map_some] at hname'
      have htable' := h.tables oid (lt_of_lt_of_le (h.named tableName oid hname) h.tableCount)
      rw [htable, Option.map_some] at htable'
      simp only [getTableNamed, hname', htable']

/-- Both have the index under the next id, while the counter is a word. -/
theorem Mirrors.addIndex (h : Mirrors maps catalog) {indexName tableName : String}
    {tableIndexes : List (String × IndexOid)} (hroom : catalog.nextIndexOid < 2 ^ 32)
    (hname : catalog.tableNames tableName ≠ none) (keySchema : Schema) (index : Index) :
    Mirrors (maps.addIndex indexName tableName (wordIndexes tableIndexes) (keySchema, index))
      { catalog with
        nextIndexOid := catalog.nextIndexOid + 1
        indexes := Function.update catalog.indexes catalog.nextIndexOid
          (some { keySchema, name := indexName, index, indexOid := catalog.nextIndexOid,
                  tableName })
        indexNames := Function.update catalog.indexNames tableName
          (some (tableIndexes ++ [(indexName, catalog.nextIndexOid)])) } := by
  have hoid := h.indexes catalog.nextIndexOid hroom
  rw [h.newIndexes _ (le_refl _), Option.map_none, ← h.nextIndexOid] at hoid
  unfold CatalogMaps.addIndex
  simp only [emplace_of_none hoid]
  refine ⟨h.tables, h.tableNames, h.nextTableOid, ?_, ?_, ?_, h.newTables, ?_, h.named, ?_,
    h.tableCount, hroom⟩ <;> dsimp only
  · rw [h.nextIndexOid]
    exact update_word h.indexes hroom
      { keySchema, name := indexName, index, indexOid := catalog.nextIndexOid, tableName }
  · have hwords : wordIndexes tableIndexes ++ [(indexName, maps.nextIndexOid)] =
        wordIndexes (tableIndexes ++ [(indexName, catalog.nextIndexOid)]) := by
      unfold wordIndexes
      rw [h.nextIndexOid, List.map_append]
      rfl
    rw [hwords]
    exact update_name h.indexNames tableName _
  · rw [h.nextIndexOid, UInt32.ofNat_add]
    rfl
  · intro other hle
    have hlt : catalog.nextIndexOid < other := hle
    rw [Function.update_of_ne hlt.ne']
    exact h.newIndexes other hlt.le
  · intro other hother
    by_cases heq : other = tableName
    · subst heq
      exact absurd hother hname
    · rw [Function.update_of_ne heq]
      exact h.indexed other hother

/-- An index that was made is one of a table with metadata. -/
theorem exists_of_newIndex {pool : PagePool} {indexName tableName : String}
    {schema keySchema : Schema} {keyAttrs : List Nat} {index : Index}
    (hindex : catalog.newIndex pool indexName tableName schema keySchema keyAttrs = .ok index) :
    ∃ tableMeta, catalog.getTableNamed tableName = .ok (some tableMeta) := by
  unfold Catalog.newIndex at hindex
  split at hindex
  · cases hindex
  · split at hindex
    · cases hindex
    · cases hindex
    next tableMeta hmeta => exact ⟨tableMeta, hmeta⟩

/-- An index is rejected or created by both, while the counter is a word. -/
theorem Mirrors.createIndex_of_ok (h : Mirrors maps catalog) {pool : PagePool}
    {indexName tableName : String} {schema keySchema : Schema} {keyAttrs : List Nat}
    {info : Option IndexInfo} {catalog' : Catalog} (hroom : catalog.nextIndexOid < 2 ^ 32)
    (hcreate : catalog.createIndex pool indexName tableName schema keySchema keyAttrs =
      .ok (info, catalog')) :
    ∃ maps', maps.createIndex indexName tableName
        (fun _ => info.map fun info => (keySchema, info.index)) =
          .ok (info.map indexEntryOf, maps') ∧ Mirrors maps' catalog' := by
  unfold Catalog.createIndex at hcreate
  split at hcreate
  next hname =>
    cases hcreate
    have hname' := h.tableNames tableName
    rw [hname, Option.map_none] at hname'
    exact ⟨maps, by simp only [createIndex, hname', Option.map_none], h⟩
  next oid hname =>
    have hname' := h.tableNames tableName
    rw [hname, Option.map_some] at hname'
    split at hcreate
    · cases hcreate
    next tableIndexes hindexes =>
      have hindexes' := h.indexNames tableName
      rw [hindexes, Option.map_some] at hindexes'
      split at hcreate
      next hthere =>
        cases hcreate
        cases hlookup : (wordIndexes tableIndexes).lookup indexName with
        | none =>
            rw [lookup_wordIndexes, hthere] at hlookup
            cases hlookup
        | some old =>
            exact ⟨maps, by simp only [createIndex, hname', hindexes', hlookup, Option.map_none], h⟩
      next hthere =>
        have hlookup := (lookup_wordIndexes tableIndexes indexName).mpr
          (Bool.eq_false_iff.mpr hthere)
        split at hcreate
        · cases hcreate
        next index hindex =>
          cases hcreate
          obtain ⟨tableMeta, hmeta⟩ := exists_of_newIndex hindex
          have hmeta' := h.getTableNamed_of_ok hmeta
          have hsome : catalog.tableNames tableName ≠ none := by
            rw [hname]
            exact Option.some_ne_none oid
          refine ⟨maps.addIndex indexName tableName (wordIndexes tableIndexes) (keySchema, index),
            ?_, h.addIndex hroom hsome keySchema index⟩
          simp only [createIndex, hname', hindexes', hlookup, hmeta', Option.map_some,
            indexEntryOf, h.nextIndexOid]

end BusTub.CatalogMaps
