import BusTub.Table.TableIterator
import BusTub.Types.TupleCodec

/-! # The catalog

What executors and transactions look up: the metadata of tables and indexes by id and
by name. An index is the set of its pairs.
-/

namespace BusTub

/-- Why a call that looks something up in the catalog does not return. -/
inductive CatalogFault where
  | heap (fault : HeapFault)
  | eval (fault : EvalFault)
  /-- "Broken Invariant". -/
  | brokenInvariant
  /-- The metadata of a table or an index that does not exist is used. -/
  | nullInfo
  deriving DecidableEq, Repr

/-- `TableInfo`. -/
structure TableInfo where
  schema : Schema
  name : String
  table : TableHeap
  oid : TableOid
  deriving DecidableEq, Repr

/-- `Schema::CopySchema`; none of the positions may be beyond the columns. -/
def Schema.copySchema (source : Schema) (attrs : List Nat) : Except EvalFault Schema := do
  let columns ← attrs.mapM fun i =>
    match source.columns[i]? with
    | some column => .ok column
    | none => .error .noSuchEntry
  .ok ⟨columns⟩

/-- `IndexMetadata`. -/
structure IndexMetadata where
  name : String
  tableName : String
  keyAttrs : List Nat
  keySchema : Schema
  deriving DecidableEq, Repr

/-- `Index` as a set of pairs of a key and a record id. -/
structure Index where
  metadata : IndexMetadata
  pairs : Finset (Tuple × RID)
  deriving DecidableEq

namespace Index

/-- `InsertEntry`. -/
def insertEntry (index : Index) (key : Tuple) (rid : RID) : Index :=
  { index with pairs := insert (key, rid) index.pairs }

/-- `DeleteEntry`. -/
def deleteEntry (index : Index) (key : Tuple) (rid : RID) : Index :=
  { index with pairs := index.pairs.erase (key, rid) }

end Index

/-- `IndexInfo`. -/
structure IndexInfo where
  keySchema : Schema
  name : String
  index : Index
  indexOid : IndexOid
  tableName : String
  deriving DecidableEq

/-- The key that the executors compute for a tuple of a table. -/
def IndexInfo.keyOf (indexInfo : IndexInfo) (schema : Schema) (tuple : Tuple) :
    Except EvalFault Tuple :=
  tuple.keyFromTuple schema indexInfo.keySchema indexInfo.index.metadata.keyAttrs

/-- `Catalog`. The object ids are numbers here and do not wrap around; `CatalogMaps` has
them as the words that they are. -/
structure Catalog where
  tables : TableOid → Option TableInfo
  tableNames : String → Option TableOid
  nextTableOid : TableOid
  indexes : IndexOid → Option IndexInfo
  indexNames : String → Option (List (String × IndexOid))
  nextIndexOid : IndexOid

namespace Catalog

/-- The constructor. -/
def empty : Catalog where
  tables _ := none
  tableNames _ := none
  nextTableOid := 0
  indexes _ := none
  indexNames _ := none
  nextIndexOid := 0

/-- `CreateTable`; `none` stands for `NULL_TABLE_INFO`, and for a counter of page ids that
would wrap around. -/
def createTable (catalog : Catalog) (pool : PagePool) (tableName : String) (schema : Schema) :
    Option (TableInfo × Catalog × PagePool) :=
  match catalog.tableNames tableName with
  | some _ => none
  | none =>
      let tableOid := catalog.nextTableOid
      match TableHeap.create pool tableOid with
      | none => none
      | some (table, pool) =>
          let info := { schema, name := tableName, table, oid := tableOid }
          some (info, { catalog with
            nextTableOid := tableOid + 1
            tables := Function.update catalog.tables tableOid (some info)
            tableNames := Function.update catalog.tableNames tableName (some tableOid)
            indexNames := Function.update catalog.indexNames tableName (some []) }, pool)

/-- `GetTable` by the name of the table. -/
def getTableNamed (catalog : Catalog) (tableName : String) :
    Except CatalogFault (Option TableInfo) :=
  match catalog.tableNames tableName with
  | none => .ok none
  | some tableOid =>
      match catalog.tables tableOid with
      | none => .error .brokenInvariant
      | some info => .ok (some info)

/-- `GetTable` by the id of the table. -/
def getTable (catalog : Catalog) (tableOid : TableOid) : Option TableInfo := catalog.tables tableOid

/-- `GetIndex` by the id of the index. -/
def getIndex (catalog : Catalog) (indexOid : IndexOid) : Option IndexInfo :=
  catalog.indexes indexOid

/-- `GetTableIndexes`: the ids of the indexes on the table. -/
def getTableIndexes (catalog : Catalog) (tableName : String) :
    Except CatalogFault (List IndexOid) :=
  match catalog.tableNames tableName with
  | none => .ok []
  | some _ =>
      match catalog.indexNames tableName with
      | none => .error .brokenInvariant
      | some tableIndexes =>
          if tableIndexes.all fun named => (catalog.indexes named.2).isSome then
            .ok (tableIndexes.map Prod.snd)
          else .error .brokenInvariant

/-- The loop of `CreateIndex` over the tuples of the table, at most `fuel` turns of it. -/
def populate (pool : PagePool) (schema keySchema : Schema) :
    Nat → TableIterator → Index → Except CatalogFault Index
  | 0, _, _ => .error (.heap .diverges)
  | fuel + 1, cur, index =>
      if cur.rid = TableIterator.endRid then .ok index
      else
        match cur.tuple.keyFromTuple schema keySchema index.metadata.keyAttrs with
        | .error fault => .error (.eval fault)
        | .ok key =>
            match TableIterator.advance pool cur with
            | .error fault => .error (.heap fault)
            | .ok following =>
                populate pool schema keySchema fuel following (index.insertEntry key cur.rid)

/-- The index of `CreateIndex` with all tuples of the table. -/
def newIndex (catalog : Catalog) (pool : PagePool) (indexName tableName : String)
    (schema keySchema : Schema) (keyAttrs : List Nat) : Except CatalogFault Index :=
  match schema.copySchema keyAttrs with
  | .error fault => .error (.eval fault)
  | .ok metadataSchema =>
      match catalog.getTableNamed tableName with
      | .error fault => .error fault
      | .ok none => .error .nullInfo
      | .ok (some tableMeta) =>
          match TableIterator.first tableMeta.table pool with
          | .error fault => .error (.heap fault)
          | .ok cur =>
              populate pool schema keySchema (pool.nextPageId.toNat * pageSize + 1) cur
                { metadata := { name := indexName, tableName, keyAttrs, keySchema := metadataSchema }
                  pairs := ∅ }

/-- `CreateIndex`; `none` stands for `NULL_INDEX_INFO`. -/
def createIndex (catalog : Catalog) (pool : PagePool) (indexName tableName : String)
    (schema keySchema : Schema) (keyAttrs : List Nat) :
    Except CatalogFault (Option IndexInfo × Catalog) :=
  match catalog.tableNames tableName with
  | none => .ok (none, catalog)
  | some _ =>
      match catalog.indexNames tableName with
      | none => .error .brokenInvariant
      | some tableIndexes =>
          if tableIndexes.any fun named => named.1 == indexName then .ok (none, catalog)
          else
            match catalog.newIndex pool indexName tableName schema keySchema keyAttrs with
            | .error fault => .error fault
            | .ok index =>
                let indexOid := catalog.nextIndexOid
                let info := { keySchema, name := indexName, index, indexOid, tableName }
                .ok (some info, { catalog with
                  nextIndexOid := indexOid + 1
                  indexes := Function.update catalog.indexes indexOid (some info)
                  indexNames := Function.update catalog.indexNames tableName
                    (some (tableIndexes ++ [(indexName, indexOid)])) })

/-- A loop over indexes that changes each of them. -/
def forIndexes (change : IndexInfo → Except EvalFault IndexInfo) :
    List IndexOid → Catalog → Except CatalogFault Catalog
  | [], catalog => .ok catalog
  | indexOid :: rest, catalog =>
      match catalog.getIndex indexOid with
      | none => .error .nullInfo
      | some info =>
          match change info with
          | .error fault => .error (.eval fault)
          | .ok info =>
              forIndexes change rest
                { catalog with indexes := Function.update catalog.indexes indexOid (some info) }

end Catalog

end BusTub
