import BusTub.Common
import BusTub.Library.Machine
import Mathlib.Data.Finset.Card
import Mathlib.Logic.Function.Basic

/-! # Object ids

The maps and the counters of `Catalog` with the ids as the words that they are: a counter
wraps around, and `emplace` leaves a key that is there alone.
-/

namespace BusTub

/-- `TableInfo`: the schema and the heap are one value. -/
structure TableEntry (τ : Type) where
  name : String
  content : τ
  oid : UInt32
  deriving DecidableEq, Repr

/-- `IndexInfo`: the key schema, its size and the index are one value. -/
structure IndexEntry (κ : Type) where
  content : κ
  name : String
  indexOid : UInt32
  tableName : String
  deriving DecidableEq, Repr

/-- Why a call does not return. -/
inductive CreationFault where
  /-- The heap or the index cannot be constructed. -/
  | construction
  /-- "Broken Invariant". -/
  | brokenInvariant
  /-- The metadata of a table that does not exist is used. -/
  | nullInfo
  deriving DecidableEq, Repr

/-- `Catalog`. -/
structure CatalogMaps (τ κ : Type) where
  tables : UInt32 → Option (TableEntry τ)
  tableNames : String → Option UInt32
  nextTableOid : UInt32
  indexes : UInt32 → Option (IndexEntry κ)
  indexNames : String → Option (List (String × UInt32))
  nextIndexOid : UInt32

/-- `emplace`: a key that is there keeps its value. -/
def emplace {K V : Type} [DecidableEq K] (map : K → Option V) (key : K) (value : V) :
    K → Option V :=
  match map key with
  | some _ => map
  | none => Function.update map key (some value)

theorem emplace_of_none {K V : Type} [DecidableEq K] {map : K → Option V} {key : K}
    (hnone : map key = none) (value : V) :
    emplace map key value = Function.update map key (some value) := by
  unfold emplace
  rw [hnone]

/-- What an updated map has: the new value, or an old one under another key. -/
theorem update_some_iff {K V : Type} [DecidableEq K] {map : K → Option V} {key other : K}
    {value found : V} :
    Function.update map key (some value) other = some found ↔
      (key = other ∧ value = found) ∨ (other ≠ key ∧ map other = some found) := by
  by_cases heq : other = key
  · subst heq
    rw [Function.update_self, Option.some_inj]
    simp
  · rw [Function.update_of_ne heq]
    simp [heq, Ne.symm heq]

namespace CatalogMaps

variable {τ κ : Type}

/-- The constructor. -/
def empty : CatalogMaps τ κ where
  tables _ := none
  tableNames _ := none
  nextTableOid := 0
  indexes _ := none
  indexNames _ := none
  nextIndexOid := 0

/-- `CreateTable` tracks a new table. -/
def addTable (maps : CatalogMaps τ κ) (tableName : String) (content : τ) : CatalogMaps τ κ :=
  let tableOid := maps.nextTableOid
  { maps with
    nextTableOid := tableOid + 1
    tables := emplace maps.tables tableOid { name := tableName, content, oid := tableOid }
    tableNames := emplace maps.tableNames tableName tableOid
    indexNames := emplace maps.indexNames tableName [] }

/-- `CreateTable`; `none` for the content if the heap cannot be constructed. -/
def createTable (maps : CatalogMaps τ κ) (tableName : String) (content : Option τ) :
    Except CreationFault (Option (TableEntry τ) × CatalogMaps τ κ) :=
  match maps.tableNames tableName with
  | some _ => .ok (none, maps)
  | none =>
      match content with
      | none => .error .construction
      | some content =>
          .ok (some { name := tableName, content, oid := maps.nextTableOid },
            maps.addTable tableName content)

/-- `GetTable` by the name of the table. -/
def getTableNamed (maps : CatalogMaps τ κ) (tableName : String) :
    Except CreationFault (Option (TableEntry τ)) :=
  match maps.tableNames tableName with
  | none => .ok none
  | some tableOid =>
      match maps.tables tableOid with
      | none => .error .brokenInvariant
      | some info => .ok (some info)

/-- `GetTable` by the id of the table. -/
def getTable (maps : CatalogMaps τ κ) (tableOid : UInt32) : Option (TableEntry τ) :=
  maps.tables tableOid

/-- `CreateIndex` tracks a new index of a table with these indexes. -/
def addIndex (maps : CatalogMaps τ κ) (indexName tableName : String)
    (tableIndexes : List (String × UInt32)) (content : κ) : CatalogMaps τ κ :=
  let indexOid := maps.nextIndexOid
  { maps with
    nextIndexOid := indexOid + 1
    indexes := emplace maps.indexes indexOid { content, name := indexName, indexOid, tableName }
    indexNames := Function.update maps.indexNames tableName
      (some (tableIndexes ++ [(indexName, indexOid)])) }

/-- `CreateIndex`; the index is constructed from the table, `none` if it cannot be. -/
def createIndex (maps : CatalogMaps τ κ) (indexName tableName : String)
    (construct : TableEntry τ → Option κ) :
    Except CreationFault (Option (IndexEntry κ) × CatalogMaps τ κ) :=
  match maps.tableNames tableName with
  | none => .ok (none, maps)
  | some _ =>
      match maps.indexNames tableName with
      | none => .error .brokenInvariant
      | some tableIndexes =>
          match tableIndexes.lookup indexName with
          | some _ => .ok (none, maps)
          | none =>
              match maps.getTableNamed tableName with
              | .error fault => .error fault
              | .ok none => .error .nullInfo
              | .ok (some tableMeta) =>
                  match construct tableMeta with
                  | none => .error .construction
                  | some content =>
                      let indexOid := maps.nextIndexOid
                      .ok (some { content, name := indexName, indexOid, tableName },
                        maps.addIndex indexName tableName tableIndexes content)

/-- `GetIndex` by the names of the index and of its table. -/
def getIndexNamed (maps : CatalogMaps τ κ) (indexName tableName : String) :
    Except CreationFault (Option (IndexEntry κ)) :=
  match maps.indexNames tableName with
  | none =>
      match maps.tableNames tableName with
      | none => .ok none
      | some _ => .error .brokenInvariant
  | some tableIndexes =>
      match tableIndexes.lookup indexName with
      | none => .ok none
      | some indexOid =>
          match maps.indexes indexOid with
          | none => .error .brokenInvariant
          | some info => .ok (some info)

/-- `GetIndex` by the name of the index and the id of its table. -/
def getIndexOfTable (maps : CatalogMaps τ κ) (indexName : String) (tableOid : UInt32) :
    Except CreationFault (Option (IndexEntry κ)) :=
  match maps.tables tableOid with
  | none => .ok none
  | some tableMeta => maps.getIndexNamed indexName tableMeta.name

/-- `GetIndex` by the id of the index. -/
def getIndex (maps : CatalogMaps τ κ) (indexOid : UInt32) : Option (IndexEntry κ) :=
  maps.indexes indexOid

/-- The loop of `GetTableIndexes`. -/
def collectIndexes (maps : CatalogMaps τ κ) :
    List (String × UInt32) → Except CreationFault (List (IndexEntry κ))
  | [] => .ok []
  | indexMeta :: rest =>
      match maps.indexes indexMeta.2 with
      | none => .error .brokenInvariant
      | some info =>
          match collectIndexes maps rest with
          | .error fault => .error fault
          | .ok infos => .ok (info :: infos)

/-- `GetTableIndexes`. -/
def getTableIndexes (maps : CatalogMaps τ κ) (tableName : String) :
    Except CreationFault (List (IndexEntry κ)) :=
  match maps.tableNames tableName with
  | none => .ok []
  | some _ =>
      match maps.indexNames tableName with
      | none => .error .brokenInvariant
      | some tableIndexes => maps.collectIndexes tableIndexes

end CatalogMaps

/-- The calls that create something. -/
inductive CreationCall (τ κ : Type) where
  | createTable (tableName : String) (content : Option τ)
  | createIndex (indexName tableName : String) (construct : TableEntry τ → Option κ)

/-- What the calls return, `none` for a null pointer. -/
inductive CreationOutcome (τ κ : Type) where
  | table (info : Option (TableEntry τ))
  | index (info : Option (IndexEntry κ))
  deriving DecidableEq

namespace CreationOutcome

variable {τ κ : Type}

/-- The id that a new table got. -/
def tableOid : CreationOutcome τ κ → Option UInt32
  | .table info => info.map TableEntry.oid
  | .index _ => none

/-- The id that a new index got. -/
def indexOid : CreationOutcome τ κ → Option UInt32
  | .table _ => none
  | .index info => info.map IndexEntry.indexOid

/-- Nothing was created. -/
def Rejected (outcome : CreationOutcome τ κ) : Prop := outcome = .table none ∨ outcome = .index none

end CreationOutcome

namespace CatalogMaps

variable {τ κ : Type}

/-- The creations one after the other. -/
def machine : Machine (CatalogMaps τ κ) (CreationCall τ κ) (CreationOutcome τ κ) CreationFault where
  step maps call :=
    match call with
    | .createTable tableName content =>
        (maps.createTable tableName content).map fun result => (.table result.1, result.2)
    | .createIndex indexName tableName construct =>
        (maps.createIndex indexName tableName construct).map fun result =>
          (.index result.1, result.2)

/-! ## What the catalog is for -/

/-- The names of the tables, and of the indexes behind the names of their tables. -/
structure Names where
  tables : Finset String
  indexes : Finset (String × String)
  deriving DecidableEq

/-- Which names are taken, with a word whether there is a new one. -/
def names : Machine Names (CreationCall τ κ) Bool Empty where
  step names call :=
    match call with
    | .createTable tableName _ =>
        if tableName ∈ names.tables then .ok (false, names)
        else .ok (true, { names with tables := insert tableName names.tables })
    | .createIndex indexName tableName _ =>
        if tableName ∉ names.tables ∨ (tableName, indexName) ∈ names.indexes then .ok (false, names)
        else .ok (true, { names with indexes := insert (tableName, indexName) names.indexes })

/-- A new table or index comes while its counter has an id that is not in use. -/
def HasOid (names : Names) : CreationCall τ κ → Prop
  | .createTable tableName _ => tableName ∉ names.tables → names.tables.card < 2 ^ 32
  | .createIndex indexName tableName _ => tableName ∈ names.tables →
      (tableName, indexName) ∉ names.indexes → names.indexes.card < 2 ^ 32

instance (names : Names) : DecidablePred (HasOid names : CreationCall τ κ → Prop)
  | .createTable tableName _ =>
      inferInstanceAs (Decidable (tableName ∉ names.tables → names.tables.card < 2 ^ 32))
  | .createIndex indexName tableName _ =>
      inferInstanceAs (Decidable (tableName ∈ names.tables →
        (tableName, indexName) ∉ names.indexes → names.indexes.card < 2 ^ 32))

/-- The maps agree. -/
structure Agree (maps : CatalogMaps τ κ) : Prop where
  named : ∀ tableName oid, maps.tableNames tableName = some oid →
    ∃ info, maps.tables oid = some info ∧ info.name = tableName
  stored : ∀ oid info, maps.tables oid = some info →
    info.oid = oid ∧ maps.tableNames info.name = some oid
  listed : ∀ tableName tableIndexes, maps.indexNames tableName = some tableIndexes →
    ∀ indexName oid, (indexName, oid) ∈ tableIndexes →
      ∃ info, maps.indexes oid = some info ∧ info.name = indexName ∧ info.tableName = tableName
  owned : ∀ oid info, maps.indexes oid = some info → info.indexOid = oid ∧
    ∃ tableIndexes, maps.indexNames info.tableName = some tableIndexes ∧
      (info.name, oid) ∈ tableIndexes
  indexed : ∀ tableName, (maps.indexNames tableName).isSome ↔ (maps.tableNames tableName).isSome
  once : ∀ tableName tableIndexes, maps.indexNames tableName = some tableIndexes →
    (tableIndexes.map Prod.fst).Nodup

/-- No lookup and no creation fails with "Broken Invariant". -/
structure Intact (maps : CatalogMaps τ κ) : Prop where
  getTable : ∀ tableName, maps.getTableNamed tableName ≠ .error .brokenInvariant
  getIndex : ∀ indexName tableName, maps.getIndexNamed indexName tableName ≠ .error .brokenInvariant
  getIndexOfTable : ∀ indexName tableOid,
    maps.getIndexOfTable indexName tableOid ≠ .error .brokenInvariant
  getTableIndexes : ∀ tableName, maps.getTableIndexes tableName ≠ .error .brokenInvariant
  create : ∀ call, machine.step maps call ≠ .error .brokenInvariant

/-- What a catalog promises after creations with these outcomes. -/
structure Consistent (outcomes : List (CreationOutcome τ κ)) (maps : CatalogMaps τ κ) : Prop where
  agree : maps.Agree
  intact : maps.Intact
  tableOids : (outcomes.filterMap CreationOutcome.tableOid).Nodup
  indexOids : (outcomes.filterMap CreationOutcome.indexOid).Nodup
  rejected : ∀ call outcome next, machine.step maps call = .ok (outcome, next) →
    outcome.Rejected → next = maps

end CatalogMaps

end BusTub
