import BusTub.Execution.AggregationExecutor
import BusTub.Execution.WriteExecutors
import BusTub.Types.HashUtil

/-! # Hash tables whose keys are rows of values

`DistinctKey` and `AggregateKey` compare and hash their values alike. A table keeps its
entries in the order of their insertion.
-/

namespace BusTub

/-- `CombineHashes`. -/
def HashUtil.combineHashes (l r : UInt64) : UInt64 :=
  hashBytes (toBytes 8 l.toNat ++ toBytes 8 r.toNat)

/-- An entry of a table: the hash of its key, which the table keeps, the key and what is
stored with it. -/
structure KeyedEntry (α : Type) where
  hash : UInt64
  key : List Value
  value : α
  deriving DecidableEq, Repr

namespace KeyedEntry

variable {α : Type}

/-- The hash of a key, with the values that are NULL left out. -/
def hashKey (key : List Value) : Except EvalFault UInt64 :=
  key.foldlM (fun currHash value =>
    if value.isNull then .ok currHash
    else do
      let hash ← HashUtil.hashValue value
      .ok (HashUtil.combineHashes currHash hash)) 0

variable [DoubleText]

/-- `operator==`: the loop goes over the values of the other key. -/
def equalKeys : List Value → List Value → Except EvalFault Bool
  | _, [] => .ok true
  | [], _ :: _ => .error .noSuchEntry
  | value :: values, other :: others =>
      match value.compareEquals other with
      | .error fault => .error fault
      | .ok .cmpTrue => equalKeys values others
      | .ok _ => .ok false

/-- The entry is that of a key: the hashes agree, and the keys are equal. -/
def holds (entry : KeyedEntry α) (hash : UInt64) (key : List Value) : Except EvalFault Bool :=
  if entry.hash = hash then equalKeys key entry.key else .ok false

/-- `count`, which is 1 at most. -/
def contains (hash : UInt64) (key : List Value) :
    List (KeyedEntry α) → Except EvalFault Bool
  | [] => .ok false
  | entry :: rest =>
      match entry.holds hash key with
      | .error fault => .error fault
      | .ok true => .ok true
      | .ok false => contains hash key rest

/-- A change of what `operator[]` refers to: the value stored with the key, or the default
value that is inserted when there is no entry. -/
def alter (hash : UInt64) (key : List Value) (default : α) (change : α → Except EvalFault α) :
    List (KeyedEntry α) → Except EvalFault (List (KeyedEntry α))
  | [] =>
      match change default with
      | .error fault => .error fault
      | .ok value => .ok [{ hash, key, value }]
  | entry :: rest =>
      match entry.holds hash key with
      | .error fault => .error fault
      | .ok true =>
          match change entry.value with
          | .error fault => .error fault
          | .ok value => .ok ({ entry with value } :: rest)
      | .ok false =>
          match alter hash key default change rest with
          | .error fault => .error fault
          | .ok rest => .ok (entry :: rest)

end KeyedEntry

/-! ## The tables of `DistinctExecutor` and of `SimpleAggregationHashTable` -/

/-- `AggregationType`. -/
inductive AggregationType where
  | countAggregate
  | sumAggregate
  | minAggregate
  | maxAggregate
  deriving DecidableEq, Repr

/-- The lesser and the greater one of two values. -/
class ValueExtremes where
  /-- `Value::Min`. -/
  min : Value → Value → Except EvalFault Value
  /-- `Value::Max`. -/
  max : Value → Value → Except EvalFault Value

/-- The key of a row of `DistinctExecutor`: the values of its columns. -/
def distinctKey (outputSchema : Schema) (tuple : Tuple) : Except EvalFault (List Value) :=
  (List.range outputSchema.columns.length).mapM fun i => tuple.getValue outputSchema i

/-- The body of the loop of `DistinctExecutor::Next`: the table with the key of the row, if it
is new. -/
def addDistinct [DoubleText] (outputSchema : Schema) (hashTable : List (KeyedEntry Unit))
    (tuple : Tuple) : Except EvalFault (Option (List (KeyedEntry Unit))) := do
  let key ← distinctKey outputSchema tuple
  let hash ← KeyedEntry.hashKey key
  let found ← KeyedEntry.contains hash key hashTable
  .ok (if found then none else some (hashTable ++ [{ hash, key, value := () }]))

namespace SimpleAggregationHashTable

/-- `GenerateInitialAggregateValue`. -/
def generateInitialAggregateValue (aggTypes : List AggregationType) : List Value :=
  aggTypes.map fun
    | .countAggregate => .integer 0
    | .sumAggregate => .integer 0
    | .minAggregate => .integer Int32.maxValue
    | .maxAggregate => .integer (Int32.minValue + 1)

variable [ValueArithmetic] [ValueExtremes]

/-- The body of the loop of `CombineAggregateValues`. -/
def combineAt (aggTypes : List AggregationType) (input result : List Value) (i : Nat) :
    Except EvalFault (List Value) :=
  match aggTypes[i]?, result[i]?, input[i]? with
  | some aggType, some old, some value => do
      let combined ← match aggType with
        | .countAggregate => ValueArithmetic.add old (.integer 1)
        | .sumAggregate => ValueArithmetic.add old value
        | .minAggregate => ValueExtremes.min old value
        | .maxAggregate => ValueExtremes.max old value
      .ok (result.set i combined)
  | _, _, _ => .error .noSuchEntry

/-- `CombineAggregateValues`. -/
def combineAggregateValues (aggTypes : List AggregationType) (input result : List Value) :
    Except EvalFault (List Value) :=
  (List.range input.length).foldlM (combineAt aggTypes input) result

/-- `InsertCombine`. -/
def insertCombine [DoubleText] (aggTypes : List AggregationType)
    (aggKey aggVal : List Value) (ht : List (KeyedEntry (List Value))) :
    Except EvalFault (List (KeyedEntry (List Value))) := do
  let hash ← KeyedEntry.hashKey aggKey
  let found ← KeyedEntry.contains hash aggKey ht
  let ht := if found then ht
    else ht ++ [{ hash, key := aggKey, value := generateInitialAggregateValue aggTypes }]
  KeyedEntry.alter hash aggKey [] (combineAggregateValues aggTypes aggVal) ht

end SimpleAggregationHashTable

end BusTub
