import BusTub.Execution.NestedLoopJoinExecutor
import BusTub.Types.HashUtil

/-! # Hash joins

`HashJoinExecutor`: the constructor puts the values of the left rows into a hash table,
and `Next` looks up one right row after the other. `Next` reads the right columns from
the tuple that its caller passes, which it also writes the output to.
-/

namespace BusTub

/-- `HashJoinPlanNode`, with the output schemas of the children's plans. -/
structure HashJoinPlanNode where
  outputSchema : Schema
  leftSchema : Schema
  rightSchema : Schema
  leftJoinKeyExpression : Expression
  rightJoinKeyExpression : Expression
  deriving DecidableEq, Repr

/-- A node of the hash table: the hash of its key, which the table keeps, the `HashJoinKey`
and the rows. -/
structure HashJoinEntry where
  hash : UInt64
  key : Value
  rows : List (List Value)
  deriving DecidableEq, Repr

/-- `HashJoinExecutor`. -/
structure HashJoinExecutor where
  plan : HashJoinPlanNode
  leftChild : ChildExecutor
  rightChild : ChildExecutor
  nextPos : Nat := 0
  hashTable : List HashJoinEntry
  outerTableBuffer : List (List Value) := []
  deriving DecidableEq, Repr

namespace HashJoinEntry

variable [DoubleText]

/-- The entry is that of a key: the hashes agree, and the keys are equal. -/
def holds (entry : HashJoinEntry) (hash : UInt64) (key : Value) : Except EvalFault Bool :=
  if entry.hash = hash then
    match key.compareEquals entry.key with
    | .error fault => .error fault
    | .ok result => .ok (result = .cmpTrue)
  else .ok false

/-- `find`. -/
def find (hash : UInt64) (key : Value) :
    List HashJoinEntry → Except EvalFault (Option (List (List Value)))
  | [] => .ok none
  | entry :: rest =>
      match entry.holds hash key with
      | .error fault => .error fault
      | .ok true => .ok (some entry.rows)
      | .ok false => find hash key rest

/-- `push_back` to the rows of the key, or `insert` of the key with the row. -/
def addRow (hash : UInt64) (key : Value) (values : List Value) :
    List HashJoinEntry → Except EvalFault (List HashJoinEntry)
  | [] => .ok [{ hash, key, rows := [values] }]
  | entry :: rest =>
      match entry.holds hash key with
      | .error fault => .error fault
      | .ok true => .ok ({ entry with rows := entry.rows ++ [values] } :: rest)
      | .ok false =>
          match addRow hash key values rest with
          | .error fault => .error fault
          | .ok rest => .ok (entry :: rest)

end HashJoinEntry

namespace HashJoinExecutor

/-- The values of all columns of a left tuple. -/
def leftValues (plan : HashJoinPlanNode) (leftTuple : Tuple) : Except EvalFault (List Value) :=
  (List.range plan.leftSchema.columns.length).mapM fun i => leftTuple.getValue plan.leftSchema i

/-- The value of an output column, whose expression is taken for a column of one side. -/
def readColumn (plan : HashJoinPlanNode) (values : List Value) (tuple : Tuple) :
    Expression → Except EvalFault Value
  | .columnValue tupleIdx colIdx =>
      if tupleIdx = 0 then
        match values[colIdx]? with
        | some value => .ok value
        | none => .error .noSuchEntry
      else tuple.getValue plan.rightSchema colIdx
  | _ => .error .noColumnExpression

/-- The output tuple for a row of the buffer, with the right columns from a tuple. -/
def outputTuple (plan : HashJoinPlanNode) (values : List Value) (tuple : Tuple) :
    Except EvalFault Tuple := do
  let values ← outputValues (readColumn plan values tuple) plan.outputSchema
  Tuple.ofValues values plan.outputSchema

variable [DoubleText]

/-- One turn of the loop of the constructor. -/
def addLeft (plan : HashJoinPlanNode) (hashTable : List HashJoinEntry) (row : Tuple × RID) :
    Except EvalFault (List HashJoinEntry) := do
  let key ← plan.leftJoinKeyExpression.evaluate row.1 plan.leftSchema
  let values ← leftValues plan row.1
  let hash ← HashUtil.hashValue key
  HashJoinEntry.addRow hash key values hashTable

/-- The constructor. -/
def new (plan : HashJoinPlanNode) (left right : List (Tuple × RID)) :
    Except EvalFault HashJoinExecutor := do
  let hashTable ← left.foldlM (addLeft plan) []
  .ok { plan, hashTable, leftChild := { rows := left, rest := [] }
        rightChild := { rows := right, rest := right } }

omit [DoubleText] in
/-- `Init`. -/
def init (exec : HashJoinExecutor) : HashJoinExecutor :=
  { exec with
    leftChild := exec.leftChild.init
    rightChild := exec.rightChild.init
    nextPos := 0
    outerTableBuffer := [] }

/-- The rows of the hash table for a right tuple. -/
def lookup (plan : HashJoinPlanNode) (hashTable : List HashJoinEntry) (tuple : Tuple) :
    Except EvalFault (Option (List (List Value))) := do
  let key ← plan.rightJoinKeyExpression.evaluate tuple plan.rightSchema
  let hash ← HashUtil.hashValue key
  HashJoinEntry.find hash key hashTable

/-- The loop of `Next` over the right rows, up to one whose key is in the hash table: the
right tuple, the rows found for it and the right rows behind it. -/
def findRight (plan : HashJoinPlanNode) (hashTable : List HashJoinEntry) :
    List (Tuple × RID) → Except EvalFault (Option (Tuple × List (List Value)) × List (Tuple × RID))
  | [] => .ok (none, [])
  | row :: rest =>
      match lookup plan hashTable row.1 with
      | .error fault => .error fault
      | .ok none => findRight plan hashTable rest
      | .ok (some rows) => .ok (some (row.1, rows), rest)

/-- The end of `Next`: the output for the next row of the buffer. -/
def emitNext (exec : HashJoinExecutor) (tuple : Tuple) :
    Except EvalFault (Option Tuple × HashJoinExecutor × Tuple) :=
  match exec.outerTableBuffer[exec.nextPos]? with
  | none => .error .noSuchEntry
  | some values =>
      match outputTuple exec.plan values tuple with
      | .error fault => .error fault
      | .ok output => .ok (some output, { exec with nextPos := exec.nextPos + 1 }, output)

/-- `Next`, with the caller's tuple as part of the state; the right child writes to it. -/
def next : HashJoinExecutor × Tuple → Except EvalFault (Option Tuple × HashJoinExecutor × Tuple)
  | (exec, tuple) =>
      if exec.nextPos ≥ exec.outerTableBuffer.length then
        match findRight exec.plan exec.hashTable exec.rightChild.rest with
        | .error fault => .error fault
        | .ok (none, rest) =>
            .ok (none, { exec with rightChild := { exec.rightChild with rest } },
              (exec.rightChild.rest.getLast?.map Prod.fst).getD tuple)
        | .ok (some (rightTuple, rows), rest) =>
            emitNext { exec with
              rightChild := { exec.rightChild with rest }
              outerTableBuffer := rows
              nextPos := 0 } rightTuple
      else emitNext exec tuple

end HashJoinExecutor

end BusTub
