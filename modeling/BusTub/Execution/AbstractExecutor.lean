import BusTub.Execution.GroupTables
import BusTub.Execution.HashJoinExecutor
import BusTub.Library.Cursor

/-! # Trees of executors

`Init` and `Next` of the executors that read, over children that are executors
themselves, and `ExecutorFactory::CreateExecutor`. A loop over the rows of a child takes
as many turns as the child has rows; the loops are given a number of turns that they do
not exceed. Record ids are left out: no executor reads the one that a child hands out.
-/

namespace BusTub

/-- Why a constructor, `Init` or `Next` does not return. -/
inductive PlanFault where
  /-- The metadata of a table that does not exist is used. -/
  | nullInfo
  | executor (fault : ExecutorFault)
  /-- A loop takes more turns than it is given. -/
  | exhausted
  deriving DecidableEq, Repr

/-- A value that could not be computed stops the executor. -/
def PlanFault.eval (fault : EvalFault) : PlanFault := .executor (.eval fault)

/-- `AbstractExecutor`: `Next` is called with the tuple that it writes to. -/
abbrev AbstractExecutor := Cursor.{0} Tuple PlanFault

/-! ## Sequential scans -/

namespace SeqScanExecutor

/-- `SeqScanExecutor`. -/
def abstractExecutor [DoubleText] (pool : PagePool) (tableInfo : TableInfo)
    (plan : SeqScanPlanNode) : AbstractExecutor where
  State := SeqScanExecutor
  start := new tableInfo plan
  init exec :=
    match exec.init pool with
    | .error fault => .error (.executor (.heap fault))
    | .ok exec => .ok exec
  next exec tuple :=
    match exec.next pool with
    | .error fault => .error (.executor fault)
    | .ok (none, exec) => .ok (false, tuple, exec)
    | .ok (some output, exec) => .ok (true, output.1, exec)

end SeqScanExecutor

/-! ## Limits -/

/-- `LimitExecutor`. -/
structure LimitExecutor (σ : Type) where
  childExecutor : σ
  numTuples : UInt64 := 0

/-- `LimitExecutor`. -/
def LimitExecutor.abstractExecutor (limit : UInt64) (child : AbstractExecutor) :
    AbstractExecutor where
  State := LimitExecutor child.State
  start := { childExecutor := child.start }
  init exec :=
    match child.init exec.childExecutor with
    | .error fault => .error fault
    | .ok childExecutor => .ok { childExecutor, numTuples := 0 }
  next exec tuple :=
    if exec.numTuples < limit then
      match child.next exec.childExecutor tuple with
      | .error fault => .error fault
      | .ok (found, tuple, childExecutor) =>
          .ok (found, tuple, { childExecutor, numTuples := exec.numTuples + 1 })
    else .ok (false, tuple, { exec with numTuples := exec.numTuples + 1 })

/-! ## Rows without duplicates -/

/-- `DistinctExecutor`. -/
structure DistinctExecutor (σ : Type) where
  childExecutor : σ
  hashTable : List (KeyedEntry Unit) := []

namespace DistinctExecutor

variable [DoubleText] (outputSchema : Schema) (child : AbstractExecutor)

/-- The loop of `Next`. -/
def nextLoop : Nat → DistinctExecutor child.State → Tuple →
    Except PlanFault (Bool × Tuple × DistinctExecutor child.State)
  | 0, _, _ => .error .exhausted
  | fuel + 1, exec, tuple =>
      match child.next exec.childExecutor tuple with
      | .error fault => .error fault
      | .ok (false, tuple, childExecutor) => .ok (false, tuple, { exec with childExecutor })
      | .ok (true, tuple, childExecutor) =>
          match addDistinct outputSchema exec.hashTable tuple with
          | .error fault => .error (.eval fault)
          | .ok none => nextLoop fuel { exec with childExecutor } tuple
          | .ok (some hashTable) => .ok (true, tuple, { childExecutor, hashTable })

/-- `DistinctExecutor`. -/
def abstractExecutor (fuel : Nat) : AbstractExecutor where
  State := DistinctExecutor child.State
  start := { childExecutor := child.start }
  init exec :=
    match child.init exec.childExecutor with
    | .error fault => .error fault
    | .ok childExecutor => .ok { childExecutor, hashTable := [] }
  next exec tuple := nextLoop outputSchema child fuel exec tuple

end DistinctExecutor

/-! ## Aggregations -/

/-- `AggregationPlanNode`, with the output schema of the child's plan. -/
structure GroupingPlanNode extends AggregationPlanNode where
  childSchema : Schema
  groupBys : List Expression
  aggregates : List Expression
  aggTypes : List AggregationType
  deriving DecidableEq, Repr

/-- The order in which an iterator goes through the groups of an `unordered_map`, when they
were inserted in the order of the list. -/
abbrev IterationOrder := List AggregateGroup → List AggregateGroup

/-- `AggregationExecutor`, with its child. -/
structure GroupingExecutor (σ : Type) where
  child : σ
  exec : AggregationExecutor

namespace GroupingExecutor

variable [DoubleText] [ValueArithmetic] [ValueExtremes]

/-- One turn of the loop of the constructor. Without GROUP BY the key is the initial value of
the aggregates all the time. -/
def addRow (plan : GroupingPlanNode) (aht : List (KeyedEntry (List Value))) (tuple : Tuple) :
    Except PlanFault (List (KeyedEntry (List Value))) :=
  let filled : Except EvalFault (List (KeyedEntry (List Value))) := do
    let key ← if plan.groupBys.isEmpty then
        .ok (SimpleAggregationHashTable.generateInitialAggregateValue plan.aggTypes)
      else plan.groupBys.mapM (Expression.evaluate tuple plan.childSchema)
    let value ← plan.aggregates.mapM (Expression.evaluate tuple plan.childSchema)
    SimpleAggregationHashTable.insertCombine plan.aggTypes key value aht
  match filled with
  | .error fault => .error (.eval fault)
  | .ok aht => .ok aht

/-- The groups that the table has. -/
def groups (order : IterationOrder) (aht : List (KeyedEntry (List Value))) :
    List AggregateGroup :=
  order (aht.map fun entry => { groupBys := entry.key, aggregates := entry.value })

/-- `AggregationExecutor`, when its table is filled. The iterator is that of the empty table
until `Init` is called. -/
def overTable (plan : AggregationPlanNode) (aht : List AggregateGroup)
    (child : AbstractExecutor) (filledChild : child.State) : AbstractExecutor where
  State := GroupingExecutor child.State
  start := { child := filledChild, exec := { plan, aht, ahtIterator := [] } }
  init exec :=
    match child.init exec.child with
    | .error fault => .error fault
    | .ok child => .ok { child, exec := exec.exec.init }
  next exec tuple :=
    match exec.exec.next with
    | .error fault => .error (.eval fault)
    | .ok (none, inner) => .ok (false, tuple, { exec with exec := inner })
    | .ok (some output, inner) => .ok (true, output, { exec with exec := inner })

/-- The constructor. -/
def new (plan : GroupingPlanNode) (order : IterationOrder) (child : AbstractExecutor)
    (fuel : Nat) : Except PlanFault AbstractExecutor :=
  match child.init child.start with
  | .error fault => .error fault
  | .ok opened =>
      match child.consume .exhausted (addRow plan) fuel [] opened [] with
      | .error fault => .error fault
      | .ok (aht, filledChild) =>
          .ok (overTable plan.toAggregationPlanNode (groups order aht) child filledChild)

end GroupingExecutor

/-! ## Nested loop joins -/

/-- `NestedLoopJoinExecutor`, with executors as children. -/
structure LoopJoinExecutor (σ τ : Type) where
  leftExecutor : σ
  rightExecutor : τ
  leftTuple : Tuple := []
  /-- It has no value before `Init`; it is taken for false then. -/
  isLeftSelected : Bool := false

namespace LoopJoinExecutor

/-- The output tuple for a pair of rows. -/
def outputTuple (plan : NestedLoopJoinPlanNode) (leftTuple rightTuple : Tuple) :
    Except EvalFault Tuple := do
  let values ← outputValues (NestedLoopJoinExecutor.readColumn plan leftTuple rightTuple)
    plan.outputSchema
  Tuple.ofValues values plan.outputSchema

variable [DoubleText]

/-- The predicate holds for a pair of rows. -/
def passes (plan : NestedLoopJoinPlanNode) (leftTuple rightTuple : Tuple) :
    Except EvalFault Bool :=
  passesIn (Context.ofJoin leftTuple plan.leftSchema rightTuple plan.rightSchema)
    (Expression.orTrue plan.predicate)

variable (plan : NestedLoopJoinPlanNode) (left right : AbstractExecutor)

/-- The two loops of `Next` as one: a turn is a call of the right child. -/
def nextLoop : Nat → LoopJoinExecutor left.State right.State → Tuple →
    Except PlanFault (Option Tuple × LoopJoinExecutor left.State right.State)
  | 0, _, _ => .error .exhausted
  | fuel + 1, exec, rightTuple =>
      match right.next exec.rightExecutor rightTuple with
      | .error fault => .error fault
      | .ok (false, rightTuple, rightExecutor) =>
          match left.next exec.leftExecutor exec.leftTuple with
          | .error fault => .error fault
          | .ok (false, leftTuple, leftExecutor) =>
              .ok (none, { exec with leftExecutor, rightExecutor, leftTuple })
          | .ok (true, leftTuple, leftExecutor) =>
              match right.init rightExecutor with
              | .error fault => .error fault
              | .ok rightExecutor =>
                  nextLoop fuel { exec with leftExecutor, rightExecutor, leftTuple } rightTuple
      | .ok (true, rightTuple, rightExecutor) =>
          match passes plan exec.leftTuple rightTuple with
          | .error fault => .error (.eval fault)
          | .ok false => nextLoop fuel { exec with rightExecutor } rightTuple
          | .ok true =>
              match outputTuple plan exec.leftTuple rightTuple with
              | .error fault => .error (.eval fault)
              | .ok output => .ok (some output, { exec with rightExecutor })

/-- `NestedLoopJoinExecutor`. -/
def abstractExecutor (fuel : Nat) : AbstractExecutor where
  State := LoopJoinExecutor left.State right.State
  start := { leftExecutor := left.start, rightExecutor := right.start }
  init exec :=
    match left.init exec.leftExecutor with
    | .error fault => .error fault
    | .ok leftExecutor =>
        match right.init exec.rightExecutor with
        | .error fault => .error fault
        | .ok rightExecutor =>
            match left.next leftExecutor exec.leftTuple with
            | .error fault => .error fault
            | .ok (isLeftSelected, leftTuple, leftExecutor) =>
                .ok { leftExecutor, rightExecutor, leftTuple, isLeftSelected }
  next exec tuple :=
    if exec.isLeftSelected then
      match nextLoop plan left right fuel exec [] with
      | .error fault => .error fault
      | .ok (none, exec) => .ok (false, tuple, exec)
      | .ok (some output, exec) => .ok (true, output, exec)
    else .ok (false, tuple, exec)

end LoopJoinExecutor

/-! ## Hash joins -/

/-- `HashJoinExecutor`, with executors as children. -/
structure HashedJoinExecutor (σ τ : Type) where
  leftExecutor : σ
  rightExecutor : τ
  nextPos : Nat := 0
  outerTableBuffer : List (List Value) := []

namespace HashedJoinExecutor

variable [DoubleText]

/-- One turn of the loop of the constructor. -/
def addLeft (plan : HashJoinPlanNode) (hashTable : List HashJoinEntry) (leftTuple : Tuple) :
    Except PlanFault (List HashJoinEntry) :=
  let filled : Except EvalFault (List HashJoinEntry) := do
    let key ← plan.leftJoinKeyExpression.evaluate leftTuple plan.leftSchema
    let values ← HashJoinExecutor.leftValues plan leftTuple
    let hash ← HashUtil.hashValue key
    HashJoinEntry.addRow hash key values hashTable
  match filled with
  | .error fault => .error (.eval fault)
  | .ok hashTable => .ok hashTable

variable (plan : HashJoinPlanNode) (hashTable : List HashJoinEntry)
  (left right : AbstractExecutor)

omit [DoubleText] in
/-- The end of `Next`: the output for the next row of the buffer. -/
def emitNext (exec : HashedJoinExecutor left.State right.State) (tuple : Tuple) :
    Except PlanFault (Bool × Tuple × HashedJoinExecutor left.State right.State) :=
  match exec.outerTableBuffer[exec.nextPos]? with
  | none => .error (.eval .noSuchEntry)
  | some values =>
      match HashJoinExecutor.outputTuple plan values tuple with
      | .error fault => .error (.eval fault)
      | .ok output => .ok (true, output, { exec with nextPos := exec.nextPos + 1 })

/-- The loop of `Next` over the right rows, with the end of `Next`. -/
def nextLoop : Nat → HashedJoinExecutor left.State right.State → Tuple →
    Except PlanFault (Bool × Tuple × HashedJoinExecutor left.State right.State)
  | 0, _, _ => .error .exhausted
  | fuel + 1, exec, tuple =>
      match right.next exec.rightExecutor tuple with
      | .error fault => .error fault
      | .ok (false, tuple, rightExecutor) => .ok (false, tuple, { exec with rightExecutor })
      | .ok (true, tuple, rightExecutor) =>
          match HashJoinExecutor.lookup plan hashTable tuple with
          | .error fault => .error (.eval fault)
          | .ok none => nextLoop fuel { exec with rightExecutor } tuple
          | .ok (some rows) =>
              emitNext plan left right
                { exec with rightExecutor, outerTableBuffer := rows, nextPos := 0 } tuple

/-- `HashJoinExecutor`, when its hash table is built. -/
def overTable (builtLeft : left.State) (openedRight : right.State) (fuel : Nat) :
    AbstractExecutor where
  State := HashedJoinExecutor left.State right.State
  start := { leftExecutor := builtLeft, rightExecutor := openedRight }
  init exec :=
    match left.init exec.leftExecutor with
    | .error fault => .error fault
    | .ok leftExecutor =>
        match right.init exec.rightExecutor with
        | .error fault => .error fault
        | .ok rightExecutor =>
            .ok { leftExecutor, rightExecutor, nextPos := 0, outerTableBuffer := [] }
  next exec tuple :=
    if exec.nextPos ≥ exec.outerTableBuffer.length then
      nextLoop plan hashTable left right fuel exec tuple
    else emitNext plan left right exec tuple

/-- The constructor. -/
def new (fuel : Nat) : Except PlanFault AbstractExecutor :=
  match left.init left.start with
  | .error fault => .error fault
  | .ok openedLeft =>
      match right.init right.start with
      | .error fault => .error fault
      | .ok openedRight =>
          match left.consume .exhausted (addLeft plan) fuel [] openedLeft [] with
          | .error fault => .error fault
          | .ok (hashTable, builtLeft) =>
              .ok (overTable plan hashTable left right builtLeft openedRight fuel)

end HashedJoinExecutor

/-! ## Plan trees -/

/-- `AbstractPlanNode`, with the plan nodes that the executors of this module have. -/
inductive AbstractPlanNode where
  | seqScan (plan : SeqScanPlanNode)
  | limit (outputSchema : Schema) (limit : UInt64) (child : AbstractPlanNode)
  | distinct (outputSchema : Schema) (child : AbstractPlanNode)
  | aggregation (outputSchema : Schema) (having : Option Expression) (groupBys : List Expression)
      (aggregates : List Expression) (aggTypes : List AggregationType) (child : AbstractPlanNode)
  | nestedLoopJoin (outputSchema : Schema) (predicate : Option Expression)
      (left right : AbstractPlanNode)
  | hashJoin (outputSchema : Schema) (leftJoinKeyExpression : Expression)
      (rightJoinKeyExpression : Expression) (left right : AbstractPlanNode)
  deriving DecidableEq, Repr

namespace AbstractPlanNode

/-- `OutputSchema`. -/
def outputSchema : AbstractPlanNode → Schema
  | seqScan plan => plan.outputSchema
  | limit outputSchema _ _ => outputSchema
  | distinct outputSchema _ => outputSchema
  | aggregation outputSchema _ _ _ _ _ => outputSchema
  | nestedLoopJoin outputSchema _ _ _ => outputSchema
  | hashJoin outputSchema _ _ _ _ => outputSchema

end AbstractPlanNode

/-- What executors are created over. -/
structure PlanContext where
  bpm : PagePool
  catalog : Catalog
  order : IterationOrder
  /-- The turns that a loop is given. -/
  fuel : Nat

variable [DoubleText] [ValueArithmetic] [ValueExtremes]

/-- `ExecutorFactory::CreateExecutor`. -/
def createExecutor (ctx : PlanContext) : AbstractPlanNode → Except PlanFault AbstractExecutor
  | .seqScan plan =>
      match ctx.catalog.getTable plan.tableOid with
      | none => .error .nullInfo
      | some tableInfo => .ok (SeqScanExecutor.abstractExecutor ctx.bpm tableInfo plan)
  | .limit _ limit child =>
      match createExecutor ctx child with
      | .error fault => .error fault
      | .ok childExecutor => .ok (LimitExecutor.abstractExecutor limit childExecutor)
  | .distinct outputSchema child =>
      match createExecutor ctx child with
      | .error fault => .error fault
      | .ok childExecutor =>
          .ok (DistinctExecutor.abstractExecutor outputSchema childExecutor ctx.fuel)
  | .aggregation outputSchema having groupBys aggregates aggTypes child =>
      match createExecutor ctx child with
      | .error fault => .error fault
      | .ok childExecutor =>
          GroupingExecutor.new { outputSchema, having, groupBys, aggregates, aggTypes
                                 childSchema := child.outputSchema }
            ctx.order childExecutor ctx.fuel
  | .nestedLoopJoin outputSchema predicate left right =>
      match createExecutor ctx left with
      | .error fault => .error fault
      | .ok leftExecutor =>
          match createExecutor ctx right with
          | .error fault => .error fault
          | .ok rightExecutor => .ok (LoopJoinExecutor.abstractExecutor
              { outputSchema, predicate, leftSchema := left.outputSchema
                rightSchema := right.outputSchema } leftExecutor rightExecutor ctx.fuel)
  | .hashJoin outputSchema leftJoinKeyExpression rightJoinKeyExpression left right =>
      match createExecutor ctx left with
      | .error fault => .error fault
      | .ok leftExecutor =>
          match createExecutor ctx right with
          | .error fault => .error fault
          | .ok rightExecutor => HashedJoinExecutor.new
              { outputSchema, leftJoinKeyExpression, rightJoinKeyExpression
                leftSchema := left.outputSchema, rightSchema := right.outputSchema }
              leftExecutor rightExecutor ctx.fuel

end BusTub
