import BusTub.Types.TupleCodec

/-! # Evaluating expressions

The three evaluation methods of an expression are one recursion over the tree; they
differ in what columns and aggregates stand for.
-/

namespace BusTub

variable [DoubleText]

/-- `PerformComparison`. -/
def ComparisonType.performComparison (compType : ComparisonType) (lhs rhs : Value) :
    Except EvalFault CmpBool :=
  match compType with
  | .equal => lhs.compareEquals rhs
  | .notEqual => lhs.compareNotEquals rhs
  | .lessThan => lhs.compareLessThan rhs
  | .lessThanOrEqual => lhs.compareLessThanEquals rhs
  | .greaterThan => lhs.compareGreaterThan rhs
  | .greaterThanOrEqual => lhs.compareGreaterThanEquals rhs

theorem ComparisonType.performComparison_eq (compType : ComparisonType) (lhs rhs : Value) :
    compType.performComparison lhs rhs = Value.compare compType lhs rhs := by
  cases compType <;> rfl

/-- What the leaves of an expression stand for. -/
structure Context where
  /-- `ColumnValueExpression`. -/
  column : Nat → Nat → Except EvalFault Value
  /-- `AggregateValueExpression`. -/
  aggregate : Bool → Nat → Except EvalFault Value

namespace Context

/-- The context of `Evaluate`. -/
def ofTuple (tuple : Tuple) (schema : Schema) : Context where
  column _ colIdx := tuple.getValue schema colIdx
  aggregate _ _ := .error .unreachable

/-- The context of `EvaluateJoin`. -/
def ofJoin (leftTuple : Tuple) (leftSchema : Schema) (rightTuple : Tuple) (rightSchema : Schema) :
    Context where
  column tupleIdx colIdx :=
    if tupleIdx = 0 then leftTuple.getValue leftSchema colIdx
    else rightTuple.getValue rightSchema colIdx
  aggregate _ _ := .error .unreachable

/-- The context of `EvaluateAggregate`. -/
def ofAggregate (groupBys aggregates : List Value) : Context where
  column _ _ := .error .unreachable
  aggregate isGroupByTerm termIdx :=
    match if isGroupByTerm then groupBys[termIdx]? else aggregates[termIdx]? with
    | some value => .ok value
    | none => .error .noSuchEntry

end Context

namespace Expression

/-- The recursion of the evaluation methods. -/
def evaluateIn (context : Context) : Expression → Except EvalFault Value
  | .columnValue tupleIdx colIdx => context.column tupleIdx colIdx
  | .constantValue val => .ok val
  | .comparison left right compType => do
      let lhs ← evaluateIn context left
      let rhs ← evaluateIn context right
      let result ← compType.performComparison lhs rhs
      .ok (Value.getBooleanValue result)
  | .aggregateValue isGroupByTerm termIdx => context.aggregate isGroupByTerm termIdx

/-- `Evaluate`. -/
def evaluate (tuple : Tuple) (schema : Schema) (expr : Expression) : Except EvalFault Value :=
  expr.evaluateIn (Context.ofTuple tuple schema)

/-- `EvaluateJoin`. -/
def evaluateJoin (leftTuple : Tuple) (leftSchema : Schema) (rightTuple : Tuple)
    (rightSchema : Schema) (expr : Expression) : Except EvalFault Value :=
  expr.evaluateIn (Context.ofJoin leftTuple leftSchema rightTuple rightSchema)

/-- `EvaluateAggregate`. -/
def evaluateAggregate (groupBys aggregates : List Value) (expr : Expression) :
    Except EvalFault Value :=
  expr.evaluateIn (Context.ofAggregate groupBys aggregates)

/-- The predicate of a filter; a null pointer stands for the constant `true`. -/
def orTrue (predicate : Option Expression) : Expression :=
  predicate.getD (.constantValue (.boolean 1))

end Expression

/-- `GetAs<bool>` of the value of a predicate, as the filters test it. -/
def passesIn (context : Context) (predicate : Expression) : Except EvalFault Bool := do
  let value ← predicate.evaluateIn context
  value.getAsBool

/-- The values of the output columns, from one reading of their expressions. -/
def outputValues (read : Expression → Except EvalFault Value) (schema : Schema) :
    Except EvalFault (List Value) :=
  schema.columns.mapM fun column =>
    match column.expr with
    | some expr => read expr
    | none => .error .noColumnExpression

end BusTub
