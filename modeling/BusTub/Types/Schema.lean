import BusTub.Common
import BusTub.Types.Value

/-! # Expressions and schemas

`AbstractExpression` as the tree of its four subclasses, and `Schema`: columns side
by side, each of them at the offset where the one before it ends.
-/

namespace BusTub

/-- `AbstractExpression`; the return types of the nodes are not used. -/
inductive Expression where
  /-- `ColumnValueExpression`; tuple `0` is the left side of a join. -/
  | columnValue (tupleIdx colIdx : Nat)
  /-- `ConstantValueExpression`. -/
  | constantValue (val : Value)
  /-- `ComparisonExpression`. -/
  | comparison (left right : Expression) (compType : ComparisonType)
  /-- `AggregateValueExpression`. -/
  | aggregateValue (isGroupByTerm : Bool) (termIdx : Nat)
  deriving DecidableEq, Repr

/-- `Column`. -/
structure Column where
  columnName : String
  columnType : TypeId
  /-- The expression used to create the column. -/
  expr : Option Expression := none
  deriving DecidableEq, Repr

/-- `Type::GetTypeSize` where it is not `0`. -/
def typeSize : TypeId → Nat
  | .boolean => 1
  | .tinyint => 1
  | .smallint => 2
  | .integer => 4
  | .bigint => 8
  | .decimal => 8
  | .varchar => 12

namespace Column

/-- `IsInlined`. -/
def isInlined (column : Column) : Bool := column.columnType != .varchar

/-- `fixed_length_`. -/
def fixedLength (column : Column) : Nat := typeSize column.columnType

end Column

/-- `Schema`, by the columns it is constructed from. -/
structure Schema where
  columns : List Column
  deriving DecidableEq, Repr

namespace Schema

/-- The loop of the constructor: every column with its `column_offset_`. -/
def placeFrom : Nat → List Column → List (Nat × Column)
  | _, [] => []
  | currOffset, column :: rest =>
      (currOffset, column) :: placeFrom (toUInt32 (currOffset + column.fixedLength)) rest

/-- The columns of the schema with their offsets. -/
def placed (schema : Schema) : List (Nat × Column) := placeFrom 0 schema.columns

/-- The sum of the column lengths. -/
def fixedLength (schema : Schema) : Nat := (schema.columns.map Column.fixedLength).sum

/-- `length_`. -/
def length (schema : Schema) : Nat :=
  schema.columns.foldl (fun currOffset column => toUInt32 (currOffset + column.fixedLength)) 0

/-- `GetColIdx`: the first column with the name. -/
def getColIdx (schema : Schema) (colName : String) : Option Nat :=
  schema.columns.findIdx? (fun column => column.columnName == colName)

end Schema

end BusTub
