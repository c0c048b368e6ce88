import BusTub.Library.Double
import BusTub.Library.LittleEndian

/-! # Values

`Value`: a value of one of the types that `k_types` has an instance for. The type
`TIMESTAMP` has none, so that every call on such a value is a null dereference. A
value is built with its content; NULL is a content of its own for every type.
-/

namespace BusTub

/-- `TypeId`. -/
inductive TypeId where
  | boolean
  | tinyint
  | smallint
  | integer
  | bigint
  | decimal
  | varchar
  deriving DecidableEq, Repr

/-- `CmpBool`. -/
inductive CmpBool where
  | cmpFalse
  | cmpTrue
  | cmpNull
  deriving DecidableEq, Repr

/-- `ComparisonType`. -/
inductive ComparisonType where
  | equal
  | notEqual
  | lessThan
  | lessThanOrEqual
  | greaterThan
  | greaterThanOrEqual
  deriving DecidableEq, Repr

/-- Why a value or a tuple cannot be computed. -/
inductive EvalFault where
  /-- `assert(left.CheckComparable(right))`. -/
  | notComparable
  /-- `assert(len1 >= 0)` of `CompareStrings`. -/
  | negativeLength
  /-- "Numeric value out of range." -/
  | outOfRange
  /-- "Boolean value format error." -/
  | booleanFormat
  /-- `std::invalid_argument` of `stoi`, `stoll` and `stod`. -/
  | invalidArgument
  /-- "VARCHAR is not coercable to", and the like. -/
  | notCoercable
  /-- A byte of an address is taken for a truth value. -/
  | addressRead
  /-- A read or a write outside the bytes of a tuple. -/
  | outOfBounds
  /-- An index beyond the end of a vector. -/
  | noSuchEntry
  /-- "Aggregation should only refer to group-by and aggregates." -/
  | unreachable
  /-- The expression of an output column is missing or of another class. -/
  | noColumnExpression
  deriving DecidableEq, Repr

/-- `BUSTUB_VALUE_NULL`, the length of a `VARCHAR` that is NULL. -/
def valueNull : Nat := 2 ^ 32 - 1

/-- The bytes of a `VARCHAR` that is not NULL. -/
structure Varlen where
  data : List UInt8
  fits : data.length < valueNull
  deriving DecidableEq, Repr

/-- `Value`. -/
inductive Value where
  | boolean (value : Int8)
  | tinyint (value : Int8)
  | smallint (value : Int16)
  | integer (value : Int32)
  | bigint (value : Int64)
  | decimal (value : Double)
  | varchar (value : Option Varlen)
  deriving DecidableEq, Repr

/-- `BUSTUB_DECIMAL_NULL`, the lowest double. -/
def decimalNull : Double := 0xFFEFFFFFFFFFFFFF

namespace Value

/-- `GetTypeId`. -/
def getTypeId : Value → TypeId
  | .boolean _ => .boolean
  | .tinyint _ => .tinyint
  | .smallint _ => .smallint
  | .integer _ => .integer
  | .bigint _ => .bigint
  | .decimal _ => .decimal
  | .varchar _ => .varchar

/-- `IsNull`. -/
def isNull : Value → Bool
  | .boolean value => value == Int8.minValue
  | .tinyint value => value == Int8.minValue
  | .smallint value => value == Int16.minValue
  | .integer value => value == Int32.minValue
  | .bigint value => value == Int64.minValue
  | .decimal value => value == decimalNull
  | .varchar value => value.isNone

/-- `CheckComparable`. -/
def checkComparable (left right : Value) : Bool :=
  match left.getTypeId with
  | .boolean => right.getTypeId == .boolean || right.getTypeId == .varchar
  | .tinyint | .smallint | .integer | .bigint | .decimal => right.getTypeId != .boolean
  | .varchar => true

/-- `GetCmpBool`. -/
def getCmpBool (b : Bool) : CmpBool := if b then .cmpTrue else .cmpFalse

/-- `GetBooleanValue` of a `CmpBool`. -/
def getBooleanValue : CmpBool → Value
  | .cmpFalse => .boolean 0
  | .cmpTrue => .boolean 1
  | .cmpNull => .boolean Int8.minValue

/-- `GetAs<bool>`: whether the lowest byte of the content is set. -/
def getAsBool : Value → Except EvalFault Bool
  | .boolean value => .ok (value != 0)
  | .tinyint value => .ok (value != 0)
  | .smallint value => .ok (value.toUInt16.toNat % 2 ^ 8 != 0)
  | .integer value => .ok (value.toUInt32.toNat % 2 ^ 8 != 0)
  | .bigint value => .ok (value.toUInt64.toNat % 2 ^ 8 != 0)
  | .decimal value => .ok (value.toNat % 2 ^ 8 != 0)
  | .varchar _ => .error .addressRead

end Value

namespace ComparisonType

/-- The operator on integers. -/
def int : ComparisonType → Int → Int → Bool
  | .equal, x, y => x == y
  | .notEqual, x, y => x != y
  | .lessThan, x, y => x < y
  | .lessThanOrEqual, x, y => x ≤ y
  | .greaterThan, x, y => y < x
  | .greaterThanOrEqual, x, y => y ≤ x

/-- The operator on doubles. -/
def double : ComparisonType → Double → Double → Bool
  | .equal, x, y => x.eq y
  | .notEqual, x, y => !x.eq y
  | .lessThan, x, y => x.lt y
  | .lessThanOrEqual, x, y => x.lt y || x.eq y
  | .greaterThan, x, y => y.lt x
  | .greaterThanOrEqual, x, y => y.lt x || y.eq x

end ComparisonType

/-! ## Casts -/

/-- What the C++ library does with the text of a double. -/
class DoubleText where
  /-- `std::to_string`. -/
  toString : Double → List UInt8
  /-- `std::stod`. -/
  stod : List UInt8 → Except EvalFault Double

/-- The text of doubles where no double is converted. -/
@[reducible] def noDoubleText : DoubleText where
  toString _ := []
  stod _ := .error .invalidArgument

/-- The bytes of a string literal. -/
def textBytes (text : String) : List UInt8 := text.toList.map fun c => UInt8.ofNat c.toNat

/-- `isspace`. -/
def isSpace (byte : UInt8) : Bool := byte == 32 || (9 ≤ byte && byte ≤ 13)

/-- `isdigit`. -/
def isDigit (byte : UInt8) : Bool := 48 ≤ byte && byte ≤ 57

/-- The number that decimal digits stand for. -/
def digitsValue (digits : List UInt8) : Nat :=
  digits.foldl (fun value byte => 10 * value + (byte.toNat - 48)) 0

/-- `std::stoi` for 32 bits, `std::stoll` for 64: what follows the digits is ignored. -/
def stringToInt (width : Nat) (str : List UInt8) : Except EvalFault Int :=
  let str := str.dropWhile isSpace
  let negative := str.head? == some 45
  let str := if str.head? == some 45 || str.head? == some 43 then str.drop 1 else str
  let digits := str.takeWhile isDigit
  if digits = [] then .error .invalidArgument
  else
    let value : Int := if negative then -digitsValue digits else digitsValue digits
    if value < -2 ^ (width - 1) ∨ 2 ^ (width - 1) ≤ value then .error .outOfRange else .ok value

/-- The text of a `VARCHAR`: its last byte is the terminator. -/
def Varlen.text (value : Varlen) : List UInt8 := value.data.take (value.data.length - 1)

/-- The text of a `VARCHAR` as `CompareStrings` takes it: its length is an `int`. -/
def Varlen.comparedText (value : Varlen) : Except EvalFault (List UInt8) :=
  if 0 < value.data.length ∧ value.data.length ≤ 2 ^ 31 then .ok value.text
  else .error .negativeLength

namespace Value

variable [DoubleText]

/-- `ToString`. -/
def toString : Value → List UInt8
  | .boolean value =>
      if value = 1 then textBytes "true" else if value = 0 then textBytes "false"
      else textBytes "boolean_null"
  | .tinyint value =>
      if value = Int8.minValue then textBytes "tinyint_null" else textBytes s!"{value.toInt}"
  | .smallint value =>
      if value = Int16.minValue then textBytes "smallint_null" else textBytes s!"{value.toInt}"
  | .integer value =>
      if value = Int32.minValue then textBytes "integer_null" else textBytes s!"{value.toInt}"
  | .bigint value =>
      if value = Int64.minValue then textBytes "bigint_null" else textBytes s!"{value.toInt}"
  | .decimal value =>
      if value = decimalNull then textBytes "decimal_null" else DoubleText.toString value
  | .varchar none => textBytes "varlen_null"
  | .varchar (some value) => value.text

/-- `CastAs` of the text of a `VARCHAR`, to a number or a truth value. -/
def castText (str : List UInt8) : TypeId → Except EvalFault Value
  | .boolean =>
      let str := str.map fun byte => if 65 ≤ byte && byte ≤ 90 then byte + 32 else byte
      if str = textBytes "true" ∨ str = textBytes "1" ∨ str = textBytes "t" then .ok (.boolean 1)
      else if str = textBytes "false" ∨ str = textBytes "0" ∨ str = textBytes "f" then
        .ok (.boolean 0)
      else .error .booleanFormat
  | .tinyint => do
      let tinyint := Int8.ofInt (← stringToInt 32 str)
      if tinyint.toInt < -127 then .error .outOfRange else .ok (.tinyint tinyint)
  | .smallint => do
      let smallint := Int16.ofInt (← stringToInt 32 str)
      if smallint.toInt < -32767 then .error .outOfRange else .ok (.smallint smallint)
  | .integer => do .ok (.integer (Int32.ofInt (← stringToInt 32 str)))
  | .bigint => do
      let bigint ← stringToInt 64 str
      if bigint > 2 ^ 63 - 1 ∨ bigint < -2 ^ 63 + 1 then .error .outOfRange
      else .ok (.bigint (Int64.ofInt bigint))
  | .decimal => do
      let res ← DoubleText.stod str
      if Double.lt 0x7FEFFFFFFFFFFFFF res ∨ Double.lt res 0xC7EFFFFFE0000000 then
        .error .outOfRange
      else .ok (.decimal res)
  | .varchar => .error .notCoercable

/-! ## Comparisons -/

/-- The comparison of an integer with a value that is not NULL; a `VARCHAR` is cast to
the type of the integer. -/
def compareInt (op : ComparisonType) (typeId : TypeId) (left : Int) :
    Value → Except EvalFault CmpBool
  | .tinyint right => .ok (getCmpBool (op.int left right.toInt))
  | .smallint right => .ok (getCmpBool (op.int left right.toInt))
  | .integer right => .ok (getCmpBool (op.int left right.toInt))
  | .bigint right => .ok (getCmpBool (op.int left right.toInt))
  | .decimal right => .ok (getCmpBool (op.double (Double.ofInt left) right))
  | .varchar right => do
      match ← castText (toString (.varchar right)) typeId with
      | .tinyint right => .ok (getCmpBool (op.int left right.toInt))
      | .smallint right => .ok (getCmpBool (op.int left right.toInt))
      | .integer right => .ok (getCmpBool (op.int left right.toInt))
      | .bigint right => .ok (getCmpBool (op.int left right.toInt))
      | _ => .error .notCoercable
  | .boolean _ => .error .notComparable

/-- The comparison of a double with a value that is not NULL. -/
def compareDouble (op : ComparisonType) (left : Double) : Value → Except EvalFault CmpBool
  | .tinyint right => .ok (getCmpBool (op.double left (Double.ofInt right.toInt)))
  | .smallint right => .ok (getCmpBool (op.double left (Double.ofInt right.toInt)))
  | .integer right => .ok (getCmpBool (op.double left (Double.ofInt right.toInt)))
  | .bigint right => .ok (getCmpBool (op.double left (Double.ofInt right.toInt)))
  | .decimal right => .ok (getCmpBool (op.double left right))
  | .varchar right => do
      match ← castText (toString (.varchar right)) .decimal with
      | .decimal right => .ok (getCmpBool (op.double left right))
      | _ => .error .notCoercable
  | .boolean _ => .error .notComparable

/-- The comparison of a truth value with a value that is not NULL. -/
def compareBoolean (op : ComparisonType) (left : Int8) : Value → Except EvalFault CmpBool
  | .boolean right => .ok (getCmpBool (op.int left.toInt right.toInt))
  | .varchar right => do
      match ← castText (toString (.varchar right)) .boolean with
      | .boolean right => .ok (getCmpBool (op.int left.toInt right.toInt))
      | _ => .error .notCoercable
  | _ => .error .notComparable

/-- `CompareStrings`: the sign of the result orders the strings. -/
def compareStrings : List UInt8 → List UInt8 → Int
  | [], [] => 0
  | [], right => -right.length
  | left, [] => left.length
  | x :: left, y :: right =>
      if x = y then compareStrings left right else if x < y then -1 else 1

/-- The comparison of a `VARCHAR` with a value that is not NULL. -/
def compareVarlen (op : ComparisonType) (left : Varlen) :
    Value → Except EvalFault CmpBool
  | .varchar (some right) => do
      let str1 ← Varlen.comparedText left
      let str2 ← Varlen.comparedText right
      .ok (getCmpBool (op.int (compareStrings str1 str2) 0))
  | right => do
      let str1 ← Varlen.comparedText left
      .ok (getCmpBool (op.int (compareStrings str1 right.toString) 0))

/-- The six comparisons of a type: the same but for the operator. -/
def compare (op : ComparisonType) (left right : Value) : Except EvalFault CmpBool :=
  if !left.checkComparable right then .error .notComparable
  else if left.isNull || right.isNull then .ok .cmpNull
  else
    match left with
    | .boolean value => compareBoolean op value right
    | .tinyint value => compareInt op .tinyint value.toInt right
    | .smallint value => compareInt op .smallint value.toInt right
    | .integer value => compareInt op .integer value.toInt right
    | .bigint value => compareInt op .bigint value.toInt right
    | .decimal value => compareDouble op value right
    | .varchar (some value) => compareVarlen op value right
    | .varchar none => .ok .cmpNull

/-- `CompareEquals`. -/
def compareEquals (left right : Value) : Except EvalFault CmpBool := compare .equal left right

/-- `CompareNotEquals`. -/
def compareNotEquals (left right : Value) : Except EvalFault CmpBool :=
  compare .notEqual left right

/-- `CompareLessThan`. -/
def compareLessThan (left right : Value) : Except EvalFault CmpBool :=
  compare .lessThan left right

/-- `CompareLessThanEquals`. -/
def compareLessThanEquals (left right : Value) : Except EvalFault CmpBool :=
  compare .lessThanOrEqual left right

/-- `CompareGreaterThan`. -/
def compareGreaterThan (left right : Value) : Except EvalFault CmpBool :=
  compare .greaterThan left right

/-- `CompareGreaterThanEquals`. -/
def compareGreaterThanEquals (left right : Value) : Except EvalFault CmpBool :=
  compare .greaterThanOrEqual left right

end Value

end BusTub
