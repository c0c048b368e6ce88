import BusTub.Concurrency.Transaction
import BusTub.Library.Memory
import BusTub.Types.Schema

/-! # Tuples as bytes

The constructor of `Tuple` from values and `GetValue`. A write outside the `size_`
bytes of the tuple under construction, or a read outside the bytes of a finished
one, is a fault.
-/

namespace BusTub

namespace Value

/-- `GetLength`, which only a `VARCHAR` has. -/
def getLength : Value → Except EvalFault Nat
  | .varchar none => .ok valueNull
  | .varchar (some value) => .ok value.data.length
  | _ => .error .notCoercable

/-- The bytes that `SerializeTo` writes. -/
def serialize : Value → List UInt8
  | .boolean value => toBytes 1 value.toUInt8.toNat
  | .tinyint value => toBytes 1 value.toUInt8.toNat
  | .smallint value => toBytes 2 value.toUInt16.toNat
  | .integer value => toBytes 4 value.toUInt32.toNat
  | .bigint value => toBytes 8 value.toUInt64.toNat
  | .decimal value => toBytes 8 value.toNat
  | .varchar none => toBytes 4 valueNull
  | .varchar (some value) => toBytes 4 value.data.length ++ value.data

end Value

namespace Tuple

/-- The bytes of the tuple from an offset on. -/
def slice (tuple : Tuple) (offset n : Nat) : Except EvalFault (List UInt8) :=
  if offset + n ≤ tuple.length then .ok ((tuple.drop offset).take n) else .error .outOfBounds

/-- `memcpy` to an offset of the tuple under construction. -/
def store (size : Nat) (data : Memory) (offset : Nat) (bytes : List UInt8) :
    Except EvalFault Memory :=
  if offset + bytes.length ≤ size then .ok (data.write offset bytes) else .error .outOfBounds

/-- The loop over the uninlined columns that adds up the size of the tuple. -/
def tupleSize : Nat → List ((Nat × Column) × Value) → Except EvalFault Nat
  | size, [] => .ok size
  | size, ((_, column), value) :: rest =>
      if column.isInlined then tupleSize size rest
      else do
        let length ← value.getLength
        tupleSize (toUInt32 (size + (length + 4))) rest

/-- The loop that serializes each attribute. -/
def serializeColumns (size : Nat) :
    Nat → Memory → List ((Nat × Column) × Value) → Except EvalFault Memory
  | _, data, [] => .ok data
  | offset, data, ((columnOffset, column), value) :: rest =>
      if column.isInlined then do
        let data ← store size data columnOffset value.serialize
        serializeColumns size offset data rest
      else do
        let data ← store size data columnOffset (toBytes 4 offset)
        let data ← store size data offset value.serialize
        let length ← value.getLength
        serializeColumns size (toUInt32 (offset + (length + 4))) data rest

/-- The constructor `Tuple(values, schema)`. -/
def ofValues (values : List Value) (schema : Schema) : Except EvalFault Tuple :=
  if values.length ≠ schema.columns.length then .error .noSuchEntry
  else do
    let size ← tupleSize schema.length (schema.placed.zip values)
    let data ← serializeColumns size schema.length Memory.zeros (schema.placed.zip values)
    .ok (data.read 0 size)

/-- `DeserializeFrom`, from an offset of the tuple. -/
def deserialize (tuple : Tuple) (offset : Nat) : TypeId → Except EvalFault Value
  | .boolean => do .ok (.boolean (UInt8.ofNat (ofBytes (← tuple.slice offset 1))).toInt8)
  | .tinyint => do .ok (.tinyint (UInt8.ofNat (ofBytes (← tuple.slice offset 1))).toInt8)
  | .smallint => do .ok (.smallint (UInt16.ofNat (ofBytes (← tuple.slice offset 2))).toInt16)
  | .integer => do .ok (.integer (UInt32.ofNat (ofBytes (← tuple.slice offset 4))).toInt32)
  | .bigint => do .ok (.bigint (UInt64.ofNat (ofBytes (← tuple.slice offset 8))).toInt64)
  | .decimal => do .ok (.decimal (UInt64.ofNat (ofBytes (← tuple.slice offset 8))))
  | .varchar => do
      let len := ofBytes (← tuple.slice offset 4)
      if len = valueNull then .ok (.varchar none)
      else
        let data ← tuple.slice (offset + 4) len
        if hfits : data.length < valueNull then .ok (.varchar (some ⟨data, hfits⟩))
        else .error .outOfBounds

/-- `GetDataPtr`: where the value of a column is. The offset of a `VARCHAR` is read as a
signed number. -/
def getDataPtr (tuple : Tuple) (columnOffset : Nat) (column : Column) : Except EvalFault Nat :=
  if column.isInlined then .ok columnOffset
  else do
    let offset := ofBytes (← tuple.slice columnOffset 4)
    if offset < 2 ^ 31 then .ok offset else .error .outOfBounds

/-- `GetValue`. -/
def getValue (tuple : Tuple) (schema : Schema) (columnIdx : Nat) : Except EvalFault Value :=
  match schema.placed[columnIdx]? with
  | none => .error .noSuchEntry
  | some (columnOffset, column) => do
      let dataPtr ← tuple.getDataPtr columnOffset column
      tuple.deserialize dataPtr column.columnType

/-- `KeyFromTuple`. -/
def keyFromTuple (tuple : Tuple) (schema keySchema : Schema) (keyAttrs : List Nat) :
    Except EvalFault Tuple := do
  let values ← keyAttrs.mapM (fun idx => tuple.getValue schema idx)
  ofValues values keySchema

end Tuple

end BusTub
