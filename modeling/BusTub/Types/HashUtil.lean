import BusTub.Library.LittleEndian
import BusTub.Types.Value

/-! # Hashes of values

`HashUtil`: the integers are hashed as 64-bit ones, a `VARCHAR` with all its bytes.
-/

namespace BusTub.HashUtil

/-- A `char` that takes part in an operation on 64-bit numbers: it is signed. -/
def signExtend (byte : UInt8) : UInt64 := byte.toInt8.toInt64.toUInt64

/-- `HashBytes`. -/
def hashBytes (bytes : List UInt8) : UInt64 :=
  bytes.foldl (fun hash byte => ((hash <<< 5) ^^^ (hash >>> 27)) ^^^ signExtend byte)
    (UInt64.ofNat bytes.length)

/-- `Hash<int64_t>`. -/
def hashInt (raw : Int) : UInt64 := hashBytes (toBytes 8 (Int64.ofInt raw).toUInt64.toNat)

/-- `HashValue`. -/
def hashValue : Value → Except EvalFault UInt64
  | .tinyint value => .ok (hashInt value.toInt)
  | .smallint value => .ok (hashInt value.toInt)
  | .integer value => .ok (hashInt value.toInt)
  | .bigint value => .ok (hashInt value.toInt)
  | .boolean value => .ok (hashBytes (toBytes 1 value.toUInt8.toNat))
  | .decimal value => .ok (hashBytes (toBytes 8 value.toNat))
  | .varchar (some value) => .ok (hashBytes value.data)
  -- The length of a NULL is that of its mark, and there are no bytes.
  | .varchar none => .error .outOfBounds

end BusTub.HashUtil
